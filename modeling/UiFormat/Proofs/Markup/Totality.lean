/-
# UiFormat.Proofs.Markup.Totality -- the parser reads every source to its end

Four things make the parser total.  Its loops end by themselves, because a round that goes
on takes a token (`LoopEnds`, `RefiningEnds`).  Its readers call each other only as deep as
the limits allow, and the counters of open tags and open expressions are back where they
were behind each element and each expression (`Mirrors`).  A quoted fragment, which is
parsed like a source, is shorter than the source it was found in.  And the loop over the
document has one way out: no token but the closing one is left (`rest_of_documentRound`).

Main statement: `total_parse`.
-/
import UiFormat.Proofs.Markup.Nesting
import UiFormat.Proofs.Markup.Fragments

namespace UiFormat.Markup

open UiFormat.Text
open UiFormat.Parse

set_option autoImplicit false

/-! ## The end of the document -/

/-- The loop over the document goes on as long as tokens are left. -/
theorem rest_of_documentRound (node : MarkupParser (Option Node)) (s : State Kind Problem)
    (ends : (documentRound node s).1.goesOn = false) : (documentRound node s).2.rest = [] := by
  have whole : documentRound node s =
      (if s.rest.isEmpty = true then pure .stop else nodeRound node :
        MarkupParser (Round Node)) s := rfl
  rw [whole] at ends ⊢
  split at ends
  · rename_i empty
    rw [if_pos empty]
    exact List.isEmpty_iff.1 empty
  · rw [nodeRound, run_bind] at ends
    cases found : (node s).1 with
    | none =>
        rw [found] at ends
        cases ends
    | some n =>
        rw [found] at ends
        cases ends

theorem loopEnds_documentRound (reader : Text → Option Expr) :
    LoopEnds (documentRound (node expression reader elementLimit [])) :=
  loopEnds_of_below fun _ => below_documentRound (takes_node reader elementLimit [])

/-- A source is read to its closing token. -/
theorem readWith_state (reader : Text → Option Expr) (source : Text) :
    (readWith reader source).2 =
      { rest := [], closing := endToken source, errors := (parseWith reader source).errors } := by
  have rest : (readWith reader source).2.rest = [] :=
    ((loopEnds_documentRound reader).finishes _ (kind_endToken source)).of_round
      (P := fun s => s.rest = []) (rest_of_documentRound _)
  have closing : (readWith reader source).2.closing = endToken source :=
    Forward.closing_eq (p := document reader) (State.start (lexemes source) (endToken source))
  rw [parseWith_eq]
  generalize (readWith reader source).2 = last at rest closing
  obtain ⟨left, behind, errors⟩ := last
  obtain rfl : left = [] := rest
  obtain rfl : behind = endToken source := closing
  rfl

/-! ## The parser -/

/-- The parser is total on the source.

It reads the source to the closing token, also when it counts the open tags and
expressions, and then nothing is open.  From any state in front of an end token, each
round of a loop takes a token or ends the loop, and the loops end by themselves.  From any
counters, each element and each expression leaves them as they were and is what the plain
reader finds.  A parse reads only quoted fragments that are shorter than the source, and
whatever reads those by parsing them gives this parse. -/
structure Total (source : Text) : Prop where
  ends : readWith fragment? source = ((parse source).children,
    { rest := [], closing := endToken source, errors := (parse source).errors })
  closing : (readWith fragment? source).2.current.kind = .eof
  counted (fuel : Nat) (enough : expressionLimit < fuel) (room : elementLimit < fuel) :
    countedDocument fragment? fuel (State.start (lexemes source) (endToken source))
        Nesting.outermost =
      ((parse source).children, (readWith fragment? source).2, Nesting.outermost)
  documentLoop : LoopEnds (documentRound (node expression fragment? elementLimit []))
  childLoop (levels : Nat) (tag : Text) (openTags : List Text) :
    LoopEnds (childRound (node expression fragment? levels openTags) tag openTags)
  attributeLoop : LoopEnds (attributeRound expression fragment?)
  listLoop {α : Type} (closing : Char) (what : String) (item : MarkupParser α) [Forward item] :
    LoopEnds (listRound closing what item)
  postfixLoop (levels : Nat) : RefiningEnds (postfixRound (expressionAt levels))
  operatorLoop (build : Expr → Text → Expr → Expr) (ops : List String)
    (operand : MarkupParser Expr) [Forward operand] : RefiningEnds (binaryRound build ops operand)
  skipLoop (q : Tok → Bool) : LoopEnds (passRound q)
  skips (q : Tok → Bool) (s : State Kind Problem) :
    Finishes (passRound q) s (s.rest.takeWhile q) ((skipWhile q : MarkupParser Unit) s).2
  valueLoop : RefiningEnds adjacentRound
  value (stop : Nat) (s : State Kind Problem) (eof : s.closing.kind = .eof) :
    Refines adjacentRound stop s
      (((adjacentTokens stop s.rest).getLast?.map Token.stop).getD stop)
      { s with rest := s.rest.drop (adjacentTokens stop s.rest).length }
  expression (here : Nesting) (fuel : Nat) (enough : expressionLimit - here.depth < fuel) :
    Mirrors here (countedExpression fuel) (expressionInside here.depth)
  element (here : Nesting) (deep fuel : Nat) (enough : expressionLimit - here.depth < deep)
    (room : elementLimit - here.openTags.length ≤ fuel) :
    Mirrors here
      (countedElement (countedExpression deep) fragment?
        (countedNode (countedExpression deep) fragment? fuel))
      (element (expressionInside here.depth) fragment?
        (contentInside (expressionInside here.depth) fragment? here.openTags))
  fragment : fragmentWith fragment? = fragment?
  fragments (reader : Text → Option Expr)
    (solves : ∀ inner, (marked inner).length < source.length →
      reader inner = fragmentWith reader inner) :
    parseWith reader source = parse source
  shorter (reader other : Text → Option Expr)
    (same : ∀ inner, (marked inner).length < source.length → reader inner = other inner) :
    parseWith reader source = parseWith other source

/-- **The parser is total.**  It ends on every source, with the closing token next. -/
theorem total_parse (source : Text) : Total source where
  ends := Prod.ext rfl (readWith_state fragment? source)
  closing := by
    rw [readWith_state]
    exact kind_endToken source
  counted fuel enough room := (mirrors_countedDocument fragment? enough room).run_eq _
  documentLoop := loopEnds_documentRound fragment?
  childLoop levels tag openTags :=
    loopEnds_of_below fun _ => below_childRound (takes_node fragment? levels openTags) tag openTags
  attributeLoop := loopEnds_of_below (below_attributeRound fragment?)
  listLoop closing what _ := loopEnds_of_below (below_listRound closing what)
  postfixLoop _ := refiningEnds_of_below below_postfixRound
  operatorLoop build ops _ := refiningEnds_of_below (below_binaryRound build ops)
  skipLoop q := loopEnds_of_below fun _ => below_passRound q
  skips := finishes_skipWhile
  valueLoop := refiningEnds_of_below below_adjacentRound
  value := refines_adjacentTokens
  expression _ _ enough := mirrors_countedExpression enough
  element _ _ _ enough room := mirrors_countedElement enough room
  fragment := fragmentWith_eq fragment?
  fragments _ solves := parseWith_eq_parse solves
  shorter _ _ same := parseWith_congr same

end UiFormat.Markup

/-
# UiFormat.Proofs.Ets.ReflowedTokens -- reflowed texts have the same tokens

Reflowed texts open with the same token up to blanks, and are reflowed behind it, because the
token takes as many visible characters from both (`sameToken_of_reflowed`).  So they have
the same visible tokens one by one (`sameTokens_of_reflowed`): of the same kind, with the
same text where the kind does not tell all, and with the same text for a template literal
that is closed and of which every line feed is protected (`SameToken`).

Steady texts that are respaced are the case in which nothing is protected; their tokens are
counted alike (`tally_respaced`).
-/
import UiFormat.Proofs.Ets.Reflowing
import UiFormat.Proofs.Ets.LineAgreement
import Mathlib.Data.List.Forall2

namespace UiFormat.Ets

open UiFormat.Text
open UiFormat.Parse

set_option autoImplicit false

/-! ## Tokens one by one -/

/-- Whether an operand stands before what follows a token. -/
def operandAfter (operandBefore : Bool) (kind : Kind) (text : Text) : Bool :=
  if kind.isSignificant then endsOperand kind text else operandBefore

theorem operandAfter_congr {operandBefore : Bool} {kind : Kind} {text other : Text}
    (same : kind.isSpelled = true → text = other) :
    operandAfter operandBefore kind text = operandAfter operandBefore kind other := by
  cases kind with
  | keyword => rw [same rfl]
  | punctuator => rw [same rfl]
  | _ => rfl

theorem operandAfter_of_trivia {kind : Kind} (trivia : kind.isTrivia = true) (operandBefore : Bool)
    (text : Text) : operandAfter operandBefore kind text = operandBefore := by
  rw [operandAfter, Kind.isSignificant, trivia]
  rfl

theorem tokensFrom_cons {operandBefore : Bool} {c : Char} {rest : Text} {kind : Kind} {extra : Nat}
    (here : lexeme operandBefore c rest = (kind, extra)) (p : Position) :
    tokensFrom p operandBefore (c :: rest) =
      Token.at p kind (c :: rest.take extra) (c :: rest.take extra).length ::
        tokensFrom (p.pastLines (c :: rest.take extra))
          (operandAfter operandBefore kind (c :: rest.take extra)) (rest.drop extra) := by
  rw [tokensFrom, here]
  rfl

/-- The tokens that are not blanks or line breaks. -/
def visibleTokens (p : Position) (operandBefore : Bool) (text : Text) : List Tok :=
  (tokensFrom p operandBefore text).filter fun t => !t.kind.isTrivia

theorem visibleTokens_nil (p : Position) (operandBefore : Bool) :
    visibleTokens p operandBefore [] = [] := by
  rw [visibleTokens, tokensFrom]
  rfl

theorem visibleTokens_cons {operandBefore : Bool} {c : Char} {rest : Text} {kind : Kind} {extra : Nat}
    (here : lexeme operandBefore c rest = (kind, extra)) (p : Position) :
    visibleTokens p operandBefore (c :: rest) =
      (if kind.isTrivia then []
        else [Token.at p kind (c :: rest.take extra) (c :: rest.take extra).length]) ++
        visibleTokens (p.pastLines (c :: rest.take extra))
          (operandAfter operandBefore kind (c :: rest.take extra)) (rest.drop extra) := by
  rw [visibleTokens, tokensFrom_cons here, List.filter_cons, Token.at]
  cases kind.isTrivia with
  | true => rfl
  | false => rfl

/-- A token that begins with spacing is made of it. -/
theorem lexeme_of_spacing (operandBefore : Bool) {c : Char} (spacing : isSpacing c = true)
    (rest : Text) :
    ∃ kind extra, lexeme operandBefore c rest = (kind, extra) ∧ kind.isTrivia = true ∧
      (rest.drop extra).dropWhile isSpacing = rest.dropWhile isSpacing := by
  have blank : ∀ d, isInlineBlank d = true → lexeme operandBefore d rest =
      (.whitespace, runLength isInlineBlank rest) := by
    intro d isBlank
    have kinds : d = ' ' ∨ d = '\t' ∨ d = '\x0c' ∨ d = '\x0b' := by
      simpa only [isInlineBlank, Bool.or_eq_true, beq_iff_eq, or_assoc] using isBlank
    rcases kinds with rfl | rfl | rfl | rfl <;> rfl
  have further : (rest.dropWhile isInlineBlank).dropWhile isSpacing = rest.dropWhile isSpacing := by
    conv_rhs => rw [← List.takeWhile_append_dropWhile (p := isInlineBlank) (l := rest)]
    refine (List.dropWhile_append_of_pos fun d member => ?_).symm
    rw [isSpacing, List.mem_takeWhile_imp member, Bool.true_or]
  by_cases feed : c = '\n'
  · subst feed
    exact ⟨.newline, 0, rfl, rfl, rfl⟩
  · have inline : isInlineBlank c = true := by simpa [isSpacing, feed] using spacing
    refine ⟨.whitespace, _, blank c inline, rfl, ?_⟩
    rw [drop_runLength]
    exact further

/-- The spacing at the front of a text makes no visible token. -/
theorem visibleTokens_strip (p : Position) (operandBefore : Bool) (text : Text) :
    ∃ q : Position, q.offset + (text.dropWhile isSpacing).length = p.offset + text.length ∧
      visibleTokens p operandBefore text =
        visibleTokens q operandBefore (text.dropWhile isSpacing) := by
  induction size : text.length using Nat.strong_induction_on generalizing p text with
  | _ n ih =>
      cases text with
      | nil => exact ⟨p, by rw [← size]; rfl, rfl⟩
      | cons c rest =>
          cases shows : isSpacing c with
          | false =>
              rw [List.dropWhile_cons_of_neg (by simp [shows])]
              exact ⟨p, by rw [size], rfl⟩
          | true =>
              obtain ⟨kind, extra, here, trivia, same⟩ := lexeme_of_spacing operandBefore shows rest
              have short : (rest.drop extra).length ≤ rest.length := (List.drop_suffix extra rest).length_le
              rw [List.length_cons] at size
              obtain ⟨q, place, tokens⟩ := ih _ (by omega) (p.pastLines (c :: rest.take extra))
                (rest.drop extra) rfl
              rw [same, offset_pastLines] at place
              rw [same] at tokens
              rw [List.dropWhile_cons_of_pos shows]
              refine ⟨q, ?_, ?_⟩
              · rw [place, List.length_cons, List.length_take, List.length_drop]
                omega
              · rw [visibleTokens_cons here, if_pos trivia, ← tokens, operandAfter_of_trivia trivia]
                rfl

/-! ## Template literals -/

/-- The template literal is closed: a back quote behind it does not belong to it. -/
def isClosed (text : Text) : Bool :=
  templateExtent 0 (text.drop 1 ++ ['\x60']) == (text.drop 1).length

theorem extent_of_isClosed {c : Char} {body : Text} (closed : isClosed (c :: body) = true) :
    body.getLast? = some '\x60' ∧ ∀ rest, templateExtent 0 (body ++ rest) = body.length := by
  have here : templateExtent 0 (body ++ ['\x60']) = body.length := by simpa [isClosed] using closed
  exact templateExtent_append here (by simp)

/-! ## All tokens -/

/-- Tokens of the same kind, with the same text where the kind does not tell all, or where they
are a closed template literal inside of which every line start is protected. -/
structure SameToken (fixed : Nat → Prop) (t u : Tok) : Prop where
  kind : t.kind = u.kind
  spelled : t.kind.isSpelled = true → t.text = u.text
  template : t.kind = .template → isClosed t.text = true → (∀ place, Covers t place → fixed place) →
    t.text = u.text

/-- A closed template literal whose line feeds are protected stands in both texts. -/
theorem take_of_isClosed {fixed : Text → Prop} {r s : Text} {m : Nat}
    (later : Reflowed fixed false r s) (closed : isClosed ('\x60' :: r.take m) = true)
    (kept : ∀ v w, r.take m = v ++ '\n' :: w → fixed (w ++ r.drop m)) :
    r.take m = s.take (templateExtent 0 s) := by
  obtain ⟨last, extent⟩ := extent_of_isClosed closed
  rw [← List.take_append_drop m r] at later
  obtain ⟨rest, rfl⟩ := later.begins ⟨'\x60', last, by decide⟩ kept
  rw [extent rest, List.take_left]

/-- One token. -/
theorem sameToken_of_reflowed {fixed : Nat → Prop} {size : Nat} {c : Char} {r s : Text}
    (later : Reflowed (fun rest => fixed (size - rest.length)) (c == '\\') r s)
    (shows : isSpacing c = false) (noReturn : c ≠ '\r') {operandBefore : Bool} {p : Position}
    (place : p.offset + (c :: r).length = size) (q : Position) {kind other : Kind} {m n : Nat}
    (left : lexeme operandBefore c r = (kind, m)) (right : lexeme operandBefore c s = (other, n)) :
    SameToken fixed (Token.at p kind (c :: r.take m) (c :: r.take m).length)
        (Token.at q other (c :: s.take n) (c :: s.take n).length) ∧
      Reflowed (fun rest => fixed (size - rest.length)) false
        ((r.drop m).dropWhile isSpacing) ((s.drop n).dropWhile isSpacing) := by
  have same := lexeme_respaced operandBefore shows noReturn later.respaced (later.behindRegexp? false)
  rw [left, right] at same
  obtain ⟨rfl, behind, spelled⟩ := same
  refine ⟨⟨rfl, fun isSpelled => congrArg (c :: ·) (spelled isSpelled), ?_⟩, later.drop ?_⟩
  · intro (isTemplate : kind = .template) (closed : isClosed (c :: r.take m) = true) covers
    have opens := (lexeme_spans operandBefore c r).1
    have reaches := (lexeme_spans operandBefore c s).1
    rw [left] at opens
    rw [right] at reaches
    obtain ⟨rfl, -⟩ := opens isTemplate
    obtain ⟨-, extent⟩ := reaches isTemplate
    refine congrArg ('\x60' :: ·) ?_
    rw [show n = templateExtent 0 s from extent]
    refine take_of_isClosed later closed fun v w split => ?_
    have taken := congrArg List.length split
    have whole : (r.take m).length + (r.drop m).length = r.length := by
      rw [← List.length_append, List.take_append_drop]
    rw [List.length_append, List.length_cons] at taken
    rw [List.length_cons] at place
    refine covers _ ⟨?_, ?_⟩
    · rw [Token.at, List.length_append]
      dsimp only
      omega
    · rw [Token.at, List.length_append, List.length_cons]
      dsimp only
      omega
  · have front := visibleCount_append (r.take m) (r.drop m)
    have other := visibleCount_append (s.take n) (s.drop n)
    have whole := later.respaced.visibleCount
    have rest : visibleCount (r.drop m) = visibleCount (s.drop n) := behind.visibleCount
    rw [List.take_append_drop] at front other
    omega

/-- **Reflowed texts have the same visible tokens.**  The spacing at the front of both does not
matter. -/
theorem sameTokens_of_reflowed {fixed : Nat → Prop} {size : Nat} {escaped : Bool} {a b : Text}
    (reflowed : Reflowed (fun rest => fixed (size - rest.length)) escaped
      (a.dropWhile isSpacing) (b.dropWhile isSpacing))
    (noReturn : '\r' ∉ a) (operandBefore : Bool) {p : Position} (place : p.offset + a.length = size)
    (q : Position) :
    List.Forall₂ (SameToken fixed) (visibleTokens p operandBefore a)
      (visibleTokens q operandBefore b) := by
  induction length : a.length using Nat.strong_induction_on
    generalizing escaped a b operandBefore p q with
  | _ n ih =>
      obtain ⟨p, placeA, visibleA⟩ := visibleTokens_strip p operandBefore a
      obtain ⟨q, -, visibleB⟩ := visibleTokens_strip q operandBefore b
      rw [visibleA, visibleB]
      have within : a.dropWhile isSpacing <:+ a := List.dropWhile_suffix isSpacing
      have stripped := reflowed.stripped
      rw [List.dropWhile_idempotent, List.dropWhile_idempotent] at stripped
      rcases stripped with ⟨fromA, fromB⟩ | ⟨c, r, s, fromA, fromB, shows, later, -⟩
      · rw [fromA, fromB, visibleTokens_nil, visibleTokens_nil]
        exact .nil
      · rw [fromA] at within placeA ⊢
        rw [fromB]
        have plain : ∀ d ∈ c :: r, d ≠ '\r' := fun d member isReturn =>
          noReturn (isReturn ▸ within.subset member)
        have shorter := within.length_le
        rw [List.length_cons] at shorter placeA
        cases left : lexeme operandBefore c r with
        | mk kind m =>
            cases right : lexeme operandBefore c s with
            | mk other k =>
                obtain ⟨same, behind⟩ := sameToken_of_reflowed later shows
                  (plain c List.mem_cons_self) (placeA.trans place) q left right
                obtain rfl : kind = other := same.kind
                have texts : kind.isSpelled = true → c :: r.take m = c :: s.take k := same.spelled
                rw [visibleTokens_cons left, visibleTokens_cons right]
                refine List.rel_append ?_ ?_
                · split
                  · exact .nil
                  · exact .cons same .nil
                · rw [operandAfter_congr texts]
                  refine ih (r.drop m).length ?_ behind ?_ _ ?_ _ rfl
                  · rw [List.length_drop]
                    omega
                  · exact fun member => plain '\r'
                      (List.mem_cons_of_mem c (List.mem_of_mem_drop member)) rfl
                  · rw [offset_pastLines, List.length_cons, List.length_take, List.length_drop]
                    omega

/-! ## Counting tokens -/

/-- How many tokens of a text count, where places do not matter. -/
def tally (counts : Kind → Text → Bool) (operandBefore : Bool) (text : Text) : Nat :=
  (tokensFrom .start operandBefore text).countP fun t => counts t.kind t.text

theorem tally_tokensFrom (counts : Kind → Text → Bool) (p : Position) (operandBefore : Bool)
    (text : Text) :
    (tokensFrom p operandBefore text).countP (fun t => counts t.kind t.text) =
      tally counts operandBefore text := by
  have placeless : ∀ p q : Position,
      (tokensFrom p operandBefore text).map (fun t => (t.kind, t.text)) =
        (tokensFrom q operandBefore text).map fun t => (t.kind, t.text) := by
    intro p q
    fun_induction tokensFrom p operandBefore text generalizing q with
    | case1 p operandBefore => rw [tokensFrom]
    | case2 p operandBefore c rest kind extra here text operand ih =>
        rw [tokensFrom, here]
        exact congrArg ((kind, text) :: ·) (ih (q.pastLines text))
  have counted : ∀ p : Position,
      (tokensFrom p operandBefore text).countP (fun t => counts t.kind t.text) =
        ((tokensFrom p operandBefore text).map fun t => (t.kind, t.text)).countP
          fun t => counts t.1 t.2 := fun p => by rw [List.countP_map]; rfl
  rw [tally, counted, counted, placeless p .start]

section Counting

variable {counts : Kind → Text → Bool}
  (trivia : ∀ kind text, kind.isTrivia = true → counts kind text = false)

include trivia

/-- Only visible tokens count. -/
theorem tally_eq_countP (p : Position) (operandBefore : Bool) (text : Text) :
    tally counts operandBefore text =
      (visibleTokens p operandBefore text).countP fun t => counts t.kind t.text := by
  rw [← tally_tokensFrom counts p, visibleTokens, List.countP_filter]
  refine List.countP_congr fun t _ => ?_
  cases isTrivia : t.kind.isTrivia with
  | true => simp [trivia _ t.text isTrivia]
  | false => simp

/-- Spacing at the front does not count. -/
theorem tally_strip (operandBefore : Bool) (text : Text) :
    tally counts operandBefore (text.dropWhile isSpacing) = tally counts operandBefore text := by
  obtain ⟨q, -, same⟩ := visibleTokens_strip .start operandBefore text
  rw [tally_eq_countP trivia q, tally_eq_countP trivia .start, same]

/-- Respaced texts have as many tokens of a kind, or with a spelling where the kind does
not tell all. -/
theorem tally_respaced
    (kinds : ∀ kind text other, kind.isSpelled = false → counts kind text = counts kind other)
    {a b : Text} (respaced : Respaced a b) (left : Steady a) (right : Steady b)
    (noReturn : '\r' ∉ a) (operandBefore : Bool) :
    tally counts operandBefore a = tally counts operandBefore b := by
  have reflowed : Reflowed (fun _ => False) false a b := reflowed_of_steady respaced left right
  have same : List.Forall₂ (SameToken fun _ => False) (visibleTokens .start operandBefore a)
      (visibleTokens .start operandBefore b) :=
    sameTokens_of_reflowed (reflowed.strip false) noReturn operandBefore rfl .start
  rw [tally_eq_countP trivia .start, tally_eq_countP trivia .start]
  generalize visibleTokens .start operandBefore a = tokens at same ⊢
  generalize visibleTokens .start operandBefore b = others at same ⊢
  induction same with
  | nil => rfl
  | @cons t u _ _ here _ ih =>
      have counted : counts t.kind t.text = counts u.kind u.text := by
        rw [← here.kind]
        cases isSpelled : t.kind.isSpelled with
        | true => rw [here.spelled isSpelled]
        | false => exact kinds t.kind _ _ isSpelled
      rw [List.countP_cons, List.countP_cons, ih, counted]

end Counting

end UiFormat.Ets

/-
# UiFormat.Proofs.Markup.Progress -- every round takes a token or ends its loop

Each loop of the parser goes on only behind a token: a node takes the token it starts
with and also one that starts no node, an attribute takes its name, an item of a list the
comma behind it, an operator and a postfix form the token they are known by.  So from
every state with an end token behind the tokens left, a round that goes on leaves fewer
of them, and the loop ends by itself (`LoopEnds`, `RefiningEnds`).

Tokens that are read over in one go are read over one by one too (`passRound`), and so
are the parts of an unquoted value (`adjacentRound`).
-/
import UiFormat.Proofs.Markup.DocumentReading
import UiFormat.Proofs.Parse.Progress

namespace UiFormat.Markup

open UiFormat.Text
open UiFormat.Parse

set_option autoImplicit false

variable {α : Type} {n : Nat} {s t : State Kind Problem}

/-! ## Loops -/

/-- From a state in front of an end token, each round takes a token or ends the loop, and
the loop ends by itself. -/
structure LoopEnds (round : MarkupParser (Round α)) : Prop where
  takes (s : State Kind Problem) (eof : s.closing.kind = .eof)
    (goesOn : (round s).1.goesOn = true) : (round s).2.rest.length < s.rest.length
  finishes (s : State Kind Problem) (eof : s.closing.kind = .eof) :
    Finishes round s (collect round s).1 (collect round s).2

/-- From a state in front of an end token, each round takes a token or keeps the value,
and the loop ends by itself. -/
structure RefiningEnds (round : α → MarkupParser (Option α)) : Prop where
  takes (value : α) (s : State Kind Problem) (eof : s.closing.kind = .eof)
    (better : (round value s).1.isSome = true) : (round value s).2.rest.length < s.rest.length
  finishes (value : α) (s : State Kind Problem) (eof : s.closing.kind = .eof) :
    Refines round value s (refine round value s).1 (refine round value s).2

theorem eof_of_run {p : MarkupParser α} [forward : Forward p] {a : α} (run : p s = (a, t))
    (eof : s.closing.kind = .eof) : t.closing.kind = .eof := by
  have kept := forward.closing_eq s
  rw [run] at kept
  rw [kept, eof]

theorem length_le_of_run {p : MarkupParser α} [forward : Forward p] {a : α} (run : p s = (a, t)) :
    t.rest.length ≤ s.rest.length := by
  have suffix := forward.rest_suffix s
  rw [run] at suffix
  exact suffix.length_le

theorem loopEnds_of_below {round : MarkupParser (Round α)} [forward : Forward round]
    (below : ∀ {s : State Kind Problem}, s.closing.kind = .eof →
      Below s.rest.length Round.goesOn round s) : LoopEnds round := by
  have shrinks : Shrinks (fun s => s.closing.kind = .eof) (fun s => s.rest.length) round := by
    intro s eof goesOn
    refine ⟨?_, below eof goesOn⟩
    show (round s).2.closing.kind = .eof
    rw [forward.closing_eq s, eof]
  exact ⟨fun s eof => below eof, fun s eof => finishes_collectBy shrinks s eof⟩

theorem refiningEnds_of_below {round : α → MarkupParser (Option α)}
    [forward : ∀ value, Forward (round value)]
    (below : ∀ {s : State Kind Problem} (value : α), s.closing.kind = .eof →
      Below s.rest.length Option.isSome (round value) s) : RefiningEnds round := by
  have shrinks : ∀ value s, s.closing.kind = .eof → (round value s).1.isSome = true →
      (round value s).2.closing.kind = .eof ∧ (round value s).2.rest.length < s.rest.length := by
    intro value s eof better
    exact ⟨by rw [(forward value).closing_eq s, eof], below value eof better⟩
  exact ⟨fun value s eof => below value eof,
    fun value s eof => refines_refineBy shrinks value s eof⟩

/-! ## Lists and operators -/

theorem below_listRound {item : MarkupParser α} [Forward item] (closing : Char) (what : String)
    (eof : s.closing.kind = .eof) :
    Below s.rest.length Round.goesOn (listRound closing what item) s := by
  refine .looking (.ite (fun _ => below_pure rfl) fun _ => .looking (.ite (fun _ => ?_) fun _ => ?_))
  · exact .step fun _ _ _ => below_pure rfl
  · refine .step fun value t run => .looking (.ite (fun isComma => ?_) fun _ => below_pure rfl)
    have filled := filled_of_test (isPunctuator_closing (eof_of_run run eof) ',') isComma
    exact below_advance filled (length_le_of_run run)

theorem below_binaryRound {operand : MarkupParser Expr} [Forward operand]
    (build : Expr → Text → Expr → Expr) (ops : List String) (left : Expr)
    (eof : s.closing.kind = .eof) :
    Below s.rest.length Option.isSome (binaryRound build ops operand left) s := by
  refine .looking (.ite (fun isOperator => ?_) fun _ => below_pure rfl)
  exact below_advance (filled_of_test (isOperatorOf_closing eof ops) isOperator) (Nat.le_refl _)

/-- A list takes the bracket that opens it. -/
theorem below_listBetween {found : List α → Bool} {item : MarkupParser α} [Forward item]
    {opening : Char} (closing : Char) (what : String) (eof : s.closing.kind = .eof)
    (opens : isPunctuator opening s.current = true) :
    Below s.rest.length found (listBetween opening closing what item) s := by
  have filled := filled_of_test (isPunctuator_closing eof opening) opens
  have bracket : Below s.rest.length (fun _ => true) (expectPunctuator opening) s :=
    .looking (.ite (fun _ => below_advance filled (Nat.le_refl _)) fun missing => absurd opens missing)
  exact .step fun _ t run => below_of_lt (bracket.lt run rfl)

theorem below_postfixRound {nested : MarkupParser Expr} [Forward nested] (value : Expr)
    (eof : s.closing.kind = .eof) :
    Below s.rest.length Option.isSome (postfixRound nested value) s := by
  refine .current (.ite (fun isPoint => ?_) fun _ => .ite (fun isIndex => ?_) fun _ =>
    .ite (fun isCall => ?_) fun _ => below_pure rfl)
  · exact below_advance (filled_of_test (isOperator_closing eof ".") isPoint) (Nat.le_refl _)
  · exact below_advance (filled_of_test (isPunctuator_closing eof '[') isIndex) (Nat.le_refl _)
  · have list : Below s.rest.length (fun _ => true)
        (listBetween '(' ')' "argument list" nested) s := below_listBetween ')' _ eof isCall
    exact .step fun arguments t run => below_of_lt (list.lt run rfl)

/-! ## Attributes and nodes -/

theorem below_attributeRound {embedded : MarkupParser Expr} [Forward embedded]
    (reader : Text → Option Expr) (eof : s.closing.kind = .eof) :
    Below s.rest.length Round.goesOn (attributeRound embedded reader) s := by
  refine .looking (.ite (fun isName => ?_) fun _ => below_pure rfl)
  have filled : s.rest ≠ [] := by
    refine filled_of_test (q := fun t => t.kind == .name) ?_ isName
    rw [eof]
    rfl
  have taken : Below s.rest.length (fun _ => true) (tagAttribute embedded reader) s :=
    below_advance filled (Nat.le_refl _)
  exact .step fun a t run => below_of_lt (taken.lt run rfl)

theorem below_skipTagRest (filled : s.rest ≠ []) (le : s.rest.length ≤ n) :
    Below n (fun _ => true) skipTagRest s := by
  intro _
  show ((s.rest.dropWhile (·.kind != .tagEnd)).tail).length < n
  have some := List.length_pos_iff.2 filled
  have shorter : (s.rest.dropWhile (·.kind != .tagEnd)).length ≤ s.rest.length :=
    (List.dropWhile_suffix _).length_le
  rw [List.length_tail]
  omega

/-- Wherever a token is left, the reader takes one. -/
def Takes (p : MarkupParser α) : Prop :=
  ∀ s, s.rest ≠ [] → Below s.rest.length (fun _ => true) p s

/-- A node takes its first token, and so does what is passed over. -/
theorem takes_nodeWith {embedded : MarkupParser Expr} [Forward embedded]
    {element : MarkupParser Node} (takes : Takes element) : Takes (nodeWith embedded element) := by
  intro s filled
  have mapped : ∀ {p : MarkupParser Node}, Below s.rest.length (fun _ => true) p s →
      Below s.rest.length (fun _ => true) (some <$> p) s := fun below _ => below rfl
  have first : ∀ {β : Type} {f : Tok → MarkupParser β} [∀ t, Forward (f t)],
      Below s.rest.length (fun _ => true) (advance >>= f) s := below_advance filled (Nat.le_refl _)
  unfold nodeWith
  refine .current ?_
  split
  · exact first
  · exact first
  · exact mapped (takes s filled)
  · exact mapped first
  · refine .step fun _ t reported => .step fun _ u skipped => ?_
    have same := rest_of_report reported
    have rest : Below s.rest.length (fun _ => true) skipTagRest t :=
      below_skipTagRest (by rwa [same]) (by rw [same])
    exact below_of_lt (rest.lt skipped rfl)
  · exact first

theorem takes_element {embedded : MarkupParser Expr} [Forward embedded]
    (reader : Text → Option Expr) {content : Text → MarkupParser (List Node)}
    [∀ tag, Forward (content tag)] : Takes (element embedded reader content) := by
  intro s filled
  have head : Below s.rest.length (fun _ => true) (elementHead embedded reader) s :=
    below_advance filled (Nat.le_refl _)
  exact .step fun found t run => below_of_lt (head.lt run rfl)

theorem takes_node {embedded : MarkupParser Expr} [Forward embedded] (reader : Text → Option Expr)
    (levels : Nat) (openTags : List Text) : Takes (node embedded reader levels openTags) := by
  cases levels with
  | zero => exact takes_nodeWith (takes_element reader)
  | succ levels => exact takes_nodeWith (takes_element reader)

/-- Looking at the name of a closing tag changes no state. -/
theorem closesAncestor_state (tag : Text) (openTags : List Text) (s : State Kind Problem) :
    ((closesAncestor tag openTags : MarkupParser Bool) s).2 = s := by
  have read : (remaining : MarkupParser (List Tok)) s = (s.rest, s) := rfl
  have name : ((closingName? : MarkupParser (Option Text)) s).2 = s := by
    rw [closingName?, run_bind, read]
    cases s.rest.tail.head? <;> rfl
  rw [closesAncestor, run_bind, name]
  cases ((closingName? : MarkupParser (Option Text)) s).1 <;> rfl

section

variable {node : MarkupParser (Option Node)} (takes : Takes node)

include takes

theorem below_nodeRound (filled : s.rest ≠ []) :
    Below s.rest.length Round.goesOn (nodeRound node) s := by
  refine .step fun found t run => ?_
  have less := (takes s filled).lt run rfl
  cases found with
  | none => exact below_of_lt less
  | some n => exact below_of_lt less

theorem below_documentRound : Below s.rest.length Round.goesOn (documentRound node) s := by
  refine .atEnd (.ite (fun _ => below_pure rfl) fun more => below_nodeRound takes ?_)
  rwa [List.isEmpty_iff] at more

theorem below_childRound (tag : Text) (openTags : List Text) :
    Below s.rest.length Round.goesOn (childRound node tag openTags) s := by
  refine .atEnd (.ite (fun _ => .step fun _ _ _ => below_pure rfl) fun more => ?_)
  rw [List.isEmpty_iff] at more
  refine .looking (.ite (fun _ => .step fun ancestor t run => ?_) fun _ => below_nodeRound takes more)
  obtain rfl : s = t := by
    have same := closesAncestor_state tag openTags s
    rwa [run, eq_comm] at same
  refine .ite (fun _ => .step fun _ _ _ => below_pure rfl) fun _ => .step fun closed u read => ?_
  have taken : Below s.rest.length (fun _ => true) (closingTag tag) s :=
    below_advance more (Nat.le_refl _)
  cases closed with
  | true => exact below_pure rfl
  | false => exact below_of_lt (taken.lt read rfl)

end

/-! ## Tokens read over -/

/-- The next token, as long as one is left that satisfies `q`. -/
def passRound (q : Tok → Bool) : MarkupParser (Round Tok) := do
  if ← atEnd then return .stop
  else if ← looking q then
    let t ← advance
    return .next t
  else return .stop

theorem below_passRound (q : Tok → Bool) : Below s.rest.length Round.goesOn (passRound q) s := by
  refine .atEnd (.ite (fun _ => below_pure rfl) fun more => .looking (.ite (fun _ => ?_) fun _ => ?_))
  · rw [List.isEmpty_iff] at more
    exact below_advance more (Nat.le_refl _)
  · exact below_pure rfl

instance forward_passRound (q : Tok → Bool) : Forward (passRound q) := by
  unfold passRound; infer_instance

/-- Reading over tokens is reading them one by one. -/
theorem finishes_skipWhile (q : Tok → Bool) (s : State Kind Problem) :
    Finishes (passRound q) s (s.rest.takeWhile q) ((skipWhile q : MarkupParser Unit) s).2 := by
  obtain ⟨rest, closing, errors⟩ := s
  induction rest with
  | nil => exact .of_stop rfl
  | cons t rest ih =>
      have round : passRound q { rest := t :: rest, closing, errors } =
          if q t = true then (.next t, { rest, closing, errors })
          else (.stop, { rest := t :: rest, closing, errors }) := by
        show (if q t = true then _ else _ : MarkupParser (Round Tok)) _ = _
        split <;> rfl
      show Finishes _ _ ((t :: rest).takeWhile q)
        ({ rest := (t :: rest).dropWhile q, closing, errors } : State Kind Problem)
      cases passes : q t with
      | false =>
          rw [passes, if_neg Bool.false_ne_true] at round
          rw [List.takeWhile_cons_of_neg (by simp [passes]),
            List.dropWhile_cons_of_neg (by simp [passes])]
          exact .of_stop round
      | true =>
          rw [passes, if_pos rfl] at round
          rw [List.takeWhile_cons_of_pos passes, List.dropWhile_cons_of_pos passes]
          exact .of_next round ih

/-- The next token, if it is a part of an unquoted value and starts where the part before
it stops. -/
def adjacentRound (stop : Nat) : MarkupParser (Option Nat) := do
  let t ← current
  if isValuePart t && t.start == stop then
    let _ ← advance
    return some t.stop
  else return none

theorem below_adjacentRound (stop : Nat) (eof : s.closing.kind = .eof) :
    Below s.rest.length Option.isSome (adjacentRound stop) s := by
  refine .current (.ite (fun isNext => ?_) fun _ => below_pure rfl)
  have filled : s.rest ≠ [] := by
    refine filled_of_test (q := isValuePart) ?_ (Bool.and_eq_true_iff.1 isNext).1
    rw [isValuePart, eof]
    rfl
  exact below_advance filled (Nat.le_refl _)

instance forward_adjacentRound (stop : Nat) : Forward (adjacentRound stop) := by
  unfold adjacentRound; infer_instance

/-- The parts of an unquoted value are read one by one. -/
theorem refines_adjacentTokens (stop : Nat) (s : State Kind Problem) (eof : s.closing.kind = .eof) :
    Refines adjacentRound stop s
      (((adjacentTokens stop s.rest).getLast?.map Token.stop).getD stop)
      { s with rest := s.rest.drop (adjacentTokens stop s.rest).length } := by
  obtain ⟨rest, closing, errors⟩ := s
  induction rest generalizing stop with
  | nil =>
      refine .of_none ?_
      have eof : closing.kind = .eof := eof
      show (if (isValuePart closing && closing.start == stop) = true then _ else _ :
        MarkupParser (Option Nat)) _ = _
      rw [isValuePart, eof]
      rfl
  | cons t rest ih =>
      have round : adjacentRound stop { rest := t :: rest, closing, errors } =
          if (isValuePart t && t.start == stop) = true then (some t.stop, { rest, closing, errors })
          else (none, { rest := t :: rest, closing, errors }) := by
        show (if (isValuePart t && t.start == stop) = true then _ else _ :
          MarkupParser (Option Nat)) _ = _
        split <;> rfl
      have parts : adjacentTokens stop (t :: rest) =
          if (isValuePart t && t.start == stop) = true then t :: adjacentTokens t.stop rest
          else [] := rfl
      cases isNext : isValuePart t && t.start == stop with
      | false =>
          rw [isNext, if_neg Bool.false_ne_true] at round parts
          simp only [parts]
          exact .of_none round
      | true =>
          rw [isNext, if_pos rfl] at round parts
          simp only [parts, List.getLast?_cons, List.length_cons, List.drop_succ_cons]
          refine .of_some round ?_
          have later := ih t.stop eof
          cases ends : (adjacentTokens t.stop rest).getLast? with
          | none => simpa [ends] using later
          | some last => simpa [ends] using later

end UiFormat.Markup

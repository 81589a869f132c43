/-
# UiFormat.Proofs.Markup.Lexing -- reading a text as tokens

`Steps k toks k'` says that from the cursor `k` the tokens `toks` are read one
after the other, up to the cursor `k'`.  `Lexes modes x w after P` says the same
of the text `x` in front of any other text `w`, wherever it stands: it is read as
tokens that satisfy `P`, and `w` is left.  Texts that are read one after the
other are read together (`Lexes.append`), and blanks in front of a token do not
matter inside tags and interpolations (`Lexes.blanks`).

What a token does to the modes is determined by its kind (`Kind.shift`).
-/
import UiFormat.Markup.Token
import UiFormat.Proofs.Text.Blanks

namespace UiFormat.Markup

open UiFormat.Text
open UiFormat.Parse

set_option autoImplicit false

theorem past_append (p : Position) (x y : Text) : p.past (x ++ y) = (p.past x).past y := by
  induction x generalizing p with
  | nil => rfl
  | cons c x ih => exact ih _

/-! ## Runs of the cursor -/

/-- The tokens read between two cursors. -/
inductive Steps : Cursor → List Tok → Cursor → Prop
  | nil (k : Cursor) : Steps k [] k
  | cons {k between k' : Cursor} {t : Tok} {toks : List Tok} (here : k.next? = some (t, between))
      (later : Steps between toks k') : Steps k (t :: toks) k'

theorem Steps.append {k between k' : Cursor} {a b : List Tok} (first : Steps k a between)
    (second : Steps between b k') : Steps k (a ++ b) k' := by
  induction first with
  | nil => exact second
  | cons here later ih => exact .cons here (ih second)

theorem Steps.split {k k' : Cursor} {a b : List Tok} (steps : Steps k (a ++ b) k') :
    ∃ between, Steps k a between ∧ Steps between b k' := by
  induction a generalizing k with
  | nil => exact ⟨k, .nil k, steps⟩
  | cons t a ih =>
      cases steps with
      | cons here later =>
          obtain ⟨between, first, second⟩ := ih later
          exact ⟨between, .cons here first, second⟩

theorem drain_of_none {k : Cursor} (ends : k.next? = none) :
    k.drain = ([], k.closing, k.skipGap) := by
  rw [Cursor.drain]
  split
  · rfl
  · rename_i next
    rw [ends] at next
    cases next

theorem drain_of_some {k next : Cursor} {t : Tok} (here : k.next? = some (t, next)) :
    k.drain = (t :: next.drain.1, next.drain.2) := by
  rw [Cursor.drain]
  split
  · rename_i ends
    rw [here] at ends
    cases ends
  · rename_i other
    rw [here] at other
    cases other
    rfl

theorem Steps.drain {k k' : Cursor} {toks : List Tok} (steps : Steps k toks k') :
    k.drain = (toks ++ k'.drain.1, k'.drain.2) := by
  induction steps with
  | nil => rfl
  | cons here later ih => rw [drain_of_some here, ih]; rfl

/-- All tokens of a source are read before its end. -/
theorem exists_steps_drain (k : Cursor) :
    ∃ k', Steps k k.drain.1 k' ∧ k'.next? = none ∧ k.drain.2.1 = k'.closing := by
  fun_induction Cursor.drain k with
  | case1 k ends => exact ⟨k, .nil k, ends, rfl⟩
  | case2 k t next here tokens last drained ih =>
      obtain ⟨k', steps, ends, closes⟩ := ih
      rw [drained] at steps closes
      exact ⟨k', .cons here steps, ends, closes⟩

theorem kind_closing (k : Cursor) : k.closing.kind = .eof := rfl

/-! ## One token -/

/-- What a token of the kind does to the mode. -/
def Kind.shift : Kind → Shift
  | .tagOpen => .enter .tag
  | .tagClose => .enter .tag
  | .interpStart => .enter .interpolation
  | .tagEnd => .leave
  | .tagSelfClose => .leave
  | .interpEnd => .leave
  | _ => .stay

theorem shift_wordKind (word : Text) : (wordKind word).shift = .stay := by
  unfold wordKind
  split
  · rfl
  · split
    · rfl
    · split <;> rfl

/-- The shift of a token is that of its kind. -/
theorem shift_lexeme (mode : Mode) (c : Char) (rest : Text) :
    (mode.lexeme c rest).shift = (mode.lexeme c rest).kind.shift := by
  cases mode with
  | data =>
      simp only [Mode.lexeme, dataLexeme]
      repeat' split
      all_goals rfl
  | tag =>
      simp only [Mode.lexeme, tagLexeme]
      repeat' split
      all_goals rfl
  | interpolation =>
      simp only [Mode.lexeme, expressionLexeme]
      repeat' split
      all_goals first | rfl | exact (shift_wordKind _).symm

/-- A token, where it was found: what its mode passed over, its own characters,
and what is left. -/
theorem next?_eq_some {k k' : Cursor} {t : Tok} (here : k.next? = some (t, k')) :
    ∃ gap c rest, k.rest = gap ++ c :: rest ∧
      gap.length = k.modes.current.gap k.rest ∧
      t = Token.at (k.place.past gap) (k.modes.current.lexeme c rest).kind
        (tokenText (k.modes.current.lexeme c rest).kind
          (c :: rest.take (k.modes.current.lexeme c rest).extra))
        (c :: rest.take (k.modes.current.lexeme c rest).extra).length ∧
      k'.rest = rest.drop (k.modes.current.lexeme c rest).extra ∧
      k'.place = (k.place.past gap).past (c :: rest.take (k.modes.current.lexeme c rest).extra) ∧
      k'.modes = k.modes.apply t.kind.shift := by
  simp only [Cursor.next?] at here
  split at here
  · cases here
  · rename_i c rest split
    simp only [Cursor.skipGap] at split here
    simp only [Option.some.injEq, Prod.mk.injEq] at here
    obtain ⟨rfl, rfl⟩ := here
    refine ⟨k.rest.take (k.modes.current.gap k.rest), c, rest, ?_, ?_, rfl, rfl, rfl, ?_⟩
    · rw [← split, List.take_append_drop]
    · have length := congrArg List.length split
      simp only [List.length_drop, List.length_cons] at length
      rw [List.length_take]
      omega
    · exact congrArg k.modes.apply (shift_lexeme _ _ _)

theorem modes_of_next? {k k' : Cursor} {t : Tok} (here : k.next? = some (t, k')) :
    k'.modes = k.modes.apply t.kind.shift := by
  obtain ⟨-, -, -, -, -, -, -, -, modes⟩ := next?_eq_some here
  exact modes

/-- The token at the front of a text without a gap. -/
theorem next?_of_lexeme {modes : Modes} {c : Char} {r w : Text} {kind : Kind} {shift : Shift}
    (place : Position) (noGap : modes.current.gap (c :: (r ++ w)) = 0)
    (here : modes.current.lexeme c (r ++ w) = { kind, extra := r.length, shift }) :
    Cursor.next? { rest := c :: (r ++ w), place, modes } =
      some (Token.at place kind (tokenText kind (c :: r)) (r.length + 1),
        { rest := w, place := place.past (c :: r), modes := modes.apply shift }) := by
  simp [Cursor.next?, Cursor.skipGap, noGap, here, Position.past]

/-! ## Texts in front of other texts -/

/-- In front of `w` and in the modes `modes`, the text `x` is read as tokens that
satisfy `P`; the modes are `after` then. -/
def Lexes (modes : Modes) (x w : Text) (after : Modes) (P : List Tok → Prop) : Prop :=
  ∀ place, ∃ toks, Steps { rest := x ++ w, place, modes } toks
    { rest := w, place := place.past x, modes := after } ∧ P toks

theorem Lexes.mono {modes after : Modes} {x w : Text} {P Q : List Tok → Prop}
    (lexes : Lexes modes x w after P) (weaker : ∀ toks, P toks → Q toks) :
    Lexes modes x w after Q := by
  intro place
  obtain ⟨toks, steps, holds⟩ := lexes place
  exact ⟨toks, steps, weaker toks holds⟩

/-- Texts that are read one after the other are read together. -/
theorem Lexes.append {modes between after : Modes} {x y w : Text} {P Q R : List Tok → Prop}
    (first : Lexes modes x (y ++ w) between P) (second : Lexes between y w after Q)
    (joined : ∀ a b, P a → Q b → R (a ++ b)) : Lexes modes (x ++ y) w after R := by
  intro place
  obtain ⟨a, stepsA, holdsA⟩ := first place
  obtain ⟨b, stepsB, holdsB⟩ := second (place.past x)
  refine ⟨a ++ b, ?_, joined a b holdsA holdsB⟩
  rw [List.append_assoc, past_append]
  exact stepsA.append stepsB

/-- The tokens of a whole source. -/
theorem Lexes.lexemes {source : Text} {P : List Tok → Prop} (lexes : Lexes [] source [] [] P) :
    P (Markup.lexemes source) := by
  obtain ⟨toks, steps, holds⟩ := lexes Position.start
  have drained := steps.drain
  rw [List.append_nil] at drained
  have tokens : Markup.lexemes source = toks ++ _ := congrArg Prod.fst drained
  rwa [tokens, drain_of_none rfl, List.append_nil]

/-- The tokens are one token of the kind and text. -/
def IsToken (kind : Kind) (text : Text) (toks : List Tok) : Prop :=
  ∃ t : Tok, toks = [t] ∧ t.kind = kind ∧ t.text = text

theorem lexes_token {modes : Modes} {c : Char} {r w : Text} {kind : Kind} {shift : Shift}
    (noGap : modes.current.gap (c :: (r ++ w)) = 0)
    (here : modes.current.lexeme c (r ++ w) = { kind, extra := r.length, shift }) :
    Lexes modes (c :: r) w (modes.apply shift) (IsToken kind (tokenText kind (c :: r))) := by
  intro place
  exact ⟨_, .cons (next?_of_lexeme place noGap here) (.nil _), _, rfl, rfl, rfl⟩

theorem gap_blanks {mode : Mode} (notData : mode ≠ .data) {blanks : Text}
    (areBlanks : Blanks blanks) (text : Text) :
    mode.gap (blanks ++ text) = blanks.length + mode.gap text := by
  induction blanks with
  | nil => simp
  | cons b blanks ih =>
      have isBlank := areBlanks b List.mem_cons_self
      have later := ih fun c member => areBlanks c (List.mem_cons_of_mem _ member)
      cases mode with
      | data => exact absurd rfl notData
      | tag =>
          simp only [Mode.gap, runLength, List.cons_append, List.takeWhile_cons, isBlank, if_true,
            List.length_cons] at later ⊢
          omega
      | interpolation =>
          simp only [Mode.gap, List.cons_append, List.length_cons] at later ⊢
          rw [expressionGap, if_pos isBlank]
          omega

theorem next?_blanks {modes : Modes} (notData : modes.current ≠ .data) {blanks : Text}
    (areBlanks : Blanks blanks) (text : Text) (place : Position) :
    Cursor.next? { rest := blanks ++ text, place, modes } =
      Cursor.next? { rest := text, place := place.past blanks, modes } := by
  have skipped : Cursor.skipGap { rest := blanks ++ text, place, modes } =
      Cursor.skipGap { rest := text, place := place.past blanks, modes } := by
    simp only [Cursor.skipGap, gap_blanks notData areBlanks text]
    rw [List.drop_append, List.take_append]
    simp [past_append, List.take_of_length_le, List.drop_of_length_le]
  simp only [Cursor.next?, skipped]

/-- Blanks in front of a token do not matter inside tags and interpolations. -/
theorem Lexes.blanks {modes after : Modes} {x w : Text} {P : List Tok → Prop}
    (lexes : Lexes modes x w after P) (notData : modes.current ≠ .data) (some : ¬ P [])
    {blanks : Text} (areBlanks : Blanks blanks) :
    Lexes modes (blanks ++ x) w after P := by
  intro place
  obtain ⟨toks, steps, holds⟩ := lexes (place.past blanks)
  cases toks with
  | nil => exact absurd holds some
  | cons t toks =>
      refine ⟨t :: toks, ?_, holds⟩
      cases steps with
      | cons here later =>
          rw [past_append]
          refine .cons ?_ later
          rw [← here, List.append_assoc]
          exact next?_blanks notData areBlanks _ _

end UiFormat.Markup

/-
# UiFormat.Proofs.Markup.Tiling -- markup tokens and what stands between them

`Tiled source k tokens` follows the lexer from its cursor `k` to the end of the source, one
token after the other, and says of each what it is of its source (`Tile`): it lies behind
the token before it, its text is the source between its two offsets, its line and column
are those of its first character, and what is passed over in front of it is what the mode
of the cursor passes over (`Mode.Passes`): nothing between tags, blanks inside a tag, blanks
and comments inside an interpolation.

What a cursor knows of its source is what it has left and where that starts (`HasRead`); a
token takes the front of what is left, so one step keeps it (`HasRead.next`), and the run
follows the recursion of the lexer.

Each mode enters and leaves others by a table of its own (`Mode.shifts`).  That leaves four
stacks of modes (`modeStacks`), and none of the tokens that leave a mode is read where only the
outermost is open (`mem_modeStacks_apply`).

Main statement: `tokenize_tiled`.
-/
import UiFormat.Proofs.Text.Cut
import UiFormat.Proofs.Markup.ExprLexing
import UiFormat.Proofs.Markup.TokenIndex
import Mathlib.Data.List.DropRight

namespace UiFormat.Markup

open UiFormat.Text
open UiFormat.Parse

set_option autoImplicit false

/-! ## Modes -/

/-- What the tokens of a mode do to the mode. -/
def Mode.shifts : Mode → List Shift
  | .data => [.stay, .enter .tag, .enter .interpolation]
  | .tag => [.stay, .leave, .enter .interpolation]
  | .interpolation => [.stay, .leave]

/-- The stacks of modes that occur, innermost first; the outermost mode, which reads data,
is left out of them. -/
def modeStacks : List Modes :=
  [[], [.tag], [.interpolation], [.interpolation, .tag]]

theorem shift_mem_shifts (mode : Mode) (c : Char) (rest : Text) :
    (mode.lexeme c rest).kind.shift ∈ mode.shifts := by
  rw [← shift_lexeme]
  cases mode with
  | data =>
      simp only [Mode.lexeme, dataLexeme]
      repeat' split
      all_goals simp [Mode.shifts]
  | tag =>
      simp only [Mode.lexeme, tagLexeme]
      repeat' split
      all_goals simp [Mode.shifts]
  | interpolation =>
      simp only [Mode.lexeme, expressionLexeme]
      repeat' split
      all_goals simp [Mode.shifts]

/-- One token keeps to the four stacks, and leaves a mode only where one was entered. -/
theorem mem_modeStacks_apply {modes : Modes} (legal : modes ∈ modeStacks) {shift : Shift}
    (allowed : shift ∈ modes.current.shifts) :
    modes.apply shift ∈ modeStacks ∧ (shift = .leave → modes ≠ []) := by
  have table : ∀ modes ∈ modeStacks, ∀ shift ∈ modes.current.shifts,
      modes.apply shift ∈ modeStacks ∧ (shift = .leave → modes ≠ []) := by decide
  exact table modes legal shift allowed

/-! ## What is passed over -/

/-- Blanks and comments in front of `behind`.  A line comment reaches to the end of its
line, a block comment to its first closing mark; one without a closing mark takes all that
is left. -/
inductive Spaced (behind : Text) : Text → Prop
  | nothing : Spaced behind []
  | blank {c : Char} {gap : Text} (isBlank : isPlainBlank c = true) (later : Spaced behind gap) :
      Spaced behind (c :: gap)
  | line {body gap : Text} (inside : '\n' ∉ body)
      (ends : ∀ c ∈ (gap ++ behind).head?, c = '\n') (later : Spaced behind gap) :
      Spaced behind ("//".toList ++ body ++ gap)
  | block {body gap : Text} (inside : includes body "*/".toList = false)
      (later : Spaced behind gap) : Spaced behind ("/*".toList ++ body ++ "*/".toList ++ gap)
  | unclosed {body : Text} (inside : includes body "*/".toList = false) (atEnd : behind = []) :
      Spaced behind ("/*".toList ++ body)

/-- What a mode passes over in front of `behind`. -/
def Mode.Passes (mode : Mode) (gap behind : Text) : Prop :=
  match mode with
  | .data => gap = []
  | .tag => Blanks gap
  | .interpolation => Spaced behind gap

theorem includes_eq_false_iff {text mark : Text} :
    includes text mark = false ↔ cut? mark text = none := by
  rw [includes, Option.isSome_eq_false_iff, Option.isNone_iff_eq_none]

/-- The text up to the end of the first closing mark of a block comment, if there is one. -/
theorem spaced_block {text behind gap : Text}
    (split : text.drop (lengthThrough "*/".toList text) = gap ++ behind)
    (later : Spaced behind gap) :
    Spaced behind ("/*".toList ++ text.take (lengthThrough "*/".toList text) ++ gap) := by
  rw [lengthThrough] at split ⊢
  cases found : cut? "*/".toList text with
  | none =>
      rw [found] at split
      dsimp only at split ⊢
      rw [List.drop_length, eq_comm, List.append_eq_nil_iff] at split
      obtain ⟨rfl, rfl⟩ := split
      rw [List.take_length, List.append_nil]
      exact .unclosed (includes_eq_false_iff.2 found) rfl
  | some parts =>
      obtain ⟨body, after⟩ := parts
      have whole : text = (body ++ "*/".toList) ++ after := by
        rw [cut?_eq_some found, List.append_assoc]
      have inside := cut?_before (by decide) found
      dsimp only
      rw [whole, ← List.length_append, List.take_left, ← List.append_assoc]
      exact .block (includes_eq_false_iff.2 inside) later

/-- A gap whose first `m` characters are known. -/
theorem spaced_front {text : Text} {m gap : Nat}
    (spaced : Spaced ((text.drop m).drop gap) (text.take m ++ (text.drop m).take gap)) :
    Spaced (text.drop (gap + m)) (text.take (gap + m)) := by
  rwa [Nat.add_comm, List.take_add, ← List.drop_drop]

theorem spaced_expressionGap (text : Text) :
    Spaced (text.drop (expressionGap text)) (text.take (expressionGap text)) := by
  fun_induction expressionGap text with
  | case1 => exact .nothing
  | case2 c rest isBlank ih => exact .blank isBlank ih
  | case3 c rest _ opens extra ih =>
      rw [Bool.and_eq_true, decide_eq_true_iff] at opens
      obtain ⟨rfl, second⟩ := opens
      obtain ⟨rest, rfl⟩ := List.isPrefixOf_iff_prefix.1 second
      have length : extra = runLength (· != '\n') rest + 1 := rfl
      rw [length, List.singleton_append, List.drop_succ_cons, drop_runLength] at ih
      refine spaced_front (m := extra + 1) ?_
      simp only [length, List.singleton_append, List.drop_succ_cons, List.take_succ_cons,
        drop_runLength, take_runLength]
      refine .line (fun inside => ?_) (fun c first => ?_) ih
      · simpa using List.mem_takeWhile_imp inside
      · rw [List.take_append_drop] at first
        have stops := List.head?_dropWhile_not (· != '\n') rest
        rw [first] at stops
        simpa using stops
  | case4 c rest _ _ opens extra ih =>
      rw [Bool.and_eq_true, decide_eq_true_iff] at opens
      obtain ⟨rfl, second⟩ := opens
      obtain ⟨rest, rfl⟩ := List.isPrefixOf_iff_prefix.1 second
      have length : extra = lengthThrough "*/".toList rest + 1 := rfl
      rw [length, List.singleton_append, List.drop_succ_cons] at ih
      refine spaced_front (m := extra + 1) ?_
      simp only [length, List.singleton_append, List.drop_succ_cons, List.take_succ_cons]
      exact spaced_block (List.take_append_drop _ _).symm ih
  | case5 c rest _ _ _ => exact .nothing

theorem passes_gap (mode : Mode) (text : Text) :
    mode.Passes (text.take (mode.gap text)) (text.drop (mode.gap text)) := by
  cases mode with
  | data => rfl
  | tag =>
      intro c member
      rw [Mode.gap, take_runLength] at member
      exact List.mem_takeWhile_imp member
  | interpolation => exact spaced_expressionGap text

/-! ## Places -/

/-- The lines before the place after a text are its line feeds, and its column counts what
follows the last of them. -/
theorem past_start (text : Text) :
    Position.start.past text =
      { offset := text.length
        line := 1 + text.count '\n'
        column := 1 + (text.rtakeWhile (· != '\n')).length } := by
  induction text using List.reverseRecOn with
  | nil => rfl
  | append_singleton text c ih =>
      rw [past_append, ih, Position.past, Position.past]
      by_cases feed : c = '\n'
      · subst feed
        simp [Position.nextLine, Nat.add_assoc]
      · simp [Position.nextColumn, feed, Nat.add_assoc]

/-! ## One token -/

/-- The source from one offset to another. -/
def slice (source : Text) (start stop : Nat) : Text :=
  (source.take stop).drop start

theorem slice_append (front own behind : Text) :
    slice (front ++ own ++ behind) front.length (front.length + own.length) = own := by
  rw [slice, ← List.length_append, List.take_left, List.drop_left]

/-- The text of a token is the source between its two ends.  A comment has its marks around
it there, the closing one only when it is not the end of the source that ends it. -/
def Carries (source : Text) (t : Tok) : Prop :=
  if t.kind = .comment then
    includes t.text "-->".toList = false ∧
      (slice source t.start t.stop = "<!--".toList ++ t.text ++ "-->".toList ∨
        slice source t.start t.stop = "<!--".toList ++ t.text ∧ t.stop = source.length)
  else slice source t.start t.stop = t.text

/-- A token and its source: the token before it stops at `stop`, and `modes` are open. -/
structure Tile (source : Text) (stop : Nat) (modes : Modes) (t : Tok) : Prop where
  ordered : stop ≤ t.start ∧ t.start ≤ t.stop ∧ t.stop ≤ source.length
  filled : t.kind ≠ .eof → t.start < t.stop
  passed : modes.current.Passes (slice source stop t.start) (source.drop t.start)
  carries : Carries source t
  line : t.line = 1 + (source.take t.start).count '\n'
  column : t.column = 1 + ((source.take t.start).rtakeWhile (· != '\n')).length

/-- A comment is only read between tags, and takes what stands up to its closing mark. -/
theorem lexeme_comment {mode : Mode} {c : Char} {rest : Text}
    (isComment : (mode.lexeme c rest).kind = .comment) :
    ∃ body, c :: rest = "<!--".toList ++ body ∧
      (mode.lexeme c rest).extra = lengthThrough "-->".toList body + 3 := by
  cases mode with
  | data =>
      simp only [Mode.lexeme, dataLexeme] at isComment ⊢
      split at isComment
      · rename_i opens
        rw [Bool.and_eq_true, decide_eq_true_iff] at opens
        obtain ⟨rfl, marked⟩ := opens
        obtain ⟨body, rfl⟩ := List.isPrefixOf_iff_prefix.1 marked
        refine ⟨body, rfl, ?_⟩
        rw [if_pos (Bool.and_eq_true_iff.2 ⟨decide_eq_true rfl, marked⟩)]
        rfl
      · repeat' split at isComment
        all_goals cases isComment
  | tag =>
      simp only [Mode.lexeme, tagLexeme] at isComment
      repeat' split at isComment
      all_goals cases isComment
  | interpolation =>
      simp only [Mode.lexeme, expressionLexeme] at isComment
      repeat' split at isComment
      all_goals first | exact absurd isComment (wordKind_ne_comment _) | cases isComment

/-- What a comment carries of the text behind its opening mark. -/
theorem tokenText_comment (body : Text) :
    let length := lengthThrough "-->".toList body
    let own := "<!--".toList ++ body.take length
    includes (tokenText .comment own) "-->".toList = false ∧
      (own = "<!--".toList ++ tokenText .comment own ++ "-->".toList ∨
        own = "<!--".toList ++ tokenText .comment own ∧ body.drop length = []) := by
  have unclosed : ∀ inside : Text, cut? "-->".toList inside = none →
      tokenText .comment ("<!--".toList ++ inside) = inside := by
    intro inside never
    have behind : ("<!--".toList ++ inside).drop 4 = inside := rfl
    simp only [tokenText, behind, never]
  have closed : ∀ {inside body rest : Text}, cut? "-->".toList inside = some (body, rest) →
      tokenText .comment ("<!--".toList ++ inside) = body := by
    intro inside body rest found
    have behind : ("<!--".toList ++ inside).drop 4 = inside := rfl
    simp only [tokenText, behind, found]
  rw [lengthThrough]
  cases found : cut? "-->".toList body with
  | none =>
      dsimp only
      rw [List.take_length, unclosed body found]
      exact ⟨includes_eq_false_iff.2 found, .inr ⟨rfl, List.drop_length⟩⟩
  | some parts =>
      obtain ⟨inside, after⟩ := parts
      have whole := cut?_eq_some found
      have again : cut? "-->".toList (inside ++ "-->".toList) = some (inside, []) := by
        have still := cut?_append (whole ▸ found) []
        rwa [List.append_nil] at still
      have taken : body.take (inside.length + "-->".toList.length) = inside ++ "-->".toList := by
        rw [whole, ← List.append_assoc, ← List.length_append, List.take_left]
      dsimp only
      rw [taken, closed again]
      exact ⟨includes_eq_false_iff.2 (cut?_before (by decide) found), .inl (List.append_assoc ..).symm⟩

/-! ## Runs -/

/-- The lexer has read `front` and stands behind it, with a stack of modes that occurs. -/
structure HasRead (source front : Text) (k : Cursor) : Prop where
  splits : source = front ++ k.rest
  place : k.place = Position.start.past front
  legal : k.modes ∈ modeStacks

theorem hasRead_start (source : Text) : HasRead source [] (.start source) :=
  { splits := rfl, place := rfl, legal := List.mem_cons_self }

variable {source front : Text} {k k' : Cursor} {t : Tok}

/-- A token that takes `own` behind `gap`. -/
theorem tile_of_splits {gap own behind : Text} {kind : Kind} {text : Text} {modes : Modes}
    (splits : source = front ++ gap ++ own ++ behind)
    (filled : kind ≠ .eof → own ≠ [])
    (passed : modes.current.Passes gap (own ++ behind))
    (carries : if kind = .comment then
        includes text "-->".toList = false ∧ (own = "<!--".toList ++ text ++ "-->".toList ∨
          own = "<!--".toList ++ text ∧ behind = [])
      else own = text) :
    Tile source front.length modes
      (Token.at (Position.start.past (front ++ gap)) kind text own.length) := by
  have before : source.take (front ++ gap).length = front ++ gap := by
    rw [splits, List.append_assoc, List.take_left]
  have inside : slice source (front ++ gap).length ((front ++ gap).length + own.length) = own := by
    rw [splits, slice_append]
  have length : source.length = (front ++ gap).length + own.length + behind.length := by
    rw [splits, List.length_append, List.length_append]
  rw [past_start]
  refine ⟨⟨?_, ?_, ?_⟩, ?_, ?_, ?_, ?_, ?_⟩
  · simp [Token.at]
  · simp [Token.at]
  · simp only [Token.at]
    omega
  · intro notEnd
    have some := List.length_pos_iff.2 (filled notEnd)
    simp only [Token.at]
    omega
  · have passedOver : slice source front.length (front ++ gap).length = gap := by
      rw [List.length_append, splits, List.append_assoc, slice_append]
    have ahead : source.drop (front ++ gap).length = own ++ behind := by
      rw [splits, List.append_assoc, List.drop_left]
    simp only [Token.at]
    rwa [passedOver, ahead]
  · simp only [Carries, Token.at, inside]
    split
    · rename_i isComment
      rw [if_pos isComment] at carries
      refine ⟨carries.1, carries.2.imp_right fun unclosed => ⟨unclosed.1, ?_⟩⟩
      rw [length, unclosed.2]
      rfl
    · rename_i other
      rwa [if_neg other] at carries
  · simp only [Token.at, before]
  · simp only [Token.at, before]

/-- One token: what it is of its source, and what is known behind it. -/
theorem HasRead.next (read : HasRead source front k) (here : k.next? = some (t, k')) :
    Tile source front.length k.modes t ∧ (t.kind.shift = .leave → k.modes ≠ []) ∧
      t.kind ≠ .eof ∧ ∃ passed, passed.length = t.stop ∧ HasRead source passed k' := by
  obtain ⟨gap, c, rest, ahead, length, token, left, place, modes⟩ := next?_eq_some here
  set found := k.modes.current.lexeme c rest with isFound
  have kind : t.kind = found.kind := by rw [token]; rfl
  have splits : source = front ++ gap ++ (c :: rest.take found.extra) ++ k'.rest := by
    rw [read.splits, ahead, left]
    simp
  have gapPassed : k.modes.current.Passes gap (c :: rest.take found.extra ++ k'.rest) := by
    have passes := passes_gap k.modes.current k.rest
    rw [← length, ahead, List.take_left, List.drop_left] at passes
    rwa [left, List.cons_append, List.take_append_drop]
  have tile : Tile source front.length k.modes t := by
    rw [token, read.place, ← past_append]
    refine tile_of_splits splits (fun _ => List.cons_ne_nil _ _) gapPassed ?_
    split
    · rename_i isComment
      obtain ⟨body, opens, extra⟩ := lexeme_comment isComment
      have own : c :: rest.take found.extra =
          "<!--".toList ++ body.take (lengthThrough "-->".toList body) := by
        rw [← List.take_succ_cons, opens, isFound, extra]
        rfl
      have behind : k'.rest = body.drop (lengthThrough "-->".toList body) := by
        rw [left, ← List.drop_succ_cons (a := c), opens, isFound, extra]
        rfl
      rw [isComment, own, behind]
      exact tokenText_comment body
    · rename_i other
      unfold tokenText
      split
      · contradiction
      · rfl
  obtain ⟨legal, leaves⟩ := mem_modeStacks_apply read.legal (shift_mem_shifts k.modes.current c rest)
  refine ⟨tile, kind ▸ leaves, kind ▸ lexeme_ne_eof _ c rest, front ++ gap ++ (c :: rest.take found.extra),
    ?_, splits, ?_, ?_⟩
  · rw [token, read.place, ← past_append, past_start, List.length_append]
    rfl
  · rw [place, read.place, past_append, past_append]
  · rw [modes, kind]
    exact legal

/-- The end of the source: nothing but what the mode passes over is left. -/
theorem HasRead.ends (read : HasRead source front k) (ends : k.next? = none) :
    Tile source front.length k.modes k.closing ∧ k.closing.start = source.length := by
  have nothing : k.skipGap.rest = [] := by
    simp only [Cursor.next?] at ends
    split at ends
    · assumption
    · cases ends
  have passes := passes_gap k.modes.current k.rest
  have splits := List.take_append_drop (k.modes.current.gap k.rest) k.rest
  rw [show k.rest.drop _ = [] from nothing] at passes splits
  rw [List.append_nil] at splits
  have whole : source = front ++ k.rest ++ [] ++ [] := by
    rw [List.append_nil, List.append_nil, read.splits]
  have closing : k.closing = Token.at (Position.start.past (front ++ k.rest)) .eof [] ([] : Text).length := by
    rw [Cursor.closing, Cursor.skipGap, splits, read.place, past_append]
    rfl
  rw [splits] at passes
  rw [closing]
  refine ⟨tile_of_splits whole (fun notEnd => absurd rfl notEnd) passes rfl, ?_⟩
  rw [past_start, ← read.splits]
  rfl

/-- From the cursor `k`, in front of which a token stops at `stop`, to the end of the
source: each token as the lexer reads it. -/
inductive Tiled (source : Text) : Cursor → Nat → List Tok → Prop
  | closing {k : Cursor} {stop : Nat} (ends : k.next? = none) (legal : k.modes ∈ modeStacks)
      (tile : Tile source stop k.modes k.closing)
      (closes : k.closing.kind = .eof ∧ k.closing.start = source.length) :
      Tiled source k stop [k.closing]
  | token {k next : Cursor} {stop : Nat} {t : Tok} {tokens : List Tok}
      (here : k.next? = some (t, next)) (legal : k.modes ∈ modeStacks)
      (shifts : next.modes = k.modes.apply t.kind.shift)
      (leaves : t.kind.shift = .leave → k.modes ≠ []) (tile : Tile source stop k.modes t)
      (opens : t.kind ≠ .eof) (later : Tiled source next t.stop tokens) :
      Tiled source k stop (t :: tokens)

theorem tiled_left (read : HasRead source front k) : Tiled source k front.length k.left := by
  induction size : k.rest.length using Nat.strong_induction_on generalizing k front with
  | _ n ih =>
      cases found : k.next? with
      | none =>
          obtain ⟨tile, closes⟩ := read.ends found
          rw [left_of_none found]
          exact .closing found read.legal tile ⟨rfl, closes⟩
      | some step =>
          obtain ⟨t, k'⟩ := step
          obtain ⟨tile, leaves, opens, passed, stops, later⟩ := read.next found
          rw [left_of_some found]
          refine .token found read.legal (modes_of_next? found) leaves tile opens (stops ▸ ih _ ?_ later rfl)
          rw [← size]
          exact Cursor.next?_rest_lt found

/-- **Markup tokens tile their source.**  From the first character to the last, whatever the
source, the tokens lie one behind the other and carry their own text; what lies between two
of them is what the mode passes over that is open there, and their lines and columns are
those of their offsets.  Only four stacks of modes occur, and a token that leaves a mode is
read only where one was entered. -/
theorem tokenize_tiled (source : Text) : Tiled source (.start source) 0 (tokenize source) :=
  tiled_left (hasRead_start source)

end UiFormat.Markup

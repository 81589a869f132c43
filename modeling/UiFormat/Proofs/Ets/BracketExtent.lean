/-
# UiFormat.Proofs.Ets.BracketExtent -- how far the readers of stretches reach

Four counts say how far a stretch of tokens reaches: to the partner of a bracket, to the
end of an expression, to the next delimiter and to the end of a type.  Only the first
knows which bracket it looks for; the others count all shapes together.

Here the tokens of a stretch stand in front of a closing parenthesis.  A count stays in
front of it when no level is open there: for one shape that is `levelsAfter`
(`balancedCount_le`), for all shapes together it is enough that each of them is closed by
itself (`expressionCount_le`, `delimiterCount_le`), and for types, where `<` opens a level
too, `openLevels` says what is left open (`typeCount_le`).
-/
import UiFormat.Ets.Parser
import UiFormat.Proofs.Ets.Tiling

namespace UiFormat.Ets

open UiFormat.Text
open UiFormat.Parse

set_option autoImplicit false

/-! ## One shape -/

/-- The levels of one shape of brackets that are open behind the tokens. -/
def levelsAfter (opening closing : Text) (depth : Nat) (tokens : List Tok) : Nat :=
  tokens.foldl (depthAfter opening closing) depth

section Shape

variable {opening closing : Text}

/-- A token of another kind opens and closes nothing. -/
theorem depthAfter_of_noSymbol {t : Tok} (noSymbol : isSymbolToken t = false) (depth : Nat) :
    depthAfter opening closing depth t = depth := by
  simp [depthAfter, noSymbol]

/-- All brackets but angles are opened and closed one at a time. -/
theorem depthAfter_of_symbol (noAngle : closing ≠ ['>']) {t : Tok} (symbol : isSymbolToken t = true)
    (depth : Nat) :
    depthAfter opening closing depth t =
      if t.text = opening then depth + 1 else if t.text = closing then depth - 1 else depth := by
  simp only [depthAfter, symbol, beq_eq_false_iff_ne.2 noAngle, Bool.not_true, Bool.false_and,
    Bool.false_eq_true, if_false, beq_iff_eq]

theorem depthAfter_mono {d e : Nat} (le : d ≤ e) (t : Tok) :
    depthAfter opening closing d t ≤ depthAfter opening closing e t := by
  simp only [depthAfter]
  split
  · exact le
  · split
    · exact Nat.succ_le_succ le
    · split
      · exact Nat.sub_le_sub_right le _
      · split
        · exact Nat.sub_le_sub_right le _
        · exact le

theorem levelsAfter_mono {d e : Nat} (le : d ≤ e) (tokens : List Tok) :
    levelsAfter opening closing d tokens ≤ levelsAfter opening closing e tokens := by
  induction tokens generalizing d e with
  | nil => exact le
  | cons t tokens ih => exact ih (depthAfter_mono le t)

/-- What is closed at the end of the tokens is closed at the end of any tail of them. -/
theorem levelsAfter_suffix {tokens part : List Tok} (suffix : part <:+ tokens)
    (closed : levelsAfter opening closing 0 tokens = 0) :
    levelsAfter opening closing 0 part = 0 := by
  obtain ⟨front, rfl⟩ := suffix
  rw [levelsAfter, List.foldl_append] at closed
  have less := @levelsAfter_mono opening closing _ _
    (Nat.zero_le (front.foldl (depthAfter opening closing) 0)) part
  exact Nat.le_zero.1 (Nat.le_trans less (Nat.le_of_eq closed))

/-- A bracket whose level is closed has its partner among the tokens. -/
theorem balancedCount_le {part : List Tok} {depth : Nat} (some : part ≠ [])
    (closed : levelsAfter opening closing depth part = 0) (later : List Tok) :
    balancedCount opening closing depth (part ++ later) ≤ part.length := by
  induction part generalizing depth with
  | nil => exact absurd rfl some
  | cons t part ih =>
      rw [List.cons_append, balancedCount]
      split
      · exact Nat.succ_le_succ (Nat.zero_le _)
      · rename_i opened
        refine Nat.succ_le_succ (ih ?_ closed)
        rintro rfl
        exact opened closed

end Shape

/-! ## All shapes together -/

/-- Round, square and curly brackets with their partners. -/
def shapes : List (Text × Text) :=
  [(['('], [')']), (['['], [']']), (['{'], ['}'])]

/-- Every bracket that is opened among the tokens is closed among them, each shape looked at
by itself. -/
def ClosesShapes (tokens : List Tok) : Prop :=
  ∀ shape ∈ shapes, levelsAfter shape.1 shape.2 0 tokens = 0

theorem ClosesShapes.suffix {tokens part : List Tok} (closes : ClosesShapes tokens)
    (suffix : part <:+ tokens) : ClosesShapes part :=
  fun shape member => levelsAfter_suffix suffix (closes shape member)

/-- The levels of the three shapes. -/
structure Levels where
  round : Nat
  square : Nat
  curly : Nat

namespace Levels

/-- All levels together. -/
def total (levels : Levels) : Nat :=
  levels.round + levels.square + levels.curly

/-- The levels behind a token. -/
def after (levels : Levels) (t : Tok) : Levels where
  round := depthAfter ['('] [')'] levels.round t
  square := depthAfter ['['] [']'] levels.square t
  curly := depthAfter ['{'] ['}'] levels.curly t

end Levels

theorem levelsAfter_foldl (levels : Levels) (tokens : List Tok) :
    tokens.foldl Levels.after levels =
      { round := levelsAfter ['('] [')'] levels.round tokens
        square := levelsAfter ['['] [']'] levels.square tokens
        curly := levelsAfter ['{'] ['}'] levels.curly tokens } := by
  induction tokens generalizing levels with
  | nil => rfl
  | cons t tokens ih => exact ih (levels.after t)

theorem ClosesShapes.total_eq {tokens : List Tok} (closes : ClosesShapes tokens) :
    (tokens.foldl Levels.after ⟨0, 0, 0⟩).total = 0 := by
  obtain ⟨round, square, curly, -⟩ : _ ∧ _ ∧ _ ∧ _ := by
    simpa only [ClosesShapes, shapes, List.forall_mem_cons] using closes
  rw [levelsAfter_foldl, round, square, curly]
  rfl

/-- A count of all shapes together moves as the levels of the shapes do, but for a closing
bracket of a shape that has none open. -/
theorem Levels.total_after (levels : Levels) (t : Tok) :
    (isSymbolOf ["(", "[", "\x7b"] t = true → (levels.after t).total = levels.total + 1) ∧
      (isSymbolOf ["(", "[", "\x7b"] t = false → isSymbolOf [")", "]", "\x7d"] t = true →
        levels.total - 1 ≤ (levels.after t).total) ∧
      (isSymbolOf ["(", "[", "\x7b"] t = false → isSymbolOf [")", "]", "\x7d"] t = false →
        (levels.after t).total = levels.total) := by
  cases symbol : isSymbolToken t with
  | false => simp [isSymbolOf, Levels.after, Levels.total, depthAfter_of_noSymbol, symbol]
  | true =>
      simp only [Levels.total, Levels.after, depthAfter_of_symbol, symbol, isSymbolOf, isOneOf,
        Bool.true_and, ne_eq, List.cons.injEq, and_true, Char.reduceEq, not_false_eq_true]
      have known : t.text = ['('] ∨ t.text = ['['] ∨ t.text = ['{'] ∨ t.text = [')'] ∨
          t.text = [']'] ∨ t.text = ['}'] ∨
            ∀ text ∈ [['('], ['['], ['{'], [')'], [']'], ['}']], t.text ≠ text := by
        simp only [List.forall_mem_cons]
        tauto
      rcases known with text | text | text | text | text | text | other
      case inr.inr.inr.inr.inr.inr =>
        simp only [List.forall_mem_cons, ne_eq] at other
        simp [other, @eq_comm _ _ t.text]
      all_goals
        simp [text]
        omega

/-- A count of all shapes together has no more levels open than the shapes have. -/
theorem Levels.le_total_after {levels : Levels} {depth : Nat} (le : depth ≤ levels.total)
    (t : Tok) :
    (isSymbolOf ["(", "[", "\x7b"] t = true → depth + 1 ≤ (levels.after t).total) ∧
      (¬ isSymbolOf ["(", "[", "\x7b"] t = true → isSymbolOf [")", "]", "\x7d"] t = true →
        depth - 1 ≤ (levels.after t).total) ∧
      (¬ isSymbolOf ["(", "[", "\x7b"] t = true → ¬ isSymbolOf [")", "]", "\x7d"] t = true →
        depth ≤ (levels.after t).total) := by
  obtain ⟨opening, closing, other⟩ := levels.total_after t
  simp only [Bool.not_eq_true]
  refine ⟨fun opens => ?_, fun noOpening closes => ?_, fun noOpening noClosing => ?_⟩
  · have more := opening opens
    omega
  · have less := closing noOpening closes
    omega
  · have same := other noOpening noClosing
    omega

section Fence

variable {close : Tok} {after : List Tok}

theorem symbol_of_close (closes : isSymbol ")" close = true) :
    isSymbolToken close = true ∧ close.text = [')'] := by
  simpa [isSymbol] using closes

theorem isSymbol_of_close {symbol : String} (closes : isSymbol ")" close = true)
    (other : symbol.toList ≠ [')']) : isSymbol symbol close = false := by
  rw [isSymbol, (symbol_of_close closes).2, beq_eq_false_iff_ne.2 other.symm, Bool.and_false]

theorem isSymbolOf_of_close {symbols : List String} (closes : isSymbol ")" close = true)
    (table : isOneOf symbols [')'] = false) : isSymbolOf symbols close = false := by
  rw [isSymbolOf, (symbol_of_close closes).2, table, Bool.and_false]

theorem isSymbolOf_closing_of_close {symbols : List String} (closes : isSymbol ")" close = true)
    (table : isOneOf symbols [')'] = true) : isSymbolOf symbols close = true := by
  obtain ⟨symbol, text⟩ := symbol_of_close closes
  rw [isSymbolOf, symbol, text, table, Bool.and_true]

theorem expressionCount_cons (stopAtComma : Bool) (closing : Tok) (depth : Nat) (last : Option Tok)
    (t : Tok) (rest : List Tok) :
    expressionCount stopAtComma closing depth last (t :: rest) =
      if depth = 0 && endsBefore stopAtComma closing last t rest then 0
      else if isSymbolOf ["(", "[", "\x7b"] t then
        expressionCount stopAtComma closing (depth + 1) (lastAfter last t) rest + 1
      else if isSymbolOf [")", "]", "\x7d"] t then
        if depth = 0 then 0
        else expressionCount stopAtComma closing (depth - 1) (lastAfter last t) rest + 1
      else expressionCount stopAtComma closing depth (lastAfter last t) rest + 1 := by
  cases depth <;> simp [expressionCount]

theorem delimiterCount_cons (depth : Nat) (t : Tok) (rest : List Tok) :
    delimiterCount depth (t :: rest) =
      if isSymbolOf ["(", "[", "\x7b"] t then delimiterCount (depth + 1) rest + 1
      else if isSymbolOf [")", "]", "\x7d"] t then
        if depth = 0 then 0 else delimiterCount (depth - 1) rest + 1
      else if depth = 0 && isSymbol "," t then 0
      else delimiterCount depth rest + 1 := by
  cases depth <;> simp [delimiterCount]

/-- An expression ends in front of the parenthesis when no level is open there. -/
theorem expressionCount_le (closes : isSymbol ")" close = true) {stopAtComma : Bool}
    {closing : Tok} {depth : Nat} {last : Option Tok} {levels : Levels}
    (le : depth ≤ levels.total) {part : List Tok}
    (closed : (part.foldl Levels.after levels).total = 0) :
    expressionCount stopAtComma closing depth last (part ++ close :: after) ≤ part.length := by
  induction part generalizing depth last levels with
  | nil =>
      obtain rfl : depth = 0 := Nat.le_zero.1 (closed ▸ le)
      rw [List.nil_append, expressionCount_cons, isSymbolOf_of_close closes rfl,
        isSymbolOf_closing_of_close closes rfl]
      simp
  | cons t part ih =>
      obtain ⟨opening, closing, other⟩ := Levels.le_total_after le t
      rw [List.cons_append, expressionCount_cons]
      split
      · exact Nat.zero_le _
      · split
        · rename_i opens
          exact Nat.succ_le_succ (ih (opening opens) closed)
        · rename_i noOpening
          split
          · rename_i isClosing
            split
            · exact Nat.zero_le _
            · exact Nat.succ_le_succ (ih (closing noOpening isClosing) closed)
          · rename_i noClosing
            exact Nat.succ_le_succ (ih (other noOpening noClosing) closed)

/-- So does the way to the next delimiter. -/
theorem delimiterCount_le (closes : isSymbol ")" close = true)
    {depth : Nat} {levels : Levels} (le : depth ≤ levels.total) {part : List Tok}
    (closed : (part.foldl Levels.after levels).total = 0) :
    delimiterCount depth (part ++ close :: after) ≤ part.length := by
  induction part generalizing depth levels with
  | nil =>
      obtain rfl : depth = 0 := Nat.le_zero.1 (closed ▸ le)
      rw [List.nil_append, delimiterCount_cons, isSymbolOf_of_close closes rfl,
        isSymbolOf_closing_of_close closes rfl]
      simp
  | cons t part ih =>
      obtain ⟨opening, closing, other⟩ := Levels.le_total_after le t
      rw [List.cons_append, delimiterCount_cons]
      split
      · rename_i opens
        exact Nat.succ_le_succ (ih (opening opens) closed)
      · rename_i noOpening
        split
        · rename_i isClosing
          split
          · exact Nat.zero_le _
          · exact Nat.succ_le_succ (ih (closing noOpening isClosing) closed)
        · rename_i noClosing
          split
          · exact Nat.zero_le _
          · exact Nat.succ_le_succ (ih (other noOpening noClosing) closed)

/-! ## Types -/

/-- The token ends a type outside of brackets, wherever it stands. -/
def endsAnyType (t : Tok) : Bool :=
  isSymbolOf [";", ","] t || (t.kind == .operator && t.text == ['='])

theorem typeEndsBefore_of_endsAnyType {t : Tok} (ends : endsAnyType t = true)
    (stopWords : List Text) (closing : Tok) (last : Option Tok) (rest : List Tok) :
    typeEndsBefore stopWords closing last t rest = true := by
  simp only [endsAnyType, Bool.or_eq_true] at ends
  rcases ends with separates | assigns
  · simp [typeEndsBefore, separates]
  · simp [typeEndsBefore, assigns]

/-- The levels that a type has open at the end of the tokens.  A token that ends the type
leaves none open. -/
def openLevels (depth : Nat) : List Tok → Nat
  | [] => depth
  | t :: rest =>
      if depth = 0 && endsAnyType t then 0
      else if isSymbolOf ["(", "[", "\x7b", "<"] t then openLevels (depth + 1) rest
      else if isSymbolOf [")", "]", "\x7d", ">", ">>", ">>>"] t then
        if depth = 0 then 0 else openLevels (depth - closedLevels t) rest
      else openLevels depth rest

/-- A type ends in front of the parenthesis when it has no level open there. -/
theorem typeCount_le (closes : isSymbol ")" close = true) {stopWords : List Text} {closing : Tok}
    {depth : Nat} {last : Option Tok} {part : List Tok} (closed : openLevels depth part = 0) :
    typeCount stopWords closing depth last (part ++ close :: after) ≤ part.length := by
  induction part generalizing depth last with
  | nil =>
      obtain rfl : depth = 0 := closed
      rw [List.nil_append, typeCount, isSymbolOf_of_close closes rfl,
        isSymbolOf_closing_of_close closes rfl]
      simp
  | cons t part ih =>
      rw [openLevels] at closed
      rw [List.cons_append, typeCount]
      split
      · exact Nat.zero_le _
      · rename_i goesOn
        have inside : ¬ (depth = 0 && endsAnyType t) = true := by
          refine fun ends => goesOn ?_
          rw [Bool.and_eq_true] at ends ⊢
          exact ⟨ends.1, typeEndsBefore_of_endsAnyType ends.2 _ _ _ _⟩
        rw [if_neg inside] at closed
        split
        · rename_i opens
          rw [if_pos opens] at closed
          exact Nat.succ_le_succ (ih closed)
        · rename_i noOpening
          rw [if_neg noOpening] at closed
          split
          · rename_i isClosing
            rw [if_pos isClosing] at closed
            split
            · exact Nat.zero_le _
            · rename_i opened
              rw [if_neg opened] at closed
              exact Nat.succ_le_succ (ih closed)
          · rename_i noClosing
            rw [if_neg noClosing] at closed
            exact Nat.succ_le_succ (ih closed)

end Fence

/-- Behind every colon among the tokens a type would have no level open at their end. -/
def closesTypes : List Tok → Bool
  | [] => true
  | t :: rest => (!isSymbol ":" t || openLevels 0 rest == 0) && closesTypes rest

theorem openLevels_of_closesTypes {tokens part : List Tok} {colon : Tok}
    (closes : closesTypes tokens = true) (suffix : colon :: part <:+ tokens)
    (isColon : isSymbol ":" colon = true) : openLevels 0 part = 0 := by
  induction tokens with
  | nil => exact absurd (List.suffix_nil.1 suffix) (List.cons_ne_nil colon part)
  | cons t tokens ih =>
      rw [closesTypes, Bool.and_eq_true] at closes
      rcases List.suffix_cons_iff.1 suffix with whole | later
      · cases whole
        simpa [isColon] using closes.1
      · exact ih closes.2 later

/-! ## Partners -/

/-- Tokens among which every round bracket has its partner. -/
inductive Balanced : List Tok → Prop
  | nil : Balanced []
  | other {t : Tok} {rest : List Tok} (noOpening : isSymbol "(" t = false)
      (noClosing : isSymbol ")" t = false) (later : Balanced rest) : Balanced (t :: rest)
  | group {opening close : Tok} {inner rest : List Tok} (opens : isSymbol "(" opening = true)
      (inside : Balanced inner) (closes : isSymbol ")" close = true) (later : Balanced rest) :
      Balanced (opening :: (inner ++ close :: rest))

/-- The round brackets of the tokens close `depth` levels and those that they open. -/
def closesLevels (depth : Nat) : List Tok → Bool
  | [] => depth == 0
  | t :: rest =>
      if isSymbol "(" t then closesLevels (depth + 1) rest
      else if isSymbol ")" t then depth != 0 && closesLevels (depth - 1) rest
      else closesLevels depth rest

/-- The first level that is closed ends the balanced tokens. -/
theorem exists_balanced {tokens : List Tok} {depth : Nat}
    (closes : closesLevels (depth + 1) tokens = true) :
    ∃ inner close rest, tokens = inner ++ close :: rest ∧ Balanced inner ∧
      isSymbol ")" close = true ∧ closesLevels depth rest = true := by
  induction size : tokens.length using Nat.strongRecOn generalizing tokens depth with
  | ind n ih =>
      cases tokens with
      | nil => cases closes
      | cons t tokens =>
          rw [List.length_cons] at size
          rw [closesLevels] at closes
          split at closes
          · rename_i opens
            obtain ⟨inner, close, rest, rfl, inside, isClose, later⟩ := ih _ (by omega) closes rfl
            simp only [List.length_append, List.length_cons] at size
            obtain ⟨others, last, rest, rfl, balanced, isLast, outside⟩ := ih _ (by omega) later rfl
            refine ⟨t :: (inner ++ close :: others), last, rest, by simp, ?_, isLast, outside⟩
            exact .group opens inside isClose balanced
          · rename_i noOpening
            split at closes
            · rename_i isClose
              exact ⟨[], t, tokens, rfl, .nil, isClose, by simpa using closes⟩
            · rename_i noClosing
              obtain ⟨inner, close, rest, rfl, inside, isClose, later⟩ := ih _ (by omega) closes rfl
              refine ⟨t :: inner, close, rest, rfl, ?_, isClose, later⟩
              exact .other (by simpa using noOpening) (by simpa using noClosing) inside

theorem Balanced.closesLevels_append {tokens : List Tok} (balanced : Balanced tokens) (depth : Nat)
    (later : List Tok) : closesLevels depth (tokens ++ later) = closesLevels depth later := by
  induction balanced generalizing depth later with
  | nil => rfl
  | other noOpening noClosing _ ih =>
      rw [List.cons_append, closesLevels, noOpening, noClosing]
      exact ih depth later
  | group opens _ closes _ first second =>
      have noOpening : isSymbol "(" _ = false := isSymbol_of_close closes (by decide)
      rw [List.cons_append, closesLevels, if_pos opens, List.append_assoc, first, List.cons_append,
        closesLevels, noOpening, closes]
      exact second depth later

theorem balanced_of_closesLevels {tokens : List Tok} (closes : closesLevels 0 tokens = true) :
    Balanced tokens := by
  induction size : tokens.length using Nat.strongRecOn generalizing tokens with
  | ind n ih =>
      cases tokens with
      | nil => exact .nil
      | cons t tokens =>
          rw [List.length_cons] at size
          rw [closesLevels] at closes
          split at closes
          · rename_i opens
            obtain ⟨inner, close, rest, rfl, inside, isClose, later⟩ := exists_balanced closes
            simp only [List.length_append, List.length_cons] at size
            exact .group opens inside isClose (ih _ (by omega) later rfl)
          · rename_i noOpening
            split at closes
            · cases closes
            · rename_i noClosing
              exact .other (by simpa using noOpening) (by simpa using noClosing)
                (ih _ (by omega) closes rfl)

theorem balanced_iff_closesLevels {tokens : List Tok} :
    Balanced tokens ↔ closesLevels 0 tokens = true := by
  refine ⟨fun balanced => ?_, balanced_of_closesLevels⟩
  have closes := balanced.closesLevels_append 0 []
  rwa [List.append_nil] at closes

instance (tokens : List Tok) : Decidable (Balanced tokens) :=
  decidable_of_iff _ balanced_iff_closesLevels.symm

instance (tokens : List Tok) : Decidable (ClosesShapes tokens) :=
  inferInstanceAs (Decidable (∀ shape ∈ shapes, levelsAfter shape.1 shape.2 0 tokens = 0))

theorem depthAfter_round (depth : Nat) (t : Tok) :
    depthAfter ['('] [')'] depth t =
      if isSymbol "(" t then depth + 1 else if isSymbol ")" t then depth - 1 else depth := by
  cases symbol : isSymbolToken t with
  | false => simp [depthAfter_of_noSymbol, isSymbol, symbol]
  | true => simp [depthAfter_of_symbol, isSymbol, symbol]

/-- Inside a parenthesis that is open already the count passes over balanced tokens. -/
theorem Balanced.balancedCount_append {tokens : List Tok} (balanced : Balanced tokens) (depth : Nat)
    (later : List Tok) :
    balancedCount ['('] [')'] (depth + 1) (tokens ++ later) =
      tokens.length + balancedCount ['('] [')'] (depth + 1) later := by
  induction balanced generalizing depth later with
  | nil => exact (Nat.zero_add _).symm
  | other noOpening noClosing _ ih =>
      rw [List.cons_append, balancedCount, depthAfter_round, noOpening, noClosing]
      simp only [Bool.false_eq_true, if_false, Nat.add_one_ne_zero, ih, List.length_cons]
      omega
  | @group opening close inner rest opens _ closes _ first second =>
      have noOpening : isSymbol "(" close = false := isSymbol_of_close closes (by decide)
      rw [List.cons_append, balancedCount, depthAfter_round, if_pos opens, if_neg (by omega),
        List.append_assoc, first, List.cons_append, balancedCount, depthAfter_round, noOpening,
        closes]
      simp only [Bool.false_eq_true, if_false, if_true, Nat.add_sub_cancel, Nat.add_one_ne_zero,
        second, List.length_cons, List.length_append]
      omega

/-- The partner of a parenthesis is the one behind the balanced tokens. -/
theorem Balanced.balancedCount_eq {opening close : Tok} {inner : List Tok}
    (balanced : Balanced inner) (opens : isSymbol "(" opening = true)
    (closes : isSymbol ")" close = true) (after : List Tok) :
    balancedCount ['('] [')'] 0 (opening :: (inner ++ close :: after)) = inner.length + 2 := by
  have noOpening : isSymbol "(" close = false := isSymbol_of_close closes (by decide)
  rw [balancedCount, depthAfter_round, if_pos opens, if_neg (by omega),
    balanced.balancedCount_append, balancedCount, depthAfter_round, noOpening, closes]
  rfl

/-- The bracket at an offset of a source of one line. -/
def bracketAt (offset : Nat) (bracket : Char) : Tok :=
  { kind := .punctuator, text := [bracket], start := offset, stop := offset + 1, line := 1,
    column := offset + 1 }

end UiFormat.Ets

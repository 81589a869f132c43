/-
# UiFormat.Proofs.Markup.ExprComposing -- printing adds enough parentheses

An expression that was put together by hand (`Composed`) has no groupings where its
source would need them.  The printer adds them: each part of it is spelled in its place,
between parentheses if it binds too loosely there (`Composed.spellable`), so the printed
text is read back as the same expression up to groupings.

Two places are given too low a level.  The test of a conditional and the target of an
assignment are disjunctions to the grammar, and are printed like its branches and its
value, so a conditional as a test and a conditional or an assignment as a target stand
there without their parentheses.  What is read back then leans to the right instead:
`Expr.leansRight` excludes the two at one node, and `misread` has one expression for each.

Main statement: `parseFragment_print_composed`.
-/
import UiFormat.Proofs.Markup.ExprParentheses

namespace UiFormat.Markup

open UiFormat.Text
open UiFormat.Parse

set_option autoImplicit false

/-! ## Composed expressions -/

/-- Expressions put together from names, numbers and strings in any way. -/
inductive Composed : Expr → Prop
  | identifier {name : Text} (isWord : IsWord name) (noKeyword : wordKind name = .identifier) :
      Composed (.identifier name)
  | number {raw : Text} (isNumber : IsNumber raw) : Composed (.literal .number raw)
  | string {raw : Text} (isString : IsString raw) : Composed (.literal .string raw)
  | unary {op : String} {operand : Expr} (isOp : op ∈ unaryOperators) (part : Composed operand) :
      Composed (.unary op.toList operand)
  | binary {level : Nat} {op : String} {left right : Expr} (isOp : op ∈ operatorsAt level)
      (first : Composed left) (second : Composed right) :
      Composed (buildAt level left op.toList right)
  | conditional {test consequent alternate : Expr} (first : Composed test)
      (second : Composed consequent) (third : Composed alternate) :
      Composed (.conditional test consequent alternate)
  | assignment {op : String} {target value : Expr} (isOp : op ∈ assignmentOperators)
      (first : Composed target) (second : Composed value) :
      Composed (.assignment target op.toList value)
  | call {callee : Expr} {arguments : List Expr} (value : Composed callee)
      (items : ∀ e ∈ arguments, Composed e) : Composed (.call callee arguments)
  | computedMember {object index : Expr} (value : Composed object) (part : Composed index) :
      Composed (.computedMember object index)
  | array {items : List Expr} (parts : ∀ e ∈ items, Composed e) : Composed (.array items)
  | grouping {body : Expr} (part : Composed body) : Composed (.grouping body)

/-- The expression is a conditional. -/
def Expr.isConditional : Expr → Bool
  | .conditional _ _ _ => true
  | _ => false

/-- No conditional is a test, and neither a conditional nor an assignment is a target,
at this node. -/
def Expr.leansRight : Expr → Bool
  | .conditional test _ _ => !test.isConditional
  | .assignment target _ _ => !target.isConditional && !target.isAssignment
  | _ => true

theorem three_le_level {e : Expr} (noChoice : e.isConditional = false)
    (noAssignment : e.isAssignment = false) : 3 ≤ e.level := by
  cases e with
  | conditional test consequent alternate => cases noChoice
  | assignment target op value => cases noAssignment
  | binary left op right => exact three_le_binaryLevel op
  | logical left op right => exact three_le_binaryLevel op
  | _ => exact Nat.le_of_ble_eq_true rfl

/-- A part binds at least as tightly as its place demands, with its parentheses. -/
theorem le_level_grouped {required : Nat} (place : required ≤ atomLevel) (e : Expr) :
    required ≤ (e.grouped required).level := by
  unfold Expr.grouped
  split
  · exact place
  · exact Nat.le_of_not_lt ‹_›

/-- A test other than a conditional is a disjunction, with its parentheses. -/
theorem three_le_test {e : Expr} (noChoice : e.isConditional = false) :
    3 ≤ (e.grouped 2).level := by
  unfold Expr.grouped
  split
  · exact Nat.le_of_ble_eq_true rfl
  · rename_i tight
    refine three_le_level noChoice ?_
    cases e with
    | assignment target op value => exact absurd (by decide : 1 < 2) tight
    | _ => rfl

theorem isConditional_parenthesized (e : Expr) :
    e.parenthesized.isConditional = e.isConditional := by
  cases e <;> rfl

/-! ## Spelling composed expressions -/

section

variable {spells : List Tok → Expr → Prop}

theorem isOperatorOf_bare {op : String} {ops : List String} (member : op ∈ ops) :
    isOperatorOf ops (bareToken .operator op.toList) = true :=
  isOperatorOf_iff.2 ⟨rfl, op, member, rfl⟩

theorem spelled_bare {op : String} (member : op ∈ operators) :
    Spelled (bareToken .operator op.toList) :=
  ⟨op, member, rfl⟩

theorem mem_operators {level : Nat} {op : String} (member : op ∈ operatorsAt level) :
    op ∈ operators := by
  have table : ∀ level ∈ [3, 4, 5, 6, 7, 8], ∀ op ∈ operatorsAt level, op ∈ operators := by
    decide
  exact table level (mem_levels_of_operator member) op member

/-- Several expressions can be spelled with commas between them. -/
theorem exists_items {es : List Expr} (each : ∀ e ∈ es, Spellable spells e) :
    ∃ toks, Items spells toks es ∧ ∀ t ∈ toks, Spelled t := by
  induction es with
  | nil => exact ⟨[], .nil, fun t member => absurd member List.not_mem_nil⟩
  | cons e es ih =>
      obtain ⟨first, here, firstLeaves⟩ := each e List.mem_cons_self
      obtain ⟨later, rest, laterLeaves⟩ := ih fun x member => each x (List.mem_cons_of_mem _ member)
      have comma : Spelled (bareToken .punctuator [',']) := trivial
      exact ⟨_, .more here rfl rest,
        leaves_append firstLeaves (List.forall_mem_cons.2 ⟨comma, laterLeaves⟩)⟩

end

/-- The parenthesized expression can be spelled at its level, with as many complete
expressions inside each other as it has. -/
def Expr.Composable (e : Expr) : Prop :=
  ∀ n : Nat, e.parenthesized.nesting ≤ n → Spellable (Derives (Spells n) e.level) e.parenthesized

section

variable {n required : Nat} {e : Expr}

/-- A complete expression, alone. -/
theorem Expr.Composable.complete (part : e.Composable) (small : e.parenthesized.nesting < n) :
    Spellable (Spells n) e.parenthesized := by
  cases n with
  | zero => exact absurd small (Nat.not_lt_zero _)
  | succ n => exact (part n (Nat.le_of_lt_succ small)).looser (one_le_level e)

/-- A part in its place, between parentheses if it binds too loosely there. -/
theorem Expr.Composable.placed (part : e.Composable)
    (small : (e.parenthesized.grouped required).nesting ≤ n) :
    Spellable (Derives (Spells n) (e.parenthesized.grouped required).level)
      (e.parenthesized.grouped required) := by
  by_cases loose : e.parenthesized.level < required
  · rw [Expr.grouped, if_pos loose] at small ⊢
    exact spellable_enclosed (part.complete small)
  · rw [Expr.grouped, if_neg loose] at small ⊢
    rw [level_parenthesized]
    exact part n small

/-- A complete expression in its place. -/
theorem Expr.Composable.branch (part : e.Composable)
    (small : (e.parenthesized.grouped required).nesting < n) :
    Spellable (Spells n) (e.parenthesized.grouped required) := by
  cases n with
  | zero => exact absurd small (Nat.not_lt_zero _)
  | succ n => exact (part.placed (Nat.le_of_lt_succ small)).looser (one_le_level _)

/-- Complete expressions with commas between them. -/
theorem exists_arguments {es : List Expr} (parts : ∀ e ∈ es, e.Composable)
    (small : nestingOf (allParenthesized es) ≤ n) :
    ∃ toks, Items (Spells n) toks (allParenthesized es) ∧ ∀ t ∈ toks, Spelled t := by
  refine exists_items fun e member => ?_
  have inside := nesting_lt_of_mem member
  rw [allParenthesized_eq] at member
  obtain ⟨x, given, rfl⟩ := List.mem_map.1 member
  exact (parts x given).complete (Nat.lt_of_lt_of_le inside small)

end

/-- The parentheses of a binary expression stand around its operands. -/
theorem parenthesized_binary {level : Nat} {op : String} (isOp : op ∈ operatorsAt level)
    (x y : Expr) :
    (buildAt level x op.toList y).parenthesized =
      buildAt level (x.parenthesized.grouped level) op.toList
        (y.parenthesized.grouped (level + 1)) := by
  have same : binaryLevel op.toList = level := binaryLevel_of_operator (isOperatorOf_bare isOp)
  unfold buildAt
  split <;> rw [Expr.parenthesized, same]

/-- Composed expressions can be spelled, if all of them lean right. -/
theorem Composed.composable {e : Expr} (composed : Composed e)
    (leans : e.every Expr.leansRight = true) : e.Composable := by
  induction composed with
  | @identifier name isWord noKeyword =>
      intro n small
      have leaf : Spelled (bareToken .identifier name) := ⟨isWord, noKeyword⟩
      exact ⟨[bareToken .identifier name], .name rfl, List.forall_mem_singleton.2 leaf⟩
  | @number raw isNumber =>
      intro n small
      have leaf : Spelled (bareToken .number raw) := isNumber
      exact ⟨[bareToken .number raw], .literal rfl, List.forall_mem_singleton.2 leaf⟩
  | @string raw isString =>
      intro n small
      have leaf : Spelled (bareToken .string raw) := isString
      exact ⟨[bareToken .string raw], .literal rfl, List.forall_mem_singleton.2 leaf⟩
  | @unary op operand isOp part ih =>
      intro n small
      simp only [Expr.every, Bool.and_eq_true] at leans
      obtain ⟨toks, body, leaves⟩ := ((ih leans.2).placed small).looser
        (le_level_grouped (by decide : unaryLevel ≤ atomLevel) _)
      have known : ∀ op ∈ unaryOperators, op ∈ operators := by decide
      exact ⟨_, .unary (isOperatorOf_bare isOp) body,
        List.forall_mem_cons.2 ⟨spelled_bare (known op isOp), leaves⟩⟩
  | @binary level op left right isOp first second ihFirst ihSecond =>
      intro n small
      obtain ⟨leftLeans, rightLeans⟩ := every_buildAt leans
      have same : binaryLevel op.toList = level := binaryLevel_of_operator (isOperatorOf_bare isOp)
      have place : level + 1 ≤ atomLevel :=
        Nat.le_succ_of_le (Nat.succ_le_succ (same ▸ binaryLevel_le op.toList))
      rw [parenthesized_binary isOp] at small ⊢
      rw [nesting_buildAt] at small
      obtain ⟨smallLeft, smallRight⟩ := Nat.max_le.1 small
      obtain ⟨a, firstBody, firstLeaves⟩ := ((ihFirst leftLeans).placed smallLeft).looser
        (le_level_grouped (Nat.le_of_succ_le place) _)
      obtain ⟨b, secondBody, secondLeaves⟩ := ((ihSecond rightLeans).placed smallRight).looser
        (le_level_grouped place _)
      rw [level_buildAt, same]
      exact ⟨_, .binary firstBody (isOperatorOf_bare isOp) secondBody,
        leaves_append firstLeaves
          (List.forall_mem_cons.2 ⟨spelled_bare (mem_operators isOp), secondLeaves⟩)⟩
  | @conditional test consequent alternate first second third ihFirst ihSecond ihThird =>
      intro n small
      simp only [Expr.every, Expr.leansRight, Bool.and_eq_true, Bool.not_eq_true'] at leans
      obtain ⟨smallTest, smallBranches⟩ := Nat.max_le.1 small
      obtain ⟨smallYes, smallNo⟩ := Nat.max_le.1 smallBranches
      obtain ⟨a, body, leaves⟩ := ((ihFirst leans.1.1.2).placed smallTest).looser
        (three_le_test ((isConditional_parenthesized test).trans leans.1.1.1))
      obtain ⟨b, yes, yesLeaves⟩ := (ihSecond leans.1.2).branch smallYes
      obtain ⟨c, no, noLeaves⟩ := (ihThird leans.2).branch smallNo
      have asks : isOperator "?" (bareToken .operator "?".toList) = true := by decide
      have splits : isOperator ":" (bareToken .operator ":".toList) = true := by decide
      have marks : "?" ∈ operators ∧ ":" ∈ operators := by decide
      exact ⟨_, .conditional body asks yes splits no,
        leaves_append leaves (List.forall_mem_cons.2 ⟨spelled_bare marks.1,
          leaves_append yesLeaves (List.forall_mem_cons.2 ⟨spelled_bare marks.2, noLeaves⟩)⟩)⟩
  | @assignment op target value isOp first second ihFirst ihSecond =>
      intro n small
      simp only [Expr.every, Expr.leansRight, Bool.and_eq_true, Bool.not_eq_true'] at leans
      obtain ⟨smallTarget, smallValue⟩ := Nat.max_le.1 small
      have tight : 3 ≤ (target.parenthesized.grouped 1).level := by
        rw [grouped_eq (one_le_level _), level_parenthesized]
        exact three_le_level leans.1.1.1 leans.1.1.2
      obtain ⟨a, body, leaves⟩ := ((ihFirst leans.1.2).placed smallTarget).looser tight
      obtain ⟨b, rest, restLeaves⟩ := (ihSecond leans.2).branch smallValue
      have known : ∀ op ∈ assignmentOperators, op ∈ operators := by decide
      exact ⟨_, .assignment body (isOperatorOf_bare isOp) rest,
        leaves_append leaves (List.forall_mem_cons.2 ⟨spelled_bare (known op isOp), restLeaves⟩)⟩
  | @call callee arguments value items ihValue ihItems =>
      intro n small
      simp only [Expr.every, Bool.and_eq_true, everyOf_eq, List.all_eq_true] at leans
      obtain ⟨smallCallee, smallArguments⟩ := Nat.max_le.1 small
      obtain ⟨a, body, leaves⟩ := ((ihValue leans.1.2).placed smallCallee).looser
        (le_level_grouped (by decide : postfixLevel ≤ atomLevel) _)
      obtain ⟨b, list, listLeaves⟩ := exists_arguments
        (fun e member => ihItems e member (leans.2 e member)) smallArguments
      exact ⟨_, .call body (isPunctuator_iff.2 ⟨rfl, rfl⟩) list (isPunctuator_iff.2 ⟨rfl, rfl⟩),
        leaves_append leaves (leaves_between listLeaves)⟩
  | @computedMember object index value part ihValue ihPart =>
      intro n small
      simp only [Expr.every, Bool.and_eq_true] at leans
      obtain ⟨smallObject, smallIndex⟩ := Nat.max_le.1 small
      obtain ⟨a, body, leaves⟩ := ((ihValue leans.1.2).placed smallObject).looser
        (le_level_grouped (by decide : postfixLevel ≤ atomLevel) _)
      obtain ⟨b, inner, innerLeaves⟩ := (ihPart leans.2).complete smallIndex
      exact ⟨_, .index body (isPunctuator_iff.2 ⟨rfl, rfl⟩) inner (isPunctuator_iff.2 ⟨rfl, rfl⟩),
        leaves_append leaves (leaves_between innerLeaves)⟩
  | @array items parts ih =>
      intro n small
      simp only [Expr.every, Bool.and_eq_true, everyOf_eq, List.all_eq_true] at leans
      obtain ⟨toks, list, leaves⟩ := exists_arguments
        (fun e member => ih e member (leans.2 e member)) small
      exact ⟨_, .array (isPunctuator_iff.2 ⟨rfl, rfl⟩) list (isPunctuator_iff.2 ⟨rfl, rfl⟩),
        leaves_between leaves⟩
  | @grouping body part ih =>
      intro n small
      simp only [Expr.every, Bool.and_eq_true] at leans
      exact spellable_enclosed ((ih leans.2).complete small)

/-! ## Reading back -/

theorem every_of_parts {p : Expr → Bool} {level : Nat} {x y : Expr} {op : Text}
    (node : p (buildAt level x op y) = true) (left : x.every p = true) (right : y.every p = true) :
    (buildAt level x op y).every p = true := by
  unfold buildAt at node ⊢
  split <;> rename_i low <;> simp only [low, if_true, if_false] at node <;>
    simp only [Expr.every, node, left, right, Bool.and_self]

/-- There is no member access in a composed expression. -/
theorem Composed.keepsPoint {e : Expr} (composed : Composed e) :
    e.every Expr.keepsPoint = true := by
  induction composed with
  | binary isOp first second ihFirst ihSecond =>
      refine every_of_parts ?_ ihFirst ihSecond
      unfold buildAt
      split <;> rfl
  | call value items ihValue ihItems =>
      simpa [Expr.every, Expr.keepsPoint, everyOf_eq, ihValue] using ihItems
  | array parts ih => simpa [Expr.every, Expr.keepsPoint, everyOf_eq] using ih
  | _ => simp_all [Expr.every, Expr.keepsPoint]

/-- **Printing adds enough parentheses.**  A composed expression in which no conditional is
a test, and neither a conditional nor an assignment a target, is printed as a text that is
parsed without errors to the same expression up to groupings, as long as it stays below the
two limits on depth with the parentheses it is printed with. -/
theorem parseFragment_print_composed {e : Expr} (composed : Composed e)
    (leans : e.every Expr.leansRight = true)
    (shallow : e.parenthesized.nesting < expressionLimit)
    (low : e.parenthesized.height ≤ heightLimit) :
    ∃ read, parseFragment e.print = (some read, []) ∧ read.ungrouped = e.ungrouped := by
  obtain ⟨toks, spelled, leaves⟩ := Expr.Composable.complete (composed.composable leans) shallow
  have padded : Lexes [] (['{', '{'] ++ ([' '] ++ e.parenthesized.print) ++ ([' '] ++ ['}', '}']))
      [] [] fun toks => ∀ rest, InterpolationRun (toks ++ rest) e.parenthesized rest :=
    lexes_padded (fun _ => id) spelled leaves (every_parenthesized e composed.keepsPoint) low
      (by decide) (by decide) (by decide)
  rw [print_parenthesized] at padded
  have same : ['{', '{'] ++ ([' '] ++ e.print) ++ ([' '] ++ ['}', '}']) =
      ['{', '{', ' '] ++ e.print ++ [' ', '}', '}'] := by simp
  rw [same] at padded
  exact ⟨_, parseFragment_of_lexes padded, ungrouped_parenthesized e⟩

theorem composed_letter {c : Char} (member : c ∈ "abcdefghi".toList) :
    Composed (.identifier [c]) := by
  have table : ∀ c ∈ "abcdefghi".toList, isIdentStart c = true ∧ wordKind [c] = .identifier :=
    forall_mem_of_all (by decide)
  exact .identifier ⟨c, [], rfl, (table c member).1, by simp⟩ (table c member).2

/-- An assignment as a test, signs in front of each other, a sum that is called and a
difference on the right of another. -/
def mixedTree : Expr :=
  .conditional (.assignment (.identifier ['a']) "+=".toList (.identifier ['b']))
    (.unary "-".toList (.unary "-".toList (.identifier ['c'])))
    (.call (.binary (.identifier ['d']) "+".toList (.identifier ['e']))
      [.array [.identifier ['f']], .binary (.identifier ['g']) "-".toList
        (.binary (.identifier ['h']) "-".toList (.identifier ['i']))])

theorem parseFragment_print_mixedTree :
    Composed mixedTree ∧ mixedTree.every Expr.leansRight = true ∧
      mixedTree.parenthesized.nesting < expressionLimit ∧
      mixedTree.parenthesized.height ≤ heightLimit ∧
      mixedTree.print = "(a += b) ? - -c : (d + e)([f], g - (h - i))".toList ∧
      ∃ read, parseFragment mixedTree.print = (some read, []) ∧
        read.ungrouped = mixedTree.ungrouped := by
  have test : Composed (.assignment (.identifier ['a']) "+=".toList (.identifier ['b'])) :=
    .assignment (by decide) (composed_letter (by decide)) (composed_letter (by decide))
  have signs : Composed (.unary "-".toList (.unary "-".toList (.identifier ['c']))) :=
    .unary (by decide) (.unary (by decide) (composed_letter (by decide)))
  have sum : Composed (.binary (.identifier ['d']) "+".toList (.identifier ['e'])) :=
    @Composed.binary 7 "+" _ _ (by decide) (composed_letter (by decide)) (composed_letter (by decide))
  have list : Composed (.array [.identifier ['f']]) :=
    .array (List.forall_mem_singleton.2 (composed_letter (by decide)))
  have inner : Composed (.binary (.identifier ['h']) "-".toList (.identifier ['i'])) :=
    @Composed.binary 7 "-" _ _ (by decide) (composed_letter (by decide)) (composed_letter (by decide))
  have difference : Composed (.binary (.identifier ['g']) "-".toList
      (.binary (.identifier ['h']) "-".toList (.identifier ['i']))) :=
    @Composed.binary 7 "-" _ _ (by decide) (composed_letter (by decide)) inner
  have composed : Composed mixedTree :=
    .conditional test signs (.call sum
      (List.forall_mem_cons.2 ⟨list, List.forall_mem_singleton.2 difference⟩))
  obtain ⟨leans, shallow, low, printed⟩ : mixedTree.every Expr.leansRight = true ∧
      mixedTree.parenthesized.nesting < expressionLimit ∧
      mixedTree.parenthesized.height ≤ heightLimit ∧
      mixedTree.print = "(a += b) ? - -c : (d + e)([f], g - (h - i))".toList := by
    decide +kernel
  exact ⟨composed, leans, shallow, low, printed,
    parseFragment_print_composed composed leans shallow low⟩

/-- A conditional as a test, a conditional as a target, and an assignment as a target. -/
def misread : List Expr := [
  .conditional (.conditional (.identifier ['a']) (.identifier ['b']) (.identifier ['c']))
    (.identifier ['d']) (.identifier ['e']),
  .assignment (.conditional (.identifier ['a']) (.identifier ['b']) (.identifier ['c']))
    "=".toList (.identifier ['d']),
  .assignment (.assignment (.identifier ['a']) "=".toList (.identifier ['b'])) "=".toList
    (.identifier ['c'])
]

/-- The expressions that do not lean right are read back without errors as others that do. -/
theorem parseFragment_print_misread :
    (∀ e ∈ misread, Composed e ∧ e.parenthesized.nesting < expressionLimit ∧
      e.parenthesized.height ≤ heightLimit ∧ (parseFragment e.print).2.isEmpty = true ∧
      ∀ read, parseFragment e.print = (some read, []) → read.ungrouped ≠ e.ungrouped) ∧
    ¬ ∀ e, Composed e → e.parenthesized.nesting < expressionLimit →
      e.parenthesized.height ≤ heightLimit →
      ∃ read, parseFragment e.print = (some read, []) ∧ read.ungrouped = e.ungrouped := by
  have composed : ∀ e ∈ misread, Composed e := by
    have choice : Composed (.conditional (.identifier ['a']) (.identifier ['b'])
        (.identifier ['c'])) :=
      .conditional (composed_letter (by decide)) (composed_letter (by decide))
        (composed_letter (by decide))
    have given : Composed (.assignment (.identifier ['a']) "=".toList (.identifier ['b'])) :=
      .assignment (by decide) (composed_letter (by decide)) (composed_letter (by decide))
    intro e member
    simp only [misread, List.mem_cons, List.not_mem_nil, or_false] at member
    rcases member with rfl | rfl | rfl
    · exact .conditional choice (composed_letter (by decide)) (composed_letter (by decide))
    · exact .assignment (by decide) choice (composed_letter (by decide))
    · exact .assignment (by decide) given (composed_letter (by decide))
  have small : ∀ e ∈ misread, e.parenthesized.nesting < expressionLimit ∧
      e.parenthesized.height ≤ heightLimit ∧ (parseFragment e.print).2.isEmpty = true := by
    decide +kernel
  -- What is read leans right, also without its groupings; the expression does not.
  have leaning : ∀ e ∈ misread, e.ungrouped.every Expr.leansRight = false ∧
      (parseFragment e.print).1.all (fun read => read.ungrouped.every Expr.leansRight) = true := by
    decide +kernel
  have other : ∀ e ∈ misread, ∀ read, parseFragment e.print = (some read, []) →
      read.ungrouped ≠ e.ungrouped := by
    intro e member read parsed same
    obtain ⟨crooked, straight⟩ := leaning e member
    rw [parsed, Option.all_some, same, crooked] at straight
    cases straight
  refine ⟨fun e member => ?_, fun claim => ?_⟩
  · obtain ⟨shallow, low, silent⟩ := small e member
    exact ⟨composed e member, shallow, low, silent, other e member⟩
  · have first : misread.head (by decide) ∈ misread := List.head_mem _
    obtain ⟨shallow, low, -⟩ := small _ first
    obtain ⟨read, parsed, same⟩ := claim _ (composed _ first) shallow low
    exact other _ first read parsed same

end UiFormat.Markup

/-
# UiFormat.Proofs.Markup.ExprParts -- tests on every part of an expression

`Expr.every p` holds when the test `p` holds of an expression and of all the
expressions inside it.  Two tests matter to the printer.  A numeral that is
digits alone runs on into the point of a member access, and an assignment that is
a branch of a conditional gets parentheses, which are read back as a grouping.
`Expr.printsBack` excludes both at one node.
-/
import UiFormat.Text.Digit
import UiFormat.Markup.ExprPrinter

namespace UiFormat.Markup

open UiFormat.Text

set_option autoImplicit false

mutual

/-- The test holds of the expression and of all expressions inside it. -/
def Expr.every (p : Expr → Bool) : Expr → Bool
  | .identifier name => p (.identifier name)
  | .literal kind raw => p (.literal kind raw)
  | .unary op operand => p (.unary op operand) && operand.every p
  | .binary left op right => p (.binary left op right) && left.every p && right.every p
  | .logical left op right => p (.logical left op right) && left.every p && right.every p
  | .conditional test consequent alternate =>
      p (.conditional test consequent alternate) && test.every p && consequent.every p
        && alternate.every p
  | .assignment target op value => p (.assignment target op value) && target.every p && value.every p
  | .member object name => p (.member object name) && object.every p
  | .computedMember object index => p (.computedMember object index) && object.every p && index.every p
  | .call callee arguments => p (.call callee arguments) && callee.every p && everyOf p arguments
  | .array items => p (.array items) && everyOf p items
  | .object entries => p (.object entries) && everyOfEntries p entries
  | .grouping body => p (.grouping body) && body.every p

/-- The test holds of several expressions and their parts. -/
def everyOf (p : Expr → Bool) : List Expr → Bool
  | [] => true
  | e :: rest => e.every p && everyOf p rest

/-- The test holds of the expressions in several object entries. -/
def everyOfEntries (p : Expr → Bool) : List Entry → Bool
  | [] => true
  | entry :: rest => entry.every p && everyOfEntries p rest

/-- The test holds of the expressions in an object entry. -/
def Entry.every (p : Expr → Bool) : Entry → Bool
  | .shorthand key => key.every p
  | .pair key value => key.every p && value.every p

/-- The test holds of the expressions in a key. -/
def Key.every (p : Expr → Bool) : Key → Bool
  | .name _ => true
  | .literal _ _ => true
  | .computed body => body.every p

end

theorem everyOf_eq (p : Expr → Bool) (es : List Expr) : everyOf p es = es.all (Expr.every p) := by
  induction es with
  | nil => rfl
  | cons e es ih => rw [everyOf, List.all_cons, ih]

theorem everyOfEntries_eq (p : Expr → Bool) (es : List Entry) :
    everyOfEntries p es = es.all (Entry.every p) := by
  induction es with
  | nil => rfl
  | cons e es ih => rw [everyOfEntries, List.all_cons, ih]

/-! ## What the printer cannot print -/

/-- The expression is a number. -/
def Expr.isNumber : Expr → Bool
  | .literal .number _ => true
  | _ => false

/-- The expression is a number written with digits alone. -/
def Expr.isPlainNumber : Expr → Bool
  | .literal .number raw => raw.all isDigit
  | _ => false

/-- The expression is an assignment. -/
def Expr.isAssignment : Expr → Bool
  | .assignment _ _ _ => true
  | _ => false

/-- No plain number has a member and no branch is an assignment, at this node. -/
def Expr.printsBack : Expr → Bool
  | .member value _ => !value.isPlainNumber
  | .conditional _ consequent alternate => !consequent.isAssignment && !alternate.isAssignment
  | _ => true

/-- No number has a member and no branch is an assignment, at this node. -/
def Expr.isStable : Expr → Bool
  | .member value _ => !value.isNumber
  | .conditional _ consequent alternate => !consequent.isAssignment && !alternate.isAssignment
  | _ => true

theorem printsBack_of_isStable (e : Expr) (stable : e.isStable = true) : e.printsBack = true := by
  cases e with
  | member value name =>
      simp only [Expr.isStable, Expr.printsBack, Bool.not_eq_true'] at stable ⊢
      cases value with
      | literal kind raw => cases kind <;> first | rfl | cases stable
      | _ => rfl
  | _ => exact stable

theorem three_le_binaryLevel (op : Text) : 3 ≤ binaryLevel op := by
  unfold binaryLevel
  split
  · rename_i level ops found
    have table : ∀ group ∈ binaryLevels, 3 ≤ group.1 := by decide
    exact table _ (List.mem_of_find?_eq_some found)
  · decide

theorem two_le_level {e : Expr} (other : e.isAssignment = false) : 2 ≤ e.level := by
  cases e with
  | assignment target op value => cases other
  | binary left op right => exact Nat.le_of_succ_le (three_le_binaryLevel op)
  | logical left op right => exact Nat.le_of_succ_le (three_le_binaryLevel op)
  | _ => exact Nat.le_of_ble_eq_true rfl

theorem one_le_level (e : Expr) : 1 ≤ e.level := by
  cases assigns : e.isAssignment with
  | true =>
      cases e with
      | assignment target op value => exact Nat.le_refl 1
      | _ => cases assigns
  | false => exact Nat.le_of_succ_le (two_le_level assigns)

end UiFormat.Markup

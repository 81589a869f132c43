/-
# UiFormat.Markup.ExprPrinter -- expressions as text

An expression is printed with the parentheses its place demands: a part whose
operator binds less tightly than its place requires is parenthesised.  From
loosest to tightest the levels are assignment, conditional, `||`, `&&`, equality,
relation, sum, product, unary operators, postfix forms and atoms.  Binary
operators group to the left, so their right part must bind one level tighter.
An operator outside the table binds like a unary one.

Two equal signs never meet: a unary sign before an operand that starts with the
same sign is followed by a space.
-/
import UiFormat.Markup.Expr

namespace UiFormat.Markup

open UiFormat.Text

set_option autoImplicit false

/-- How tightly a unary operator binds. -/
def unaryLevel : Nat := 9

/-- How tightly member access, indexing and calls bind. -/
def postfixLevel : Nat := 10

/-- How tightly atoms bind. -/
def atomLevel : Nat := 11

/-- The binary operators by level. -/
def binaryLevels : List (Nat × List String) := [
  (3, ["||"]),
  (4, ["&&"]),
  (5, ["==", "!=", "===", "!=="]),
  (6, ["<", ">", "<=", ">="]),
  (7, ["+", "-"]),
  (8, ["*", "/", "%"])
]

/-- How tightly a binary operator binds. -/
def binaryLevel (op : Text) : Nat :=
  match binaryLevels.find? fun (_, ops) => ops.any fun o => o.toList == op with
  | some (level, _) => level
  | none => unaryLevel

/-- How tightly the outermost operator of an expression binds. -/
def Expr.level : Expr → Nat
  | .assignment _ _ _ => 1
  | .conditional _ _ _ => 2
  | .binary _ op _ => binaryLevel op
  | .logical _ op _ => binaryLevel op
  | .unary _ _ => unaryLevel
  | .member _ _ => postfixLevel
  | .computedMember _ _ => postfixLevel
  | .call _ _ => postfixLevel
  | .identifier _ => atomLevel
  | .literal _ _ => atomLevel
  | .array _ => atomLevel
  | .object _ => atomLevel
  | .grouping _ => atomLevel

/-- `text`, an expression that binds at `level`, where `required` is needed. -/
def parenthesize (required level : Nat) (text : Text) : Text :=
  if level < required then ['('] ++ text ++ [')'] else text

/-- A unary operator in front of its operand. -/
def signed (op operand : Text) : Text :=
  if (op == "+".toList || op == "-".toList) && operand.take 1 == op then op ++ [' '] ++ operand
  else op ++ operand

mutual

/-- An expression as text. -/
def Expr.print : Expr → Text
  | .identifier name => name
  | .literal _ raw => raw
  | .unary op operand => signed op (parenthesize unaryLevel operand.level operand.print)
  | .binary left op right =>
      parenthesize (binaryLevel op) left.level left.print ++ [' '] ++ op ++ [' ']
        ++ parenthesize (binaryLevel op + 1) right.level right.print
  | .logical left op right =>
      parenthesize (binaryLevel op) left.level left.print ++ [' '] ++ op ++ [' ']
        ++ parenthesize (binaryLevel op + 1) right.level right.print
  | .conditional test consequent alternate =>
      parenthesize 2 test.level test.print ++ " ? ".toList
        ++ parenthesize 2 consequent.level consequent.print ++ " : ".toList
        ++ parenthesize 2 alternate.level alternate.print
  | .assignment target op value =>
      parenthesize 1 target.level target.print ++ [' '] ++ op ++ [' ']
        ++ parenthesize 1 value.level value.print
  | .member object name => parenthesize postfixLevel object.level object.print ++ ['.'] ++ name
  | .computedMember object index =>
      parenthesize postfixLevel object.level object.print ++ ['['] ++ index.print ++ [']']
  | .call callee arguments =>
      parenthesize postfixLevel callee.level callee.print
        ++ ['('] ++ join ", ".toList (printAll arguments) ++ [')']
  | .array items => ['['] ++ join ", ".toList (printAll items) ++ [']']
  | .object entries =>
      match printEntries entries with
      | [] => ['{', '}']
      | first :: rest => ['{', ' '] ++ join ", ".toList (first :: rest) ++ [' ', '}']
  | .grouping body => ['('] ++ body.print ++ [')']

/-- Several expressions as texts. -/
def printAll : List Expr → List Text
  | [] => []
  | e :: rest => e.print :: printAll rest

/-- Several object entries as texts. -/
def printEntries : List Entry → List Text
  | [] => []
  | entry :: rest => entry.print :: printEntries rest

/-- An object entry as text. -/
def Entry.print : Entry → Text
  | .shorthand key => key.print
  | .pair key value => key.print ++ ": ".toList ++ value.print

/-- A key as text. -/
def Key.print : Key → Text
  | .name name => name
  | .literal _ raw => raw
  | .computed body => ['['] ++ body.print ++ [']']

end

/-- An expression between the marks of an interpolation. -/
def interpolated (e : Expr) : Text :=
  ['{', '{', ' '] ++ e.print ++ [' ', '}', '}']

end UiFormat.Markup

/-
# UiFormat.Markup.Expr -- expressions of interpolations and attributes

An expression is kept as a tree whose operators carry their spelling.  Groupings
are nodes of their own: parentheses in the source are remembered, whether they
were needed or not.

`height` counts every node, also those between an expression and its parts: the
argument list of a call, the entry of an object and a computed key.
-/
import UiFormat.Text.Basic

namespace UiFormat.Markup

set_option autoImplicit false

/-- The classes of literals. -/
inductive LiteralKind where
  | number
  | string
  | boolean
  | null
  | undefined
  deriving DecidableEq, Repr

mutual

/-- An expression. -/
inductive Expr where
  | identifier (name : Text)
  | literal (kind : LiteralKind) (raw : Text)
  | unary (op : Text) (operand : Expr)
  | binary (left : Expr) (op : Text) (right : Expr)
  | logical (left : Expr) (op : Text) (right : Expr)
  | conditional (test consequent alternate : Expr)
  | assignment (target : Expr) (op : Text) (value : Expr)
  | member (object : Expr) (name : Text)
  | computedMember (object index : Expr)
  | call (callee : Expr) (arguments : List Expr)
  | array (items : List Expr)
  | object (entries : List Entry)
  | grouping (body : Expr)

/-- An entry of an object: a key alone, or a key with its value. -/
inductive Entry where
  | shorthand (key : Key)
  | pair (key : Key) (value : Expr)

/-- The key of an object entry. -/
inductive Key where
  | name (name : Text)
  | literal (kind : LiteralKind) (raw : Text)
  | computed (body : Expr)

end

mutual

/-- The number of nodes on the longest way from the root. -/
def Expr.height : Expr → Nat
  | .identifier _ => 1
  | .literal _ _ => 1
  | .unary _ operand => operand.height + 1
  | .binary left _ right => Nat.max left.height right.height + 1
  | .logical left _ right => Nat.max left.height right.height + 1
  | .conditional test consequent alternate =>
      Nat.max test.height (Nat.max consequent.height alternate.height) + 1
  | .assignment target _ value => Nat.max target.height value.height + 1
  | .member object _ => Nat.max object.height 1 + 1
  | .computedMember object index => Nat.max object.height index.height + 1
  | .call callee arguments => Nat.max callee.height (maxHeight arguments + 1) + 1
  | .array items => maxHeight items + 1
  | .object entries => maxEntryHeight entries + 1
  | .grouping body => body.height + 1

/-- The greatest height of several expressions. -/
def maxHeight : List Expr → Nat
  | [] => 0
  | e :: rest => Nat.max e.height (maxHeight rest)

/-- The height of an object entry. -/
def Entry.height : Entry → Nat
  | .shorthand key => key.height + 1
  | .pair key value => Nat.max key.height value.height + 1

/-- The greatest height of several entries. -/
def maxEntryHeight : List Entry → Nat
  | [] => 0
  | entry :: rest => Nat.max entry.height (maxEntryHeight rest)

/-- The height of a key. -/
def Key.height : Key → Nat
  | .name _ => 1
  | .literal _ _ => 1
  | .computed body => body.height + 1

end

/-- The text of an identifier or a literal. -/
def Expr.leaf? : Expr → Option Text
  | .identifier name => some name
  | .literal _ raw => some raw
  | _ => none

/-- What stands for an expression that could not be read. -/
def Expr.hole : Expr :=
  .identifier ['_']

end UiFormat.Markup

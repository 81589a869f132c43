/-
# UiFormat.Markup.Tree -- expressions as labelled trees

An expression as the tree of its rules: every node has a label and children, and what was
read as it stands, a name, a literal or an operator, is a token at a leaf.  The argument
list of a call, the entry of an object and a computed key are nodes of their own, and the
name of a member is an identifier.

`Tree.depth` walks the tree with a stack of nodes yet to be seen, each with its level, and
keeps the deepest level seen, so that a tree of any depth can be measured.
-/
import UiFormat.Markup.Expr

namespace UiFormat.Markup

open UiFormat.Text

set_option autoImplicit false

/-- A token, or a node with a label. -/
inductive Tree where
  | token (kind : String) (text : Text)
  | node (label : String) (children : List Tree)

mutual

/-- The number of tokens and nodes. -/
def Tree.size : Tree → Nat
  | .token _ _ => 1
  | .node _ children => sizeOfAll children + 1

/-- The number of tokens and nodes of several trees. -/
def sizeOfAll : List Tree → Nat
  | [] => 0
  | t :: rest => t.size + sizeOfAll rest

end

theorem sizeOfAll_append (a b : List Tree) : sizeOfAll (a ++ b) = sizeOfAll a + sizeOfAll b := by
  induction a with
  | nil => simp [sizeOfAll]
  | cons t a ih =>
      rw [List.cons_append, sizeOfAll, sizeOfAll, ih]
      omega

theorem sizeOfAll_reverse (ts : List Tree) : sizeOfAll ts.reverse = sizeOfAll ts := by
  induction ts with
  | nil => rfl
  | cons t ts ih =>
      rw [List.reverse_cons, sizeOfAll_append, ih, sizeOfAll, sizeOfAll, sizeOfAll]
      omega

/-- The children of a node, the last of them first, each one level below `level`. -/
def below (level : Nat) (children : List Tree) : List (Tree × Nat) :=
  children.reverse.map fun child => (child, level + 1)

theorem map_fst_below (level : Nat) (children : List Tree) :
    (below level children).map Prod.fst = children.reverse := by
  simp [below, Function.comp_def]

/-- The deepest level of a node on the stack or under one, or `deepest` if that is deeper.
The top of the stack comes first. -/
def deepestOf (deepest : Nat) : (stack : List (Tree × Nat)) → Nat
  | [] => deepest
  | (.token _ _, _) :: stack => deepestOf deepest stack
  | (.node _ children, level) :: stack =>
      deepestOf (max deepest level) (below level children ++ stack)
termination_by stack => sizeOfAll (stack.map Prod.fst)
decreasing_by
  · simp only [List.map_cons, sizeOfAll, Tree.size]
    omega
  · simp only [List.map_cons, List.map_append, map_fst_below, sizeOfAll_append, sizeOfAll_reverse,
      sizeOfAll, Tree.size]
    omega

/-- The greatest level of a node, the root standing at level one. -/
def Tree.depth (t : Tree) : Nat :=
  deepestOf 0 [(t, 1)]

/-! ## The tree of an expression -/

/-- The kind of token a literal is. -/
def LiteralKind.token : LiteralKind → String
  | number => "NUMBER"
  | string => "STRING"
  | boolean => "BOOLEAN"
  | null => "NULL"
  | undefined => "UNDEFINED"

/-- The tree of a name. -/
def nameTree (name : Text) : Tree :=
  .node "identifier" [.token "IDENTIFIER" name]

/-- The tree of a literal. -/
def literalTree (kind : LiteralKind) (raw : Text) : Tree :=
  .node "literal" [.token kind.token raw]

/-- The leaf of an operator. -/
def operatorToken (op : Text) : Tree :=
  .token "OPERATOR" op

mutual

/-- The tree of an expression. -/
def Expr.tree : Expr → Tree
  | .identifier name => nameTree name
  | .literal kind raw => literalTree kind raw
  | .unary op operand => .node "unary" [operatorToken op, operand.tree]
  | .binary left op right => .node "binary" [left.tree, operatorToken op, right.tree]
  | .logical left op right => .node "logical" [left.tree, operatorToken op, right.tree]
  | .conditional test consequent alternate =>
      .node "conditional" [test.tree, consequent.tree, alternate.tree]
  | .assignment target op value => .node "assignment" [target.tree, operatorToken op, value.tree]
  | .member object name => .node "member" [object.tree, nameTree name]
  | .computedMember object index => .node "computed_member" [object.tree, index.tree]
  | .call callee arguments => .node "call" [callee.tree, .node "arguments" (treesOf arguments)]
  | .array items => .node "array" (treesOf items)
  | .object entries => .node "object" (entryTrees entries)
  | .grouping body => .node "grouping" [body.tree]

/-- The trees of several expressions. -/
def treesOf : List Expr → List Tree
  | [] => []
  | e :: rest => e.tree :: treesOf rest

/-- The tree of an object entry. -/
def Entry.tree : Entry → Tree
  | .shorthand key => .node "property" [key.tree]
  | .pair key value => .node "property" [key.tree, value.tree]

/-- The trees of several entries. -/
def entryTrees : List Entry → List Tree
  | [] => []
  | entry :: rest => entry.tree :: entryTrees rest

/-- The tree of a key. -/
def Key.tree : Key → Tree
  | .name name => nameTree name
  | .literal kind raw => literalTree kind raw
  | .computed body => .node "computed_key" [body.tree]

end

end UiFormat.Markup

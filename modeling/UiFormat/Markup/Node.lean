/-
# UiFormat.Markup.Node -- the document tree of HML markup

A document is a list of nodes: elements with their attributes and children,
text, comments and interpolations.  An attribute has no value, a quoted string,
an expression or an unquoted value.  A quoted string whose whole content is one
interpolation counts as an expression; its quote and its raw content are kept.

An attribute outside every tag has no printed form, but it is a node: an element
that holds one is laid out as a block.
-/
import UiFormat.Markup.Expr

namespace UiFormat.Markup

set_option autoImplicit false

/-- Tags that never have content. -/
def voidTags : List String := [
  "area", "base", "br", "col", "embed", "hr", "img", "input", "link",
  "meta", "param", "source", "track", "wbr"
]

/-- The tag never has content. -/
def isVoid (tag : Text) : Bool :=
  voidTags.any fun name => name.toList == tag

/-- What follows an attribute's name. -/
inductive AttributeValue where
  | absent
  | quoted (quote : Option Char) (value : Text)
  | expression (quote : Option Char) (value : Text) (tree : Expr)
  | unquoted (value : Text)

/-- An attribute of a tag. -/
structure Attribute where
  name : Text
  value : AttributeValue

/-- A node of the document tree. -/
inductive Node where
  | element (tag : Text) (attributes : List Attribute) (children : List Node)
      (selfClosing : Bool)
  | text (value : Text)
  | comment (value : Text)
  | interpolation (expression : Expr)
  | strayAttribute (stray : Attribute)

end UiFormat.Markup

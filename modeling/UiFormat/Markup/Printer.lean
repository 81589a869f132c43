/-
# UiFormat.Markup.Printer -- the document tree as markup

Block elements stand on lines of their own with their children one level deeper;
inline elements, and elements that hold only text and interpolations, stand on
one line with theirs.  Attributes share the line of their tag unless they are
too long together or one of them spans lines; then each has a line of its own.

Runs of blanks in text are written as one space.  Text that is blank, and
anything else that prints as blanks only, takes no line.
-/
import UiFormat.Options
import UiFormat.Text.Blank
import UiFormat.Markup.ExprPrinter
import UiFormat.Markup.Node

namespace UiFormat.Markup

open UiFormat.Text

set_option autoImplicit false

/-- Tags that are laid out within a line. -/
def inlineTags : List String := [
  "a", "abbr", "b", "bdi", "bdo", "br", "cite", "code", "data", "em",
  "i", "img", "input", "kbd", "label", "q", "s", "samp", "small", "span",
  "strong", "sub", "sup", "time", "u", "var"
]

/-- A value between quotes, double ones when none were recorded. -/
def between (quote : Option Char) (value : Text) : Text :=
  [quote.getD '\x22'] ++ value ++ [quote.getD '\x22']

/-- An attribute as text. -/
def Attribute.print (a : Attribute) : Text :=
  match a.value with
  | .absent => a.name
  | .quoted quote value => a.name ++ ['='] ++ between quote value
  | .expression quote _ tree => a.name ++ ['='] ++ between quote (interpolated tree)
  | .unquoted value => a.name ++ ['='] ++ value

/-- The attributes of a tag at `level`, with the blanks in front of them. -/
def printAttributes (o : Options) (level : Int) (attributes : List Attribute) : Text :=
  if attributes.isEmpty then []
  else
    let parts := attributes.map Attribute.print
    let single := [' '] ++ join [' '] parts
    if (single.length : Int) ≤ o.maxLineLength && !parts.any (·.contains '\n') then single
    else parts.flatMap fun part => o.eol ++ o.indent (level + 1) ++ part

/-- The node is text or an interpolation. -/
def Node.isRunning : Node → Bool
  | .text _ => true
  | .interpolation _ => true
  | _ => false

/-- The element keeps its children on its own line. -/
def isInline (tag : Text) (children : List Node) : Bool :=
  inlineTags.any (fun name => name.toList == tag) || children.all Node.isRunning

/-- The parts that are not blank. -/
def visible (parts : List Text) : List Text :=
  parts.filter fun part => !isBlankText part

/-- A comment as text. -/
def printComment (value : Text) : Text :=
  "<!--".toList ++ value ++ "-->".toList

mutual

/-- A node at `level` as text, its first line indented. -/
def Node.print (o : Options) (level : Int) : Node → Text
  | .element tag attributes children selfClosing =>
      let head := o.indent level ++ ['<'] ++ tag ++ printAttributes o level attributes
      let close := "</".toList ++ tag ++ ['>']
      if selfClosing || isVoid tag then head ++ " />".toList
      else if isInline tag children then
        head ++ ['>'] ++ trim (printInline o children).flatten ++ close
      else
        join o.eol ([head ++ ['>']] ++ visible (printBlock o (level + 1) children)
          ++ [o.indent level ++ close])
  | .text value =>
      let text := trim (collapseBlanks value)
      if text.isEmpty then [] else o.indent level ++ text
  | .interpolation e => o.indent level ++ interpolated e
  | .comment value => o.indent level ++ printComment value
  | .strayAttribute _ => []

/-- Nodes on lines of their own. -/
def printBlock (o : Options) (level : Int) : List Node → List Text
  | [] => []
  | n :: rest => n.print o level :: printBlock o level rest

/-- Nodes within a line: text keeps one space where it had blanks. -/
def printInline (o : Options) : List Node → List Text
  | [] => []
  | .text value :: rest => collapseBlanks value :: printInline o rest
  | .interpolation e :: rest => interpolated e :: printInline o rest
  | .comment value :: rest => printComment value :: printInline o rest
  | n :: rest => n.print o 0 :: printInline o rest

end

/-- A document as text, every line terminated. -/
def printDocument (o : Options) (children : List Node) : Text :=
  match visible (printBlock o 0 children) with
  | [] => []
  | first :: rest => join o.eol (first :: rest) ++ o.eol

end UiFormat.Markup

/-
# UiFormat.Markup.Parser -- from markup tokens to the document tree

The parser accepts everything.  A structural problem is reported, and reading
goes on at the next place that makes sense: after the end of a broken tag, at
the closing tag of an ancestor, or at the end of the source when elements are
nested too deep.  Tokens that cannot start a node are passed over.

A quoted attribute value that is one interpolation is read again as a document
of its own (`fragment`).  Such a document can hold only the interpolation, so
inside it quoted values need no second reading.

As for expressions, the parts are written for any monad `m` that keeps a parser's state;
`embedded` is the parser for the expression of an interpolation.
-/
import UiFormat.Text.Blank
import UiFormat.Markup.ExprParser
import UiFormat.Markup.Node

namespace UiFormat.Markup

open UiFormat.Text
open UiFormat.Parse

set_option autoImplicit false

variable {m : Type → Type} [Monad m] [MonadState (State Kind Problem) m]

/-- The next token is of kind `kind`. -/
def lookingAt (kind : Kind) : m Bool :=
  looking (·.kind == kind)

/-- Reads over the rest of a broken tag. -/
def skipTagRest : m Unit := do
  skipWhile (·.kind != .tagEnd)
  let _ ← advance

/-- The end of a tag; anything else is reported and read over. -/
def expectTagEnd (problem : Problem) : m Unit := do
  if ← lookingAt .tagEnd then
    let _ ← advance
  else
    report problem
    skipTagRest

/-! ## Attributes -/

/-- The content of a string token: its closing quote may be missing. -/
def unquote (raw : Text) : Text :=
  match raw with
  | [] => []
  | quote :: rest => if rest.getLast? = some quote then rest.dropLast else rest

/-- The text between the double braces, when the whole value is one
interpolation. -/
def loneInterpolation? (value : Text) : Option Text :=
  let value := trim value
  if startsWith value ['{', '{'] && endsWith value ['}', '}'] && 4 ≤ value.length then
    some (withoutEnds (withoutEnds value))
  else none

/-- A quoted value, read as an expression when `reader` can. -/
def quotedValue (reader : Text → Option Expr) (raw : Text) : AttributeValue :=
  let value := unquote raw
  match (loneInterpolation? value).bind reader with
  | some tree => .expression raw.head? value tree
  | none => .quoted raw.head? value

/-- The tokens of an unquoted value that starts at offset `stop`: names and
single characters without a gap between them. -/
def adjacentTokens (stop : Nat) : List Tok → List Tok
  | [] => []
  | t :: rest =>
      if (t.kind == .name || t.kind == .unquotedValue) && t.start == stop then
        t :: adjacentTokens t.stop rest
      else []

/-- What stands after the equals sign of an attribute. -/
def attributeValue (embedded : m Expr) (reader : Text → Option Expr) : m AttributeValue := do
  let t ← current
  match t.kind with
  | .string =>
      let _ ← advance
      return quotedValue reader t.text
  | .interpStart =>
      let _ ← advance
      let tree ← embedded
      if ← lookingAt .interpEnd then
        let _ ← advance
      else report .missingAttributeInterpolationEnd
      return .expression none [] tree
  | .name | .unquotedValue =>
      let rest ← remaining
      let tokens := adjacentTokens t.start rest
      continueAt (rest.drop tokens.length)
      return .unquoted (textOf tokens)
  | _ =>
      report .missingAttributeValue
      return .unquoted []

/-- An attribute, whose name comes next. -/
def tagAttribute (embedded : m Expr) (reader : Text → Option Expr) : m Attribute := do
  let name ← advance
  if ← lookingAt .equals then
    let _ ← advance
    let value ← attributeValue embedded reader
    return { name := name.text, value }
  return { name := name.text, value := .absent }

/-! ## Elements -/

/-- The opening of an element: its tag, its attributes, and whether it is
closed already. -/
structure ElementHead where
  tag : Text
  attributes : List Attribute
  closed : Bool

/-- The name that comes next, or `instead` with a report that it is missing. -/
def nameOr (instead : Text) (problem : Problem) : m Text := do
  let t ← current
  if t.kind == .name then
    let _ ← advance
    return t.text
  report problem
  return instead

/-- One attribute of a tag. -/
def attributeRound (embedded : m Expr) (reader : Text → Option Expr) : m (Round Attribute) := do
  if ← lookingAt .name then
    let a ← tagAttribute embedded reader
    return .next a
  return .stop

/-- The opening tag of an element. -/
def elementHead (embedded : m Expr) (reader : Text → Option Expr) : m ElementHead := do
  let _ ← advance
  let tag ← nameOr "unknown".toList .missingTagName
  let attributes ← collect (attributeRound embedded reader)
  if ← lookingAt .tagSelfClose then
    let _ ← advance
    return { tag, attributes, closed := true }
  expectTagEnd .missingTagEnd
  return { tag, attributes, closed := isVoid tag }

/-- The name of the closing tag that comes next. -/
def closingName? : m (Option Text) := do
  match (← remaining).tail.head? with
  | some t => return if t.kind == .name then some t.text else none
  | none => return none

/-- Reads a closing tag and tells whether it closes `tag`. -/
def closingTag (tag : Text) : m Bool := do
  let _ ← advance
  let name ← nameOr [] .missingClosingName
  expectTagEnd .missingClosingEnd
  if name == tag then return true
  report (.expectedClosingTag tag)
  return false

/-- The closing tag that comes next closes an ancestor among `openTags`. -/
def closesAncestor (tag : Text) (openTags : List Text) : m Bool := do
  match ← closingName? with
  | some name => return name != tag && openTags.contains name
  | none => return false

/-- The node `node` finds, as a round of a loop. -/
def nodeRound (node : m (Option Node)) : m (Round Node) := do
  match ← node with
  | some n => return .next n
  | none => return .skip

/-- One child of the element `tag`, or its end. -/
def childRound (node : m (Option Node)) (tag : Text) (openTags : List Text) :
    m (Round Node) := do
  if ← atEnd then
    report (.unclosedTag tag)
    return .stop
  else if ← lookingAt .tagClose then
    if ← closesAncestor tag openTags then
      report (.unclosedTag tag)
      return .stop
    else if ← closingTag tag then return .stop
    else return .skip
  else nodeRound node

/-- The children of the element `tag` up to its closing tag; `openTags` are the
open elements, this one included. -/
def children (node : m (Option Node)) (tag : Text) (openTags : List Text) :
    m (List Node) :=
  collect (childRound node tag openTags)

/-- An element whose children are read by `content`. -/
def element (embedded : m Expr) (reader : Text → Option Expr) (content : Text → m (List Node)) :
    m Node := do
  let head ← elementHead embedded reader
  if head.closed then return .element head.tag head.attributes [] true
  let children ← content head.tag
  return .element head.tag head.attributes children false

/-! ## Documents -/

/-- An interpolation, whose opening mark comes next. -/
def interpolation (embedded : m Expr) : m Node := do
  let _ ← advance
  let e ← embedded
  if ← lookingAt .interpEnd then
    let _ ← advance
  else report .missingInterpolationEnd
  return .interpolation e

/-- The node that comes next.  A stray closing tag is reported, and a token that
starts no node is passed over. -/
def nodeWith (embedded : m Expr) (element : m Node) : m (Option Node) := do
  let t ← current
  match t.kind with
  | .text =>
      let _ ← advance
      return some (.text t.text)
  | .comment =>
      let _ ← advance
      return some (.comment t.text)
  | .tagOpen => some <$> element
  | .interpStart => some <$> interpolation embedded
  | .tagClose =>
      report .unexpectedClosingTag
      skipTagRest
      return none
  | _ =>
      let _ ← advance
      return none

/-- The node that comes next inside `openTags`, with room for `levels` more open
elements. -/
def node (embedded : m Expr) (reader : Text → Option Expr) :
    (levels : Nat) → (openTags : List Text) → m (Option Node)
  | 0, _ =>
      nodeWith embedded (element embedded reader fun _ => do
        report .elementsTooDeep
        skipWhile fun _ => true
        return [])
  | levels + 1, openTags =>
      nodeWith embedded (element embedded reader fun tag =>
        children (node embedded reader levels (tag :: openTags)) tag (tag :: openTags))

/-- One node of a document. -/
def documentRound (node : m (Option Node)) : m (Round Node) := do
  if ← atEnd then return .stop else nodeRound node

/-- All nodes of a source. -/
def document (reader : Text → Option Expr) : m (List Node) :=
  collect (documentRound (node expression reader elementLimit []))

/-- The nodes of a source and the problems found in it. -/
structure Parsed where
  children : List Node
  errors : List MarkupError

/-- Parses a source, reading quoted interpolations with `reader`. -/
def parseWith (reader : Text → Option Expr) (source : Text) : Parsed :=
  let (tokens, closing, _) := (Cursor.start source).drain
  let (children, s) := (document reader : MarkupParser (List Node)) (State.start tokens closing)
  { children, errors := s.errors }

/-- Parses the text between the marks of an interpolation; the tree is absent
when the text closes the interpolation early. -/
def parseFragment (source : Text) : Option Expr × List MarkupError :=
  let parsed := parseWith (fun _ => none) (['{', '{', ' '] ++ source ++ [' ', '}', '}'])
  match parsed.children with
  | [.interpolation e] => (some e, parsed.errors)
  | _ => (none, parsed.errors)

/-- The expression of a fragment without problems. -/
def fragment? (source : Text) : Option Expr :=
  match parseFragment source with
  | (some e, []) => some e
  | _ => none

/-- Parses a markup source. -/
def parse (source : Text) : Parsed :=
  parseWith fragment? source

end UiFormat.Markup

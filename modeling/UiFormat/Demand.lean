/-
# UiFormat.Demand -- what formatting a source asks of its options

Not every source needs every option.  Two of them are asked for only where they
matter:

* the indentation, by the basic rules, which always indent, and by every node
  that is printed;
* the line length, by every signature whose parameters were taken apart and by
  every tag with attributes: only these can wrap.

A source that does not ask for an option is formatted alike under all its values.
-/
import UiFormat.Format

namespace UiFormat

open UiFormat.Text

set_option autoImplicit false

namespace Ets

/-- A signature with these parameters can wrap, so its length is measured. -/
def ParameterList.isMeasured : ParameterList → Bool
  | .items _ => true
  | .source _ => false

/-- Printing the member measures a signature. -/
def Node.isMeasuredMember : Node → Bool
  | .method _ m => m.callable.parameters.isMeasured
  | .build _ _ _ => true
  | _ => false

/-- Printing the node at the top level measures a signature.  The members of an
interface are not printed one by one. -/
def Node.isMeasured (node : Node) : Bool :=
  match node.declared with
  | .functionDecl _ f => f.callable.parameters.isMeasured
  | .structDecl _ _ members => members.any Node.isMeasuredMember
  | .classDecl _ _ _ members => members.any Node.isMeasuredMember
  | _ => false

/-- The nodes of a source that is printed from its declarations; `none` when only
the basic rules are applied to it. -/
def printedNodes? (source : Text) : Option (List Node) :=
  if Safety.hasComplexSyntax source then none
  else
    let (document, errors) := parse source
    if errors.isEmpty && document.dropped.isEmpty then some document.children else none

/-- Formatting the source indents something.  A source without nodes prints as
nothing and goes on to the basic rules only if that loses something. -/
def needsIndentation (source : Text) : Bool :=
  match printedNodes? source with
  | none => true
  | some children => !children.isEmpty || Safety.hasIssues source []

/-- Formatting the source measures a line. -/
def needsLineLength (source : Text) : Bool :=
  (printedNodes? source).any fun children => children.any Node.isMeasured

end Ets

namespace Markup

mutual

/-- Printing the node measures the attributes of a tag.  What stands inside a tag
without content is not printed. -/
def Node.isMeasured : Node → Bool
  | .element tag attributes children selfClosing =>
      !attributes.isEmpty || (!(selfClosing || isVoid tag) && anyMeasured children)
  | _ => false

/-- Printing one of the nodes measures the attributes of a tag. -/
def anyMeasured : List Node → Bool
  | [] => false
  | n :: rest => n.isMeasured || anyMeasured rest

end

/-- The nodes of a source that is printed; markup with problems is not. -/
def printedNodes (source : Text) : List Node :=
  let parsed := parse source
  if parsed.errors.isEmpty then parsed.children else []

/-- Formatting the source indents something. -/
def needsIndentation (source : Text) : Bool :=
  !(printedNodes source).isEmpty

/-- Formatting the source measures a line. -/
def needsLineLength (source : Text) : Bool :=
  anyMeasured (printedNodes source)

end Markup

/-- Formatting a source indents something. -/
def needsIndentation : Language → Text → Bool
  | .ets => Ets.needsIndentation
  | .hml => Markup.needsIndentation

/-- Formatting a source measures a line. -/
def needsLineLength : Language → Text → Bool
  | .ets => Ets.needsLineLength
  | .hml => Markup.needsLineLength

end UiFormat

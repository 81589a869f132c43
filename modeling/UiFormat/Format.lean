/-
# UiFormat.Format -- formatting a source

ETS source is formatted from its declarations only when nothing can be lost.
Three checks stand in the way: constructs that the parser does not cover, errors
and dropped tokens of the parse, and a comparison of the result with the source.
When one of them objects, the source is reindented as a whole instead.

Markup with parse errors is returned as it is.
-/
import UiFormat.Ets.Parser
import UiFormat.Ets.Printer
import UiFormat.Markup.Parser
import UiFormat.Markup.Printer
import UiFormat.Safety.BasicRules
import UiFormat.Safety.ComplexSyntax
import UiFormat.Safety.SemicolonStyle
import UiFormat.Safety.Structure

namespace UiFormat

open UiFormat.Parse

set_option autoImplicit false

/-- Why a source was not formatted from its declarations. -/
inductive Reason where
  | complexSyntax
  | parseErrors
  | droppedTokens
  | formattingIssues
  deriving DecidableEq, Repr

/-- The name of a reason. -/
def Reason.name : Reason → Text
  | complexSyntax => "complex-syntax".toList
  | parseErrors => "parse-errors".toList
  | droppedTokens => "dropped-tokens".toList
  | formattingIssues => "formatting-issues".toList

/-- A formatted source: its text, whether that differs from the source, whether
the basic rules were used, why the declarations were not, and the problems of
the parse. -/
structure Formatted where
  text : Text
  changed : Bool
  usedFallback : Bool := false
  reason : Option Reason := none
  errors : List Diagnostic := []

namespace Ets

/-- A document printed with options; where they leave it open, the habit of
`source` decides on semicolons. -/
def formatDocument (o : Options) (source : Text) (children : List Node) :
    Except Misplaced Text :=
  let habit := Safety.infersSemicolons Safety.defaultThreshold source
  printDocument { options := o, terminated := o.semicolons.getD habit } children

/-- The text formatted from its declarations, or why it cannot be, and the
problems of the parse. -/
def formatStructure (o : Options) (source : Text) :
    Except Reason Text × List Diagnostic :=
  if Safety.hasComplexSyntax source then (.error .complexSyntax, [])
  else
    let (document, errors) := parse source
    let diagnostics := errors.map (·.diagnostic Problem.message)
    if !errors.isEmpty then (.error .parseErrors, diagnostics)
    else if !document.dropped.isEmpty then (.error .droppedTokens, [])
    else
      match formatDocument o source document.children with
      | .error _ => (.error .formattingIssues, [])
      | .ok text =>
          (if Safety.hasIssues source text then .error .formattingIssues else .ok text, [])

/-- Formats ETS source. -/
def format (o : Options) (source : Text) : Formatted :=
  match formatStructure o source with
  | (.ok text, errors) => { text, changed := text != source, errors }
  | (.error reason, errors) =>
      let text := Safety.formatBasic o.eol o.indentUnit source
      { text, changed := text != source, usedFallback := true, reason := some reason, errors }

end Ets

namespace Markup

/-- Formats markup. -/
def format (o : Options) (source : Text) : Formatted :=
  let parsed := parse source
  if parsed.errors.isEmpty then
    let text := printDocument o parsed.children
    { text, changed := text != source }
  else
    { text := source
      changed := false
      reason := some .parseErrors
      errors := parsed.errors.map (·.diagnostic Problem.message) }

end Markup

/-- Formats a source. -/
def format (language : Language) (o : Options) (source : Text) : Formatted :=
  match language with
  | .ets => Ets.format o source
  | .hml => Markup.format o source

end UiFormat

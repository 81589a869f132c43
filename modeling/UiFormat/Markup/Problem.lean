/-
# UiFormat.Markup.Problem -- what can be wrong with markup

Every problem the markup parser reports, with its wording, and the three depth
limits.  Beyond a limit the parser reports a problem instead of reading deeper.
-/
import UiFormat.Text.Escaped
import UiFormat.Markup.Token

namespace UiFormat.Markup

open UiFormat.Text

set_option autoImplicit false

/-- How many elements may be open inside each other. -/
def elementLimit : Nat := 100

/-- How many expressions may be read inside each other. -/
def expressionLimit : Nat := 25

/-- The greatest height of an expression tree; chains of operators build high
trees without being nested in the source. -/
def heightLimit : Nat := 200

/-- A problem in markup source. -/
inductive Problem where
  | unexpectedClosingTag
  | missingInterpolationEnd
  | missingTagName
  | missingTagEnd
  | elementsTooDeep
  | unclosedTag (name : Text)
  | missingClosingName
  | missingClosingEnd
  | expectedClosingTag (name : Text)
  | missingAttributeInterpolationEnd
  | missingAttributeValue
  | expectedExpression
  | expressionTooDeep
  | treeTooHigh
  | expectedPropertyName
  | unterminated (what : String)
  | expectedPunctuator (value : Char)
  | expectedOperator (value : Char)
  | unexpectedToken (text : Text)
  | invalidObjectKey
  deriving DecidableEq, Repr

/-- The wording of a problem. -/
def Problem.message : Problem → Text
  | .unexpectedClosingTag => "Unexpected closing tag".toList
  | .missingInterpolationEnd => "Missing interpolation end".toList
  | .missingTagName => "Missing tag name".toList
  | .missingTagEnd => "Missing tag end".toList
  | .elementsTooDeep =>
      "Elements nested deeper than ".toList ++ ofNat elementLimit ++ " levels".toList
  | .unclosedTag name => "Unclosed tag <".toList ++ name ++ ">".toList
  | .missingClosingName => "Missing closing tag name".toList
  | .missingClosingEnd => "Missing closing tag end".toList
  | .expectedClosingTag name => "Expected closing tag </".toList ++ name ++ ">".toList
  | .missingAttributeInterpolationEnd => "Missing interpolation end in attribute".toList
  | .missingAttributeValue => "Missing attribute value".toList
  | .expectedExpression => "Expected expression".toList
  | .expressionTooDeep =>
      "Expression nested deeper than ".toList ++ ofNat expressionLimit ++ " levels".toList
  | .treeTooHigh =>
      "Expression nested deeper than ".toList ++ ofNat heightLimit ++ " levels".toList
  | .expectedPropertyName => "Expected property name after '.'".toList
  | .unterminated what => "Unterminated ".toList ++ what.toList
  | .expectedPunctuator value => "Expected '".toList ++ [value] ++ "'".toList
  | .expectedOperator value => "Expected operator '".toList ++ [value] ++ "'".toList
  | .unexpectedToken text => "Unexpected expression token ".toList ++ escaped text
  | .invalidObjectKey => "Invalid object key".toList

/-- A problem and the token it was found at. -/
abbrev MarkupError := Parse.ParseError Kind Problem

end UiFormat.Markup

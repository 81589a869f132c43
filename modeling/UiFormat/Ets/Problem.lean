/-
# UiFormat.Ets.Problem -- what can be wrong with ETS source

Every problem the declaration parser reports, with its wording.
-/
import UiFormat.Ets.Token

namespace UiFormat.Ets

open UiFormat.Text

set_option autoImplicit false

/-- A problem in ETS source. -/
inductive Problem where
  | unterminatedBody (what : Text)
  | expectedName (what : Text)
  | expectedDeclaration
  | expectedInterfaceBody
  | expectedFunctionParameters
  | expectedMethodParameters (name : Text)
  | expectedBody (what : Text)
  | unexpectedMember (what : Text)
  | expectedMemberName
  | expectedInitializer (name : Text)
  | unterminatedParameters
  | expectedParameterEnd
  | expectedParameterName
  deriving DecidableEq, Repr

/-- The wording of a problem. -/
def Problem.message : Problem → Text
  | .unterminatedBody what => "Unterminated ".toList ++ what ++ " body".toList
  | .expectedName what => "Expected ".toList ++ what ++ " name".toList
  | .expectedDeclaration => "Expected declaration after decorator".toList
  | .expectedInterfaceBody => "Expected '\x7b' after interface header".toList
  | .expectedFunctionParameters => "Expected '(' after function name".toList
  | .expectedMethodParameters name =>
      "Expected '(' after method name '".toList ++ name ++ "'".toList
  | .expectedBody what => "Expected '\x7b' to open ".toList ++ what ++ " body".toList
  | .unexpectedMember what => "Unexpected token in ".toList ++ what ++ " body".toList
  | .expectedMemberName => "Expected member name".toList
  | .expectedInitializer name => "Expected initializer for '".toList ++ name ++ "'".toList
  | .unterminatedParameters => "Unterminated parameter list".toList
  | .expectedParameterEnd => "Expected ',' or ')' in parameter list".toList
  | .expectedParameterName => "Expected parameter name".toList

/-- A problem and the token it was found at. -/
abbrev EtsError := Parse.ParseError Kind Problem

end UiFormat.Ets

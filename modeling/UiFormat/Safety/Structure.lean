/-
# UiFormat.Safety.Structure -- what formatting must keep

Formatting may move code but not lose it.  The check compares the number of
comments, which may not fall, and the number of braces, which may not change.
-/
import UiFormat.Ets.Token

namespace UiFormat.Safety

open UiFormat.Text
open UiFormat.Ets

set_option autoImplicit false

/-- The number of comments of a source. -/
def commentCount (source : Text) : Nat :=
  (lexemes source).countP (·.kind.isComment)

/-- The token is a brace. -/
def isBrace (t : Tok) : Bool :=
  t.kind == .punctuator && (t.text == ['{'] || t.text == ['}'])

/-- The number of braces of a source, outside strings and comments. -/
def braceCount (source : Text) : Nat :=
  (lexemes source).countP isBrace

/-- Formatting lost a comment or changed the number of braces. -/
def hasIssues (source formatted : Text) : Bool :=
  commentCount formatted < commentCount source || braceCount formatted != braceCount source

end UiFormat.Safety

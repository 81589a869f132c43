/-
# UiFormat.Safety.BasicRules -- formatting a source as one block

A source that cannot be formatted from its declarations is reindented as a
whole.  Every line that is not blank keeps its trimmed content; comments are not
normalised.
-/
import UiFormat.Layout.Reindent

namespace UiFormat.Safety

open UiFormat.Text
open UiFormat.Layout

set_option autoImplicit false

/-- The source reindented as one block.  It ends in a line break when the source
does. -/
def formatBasic (eol unit source : Text) : Text :=
  match reindentLines 0 unit false source with
  | [] => []
  | first :: rest => join eol (first :: rest) ++ if endsInBreak source then eol else []

end UiFormat.Safety

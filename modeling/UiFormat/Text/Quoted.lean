/-
# UiFormat.Text.Quoted -- where a quoted literal ends

A string runs from its quote to the next occurrence of that quote, a template
literal from its back quote to the next back quote outside every `$` brace
group.  A backslash takes the following character with it.  A literal that is
never closed runs to the end of the text.

Both extents count the characters after the opening quote, the closing quote
included, so `text.drop extent` is what follows the literal.
-/
import UiFormat.Text.Basic

namespace UiFormat.Text

set_option autoImplicit false

/-- Characters of a string literal after its opening `quote`. -/
def stringExtent (quote : Char) : Text → Nat
  | [] => 0
  | '\\' :: text =>
      match text with
      | [] => 1
      | _ :: rest => stringExtent quote rest + 2
  | c :: text => if c = quote then 1 else stringExtent quote text + 1

/-- Characters of a template literal after its opening back quote, `depth`
brace groups being open. -/
def templateExtent (depth : Nat) : Text → Nat
  | [] => 0
  | '\\' :: text =>
      match text with
      | [] => 1
      | _ :: rest => templateExtent depth rest + 2
  | '$' :: '{' :: text => templateExtent (depth + 1) text + 2
  | c :: text =>
      if c = '{' then templateExtent (if depth = 0 then 0 else depth + 1) text + 1
      else if c = '}' then templateExtent (depth - 1) text + 1
      else if c = '\x60' && depth = 0 then 1
      else templateExtent depth text + 1

/-- Characters of a literal after its opening quote, which may be a back
quote. -/
def literalExtent (quote : Char) (text : Text) : Nat :=
  if quote = '\x60' then templateExtent 0 text else stringExtent quote text

end UiFormat.Text

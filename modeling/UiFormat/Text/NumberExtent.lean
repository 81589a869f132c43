/-
# UiFormat.Text.NumberExtent -- where a number literal ends

A number is a radix mark (`0x`, `0b` or `0o`, in either case) with the digits of
that radix, or digits, a fraction and an exponent, each part optional.  What
counts as a decimal digit differs between the two languages and is a parameter;
radix digits are always ASCII.
-/
import UiFormat.Text.Basic

namespace UiFormat.Text

set_option autoImplicit false

/-- The digits a radix mark allows. -/
def radixDigits? (mark : Char) : Option Text :=
  if mark = 'x' || mark = 'X' then some "0123456789abcdefABCDEF".toList
  else if mark = 'b' || mark = 'B' then some "01".toList
  else if mark = 'o' || mark = 'O' then some "01234567".toList
  else none

/-- How many characters at the front satisfy `p`. -/
def runLength (p : Char → Bool) (text : Text) : Nat :=
  (text.takeWhile p).length

/-- Length of a point with the digits after it, when a point stands there. -/
def fractionLength (digit : Char → Bool) : Text → Nat
  | '.' :: text => runLength digit text + 1
  | _ => 0

/-- Length of the sign of an exponent. -/
def signLength : Text → Nat
  | c :: _ => if c = '+' || c = '-' then 1 else 0
  | [] => 0

/-- Length of an exponent, when its letter stands there. -/
def exponentLength (digit : Char → Bool) : Text → Nat
  | c :: text =>
      if c = 'e' || c = 'E' then
        signLength text + runLength digit (text.drop (signLength text)) + 1
      else 0
  | [] => 0

/-- Length of digits, fraction and exponent. -/
def decimalLength (digit : Char → Bool) (text : Text) : Nat :=
  let whole := runLength digit text
  let fraction := fractionLength digit (text.drop whole)
  whole + fraction + exponentLength digit (text.drop (whole + fraction))

/-- Length of the number at the front of the text. -/
def numberLength (digit : Char → Bool) (text : Text) : Nat :=
  match text with
  | '0' :: mark :: digits =>
      match radixDigits? mark with
      | some allowed => runLength allowed.contains digits + 2
      | none => decimalLength digit text
  | _ => decimalLength digit text

end UiFormat.Text

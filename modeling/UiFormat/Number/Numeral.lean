/-
# UiFormat.Number.Numeral -- integers written in decimal

A numeral may use the decimal digits of any script, may stand between blanks,
and may have single underscores between its digits.  An integer is an optional
sign and digits, at most `digitLimit` of them.
-/
import UiFormat.Text.Blank
import UiFormat.Text.Digit

namespace UiFormat.Number

open UiFormat.Text

set_option autoImplicit false

/-- The ASCII form of a character of a numeral: decimal digits of other scripts
become ASCII digits, blanks beyond ASCII become spaces; other characters beyond
ASCII have none. -/
def asciiForm? (c : Char) : Option Char :=
  if c.toNat < 0x7f then some c
  else if isBlank c then some ' '
  else (decimalValue? c).map Nat.digitChar

/-- The blanks that may surround a numeral. -/
def isNumeralBlank (c : Char) : Bool :=
  c == ' ' || (0x09 ≤ c.toNat && c.toNat ≤ 0x0d)

/-- A text in ASCII form without the blanks around it. -/
def numeralText? (text : Text) : Option Text :=
  (text.mapM asciiForm?).map fun ascii =>
    dropEndWhile isNumeralBlank (ascii.dropWhile isNumeralBlank)

/-- The text without its underscores, each of which stands between two digits;
`afterDigit` tells that a digit precedes the text. -/
def dropUnderscores? (afterDigit : Bool) : Text → Option Text
  | [] => some []
  | '_' :: text =>
      if afterDigit && text.head?.any Char.isDigit then dropUnderscores? false text else none
  | c :: text => (dropUnderscores? c.isDigit text).map (c :: ·)

/-- The value of a run of digits, most significant first. -/
def digitsValue (digits : Text) : Nat :=
  digits.foldl (fun value c => 10 * value + (c.toNat - '0'.toNat)) 0

/-- A sign in front of a text: whether it is negative, and what follows. -/
def splitSign : Text → Bool × Text
  | '-' :: text => (true, text)
  | '+' :: text => (false, text)
  | text => (false, text)

/-- The greatest number of digits an integer may have. -/
def digitLimit : Nat := 4300

/-- The integer a text stands for. -/
def readInt? (text : Text) : Option Int := do
  let (negative, digits) := splitSign (← numeralText? text)
  let digits ← dropUnderscores? false digits
  if digits.isEmpty || !digits.all Char.isDigit || digitLimit < digits.length then none
  else if negative then some (-(digitsValue digits : Int))
  else some (digitsValue digits : Int)

end UiFormat.Number

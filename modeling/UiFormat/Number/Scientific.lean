/-
# UiFormat.Number.Scientific -- decimal numbers and their double precision neighbours

A number is read from decimal notation with an optional fraction and exponent, or
from the words for infinity and for an undefined value.

Ratios are compared with such numbers in double precision: each side is first rounded
to the nearest number with a significand of 53 bits and an exponent of at least
-1074, ties going to the even significand.  Beyond the greatest exponent a number
counts as infinite.  All of it is exact integer arithmetic.
-/
import UiFormat.Number.Numeral

namespace UiFormat.Number

open UiFormat.Text

set_option autoImplicit false

/-- A number as it is written: `digits` times a power of ten, infinite, or
undefined. -/
inductive Scientific where
  | undefined
  | infinite (negative : Bool)
  | finite (negative : Bool) (digits : Nat) (exponent : Int)
  deriving DecidableEq, Repr

/-- The value of an exponent part, when the text is one or empty. -/
def exponentValue? (text : Text) : Option Int :=
  match text with
  | [] => some 0
  | c :: rest =>
      if c == 'e' || c == 'E' then
        let (negative, digits) := splitSign rest
        if digits.isEmpty || !digits.all Char.isDigit then none
        else if negative then some (-(digitsValue digits : Int))
        else some (digitsValue digits : Int)
      else none

/-- The fraction digits after a point, and what follows them. -/
def splitFraction : Text → Text × Text
  | '.' :: text => (text.takeWhile Char.isDigit, text.dropWhile Char.isDigit)
  | text => ([], text)

/-- The number an unsigned decimal stands for. -/
def readDecimal? (negative : Bool) (text : Text) : Option Scientific := do
  let whole := text.takeWhile Char.isDigit
  let (fraction, rest) := splitFraction (text.dropWhile Char.isDigit)
  let exponent ← exponentValue? rest
  if whole.isEmpty && fraction.isEmpty then none
  else some (.finite negative (digitsValue (whole ++ fraction)) (exponent - fraction.length))

/-- The number a text stands for. -/
def Scientific.read? (text : Text) : Option Scientific := do
  let plain ← dropUnderscores? false (← numeralText? text)
  let (negative, text) := splitSign plain
  let word := text.map Char.toLower
  if word == "inf".toList || word == "infinity".toList then some (.infinite negative)
  else if word == "nan".toList then some .undefined
  else readDecimal? negative text

/-- A nonnegative number `significand * 2 ^ exponent`. -/
structure Binary where
  significand : Nat
  exponent : Int
  deriving DecidableEq, Repr

/-- `n * 2 ^ exponent` for a nonnegative exponent, `n` otherwise. -/
def scaleUp (n : Nat) (exponent : Int) : Nat :=
  n * Nat.pow 2 exponent.toNat

/-- The quotient rounded to the nearest integer, ties to the even one. -/
def roundQuotient (numerator denominator : Nat) : Nat :=
  let quotient := numerator / denominator
  let twice := 2 * (numerator % denominator)
  if twice < denominator then quotient
  else if denominator < twice then quotient + 1
  else quotient + quotient % 2

/-- The exponent of the greatest power of two that is not above a positive
ratio. -/
def floorLog2 (numerator denominator : Nat) : Int :=
  let guess := (Nat.log2 numerator : Int) - (Nat.log2 denominator : Int)
  if scaleUp denominator guess ≤ scaleUp numerator (-guess) then guess else guess - 1

/-- The double precision number nearest to a ratio, its exponent unbounded
above. -/
def nearest (numerator denominator : Nat) : Binary :=
  if numerator = 0 then ⟨0, 0⟩
  else
    let wanted := floorLog2 numerator denominator - 52
    let exponent := if wanted < -1074 then -1074 else wanted
    ⟨roundQuotient (scaleUp numerator (-exponent)) (scaleUp denominator exponent), exponent⟩

/-- The order of two numbers. -/
def Binary.less (x y : Binary) : Bool :=
  scaleUp x.significand (x.exponent - y.exponent) < scaleUp y.significand (y.exponent - x.exponent)

/-- A number of decimal digits that puts a number beyond every double precision
number on either side. -/
def decimalRange : Int := 400

/-- The double precision number nearest to `digits * 10 ^ exponent`; `none` when
it is infinite. -/
def nearestDecimal? (digits : Nat) (exponent : Int) : Option Binary :=
  let magnitude := (Nat.toDigits 10 digits).length + exponent
  if digits = 0 || magnitude < -decimalRange then some ⟨0, 0⟩
  else if decimalRange < magnitude then none
  else
    let rounded := nearest (digits * Nat.pow 10 exponent.toNat) (Nat.pow 10 (-exponent).toNat)
    if rounded.less ⟨1, 1024⟩ then some rounded else none

/-- The ratio exceeds the number, both taken in double precision. -/
def ratioExceeds (numerator denominator : Nat) : Scientific → Bool
  | .undefined => false
  | .infinite negative => negative
  | .finite negative digits exponent =>
      match nearestDecimal? digits exponent with
      | none => negative
      | some limit =>
          if negative && limit.significand != 0 then true
          else limit.less (nearest numerator denominator)

end UiFormat.Number

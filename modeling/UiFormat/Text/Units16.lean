/-
# UiFormat.Text.Units16 -- offsets in sixteen bit units

Editors count a source offset in UTF-16 units, where a code point above U+FFFF
takes two.
-/
import UiFormat.Text.Basic

namespace UiFormat.Text

set_option autoImplicit false

/-- Sixteen bit units of one code point. -/
def charUnits (c : Char) : Nat :=
  if c.toNat > 0xffff then 2 else 1

/-- Sixteen bit units of a text. -/
def units : Text → Nat
  | [] => 0
  | c :: text => charUnits c + units text

/-- The text before `index`; a negative index counts from the end. -/
def before (text : Text) (index : Int) : Text :=
  if index < 0 then text.take (text.length + index).toNat else text.take index.toNat

/-- The offset of `index` in sixteen bit units. -/
def unitOffset (text : Text) (index : Int) : Nat :=
  units (before text index)

end UiFormat.Text

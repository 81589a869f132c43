/-
# UiFormat.Text.Blank -- blank characters and trimming

A blank is a character of Unicode's White_Space property or one of the four
information separators U+001C to U+001F.  The zero width space and the byte
order mark are not blanks.  Line breaks are blanks, so trimming a line that
still carries its break removes the break too.

`trim` removes blanks at both ends, `collapseBlanks` writes every run of blanks
as one space.
-/
import UiFormat.Text.Basic

namespace UiFormat.Text

set_option autoImplicit false

/-- The blank characters, as closed ranges in increasing order. -/
def blankRanges : List (Nat × Nat) := [
  (0x9, 0xd), (0x1c, 0x20), (0x85, 0x85), (0xa0, 0xa0), (0x1680, 0x1680),
  (0x2000, 0x200a), (0x2028, 0x2029), (0x202f, 0x202f), (0x205f, 0x205f), (0x3000, 0x3000)
]

/-- Unicode white space and the information separators. -/
def isBlank (c : Char) : Bool :=
  inRanges blankRanges c

/-- The four characters that separate tokens on the formatters' own account:
space, tab, carriage return and line feed. -/
def isPlainBlank (c : Char) : Bool :=
  c == ' ' || c == '\t' || c == '\r' || c == '\n'

/-- The text from its first character that is not blank. -/
def trimStart (text : Text) : Text :=
  text.dropWhile isBlank

/-- The text up to its last character that is not blank. -/
def trimEnd (text : Text) : Text :=
  dropEndWhile isBlank text

/-- The text without the blanks at its two ends. -/
def trim (text : Text) : Text :=
  trimEnd (trimStart text)

/-- Nothing but blanks. -/
def isBlankText (text : Text) : Bool :=
  text.all isBlank

/-- Every run of blanks written as one space; `afterBlank` tells that the run
has been written already. -/
def squeeze (afterBlank : Bool) : Text → Text
  | [] => []
  | c :: text =>
      if isBlank c then
        if afterBlank then squeeze true text else ' ' :: squeeze true text
      else c :: squeeze false text

/-- Every run of blanks written as one space. -/
def collapseBlanks (text : Text) : Text :=
  squeeze false text

end UiFormat.Text

/-
# UiFormat.Text.Line -- lines of a text

A line break is a line feed, a carriage return or the pair of both, which
counts once.  `lines` is never empty: a text without a break is one line, and a
text that ends in a break has an empty last line.
-/
import UiFormat.Text.Basic

namespace UiFormat.Text

set_option autoImplicit false

/-- A carriage return or a line feed. -/
def isBreak (c : Char) : Bool :=
  c == '\r' || c == '\n'

/-- Writes a character in front of the first line. -/
def consLine (c : Char) : List Text → List Text
  | [] => [[c]]
  | line :: rest => (c :: line) :: rest

/-- The lines of a text without their breaks. -/
def lines : Text → List Text
  | [] => [[]]
  | '\r' :: '\n' :: text => [] :: lines text
  | '\r' :: text => [] :: lines text
  | '\n' :: text => [] :: lines text
  | c :: text => consLine c (lines text)

/-- The last character is a line break. -/
def endsInBreak (text : Text) : Bool :=
  match text.getLast? with
  | some c => isBreak c
  | none => false

end UiFormat.Text

/-
# UiFormat.Text.Position -- offset, line and column

Lines and columns are counted from one, offsets from zero, all in code points.
The two languages disagree on what ends a line.  In markup only a line feed
does (`past`); in ETS source a carriage return does too, unless a line feed
follows it (`pastLines`).
-/
import UiFormat.Text.Basic

namespace UiFormat.Text

set_option autoImplicit false

/-- A place in a source text. -/
structure Position where
  offset : Nat
  line : Nat
  column : Nat
  deriving DecidableEq, Repr

namespace Position

/-- The place before the first character. -/
def start : Position :=
  { offset := 0, line := 1, column := 1 }

/-- One character further on the same line. -/
def nextColumn (p : Position) : Position :=
  { p with offset := p.offset + 1, column := p.column + 1 }

/-- `count` characters further, at the beginning of the next line. -/
def nextLine (p : Position) (count : Nat) : Position :=
  { offset := p.offset + count, line := p.line + 1, column := 1 }

/-- The place after `text`, where a line feed ends a line. -/
def past (p : Position) : Text → Position
  | [] => p
  | c :: text => past (if c = '\n' then p.nextLine 1 else p.nextColumn) text

/-- The place after `text`, where a line feed, a carriage return or both
together end a line. -/
def pastLines (p : Position) : Text → Position
  | [] => p
  | '\r' :: '\n' :: text => pastLines (p.nextLine 2) text
  | '\r' :: text => pastLines (p.nextLine 1) text
  | '\n' :: text => pastLines (p.nextLine 1) text
  | _ :: text => pastLines p.nextColumn text

end Position
end UiFormat.Text

/-
# UiFormat.Cli.Message -- messages on the error channel

A message is one line of the error channel, or several if it has line breaks of
its own.  A tab is written as one space and as many more as lead to the next tab
stop, which stand eight cells apart.  Some control characters are not shown.
-/
import UiFormat.Text.Cell

namespace UiFormat.Cli

open UiFormat.Text

set_option autoImplicit false

/-- The distance of the tab stops. -/
def tabWidth : Nat :=
  8

/-- The spaces that lead from a column to the next tab stop. -/
def tabPadding (column : Nat) : Nat :=
  (tabWidth - column % tabWidth) % tabWidth

/-- A line whose parts are divided by tabs, the first part at `column`. -/
def spreadParts (column : Nat) : List Text → Text
  | [] => []
  | [part] => part
  | part :: next :: rest =>
      let spaced := part ++ [' ']
      let reached := column + cells spaced
      spaced ++ List.replicate (tabPadding reached) ' '
        ++ spreadParts (reached + tabPadding reached) (next :: rest)

/-- The text with spaces for its tabs. -/
def expandTabs (text : Text) : Text :=
  join ['\n'] ((pieces '\n' text).map fun line => spreadParts 0 (pieces '\t' line))

/-- Control characters that are not shown: bell, backspace, vertical tab, form
feed and carriage return. -/
def isHidden (c : Char) : Bool :=
  [0x07, 0x08, 0x0b, 0x0c, 0x0d].contains c.toNat

/-- A message as the error channel shows it. -/
def messageLine (message : Text) : Text :=
  expandTabs (message.filter (!isHidden ·)) ++ ['\n']

end UiFormat.Cli

/-
# UiFormat.Layout.Chain -- lines that continue a call chain

A line that starts with `.` or `?.` continues the statement above it and stands
one level deeper; further chain lines keep the level of the first.  A spread
and a fraction such as `.5` start with a point without being a chain.

After a line that ends in a brace the chain belongs to the closed block and is
not indented; after a line that ends in an operator it is an operand.
-/
import UiFormat.Text.Blank
import UiFormat.Text.Digit

namespace UiFormat.Layout

open UiFormat.Text

set_option autoImplicit false

/-- The second character of a line is a digit. -/
def secondIsDigit : Text → Bool
  | _ :: c :: _ => isDigit c
  | _ => false

/-- The line starts with a member access. -/
def isChainLine (code : Text) : Bool :=
  (startsWith code ".".toList || startsWith code "?.".toList)
    && !startsWith code "...".toList && !secondIsDigit code

/-- Operators after which a chain line is an operand of its own. -/
def breaksChain (c : Char) : Bool :=
  "+-*/%=&|<>!^~?".toList.contains c

/-- The levels a line gains as part of a chain, given the code of the line
before it and the levels that line gained. -/
def chainIndent (code : Text) (previous : Option Text) (previousChain : Int) : Int :=
  match previous with
  | none => 0
  | some before =>
      match before.getLast? with
      | none => 0
      | some last =>
          if !isChainLine code then 0
          else if isChainLine before then previousChain
          else if last = '{' || last = '}' then 0
          else if endsWith before "=>".toList then 1
          else if breaksChain last then 0
          else 1

end UiFormat.Layout

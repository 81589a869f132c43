/-
# UiFormat.Ets.Component -- the component tree of a build body

The body of a `build` method or builder function declares a user interface: a
list of components, each a call with chained attribute calls and an optional
block of children.  Conditionals and loops stand in the same list.  Arguments,
conditions and loop expressions are kept as source text, parentheses included.
-/
import UiFormat.Text.Basic

namespace UiFormat.Ets

open UiFormat.Text

set_option autoImplicit false

/-- One chained call: a name and its parenthesised arguments. -/
structure Call where
  name : Text
  arguments : Text
  deriving DecidableEq, Repr

mutual

/-- A component: a plain one with the calls before and after its block of
children, a conditional, or a loop. -/
inductive Component where
  | plain (name arguments : Text) (calls : List Call) (block : Option (List Component))
      (callsAfter : List Call)
  | conditional (branch : Branch)
  | loop (name expression : Text)

/-- A condition with the components it guards.  Only a tree built by hand can
lack the condition. -/
inductive Branch where
  | mk (condition : Option Text) (children : List Component) (otherwise : Otherwise)

/-- What follows a branch: nothing, a block, or a further branch. -/
inductive Otherwise where
  | nothing
  | block (children : List Component)
  | chain (branch : Branch)

end

/-- A chained call as text. -/
def Call.print (c : Call) : Text :=
  ['.'] ++ c.name ++ c.arguments

/-- Writes `tail` after the last of several lines. -/
def appendToLast (tail : Text) : List Text → List Text
  | [] => []
  | [line] => [line ++ tail]
  | line :: next :: rest => line :: appendToLast tail (next :: rest)

mutual

/-- The lines of a component, without indentation. -/
def Component.print : Component → List Text
  | .plain name arguments calls none callsAfter =>
      ((name ++ arguments) :: calls.map Call.print) ++ callsAfter.map Call.print
  | .plain name arguments calls (some []) callsAfter =>
      appendToLast [' ', '{', '}'] ((name ++ arguments) :: calls.map Call.print)
        ++ callsAfter.map Call.print
  | .plain name arguments calls (some (child :: children)) callsAfter =>
      appendToLast [' ', '{'] ((name ++ arguments) :: calls.map Call.print)
        ++ child.print ++ printComponents children ++ [['}']] ++ callsAfter.map Call.print
  | .conditional branch => branch.print []
  | .loop name expression => [name ++ expression]

/-- The lines of several components. -/
def printComponents : List Component → List Text
  | [] => []
  | c :: rest => c.print ++ printComponents rest

/-- The lines of a branch whose first line continues `lead`. -/
def Branch.print (lead : Text) : Branch → List Text
  | .mk condition children otherwise =>
      (lead ++ "if ".toList ++ condition.getD "None".toList ++ [' ', '{'])
        :: printComponents children ++ otherwise.print

/-- The lines from the closing brace of a branch on. -/
def Otherwise.print : Otherwise → List Text
  | .nothing => [['}']]
  | .block children =>
      ("\x7d else \x7b".toList :: printComponents children) ++ [['}']]
  | .chain branch => branch.print "\x7d else ".toList

end

end UiFormat.Ets

/-
# UiFormat.Language -- the two source languages

ETS is the language of declarations and component trees, HML the markup
language.  A file's language follows from the ending of its name, in either
case; plain scripts are read as ETS.
-/
import UiFormat.Text.Escaped

namespace UiFormat

open UiFormat.Text

set_option autoImplicit false

/-- A source language. -/
inductive Language where
  | ets
  | hml
  deriving DecidableEq, Repr

namespace Language

/-- The name of a language. -/
def name : Language → Text
  | ets => "ets".toList
  | hml => "hml".toList

/-- The language of a name. -/
def ofName? (name : Text) : Option Language :=
  [ets, hml].find? (·.name == name)

/-- What is said about a name that is no language. -/
def unknownMessage (name : Text) : Text :=
  escaped name ++ " is not a valid Language".toList

/-- The last component of a path that is neither empty nor the current
directory. -/
def fileName (path : Text) : Text :=
  (((pieces '/' path).filter fun part => !(part.isEmpty || part == ['.'])).getLast?).getD []

/-- The ending of a file name from its last point on; a point at either end of
the name starts none. -/
def ending (file : Text) : Text :=
  let tail := (file.reverse.takeWhile (· != '.')).reverse
  if tail.isEmpty || file.length ≤ tail.length + 1 then [] else '.' :: tail

/-- The language that the name of a file stands for. -/
def ofPath? (path : Text) : Option Language :=
  let ending := (ending (fileName path)).map Char.toLower
  if ending == ".ets".toList || ending == ".ts".toList then some ets
  else if ending == ".hml".toList then some hml
  else none

end Language
end UiFormat

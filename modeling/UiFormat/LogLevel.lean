/-
# UiFormat.LogLevel -- how much is logged

The level is a name, in any case: the one asked for, else the one the
environment sets, else `WARNING`.  An empty name counts as none, and an unknown
one as a warning.
-/
import UiFormat.Text.Basic

namespace UiFormat

set_option autoImplicit false

/-- The severity from which messages are logged. -/
inductive LogLevel where
  | notSet
  | debug
  | info
  | warning
  | error
  | critical
  deriving DecidableEq, Repr

namespace LogLevel

/-- The number of a level. -/
def severity : LogLevel → Nat
  | notSet => 0
  | debug => 10
  | info => 20
  | warning => 30
  | error => 40
  | critical => 50

/-- The upper case of a letter that occurs in a level name: ASCII letters, the
long s and the dotless i. -/
def upperCase (c : Char) : Char :=
  if c = 'ſ' then 'S' else if c = 'ı' then 'I' else c.toUpper

/-- The names of the levels. -/
def names : List (String × LogLevel) := [
  ("NOTSET", notSet), ("DEBUG", debug), ("INFO", info), ("WARN", warning),
  ("WARNING", warning), ("ERROR", error), ("CRITICAL", critical), ("FATAL", critical)
]

/-- The level of a name. -/
def ofName (name : Text) : LogLevel :=
  ((names.find? fun (known, _) => known.toList == name.map upperCase).map (·.2)).getD warning

/-- The level in force, from the name asked for and the one of the
environment. -/
def choose (asked environment : Option Text) : LogLevel :=
  ((asked.filter (!·.isEmpty)).or (environment.filter (!·.isEmpty))).elim warning ofName

end LogLevel
end UiFormat

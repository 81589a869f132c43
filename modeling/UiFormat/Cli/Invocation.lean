/-
# UiFormat.Cli.Invocation -- what the command line asks for

The arguments are first sorted by their role and then read from left to right.

* Everything after `--` is plain, and so is anything that does not look like an
  option: no dash in front, a lone dash, a negative number, or a text with a space
  in it that opens no option.
* A long option may be shortened as long as one option alone starts that way, and
  may have its value attached by `=`.  Switches of one letter may be written
  together, with or without `=` after the first of them.
* A setting without an attached value takes the plain argument after it.  The
  separator as an attached value leaves the setting without any.
* The first run of plain arguments are the files; plain arguments in a later run
  are not recognised.

The last value given to a setting counts.  Arguments that are not recognised are
reported only when nothing else is wrong.
-/
import UiFormat.Options
import UiFormat.Number.Numeral
import UiFormat.Cli.Usage

namespace UiFormat.Cli

open UiFormat.Text
open UiFormat.Number

set_option autoImplicit false

/-- What the command line asks for.  Where no language is named, the name of each
file decides; where no indentation is named, the language does.  Settings in
`emptied` were left without a value, and what stands for them here is not used. -/
structure Invocation where
  files : List Text := []
  language : Option Language := none
  indent : Option Int := none
  tabs : Bool := false
  eol : Text := ['\n']
  maxLineLength : Int := 120
  singleQuote : Bool := true
  semicolons : Option Bool := some false
  trailingComma : Bool := false
  bracketSpacing : Bool := true
  check : Bool := false
  write : Bool := false
  diagnostics : Bool := false
  verbose : Bool := false
  emptied : List Setting := []
  deriving DecidableEq, Repr

/-- Why nothing is run: the help text was asked for, or a misuse. -/
inductive Halt where
  | help
  | misuse (m : Misuse)
  deriving DecidableEq, Repr

/-! ## Roles -/

/-- What ends the options. -/
def separator : Text :=
  ['-', '-']

/-- An argument by its role: `tail` holds the letters written after a switch of
one letter, and `overloaded` is a switch with a value. -/
inductive Argument where
  | plain (text : Text)
  | separator
  | unknown (text : Text)
  | switch (s : Switch) (tail : Text)
  | overloaded (s : Switch) (value : Text)
  | setting (s : Setting) (value : Option Text)
  deriving DecidableEq, Repr

/-- An option written as `name` with the value attached to it.  The value of a
switch of one letter is further letters. -/
def Opt.argument (name : Text) (value : Option Text) : Opt → Argument
  | .setting s => .setting s value
  | .switch s =>
      match value with
      | none => .switch s []
      | some value =>
          if value.isEmpty || startsWith name ['-', '-'] then .overloaded s value
          else .switch s value

/-- The name of an option and the value attached to it. -/
def splitValue (text : Text) : Text × Option Text :=
  match cut? ['='] text with
  | some (name, value) => (name, some value)
  | none => (text, none)

/-- The one long option whose name starts like the argument. -/
def shortened? (text : Text) : Except Misuse (Option Argument) :=
  let (start, value) := splitValue text
  match optionNames.filter fun (name, _) => startsWith name start with
  | [] => .ok none
  | [(_, o)] => .ok (some (o.argument start value))
  | several => .error (.ambiguous text (several.map (·.1)))

/-- The switch whose letter follows the dash, with the letters after it. -/
def cluster? : Text → Option Argument
  | dash :: letter :: tail =>
      match named? [dash, letter] with
      | some (.switch s) => some (.switch s tail)
      | _ => none
  | _ => none

/-- Decimal digits of any script, at least one. -/
def isDigits (text : Text) : Bool :=
  !text.isEmpty && text.all fun c => (decimalValue? c).isSome

/-- A dash and a decimal number with digits after its point, if it has one; a
line break may follow. -/
def isNegativeNumber (text : Text) : Bool :=
  match after? ['-'] (if endsWith text ['\n'] then text.dropLast else text) with
  | none => false
  | some number =>
      isDigits number ||
        match cut? ['.'] number with
        | some (whole, fraction) => (whole.isEmpty || isDigits whole) && isDigits fraction
        | none => false

/-- The role of an argument in front of which no separator stands. -/
def classify (text : Text) : Except Misuse Argument := do
  if !startsWith text ['-'] || text.length = 1 then return .plain text
  let (name, value) := splitValue text
  match named? name with
  | some o => return o.argument name value
  | none =>
      let found ← if startsWith text ['-', '-'] then shortened? text else pure (cluster? text)
      match found with
      | some argument => return argument
      | none =>
          return if isNegativeNumber text || text.contains ' ' then .plain text
            else .unknown text

/-- The roles of all arguments. -/
def classifyAll : List Text → Except Misuse (List Argument)
  | [] => .ok []
  | text :: rest =>
      if text = separator then .ok (.separator :: rest.map .plain)
      else do
        let argument ← classify text
        let arguments ← classifyAll rest
        return argument :: arguments

/-! ## Values -/

/-- The integer a setting is given. -/
def integer (s : Setting) (value : Text) : Except Misuse Int :=
  match readInt? value with
  | some n => .ok n
  | none => .error (.notAnInteger s value)

/-- What one of the words that a setting accepts stands for. -/
def choice {α : Type} (s : Setting) (choices : List (String × α)) (value : Text) :
    Except Misuse α :=
  match choices.find? fun (word, _) => word.toList == value with
  | some (_, meaning) => .ok meaning
  | none => .error (.notAChoice s value (choices.map (·.1.toList)))

namespace Invocation

/-- Gives a setting the value that a text stands for. -/
def set (i : Invocation) (s : Setting) (value : Text) : Except Misuse Invocation :=
  match s with
  | .lang =>
      (choice s [("auto", none), ("ets", some .ets), ("hml", some .hml)] value).map
        ({ i with language := · })
  | .indent => (integer s value).map ({ i with indent := some · })
  | .eol => (choice s [("lf", ['\n']), ("crlf", ['\r', '\n'])] value).map ({ i with eol := · })
  | .maxLineLength => (integer s value).map ({ i with maxLineLength := · })
  | .quote =>
      (choice s [("single", true), ("double", false)] value).map ({ i with singleQuote := · })
  | .semicolons =>
      (choice s [("auto", none), ("always", some true), ("never", some false)] value).map
        ({ i with semicolons := · })

/-- Gives a setting its value, the last one counting; the separator takes it
away. -/
def assign (i : Invocation) (s : Setting) (value : Text) : Except Misuse Invocation :=
  if value = separator then .ok { i with emptied := s :: i.emptied }
  else (i.set s value).map ({ · with emptied := i.emptied.filter (· ≠ s) })

/-- The setting was left without a value. -/
def lacks (i : Invocation) (s : Setting) : Bool :=
  i.emptied.contains s

/-- Turns a switch on. -/
def turnOn (i : Invocation) : Switch → Except Halt Invocation
  | .help => .error .help
  | .tabs => .ok { i with tabs := true }
  | .trailingComma => .ok { i with trailingComma := true }
  | .noBracketSpacing => .ok { i with bracketSpacing := false }
  | .check => .ok { i with check := true }
  | .write => .ok { i with write := true }
  | .diagnostics => .ok { i with diagnostics := true }
  | .verbose => .ok { i with verbose := true }

/-- The options for a language. -/
def options (i : Invocation) (language : Language) : Options :=
  { indentSize := i.indent.getD language.defaultOptions.indentSize
    insertSpaces := !i.tabs
    eol := i.eol
    maxLineLength := i.maxLineLength
    singleQuote := i.singleQuote && !i.lacks .quote
    semicolons := i.semicolons
    trailingComma := i.trailingComma
    bracketSpacing := i.bracketSpacing }

end Invocation

/-! ## Reading -/

/-- The switches of a cluster that starts with `s`.  From the first letter on that
names no switch, the text is a value for the switch before it. -/
def clusterSwitches (s : Switch) : Text → Except Misuse (List Switch)
  | [] => .ok [s]
  | letter :: tail =>
      match named? ['-', letter] with
      | some (.switch next) => (clusterSwitches next tail).map (s :: ·)
      | _ => .error (.needlessValue s (letter :: tail))

/-- Where reading stands in respect of the files. -/
inductive FileRun where
  | ahead
  | inside
  | over
  deriving DecidableEq, Repr

/-- What has been read so far. -/
structure Reading where
  invocation : Invocation := {}
  fileRun : FileRun := .ahead
  unrecognized : List Text := []
  deriving DecidableEq, Repr

namespace Reading

/-- Reads a plain argument or the separator, which stands for `files`. -/
def plain (r : Reading) (text : Text) (files : List Text) : Reading :=
  match r.fileRun with
  | .over => { r with unrecognized := r.unrecognized ++ [text] }
  | _ =>
      { r with
        fileRun := .inside
        invocation := { r.invocation with files := r.invocation.files ++ files } }

/-- Reads an option, which ends a run of files. -/
def option (r : Reading) (i : Invocation) (unrecognized : List Text) : Reading :=
  { invocation := i
    fileRun := if r.fileRun = .inside then .over else r.fileRun
    unrecognized := r.unrecognized ++ unrecognized }

end Reading

/-- A misuse ends the reading. -/
def orHalt {α : Type} (result : Except Misuse α) : Except Halt α :=
  result.mapError .misuse

/-- Reads arguments from left to right. -/
def readAll (r : Reading) : List Argument → Except Halt Reading
  | [] => .ok r
  | .plain text :: rest => readAll (r.plain text [text]) rest
  | .separator :: rest => readAll (r.plain separator []) rest
  | .unknown text :: rest => readAll (r.option r.invocation [text]) rest
  | .switch s tail :: rest => do
      let switches ← orHalt (clusterSwitches s tail)
      let i ← switches.foldlM Invocation.turnOn r.invocation
      readAll (r.option i []) rest
  | .overloaded s value :: _ => .error (.misuse (.needlessValue s value))
  | .setting s (some value) :: rest => do
      let i ← orHalt (r.invocation.assign s value)
      readAll (r.option i []) rest
  | .setting s none :: .plain value :: rest => do
      let i ← orHalt (r.invocation.assign s value)
      readAll (r.option i []) rest
  | .setting s none :: _ => .error (.misuse (.missingValue s))

/-- What a list of arguments asks for. -/
def Invocation.ofArguments (arguments : List Text) : Except Halt Invocation := do
  let roles ← orHalt (classifyAll arguments)
  let r ← readAll {} roles
  if r.unrecognized.isEmpty then return r.invocation
  throw (.misuse (.unrecognized r.unrecognized))

end UiFormat.Cli

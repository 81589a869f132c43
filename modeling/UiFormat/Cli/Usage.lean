/-
# UiFormat.Cli.Usage -- the options of the command line

Options are of two kinds: a switch is set by its presence, a setting takes a
value.  The catalogue gives every option its names and purpose; its order is the
one in which options are listed in messages and in the help text.

A misused option is named by all its names, with slashes between them.
-/
import UiFormat.Text.Escaped

namespace UiFormat.Cli

open UiFormat.Text

set_option autoImplicit false

/-- The name the program gives itself. -/
def programName : Text :=
  "arkfmt".toList

/-- An option that is set by its presence. -/
inductive Switch where
  | help
  | tabs
  | trailingComma
  | noBracketSpacing
  | check
  | write
  | diagnostics
  | verbose
  deriving DecidableEq, Repr

/-- An option that takes a value. -/
inductive Setting where
  | lang
  | indent
  | eol
  | maxLineLength
  | quote
  | semicolons
  deriving DecidableEq, Repr

/-- An option of either kind. -/
inductive Opt where
  | switch (s : Switch)
  | setting (s : Setting)
  deriving DecidableEq, Repr

/-- An option with its names and what it is for. -/
structure Entry where
  names : List Text
  opt : Opt
  purpose : Text

/-- Every option. -/
def catalogue : List Entry :=
  let entry (names : List String) (opt : Opt) (purpose : String) : Entry :=
    { names := names.map String.toList, opt, purpose := purpose.toList }
  [
    entry ["-h", "--help"] (.switch .help) "Show this message",
    entry ["--lang"] (.setting .lang) "Source language (auto uses the file extension)",
    entry ["--indent"] (.setting .indent) "Indent size (default 2, 4 for HML)",
    entry ["--tabs"] (.switch .tabs) "Indent with tabs",
    entry ["--eol"] (.setting .eol) "Line terminator",
    entry ["--max-line-length"] (.setting .maxLineLength) "Wrap width",
    entry ["--quote"] (.setting .quote) "Import quote style",
    entry ["--semicolons"] (.setting .semicolons)
      "Statement terminators (auto infers from the input)",
    entry ["--trailing-comma"] (.switch .trailingComma)
      "Trailing comma in wrapped parameter lists",
    entry ["--no-bracket-spacing"] (.switch .noBracketSpacing)
      "Print \x7ba\x7d instead of \x7b a \x7d in imports",
    entry ["--check"] (.switch .check) "Exit 1 if any file would change",
    entry ["-w", "--write"] (.switch .write) "Write files in place",
    entry ["--diagnostics"] (.switch .diagnostics) "Print parse errors to stderr",
    entry ["-v", "--verbose"] (.switch .verbose) "Debug logging"
  ]

/-- Every name of an option, with the option. -/
def optionNames : List (Text × Opt) :=
  catalogue.flatMap fun e => e.names.map fun name => (name, e.opt)

/-- The option called `name`. -/
def named? (name : Text) : Option Opt :=
  optionNames.lookup name

/-- All names of an option. -/
def Opt.title (o : Opt) : Text :=
  join ['/'] (optionNames.filterMap fun (name, opt) => if opt = o then some name else none)

/-- How the command line is used. -/
def helpText : Text :=
  "usage: ".toList ++ programName
    ++ " [options] [files ...]\n\nFormat ETS and HML source files\n\noptions:\n".toList
    ++ catalogue.flatMap fun e => "  ".toList ++ join ", ".toList e.names ++ [':', ' ']
      ++ e.purpose ++ ['\n']

/-- A way to misuse the command line. -/
inductive Misuse where
  | ambiguous (argument : Text) (candidates : List Text)
  | missingValue (option : Setting)
  | needlessValue (option : Switch) (value : Text)
  | notAnInteger (option : Setting) (value : Text)
  | notAChoice (option : Setting) (value : Text) (choices : List Text)
  | unrecognized (arguments : List Text)
  deriving DecidableEq, Repr

/-- What is said about one option. -/
def aboutOption (o : Opt) (message : Text) : Text :=
  "argument ".toList ++ o.title ++ ": ".toList ++ message

/-- The wording of a misuse. -/
def Misuse.message : Misuse → Text
  | .ambiguous argument candidates =>
      "ambiguous option: ".toList ++ argument ++ " could match ".toList
        ++ join ", ".toList candidates
  | .missingValue o => aboutOption (.setting o) "expected one argument".toList
  | .needlessValue o value =>
      aboutOption (.switch o) ("ignored explicit argument ".toList ++ escaped value)
  | .notAnInteger o value =>
      aboutOption (.setting o) ("invalid int value: ".toList ++ escaped value)
  | .notAChoice o value choices =>
      aboutOption (.setting o) ("invalid choice: ".toList ++ escaped value
        ++ " (choose from ".toList ++ join ", ".toList (choices.map escaped) ++ [')'])
  | .unrecognized arguments => "unrecognized arguments: ".toList ++ join [' '] arguments

end UiFormat.Cli

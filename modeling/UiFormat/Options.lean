/-
# UiFormat.Options -- how formatted source is written

One record serves both languages; markup differs only in its default indent.
Sizes may be zero or negative: such an indent writes nothing, such a line length
wraps everything that can wrap.
-/
import UiFormat.Language
import UiFormat.Text.Basic

namespace UiFormat

open UiFormat.Text

set_option autoImplicit false

/-- The choices a caller can make.

* `indentSize`, `insertSpaces`: one level is that many spaces, or a tab;
* `eol`: written after every line;
* `maxLineLength`: parameter lists and attributes wrap beyond it;
* `singleQuote`: the quote of rebuilt import paths;
* `semicolons`: whether rebuilt statements are terminated; `none` follows the
  habit of the source;
* `trailingComma`: a comma after the last parameter of a wrapped list;
* `bracketSpacing`: a space inside the braces of rebuilt imports. -/
structure Options where
  indentSize : Int := 2
  insertSpaces : Bool := true
  eol : Text := ['\n']
  maxLineLength : Int := 120
  singleQuote : Bool := true
  semicolons : Option Bool := some false
  trailingComma : Bool := false
  bracketSpacing : Bool := true
  deriving DecidableEq, Repr

namespace Options

/-- The defaults for markup: four spaces a level. -/
def markup : Options :=
  { indentSize := 4 }

/-- One level of indentation. -/
def indentUnit (o : Options) : Text :=
  if o.insertSpaces then times [' '] o.indentSize else ['\t']

/-- The quote of rebuilt import paths. -/
def quote (o : Options) : Char :=
  if o.singleQuote then '\x27' else '\x22'

/-- The indentation of a level; levels below zero have none. -/
def indent (o : Options) (level : Int) : Text :=
  times o.indentUnit level

end Options

/-- The options a language is formatted with unless others are given. -/
def Language.defaultOptions : Language → Options
  | .ets => {}
  | .hml => .markup

end UiFormat

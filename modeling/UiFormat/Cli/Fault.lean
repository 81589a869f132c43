/-
# UiFormat.Cli.Fault -- targets and settings that cannot be used

No file has a null character in its path, so such a path cannot even be tried.

A setting that was left without a value is missed as soon as a target needs it.

* The language and the words of a choice are needed for every target; only the
  quote is not, since whatever is not the single quote is the double one.
* The indentation is needed where something is indented, unless by tabs.  There
  its width has to fit a machine word, and memory has to hold it.
* The line length is needed where a line is measured.

Of several faults the first in this order counts.
-/
import UiFormat.Demand
import UiFormat.Cli.Invocation

namespace UiFormat.Cli

open UiFormat.Text

set_option autoImplicit false

/-- Why a target cannot be formatted: its path, a setting that is missed, or an
indentation that is out of range or takes too much memory. -/
inductive Fault where
  | path
  | language
  | choice
  | indentation
  | indentationRange
  | indentationSize
  | lineLength (measured : Language)
  deriving DecidableEq, Repr

/-- The wording of a fault. -/
def Fault.message : Fault → Text
  | .path => "embedded null byte".toList
  | .language => "[] is not a valid Language".toList
  | .choice => "unhashable type: 'list'".toList
  | .indentation => "can't multiply sequence by non-int of type 'list'".toList
  | .indentationRange => "cannot fit 'int' into an index-sized integer".toList
  | .indentationSize => []
  | .lineLength .ets => "'<=' not supported between instances of 'int' and 'list'".toList
  | .lineLength .hml => "'>' not supported between instances of 'int' and 'list'".toList

/-- What is wrong with a path. -/
def pathFault? (path : Text) : Option Fault :=
  if path.any (·.toNat == 0) then some .path else none

/-- The widest indentation that is held in memory. -/
def widestIndent : Int :=
  4294967296

/-- What is wrong with an indentation of `width` spaces: a width outside a machine
word of 64 bits, or one beyond the widest. -/
def indentFault? (width : Int) : Option Fault :=
  if width < -9223372036854775808 || 9223372036854775807 < width then some .indentationRange
  else if widestIndent < width then some .indentationSize
  else none

/-- What is wrong with the indentation of an invocation. -/
def Invocation.indentFault? (i : Invocation) (language : Language) : Option Fault :=
  if i.tabs then none
  else if i.lacks .indent then some .indentation
  else Cli.indentFault? (i.options language).indentSize

/-- What is wrong with the line length of an invocation. -/
def Invocation.lengthFault? (i : Invocation) (language : Language) : Option Fault :=
  if i.lacks .maxLineLength then some (.lineLength language) else none

/-- What is wrong when a source is formatted as `language`. -/
def Invocation.fault? (i : Invocation) (language : Language) (source : Text) : Option Fault :=
  if i.lacks .lang then some .language
  else if i.lacks .eol || i.lacks .semicolons then some .choice
  else
    ((i.indentFault? language).filter fun _ => needsIndentation language source).or
      ((i.lengthFault? language).filter fun _ => needsLineLength language source)

end UiFormat.Cli

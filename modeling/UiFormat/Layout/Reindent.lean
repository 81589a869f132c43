/-
# UiFormat.Layout.Reindent -- indentation from bracket structure

Reindenting recomputes the leading blanks of every line and changes nothing
else: the trimmed text of a line is kept.  Each line is given a `Placement`,
which is independent of the indent unit, and placements are then written out.

* A line that starts inside a template literal is kept as it is.
* A line that starts inside a block comment is aligned under the comment when
  it starts with a star; inside a doc comment it gains a star when asked to;
  otherwise it only loses its trailing blanks.
* A blank line is dropped or merged with its neighbours.
* Any other line stands at the level of the frame its leading closing brackets
  reach, or one deeper than the innermost frame, with one more level under a
  `case` label and for a call chain.

Blank runs are written as one blank line, and none is written at either end.
-/
import UiFormat.Text.Line
import UiFormat.Text.Word
import UiFormat.Layout.Frame
import UiFormat.Layout.Chain

namespace UiFormat.Layout

open UiFormat.Text

set_option autoImplicit false

/-- A `switch` block: the number of frames open inside it, and whether a label
has been seen. -/
structure SwitchBlock where
  height : Nat
  inCase : Bool
  deriving DecidableEq, Repr

/-- What the layout of a line depends on besides the line: the scan state, the
open frames and switch blocks (innermost first), the code of the last line that
had any with the chain levels it gained, and the level of the line that opened
the current comment. -/
structure LayoutState where
  scanner : ScanState
  frames : List Frame
  switches : List SwitchBlock
  previousCode : Option Text
  previousChain : Int
  commentLevel : Int
  deriving DecidableEq, Repr

/-- The state before the first line. -/
def LayoutState.start (base : Int) : LayoutState :=
  { scanner := .start
    frames := []
    switches := []
    previousCode := none
    previousChain := 0
    commentLevel := base }

/-- How a line is written. -/
inductive Placement where
  | verbatim (raw : Text)
  | keptComment (raw : Text)
  | starredComment (level : Int) (trimmed : Text)
  | unstarredComment (level : Int) (trimmed : Text)
  | blank
  | indented (level : Int) (trimmed : Text)
  deriving DecidableEq, Repr

/-- A line of output; a droppable line stands for a blank line of the source. -/
structure PlacedLine where
  text : Text
  droppable : Bool
  deriving DecidableEq, Repr

/-- A placement written with an indent unit. -/
def Placement.write (unit : Text) : Placement → PlacedLine
  | .verbatim raw => ⟨raw, false⟩
  | .keptComment raw => ⟨trimEnd raw, false⟩
  | .starredComment level trimmed => ⟨times unit level ++ ' ' :: trimmed, false⟩
  | .unstarredComment level trimmed =>
      ⟨times unit level ++ " *".toList ++ (if trimmed.isEmpty then [] else ' ' :: trimmed), false⟩
  | .blank => ⟨[], true⟩
  | .indented level trimmed => ⟨times unit level ++ trimmed, false⟩

/-- The line is a label of a `switch` block. -/
def isCaseLabel (line : Text) : Bool :=
  startsWithWord "case".toList line ||
    match after? "default".toList line with
    | some rest => startsWith (trimStart rest) ":".toList
    | none => false

/-- The line opens a `switch` statement. -/
def isSwitchHead (line : Text) : Bool :=
  match after? "switch".toList line with
  | some rest => startsWith (trimStart rest) "(".toList
  | none => false

/-- The level inside the innermost frame. -/
def openLevel (base : Int) : List Frame → Int
  | [] => base
  | frame :: _ => frame.indent + 1

/-- The level of the frame that `touched` frames from the top reach. -/
def touchedLevel (base : Int) (frames : List Frame) (touched : Nat) : Int :=
  match frames[touched - 1]? with
  | some frame => frame.indent
  | none => base

/-- The switch blocks after a line directly inside the innermost one: a label
marks it. -/
def markCase (isLabel : Bool) : List SwitchBlock → List SwitchBlock
  | [] => []
  | block :: outer => { block with inCase := block.inCase || isLabel } :: outer

/-- The line stands directly inside the innermost switch block. -/
def inSwitch (frames : List Frame) : List SwitchBlock → Bool
  | [] => false
  | block :: _ => block.height == frames.length

/-- The line stands under a label of the innermost switch block. -/
def underLabel (frames : List Frame) : List SwitchBlock → Bool
  | [] => false
  | block :: _ => block.height == frames.length && block.inCase

/-- The switch blocks after a line: a `switch` head that leaves its brace open
adds one, and blocks whose frame is closed are gone. -/
def updateSwitches (frames : List Frame) (opens : Bool) (switches : List SwitchBlock) :
    List SwitchBlock :=
  let switches :=
    if opens && !frames.isEmpty then ⟨frames.length, false⟩ :: switches else switches
  switches.dropWhile fun block => frames.length < block.height

/-- A line of code: neither blank nor inside a template literal or comment. -/
def placeCode (base : Int) (s : LayoutState) (scan : LineScan) (trimmed : Text) :
    Placement × LayoutState :=
  let touched := touchedFrames s.frames scan.leadingClosers
  let isLabel := isCaseLabel trimmed
  let chain := if touched = 0 then chainIndent trimmed s.previousCode s.previousChain else 0
  let level :=
    if touched = 0 then
      openLevel base s.frames
        + (if !isLabel && underLabel s.frames s.switches then 1 else 0) + chain
    else touchedLevel base s.frames touched
  let switches :=
    if touched = 0 && inSwitch s.frames s.switches then markCase isLabel s.switches
    else s.switches
  let frames := applyEvents s.frames scan.events level
  let opens := isSwitchHead trimmed && endsWith scan.code ['{']
  (.indented level trimmed,
   { s with
     frames
     switches := updateSwitches frames opens switches
     commentLevel := if scan.endsInComment then level else s.commentLevel
     previousCode := if scan.code.isEmpty then s.previousCode else some scan.code
     previousChain := if scan.code.isEmpty then s.previousChain else chain })

/-- A line that starts inside a block comment. -/
def placeComment (normalizeDoc : Bool) (s : LayoutState) (scan : LineScan) (raw : Text) :
    Placement :=
  let trimmed := trim raw
  if startsWith trimmed ['*'] then .starredComment s.commentLevel trimmed
  else if normalizeDoc && scan.commentIsDoc then .unstarredComment s.commentLevel trimmed
  else .keptComment raw

/-- Places one line and returns the state for the next one. -/
def place (base : Int) (normalizeDoc : Bool) (s : LayoutState) (raw : Text) :
    Placement × LayoutState :=
  let (scan, scanner) := s.scanner.scan raw
  let trimmed := trim raw
  let s := { s with scanner }
  if scan.startsInTemplate then
    (.verbatim raw,
     { s with frames := applyEvents s.frames scan.events (openLevel base s.frames) })
  else if scan.startsInComment then
    (placeComment normalizeDoc s scan raw,
     { s with frames := applyEvents s.frames scan.events s.commentLevel })
  else if trimmed.isEmpty then (.blank, s)
  else placeCode base s scan trimmed

/-- Places the lines in order. -/
def placeAll (base : Int) (normalizeDoc : Bool) (s : LayoutState) : List Text → List Placement
  | [] => []
  | raw :: rest =>
      let (placement, next) := place base normalizeDoc s raw
      placement :: placeAll base normalizeDoc next rest

/-- Writes each run of droppable lines as one blank line between kept lines;
`gap` tells that such a run has just been passed. -/
def collapseAfter (gap : Bool) : List PlacedLine → List Text
  | [] => []
  | line :: rest =>
      if line.droppable then collapseAfter true rest
      else if gap then [] :: line.text :: collapseAfter false rest
      else line.text :: collapseAfter false rest

/-- The kept lines, with one blank line where droppable lines stood between
them. -/
def collapse (lines : List PlacedLine) : List Text :=
  collapseAfter false (lines.dropWhile PlacedLine.droppable)

/-- The lines of `text`, reindented so that its outermost lines stand at level
`base`.  Lines that end up empty at the end are dropped, also those that close
an unterminated comment or template literal. -/
def reindentLines (base : Int) (unit : Text) (normalizeDoc : Bool) (text : Text) : List Text :=
  let placed := (placeAll base normalizeDoc (.start base) (lines text)).map (·.write unit)
  collapse (dropEndWhile (·.text.isEmpty) placed)

/-- The reindented lines joined with a line terminator. -/
def reindentBlock (base : Int) (unit : Text) (eol : Text) (normalizeDoc : Bool) (text : Text) :
    Text :=
  join eol (reindentLines base unit normalizeDoc text)

end UiFormat.Layout

/-
# UiFormat.Layout.LineScan -- what a line contributes to the layout

The layout of a line depends on the brackets of the lines before it.  Brackets
inside strings, template literals and comments do not count, and template
literals and block comments may span lines, so lines are read in order by a
scan that carries `ScanState` from one line to the next.

The rules, for a line read from left to right:

* inside a block comment everything is passed over up to the closing mark;
* inside the text of a template literal a backslash takes the next character
  with it, a back quote closes the literal and `$` with a brace opens a group;
* inside such a group only its own braces, strings, comments and nested
  literals are followed, and nothing counts as a bracket or as code;
* elsewhere brackets are recorded, a string ends at its quote or with the line,
  and any other character but space and tab is code.

`step` says what one place of a line does and how far it reaches; `walk` repeats
it to the end of the line.
-/
import UiFormat.Text.Blank
import UiFormat.Text.Quoted

namespace UiFormat.Layout

open UiFormat.Text

set_option autoImplicit false

/-- An opening brace, bracket or parenthesis. -/
def isOpener (c : Char) : Bool :=
  c == '{' || c == '[' || c == '('

/-- A closing brace, bracket or parenthesis. -/
def isCloser (c : Char) : Bool :=
  c == '}' || c == ']' || c == ')'

/-- An open part of a template literal: its text, or a `$` brace group with the
number of braces open inside it. -/
inductive TemplatePart where
  | literal
  | group (braces : Nat)
  deriving DecidableEq, Repr

/-- What is still open between two lines.  The parts of template literals stand
innermost first; `docComment` describes the block comment opened last. -/
structure ScanState where
  templates : List TemplatePart
  inComment : Bool
  docComment : Bool
  deriving DecidableEq, Repr

/-- Nothing is open before the first line. -/
def ScanState.start : ScanState :=
  { templates := [], inComment := false, docComment := false }

/-- What a line shows to the layout, from left to right. -/
inductive Mark where
  | code
  | bracket (c : Char)
  deriving DecidableEq, Repr

/-- The bracket of a mark. -/
def Mark.bracket? : Mark → Option Char
  | .code => none
  | .bracket c => some c

/-- The mark is a closing bracket. -/
def Mark.closes : Mark → Bool
  | .code => false
  | .bracket c => isCloser c

/-- The effect of one place of a line: the state after it, what it shows, how
many characters it takes besides its first, and whether the code of the line
ends before it. -/
structure Step where
  state : ScanState
  mark : Option Mark
  extra : Nat
  endsCode : Bool

namespace Step

/-- Passes over `extra` further characters that show nothing. -/
def skip (state : ScanState) (extra : Nat) : Step :=
  { state, mark := none, extra, endsCode := false }

/-- Passes over `extra` further characters that show `mark`. -/
def shows (state : ScanState) (mark : Mark) (extra : Nat) : Step :=
  { state, mark := some mark, extra, endsCode := false }

end Step

/-- One place inside a block comment. -/
def commentStep (s : ScanState) (c : Char) (rest : Text) : Step :=
  if (after? "*/".toList (c :: rest)).isSome then .skip { s with inComment := false } 1
  else .skip s 0

/-- One place inside the text of a template literal whose enclosing parts are
`outer`. -/
def literalStep (s : ScanState) (outer : List TemplatePart) (c : Char) (rest : Text) : Step :=
  if c = '\\' then .skip s 1
  else if c = '\x60' then .skip { s with templates := outer } 0
  else if c = '$' && startsWith rest ['{'] then
    .skip { s with templates := .group 0 :: s.templates } 1
  else .skip s 0

/-- One character of code: a brace of the innermost template group, a bracket,
or anything else. -/
def codeStep (s : ScanState) (c : Char) : Step :=
  match s.templates with
  | .group braces :: outer =>
      if c = '{' then .skip { s with templates := .group (braces + 1) :: outer } 0
      else if c = '}' then
        match braces with
        | 0 => .skip { s with templates := outer } 0
        | deeper + 1 => .skip { s with templates := .group deeper :: outer } 0
      else .skip s 0
  | _ =>
      if isOpener c || isCloser c then .shows s (.bracket c) 0 else .shows s .code 0

/-- A block comment opens here; `rest` follows its slash. -/
def openComment (s : ScanState) (rest : Text) : Step :=
  let isDoc := startsWith rest "**".toList && !startsWith rest "**/".toList
  { state := { s with inComment := true, docComment := isDoc }
    mark := none
    extra := 1
    endsCode := !includes (rest.drop 1) "*/".toList }

/-- One place of a line; `none` when a line comment starts here. -/
def step (s : ScanState) (c : Char) (rest : Text) : Option Step :=
  if s.inComment then some (commentStep s c rest)
  else
    match s.templates with
    | .literal :: outer => some (literalStep s outer c rest)
    | _ =>
        if c = ' ' || c = '\t' then some (.skip s 0)
        else if c = '/' && startsWith rest ['/'] then none
        else if c = '/' && startsWith rest ['*'] then some (openComment s rest)
        else if c = '\x22' || c = '\x27' then some (.shows s .code (stringExtent c rest))
        else if c = '\x60' then
          some (.shows { s with templates := .literal :: s.templates } .code 0)
        else some (codeStep s c)

/-- The state after a stretch of a line, what it shows, and its text up to
where the code ends. -/
structure Reading where
  state : ScanState
  marks : List Mark
  code : Text

/-- Reads a line from `s` on. -/
def walk (s : ScanState) : Text → Reading
  | [] => { state := s, marks := [], code := [] }
  | c :: rest =>
      match step s c rest with
      | none => { state := s, marks := [], code := [] }
      | some here =>
          let later := walk here.state (rest.drop here.extra)
          { state := later.state
            marks := here.mark.toList ++ later.marks
            code := if here.endsCode then [] else c :: rest.take here.extra ++ later.code }
termination_by line => line.length
decreasing_by simp only [List.length_drop, List.length_cons]; omega

/-- The facts about a line that its layout needs.  `code` is the trimmed line
without a comment that closes it, `leadingClosers` counts the closing brackets
before any code. -/
structure LineScan where
  startsInTemplate : Bool
  startsInComment : Bool
  commentIsDoc : Bool
  endsInComment : Bool
  events : List Char
  leadingClosers : Nat
  code : Text
  deriving DecidableEq, Repr

/-- Reads one line and returns its facts with the state for the next one. -/
def ScanState.scan (s : ScanState) (line : Text) : LineScan × ScanState :=
  let reading := walk s line
  ({ startsInTemplate := !s.templates.isEmpty
     startsInComment := s.inComment
     commentIsDoc := s.docComment
     endsInComment := reading.state.inComment
     events := reading.marks.filterMap Mark.bracket?
     leadingClosers := (reading.marks.takeWhile Mark.closes).length
     code := trim reading.code },
   reading.state)

end UiFormat.Layout

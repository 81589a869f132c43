/-
# UiFormat.Safety.SemicolonStyle -- the habit of a source

Whether a source terminates its statements is read off its lines: among the
lines that look like statements, the share that ends in a semicolon has to
exceed a threshold.  A source without such lines does not terminate them.
-/
import UiFormat.Text.Blank
import UiFormat.Text.Line
import UiFormat.Text.Word
import UiFormat.Number.Scientific

namespace UiFormat.Safety

open UiFormat.Text
open UiFormat.Number

set_option autoImplicit false

/-- The share of terminated lines above which semicolons are kept: 0.3. -/
def defaultThreshold : Scientific :=
  .finite false 3 (-1)

/-- The threshold a setting asks for; without a readable one, the default. -/
def thresholdOf (setting : Option Text) : Scientific :=
  (setting.bind Scientific.read?).getD defaultThreshold

/-- The line starts with a word that starts a statement. -/
def startsStatement (line : Text) : Bool :=
  ["const", "let", "var", "import", "return", "throw"].any fun word =>
    startsWithWord word.toList line

/-- The line declares or imports something, or leaves the function. -/
def isKeywordLine (line : Text) : Bool :=
  startsStatement line ||
    match after? "export".toList line with
    | some rest => rest.head?.any isBlank && startsStatement (trimStart rest)
    | none => false

/-- After a word and blanks, the line goes on with one of `marks`. -/
def wordBefore (marks line : Text) : Bool :=
  match line with
  | [] => false
  | c :: _ => isWord c && (trimStart (line.dropWhile isWord)).head?.any marks.contains

/-- The line assigns to a member of `this`. -/
def isMemberAssignment (line : Text) : Bool :=
  match after? "this.".toList line with
  | some rest => wordBefore ['='] rest
  | none => false

/-- A character of a dotted name. -/
def isDottedChar (c : Char) : Bool :=
  isWord c || c == '.'

/-- The line is one call. -/
def isCallLine (line : Text) : Bool :=
  line.head?.any isDottedChar &&
    match after? ['('] (trimStart (line.dropWhile isDottedChar)) with
    | some rest => endsWith rest [')'] || endsWith rest [')', ';']
    | none => false

/-- The trimmed line looks like a statement. -/
def isStatementLine (line : Text) : Bool :=
  isKeywordLine line || isMemberAssignment line || isCallLine line
    || wordBefore [':', '='] line

/-- The trimmed line tells nothing: a comment, a decorator, or part of a longer
construct. -/
def isSilentLine (line : Text) : Bool :=
  line.isEmpty
    || ["//", "/*", "*", "@"].any (fun opening => startsWith line opening.toList)
    || line.getLast?.any ['{', '}', ',', '('].contains

/-- The lines of a source that look like statements, trimmed. -/
def statementLines (source : Text) : List Text :=
  ((lines source).map trim).filter fun line => !isSilentLine line && isStatementLine line

/-- The source terminates its statements. -/
def infersSemicolons (threshold : Scientific) (source : Text) : Bool :=
  let statements := statementLines source
  !statements.isEmpty &&
    ratioExceeds (statements.countP (endsWith · [';'])) statements.length threshold

end UiFormat.Safety

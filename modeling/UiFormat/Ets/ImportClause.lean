/-
# UiFormat.Ets.ImportClause -- taking an import apart

Three forms of import are understood:

* `import 'path'`, for its effects alone;
* `import name, * as name from 'path'`, the first name being optional;
* `import name, { names } from 'path'`, either part being optional.

A name in braces may be renamed with `as`.  Any other import, type imports among
them, is left as it is written.  A path holds no quote of either kind and no
line break.
-/
import UiFormat.Text.Blank
import UiFormat.Text.Word
import UiFormat.Text.Line
import UiFormat.Ets.Node

namespace UiFormat.Ets

open UiFormat.Text

set_option autoImplicit false

/-- A character that can continue an imported name. -/
def isImportChar (c : Char) : Bool :=
  isWord c || c == '$'

/-- The name at the front of a text, and what follows it. -/
def importName? (text : Text) : Option (Text × Text) :=
  match text with
  | [] => none
  | c :: rest =>
      if isIdentStart c then
        some (c :: rest.takeWhile isImportChar, rest.dropWhile isImportChar)
      else none

/-- The text is one name. -/
def isImportName (text : Text) : Bool :=
  match importName? text with
  | some (_, rest) => rest.isEmpty
  | none => false

/-- A character of a module path. -/
def isPathChar (c : Char) : Bool :=
  !(c == '\x22' || c == '\x27' || isBreak c)

/-- The path, when the text is a quoted path with at most a semicolon after
it. -/
def closingPath? (text : Text) : Option Text :=
  match text with
  | [] => none
  | quote :: rest =>
      if quote == '\x22' || quote == '\x27' then
        match rest.dropWhile isPathChar with
        | [] => none
        | c :: tail =>
            if c == quote && (trimStart tail == [] || trimStart tail == [';']) then
              some (rest.takeWhile isPathChar)
            else none
      else none

/-- The path, when the text is the word `from` with the path after it. -/
def fromPath? (text : Text) : Option Text :=
  (after? "from".toList text).bind fun rest => closingPath? (trimStart rest)

/-- The text before the first `from` that starts a word and is followed by
nothing but the path, and the path; `wordBefore` tells that a word character
precedes the text. -/
def splitFrom? (wordBefore : Bool) (text : Text) : Option (Text × Text) :=
  match if wordBefore then none else fromPath? text with
  | some path => some ([], path)
  | none =>
      match text with
      | [] => none
      | c :: rest =>
          (splitFrom? (isWord c) rest).map fun (clause, path) => (c :: clause, path)

/-- The name after the star of a namespace import. -/
def namespaceName? (text : Text) : Option Text := do
  let text ← after? ['*'] text
  let text ← after? "as".toList (trimStart text)
  if text.head?.any isBlank && isImportName (trimStart text) then some (trimStart text) else none

/-- A default name that a comma separates from what follows. -/
def leadingName? (clause : Text) : Option (Text × Text) := do
  let (name, rest) ← importName? clause
  let rest ← after? [','] (trimStart rest)
  return (name, trimStart rest)

/-- The default name and the namespace name of a namespace clause. -/
def namespaceClause? (clause : Text) : Option (Option Text × Text) :=
  match namespaceName? clause with
  | some name => some (none, name)
  | none => do
      let (first, rest) ← leadingName? clause
      let name ← namespaceName? rest
      return (some first, name)

/-- The text between two braces that are the whole of a text. -/
def braced? (text : Text) : Option Text :=
  match text with
  | '{' :: rest =>
      let names := rest.takeWhile fun c => c != '{' && c != '}'
      if rest.drop names.length == ['}'] then some names else none
  | _ => none

/-- The default name and the text between the braces of a clause. -/
def namedClause? (clause : Text) : Option (Option Text × Option Text) :=
  let (first, rest) :=
    match importName? clause with
    | some (name, rest) => (some name, rest)
    | none => (none, clause)
  let rest := trimStart rest
  let rest := trimStart ((after? [','] rest).getD rest)
  if rest.isEmpty then some (first, none)
  else (braced? rest).map fun names => (first, some names)

/-- A name, or a name with another after `as`. -/
def isSpecifier (text : Text) : Bool :=
  match importName? text with
  | none => false
  | some (_, rest) =>
      rest.isEmpty ||
        match after? "as".toList (trimStart rest) with
        | some tail =>
            rest.head?.any isBlank && tail.head?.any isBlank && isImportName (trimStart tail)
        | none => false

/-- The names between braces, without empty entries. -/
def specifiers (text : Text) : List Text :=
  ((pieces ',' text).map fun part => collapseBlanks (trim part)).filter (!·.isEmpty)

/-- The parts of an import clause added to an import whose path is known. -/
def withClause (decl : Import) (clause : Text) : Import :=
  match namespaceClause? clause with
  | some (first, name) =>
      { decl with defaultName := first, namespaceName := some name, structured := true }
  | none =>
      match namedClause? clause with
      | none => decl
      | some (none, none) => decl
      | some (first, none) => { decl with defaultName := first, structured := true }
      | some (first, some names) =>
          if (specifiers names).all isSpecifier then
            { decl with defaultName := first, names := some (specifiers names), structured := true }
          else { decl with defaultName := first }

/-- The import statement `raw`, taken apart when its form is understood. -/
def Import.ofText (raw : Text) : Import :=
  match after? "import".toList (trim raw) with
  | none => { raw }
  | some rest =>
      match closingPath? (trimStart rest) with
      | some path => { raw, source := path, structured := true }
      | none =>
          if !rest.head?.any isBlank then { raw }
          else
            match splitFrom? false (trimStart rest) with
            | none => { raw }
            | some (clause, path) =>
                let clause := trimEnd clause
                if startsWith clause "type ".toList then { raw }
                else withClause { raw, source := path } clause

end UiFormat.Ets

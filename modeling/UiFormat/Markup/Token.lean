/-
# UiFormat.Markup.Token -- the tokens of HML markup

Markup is read in three modes.  Between tags the source is text, comments and
the marks that open a tag or an interpolation; inside a tag it is names, quoted
strings and single characters of unquoted values; inside an interpolation it is
an expression.  The marks themselves enter and leave modes: `<`, `</` and a
double brace enter, `>`, `/>` and the closing double brace leave.

Blanks are passed over inside tags and interpolations, and comments inside
interpolations.  Everything unterminated runs to the end of the source.

`Cursor.next?` reads one token, `Cursor.drain` all that are left.
-/
import UiFormat.Text.Blank
import UiFormat.Text.Digit
import UiFormat.Text.NumberExtent
import UiFormat.Text.Quoted
import UiFormat.Parse.Token

namespace UiFormat.Markup

open UiFormat.Text
open UiFormat.Parse

set_option autoImplicit false

/-- The classes of markup tokens; `eof` closes every token list. -/
inductive Kind where
  | eof
  | text
  | comment
  | tagOpen
  | tagClose
  | tagEnd
  | tagSelfClose
  | name
  | equals
  | string
  | unquotedValue
  | interpStart
  | interpEnd
  | identifier
  | number
  | boolean
  | null
  | undefined
  | operator
  | punctuator
  deriving DecidableEq, Repr

/-- The name diagnostics use. -/
def Kind.label : Kind → String
  | .eof => "EOF"
  | .text => "TEXT"
  | .comment => "COMMENT"
  | .tagOpen => "TAG_OPEN"
  | .tagClose => "TAG_CLOSE"
  | .tagEnd => "TAG_END"
  | .tagSelfClose => "TAG_SELF_CLOSE"
  | .name => "NAME"
  | .equals => "EQUALS"
  | .string => "STRING"
  | .unquotedValue => "UNQUOTED_VALUE"
  | .interpStart => "INTERP_START"
  | .interpEnd => "INTERP_END"
  | .identifier => "IDENTIFIER"
  | .number => "NUMBER"
  | .boolean => "BOOLEAN"
  | .null => "NULL"
  | .undefined => "UNDEFINED"
  | .operator => "OPERATOR"
  | .punctuator => "PUNCTUATOR"

/-- A token of markup.  The text of a comment is its body, without the marks. -/
abbrev Tok := Token Kind

/-- What the source is read as. -/
inductive Mode where
  | data
  | tag
  | interpolation
  deriving DecidableEq, Repr

/-- What a token does to the mode. -/
inductive Shift where
  | stay
  | enter (mode : Mode)
  | leave
  deriving DecidableEq, Repr

/-- The open modes above the outermost one, innermost first.  The outermost
mode reads data and is never left. -/
abbrev Modes := List Mode

namespace Modes

/-- The mode in force. -/
def current : Modes → Mode
  | [] => .data
  | mode :: _ => mode

/-- The modes after a token. -/
def apply (modes : Modes) : Shift → Modes
  | .stay => modes
  | .enter mode => mode :: modes
  | .leave => modes.tail

end Modes

/-- The operators of expressions, longer ones before their own beginnings. -/
def operators : List String := [
  "===", "!==", ">>>",
  "==", "!=", ">=", "<=", "&&", "||", "++", "--",
  "+=", "-=", "*=", "/=", "%=", "=>", "<<", ">>",
  "+", "-", "*", "/", "%", ">", "<", "!", "~", "?", ":", "=",
  "&", "|", "^", "."
]

/-- A character that can start a tag or attribute name. -/
def isNameStart (c : Char) : Bool :=
  c.isAlpha || c == '_' || c == ':' || c == '-'

/-- A character that can continue a tag or attribute name. -/
def isNameChar (c : Char) : Bool :=
  c.isAlphanum || c == '_' || c == ':' || c == '-' || c == '.'

/-- A character that can start an identifier. -/
def isIdentStart (c : Char) : Bool :=
  c.isAlpha || c == '_' || c == '$'

/-- A character that can continue an identifier. -/
def isIdentChar (c : Char) : Bool :=
  c.isAlphanum || c == '_' || c == '$'

/-- The kind of a word of an expression. -/
def wordKind (word : Text) : Kind :=
  if word == "true".toList || word == "false".toList then .boolean
  else if word == "null".toList then .null
  else if word == "undefined".toList then .undefined
  else .identifier

/-- Length of the text up to the next tag or interpolation. -/
def textLength : Text → Nat
  | [] => 0
  | c :: rest =>
      if c = '<' || (c = '{' && startsWith rest ['{']) then 0 else textLength rest + 1

/-- Length of the blanks and comments in front of a token of an expression. -/
def expressionGap : Text → Nat
  | [] => 0
  | c :: rest =>
      if isPlainBlank c then expressionGap rest + 1
      else if c = '/' && startsWith rest ['/'] then
        let extra := runLength (· != '\n') rest
        expressionGap (rest.drop extra) + extra + 1
      else if c = '/' && startsWith rest ['*'] then
        let extra := lengthThrough "*/".toList (rest.drop 1) + 1
        expressionGap (rest.drop extra) + extra + 1
      else 0
termination_by text => text.length
decreasing_by all_goals simp only [List.length_drop, List.length_cons]; omega

/-- How many characters a mode passes over in front of a token. -/
def Mode.gap (mode : Mode) (text : Text) : Nat :=
  match mode with
  | .data => 0
  | .tag => runLength isPlainBlank text
  | .interpolation => expressionGap text

/-- A token at the front of the text: its kind, how many characters it takes
besides its first, and what it does to the mode. -/
structure Lexeme where
  kind : Kind
  extra : Nat
  shift : Shift := .stay
  deriving DecidableEq, Repr

/-- The token at the front of `c :: rest` between tags. -/
def dataLexeme (c : Char) (rest : Text) : Lexeme :=
  if c = '<' && startsWith rest "!--".toList then
    { kind := .comment, extra := lengthThrough "-->".toList (rest.drop 3) + 3 }
  else if c = '{' && startsWith rest ['{'] then
    { kind := .interpStart, extra := 1, shift := .enter .interpolation }
  else if c = '<' && startsWith rest ['/'] then
    { kind := .tagClose, extra := 1, shift := .enter .tag }
  else if c = '<' then { kind := .tagOpen, extra := 0, shift := .enter .tag }
  else { kind := .text, extra := textLength rest }

/-- The token at the front of `c :: rest` inside a tag. -/
def tagLexeme (c : Char) (rest : Text) : Lexeme :=
  if c = '/' && startsWith rest ['>'] then
    { kind := .tagSelfClose, extra := 1, shift := .leave }
  else if c = '>' then { kind := .tagEnd, extra := 0, shift := .leave }
  else if c = '{' && startsWith rest ['{'] then
    { kind := .interpStart, extra := 1, shift := .enter .interpolation }
  else if c = '=' then { kind := .equals, extra := 0 }
  else if c = '\x22' || c = '\x27' then { kind := .string, extra := stringExtent c rest }
  else if isNameStart c then { kind := .name, extra := runLength isNameChar rest }
  else { kind := .unquotedValue, extra := 0 }

/-- The token at the front of `c :: rest` inside an interpolation. -/
def expressionLexeme (c : Char) (rest : Text) : Lexeme :=
  if c = '}' && startsWith rest ['}'] then
    { kind := .interpEnd, extra := 1, shift := .leave }
  else if isIdentStart c then
    let extra := runLength isIdentChar rest
    { kind := wordKind (c :: rest.take extra), extra }
  else if isDigit c || (c = '.' && rest.head?.any isDigit) then
    { kind := .number, extra := numberLength isDigit (c :: rest) - 1 }
  else if c = '\x22' || c = '\x27' then { kind := .string, extra := stringExtent c rest }
  else
    match operators.find? fun op => startsWith (c :: rest) op.toList with
    | some op => { kind := .operator, extra := op.length - 1 }
    | none => { kind := .punctuator, extra := 0 }

/-- The token at the front of `c :: rest`. -/
def Mode.lexeme (mode : Mode) (c : Char) (rest : Text) : Lexeme :=
  match mode with
  | .data => dataLexeme c rest
  | .tag => tagLexeme c rest
  | .interpolation => expressionLexeme c rest

/-- The text a token carries: a comment drops its marks. -/
def tokenText (kind : Kind) (source : Text) : Text :=
  match kind with
  | .comment =>
      match cut? "-->".toList (source.drop 4) with
      | some (body, _) => body
      | none => source.drop 4
  | _ => source

/-- A place in a source: what is left of it, where that starts, and the open
modes. -/
structure Cursor where
  rest : Text
  place : Position
  modes : Modes
  deriving DecidableEq, Repr

namespace Cursor

/-- The beginning of a source. -/
def start (source : Text) : Cursor :=
  { rest := source, place := .start, modes := [] }

/-- The cursor after what its mode passes over. -/
def skipGap (k : Cursor) : Cursor :=
  let gap := k.modes.current.gap k.rest
  { k with rest := k.rest.drop gap, place := k.place.past (k.rest.take gap) }

/-- The next token and the cursor after it; `none` when only the end is left. -/
def next? (k : Cursor) : Option (Tok × Cursor) :=
  let k := k.skipGap
  match k.rest with
  | [] => none
  | c :: rest =>
      let here := k.modes.current.lexeme c rest
      let source := c :: rest.take here.extra
      some (Token.at k.place here.kind (tokenText here.kind source) source.length,
        { rest := rest.drop here.extra
          place := k.place.past source
          modes := k.modes.apply here.shift })

/-- The closing token of a source whose end is all that is left. -/
def closing (k : Cursor) : Tok :=
  Token.at k.skipGap.place .eof [] 0

/-- The next token, the closing one included, and the cursor after it. -/
def scan (k : Cursor) : Tok × Cursor :=
  k.next?.getD (k.closing, k.skipGap)

/-- Reading a token shortens what is left. -/
theorem next?_rest_lt {k k' : Cursor} {t : Tok} (h : k.next? = some (t, k')) :
    k'.rest.length < k.rest.length := by
  have shorter : k.skipGap.rest.length ≤ k.rest.length := by
    simp only [skipGap, List.length_drop]; omega
  simp only [next?] at h
  split at h
  · exact absurd h (by simp)
  · rename_i c rest split
    simp only [Option.some.injEq, Prod.mk.injEq] at h
    rw [← h.2]
    simp only [split, List.length_cons] at shorter
    simp only [List.length_drop]
    omega

/-- All tokens that are left, the closing token after them, and the cursor at
the end. -/
def drain (k : Cursor) : List Tok × Tok × Cursor :=
  match _h : k.next? with
  | none => ([], k.closing, k.skipGap)
  | some (t, next) =>
      let (tokens, last) := drain next
      (t :: tokens, last)
termination_by k.rest.length
decreasing_by exact next?_rest_lt (by assumption)

end Cursor

/-- The tokens of a source without the closing `eof`. -/
def lexemes (source : Text) : List Tok :=
  (Cursor.start source).drain.1

/-- The token after the last character. -/
def endToken (source : Text) : Tok :=
  (Cursor.start source).drain.2.1

/-- All tokens of a source, the last being its only `eof`. -/
def tokenize (source : Text) : List Tok :=
  lexemes source ++ [endToken source]

end UiFormat.Markup

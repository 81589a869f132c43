/-
# UiFormat.Ets.Token -- the tokens of ETS source

Tokens tile the source: blanks, line breaks and comments are tokens like all
others, so the text of any stretch of tokens is the source between its ends.
Every character belongs to some token; one that fits no class is a punctuator.

* A line break is one token, whether written CR, LF or CRLF.
* A block comment is a doc comment when it opens with a second star that is not
  already its closing mark.
* A slash starts a regular expression only where no operand stands before it,
  and only when a closing slash follows on the same line.
* Strings, template literals and block comments that are never closed run to
  the end of the source.

`lexeme` classifies the token at the front of the text; `tokensFrom` repeats it.
-/
import UiFormat.Text.NumberExtent
import UiFormat.Text.Quoted
import UiFormat.Text.Line
import UiFormat.Parse.Token

namespace UiFormat.Ets

open UiFormat.Text
open UiFormat.Parse

set_option autoImplicit false

/-- The classes of ETS tokens; `eof` closes every token list. -/
inductive Kind where
  | whitespace
  | newline
  | comment
  | blockComment
  | docComment
  | string
  | template
  | number
  | identifier
  | keyword
  | decorator
  | operator
  | punctuator
  | regexp
  | eof
  deriving DecidableEq, Repr

namespace Kind

/-- Blanks and line breaks. -/
def isTrivia : Kind → Bool
  | whitespace | newline => true
  | _ => false

/-- Comments of all three forms. -/
def isComment : Kind → Bool
  | comment | blockComment | docComment => true
  | _ => false

/-- Neither blank nor comment. -/
def isSignificant (k : Kind) : Bool :=
  !k.isTrivia && !k.isComment

/-- The name diagnostics use. -/
def name : Kind → String
  | whitespace => "WHITESPACE"
  | newline => "NEWLINE"
  | comment => "COMMENT"
  | blockComment => "BLOCK_COMMENT"
  | docComment => "DOC_COMMENT"
  | string => "STRING"
  | template => "TEMPLATE_STRING"
  | number => "NUMBER"
  | identifier => "IDENTIFIER"
  | keyword => "KEYWORD"
  | decorator => "DECORATOR"
  | operator => "OPERATOR"
  | punctuator => "PUNCTUATOR"
  | regexp => "REGEXP"
  | eof => "EOF"

end Kind

/-- A token of ETS source. -/
abbrev Tok := Token Kind

/-- The reserved and contextual words. -/
def keywords : List String := [
  "break", "case", "catch", "class", "const", "continue", "debugger", "default",
  "delete", "do", "else", "enum", "export", "extends", "false", "finally", "for",
  "function", "if", "import", "in", "instanceof", "interface", "let", "new", "null",
  "return", "static", "struct", "super", "switch", "this", "throw", "true", "try",
  "typeof", "undefined", "var", "void", "while", "with", "as", "implements",
  "private", "protected", "public", "readonly", "type", "from", "of", "async",
  "await", "abstract", "declare", "namespace", "module", "get", "set", "is",
  "keyof", "infer", "never", "unknown", "any", "lazy"
]

/-- The operators, longer ones before their own beginnings. -/
def operators : List String := [
  ">>>=",
  "===", "!==", ">>>", "<<=", ">>=", "**=", "&&=", "||=", "??=",
  "<=", ">=", "==", "!=", "++", "--", "<<", ">>", "&&", "||", "??",
  "+=", "-=", "*=", "/=", "%=", "&=", "|=", "^=", "=>", "**", "?.",
  "+", "-", "*", "/", "%", "<", ">", "&", "|", "^", "~", "!", "?", ":", "="
]

/-- Keywords that are operands, so that a slash after them divides. -/
def operandKeywords : List String :=
  ["this", "super", "true", "false", "null", "undefined"]

/-- The text is one of the words. -/
def isOneOf (words : List String) (text : Text) : Bool :=
  words.any fun word => word.toList == text

/-- A blank that is no line break. -/
def isInlineBlank (c : Char) : Bool :=
  c == ' ' || c == '\t' || c == '\x0c' || c == '\x0b'

/-- A character that can start an identifier. -/
def isIdentStart (c : Char) : Bool :=
  c.isAlpha || c == '_' || c == '$'

/-- A character that can continue an identifier. -/
def isIdentChar (c : Char) : Bool :=
  c.isAlphanum || c == '_' || c == '$'

/-- Length of a regular expression body up to its closing slash, which does not
count inside a character class; `none` when the line ends first. -/
def regexpLength? (inClass : Bool) : Text → Option Nat
  | [] => none
  | '\\' :: text =>
      match text with
      | [] => none
      | _ :: rest => (regexpLength? inClass rest).map (· + 2)
  | c :: text =>
      if isBreak c then none
      else if c = '/' && !inClass then some 1
      else if c = '[' then (regexpLength? true text).map (· + 1)
      else if c = ']' then (regexpLength? false text).map (· + 1)
      else (regexpLength? inClass text).map (· + 1)

/-- A regular expression with its flags, after its opening slash. -/
def regexpExtent? (text : Text) : Option Nat :=
  (regexpLength? false text).map fun n => n + runLength isIdentChar (text.drop n)

/-- The operator at the front of the text. -/
def operator? (text : Text) : Option String :=
  operators.find? fun op => startsWith text op.toList

/-- Operators, the spread mark, single punctuators and unknown characters. -/
def symbol (c : Char) (rest : Text) : Kind × Nat :=
  match operator? (c :: rest) with
  | some op => (.operator, op.length - 1)
  | none => (.punctuator, if startsWith (c :: rest) "...".toList then 2 else 0)

/-- A slash that opens no comment. -/
def slash (operandBefore : Bool) (rest : Text) : Kind × Nat :=
  match if operandBefore then none else regexpExtent? rest with
  | some extent => (.regexp, extent)
  | none => symbol '/' rest

/-- The length of a number counted after its first character, with the mark of
a big integer. -/
def numberExtent (c : Char) (rest : Text) : Nat :=
  let n := numberLength Char.isDigit (c :: rest)
  n - 1 + if startsWith (rest.drop (n - 1)) ['n'] then 1 else 0

/-- The token at the front of `c :: rest`: its kind, and how many characters it
takes besides `c`. -/
def lexeme (operandBefore : Bool) (c : Char) (rest : Text) : Kind × Nat :=
  if c = '\n' then (.newline, 0)
  else if c = '\r' then (.newline, if startsWith rest ['\n'] then 1 else 0)
  else if isInlineBlank c then (.whitespace, runLength isInlineBlank rest)
  else if c = '/' && startsWith rest ['/'] then (.comment, runLength (!isBreak ·) rest)
  else if c = '/' && startsWith rest ['*'] then
    let isDoc := startsWith rest "**".toList && !startsWith rest "**/".toList
    (if isDoc then .docComment else .blockComment, lengthThrough "*/".toList (rest.drop 1) + 1)
  else if c = '@' then (.decorator, runLength isIdentChar rest)
  else if c = '\x22' || c = '\x27' then (.string, stringExtent c rest)
  else if c = '\x60' then (.template, templateExtent 0 rest)
  else if c.isDigit || (c = '.' && (rest.head?.any Char.isDigit)) then
    (.number, numberExtent c rest)
  else if isIdentStart c then
    let extra := runLength isIdentChar rest
    (if isOneOf keywords (c :: rest.take extra) then .keyword else .identifier, extra)
  else if c = '/' then slash operandBefore rest
  else symbol c rest

/-- An operand ends with this token, so that a slash after it divides. -/
def endsOperand (kind : Kind) (text : Text) : Bool :=
  match kind with
  | .identifier | .number | .string | .template | .regexp => true
  | .keyword => isOneOf operandKeywords text
  | .punctuator => isOneOf [")", "]"] text
  | _ => false

/-- The tokens of `text`, which starts at `p`, without the closing `eof`. -/
def tokensFrom (p : Position) (operandBefore : Bool) : Text → List Tok
  | [] => []
  | c :: rest =>
      let (kind, extra) := lexeme operandBefore c rest
      let text := c :: rest.take extra
      let operand := if kind.isSignificant then endsOperand kind text else operandBefore
      Token.at p kind text text.length :: tokensFrom (p.pastLines text) operand (rest.drop extra)
termination_by text => text.length
decreasing_by simp only [List.length_drop, List.length_cons]; omega

/-- The tokens of a source without the closing `eof`. -/
def lexemes (source : Text) : List Tok :=
  tokensFrom .start false source

/-- The token after the last character. -/
def endToken (source : Text) : Tok :=
  Token.at (Position.start.pastLines source) .eof [] 0

/-- All tokens of a source, the last being its only `eof`. -/
def tokenize (source : Text) : List Tok :=
  lexemes source ++ [endToken source]

end UiFormat.Ets

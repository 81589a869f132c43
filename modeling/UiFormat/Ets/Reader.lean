/-
# UiFormat.Ets.Reader -- reading stretches of ETS source

Bodies, initialisers and types are read as source text: how far such a stretch
reaches is a count of tokens, computed from the tokens ahead.

* A bracket reaches to its partner.  Where `>` closes, `>>` and `>>>` close two
  and three levels.
* An expression ends outside all brackets at a semicolon, a comment, a closing
  bracket, a comma where commas separate, or a line break that it does not
  continue across: it continues after an operator, and before a line that starts
  with a member access or certain operators.
* A type ends in the same way, and also at `=`, at a brace that opens a body, and
  at a word that starts another clause.

Blanks and comments at the end of a stretch are not part of its text.
-/
import UiFormat.Parse.State
import UiFormat.Ets.Problem

namespace UiFormat.Ets

open UiFormat.Text
open UiFormat.Parse

set_option autoImplicit false

/-- A parser over ETS tokens.  The readers themselves are written for any monad `m` with
its state. -/
abbrev EtsParser := Parser Kind Problem

variable {m : Type → Type} [Monad m] [MonadState (State Kind Problem) m]

/-! ## Tokens -/

/-- An operator or punctuator. -/
def isSymbolToken (t : Tok) : Bool :=
  t.kind == .punctuator || t.kind == .operator

/-- The operator or punctuator `symbol`. -/
def isSymbol (symbol : String) (t : Tok) : Bool :=
  isSymbolToken t && t.text == symbol.toList

/-- One of the operators and punctuators `symbols`. -/
def isSymbolOf (symbols : List String) (t : Tok) : Bool :=
  isSymbolToken t && isOneOf symbols t.text

/-- A keyword or identifier. -/
def isNameToken (t : Tok) : Bool :=
  t.kind == .identifier || t.kind == .keyword

/-- One of the words `words`. -/
def isWordOf (words : List String) (t : Tok) : Bool :=
  isNameToken t && isOneOf words t.text

/-- A blank or a line break. -/
def isTriviaToken (t : Tok) : Bool :=
  t.kind.isTrivia

/-- A comment. -/
def isCommentToken (t : Tok) : Bool :=
  t.kind.isComment

/-- A blank, a line break or a comment. -/
def isSpaceToken (t : Tok) : Bool :=
  !t.kind.isSignificant

/-- The first token that is neither blank nor line break. -/
def nextSignificant (closing : Tok) (tokens : List Tok) : Tok :=
  (tokens.dropWhile isTriviaToken).headD closing

/-! ## Navigation -/

/-- Reads over blanks and line breaks and counts the line breaks. -/
def skipTrivia : m Nat := do
  let rest ← remaining
  skipWhile isTriviaToken
  return (rest.takeWhile isTriviaToken).countP (·.kind == .newline)

/-- Reads over blanks, line breaks and comments. -/
def skipSpace : m Unit :=
  skipWhile isSpaceToken

/-- Reads over blanks. -/
def skipInlineSpace : m Unit :=
  skipWhile (·.kind == .whitespace)

/-- Reads `count` tokens. -/
def takeTokens (count : Nat) : m (List Tok) := do
  let rest ← remaining
  continueAt (rest.drop count)
  return rest.take count

/-- The token can end a line as its comment. -/
def isTrailingComment (t : Tok) : Bool :=
  t.kind == .comment || (t.kind == .blockComment && !t.text.any isBreak)

/-- Reads the comment that closes the current line, if there is one. -/
def trailingComment? : m (Option Text) := do
  match (← remaining).dropWhile (·.kind == .whitespace) with
  | [] => return none
  | t :: rest =>
      if isTrailingComment t then
        continueAt rest
        return some t.text
      else return none

/-- Reads a semicolon or comma on the same line. -/
def optionalTerminator : m Unit := do
  match (← remaining).dropWhile (·.kind == .whitespace) with
  | [] => return
  | t :: rest => if isSymbolOf [";", ","] t then continueAt rest

/-! ## Brackets -/

/-- The open levels after a token. -/
def depthAfter (opening closing : Text) (depth : Nat) (t : Tok) : Nat :=
  if !isSymbolToken t then depth
  else if t.text == opening then depth + 1
  else if closing == ['>'] && isOneOf [">", ">>", ">>>"] t.text then depth - t.text.length
  else if t.text == closing then depth - 1
  else depth

/-- Tokens up to the one after which no level is open. -/
def balancedCount (opening closing : Text) (depth : Nat) : List Tok → Nat
  | [] => 0
  | t :: rest =>
      let depth := depthAfter opening closing depth t
      if depth = 0 then 1 else balancedCount opening closing depth rest + 1

/-- Reads from the opening bracket that comes next to its partner; without one,
to the end. -/
def readBalanced (opening closing : Text) : m Text := do
  let rest ← remaining
  let tokens ← takeTokens (balancedCount opening closing 0 rest)
  return textOf tokens

/-- Reads a body between braces and returns the text inside them. -/
def readBody (what : Text) : m Text := do
  let start ← current
  let text ← readBalanced ['{'] ['}']
  if endsWith text ['}'] && 2 ≤ text.length then return withoutEnds text
  reportAt start (.unterminatedBody what)
  return text.drop 1

/-! ## Expressions -/

/-- The stretch goes on after a line break, `last` being its last token so far
and `tokens` what is ahead. -/
def continuesAfter (closing : Tok) (last : Option Tok) (tokens : List Tok) : Bool :=
  match last with
  | none => true
  | some last =>
      (last.kind == .operator && !isOneOf ["++", "--"] last.text) ||
        isSymbolOf [".", "?.", "?", ":", "||", "&&", "??", "|", "&"]
          (nextSignificant closing tokens)

/-- The last significant token after `t`. -/
def lastAfter (last : Option Tok) (t : Tok) : Option Tok :=
  if t.kind.isSignificant then some t else last

/-- An expression ends in front of `t`, outside all brackets. -/
def endsBefore (stopAtComma : Bool) (closing : Tok) (last : Option Tok) (t : Tok)
    (rest : List Tok) : Bool :=
  (t.kind == .newline && !continuesAfter closing last (t :: rest)) || isCommentToken t
    || isSymbol ";" t || (stopAtComma && isSymbol "," t)

/-- Tokens of the expression ahead. -/
def expressionCount (stopAtComma : Bool) (closing : Tok) (depth : Nat) (last : Option Tok) :
    List Tok → Nat
  | [] => 0
  | t :: rest =>
      if depth = 0 && endsBefore stopAtComma closing last t rest then 0
      else if isSymbolOf ["(", "[", "\x7b"] t then
        expressionCount stopAtComma closing (depth + 1) (lastAfter last t) rest + 1
      else if isSymbolOf [")", "]", "\x7d"] t then
        match depth with
        | 0 => 0
        | depth + 1 => expressionCount stopAtComma closing depth (lastAfter last t) rest + 1
      else expressionCount stopAtComma closing depth (lastAfter last t) rest + 1

/-- The text of a stretch of tokens without the blanks and comments at its
end. -/
def trimmedText (tokens : List Tok) : Text :=
  textOf (dropEndWhile isSpaceToken tokens)

/-- Reads an expression. -/
def readExpression (stopAtComma : Bool) : m Text := do
  let _ ← skipTrivia
  let s ← get
  let tokens ← takeTokens (expressionCount stopAtComma s.closing 0 none s.rest)
  return trimmedText tokens

/-- Reads a statement, with the semicolon that closes it on the same line. -/
def readStatement : m Text := do
  let start ← remaining
  let text ← readExpression false
  match (← remaining).dropWhile (·.kind == .whitespace) with
  | [] => return text
  | t :: rest =>
      if isSymbol ";" t then
        continueAt rest
        return textOf (start.take (start.length - rest.length))
      else return text

/-! ## Types -/

/-- Symbols after which a type goes on. -/
def isTypeJoiner (t : Tok) : Bool :=
  isSymbolOf ["|", "&", "=>", ":", "<", "?"] t

/-- A type goes on across a line break. -/
def typeContinues (closing : Tok) (last : Option Tok) (tokens : List Tok) : Bool :=
  match last with
  | none => true
  | some last => isTypeJoiner last || isSymbolOf ["|", "&"] (nextSignificant closing tokens)

/-- A brace after `last` opens a body rather than an object type. -/
def opensBody (last : Option Tok) : Bool :=
  match last with
  | none => false
  | some last => !isTypeJoiner last

/-- A type ends in front of `t`, outside all brackets. -/
def typeEndsBefore (stopWords : List Text) (closing : Tok) (last : Option Tok) (t : Tok)
    (rest : List Tok) : Bool :=
  (t.kind == .newline && !typeContinues closing last (t :: rest)) || isCommentToken t
    || isSymbolOf [";", ","] t || (t.kind == .operator && t.text == ['='])
    || (t.kind == .keyword && stopWords.contains t.text)
    || (isSymbol "\x7b" t && opensBody last)

/-- The levels a closing token of a type closes. -/
def closedLevels (t : Tok) : Nat :=
  if startsWith t.text ['>'] then t.text.length else 1

/-- Tokens of the type ahead. -/
def typeCount (stopWords : List Text) (closing : Tok) (depth : Nat) (last : Option Tok) :
    List Tok → Nat
  | [] => 0
  | t :: rest =>
      if depth = 0 && typeEndsBefore stopWords closing last t rest then 0
      else if isSymbolOf ["(", "[", "\x7b", "<"] t then
        typeCount stopWords closing (depth + 1) (lastAfter last t) rest + 1
      else if isSymbolOf [")", "]", "\x7d", ">", ">>", ">>>"] t then
        if depth = 0 then 0
        else typeCount stopWords closing (depth - closedLevels t) (lastAfter last t) rest + 1
      else typeCount stopWords closing depth (lastAfter last t) rest + 1

/-- Reads a type. -/
def readType (stopWords : List Text) : m Text := do
  let _ ← skipTrivia
  let s ← get
  let tokens ← takeTokens (typeCount stopWords s.closing 0 none s.rest)
  return trimmedText tokens

/-- Reads a type; an empty one is none. -/
def readType? : m (Option Text) := do
  let text ← readType []
  return if text.isEmpty then none else some text

end UiFormat.Ets

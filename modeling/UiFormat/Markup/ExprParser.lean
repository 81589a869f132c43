/-
# UiFormat.Markup.ExprParser -- reading expressions

The grammar has one level per group of operators, from assignment down to atoms.
Each level is a parser built from `nested`, the parser for a complete expression
inside brackets, branches and right sides; `expressionAt` ties the knot and
counts how much deeper it may go.

An expression that cannot be read is reported and replaced by a hole, and the
mark that ends the interpolation is never consumed here.

The levels are written for any monad `m` that keeps a parser's state; `MarkupParser` is
the plain one.
-/
import UiFormat.Parse.State
import UiFormat.Markup.Expr
import UiFormat.Markup.Problem

namespace UiFormat.Markup

open UiFormat.Text
open UiFormat.Parse

set_option autoImplicit false

/-- A parser over markup tokens. -/
abbrev MarkupParser := Parser Kind Problem

/-- The operator `op`. -/
def isOperator (op : String) (t : Tok) : Bool :=
  t.kind == .operator && t.text == op.toList

/-- One of the operators `ops`. -/
def isOperatorOf (ops : List String) (t : Tok) : Bool :=
  t.kind == .operator && ops.any fun op => op.toList == t.text

/-- The punctuator `c`. -/
def isPunctuator (c : Char) (t : Tok) : Bool :=
  t.kind == .punctuator && t.text == [c]

/-- The end of the interpolation or of the source. -/
def endsExpression (t : Tok) : Bool :=
  t.kind == .interpEnd || t.kind == .eof

variable {m : Type → Type} [Monad m] [MonadState (State Kind Problem) m]

/-- Reads the punctuator `c`, or reports that it is missing. -/
def expectPunctuator (c : Char) : m Unit := do
  if ← looking (isPunctuator c) then
    let _ ← advance
  else report (.expectedPunctuator c)

/-- Reads the operator `c`, or reports that it is missing. -/
def expectOperator (c : Char) : m Unit := do
  if ← looking (isOperator (String.singleton c)) then
    let _ ← advance
  else report (.expectedOperator c)

/-- The kind of literal a token is. -/
def literalKind? : Kind → Option LiteralKind
  | .number => some .number
  | .string => some .string
  | .boolean => some .boolean
  | .null => some .null
  | .undefined => some .undefined
  | _ => none

/-- The token is a name. -/
def isNameToken (t : Tok) : Bool :=
  t.kind == .identifier || t.kind == .name

/-- One item of a list that `closing` ends; only an item with a comma after it
can be followed by another. -/
def listRound {α : Type} (closing : Char) (what : String) (item : m α) :
    m (Round α) := do
  if ← looking (isPunctuator closing) then return .stop
  if ← looking endsExpression then
    report (.unterminated what)
    return .stop
  let value ← item
  if ← looking (isPunctuator ',') then
    let _ ← advance
    return .next value
  return .last value

/-- A comma separated list between two brackets, the first of which comes next.
A comma may stand after the last item. -/
def listBetween {α : Type} (opening closing : Char) (what : String) (item : m α) :
    m (List α) := do
  expectPunctuator opening
  let items ← collect (listRound closing what item)
  expectPunctuator closing
  return items

/-- Reports the next token and reads over it, unless it ends the expression. -/
def rejectToken (problem : Problem) : m Unit := do
  report problem
  if !(← looking endsExpression) then
    let _ ← advance

/-- The key of an object entry. -/
def objectKey (nested : m Expr) : m Key := do
  let t ← current
  if isNameToken t then
    let _ ← advance
    return .name t.text
  else if isPunctuator '[' t then
    let _ ← advance
    let body ← nested
    expectPunctuator ']'
    return .computed body
  else
    match t.kind with
    | .string =>
        let _ ← advance
        return .literal .string t.text
    | .number =>
        let _ ← advance
        return .literal .number t.text
    | .boolean =>
        let _ ← advance
        return .literal .boolean t.text
    | _ =>
        rejectToken .invalidObjectKey
        return .name ['_']

/-- An entry of an object. -/
def objectEntry (nested : m Expr) : m Entry := do
  let key ← objectKey nested
  if ← looking (isOperator ":") then
    let _ ← advance
    let value ← nested
    return .pair key value
  return .shorthand key

/-- Names, literals, groupings, arrays and objects. -/
def primary (nested : m Expr) : m Expr := do
  let t ← current
  if isNameToken t then
    let _ ← advance
    return .identifier t.text
  else if isPunctuator '(' t then
    let _ ← advance
    let body ← nested
    expectPunctuator ')'
    return .grouping body
  else if isPunctuator '[' t then
    let items ← listBetween '[' ']' "array literal" nested
    return .array items
  else if isPunctuator '{' t then
    let entries ← listBetween '{' '}' "object literal" (objectEntry nested)
    return .object entries
  else
    match literalKind? t.kind with
    | some kind =>
        let _ ← advance
        return .literal kind t.text
    | none =>
        rejectToken (.unexpectedToken t.text)
        return .hole

/-- A token that can name a member after a point. -/
def isMemberName (t : Tok) : Bool :=
  isNameToken t || t.kind == .boolean || t.kind == .null || t.kind == .undefined

/-- One member access, index or call after `value`; `none` when there is none. -/
def postfixRound (nested : m Expr) (value : Expr) : m (Option Expr) := do
  let t ← current
  if isOperator "." t then
    let _ ← advance
    let name ← current
    if isMemberName name then
      let _ ← advance
      return some (.member value name.text)
    report .expectedPropertyName
    return none
  else if isPunctuator '[' t then
    let _ ← advance
    let index ← nested
    expectPunctuator ']'
    return some (.computedMember value index)
  else if isPunctuator '(' t then
    let arguments ← listBetween '(' ')' "argument list" nested
    return some (.call value arguments)
  else return none

/-- An atom with its member accesses, indexes and calls. -/
def postfixed (nested : m Expr) : m Expr := do
  let atom ← primary nested
  refine (postfixRound nested) atom

/-- Unary operators in front of an operand. -/
def unary (nested : m Expr) : m Expr := do
  let rest ← remaining
  let signs := rest.takeWhile (isOperatorOf ["+", "-", "!", "~"])
  skipWhile (isOperatorOf ["+", "-", "!", "~"])
  let operand ← postfixed nested
  return signs.foldr (fun sign e => .unary sign.text e) operand

/-- One operator among `ops` and its right operand, joined to `left`. -/
def binaryRound (build : Expr → Text → Expr → Expr) (ops : List String)
    (operand : m Expr) (left : Expr) : m (Option Expr) := do
  if ← looking (isOperatorOf ops) then
    let op ← advance
    let right ← operand
    return some (build left op.text right)
  return none

/-- Operands separated by operators of one level, grouped to the left. -/
def leftAssociative (build : Expr → Text → Expr → Expr) (ops : List String)
    (operand : m Expr) : m Expr := do
  let first ← operand
  refine (binaryRound build ops operand) first

/-- Products. -/
def multiplicative (nested : m Expr) : m Expr :=
  leftAssociative .binary ["*", "/", "%"] (unary nested)

/-- Sums. -/
def additive (nested : m Expr) : m Expr :=
  leftAssociative .binary ["+", "-"] (multiplicative nested)

/-- Comparisons by order. -/
def relational (nested : m Expr) : m Expr :=
  leftAssociative .binary ["<", ">", "<=", ">="] (additive nested)

/-- Comparisons for equality. -/
def equality (nested : m Expr) : m Expr :=
  leftAssociative .binary ["==", "!=", "===", "!=="] (relational nested)

/-- Conjunctions. -/
def logicalAnd (nested : m Expr) : m Expr :=
  leftAssociative .logical ["&&"] (equality nested)

/-- Disjunctions. -/
def logicalOr (nested : m Expr) : m Expr :=
  leftAssociative .logical ["||"] (logicalAnd nested)

/-- A disjunction, or a choice between two expressions. -/
def conditional (nested : m Expr) : m Expr := do
  let test ← logicalOr nested
  if ← looking (isOperator "?") then
    let _ ← advance
    let consequent ← nested
    expectOperator ':'
    let alternate ← nested
    return .conditional test consequent alternate
  return test

/-- A conditional, or an assignment to one. -/
def assignment (nested : m Expr) : m Expr := do
  let target ← conditional nested
  if ← looking (isOperatorOf ["=", "+=", "-=", "*=", "/=", "%="]) then
    let op ← advance
    let value ← nested
    return .assignment target op.text value
  return target

/-- A complete expression inside which `levels` more may be nested, itself
included. -/
def expressionAt : (levels : Nat) → m Expr
  | 0 => do
      if ← looking endsExpression then report .expectedExpression
      else
        report .expressionTooDeep
        skipWhile (·.kind != .interpEnd)
      return .hole
  | levels + 1 => do
      if ← looking endsExpression then
        report .expectedExpression
        return .hole
      else assignment (expressionAt levels)

/-- The expression of an interpolation; a tree beyond the height limit is
reported. -/
def expression : m Expr := do
  let e ← expressionAt expressionLimit
  if heightLimit < e.height then report .treeTooHigh
  return e

end UiFormat.Markup

/-
# UiFormat.Parse.State -- reading a token list

A parser works on the tokens that are left, in front of a closing token that is
never consumed: reading past the end gives the closing token again and again.
Going back to an earlier place is keeping the list that was left there.

Parsers do not fail.  They report an error at a token and choose how to go on.

The operations are written for any monad `m` that keeps such a state, so that what is
put together from them can be run in different ones.  `Parser` is the plain one.
-/
import UiFormat.Parse.Token
import UiFormat.Parse.Loop

namespace UiFormat.Parse

open UiFormat.Text

set_option autoImplicit false

/-- The tokens left, the closing token after them, and the errors reported so
far, oldest first. -/
structure State (κ ε : Type) where
  rest : List (Token κ)
  closing : Token κ
  errors : List (ParseError κ ε)
  deriving Repr

/-- The state in front of a token list. -/
def State.start {κ ε : Type} (tokens : List (Token κ)) (closing : Token κ) : State κ ε :=
  { rest := tokens, closing, errors := [] }

/-- The token to be read next. -/
def State.current {κ ε : Type} (s : State κ ε) : Token κ :=
  s.rest.headD s.closing

/-- A computation that reads tokens and reports errors, and does nothing else. -/
abbrev Parser (κ ε : Type) := StateM (State κ ε)

variable {m : Type → Type} {κ ε α : Type} [Monad m] [MonadState (State κ ε) m]

/-- The token to be read next. -/
def current : m (Token κ) := do
  return (← get).current

/-- The tokens left. -/
def remaining : m (List (Token κ)) := do
  return (← get).rest

/-- Continues with `rest`, a list that was left at some earlier or later
place. -/
def continueAt (rest : List (Token κ)) : m Unit :=
  modify fun s => { s with rest }

/-- All tokens have been read. -/
def atEnd : m Bool := do
  return (← get).rest.isEmpty

/-- Reads one token; at the end the closing token, which stays. -/
def advance : m (Token κ) := do
  let t ← current
  modify fun s => { s with rest := s.rest.tail }
  return t

/-- The next token satisfies `p`. -/
def looking (p : Token κ → Bool) : m Bool := do
  return p (← current)

/-- Reads over the tokens that satisfy `p`. -/
def skipWhile (p : Token κ → Bool) : m Unit :=
  modify fun s => { s with rest := s.rest.dropWhile p }

/-- Reports an error at a token. -/
def reportAt (token : Token κ) (cause : ε) : m Unit :=
  modify fun s => { s with errors := s.errors ++ [{ cause, token }] }

/-- Reports an error at the next token. -/
def report (cause : ε) : m Unit := do
  reportAt (← current) cause

/-- Runs rounds until one ends the loop. -/
def collect (round : m (Round α)) : m (List α) :=
  collectBy (·.rest.length) round

/-- Replaces a value round by round until a round gives none. -/
def refine (round : α → m (Option α)) (value : α) : m α :=
  refineBy (·.rest.length) round value

/-- The source text of a stretch of tokens. -/
def textOf (tokens : List (Token κ)) : Text :=
  tokens.flatMap Token.text

end UiFormat.Parse

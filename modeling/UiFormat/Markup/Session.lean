/-
# UiFormat.Markup.Session -- a lexer and the states saved from it

A parser that has to look far ahead saves the state of its lexer and comes back to it.
A session is a lexer with the states that were saved so far, numbered in the order in
which they were saved; a request asks for tokens, saves the state, or goes back to a
saved one.  A number under which nothing was saved leaves the lexer where it is.
-/
import UiFormat.Markup.Lexer

namespace UiFormat.Markup

open UiFormat.Text

set_option autoImplicit false

/-- What is asked of a lexer. -/
inductive Request where
  | next
  | peek
  | tokenize
  | checkpoint
  | restore (saved : Nat)
  deriving DecidableEq, Repr

/-- What a lexer gives back: a token, all tokens that were left, or nothing. -/
inductive Answer where
  | token (t : Tok)
  | tokens (ts : List Tok)
  | nothing
  deriving DecidableEq, Repr

/-- A lexer and the states saved from it, oldest first. -/
structure Session where
  lexer : Lexer
  saved : List Lexer
  deriving DecidableEq, Repr

namespace Session

/-- A session at the beginning of a source. -/
def start (source : Text) : Session :=
  { lexer := .start source, saved := [] }

/-- Answers one request. -/
def serve (s : Session) : Request → Answer × Session
  | .next => (.token s.lexer.next.1, { s with lexer := s.lexer.next.2 })
  | .peek => (.token s.lexer.peek.1, { s with lexer := s.lexer.peek.2 })
  | .tokenize => (.tokens s.lexer.tokenize.1, { s with lexer := s.lexer.tokenize.2 })
  | .checkpoint => (.nothing, { s with saved := s.saved ++ [s.lexer] })
  | .restore n => (.nothing, { s with lexer := s.saved[n]?.getD s.lexer })

/-- The answers to requests made one after the other. -/
def answers (s : Session) : List Request → List Answer
  | [] => []
  | r :: rest => (s.serve r).1 :: (s.serve r).2.answers rest

end Session
end UiFormat.Markup

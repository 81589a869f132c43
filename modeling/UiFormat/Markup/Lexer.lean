/-
# UiFormat.Markup.Lexer -- reading markup tokens on demand

A lexer hands out tokens one at a time, can look at the next one without
consuming it, and can return to a state it was in before.  A token that was
looked at has already been read from the source, so the cursor and its modes
stand behind it while it waits.
-/
import UiFormat.Markup.Token

namespace UiFormat.Markup

set_option autoImplicit false

/-- A cursor and the token read ahead of its use, if any. -/
structure Lexer where
  cursor : Cursor
  lookahead : Option Tok
  deriving DecidableEq, Repr

namespace Lexer

open UiFormat.Text

/-- A lexer at the beginning of a source. -/
def start (source : Text) : Lexer :=
  { cursor := .start source, lookahead := none }

/-- Consumes a token. -/
def next (l : Lexer) : Tok × Lexer :=
  match l.lookahead with
  | some t => (t, { l with lookahead := none })
  | none => (l.cursor.scan.1, { l with cursor := l.cursor.scan.2 })

/-- The token that `next` would give. -/
def peek (l : Lexer) : Tok × Lexer :=
  match l.lookahead with
  | some t => (t, l)
  | none => (l.cursor.scan.1, { cursor := l.cursor.scan.2, lookahead := some l.cursor.scan.1 })

/-- Consumes all tokens up to and including the closing one. -/
def tokenize (l : Lexer) : List Tok × Lexer :=
  let (tokens, last, cursor) := l.cursor.drain
  match l.lookahead with
  | none => (tokens ++ [last], { cursor, lookahead := none })
  | some t =>
      if t.kind = .eof then ([t], { l with lookahead := none })
      else (t :: tokens ++ [last], { cursor, lookahead := none })

/-- Enters a mode. -/
def push (mode : Mode) (l : Lexer) : Lexer :=
  { l with cursor := { l.cursor with modes := mode :: l.cursor.modes } }

/-- Leaves the innermost mode; the outermost one stays. -/
def pop (l : Lexer) : Lexer :=
  { l with cursor := { l.cursor with modes := l.cursor.modes.tail } }

end Lexer
end UiFormat.Markup

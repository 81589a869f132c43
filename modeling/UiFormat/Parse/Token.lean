/-
# UiFormat.Parse.Token -- tokens and parse errors

A token is a kind, its text and its place: the offsets where it starts and
stops, and the line and column of its first character.  Both languages use it
with their own kinds.

A parse error names its cause and the token it was found at.  Parsers collect
errors and go on; malformed input is never refused.
-/
import UiFormat.Text.Escaped
import UiFormat.Text.Position

namespace UiFormat.Parse

open UiFormat.Text

set_option autoImplicit false

/-- A piece of source text with its kind and place. -/
structure Token (κ : Type) where
  kind : κ
  text : Text
  start : Nat
  stop : Nat
  line : Nat
  column : Nat
  deriving DecidableEq, Repr

/-- A token of `length` characters at `p`. -/
def Token.at {κ : Type} (p : Position) (kind : κ) (text : Text) (length : Nat) : Token κ :=
  { kind, text, start := p.offset, stop := p.offset + length, line := p.line, column := p.column }

/-- A token as diagnostics show it, with the name of its kind. -/
def Token.display {κ : Type} (kindName : κ → String) (t : Token κ) : Text :=
  "Tok(".toList ++ (kindName t.kind).toList ++ ", ".toList ++ escaped t.text ++ ", ".toList
    ++ ofNat t.line ++ ":".toList ++ ofNat t.column ++ ")".toList

/-- A problem and the token it was found at. -/
structure ParseError (κ ε : Type) where
  cause : ε
  token : Token κ
  deriving DecidableEq, Repr

/-- A problem in words, with the place of the token it was found at. -/
structure Diagnostic where
  message : Text
  start : Nat
  stop : Nat
  line : Nat
  column : Nat
  deriving DecidableEq, Repr

/-- A parse error in words, given the wording of its cause. -/
def ParseError.diagnostic {κ ε : Type} (wording : ε → Text) (e : ParseError κ ε) : Diagnostic :=
  { message := wording e.cause
    start := e.token.start
    stop := e.token.stop
    line := e.token.line
    column := e.token.column }

/-- The message with its line and column. -/
def Diagnostic.located (d : Diagnostic) : Text :=
  d.message ++ " at line ".toList ++ ofNat d.line ++ ", col ".toList ++ ofNat d.column

end UiFormat.Parse

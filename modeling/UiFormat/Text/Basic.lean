/-
# UiFormat.Text.Basic -- text as a list of characters

Source text, names and printed lines are lists of Unicode code points, so that
a scan is a recursion on the list and a length is a number of code points.
Strings appear only where text enters or leaves the program.

The operations here are the few that every layer uses: what stands after a
given opening (`after?`), the text around the first occurrence of a mark
(`cut?`), joining with a separator and repetition.
-/
namespace UiFormat

set_option autoImplicit false

/-- A sequence of Unicode code points. -/
abbrev Text := List Char

/-- The list without its longest tail of items that satisfy `p`. -/
def dropEndWhile {α : Type} (p : α → Bool) : List α → List α
  | [] => []
  | a :: items =>
      match dropEndWhile p items with
      | [] => if p a then [] else [a]
      | b :: kept => a :: b :: kept

namespace Text

/-- The text opens with `opening`. -/
def startsWith (text opening : Text) : Bool :=
  opening.isPrefixOf text

/-- The text closes with `closing`. -/
def endsWith (text closing : Text) : Bool :=
  closing.isSuffixOf text

/-- What follows `opening` at the front of the text, when it stands there. -/
def after? : (opening text : Text) → Option Text
  | [], text => some text
  | _ :: _, [] => none
  | o :: opening, c :: text => if o = c then after? opening text else none

/-- The text before and after the first occurrence of `mark`, when there is
one. -/
def cut? (mark : Text) : Text → Option (Text × Text)
  | [] => if mark.isEmpty then some ([], []) else none
  | c :: text =>
      match after? mark (c :: text) with
      | some rest => some ([], rest)
      | none => (cut? mark text).map fun (before, rest) => (c :: before, rest)

/-- Characters up to the end of the first occurrence of `mark`; all of them when
there is none. -/
def lengthThrough (mark text : Text) : Nat :=
  match cut? mark text with
  | some (before, _) => before.length + mark.length
  | none => text.length

/-- `mark` occurs somewhere in the text. -/
def includes (text mark : Text) : Bool :=
  (cut? mark text).isSome

/-- The pieces between the occurrences of `mark`, empty pieces included. -/
def pieces (mark : Char) : Text → List Text
  | [] => [[]]
  | c :: text =>
      if c = mark then [] :: pieces mark text
      else
        match pieces mark text with
        | [] => [[c]]
        | piece :: rest => (c :: piece) :: rest

/-- The parts in order with `separator` between neighbours. -/
def join (separator : Text) : List Text → Text
  | [] => []
  | [part] => part
  | part :: next :: parts => part ++ separator ++ join separator (next :: parts)

/-- `text` written `count` times; nothing when `count` is not positive. -/
def times (text : Text) (count : Int) : Text :=
  (List.replicate count.toNat text).flatten

/-- The text inside its first and last character. -/
def withoutEnds (text : Text) : Text :=
  (text.drop 1).dropLast

/-- The character lies in one of the closed code point ranges. -/
def inRanges (ranges : List (Nat × Nat)) (c : Char) : Bool :=
  ranges.any fun (low, high) => low ≤ c.toNat && c.toNat ≤ high

/-- The digits of a natural number in base ten. -/
def ofNat (n : Nat) : Text :=
  Nat.toDigits 10 n

end Text
end UiFormat

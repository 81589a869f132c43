/-
# UiFormat.Layout.Frame -- the open brackets, grouped by the line that opened them

Every line that leaves brackets open owns one frame: the number of its brackets
that are still open and the level the line itself stands at.  Lines inside the
frame stand one level deeper.  A closing bracket takes one from the innermost
frame whatever its shape, and a closing bracket without a frame is ignored.

Frames stand innermost first.  Their counts are positive: a frame whose last
bracket closes is gone.
-/
import UiFormat.Layout.LineScan

namespace UiFormat.Layout

set_option autoImplicit false

/-- The brackets one line left open, and the level of that line. -/
structure Frame where
  count : Nat
  indent : Int
  deriving DecidableEq, Repr

/-- One bracket of a line at `level`.  The flag tells that the innermost frame
belongs to this very line, so that its next opening bracket joins it. -/
def applyEvent (level : Int) : Bool × List Frame → Char → Bool × List Frame
  | (own, frames), event =>
      if isOpener event then
        match own, frames with
        | true, frame :: outer => (true, { frame with count := frame.count + 1 } :: outer)
        | _, frames => (true, { count := 1, indent := level } :: frames)
      else
        match frames with
        | [] => (own, [])
        | frame :: outer =>
            if frame.count ≤ 1 then (false, outer)
            else (own, { frame with count := frame.count - 1 } :: outer)

/-- The frames after the brackets of a line at `level`. -/
def applyEvents (frames : List Frame) (events : List Char) (level : Int) : List Frame :=
  (events.foldl (applyEvent level) (false, frames)).2

/-- How many frames, innermost first, `closers` closing brackets reach. -/
def touchedFrames : List Frame → (closers : Nat) → Nat
  | [], _ => 0
  | _ :: _, 0 => 0
  | frame :: outer, closers + 1 => touchedFrames outer (closers + 1 - frame.count) + 1

end UiFormat.Layout

/-
# UiFormat.Proofs.Layout.FrameStack -- which frames are there after any brackets

Frames are values, a count and a level, and a flag says whether the innermost one belongs to
the line being read.  Here each frame carries the number it was made under (`Stamped`), a line
goes by the number of its frame, and a bracket finds that frame wherever it stands
(`FrameStack.bracket`).  Forgetting the numbers gives back the frames with their flag
(`Outcome.erase_eq`), so the flag never mistakes one frame for another.

`Outcome` lists everything that one bracket can do.  That the stack stays in order
(`Outcome.sound`), how many brackets it counts (`Outcome.total_eq`) and where its frames come
from (`Outcome.origin`) is read off that list, and then holds of a line (`spec_line`) and of any
lines (`spec_run`).

Main statement: `frames_after_lines`.
-/
import UiFormat.Layout.Frame
import Mathlib.Order.Bounds.Defs
import Mathlib.Data.List.Induction
import Mathlib.Tactic.SplitIfs

namespace UiFormat.Layout

set_option autoImplicit false

/-- How many brackets frames count together. -/
def bracketCount : List Frame → Nat
  | [] => 0
  | frame :: outer => frame.count + bracketCount outer

/-- The frames behind lines of brackets with their levels. -/
def framesAfter (calls : List (List Char × Int)) : List Frame :=
  calls.foldl (fun frames (events, level) => applyEvents frames events level) []

/-! ## Frames with numbers -/

/-- A frame with the number it was made under. -/
structure Stamped where
  stamp : Nat
  frame : Frame
  deriving DecidableEq

/-- The same frame with another count. -/
def Stamped.withCount (f : Stamped) (count : Nat) : Stamped :=
  { f with frame := { f.frame with count } }

/-- The frames, innermost first, how many have been made so far, and the number of the one that
belongs to the line being read, as long as that is there. -/
structure FrameStack where
  frames : List Stamped
  made : Nat
  own : Option Nat

/-- The brackets that are open behind a bracket, when so many are open in front of it.  A closing
bracket does nothing where none is open. -/
def depthBehind (depth : Nat) (c : Char) : Nat :=
  if isOpener c then depth + 1 else depth - 1

/-- The brackets that are open behind some brackets. -/
def bracketDepth (events : List Char) : Nat :=
  events.foldl depthBehind 0

namespace FrameStack

/-- No frame has been made yet. -/
def start : FrameStack :=
  { frames := [], made := 0, own := none }

/-- An opening bracket of a line at `level`: it counts for the frame of the line, which is made
when the line has none. -/
def opening (level : Int) (s : FrameStack) : FrameStack :=
  match s.own with
  | none => { frames := ⟨s.made, ⟨1, level⟩⟩ :: s.frames, made := s.made + 1, own := some s.made }
  | some stamp =>
      { s with
        frames := s.frames.map fun f =>
          if f.stamp = stamp then f.withCount (f.frame.count + 1) else f }

/-- A closing bracket: it counts against the innermost frame, and takes it away when no bracket
of it is left. -/
def closing (s : FrameStack) : FrameStack :=
  match s.frames with
  | [] => s
  | inner :: outer =>
      if inner.frame.count - 1 = 0 then
        { s with frames := outer, own := if s.own = some inner.stamp then none else s.own }
      else { s with frames := inner.withCount (inner.frame.count - 1) :: outer }

/-- One bracket of a line at `level`. -/
def bracket (level : Int) (s : FrameStack) (c : Char) : FrameStack :=
  if isOpener c then s.opening level else s.closing

/-- The brackets of a line with its level; no frame belongs to the line yet. -/
def line (s : FrameStack) (brackets : List Char × Int) : FrameStack :=
  brackets.1.foldl (bracket brackets.2) { s with own := none }

/-- The stack behind any lines. -/
def run (calls : List (List Char × Int)) : FrameStack :=
  calls.foldl line start

/-- The flag and the frames without their numbers. -/
def erase (s : FrameStack) : Bool × List Frame :=
  (s.own.isSome, s.frames.map Stamped.frame)

/-- How many brackets the frames count. -/
def total (s : FrameStack) : Nat :=
  bracketCount (s.frames.map Stamped.frame)

/-- Each frame counts a bracket, inner frames were made later, and the frame of the line is the
innermost. -/
structure Sound (s : FrameStack) : Prop where
  counted : ∀ f ∈ s.frames, 1 ≤ f.frame.count
  ordered : s.frames.Pairwise fun f g => g.stamp < f.stamp
  below : ∀ f ∈ s.frames, f.stamp < s.made
  innermost : ∀ stamp ∈ s.own, ∃ f ∈ s.frames.head?, f.stamp = stamp

/-- What one bracket of a line at `level` can do. -/
inductive Outcome (level : Int) (s : FrameStack) (c : Char) : FrameStack → Prop
  | makes (opens : isOpener c = true) (none : s.own = none) :
      Outcome level s c
        { frames := ⟨s.made, ⟨1, level⟩⟩ :: s.frames, made := s.made + 1, own := some s.made }
  | joins {inner : Stamped} {outer : List Stamped} (opens : isOpener c = true)
      (own : s.own = some inner.stamp) (split : s.frames = inner :: outer) :
      Outcome level s c { s with frames := inner.withCount (inner.frame.count + 1) :: outer }
  | unmatched (closes : isOpener c = false) (none : s.frames = []) : Outcome level s c s
  | ends {inner : Stamped} {outer : List Stamped} (closes : isOpener c = false)
      (split : s.frames = inner :: outer) (last : inner.frame.count = 1) :
      Outcome level s c { s with frames := outer, own := none }
  | wears {inner : Stamped} {outer : List Stamped} (closes : isOpener c = false)
      (split : s.frames = inner :: outer) (several : 1 < inner.frame.count) :
      Outcome level s c { s with frames := inner.withCount (inner.frame.count - 1) :: outer }

/-! ## One bracket -/

section

variable {level : Int} {s t : FrameStack} {c : Char}

/-- The frame of the line is the innermost one and no other. -/
theorem Sound.own_cases (sound : s.Sound) {inner : Stamped} {outer : List Stamped}
    (split : s.frames = inner :: outer) : s.own = none ∨ s.own = some inner.stamp := by
  cases own : s.own with
  | none => exact .inl rfl
  | some stamp =>
      obtain ⟨f, first, rfl⟩ := sound.innermost stamp own
      rw [split] at first
      cases first
      exact .inr rfl

/-- Counting a bracket for the innermost frame leaves the others alone: they were made earlier. -/
theorem map_count_own {inner : Stamped} {outer : List Stamped}
    (ordered : ∀ f ∈ outer, f.stamp < inner.stamp) :
    ((inner :: outer).map fun f =>
        if f.stamp = inner.stamp then f.withCount (f.frame.count + 1) else f) =
      inner.withCount (inner.frame.count + 1) :: outer := by
  have others : (outer.map fun f =>
      if f.stamp = inner.stamp then f.withCount (f.frame.count + 1) else f) = outer := by
    refine (List.map_congr_left fun f member => ?_).trans (List.map_id outer)
    rw [if_neg (Nat.ne_of_lt (ordered f member))]
    rfl
  rw [List.map_cons, others, if_pos rfl]

theorem outcome_bracket (level : Int) (sound : s.Sound) (c : Char) :
    Outcome level s c (s.bracket level c) := by
  unfold bracket
  cases opens : isOpener c with
  | true =>
      rw [if_pos rfl, opening]
      cases own : s.own with
      | none => exact .makes opens own
      | some stamp =>
          obtain ⟨inner, first, rfl⟩ := sound.innermost stamp own
          obtain ⟨outer, split⟩ := List.head?_eq_some_iff.1 first
          have ordered := sound.ordered
          rw [split, List.pairwise_cons] at ordered
          have joined : Outcome level s c _ := .joins opens own split
          rw [← map_count_own ordered.1, ← split, own] at joined
          exact joined
  | false =>
      rw [if_neg Bool.false_ne_true, closing]
      cases split : s.frames with
      | nil => exact .unmatched opens split
      | cons inner outer =>
          have counts : 1 ≤ inner.frame.count := sound.counted inner (split ▸ List.mem_cons_self)
          dsimp only
          split_ifs with last owner
          · exact .ends opens split (by omega)
          · have none := (sound.own_cases split).resolve_right owner
            rw [none]
            exact .ends opens split (by omega)
          · exact .wears opens split (by omega)

/-- A frame that takes the place of the innermost one, under its number. -/
theorem Sound.withInnermost (sound : s.Sound) {inner : Stamped} {outer : List Stamped}
    (split : s.frames = inner :: outer) {count : Nat} (some : 1 ≤ count) :
    ({ s with frames := inner.withCount count :: outer } : FrameStack).Sound := by
  obtain ⟨counted, ordered, below, innermost⟩ := sound
  rw [split] at counted ordered below innermost
  rw [List.forall_mem_cons] at counted below
  exact
    { counted := List.forall_mem_cons.2 ⟨some, counted.2⟩
      ordered := List.pairwise_cons.2 (List.pairwise_cons.1 ordered)
      below := List.forall_mem_cons.2 below
      innermost := fun stamp own => by
        obtain ⟨f, first, rfl⟩ := innermost stamp own
        cases first
        exact ⟨_, rfl, rfl⟩ }

theorem Outcome.sound (outcome : Outcome level s c t) (sound : s.Sound) : t.Sound := by
  cases outcome with
  | makes opens none =>
      exact
        { counted := List.forall_mem_cons.2 ⟨Nat.le_refl 1, sound.counted⟩
          ordered := List.pairwise_cons.2 ⟨sound.below, sound.ordered⟩
          below := List.forall_mem_cons.2
            ⟨Nat.lt_succ_self _, fun f member => Nat.lt_succ_of_lt (sound.below f member)⟩
          innermost := fun stamp own => ⟨_, rfl, Option.some.inj own⟩ }
  | joins opens own split => exact sound.withInnermost split (Nat.succ_pos _)
  | unmatched closes none => exact sound
  | @ends inner outer closes split last =>
      obtain ⟨counted, ordered, below, -⟩ := sound
      rw [split] at counted ordered below
      exact
        { counted := (List.forall_mem_cons.1 counted).2
          ordered := (List.pairwise_cons.1 ordered).2
          below := (List.forall_mem_cons.1 below).2
          innermost := fun stamp own => by cases own }
  | wears closes split several => exact sound.withInnermost split (Nat.le_sub_one_of_lt several)

/-- The numbers do not matter to the frames and the flag. -/
theorem Outcome.erase_eq (outcome : Outcome level s c t) :
    t.erase = applyEvent level s.erase c := by
  cases outcome with
  | makes opens none => simp [erase, applyEvent, opens, none]
  | joins opens own split => simp [erase, applyEvent, opens, own, split, Stamped.withCount]
  | unmatched closes none => simp [erase, applyEvent, closes, none]
  | ends closes split last => simp [erase, applyEvent, closes, split, last]
  | wears closes split several =>
      simp [erase, applyEvent, closes, split, several, Stamped.withCount, Nat.not_le_of_lt]

theorem Outcome.total_eq (outcome : Outcome level s c t) :
    t.total = depthBehind s.total c := by
  cases outcome with
  | makes opens none =>
      simp only [total, depthBehind, opens, List.map_cons, bracketCount, if_true]
      omega
  | joins opens own split =>
      simp only [total, depthBehind, opens, split, Stamped.withCount, List.map_cons, bracketCount,
        if_true]
      omega
  | unmatched closes none => simp [total, depthBehind, closes, none, bracketCount]
  | ends closes split last => simp [total, depthBehind, closes, split, last, bracketCount]
  | wears closes split several =>
      simp only [total, depthBehind, closes, split, Stamped.withCount, List.map_cons, bracketCount,
        Bool.false_eq_true, if_false]
      omega

/-- Every frame was there before the line, or it is the frame of the line and stands at its
level. -/
def Origin (before : FrameStack) (level : Int) (s : FrameStack) : Prop :=
  ∀ f ∈ s.frames, f.stamp ∈ before.frames.map Stamped.stamp ∨
    (s.own = some f.stamp ∧ f.frame.indent = level)

theorem Outcome.origin {before : FrameStack} (outcome : Outcome level s c t) (sound : s.Sound)
    (origin : Origin before level s) : Origin before level t := by
  cases outcome with
  | makes opens none =>
      refine List.forall_mem_cons.2 ⟨.inr ⟨rfl, rfl⟩, fun f member => ?_⟩
      refine (origin f member).imp_right fun ours => ?_
      rw [none] at ours
      cases ours.1
  | joins opens own split =>
      unfold Origin at origin ⊢
      rw [split, List.forall_mem_cons] at origin
      exact List.forall_mem_cons.2 origin
  | unmatched closes none => exact origin
  | @ends inner outer closes split last =>
      intro f member
      have ordered := sound.ordered
      unfold Origin at origin
      rw [split] at ordered origin
      refine ((List.forall_mem_cons.1 origin).2 f member).imp_right fun ours => ?_
      have earlier := (List.pairwise_cons.1 ordered).1 f member
      rcases sound.own_cases split with none | own
      · rw [none] at ours
        cases ours.1
      · rw [own] at ours
        exact absurd (Option.some.inj ours.1) (Nat.ne_of_gt earlier)
  | wears closes split several =>
      unfold Origin at origin ⊢
      rw [split, List.forall_mem_cons] at origin
      exact List.forall_mem_cons.2 origin

end

/-! ## Lines -/

theorem sound_start : start.Sound :=
  { counted := by simp [start]
    ordered := .nil
    below := by simp [start]
    innermost := by simp [start] }

/-- A run of brackets of one line. -/
theorem spec_brackets {s : FrameStack} (sound : s.Sound) (events : List Char) (level : Int) :
    (events.foldl (bracket level) s).Sound ∧
      (events.foldl (bracket level) s).erase = events.foldl (applyEvent level) s.erase ∧
      (events.foldl (bracket level) s).total = events.foldl depthBehind s.total ∧
      ∀ before, Origin before level s → Origin before level (events.foldl (bracket level) s) := by
  induction events generalizing s with
  | nil => exact ⟨sound, rfl, rfl, fun before origin => origin⟩
  | cons c events ih =>
      have here := outcome_bracket level sound c
      obtain ⟨after, erased, counted, origin⟩ := ih (here.sound sound)
      rw [here.erase_eq] at erased
      rw [here.total_eq] at counted
      exact ⟨after, erased, counted, fun before first => origin before (here.origin sound first)⟩

/-- A line. -/
theorem spec_line {s : FrameStack} (sound : s.Sound) (events : List Char) (level : Int) :
    (s.line (events, level)).Sound ∧
      (s.line (events, level)).frames.map Stamped.frame =
        applyEvents (s.frames.map Stamped.frame) events level ∧
      (s.line (events, level)).total = events.foldl depthBehind s.total ∧
      Origin s level (s.line (events, level)) := by
  have begins : ({ s with own := none } : FrameStack).Sound :=
    { sound with innermost := fun stamp own => by cases own }
  obtain ⟨after, erased, counted, origin⟩ := spec_brackets begins events level
  exact ⟨after, congrArg Prod.snd erased, counted,
    origin s fun f member => .inl (List.mem_map_of_mem member)⟩

theorem run_append (calls : List (List Char × Int)) (brackets : List Char × Int) :
    run (calls ++ [brackets]) = (run calls).line brackets := by
  rw [run, List.foldl_append]
  rfl

/-- A run of lines. -/
theorem spec_run (calls : List (List Char × Int)) :
    (run calls).Sound ∧
      (run calls).frames.map Stamped.frame = framesAfter calls ∧
      (run calls).total = bracketDepth (calls.flatMap (·.1)) := by
  induction calls using List.reverseRecOn with
  | nil => exact ⟨sound_start, rfl, rfl⟩
  | append_singleton calls brackets ih =>
      obtain ⟨sound, frames, counted⟩ := ih
      obtain ⟨after, erased, total, -⟩ := spec_line sound brackets.1 brackets.2
      rw [run_append]
      refine ⟨after, ?_, ?_⟩
      · rw [erased, frames, framesAfter, framesAfter, List.foldl_append]
        rfl
      · rw [total, counted, List.flatMap_append, bracketDepth, bracketDepth, List.foldl_append]
        simp

/-- A frame that was not there before a line is the innermost behind it. -/
theorem Origin.fresh {before s : FrameStack} {level : Int} (origin : Origin before level s)
    (sound : s.Sound) {f : Stamped} (member : f ∈ s.frames)
    (fresh : f.stamp ∉ before.frames.map Stamped.stamp) :
    s.frames.head? = some f ∧ f.frame.indent = level := by
  obtain ⟨own, stands⟩ := (origin f member).resolve_left fresh
  obtain ⟨inner, first, same⟩ := sound.innermost f.stamp own
  refine ⟨?_, stands⟩
  obtain ⟨outer, split⟩ := List.head?_eq_some_iff.1 first
  have ordered := sound.ordered
  rw [split] at member ordered ⊢
  rcases List.mem_cons.1 member with rfl | further
  · rfl
  · exact absurd same (Nat.ne_of_gt ((List.pairwise_cons.1 ordered).1 f further))

end FrameStack

/-! ## How many frames closing brackets reach -/

/-- So many frames, from the innermost on, have enough brackets. -/
def Suffices (frames : List Frame) (closers k : Nat) : Prop :=
  closers ≤ bracketCount (frames.take k)

theorem suffices_succ (frame : Frame) (outer : List Frame) (closers k : Nat) :
    Suffices (frame :: outer) closers (k + 1) ↔ Suffices outer (closers - frame.count) k := by
  simp only [Suffices, List.take_succ_cons, bracketCount]
  omega

/-- The fewest that have enough, when all together have. -/
theorem isLeast_touchedFrames {frames : List Frame} {closers : Nat}
    (enough : closers ≤ bracketCount frames) :
    IsLeast {k | Suffices frames closers k} (touchedFrames frames closers) := by
  induction frames generalizing closers with
  | nil =>
      obtain rfl : closers = 0 := Nat.le_zero.1 enough
      exact ⟨Nat.le_refl 0, fun k _ => Nat.zero_le k⟩
  | cons frame outer ih =>
      cases closers with
      | zero => exact ⟨Nat.zero_le _, fun k _ => Nat.zero_le k⟩
      | succ closers =>
          have left : closers + 1 - frame.count ≤ bracketCount outer := by
            rw [bracketCount] at enough
            exact Nat.sub_le_iff_le_add'.2 enough
          obtain ⟨reaches, least⟩ := ih left
          refine ⟨(suffices_succ frame outer _ _).2 reaches, fun k holds => ?_⟩
          cases k with
          | zero => cases holds
          | succ k => exact Nat.succ_le_succ (least ((suffices_succ frame outer _ _).1 holds))

/-- All of them, when they have too few. -/
theorem touchedFrames_of_few {frames : List Frame} {closers : Nat}
    (few : bracketCount frames < closers) : touchedFrames frames closers = frames.length := by
  induction frames generalizing closers with
  | nil => rfl
  | cons frame outer ih =>
      rw [bracketCount] at few
      obtain ⟨less, rfl⟩ := Nat.exists_eq_succ_of_ne_zero (Nat.ne_of_gt (Nat.zero_lt_of_lt few))
      have left : bracketCount outer < less + 1 - frame.count := Nat.lt_sub_iff_add_lt'.2 few
      rw [touchedFrames, ih left, List.length_cons]

/-! ## The frames behind any lines -/

/-- **The frames are the open brackets.**  Behind any lines of brackets, whatever the brackets and
the levels, each frame counts at least one bracket, and together they count the brackets that
are open, closing ones without a partner ignored.  One more line leaves at most one frame that
was not there in front of it, which is the innermost then and has the level of the line.
Closing brackets reach the fewest frames, from the innermost on, that count as many: all frames
when they count fewer, and none when there are no closing brackets. -/
theorem frames_after_lines (calls : List (List Char × Int)) :
    ((FrameStack.run calls).frames.map Stamped.frame = framesAfter calls ∧
        ((FrameStack.run calls).frames.map Stamped.stamp).Nodup) ∧
      (∀ f ∈ framesAfter calls, 1 ≤ f.count) ∧
      bracketCount (framesAfter calls) = bracketDepth (calls.flatMap (·.1)) ∧
      (∀ events level,
        let next := FrameStack.run (calls ++ [(events, level)])
        ∀ f ∈ next.frames, f.stamp ∉ (FrameStack.run calls).frames.map Stamped.stamp →
          next.frames.head? = some f ∧ f.frame.indent = level) ∧
      ∀ closers : Int,
        (closers ≤ bracketCount (framesAfter calls) →
          IsLeast {k : Nat | closers ≤ bracketCount ((framesAfter calls).take k)}
            (touchedFrames (framesAfter calls) closers.toNat)) ∧
        (bracketCount (framesAfter calls) < closers →
          touchedFrames (framesAfter calls) closers.toNat = (framesAfter calls).length) ∧
        (closers ≤ 0 → touchedFrames (framesAfter calls) closers.toNat = 0) := by
  obtain ⟨sound, erased, counted⟩ := FrameStack.spec_run calls
  have counts : bracketCount (framesAfter calls) = bracketDepth (calls.flatMap (·.1)) := by
    rw [← counted, FrameStack.total, erased]
  refine ⟨⟨erased, ?_⟩, ?_, counts, ?_, ?_⟩
  · rw [List.Nodup, List.pairwise_map]
    exact sound.ordered.imp fun later => Nat.ne_of_gt later
  · intro f member
    have same : framesAfter calls = (FrameStack.run calls).frames.map Stamped.frame := erased.symm
    rw [same] at member
    obtain ⟨stamped, inStack, rfl⟩ := List.mem_map.1 member
    exact sound.counted stamped inStack
  · intro events level next f member fresh
    obtain ⟨after, -, -, origin⟩ := FrameStack.spec_line sound events level
    have same : next = (FrameStack.run calls).line (events, level) := FrameStack.run_append _ _
    rw [same] at member ⊢
    exact origin.fresh after member fresh
  · intro closers
    refine ⟨fun enough => ?_, fun few => ?_, fun none => ?_⟩
    · have least := isLeast_touchedFrames (Int.toNat_le.2 enough)
      simpa only [Suffices, Int.toNat_le] using least
    · exact touchedFrames_of_few (Int.lt_toNat.2 few)
    · rw [Int.toNat_of_nonpos none]
      cases framesAfter calls <;> rfl

/-- A line that wears away the frame of another, loses its own and makes it again. -/
example : framesAfter [("\x7b([".toList, 0), (")(\x7b])[\x7d(".toList, 5)] = [⟨1, 5⟩, ⟨2, 0⟩] := by
  decide

end UiFormat.Layout

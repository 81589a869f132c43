/-
# UiFormat.Proofs.Layout.OpenBrackets -- frames are the lines of open brackets

Brackets are matched by one stack: a closing bracket closes the innermost open one,
whatever its shape, and does nothing when none is open.  `openBefore scans n` has the
lines of the brackets that are open in front of line `n`, innermost first.

The layout keeps frames instead, which count the brackets of a line and are worn away by
later lines.  `Groups` says that the frames are the open brackets, grouped by their lines,
each at the level of its line.  One bracket keeps that (`Groups.applyEvent`), so a line does
(`Groups.applyEvents`), and so it holds in front of every line of a run (`groups_frames`),
lines that start in a comment or in a template literal included.
-/
import UiFormat.Proofs.Layout.Settled
import UiFormat.Proofs.Layout.LineTrace

namespace UiFormat.Layout

open UiFormat.Text

set_option autoImplicit false

/-! ## Matching brackets -/

/-- The lines of the open brackets behind a bracket of line `n`, innermost first. -/
def matchBracket (n : Nat) (stack : List Nat) (c : Char) : List Nat :=
  if isOpener c then n :: stack else stack.tail

/-- The lines of the open brackets behind line `n`. -/
def openAfter (n : Nat) (stack : List Nat) (events : List Char) : List Nat :=
  events.foldl (matchBracket n) stack

/-- The lines of the brackets that are open in front of line `n`, innermost first. -/
def openBefore (scans : List LineScan) : (n : Nat) → List Nat
  | 0 => []
  | n + 1 =>
      match scans[n]? with
      | some scan => openAfter n (openBefore scans n) scan.events
      | none => openBefore scans n

/-- The line of the bracket that so many closing brackets reach: the last of those they
close, or the outermost one when they close more than there are. -/
def reachedLine (stack : List Nat) : (closers : Nat) → Option Nat
  | 0 => none
  | closers + 1 => stack[closers]?.or stack.getLast?

/-- A line keeps the outer brackets and adds some of its own. -/
theorem openAfter_split (n : Nat) (stack : List Nat) (events : List Char) :
    ∃ own kept, openAfter n stack events = own ++ kept ∧ (∀ k ∈ own, k = n) ∧ kept <:+ stack := by
  induction events using List.reverseRecOn with
  | nil => exact ⟨[], stack, rfl, by simp, List.suffix_rfl⟩
  | append_singleton events c ih =>
      obtain ⟨own, kept, split, ours, outer⟩ := ih
      have last : openAfter n stack (events ++ [c]) = matchBracket n (own ++ kept) c := by
        rw [← split, openAfter, List.foldl_append]
        rfl
      rw [last, matchBracket]
      split_ifs
      · exact ⟨n :: own, kept, rfl, List.forall_mem_cons.2 ⟨rfl, ours⟩, outer⟩
      · cases own with
        | nil => exact ⟨[], kept.tail, rfl, ours, (List.tail_suffix kept).trans outer⟩
        | cons k own => exact ⟨own, kept, rfl, (List.forall_mem_cons.1 ours).2, outer⟩

/-- Only lines before `n` have brackets open in front of it. -/
theorem lt_of_mem_openBefore {scans : List LineScan} {n k : Nat} (member : k ∈ openBefore scans n) :
    k < n := by
  induction n with
  | zero => cases member
  | succ n ih =>
      rw [openBefore] at member
      split at member
      · rename_i scan found
        obtain ⟨own, kept, split, ours, outer⟩ := openAfter_split n (openBefore scans n) scan.events
        rw [split, List.mem_append] at member
        rcases member with new | old
        · exact Nat.lt_succ_of_le (Nat.le_of_eq (ours k new))
        · exact Nat.lt_succ_of_lt (ih (outer.subset old))
      · exact Nat.lt_succ_of_lt (ih member)

/-! ## Frames -/

/-- The frames are the open brackets, grouped by their lines. -/
inductive Groups (level : Nat → Int) : List Frame → List Nat → Prop
  | nil : Groups level [] []
  | frame {frames : List Frame} {stack : List Nat} {count line : Nat} (some : 0 < count)
      (apart : line ∉ stack) (outer : Groups level frames stack) :
      Groups level (⟨count, level line⟩ :: frames) (List.replicate count line ++ stack)

/-- The flag of a line is on as long as the innermost open bracket is one of the line, and
while it is off no bracket of the line is open. -/
def Flagged (n : Nat) (own : Bool) (stack : List Nat) : Prop :=
  if own then stack.head? = some n else n ∉ stack

section

variable {level : Nat → Int} {frames : List Frame} {stack : List Nat} {n : Nat} {own : Bool}

theorem Groups.opening {c : Char} (groups : Groups level frames stack)
    (flagged : Flagged n own stack) (opens : isOpener c = true) :
    (applyEvent (level n) (own, frames) c).1 = true ∧
      Groups level (applyEvent (level n) (own, frames) c).2 (n :: stack) := by
  simp only [applyEvent, if_pos opens]
  cases own with
  | false =>
      have apart : n ∉ stack := by simpa [Flagged] using flagged
      exact ⟨rfl, .frame Nat.one_pos apart groups⟩
  | true =>
      cases groups with
      | nil => cases flagged
      | @frame frames stack count line some apart outer =>
          obtain ⟨count, rfl⟩ := Nat.exists_eq_succ_of_ne_zero (Nat.ne_of_gt some)
          obtain rfl : line = n := by simpa [Flagged, List.replicate_succ] using flagged
          exact ⟨rfl, .frame (Nat.succ_pos _) apart outer⟩

theorem Groups.closing {c : Char} (groups : Groups level frames stack)
    (flagged : Flagged n own stack) (closes : isOpener c = false) :
    Flagged n (applyEvent (level n) (own, frames) c).1 stack.tail ∧
      Groups level (applyEvent (level n) (own, frames) c).2 stack.tail := by
  simp only [applyEvent, closes, Bool.false_eq_true, if_false]
  cases groups with
  | nil => exact ⟨flagged, .nil⟩
  | @frame frames stack count line some apart outer =>
      obtain ⟨count, rfl⟩ := Nat.exists_eq_succ_of_ne_zero (Nat.ne_of_gt some)
      cases count with
      | zero =>
          refine ⟨?_, outer⟩
          cases own with
          | false => exact fun member => flagged (List.mem_cons_of_mem _ member)
          | true =>
              obtain rfl : line = n := by simpa [Flagged] using flagged
              exact apart
      | succ count =>
          have several : ¬ (count + 1).succ ≤ 1 := by omega
          simp only [several, if_false]
          refine ⟨?_, .frame (Nat.succ_pos count) apart outer⟩
          cases own with
          | false => exact fun member => flagged (List.mem_cons_of_mem _ member)
          | true => exact flagged

/-- One bracket of line `n`. -/
theorem Groups.step (groups : Groups level frames stack) (flagged : Flagged n own stack)
    (c : Char) :
    Flagged n (applyEvent (level n) (own, frames) c).1 (matchBracket n stack c) ∧
      Groups level (applyEvent (level n) (own, frames) c).2 (matchBracket n stack c) := by
  unfold matchBracket
  cases opens : isOpener c with
  | true =>
      obtain ⟨on, grouped⟩ := groups.opening flagged opens
      rw [on]
      exact ⟨rfl, grouped⟩
  | false => exact groups.closing flagged opens

/-- The brackets of a line. -/
theorem Groups.applyEvents (groups : Groups level frames stack) (fresh : n ∉ stack)
    (events : List Char) :
    Groups level (applyEvents frames events (level n)) (openAfter n stack events) := by
  suffices run : ∀ own frames stack, Flagged n own stack → Groups level frames stack →
      Groups level (events.foldl (applyEvent (level n)) (own, frames)).2
        (openAfter n stack events) from
    run false frames stack fresh groups
  induction events with
  | nil => exact fun own frames stack flagged groups => groups
  | cons c events ih =>
      intro own frames stack flagged groups
      obtain ⟨again, grouped⟩ := groups.step flagged c
      exact ih _ _ _ again grouped

/-! ## Levels -/

/-- Inside the innermost frame. -/
theorem Groups.openLevel_eq (groups : Groups level frames stack) (base : Int) :
    openLevel base frames = stack.head?.elim base fun line => level line + 1 := by
  cases groups with
  | nil => rfl
  | @frame frames stack count line some apart outer =>
      obtain ⟨count, rfl⟩ := Nat.exists_eq_succ_of_ne_zero (Nat.ne_of_gt some)
      rfl

theorem touchedFrames_zero (frames : List Frame) : touchedFrames frames 0 = 0 := by
  cases frames <;> rfl

/-- Closing brackets reach a line directly, or through all of its brackets. -/
theorem reachedLine_replicate (count line : Nat) (stack : List Nat) (closers : Nat) :
    reachedLine (List.replicate (count + 1) line ++ stack) (closers + 1) =
      if closers ≤ count then some line else (reachedLine stack (closers - count)).or (some line) := by
  rw [reachedLine]
  split_ifs with within
  · rw [List.getElem?_append_left (by simpa using Nat.lt_succ_of_le within),
      List.getElem?_replicate_of_lt (Nat.lt_succ_of_le within), Option.some_or]
  · obtain ⟨rest, further⟩ := Nat.exists_eq_add_of_lt (Nat.lt_of_not_le within)
    have behind : closers - count = rest + 1 := by omega
    have index : closers - (count + 1) = rest := by omega
    rw [behind, reachedLine, List.getElem?_append_right (by simp; omega), List.length_replicate,
      index, List.getLast?_append, List.getLast?_replicate, if_neg (Nat.succ_ne_zero count),
      Option.or_assoc]

/-- The frame that closing brackets reach is that of the bracket they reach. -/
theorem Groups.touched (groups : Groups level frames stack) (base : Int) (closers : Nat) :
    match reachedLine stack closers with
    | none => touchedFrames frames closers = 0
    | some line => ∃ outer, touchedFrames frames closers = outer + 1 ∧
        touchedLevel base frames (outer + 1) = level line := by
  induction groups generalizing closers with
  | nil => cases closers <;> rfl
  | @frame frames stack count line some apart outer ih =>
      cases closers with
      | zero => rfl
      | succ closers =>
          obtain ⟨count, rfl⟩ := Nat.exists_eq_succ_of_ne_zero (Nat.ne_of_gt some)
          have further := ih (closers - count)
          have reach : touchedFrames (⟨count + 1, level line⟩ :: frames) (closers + 1) =
              touchedFrames frames (closers - count) + 1 := by
            rw [touchedFrames, Nat.add_sub_add_right]
          rw [reachedLine_replicate, reach]
          split_ifs with within
          · rw [Nat.sub_eq_zero_of_le within, touchedFrames_zero]
            exact ⟨0, rfl, rfl⟩
          · cases reached : reachedLine stack (closers - count) with
            | none =>
                rw [reached] at further
                exact ⟨0, by rw [further], rfl⟩
            | some other =>
                rw [reached] at further
                obtain ⟨outer, touched, same⟩ := further
                exact ⟨outer + 1, by rw [touched], same⟩

/-- The level that the open brackets give a line, when other lines stand at the levels
`level`: that of the line whose bracket its leading closing brackets reach, or else one more
than that of the line of the innermost open bracket, with the levels the line gains. -/
def bracketedLevel (base : Int) (level : Nat → Int) (stack : List Nat) (closers : Nat)
    (gained : Int) : Int :=
  match reachedLine stack closers with
  | some line => level line
  | none => (stack.head?.elim base fun line => level line + 1) + gained

/-- The levels a line of code gains, besides the level inside the innermost frame. -/
def gainedLevels (s : LayoutState) (trimmed : Text) : Int :=
  (if !isCaseLabel trimmed && underLabel s.frames s.switches then 1 else 0) +
    chainIndent trimmed s.previousCode s.previousChain

theorem Groups.placeCode_eq {s : LayoutState} (groups : Groups level s.frames stack) (base : Int)
    (scan : LineScan) (trimmed : Text) :
    (placeCode base s scan trimmed).1 = .indented
      (bracketedLevel base level stack scan.leadingClosers (gainedLevels s trimmed)) trimmed := by
  have touched := groups.touched base scan.leadingClosers
  unfold bracketedLevel
  cases reached : reachedLine stack scan.leadingClosers with
  | none =>
      rw [reached] at touched
      simp only [placeCode, touched, if_true, groups.openLevel_eq base, gainedLevels, Int.add_assoc]
  | some line =>
      rw [reached] at touched
      obtain ⟨outer, some, same⟩ := touched
      have reaches : ¬ outer + 1 = 0 := Nat.succ_ne_zero outer
      simp only [placeCode, some, if_neg reaches, same]

end

/-! ## Lines of code -/

/-- The line starts outside of template literals and comments. -/
def LineScan.inCode (scan : LineScan) : Bool :=
  !scan.startsInTemplate && !scan.startsInComment

/-- A blank line has no brackets and no code. -/
theorem scan_of_blank {raw : Text} (empty : trim raw = []) (s : ScanState) :
    (s.scan raw).1.events = [] ∧ (s.scan raw).1.code = [] := by
  obtain ⟨n, walked⟩ := exists_walk_blank ((trim_eq_nil_iff raw).1 empty) s
  simp [ScanState.scan, walked, empty, Mark.bracket?]

/-- A line that starts in code is blank, or placed as code. -/
theorem place_of_code {base : Int} {normalizeDoc : Bool} {s : LayoutState} {raw : Text}
    (code : (s.scanner.scan raw).1.inCode = true) :
    place base normalizeDoc s raw =
      let placed := placeCode base s (s.scanner.scan raw).1 (trim raw)
      if (trim raw).isEmpty then (.blank, { s with scanner := (s.scanner.scan raw).2 })
      else (placed.1, { placed.2 with scanner := (s.scanner.scan raw).2 }) := by
  simp only [LineScan.inCode, Bool.and_eq_true, Bool.not_eq_true'] at code
  unfold place
  simp only [code.1, code.2, Bool.false_eq_true, if_false]
  rfl

/-! ## A run -/

section

variable (base : Int) (normalizeDoc : Bool) (rows : List Text)

/-- The state in front of line `n`. -/
def stateBefore (n : Nat) : LayoutState :=
  (rows.take n).foldl (fun s raw => (place base normalizeDoc s raw).2) (.start base)

/-- The level at which a line opens its brackets. -/
def bracketLevel (s : LayoutState) (raw : Text) : Int :=
  match (place base normalizeDoc s raw).1 with
  | .verbatim _ => openLevel base s.frames
  | .indented level _ => level
  | _ => s.commentLevel

/-- The level at which line `n` opens its brackets. -/
def levelAt (n : Nat) : Int :=
  rows[n]?.elim 0 (bracketLevel base normalizeDoc (stateBefore base normalizeDoc rows n))

variable {base normalizeDoc rows}

theorem stateBefore_succ {n : Nat} {raw : Text} (here : rows[n]? = some raw) :
    stateBefore base normalizeDoc rows (n + 1) =
      (place base normalizeDoc (stateBefore base normalizeDoc rows n) raw).2 := by
  rw [stateBefore, List.take_add_one, here, List.foldl_append]
  rfl

theorem stateBefore_beyond {n : Nat} (beyond : rows[n]? = none) :
    stateBefore base normalizeDoc rows (n + 1) = stateBefore base normalizeDoc rows n := by
  rw [stateBefore, List.take_add_one, beyond, Option.toList_none, List.append_nil, stateBefore]

theorem placeAll_getElem? (s : LayoutState) (n : Nat) :
    (placeAll base normalizeDoc s rows)[n]? = rows[n]?.map fun raw =>
      (place base normalizeDoc
        ((rows.take n).foldl (fun s raw => (place base normalizeDoc s raw).2) s) raw).1 := by
  induction rows generalizing s n with
  | nil => rfl
  | cons raw rows ih =>
      cases n with
      | zero => rfl
      | succ n => exact ih (place base normalizeDoc s raw).2 n

theorem scanLines_getElem? (s : LayoutState) (n : Nat) :
    (scanLines s.scanner rows)[n]? = rows[n]?.map fun raw =>
      (((rows.take n).foldl (fun s raw => (place base normalizeDoc s raw).2) s).scanner.scan raw).1 := by
  induction rows generalizing s n with
  | nil => rfl
  | cons raw rows ih =>
      cases n with
      | zero => rfl
      | succ n =>
          have later := ih (place base normalizeDoc s raw).2 n
          rw [scanner_place] at later
          exact later

/-- The scan of line `n`. -/
theorem scan_stateBefore (base : Int) (normalizeDoc : Bool) {n : Nat} {raw : Text}
    (here : rows[n]? = some raw) :
    (scanLines .start rows)[n]? =
      some ((stateBefore base normalizeDoc rows n).scanner.scan raw).1 := by
  have scan := @scanLines_getElem? base normalizeDoc rows (.start base) n
  rw [here] at scan
  exact scan

/-- The placement of line `n`. -/
theorem place_stateBefore {n : Nat} {raw : Text} (here : rows[n]? = some raw) :
    (placeAll base normalizeDoc (.start base) rows)[n]? =
      some (place base normalizeDoc (stateBefore base normalizeDoc rows n) raw).1 := by
  have placed := @placeAll_getElem? base normalizeDoc rows (.start base) n
  rw [here] at placed
  exact placed

/-- The brackets of a line are opened at its level. -/
theorem frames_place (s : LayoutState) (raw : Text) :
    (place base normalizeDoc s raw).2.frames =
      applyEvents s.frames (s.scanner.scan raw).1.events (bracketLevel base normalizeDoc s raw) := by
  unfold bracketLevel place placeComment
  dsimp only
  split
  · rfl
  · split
    · split
      · rfl
      · split <;> rfl
    · split
      · rename_i empty
        rw [(scan_of_blank (List.isEmpty_iff.1 empty) s.scanner).1]
        rfl
      · rfl

/-- In front of every line the frames are the open brackets, at the levels of their lines. -/
theorem groups_frames (n : Nat) :
    Groups (levelAt base normalizeDoc rows) (stateBefore base normalizeDoc rows n).frames
      (openBefore (scanLines .start rows) n) := by
  induction n with
  | zero => exact .nil
  | succ n ih =>
      cases here : rows[n]? with
      | none =>
          have beyond : (scanLines .start rows)[n]? = none := by
            rw [List.getElem?_eq_none_iff] at here ⊢
            rwa [length_scanLines]
          rw [stateBefore_beyond here, openBefore, beyond]
          exact ih
      | some raw =>
          have level : levelAt base normalizeDoc rows n =
              bracketLevel base normalizeDoc (stateBefore base normalizeDoc rows n) raw := by
            rw [levelAt, here]
            rfl
          rw [stateBefore_succ here, openBefore, scan_stateBefore base normalizeDoc here,
            frames_place, ← level]
          exact ih.applyEvents (fun member => Nat.lt_irrefl n (lt_of_mem_openBefore member)) _

end

end UiFormat.Layout

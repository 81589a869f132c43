/-
# UiFormat.Proofs.Layout.Gaps -- the lines that are written and the blank lines between them

Of the lines of a text those are written that are no blank lines, up to the last of which
anything is written (`keptRows`).  One empty line stands between two of them that do not follow
each other in the text, and none anywhere else (`withGaps`).  So the output is known line by
line with the line of the text it comes from (`reindentLines_rows`), and which lines these are
does not depend on the indent unit.

The first line written is never empty: only blank lines stand in front of it, so nothing is open
there, and it is code.  Where all lines start in code, the lines written are those that are
not blank, each at its level.

Main statement: `reindentLines_blank_lines`.
-/
import UiFormat.Proofs.Layout.BracketLevels
import Mathlib.Data.List.TakeWhile

namespace UiFormat

/-- The end of mapped items is dropped by what it was mapped from. -/
theorem dropEndWhile_map {α β : Type} {p : β → Bool} {q : α → Bool} {f : α → β} {items : List α}
    (same : ∀ a ∈ items, p (f a) = q a) :
    dropEndWhile p (items.map f) = (dropEndWhile q items).map f := by
  induction items with
  | nil => rfl
  | cons a items ih =>
      obtain ⟨here, later⟩ := List.forall_mem_cons.1 same
      rw [List.map_cons, dropEndWhile, dropEndWhile, ih later, here]
      cases dropEndWhile q items with
      | nil => cases q a <;> rfl
      | cons b kept => rfl

end UiFormat

namespace UiFormat.Layout

open UiFormat.Text

set_option autoImplicit false

/-! ## Rows and gaps -/

/-- The numbered lines behind line `last`, with a gap where numbers are left out. -/
def rowsAfter (last : Nat) : List Nat → List (Option Nat)
  | [] => []
  | n :: rest => (if n = last + 1 then [some n] else [none, some n]) ++ rowsAfter n rest

/-- The numbered lines in order, with one gap between two that do not follow each other. -/
def withGaps : List Nat → List (Option Nat)
  | [] => []
  | n :: rest => some n :: rowsAfter n rest

theorem filterMap_rowsAfter (last : Nat) (rows : List Nat) :
    (rowsAfter last rows).filterMap id = rows := by
  induction rows generalizing last with
  | nil => rfl
  | cons n rest ih =>
      rw [rowsAfter, List.filterMap_append, ih]
      split <;> rfl

/-- Without the gaps these are the lines. -/
theorem filterMap_withGaps (rows : List Nat) : (withGaps rows).filterMap id = rows := by
  cases rows with
  | nil => rfl
  | cons n rest => exact congrArg (n :: ·) (filterMap_rowsAfter n rest)

theorem mem_of_mem_withGaps {n : Nat} {rows : List Nat} (member : some n ∈ withGaps rows) :
    n ∈ rows := by
  rw [← filterMap_withGaps rows]
  exact List.mem_filterMap.2 ⟨some n, member, rfl⟩

section

variable {write : Nat → Text}

/-- Merging blank lines, behind a last line that was written, as rows of numbered lines. -/
theorem collapseAfter_rows {placed : List PlacedLine} {last k : Nat} (behind : last + 1 ≤ k)
    (texts : ∀ entry ∈ placed.zipIdx k, write entry.2 = entry.1.text) :
    collapseAfter (decide (last + 1 < k)) placed =
      (rowsAfter last (placed.findIdxs (!·.droppable) k)).map (·.elim [] write) := by
  induction placed generalizing last k with
  | nil => rfl
  | cons line rest ih =>
      rw [List.zipIdx_cons, List.forall_mem_cons] at texts
      obtain ⟨here, later⟩ := texts
      have here : write k = line.text := here
      rw [collapseAfter, List.findIdxs_cons]
      cases dropped : line.droppable with
      | true =>
          have next := ih (Nat.le_succ_of_le behind) later
          rw [decide_eq_true (Nat.lt_succ_of_le behind)] at next
          exact next
      | false =>
          have next := ih (Nat.le_refl (k + 1)) later
          rw [decide_eq_false (Nat.lt_irrefl _)] at next
          simp only [Bool.not_false, if_true, Bool.false_eq_true, if_false, rowsAfter, next,
            List.map_append]
          rcases Nat.lt_or_eq_of_le behind with gap | rfl
          · simp [gap, Nat.ne_of_gt gap, here]
          · simp [here]

theorem collapse_rows {placed : List PlacedLine} {k : Nat}
    (texts : ∀ entry ∈ placed.zipIdx k, write entry.2 = entry.1.text) :
    collapse placed =
      (withGaps (placed.findIdxs (!·.droppable) k)).map (·.elim [] write) := by
  induction placed generalizing k with
  | nil => rfl
  | cons line rest ih =>
      rw [List.zipIdx_cons, List.forall_mem_cons] at texts
      obtain ⟨here, later⟩ := texts
      rw [List.findIdxs_cons]
      cases dropped : line.droppable with
      | true =>
          rw [collapse, List.dropWhile_cons_of_pos dropped]
          exact ih later
      | false =>
          have next := collapseAfter_rows (Nat.le_refl (k + 1)) later
          rw [decide_eq_false (Nat.lt_irrefl _)] at next
          rw [collapse, List.dropWhile_cons_of_neg (by simp [dropped]), collapseAfter, dropped, next,
            ← here]
          rfl

end

/-! ## Placements that write nothing -/

/-- The line is a blank line of the text. -/
def Placement.isBlank : Placement → Bool
  | .blank => true
  | _ => false

/-- Nothing is written of the line, whatever the indent unit. -/
def Placement.isEmpty : Placement → Bool
  | .verbatim raw => raw.isEmpty
  | .keptComment raw => (trimEnd raw).isEmpty
  | .blank => true
  | _ => false

/-- The numbers of the lines that are written. -/
def keptRows (run : List Placement) : List Nat :=
  (dropEndWhile Placement.isEmpty run).findIdxs (!·.isBlank)

/-- What is written of line `n` of a run. -/
def writtenRow (unit : Text) (run : List Placement) (n : Nat) : Text :=
  run[n]?.elim [] fun p => (p.write unit).text

/-- A line that is kept has a placement, which is not that of a blank line. -/
theorem exists_of_mem_keptRows {run : List Placement} {n : Nat} (kept : n ∈ keptRows run) :
    ∃ p, run[n]? = some p ∧ p.isBlank = false := by
  obtain ⟨within, shows⟩ := List.mem_findIdxs_iff_exists_getElem_pos.1 kept
  exact ⟨_, List.prefix_iff_getElem?.1 (dropEndWhile_begins _ run) n within, by simpa using shows⟩

theorem droppable_write (unit : Text) (p : Placement) : (p.write unit).droppable = p.isBlank := by
  cases p <;> rfl

section

variable {base : Int} {normalizeDoc : Bool}

/-- A line that is indented is not blank. -/
theorem ne_nil_of_indented {s : LayoutState} {raw trimmed : Text} {level : Int}
    (placed : (place base normalizeDoc s raw).1 = .indented level trimmed) : trimmed ≠ [] := by
  unfold place placeComment at placed
  dsimp only at placed
  split at placed
  · cases placed
  · split at placed
    · split at placed
      · cases placed
      · split at placed <;> cases placed
    · split at placed
      · cases placed
      · rename_i filled
        cases placed
        simpa using filled

/-- In a run, a placement writes nothing with some indent unit only if it never does. -/
theorem isEmpty_write (unit : Text) {s : LayoutState} {raws : List Text} {p : Placement}
    (member : p ∈ placeAll base normalizeDoc s raws) :
    (p.write unit).text.isEmpty = p.isEmpty := by
  induction raws generalizing s with
  | nil => cases member
  | cons raw raws ih =>
      rw [placeAll_cons] at member
      rcases List.mem_cons.1 member with rfl | later
      · cases placed : (place base normalizeDoc s raw).1 with
        | indented level trimmed =>
            have filled := ne_nil_of_indented placed
            simp [Placement.write, Placement.isEmpty, filled]
        | _ => simp [Placement.write, Placement.isEmpty]
      · exact ih later

end

/-- **The output line by line.**  What is written are the lines of a run that are kept, in
order, with an empty line in each gap. -/
theorem reindentLines_rows (base : Int) (unit : Text) (normalizeDoc : Bool) (text : Text) :
    let run := placeAll base normalizeDoc (.start base) (lines text)
    reindentLines base unit normalizeDoc text =
      (withGaps (keptRows run)).map (·.elim [] (writtenRow unit run)) := by
  intro run
  have front : dropEndWhile (·.text.isEmpty) (run.map (·.write unit)) =
      (dropEndWhile Placement.isEmpty run).map (·.write unit) :=
    dropEndWhile_map fun p member => isEmpty_write unit member
  have texts : ∀ entry ∈ ((dropEndWhile Placement.isEmpty run).map (·.write unit)).zipIdx 0,
      writtenRow unit run entry.2 = entry.1.text := by
    intro entry member
    obtain ⟨p, here, written⟩ := Option.map_eq_some_iff.1
      (List.getElem?_map.symm.trans (List.mem_zipIdx_iff_getElem?.1 member))
    obtain ⟨within, rfl⟩ := List.getElem?_eq_some_iff.1 here
    have inRun := List.prefix_iff_getElem?.1 (dropEndWhile_begins _ run) entry.2 within
    rw [writtenRow, inRun, ← written]
    rfl
  have kept : ((!·.droppable) ∘ (·.write unit) : Placement → Bool) = (!·.isBlank) :=
    funext fun p => congrArg (!·) (droppable_write unit p)
  rw [reindentLines, front, collapse_rows texts, List.findIdxs_map, kept, keptRows]

/-! ## The first line -/

theorem head?_collapse (placed : List PlacedLine) :
    (collapse placed).head? = (placed.find? (!·.droppable)).map (·.text) := by
  rw [collapse, List.find?_not_eq_head?_dropWhile]
  cases rest : placed.dropWhile (·.droppable) with
  | nil => rfl
  | cons line later =>
      have kept := List.head?_dropWhile_not (·.droppable) placed
      rw [rest] at kept
      rw [collapseAfter, if_neg (by simpa using kept)]
      rfl

section

variable {base : Int} {normalizeDoc : Bool}

/-- Where nothing is open, the first line that is not blank is a line of code. -/
theorem exists_indented_of_find? {s : LayoutState} (between : s.BetweenLines) {raws : List Text}
    {p : Placement} (first : (placeAll base normalizeDoc s raws).find? (!·.isBlank) = some p) :
    ∃ level trimmed, p = .indented level trimmed ∧ trimmed ≠ [] := by
  induction raws with
  | nil => cases first
  | cons raw raws ih =>
      have code : (s.scanner.scan raw).1.inCode = true := by
        simp [LineScan.inCode, ScanState.scan, between.1, between.2]
      rw [placeAll_cons] at first
      by_cases empty : trim raw = []
      · rw [place_of_blank between empty] at first
        exact ih first
      · have here : (place base normalizeDoc s raw).1 =
            (placeCode base s (s.scanner.scan raw).1 (trim raw)).1 := by
          rw [place_of_code code]
          simp [empty]
        rw [here, List.find?_cons_of_pos rfl] at first
        cases first
        exact ⟨_, _, rfl, empty⟩

end

/-- The first line written is not empty. -/
theorem reindentLines_head_ne_nil (base : Int) (unit : Text) (normalizeDoc : Bool) (text : Text) :
    (reindentLines base unit normalizeDoc text).head? ≠ some [] := by
  intro empty
  rw [reindentLines, head?_collapse, Option.map_eq_some_iff] at empty
  obtain ⟨line, found, nothing⟩ := empty
  have inRun := (dropEndWhile_begins _ _).find?_eq_some found
  rw [List.find?_map, Option.map_eq_some_iff] at inRun
  obtain ⟨p, first, rfl⟩ := inRun
  have between : (LayoutState.start base).BetweenLines := ⟨rfl, rfl⟩
  have kept : ((!·.droppable) ∘ (·.write unit) : Placement → Bool) = (!·.isBlank) :=
    funext fun p => congrArg (!·) (droppable_write unit p)
  rw [kept] at first
  obtain ⟨level, trimmed, rfl, filled⟩ := exists_indented_of_find? between first
  exact filled (List.append_eq_nil_iff.1 nothing).2

/-! ## Lines of code -/

/-- The numbers of the lines that are not blank. -/
def filledRows (rows : List Text) : List Nat :=
  rows.findIdxs fun raw => !(trim raw).isEmpty

/-- Where nothing is written only of blank lines, all others are kept. -/
theorem keptRows_of_isEmpty {run : List Placement}
    (blank : ∀ p ∈ run, p.isEmpty = true → p.isBlank = true) :
    keptRows run = run.findIdxs (!·.isBlank) := by
  obtain ⟨tail, split, empty⟩ := exists_dropEndWhile_append Placement.isEmpty run
  have none : ∀ p ∈ tail, (!p.isBlank) = false := by
    intro p member
    have inRun : p ∈ run := by
      rw [split]
      exact List.mem_append_right _ member
    rw [blank p inRun (empty p member)]
    rfl
  conv_rhs => rw [split, List.findIdxs_append, List.findIdxs_eq_nil_iff.2 none, List.append_nil]
  rw [keptRows]

section

variable (base : Int) (normalizeDoc : Bool) {rows : List Text}
  (outside : StartInCode (scanLines .start rows))

include outside

theorem keptRows_of_code :
    keptRows (placeAll base normalizeDoc (.start base) rows) = filledRows rows := by
  rw [placeAll_of_code base normalizeDoc outside, keptRows_of_isEmpty]
  · rw [List.findIdxs_map, filledRows]
    conv_rhs => rw [← List.zipIdx_map_fst 0 rows, List.findIdxs_map]
    congr 1
    funext entry
    by_cases empty : trim entry.1 = [] <;> simp [empty, Placement.isBlank]
  · intro p member
    obtain ⟨entry, -, rfl⟩ := List.mem_map.1 member
    by_cases empty : trim entry.1 = [] <;> simp [empty, Placement.isBlank, Placement.isEmpty]

theorem writtenRow_of_code (unit : Text) {n : Nat} (member : n ∈ filledRows rows) :
    writtenRow unit (placeAll base normalizeDoc (.start base) rows) n =
      times unit (levelAt base normalizeDoc rows n) ++ trim (rows[n]?.getD []) := by
  obtain ⟨within, filled⟩ := List.mem_findIdxs_iff_exists_getElem_pos.1 member
  have here : rows[n]? = some rows[n] := List.getElem?_eq_getElem within
  rw [writtenRow, placeAll_of_code base normalizeDoc outside, List.getElem?_map,
    List.getElem?_zipIdx, here]
  have filled : trim rows[n] ≠ [] := by simpa using filled
  simp [filled, Placement.write]

end

/-- **Blank lines.**  Neither the first nor the last line written is empty.  Where all lines
start in code, what is written are the lines that are not blank, in order, each at its level,
with one empty line between two of them exactly when they do not follow each other in the text,
so that there are blank lines between them. -/
theorem reindentLines_blank_lines (base : Int) (unit : Text) (normalizeDoc : Bool) (text : Text) :
    let rows := lines text
    let written := reindentLines base unit normalizeDoc text
    (written.head? ≠ some [] ∧ written.getLast? ≠ some []) ∧
      (StartInCode (scanLines .start rows) →
        written = (withGaps (filledRows rows)).map fun row =>
          row.elim [] fun n =>
            times unit (levelAt base normalizeDoc rows n) ++ trim (rows[n]?.getD [])) := by
  intro rows written
  refine ⟨⟨reindentLines_head_ne_nil base unit normalizeDoc text,
    reindentLines_getLast_ne_nil base unit normalizeDoc text⟩, fun outside => ?_⟩
  have byRow : written = (withGaps (keptRows (placeAll base normalizeDoc (.start base) rows))).map _ :=
    reindentLines_rows base unit normalizeDoc text
  rw [keptRows_of_code base normalizeDoc outside] at byRow
  refine byRow.trans (List.map_congr_left fun row member => ?_)
  cases row with
  | none => rfl
  | some n => exact writtenRow_of_code base normalizeDoc outside unit (mem_of_mem_withGaps member)

/-- Blank lines in front, between and behind, some of them with blanks. -/
def spreadText : Text :=
  "\n  \nif (a) \x7b\n\n\t\nb()\nc() // d\n\n\x7d\n \n".toList

theorem reindentLines_blank_lines_spread :
    StartInCode (scanLines .start (lines spreadText)) ∧
      filledRows (lines spreadText) = [2, 5, 6, 8] ∧
      reindentLines 1 "\t".toList true spreadText =
        ["\tif (a) \x7b".toList, [], "\t\tb()".toList, "\t\tc() // d".toList, [], "\t\x7d".toList] ∧
      reindentLines 1 "\t".toList true spreadText = (withGaps [2, 5, 6, 8]).map fun row =>
        row.elim [] fun n =>
          times "\t".toList (levelAt 1 true (lines spreadText) n) ++
            trim ((lines spreadText)[n]?.getD []) := by
  obtain ⟨outside, rows, written⟩ : StartInCode (scanLines .start (lines spreadText)) ∧
      filledRows (lines spreadText) = [2, 5, 6, 8] ∧
      reindentLines 1 "\t".toList true spreadText =
        ["\tif (a) \x7b".toList, [], "\t\tb()".toList, "\t\tc() // d".toList, [], "\t\x7d".toList] := by
    unfold StartInCode
    rw [show spreadText = _ from String.toList_ofList]
    decide +kernel
  refine ⟨outside, rows, written, ?_⟩
  rw [← rows]
  exact (reindentLines_blank_lines 1 "\t".toList true spreadText).2 outside

end UiFormat.Layout

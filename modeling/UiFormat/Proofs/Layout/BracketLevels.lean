/-
# UiFormat.Proofs.Layout.BracketLevels -- indentation follows the brackets

Where every line starts in code, outside of template literals and comments, and none is the
head of a `switch`, the open brackets alone say how deep a line stands, apart from call
chains.  A line whose leading closing brackets reach a bracket stands like the line of that
bracket.  Any other line stands one deeper than the line of the innermost open bracket.

Besides the frames (`groups_frames`) the layout carries the code of the last line that had
any, with the levels that line gained as part of a chain; `chainBefore` reads them off the
lines in front (`chain_stateBefore`).

Main statement: `reindentLines_levels`.
-/
import UiFormat.Proofs.Layout.OpenBrackets

namespace UiFormat.Layout

open UiFormat.Text

set_option autoImplicit false

/-- No line starts inside a template literal or a comment. -/
def StartInCode (scans : List LineScan) : Prop :=
  ∀ scan ∈ scans, scan.inCode = true

/-- No line is the head of a `switch`. -/
def NoSwitches (rows : List Text) : Prop :=
  ∀ raw ∈ rows, isSwitchHead (trim raw) = false

/-- The code of the last line in front of line `n` that has any, and the levels that line
gained as part of a call chain. -/
def chainBefore (rows : List Text) (scans : List LineScan) : (n : Nat) → Option Text × Int
  | 0 => (none, 0)
  | n + 1 =>
      let before := chainBefore rows scans n
      match rows[n]?, scans[n]? with
      | some raw, some scan =>
          if scan.code.isEmpty then before
          else
            (some scan.code,
              match reachedLine (openBefore scans n) scan.leadingClosers with
              | some _ => 0
              | none => chainIndent (trim raw) before.1 before.2)
      | _, _ => before

section

variable {base : Int} {normalizeDoc : Bool} {s : LayoutState} {raw : Text}

/-- A line that is no head of a `switch` opens no switch block. -/
theorem switches_place (none : s.switches = []) (other : isSwitchHead (trim raw) = false) :
    (place base normalizeDoc s raw).2.switches = [] := by
  have placed : ∀ scan, (placeCode base { s with scanner := (s.scanner.scan raw).2 } scan
      (trim raw)).2.switches = [] := by
    intro scan
    simp [placeCode, none, inSwitch, updateSwitches, other]
  unfold place
  dsimp only
  split
  · exact none
  · split
    · exact none
    · split
      · exact none
      · exact placed _

/-- What a line of code leaves for a chain behind it. -/
theorem chain_placeCode {level : Nat → Int} {stack : List Nat}
    (groups : Groups level s.frames stack) (scan : LineScan) (trimmed : Text) :
    ((placeCode base s scan trimmed).2.previousCode,
        (placeCode base s scan trimmed).2.previousChain) =
      if scan.code.isEmpty then (s.previousCode, s.previousChain)
      else
        (some scan.code,
          match reachedLine stack scan.leadingClosers with
          | some _ => 0
          | none => chainIndent trimmed s.previousCode s.previousChain) := by
  have touched := groups.touched base scan.leadingClosers
  cases filled : scan.code.isEmpty with
  | true => simp [placeCode, filled]
  | false =>
      cases reached : reachedLine stack scan.leadingClosers with
      | none =>
          rw [reached] at touched
          simp only [placeCode, filled, touched, Bool.false_eq_true, if_true, if_false]
      | some line =>
          rw [reached] at touched
          obtain ⟨outer, some, -⟩ := touched
          simp only [placeCode, filled, some, Nat.succ_ne_zero, Bool.false_eq_true, if_false]

end

section

variable (base : Int) (normalizeDoc : Bool) {rows : List Text}

theorem switches_stateBefore (noSwitches : NoSwitches rows) (n : Nat) :
    (stateBefore base normalizeDoc rows n).switches = [] := by
  induction n with
  | zero => rfl
  | succ n ih =>
      cases here : rows[n]? with
      | none =>
          rw [stateBefore_beyond here]
          exact ih
      | some raw =>
          rw [stateBefore_succ here]
          exact switches_place ih (noSwitches raw (List.mem_of_getElem? here))

variable (outside : StartInCode (scanLines .start rows))

include outside

/-- The layout remembers the chain in front of each line. -/
theorem chain_stateBefore (n : Nat) :
    chainBefore rows (scanLines .start rows) n =
      ((stateBefore base normalizeDoc rows n).previousCode,
        (stateBefore base normalizeDoc rows n).previousChain) := by
  induction n with
  | zero => rfl
  | succ n ih =>
      cases here : rows[n]? with
      | none => rw [stateBefore_beyond here, ← ih, chainBefore, here]
      | some raw =>
          have scan := scan_stateBefore base normalizeDoc here
          have code := outside _ (List.mem_of_getElem? scan)
          rw [stateBefore_succ here, place_of_code code, chainBefore, here, scan]
          by_cases empty : trim raw = []
          · rw [if_pos (List.isEmpty_iff.2 empty)]
            simp only [(scan_of_blank empty _).2, ih]
            rfl
          · rw [if_neg (by simpa using empty)]
            simp only [ih]
            exact (chain_placeCode (groups_frames n) _ _).symm

/-- All lines are blank or stand at their levels. -/
theorem placeAll_of_code :
    placeAll base normalizeDoc (.start base) rows = rows.zipIdx.map fun (raw, n) =>
      if (trim raw).isEmpty then .blank
      else .indented (levelAt base normalizeDoc rows n) (trim raw) := by
  refine List.ext_getElem? fun n => ?_
  rw [List.getElem?_map, List.getElem?_zipIdx, Nat.zero_add]
  cases here : rows[n]? with
  | none =>
      rw [placeAll_getElem?, here]
      rfl
  | some raw =>
      have code := outside _ (List.mem_of_getElem? (scan_stateBefore base normalizeDoc here))
      have placed := @place_of_code base normalizeDoc _ _ code
      rw [place_stateBefore here]
      by_cases empty : trim raw = []
      · rw [if_pos (List.isEmpty_iff.2 empty)] at placed
        simp [placed, empty]
      · rw [if_neg (by simpa using empty)] at placed
        obtain ⟨level, stands⟩ : ∃ level, (place base normalizeDoc
            (stateBefore base normalizeDoc rows n) raw).1 = .indented level (trim raw) := by
          rw [placed]
          exact ⟨_, rfl⟩
        have same : levelAt base normalizeDoc rows n = level := by
          simp only [levelAt, here, Option.elim, bracketLevel, stands]
        simp [stands, same, empty]

variable (noSwitches : NoSwitches rows)

include noSwitches

/-- A line is blank, or stands at the level its brackets give it. -/
theorem placement_of_code {n : Nat} {raw : Text} (here : rows[n]? = some raw) :
    (place base normalizeDoc (stateBefore base normalizeDoc rows n) raw).1 =
      if (trim raw).isEmpty then .blank
      else .indented
        (bracketedLevel base (levelAt base normalizeDoc rows) (openBefore (scanLines .start rows) n)
          ((stateBefore base normalizeDoc rows n).scanner.scan raw).1.leadingClosers
          (chainIndent (trim raw) (chainBefore rows (scanLines .start rows) n).1
            (chainBefore rows (scanLines .start rows) n).2)) (trim raw) := by
  have gained : gainedLevels (stateBefore base normalizeDoc rows n) (trim raw) =
      chainIndent (trim raw) (chainBefore rows (scanLines .start rows) n).1
        (chainBefore rows (scanLines .start rows) n).2 := by
    rw [chain_stateBefore base normalizeDoc outside]
    simp [gainedLevels, switches_stateBefore base normalizeDoc noSwitches, underLabel]
  rw [place_of_code (outside _ (List.mem_of_getElem? (scan_stateBefore base normalizeDoc here)))]
  split
  · rfl
  · rw [(groups_frames n).placeCode_eq, gained]

/-- The level of a line that is not blank. -/
theorem levelAt_of_code {n : Nat} {raw : Text} (here : rows[n]? = some raw) (filled : trim raw ≠ []) :
    levelAt base normalizeDoc rows n =
      bracketedLevel base (levelAt base normalizeDoc rows) (openBefore (scanLines .start rows) n)
        ((stateBefore base normalizeDoc rows n).scanner.scan raw).1.leadingClosers
        (chainIndent (trim raw) (chainBefore rows (scanLines .start rows) n).1
          (chainBefore rows (scanLines .start rows) n).2) := by
  have placed := placement_of_code base normalizeDoc outside noSwitches here
  rw [if_neg (by simpa using filled)] at placed
  conv_lhs => rw [levelAt, here]
  simp only [Option.elim, bracketLevel, placed]

end

/-! ## The levels of a text -/

/-- Of lines that are blank or stand at a level, those that are not blank are written. -/
theorem filled_write_indented (unit : Text) (level : Nat → Int) (rows : List (Text × Nat)) :
    filled (((rows.map fun (raw, n) => if (trim raw).isEmpty then Placement.blank
        else .indented (level n) (trim raw)).map (·.write unit)).map (·.text)) =
      (rows.filter fun (raw, _) => !(trim raw).isEmpty).map
        fun (raw, n) => times unit (level n) ++ trim raw := by
  induction rows with
  | nil => rfl
  | cons row rows ih =>
      obtain ⟨raw, n⟩ := row
      simp only [List.map_cons]
      rw [filled, List.filter_cons, List.filter_cons, ← filled, ih]
      by_cases empty : trim raw = []
      · simp [empty, Placement.write]
      · simp [empty, Placement.write]

/-- **Indentation follows the brackets.**  Where every line starts in code and none is the
head of a `switch`, each line has a level, which the open brackets in front of it and its
leading closing brackets give, besides what it gains in a call chain.  The lines that are not
blank are written in order, each at its level. -/
theorem reindentLines_levels (base : Int) (unit : Text) (normalizeDoc : Bool) {text : Text}
    (outside : StartInCode (scanLines .start (lines text))) (noSwitches : NoSwitches (lines text)) :
    let rows := lines text
    let scans := scanLines .start rows
    ∃ level : Nat → Int,
      (∀ n raw scan, rows[n]? = some raw → scans[n]? = some scan → trim raw ≠ [] →
        (placeAll base normalizeDoc (.start base) rows)[n]? =
            some (.indented (level n) (trim raw)) ∧
          level n = bracketedLevel base level (openBefore scans n) scan.leadingClosers
            (chainIndent (trim raw) (chainBefore rows scans n).1 (chainBefore rows scans n).2)) ∧
      filled (reindentLines base unit normalizeDoc text) =
        (rows.zipIdx.filter fun (raw, _) => !(trim raw).isEmpty).map
          fun (raw, n) => times unit (level n) ++ trim raw := by
  intro rows scans
  have placements := placeAll_of_code base normalizeDoc outside
  refine ⟨levelAt base normalizeDoc rows, ?_, ?_⟩
  · intro n raw scan here scanned filled
    rw [scan_stateBefore base normalizeDoc here] at scanned
    obtain rfl := Option.some.inj scanned
    refine ⟨?_, levelAt_of_code base normalizeDoc outside noSwitches here filled⟩
    rw [placements, List.getElem?_map, List.getElem?_zipIdx, here]
    simp [filled, rows]
  · rw [filled_reindentLines, placements, filled_write_indented]

/-- Several brackets on a line, some closed by later lines, a closing line that opens again,
a call chain, and a closing bracket too many. -/
def steppedText : Text :=
  "if (a) \x7b f([\nb,\n], \x7b\nc\n\x7d)\n.d(\n)\n\x7d\n\n\x7d e \x7b\ng".toList

/-- The lines of `steppedText` at their levels. -/
def steppedLines : List Text := [
  "if (a) \x7b f([".toList, "  b,".toList, "], \x7b".toList, "  c".toList, "\x7d)".toList,
  "    .d(".toList, "    )".toList, "\x7d".toList, "".toList, "\x7d e \x7b".toList, "  g".toList
]

theorem reindentLines_levels_stepped :
    StartInCode (scanLines .start (lines steppedText)) ∧ NoSwitches (lines steppedText) ∧
      reindentLines 0 "  ".toList true steppedText = steppedLines ∧
      let rows := lines steppedText
      let scans := scanLines .start rows
      ∃ level : Nat → Int,
        (∀ n raw scan, rows[n]? = some raw → scans[n]? = some scan → trim raw ≠ [] →
          (placeAll 0 true (.start 0) rows)[n]? = some (.indented (level n) (trim raw)) ∧
            level n = bracketedLevel 0 level (openBefore scans n) scan.leadingClosers
              (chainIndent (trim raw) (chainBefore rows scans n).1 (chainBefore rows scans n).2)) ∧
        filled steppedLines =
          (rows.zipIdx.filter fun (raw, _) => !(trim raw).isEmpty).map
            fun (raw, n) => times "  ".toList (level n) ++ trim raw := by
  obtain ⟨outside, noSwitches, written⟩ : StartInCode (scanLines .start (lines steppedText)) ∧
      NoSwitches (lines steppedText) ∧
      reindentLines 0 "  ".toList true steppedText = steppedLines := by
    unfold StartInCode NoSwitches
    rw [show steppedText = _ from String.toList_ofList]
    decide +kernel
  refine ⟨outside, noSwitches, written, ?_⟩
  rw [← written]
  exact reindentLines_levels 0 "  ".toList true outside noSwitches

end UiFormat.Layout

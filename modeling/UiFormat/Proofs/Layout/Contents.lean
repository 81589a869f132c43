/-
# UiFormat.Proofs.Layout.Contents -- reindenting keeps what the lines say

`Places normalizeDoc raw p` lists everything that one step of the layout can do
with the line `raw`.  A step does one of these (`place_places`), so a run does
one of these to each line in turn (`placeAll_places`), and all that follows is
read off the list: written with a blank indent unit, a line keeps its trimmed
text (`trim_write`) and gains no line break (`breakFree_write`).  The one
placement that writes more is the doc comment line that gains a star, and it
needs `normalizeDoc`.

Dropping and merging blank lines leaves the lines that say something
(`shown_reindentLines`), and the last line written is never empty
(`reindentLines_getLast_ne_nil`).
-/
import UiFormat.Layout.Reindent
import UiFormat.Proofs.Text.Lines

namespace UiFormat.Layout

open UiFormat.Text

set_option autoImplicit false

/-! ## One line -/

/-- What a step of the layout may do with a line. -/
inductive Places (normalizeDoc : Bool) (raw : Text) : Placement → Prop
  | verbatim : Places normalizeDoc raw (.verbatim raw)
  | keptComment : Places normalizeDoc raw (.keptComment raw)
  | starredComment (level : Int) : Places normalizeDoc raw (.starredComment level (trim raw))
  | unstarredComment (level : Int) (asked : normalizeDoc = true) :
      Places normalizeDoc raw (.unstarredComment level (trim raw))
  | blank (empty : trim raw = []) : Places normalizeDoc raw .blank
  | indented (level : Int) : Places normalizeDoc raw (.indented level (trim raw))

theorem placeComment_places (normalizeDoc : Bool) (s : LayoutState) (scan : LineScan)
    (raw : Text) : Places normalizeDoc raw (placeComment normalizeDoc s scan raw) := by
  simp only [placeComment]
  by_cases starred : startsWith (trim raw) ['*'] = true
  · rw [if_pos starred]
    exact .starredComment _
  · rw [if_neg starred]
    by_cases normalized : (normalizeDoc && scan.commentIsDoc) = true
    · rw [if_pos normalized]
      exact .unstarredComment _ (Bool.and_eq_true_iff.1 normalized).1
    · rw [if_neg normalized]
      exact .keptComment

/-- One step of the layout. -/
theorem place_places (base : Int) (normalizeDoc : Bool) (s : LayoutState) (raw : Text) :
    Places normalizeDoc raw (place base normalizeDoc s raw).1 := by
  unfold place
  dsimp only
  split
  · exact .verbatim
  · split
    · exact placeComment_places _ _ _ _
    · split
      · rename_i empty
        exact .blank (List.isEmpty_iff.1 empty)
      · exact .indented _

/-- A run of the layout places each line in turn. -/
theorem placeAll_places (base : Int) (normalizeDoc : Bool) (raws : List Text) :
    ∀ s : LayoutState, List.Forall₂ (Places normalizeDoc) raws (placeAll base normalizeDoc s raws) := by
  induction raws with
  | nil => intro s; exact .nil
  | cons raw rest ih => intro s; exact .cons (place_places base normalizeDoc s raw) (ih _)

theorem exists_places_of_mem {normalizeDoc : Bool} {raws : List Text} {run : List Placement}
    (places : List.Forall₂ (Places normalizeDoc) raws run) {p : Placement} (member : p ∈ run) :
    ∃ raw ∈ raws, Places normalizeDoc raw p := by
  induction places with
  | nil => simp at member
  | @cons raw _ _ _ here _ ih =>
      rcases List.mem_cons.1 member with rfl | later
      · exact ⟨raw, by simp, here⟩
      · obtain ⟨other, inRest, there⟩ := ih later
        exact ⟨other, by simp [inRest], there⟩

/-! ## Writing a line -/

/-- Without doc normalisation, writing adds blanks only. -/
theorem trim_write {unit raw : Text} {p : Placement} (blank : ∀ c ∈ unit, isBlank c = true)
    (places : Places false raw p) : trim (p.write unit).text = trim raw := by
  have indent : ∀ level : Int, ∀ c ∈ times unit level, isBlank c = true := fun _ c member =>
    blank c (mem_of_mem_times member)
  cases places with
  | verbatim => rfl
  | keptComment => exact trim_trimEnd raw
  | starredComment level =>
      have spaced : ∀ c ∈ times unit level ++ [' '], isBlank c = true := by
        intro c member
        rcases List.mem_append.1 member with inUnit | isSpace
        · exact indent level c inUnit
        · rw [List.mem_singleton.1 isSpace]
          decide
      calc trim (times unit level ++ ' ' :: trim raw)
          = trim ((times unit level ++ [' ']) ++ trim raw) := by simp
        _ = trim (trim raw) := trim_blank_append _ spaced
        _ = trim raw := trim_trim raw
  | unstarredComment level asked => exact absurd asked (by decide)
  | blank empty => rw [empty]; rfl
  | indented level =>
      calc trim (times unit level ++ trim raw)
          = trim (trim raw) := trim_blank_append _ (indent level)
        _ = trim raw := trim_trim raw

/-- Writing adds no line break. -/
theorem breakFree_write {normalizeDoc : Bool} {unit raw : Text} {p : Placement}
    (unitPlain : BreakFree unit) (rawPlain : BreakFree raw) (places : Places normalizeDoc raw p) :
    BreakFree (p.write unit).text := by
  have indent : ∀ level : Int, BreakFree (times unit level) := fun _ c member =>
    unitPlain c (mem_of_mem_times member)
  have trimmedPlain : BreakFree (trim raw) := fun c member => rawPlain c (mem_of_mem_trim member)
  cases places with
  | verbatim => exact rawPlain
  | keptComment => exact fun c member => rawPlain c (mem_of_mem_trimEnd member)
  | starredComment level =>
      simp only [BreakFree, Placement.write, List.mem_append, List.mem_cons]
      rintro c (inUnit | rfl | inLine)
      · exact indent level c inUnit
      · decide
      · exact trimmedPlain c inLine
  | unstarredComment level asked =>
      simp only [BreakFree, Placement.write, List.mem_append]
      rintro c ((inUnit | inStar) | inLine)
      · exact indent level c inUnit
      · have star : BreakFree " *".toList := forall_mem_of_all (by decide)
        exact star c inStar
      · split at inLine
        · simp at inLine
        · rcases List.mem_cons.1 inLine with rfl | inTrimmed
          · decide
          · exact trimmedPlain c inTrimmed
  | blank empty => simp [BreakFree, Placement.write]
  | indented level =>
      simp only [BreakFree, Placement.write, List.mem_append]
      rintro c (inUnit | inLine)
      · exact indent level c inUnit
      · exact trimmedPlain c inLine

theorem map_trim_write {unit : Text} {raws : List Text} {run : List Placement}
    (blank : ∀ c ∈ unit, isBlank c = true) (places : List.Forall₂ (Places false) raws run) :
    ((run.map (·.write unit)).map (·.text)).map trim = raws.map trim := by
  induction places with
  | nil => rfl
  | cons here _ ih =>
      simp only [List.map_cons, trim_write blank here, ih]

theorem write_text_of_droppable {unit : Text} {p : Placement}
    (droppable : (p.write unit).droppable = true) : (p.write unit).text = [] := by
  cases p <;> first | rfl | simp [Placement.write] at droppable

/-! ## Blank lines -/

/-- The lines that are not empty. -/
def filled (lines : List Text) : List Text :=
  lines.filter fun line => !line.isEmpty

theorem filled_append (a b : List Text) : filled (a ++ b) = filled a ++ filled b :=
  List.filter_append a b

theorem filled_of_empty {lines : List Text} (empty : ∀ line ∈ lines, line = []) :
    filled lines = [] := by
  refine List.filter_eq_nil_iff.2 fun line member => ?_
  simp [empty line member]

/-- Empty lines say nothing. -/
theorem shown_filled (lines : List Text) : shown (filled lines) = shown lines := by
  induction lines with
  | nil => rfl
  | cons line rest ih =>
      rw [shown_cons, ← ih, filled, List.filter_cons]
      split
      · rw [shown_cons]
        rfl
      · rename_i empty
        have isNil : line = [] := by simpa using empty
        rw [isNil]
        rfl

/-- Droppable lines are empty, so merging them hides nothing. -/
theorem filled_collapseAfter (placed : List PlacedLine)
    (empty : ∀ line ∈ placed, line.droppable = true → line.text = []) :
    ∀ gap : Bool, filled (collapseAfter gap placed) = filled (placed.map (·.text)) := by
  induction placed with
  | nil => intro gap; rfl
  | cons line rest ih =>
      intro gap
      have later := ih fun other member => empty other (by simp [member])
      have own (rest : List Text) : filled (line.text :: rest) = filled [line.text] ++ filled rest :=
        filled_append [line.text] rest
      rw [List.map_cons, own, collapseAfter]
      by_cases dropped : line.droppable = true
      · rw [if_pos dropped, later, empty line (by simp) dropped]
        rfl
      · rw [if_neg dropped]
        cases gap with
        | true => rw [if_pos rfl, ← later false, ← own]; rfl
        | false => rw [if_neg (by decide), own, later]

/-- The placed lines without those that are dropped at either end, which are empty. -/
theorem exists_collapseAfter (base : Int) (unit : Text) (normalizeDoc : Bool) (text : Text) :
    ∃ lead placed trail, (placeAll base normalizeDoc (.start base) (lines text)).map (·.write unit) =
        lead ++ (placed ++ trail) ∧
      (∀ line ∈ lead ++ trail, line.text = []) ∧
      reindentLines base unit normalizeDoc text = collapseAfter false placed := by
  obtain ⟨run, isRun⟩ : ∃ run, run =
      (placeAll base normalizeDoc (.start base) (lines text)).map (·.write unit) := ⟨_, rfl⟩
  have empty : ∀ line ∈ run, line.droppable = true → line.text = [] := by
    rw [isRun]
    intro line member droppable
    obtain ⟨p, -, rfl⟩ := List.mem_map.1 member
    exact write_text_of_droppable droppable
  obtain ⟨trail, split, trailEmpty⟩ := exists_dropEndWhile_append (·.text.isEmpty) run
  have front := List.takeWhile_append_dropWhile (p := PlacedLine.droppable)
    (l := dropEndWhile (·.text.isEmpty) run)
  refine ⟨(dropEndWhile (·.text.isEmpty) run).takeWhile PlacedLine.droppable, _, trail, ?_, ?_,
    by rw [reindentLines, ← isRun]; rfl⟩
  · rw [← isRun, ← List.append_assoc, front]
    exact split
  · intro line member
    rcases List.mem_append.1 member with inLead | inTrail
    · refine empty line ?_ (List.mem_takeWhile_imp inLead)
      exact (dropEndWhile_begins _ run).subset ((List.takeWhile_subset _) inLead)
    · exact List.isEmpty_iff.1 (trailEmpty line inTrail)

/-- The lines that are written are those of the placements. -/
theorem filled_reindentLines (base : Int) (unit : Text) (normalizeDoc : Bool) (text : Text) :
    filled (reindentLines base unit normalizeDoc text) =
      filled (((placeAll base normalizeDoc (.start base) (lines text)).map (·.write unit)).map
        (·.text)) := by
  obtain ⟨lead, placed, trail, run, empty, isPlaced⟩ := exists_collapseAfter base unit normalizeDoc text
  have hidden : ∀ ends ⊆ lead ++ trail, filled (ends.map (·.text)) = [] := by
    intro ends within
    refine filled_of_empty fun line member => ?_
    obtain ⟨written, inEnds, rfl⟩ := List.mem_map.1 member
    exact empty written (within inEnds)
  rw [isPlaced, run, List.map_append, List.map_append, filled_append, filled_append,
    hidden lead (List.subset_append_left lead trail),
    hidden trail (List.subset_append_right lead trail), List.append_nil, List.nil_append]
  refine filled_collapseAfter placed (fun line member droppable => ?_) false
  have inRun : line ∈ (placeAll base normalizeDoc (.start base) (lines text)).map (·.write unit) := by
    rw [run]
    exact List.mem_append_right lead (List.mem_append_left trail member)
  obtain ⟨p, -, rfl⟩ := List.mem_map.1 inRun
  exact write_text_of_droppable droppable

/-- The lines that say something are those that the placements write. -/
theorem shown_reindentLines_placed (base : Int) (unit : Text) (normalizeDoc : Bool) (text : Text) :
    shown (reindentLines base unit normalizeDoc text) =
      shown (((placeAll base normalizeDoc (.start base) (lines text)).map (·.write unit)).map
        (·.text)) := by
  rw [← shown_filled, filled_reindentLines, shown_filled]

/-- The lines that say something are those of the source. -/
theorem shown_reindentLines {unit : Text} (blank : ∀ c ∈ unit, isBlank c = true) (base : Int)
    (text : Text) : shown (reindentLines base unit false text) = contents text := by
  have places := placeAll_places base false (lines text) (.start base)
  rw [shown_reindentLines_placed, shown, map_trim_write blank places, contents, shown]

/-! ## Breaks and ends -/

theorem mem_collapseAfter {placed : List PlacedLine} {line : Text} :
    ∀ {gap : Bool}, line ∈ collapseAfter gap placed →
      line = [] ∨ ∃ source ∈ placed, source.text = line := by
  induction placed with
  | nil => intro gap member; simp [collapseAfter] at member
  | cons head rest ih =>
      intro gap member
      have later : ∀ {gap : Bool}, line ∈ collapseAfter gap rest →
          line = [] ∨ ∃ source ∈ head :: rest, source.text = line := fun inRest =>
        (ih inRest).imp_right fun ⟨source, inSource, same⟩ => ⟨source, by simp [inSource], same⟩
      rw [collapseAfter] at member
      split at member
      · exact later member
      · split at member
        · rcases List.mem_cons.1 member with rfl | member
          · exact .inl rfl
          · rcases List.mem_cons.1 member with rfl | inRest
            · exact .inr ⟨head, by simp, rfl⟩
            · exact later inRest
        · rcases List.mem_cons.1 member with rfl | inRest
          · exact .inr ⟨head, by simp, rfl⟩
          · exact later inRest

theorem breakFree_reindentLines {unit : Text} (unitPlain : BreakFree unit) (base : Int)
    (normalizeDoc : Bool) (text : Text) :
    ∀ line ∈ reindentLines base unit normalizeDoc text, BreakFree line := by
  intro line member
  rcases mem_collapseAfter member with rfl | ⟨written, inPlaced, rfl⟩
  · simp [BreakFree]
  · have inAll := (dropEndWhile_begins _ _).sublist.mem ((List.dropWhile_sublist _).mem inPlaced)
    obtain ⟨p, inRun, rfl⟩ := List.mem_map.1 inAll
    have places := placeAll_places base normalizeDoc (lines text) (.start base)
    obtain ⟨raw, inLines, here⟩ := exists_places_of_mem places inRun
    exact breakFree_write unitPlain (breakFree_of_mem_lines text raw inLines) here

theorem getLast?_collapseAfter (placed : List PlacedLine) (last : PlacedLine)
    (kept : last.droppable = false) :
    ∀ gap : Bool, (collapseAfter gap (placed ++ [last])).getLast? = some last.text := by
  induction placed with
  | nil => intro gap; cases gap <;> simp [collapseAfter, kept]
  | cons line rest ih =>
      intro gap
      rw [List.cons_append, collapseAfter]
      split
      · exact ih true
      · split <;> simp [List.getLast?_cons, ih]

/-- The last line written is not empty. -/
theorem reindentLines_getLast_ne_nil (base : Int) (unit : Text) (normalizeDoc : Bool)
    (text : Text) : (reindentLines base unit normalizeDoc text).getLast? ≠ some [] := by
  obtain ⟨placed, isPlaced⟩ : ∃ placed, placed = dropEndWhile (·.text.isEmpty)
      ((placeAll base normalizeDoc (.start base) (lines text)).map (·.write unit)) := ⟨_, rfl⟩
  have result : reindentLines base unit normalizeDoc text = collapse placed := by
    rw [isPlaced, reindentLines]
  rw [result]
  rcases List.eq_nil_or_concat placed with empty | ⟨front, last, split⟩
  · simp [empty, collapse, collapseAfter]
  · have filled : last.text.isEmpty = false := by
      refine dropEndWhile_getLast (·.text.isEmpty)
        ((placeAll base normalizeDoc (.start base) (lines text)).map (·.write unit)) last ?_
      rw [← isPlaced, split]
      simp
    have fromRun : last ∈ (placeAll base normalizeDoc (.start base) (lines text)).map
        (·.write unit) := by
      refine (dropEndWhile_begins (·.text.isEmpty) _).sublist.mem ?_
      rw [← isPlaced, split]
      simp
    have kept : last.droppable = false := by
      obtain ⟨p, -, rfl⟩ := List.mem_map.1 fromRun
      by_contra droppable
      rw [write_text_of_droppable (by simpa using droppable)] at filled
      exact absurd filled (by decide)
    have dropped : ∃ rest, placed.dropWhile PlacedLine.droppable = rest ++ [last] := by
      refine ⟨front.dropWhile PlacedLine.droppable, ?_⟩
      rw [split, List.concat_eq_append, List.dropWhile_append]
      split
      · rename_i allDropped
        simp [List.isEmpty_iff.1 allDropped, kept]
      · rfl
    obtain ⟨rest, isRest⟩ := dropped
    rw [collapse, isRest, getLast?_collapseAfter rest last kept]
    intro empty
    rw [Option.some.inj empty] at filled
    exact absurd filled (by decide)

/-! ## One line by itself -/

/-- Nothing is open in front of the first line, so a line of code there stands at the level
it was asked for. -/
theorem place_start (base : Int) (normalizeDoc : Bool) {line : Text} (shows : trim line ≠ []) :
    (place base normalizeDoc (.start base) line).1 = .indented base (trim line) := by
  have noFrame : ∀ closers, touchedFrames [] closers = 0 := fun closers => rfl
  have noChain : ∀ code, chainIndent code none 0 = 0 := fun code => rfl
  unfold place
  dsimp only
  rw [if_neg (by simp [ScanState.scan, LayoutState.start, ScanState.start]),
    if_neg (by simp [ScanState.scan, LayoutState.start, ScanState.start]),
    if_neg (by simpa using shows), placeCode]
  simp [LayoutState.start, noFrame, noChain, openLevel, underLabel]

theorem reindentLines_line (base : Int) (unit : Text) (normalizeDoc : Bool) {line : Text}
    (plain : BreakFree line) (shows : trim line ≠ []) :
    reindentLines base unit normalizeDoc line = [times unit base ++ trim line] := by
  have run : placeAll base normalizeDoc (.start base) [line] = [.indented base (trim line)] :=
    congrArg (fun p => [p]) (place_start base normalizeDoc shows)
  have written : (Placement.write unit (.indented base (trim line))).text.isEmpty = false := by
    simp [Placement.write, shows]
  rw [reindentLines, lines_of_breakFree plain, run, List.map_singleton, dropEndWhile, dropEndWhile]
  simp only [written]
  rfl

end UiFormat.Layout

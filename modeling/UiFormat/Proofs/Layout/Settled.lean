/-
# UiFormat.Proofs.Layout.Settled -- reindented lines stay as they are

Lines are settled when the layout writes each of them as it stands, with at most one
blank line in front of it (`Settled`).  The lines that reindenting writes are settled
(`settled_reindentLines`), and settled lines are reindented to themselves
(`Settled.reindentLines_eq`).

Both rest on one line: what is written of a line is placed as the line was, and leaves
the layout in the same state (`place_write`).  That holds of a doc comment line that gains
a star, too: it is placed as a starred line then, and the star is passed over like the
blank behind it.  Blank lines that were dropped or merged do not matter, since a blank
line changes no state.

Main statement: `reindentBlock_reindentBlock`.
-/
import UiFormat.Proofs.Layout.Contents
import UiFormat.Proofs.Layout.LineBlanks

namespace UiFormat.Layout

open UiFormat.Text

set_option autoImplicit false

/-! ## One line -/

section

variable {unit : Text} (indents : ∀ c ∈ unit, c = ' ' ∨ c = '\t') (base : Int)

include indents

theorem indent_times (level : Int) : ∀ c ∈ times unit level, c = ' ' ∨ c = '\t' :=
  fun c member => indents c (mem_of_mem_times member)

/-- The written line shows what the line showed. -/
theorem scan_write {raw : Text} (plain : PlainLead raw) {p : Placement}
    (places : Places false raw p) (s : ScanState) : s.scan (p.write unit).text = s.scan raw := by
  cases places with
  | verbatim => rfl
  | keptComment => exact scan_trimEnd s raw
  | starredComment level =>
      have spaced : ∀ c ∈ times unit level ++ [' '], c = ' ' ∨ c = '\t' :=
        List.forall_mem_append.2 ⟨indent_times indents level, by simp⟩
      calc s.scan (times unit level ++ ' ' :: trim raw)
          = s.scan ((times unit level ++ [' ']) ++ trim raw) := by simp
        _ = s.scan (trim raw) := scan_indent_append spaced s _
        _ = s.scan raw := scan_trim plain s
  | unstarredComment level asked => exact absurd asked (by decide)
  | blank empty =>
      rw [← scan_trim plain s, empty]
      rfl
  | indented level =>
      calc s.scan (times unit level ++ trim raw)
          = s.scan (trim raw) := scan_indent_append (indent_times indents level) s _
        _ = s.scan raw := scan_trim plain s

/-- Without doc normalisation, what is written of a line is placed as the line was. -/
theorem place_write_plain {raw : Text} (plain : PlainLead raw) (s : LayoutState) :
    (place base false s ((place base false s raw).1.write unit).text).1.write unit =
        (place base false s raw).1.write unit ∧
      (place base false s ((place base false s raw).1.write unit).text).2 =
        (place base false s raw).2 := by
  have places := place_places base false s raw
  obtain ⟨line, written⟩ : ∃ line, line = ((place base false s raw).1.write unit).text := ⟨_, rfl⟩
  have scanned : s.scanner.scan line = s.scanner.scan raw := by
    rw [written]
    exact scan_write indents plain places s.scanner
  have trimmed : trim line = trim raw := by
    rw [written]
    refine trim_write (fun c member => ?_) places
    rcases indents c member with rfl | rfl <;> decide
  rw [← written]
  clear places
  unfold place placeComment at written ⊢
  simp only [scanned, trimmed, Bool.false_and, Bool.false_eq_true, if_false] at written ⊢
  split
  · rename_i inTemplate
    rw [if_pos inTemplate] at written
    rw [written]
    exact ⟨rfl, rfl⟩
  · rename_i outside
    rw [if_neg outside] at written
    split
    · rename_i inComment
      rw [if_pos inComment] at written
      refine ⟨?_, rfl⟩
      split
      · rfl
      · rename_i unstarred
        rw [if_neg unstarred] at written
        have again : trimEnd line = trimEnd raw := by
          rw [written]
          exact trimEnd_trimEnd raw
        rw [Placement.write, Placement.write, again]
    · exact ⟨rfl, rfl⟩

end

/-! ## Lines that gain a star -/

/-- The line stands in a doc comment and has no star, so that it gains one if asked to. -/
structure LayoutState.Unstarred (s : LayoutState) (raw : Text) : Prop where
  outside : s.scanner.templates = []
  inComment : s.scanner.inComment = true
  isDoc : s.scanner.docComment = true
  bare : startsWith (trim raw) ['*'] = false

/-- Doc normalisation does nothing to other lines. -/
theorem place_of_not_unstarred {s : LayoutState} {raw : Text} (other : ¬ s.Unstarred raw)
    (base : Int) : place base true s raw = place base false s raw := by
  unfold place placeComment
  dsimp only
  split
  · rfl
  · rename_i outside
    split
    · rename_i inComment
      split
      · rfl
      · rename_i bare
        have notDoc : s.scanner.docComment = false := by
          by_contra isDoc
          refine other ⟨?_, inComment, by simpa using isDoc, by simpa using bare⟩
          simpa [ScanState.scan] using outside
        simp [ScanState.scan, notDoc]
    · rfl

/-- The placement of a line in a comment outside template literals. -/
theorem place_of_comment {s : LayoutState} (outside : s.scanner.templates = [])
    (inComment : s.scanner.inComment = true) (base : Int) (normalizeDoc : Bool) (raw : Text) :
    place base normalizeDoc s raw =
      (placeComment normalizeDoc s (s.scanner.scan raw).1 raw,
        { s with
          scanner := (s.scanner.scan raw).2
          frames := applyEvents s.frames (s.scanner.scan raw).1.events s.commentLevel }) := by
  have noTemplate : (s.scanner.scan raw).1.startsInTemplate = false := by
    simp [ScanState.scan, outside]
  have commented : (s.scanner.scan raw).1.startsInComment = true := inComment
  unfold place
  dsimp only
  rw [if_neg (by simp [noTemplate]), if_pos commented]
  rfl

/-- A line behind a star. -/
def starred (line : Text) : Text :=
  '*' :: if line.isEmpty then [] else ' ' :: line

/-- A line that gains a star is written like a line that has one. -/
theorem write_unstarred (unit : Text) (level : Int) (line : Text) :
    (Placement.unstarredComment level line).write unit =
      (Placement.starredComment level (starred line)).write unit := by
  simp [Placement.write, starred]

theorem trim_starred (raw : Text) : trim (starred (trim raw)) = starred (trim raw) := by
  have starts : trimStart (starred (trim raw)) = starred (trim raw) :=
    trimStart_of_head? rfl (by decide)
  rw [trim, starts]
  refine dropEndWhile_eq_self fun c last => ?_
  unfold starred at last
  cases found : (trim raw).getLast? with
  | none =>
      rw [List.getLast?_eq_none_iff.1 found] at last
      cases last
      decide
  | some d =>
      have visible := dropEndWhile_getLast isBlank (trimStart raw) d found
      have filled : (trim raw).isEmpty = false := by
        rw [List.isEmpty_eq_false_iff]
        intro empty
        rw [empty] at found
        cases found
      rw [filled, if_neg Bool.false_ne_true, List.getLast?_cons_cons, List.getLast?_cons,
        found] at last
      cases last
      exact visible

/-- A star in a comment is passed over unless it closes the comment. -/
theorem walk_star {s : ScanState} (inComment : s.inComment = true) {line : Text}
    (apart : startsWith line ['/'] = false) :
    walk s ('*' :: line) = { walk s line with code := '*' :: (walk s line).code } := by
  have here : step s '*' line = some (.skip s 0) := by
    have noMark : after? "*/".toList ('*' :: line) = none := by
      cases line with
      | nil => rfl
      | cons c line =>
          have other : '/' ≠ c := by simpa [startsWith, List.isPrefixOf] using apart
          simp [after?, other]
    rw [step, if_pos inComment, commentStep, noMark]
    rfl
  rw [walk_of_some here]
  rfl

/-- Apart from its code, a line shows behind a star what it shows without. -/
theorem scan_starred {raw : Text} (plain : PlainLead raw) {s : ScanState}
    (inComment : s.inComment = true) :
    ∃ code, s.scan (starred (trim raw)) = ({ (s.scan raw).1 with code }, (s.scan raw).2) := by
  obtain ⟨tail, isTail⟩ :
      ∃ tail, tail = if (trim raw).isEmpty then [] else ' ' :: trim raw := ⟨_, rfl⟩
  have apart : startsWith tail ['/'] = false := by
    rw [isTail]
    split <;> rfl
  have shown : s.scan tail = s.scan raw := by
    rw [← scan_trim plain, isTail]
    split
    · rename_i empty
      rw [List.isEmpty_iff.1 empty]
    · exact @scan_indent_append [' '] (by simp) s (trim raw)
  refine ⟨trim ('*' :: (walk s tail).code), ?_⟩
  rw [← shown, starred, ← isTail, ScanState.scan, walk_star inComment apart]
  rfl

section

variable {unit : Text} (indents : ∀ c ∈ unit, c = ' ' ∨ c = '\t') (base : Int)

include indents

/-- A line that gained a star is placed as a starred line. -/
theorem place_write_unstarred {s : LayoutState} {raw : Text} (plain : PlainLead raw)
    (unstarred : s.Unstarred raw) :
    (place base true s ((place base true s raw).1.write unit).text).1.write unit =
        (place base true s raw).1.write unit ∧
      (place base true s ((place base true s raw).1.write unit).text).2 =
        (place base true s raw).2 := by
  obtain ⟨outside, inComment, isDoc, bare⟩ := unstarred
  have gains : (place base true s raw).1 = .unstarredComment s.commentLevel (trim raw) := by
    rw [place_of_comment outside inComment]
    simp [placeComment, bare, ScanState.scan, isDoc]
  have indented : ∀ c ∈ times unit s.commentLevel ++ [' '], c = ' ' ∨ c = '\t' :=
    List.forall_mem_append.2 ⟨indent_times indents _, by simp⟩
  obtain ⟨line, isLine⟩ : ∃ line,
      line = (times unit s.commentLevel ++ [' ']) ++ starred (trim raw) := ⟨_, rfl⟩
  have written : (place base true s raw).1.write unit = ⟨line, false⟩ := by
    rw [gains, write_unstarred, isLine, List.append_assoc]
    rfl
  have trimmed : trim line = starred (trim raw) := by
    rw [isLine, trim_blank_append, trim_starred]
    intro c member
    rcases indented c member with rfl | rfl <;> decide
  obtain ⟨code, shown⟩ := scan_starred plain inComment
  have scanned : s.scanner.scan line =
      ({ (s.scanner.scan raw).1 with code }, (s.scanner.scan raw).2) := by
    rw [isLine, scan_indent_append indented, shown]
  have again :
      (place base true s line).1 = .starredComment s.commentLevel (starred (trim raw)) := by
    rw [place_of_comment outside inComment, placeComment, trimmed]
    rfl
  rw [written]
  refine ⟨?_, ?_⟩
  · rw [again, ← write_unstarred, ← gains, written]
  · rw [place_of_comment outside inComment, place_of_comment outside inComment, scanned]

/-- **What is written of a line is placed as the line was**, and the state after it is
the same. -/
theorem place_write (normalizeDoc : Bool) {raw : Text} (plain : PlainLead raw) (s : LayoutState) :
    (place base normalizeDoc s ((place base normalizeDoc s raw).1.write unit).text).1.write unit =
        (place base normalizeDoc s raw).1.write unit ∧
      (place base normalizeDoc s ((place base normalizeDoc s raw).1.write unit).text).2 =
        (place base normalizeDoc s raw).2 := by
  cases normalizeDoc with
  | false => exact place_write_plain indents base plain s
  | true =>
      by_cases unstarred : s.Unstarred raw
      · exact place_write_unstarred indents base plain unstarred
      · have trimmed : trim ((place base false s raw).1.write unit).text = trim raw := by
          refine trim_write (fun c member => ?_) (place_places base false s raw)
          rcases indents c member with rfl | rfl <;> decide
        have still : ¬ s.Unstarred ((place base false s raw).1.write unit).text := by
          intro gains
          exact unstarred ⟨gains.outside, gains.inComment, gains.isDoc, trimmed ▸ gains.bare⟩
        rw [place_of_not_unstarred unstarred, place_of_not_unstarred still]
        exact place_write_plain indents base plain s

end

variable {normalizeDoc : Bool}

/-- Whatever is done with a line, it is scanned. -/
theorem scanner_place (base : Int) (s : LayoutState) (raw : Text) :
    (place base normalizeDoc s raw).2.scanner = (s.scanner.scan raw).2 := by
  unfold place
  dsimp only
  split
  · rfl
  · split
    · rfl
    · split
      · rfl
      · rfl

theorem placeAll_cons (base : Int) (s : LayoutState) (raw : Text) (rest : List Text) :
    placeAll base normalizeDoc s (raw :: rest) =
      (place base normalizeDoc s raw).1 ::
        placeAll base normalizeDoc (place base normalizeDoc s raw).2 rest :=
  rfl

theorem placeAll_append (base : Int) (s : LayoutState) (a b : List Text) :
    ∃ next, placeAll base normalizeDoc s (a ++ b) =
      placeAll base normalizeDoc s a ++ placeAll base normalizeDoc next b := by
  induction a generalizing s with
  | nil => exact ⟨s, rfl⟩
  | cons raw a ih =>
      obtain ⟨next, later⟩ := ih (place base normalizeDoc s raw).2
      refine ⟨next, ?_⟩
      rw [List.cons_append, placeAll_cons, placeAll_cons, later, List.cons_append]

theorem placeAll_take (base : Int) (s : LayoutState) (raws : List Text) (n : Nat) :
    (placeAll base normalizeDoc s raws).take n = placeAll base normalizeDoc s (raws.take n) := by
  induction raws generalizing s n with
  | nil => simp [placeAll]
  | cons raw raws ih =>
      cases n with
      | zero => rfl
      | succ n => rw [placeAll_cons, List.take_succ_cons, List.take_succ_cons, placeAll_cons, ih]

/-! ## Blank lines -/

/-- No comment and no template literal is open, so that a blank line is one. -/
def LayoutState.BetweenLines (s : LayoutState) : Prop :=
  s.scanner.templates = [] ∧ s.scanner.inComment = false

/-- A blank line changes no state. -/
theorem place_of_blank {s : LayoutState} (between : s.BetweenLines) {raw : Text}
    (empty : trim raw = []) (base : Int) : place base normalizeDoc s raw = (.blank, s) := by
  obtain ⟨n, walked⟩ := exists_walk_blank ((trim_eq_nil_iff raw).1 empty) s.scanner
  have after : (s.scanner.scan raw).2 = s.scanner := by
    simp only [ScanState.scan, walked]
  unfold place
  simp only [after, empty]
  simp [ScanState.scan, between.1, between.2]

theorem betweenLines_of_blank {base : Int} {s : LayoutState} {raw : Text}
    (blank : (place base normalizeDoc s raw).1 = .blank) : s.BetweenLines ∧ trim raw = [] := by
  unfold place placeComment at blank
  dsimp only at blank
  split at blank
  · cases blank
  · rename_i noTemplate
    split at blank
    · split at blank
      · cases blank
      · split at blank <;> cases blank
    · rename_i noComment
      split at blank
      · rename_i empty
        refine ⟨⟨?_, ?_⟩, List.isEmpty_iff.1 empty⟩
        · simpa [ScanState.scan] using noTemplate
        · simpa [ScanState.scan] using noComment
      · cases blank

theorem blank_of_droppable {unit : Text} {p : Placement}
    (droppable : (p.write unit).droppable = true) : p = .blank := by
  cases p <;> first | rfl | cases droppable

theorem eq_of_kept {line : PlacedLine} (kept : line.droppable = false) : line = ⟨line.text, false⟩ := by
  rw [← kept]

/-- Nothing is written of an empty line, unless it gains a star. -/
theorem text_write_place_nil (base : Int) (unit : Text) (s : LayoutState) :
    ((place base false s []).1.write unit).text = [] := by
  unfold place placeComment
  dsimp only
  split
  · rfl
  · split <;> rfl

/-! ## Settled lines -/

/-- From the state `s` on, every line is written as it stands, with at most one blank line
in front of it. -/
inductive Settled (base : Int) (normalizeDoc : Bool) (unit : Text) : LayoutState → List Text → Prop
  | nil (s : LayoutState) : Settled base normalizeDoc unit s []
  | kept {s : LayoutState} {line : Text} {rest : List Text}
      (here : (place base normalizeDoc s line).1.write unit = ⟨line, false⟩)
      (later : Settled base normalizeDoc unit (place base normalizeDoc s line).2 rest) :
      Settled base normalizeDoc unit s (line :: rest)
  | gap {s : LayoutState} {line : Text} {rest : List Text} (between : s.BetweenLines)
      (here : (place base normalizeDoc s line).1.write unit = ⟨line, false⟩)
      (later : Settled base normalizeDoc unit (place base normalizeDoc s line).2 rest) :
      Settled base normalizeDoc unit s ([] :: line :: rest)

section

variable {unit : Text} (indents : ∀ c ∈ unit, c = ' ' ∨ c = '\t') (base : Int)
  (normalizeDoc : Bool)

include indents

/-- The lines a run writes are settled, once its blank lines are merged. -/
theorem settled_collapseAfter {raws : List Text} (plain : ∀ raw ∈ raws, PlainLead raw)
    (s : LayoutState) (gap : Bool) (between : gap = true → s.BetweenLines) :
    Settled base normalizeDoc unit s
      (collapseAfter gap ((placeAll base normalizeDoc s raws).map (·.write unit))) := by
  induction raws generalizing s gap with
  | nil => exact .nil s
  | cons raw raws ih =>
      rw [List.forall_mem_cons] at plain
      have follow := ih plain.2 (place base normalizeDoc s raw).2
      rw [placeAll, List.map_cons, collapseAfter]
      cases droppable : ((place base normalizeDoc s raw).1.write unit).droppable with
      | true =>
          rw [if_pos rfl]
          obtain ⟨outside, empty⟩ := betweenLines_of_blank (blank_of_droppable droppable)
          have stays : (place base normalizeDoc s raw).2 = s := by
            rw [place_of_blank outside empty]
          rw [stays] at follow ⊢
          exact follow true fun _ => outside
      | false =>
          rw [if_neg Bool.false_ne_true]
          obtain ⟨line, written⟩ :
              ∃ line, (place base normalizeDoc s raw).1.write unit = ⟨line, false⟩ :=
            ⟨_, eq_of_kept droppable⟩
          obtain ⟨here, after⟩ := place_write indents base normalizeDoc plain.1 s
          rw [written] at here after ⊢
          have later := follow false (by simp)
          cases gap with
          | true => exact .gap (between rfl) here (by rw [after]; exact later)
          | false => exact .kept here (by rw [after]; exact later)

/-- The first line of what a run writes is not blank. -/
theorem settled_collapse {raws : List Text} (plain : ∀ raw ∈ raws, PlainLead raw)
    (s : LayoutState) :
    Settled base normalizeDoc unit s
        (collapse ((placeAll base normalizeDoc s raws).map (·.write unit))) ∧
      ∀ line ∈ (collapse ((placeAll base normalizeDoc s raws).map (·.write unit))).head?,
        ((place base normalizeDoc s line).1.write unit).droppable = false := by
  induction raws generalizing s with
  | nil => exact ⟨.nil s, by simp [placeAll, collapse, collapseAfter]⟩
  | cons raw raws ih =>
      cases droppable : ((place base normalizeDoc s raw).1.write unit).droppable with
      | true =>
          obtain ⟨outside, empty⟩ := betweenLines_of_blank (blank_of_droppable droppable)
          have stays : (place base normalizeDoc s raw).2 = s := by
            rw [place_of_blank outside empty]
          have dropped :
              collapse ((placeAll base normalizeDoc s (raw :: raws)).map (·.write unit)) =
              collapse ((placeAll base normalizeDoc s raws).map (·.write unit)) := by
            rw [placeAll, List.map_cons, stays, collapse, List.dropWhile_cons_of_pos droppable,
              collapse]
          rw [dropped]
          exact ih (List.forall_mem_cons.1 plain).2 s
      | false =>
          have kept :
              collapse ((placeAll base normalizeDoc s (raw :: raws)).map (·.write unit)) =
                collapseAfter false
                  ((placeAll base normalizeDoc s (raw :: raws)).map (·.write unit)) := by
            rw [placeAll, List.map_cons, collapse, List.dropWhile_cons_of_neg (by simp [droppable])]
          rw [kept]
          refine ⟨settled_collapseAfter indents base normalizeDoc plain s false (by simp), ?_⟩
          rw [placeAll, List.map_cons, collapseAfter, if_neg (by simp [droppable]),
            if_neg Bool.false_ne_true]
          intro line first
          cases first
          rw [(place_write indents base normalizeDoc (List.forall_mem_cons.1 plain).1 s).1, droppable]

/-- Reindented lines are settled. -/
theorem settled_reindentLines {text : Text} (plain : ∀ raw ∈ lines text, PlainLead raw) :
    Settled base normalizeDoc unit (.start base) (reindentLines base unit normalizeDoc text) ∧
      ∀ line ∈ (reindentLines base unit normalizeDoc text).head?,
        ((place base normalizeDoc (.start base) line).1.write unit).droppable = false := by
  have front := List.prefix_iff_eq_take.1 (dropEndWhile_begins
    (fun line : PlacedLine => line.text.isEmpty)
    ((placeAll base normalizeDoc (.start base) (lines text)).map (·.write unit)))
  rw [← List.map_take, placeAll_take] at front
  rw [reindentLines, front]
  exact settled_collapse indents base normalizeDoc
    (fun raw member => plain raw (List.mem_of_mem_take member)) _

end

namespace Settled

variable {base : Int} {normalizeDoc : Bool} {unit : Text} {s : LayoutState} {rows : List Text}

/-- Placing settled lines writes the same texts. -/
theorem map_text (settled : Settled base normalizeDoc unit s rows) :
    ((placeAll base normalizeDoc s rows).map (·.write unit)).map (·.text) = rows := by
  induction settled with
  | nil s => rfl
  | kept here later ih => rw [placeAll_cons, List.map_cons, List.map_cons, here, ih]
  | gap between here later ih =>
      rw [placeAll_cons, place_of_blank between rfl, placeAll_cons]
      simp only [List.map_cons, here, ih]
      rfl

/-- Merging blank lines leaves settled lines alone. -/
theorem collapseAfter_eq (settled : Settled base normalizeDoc unit s rows) :
    collapseAfter false ((placeAll base normalizeDoc s rows).map (·.write unit)) = rows := by
  induction settled with
  | nil s => rfl
  | kept here later ih =>
      rw [placeAll_cons, List.map_cons, here, collapseAfter, ih]
      rfl
  | gap between here later ih =>
      rw [placeAll_cons, place_of_blank between rfl, placeAll_cons, List.map_cons, List.map_cons,
        here, Placement.write, collapseAfter, if_pos rfl, collapseAfter, ih]
      rfl

/-- **Settled lines are reindented to themselves**, also in front of one empty line that
cannot gain a star. -/
theorem reindentLines_eq (settled : Settled base normalizeDoc unit (.start base) rows)
    (first : ∀ line ∈ rows.head?,
      ((place base normalizeDoc (.start base) line).1.write unit).droppable = false)
    (last : rows.getLast? ≠ some []) {text : Text}
    (split : lines text = rows ∨ (normalizeDoc = false ∧ lines text = rows ++ [[]])) :
    reindentLines base unit normalizeDoc text = rows := by
  obtain ⟨placed, isPlaced⟩ : ∃ placed, placed =
      (placeAll base normalizeDoc (.start base) rows).map (·.write unit) := ⟨_, rfl⟩
  have texts : placed.map (·.text) = rows := isPlaced ▸ settled.map_text
  obtain ⟨tail, all, empty⟩ : ∃ tail : List PlacedLine,
      (placeAll base normalizeDoc (.start base) (lines text)).map (·.write unit) = placed ++ tail ∧
        ∀ line ∈ tail, line.text.isEmpty = true := by
    rcases split with same | ⟨rfl, more⟩
    · exact ⟨[], by rw [same, isPlaced, List.append_nil], by simp⟩
    · obtain ⟨next, apart⟩ := placeAll_append base (.start base) rows [[]]
      refine ⟨(placeAll base false next [[]]).map (·.write unit), ?_, ?_⟩
      · rw [more, apart, List.map_append, isPlaced]
      · intro line member
        rw [placeAll_cons] at member
        cases List.mem_singleton.1 member
        exact List.isEmpty_iff.2 (text_write_place_nil base unit next)
  have kept : dropEndWhile (·.text.isEmpty) (placed ++ tail) = placed := by
    rw [dropEndWhile_append_of_all _ _ _ empty]
    refine dropEndWhile_eq_self fun line isLast => ?_
    rw [← texts, List.getLast?_map, Option.mem_def.1 isLast] at last
    simpa using last
  have begins : placed.dropWhile PlacedLine.droppable = placed := by
    cases rows with
    | nil =>
        rw [isPlaced]
        rfl
    | cons row rows =>
        rw [isPlaced, placeAll_cons, List.map_cons, List.dropWhile_cons_of_neg]
        simpa using first row rfl
  rw [reindentLines, all, kept, collapse, begins, isPlaced]
  exact settled.collapseAfter_eq

end Settled

/-! ## Whole texts -/

/-- The text holds no blanks other than spaces, tabs and line breaks. -/
def PlainBlanks (text : Text) : Prop :=
  ∀ c ∈ text, isBlank c = true → isPlainBlank c = true

instance (text : Text) : Decidable (PlainBlanks text) :=
  decidable_of_iff ((text.all fun c => !isBlank c || isPlainBlank c) = true) (by
    simp [PlainBlanks, imp_iff_not_or])

/-- The lines of such a text begin with spaces and tabs. -/
theorem PlainBlanks.plainLead {text : Text} (plain : PlainBlanks text) :
    ∀ line ∈ lines text, PlainLead line := by
  intro line isLine c inLead
  have inLine : c ∈ line := (List.takeWhile_sublist _).mem inLead
  have unbroken : isBreak c = false := breakFree_of_mem_lines text line isLine c inLine
  have blank : isPlainBlank c = true :=
    plain c (mem_of_mem_lines text line isLine c inLine) (List.mem_takeWhile_imp inLead)
  rcases isPlainBlank_iff.1 blank with rfl | rfl | rfl | rfl
  · exact .inl rfl
  · exact .inr rfl
  · cases unbroken
  · cases unbroken

theorem reindentLines_nil (base : Int) (unit : Text) (normalizeDoc : Bool) :
    reindentLines base unit normalizeDoc [] = [] :=
  rfl

/-- **Reindenting is idempotent.**  Reindented text is reindented to itself, from whatever
level and with doc comments normalised or not. -/
theorem reindentBlock_reindentBlock {eol unit text : Text} (terminator : IsTerminator eol)
    (indents : ∀ c ∈ unit, c = ' ' ∨ c = '\t') (plain : PlainBlanks text) (base : Int)
    (normalizeDoc : Bool) :
    reindentBlock base unit eol normalizeDoc (reindentBlock base unit eol normalizeDoc text) =
      reindentBlock base unit eol normalizeDoc text := by
  have unbroken : BreakFree unit := by
    intro c member
    rcases indents c member with rfl | rfl <;> decide
  obtain ⟨rows, written⟩ : ∃ rows, reindentLines base unit normalizeDoc text = rows := ⟨_, rfl⟩
  obtain ⟨settled, first⟩ := settled_reindentLines indents base normalizeDoc plain.plainLead
  have last := reindentLines_getLast_ne_nil base unit normalizeDoc text
  have broken := breakFree_reindentLines unbroken base normalizeDoc text
  rw [written] at settled first last broken
  have again : reindentLines base unit normalizeDoc (join eol rows) = rows := by
    by_cases none : rows = []
    · rw [none]
      exact reindentLines_nil base unit normalizeDoc
    · exact settled.reindentLines_eq first last (.inl (lines_join terminator rows none broken))
  rw [reindentBlock, reindentBlock, written, again]

/-- A doc comment without stars, a template literal, blank runs and a call chain. -/
def unkemptBlock : Text :=
  "\n\x7b\r\n /**\n text\n\n*/\n\n\nlet a = \x60x\n\n  y\x60\n.b(\n)\n\x7d /**\n\n last \n\n".toList

theorem reindentBlock_unkemptBlock :
    let written := reindentBlock 1 ['\t'] ['\r', '\n'] true unkemptBlock
    written ≠ unkemptBlock ∧ reindentBlock 1 ['\t'] ['\r', '\n'] true written = written := by
  intro written
  obtain ⟨plain, changed⟩ : PlainBlanks unkemptBlock ∧
      reindentBlock 1 ['\t'] ['\r', '\n'] true unkemptBlock ≠ unkemptBlock := by
    rw [show unkemptBlock = _ from String.toList_ofList]
    decide +kernel
  exact ⟨changed, reindentBlock_reindentBlock (.inr (.inl rfl)) (by simp) plain 1 true⟩

end UiFormat.Layout

/-
# UiFormat.Proofs.Layout.BaseLevel -- the same text at another level

The level a text is asked to stand at enters the layout in two ways: it is the level of the
outermost lines, and the level of the comment before any is open.  A run at another base level
keeps all levels apart by the same amount (`shift`): the open frames, the level of the comment
and the placements.  One line keeps that (`place_shift`), so a run does (`placeAll_shift`).

No level is below the base level (`place_atLeast`), so from level 0 on a deeper line is written
with that many more units in front.  Which lines are kept does not depend on levels, so two
outputs of one text correspond line by line.

Main statement: `reindentLines_nested`.
-/
import UiFormat.Proofs.Layout.Gaps

namespace UiFormat.Layout

open UiFormat.Text

set_option autoImplicit false

/-! ## Levels moved by an amount -/

/-- The frame of a line that stands `d` levels deeper. -/
def Frame.shift (d : Int) (frame : Frame) : Frame :=
  { frame with indent := frame.indent + d }

/-- The state of a run whose levels are all `d` deeper. -/
def LayoutState.shift (d : Int) (s : LayoutState) : LayoutState :=
  { s with frames := s.frames.map (Frame.shift d), commentLevel := s.commentLevel + d }

/-- The placement `d` levels deeper. -/
def Placement.shift (d : Int) : Placement → Placement
  | .starredComment level trimmed => .starredComment (level + d) trimmed
  | .unstarredComment level trimmed => .unstarredComment (level + d) trimmed
  | .indented level trimmed => .indented (level + d) trimmed
  | other => other

section

variable (d base : Int) (frames : List Frame)

theorem touchedFrames_shift (closers : Nat) :
    touchedFrames (frames.map (Frame.shift d)) closers = touchedFrames frames closers := by
  induction frames generalizing closers with
  | nil => rfl
  | cons frame outer ih =>
      cases closers with
      | zero => rfl
      | succ closers => exact congrArg (· + 1) (ih _)

theorem openLevel_shift :
    openLevel (base + d) (frames.map (Frame.shift d)) = openLevel base frames + d := by
  cases frames with
  | nil => rfl
  | cons frame outer =>
      simp only [List.map_cons, openLevel, Frame.shift]
      omega

theorem touchedLevel_shift (touched : Nat) :
    touchedLevel (base + d) (frames.map (Frame.shift d)) touched =
      touchedLevel base frames touched + d := by
  rw [touchedLevel, touchedLevel, List.getElem?_map]
  cases frames[touched - 1]? <;> rfl

theorem applyEvent_shift (level : Int) (own : Bool) (c : Char) :
    applyEvent (level + d) (own, frames.map (Frame.shift d)) c =
      ((applyEvent level (own, frames) c).1,
        (applyEvent level (own, frames) c).2.map (Frame.shift d)) := by
  cases opens : isOpener c with
  | true =>
      simp only [applyEvent, opens, if_true]
      cases own with
      | false => rfl
      | true => cases frames <;> rfl
  | false =>
      simp only [applyEvent, opens, Bool.false_eq_true, if_false]
      cases frames with
      | nil => rfl
      | cons frame outer => by_cases last : frame.count ≤ 1 <;> simp [Frame.shift, last]

theorem applyEvents_shift (events : List Char) (level : Int) :
    applyEvents (frames.map (Frame.shift d)) events (level + d) =
      (applyEvents frames events level).map (Frame.shift d) := by
  suffices run : ∀ own frames,
      events.foldl (applyEvent (level + d)) (own, frames.map (Frame.shift d)) =
        ((events.foldl (applyEvent level) (own, frames)).1,
          (events.foldl (applyEvent level) (own, frames)).2.map (Frame.shift d)) from
    congrArg Prod.snd (run false frames)
  induction events with
  | nil => exact fun own frames => rfl
  | cons c events ih =>
      intro own frames
      rw [List.foldl_cons, List.foldl_cons, applyEvent_shift, ih]

/-- Switch blocks go by the number of frames. -/
theorem updateSwitches_shift (opens : Bool) (switches : List SwitchBlock) :
    updateSwitches (frames.map (Frame.shift d)) opens switches =
      updateSwitches frames opens switches := by
  simp [updateSwitches]

theorem inSwitch_shift (switches : List SwitchBlock) :
    inSwitch (frames.map (Frame.shift d)) switches = inSwitch frames switches := by
  cases switches <;> simp [inSwitch]

theorem underLabel_shift (switches : List SwitchBlock) :
    underLabel (frames.map (Frame.shift d)) switches = underLabel frames switches := by
  cases switches <;> simp [underLabel]

end

/-! ## The level of a line of code -/

/-- The levels a line of code gains in a call chain; none behind closing brackets. -/
def codeChain (s : LayoutState) (scan : LineScan) (trimmed : Text) : Int :=
  if touchedFrames s.frames scan.leadingClosers = 0 then
    chainIndent trimmed s.previousCode s.previousChain
  else 0

/-- The level of a line of code. -/
def codeLevel (base : Int) (s : LayoutState) (scan : LineScan) (trimmed : Text) : Int :=
  let touched := touchedFrames s.frames scan.leadingClosers
  if touched = 0 then
    openLevel base s.frames + (if !isCaseLabel trimmed && underLabel s.frames s.switches then 1 else 0)
      + codeChain s scan trimmed
  else touchedLevel base s.frames touched

theorem placeCode_eq (base : Int) (s : LayoutState) (scan : LineScan) (trimmed : Text) :
    placeCode base s scan trimmed =
      let level := codeLevel base s scan trimmed
      let frames := applyEvents s.frames scan.events level
      (.indented level trimmed,
       { s with
         frames
         switches := updateSwitches frames (isSwitchHead trimmed && endsWith scan.code ['{'])
           (if touchedFrames s.frames scan.leadingClosers = 0 && inSwitch s.frames s.switches then
              markCase (isCaseLabel trimmed) s.switches
            else s.switches)
         commentLevel := if scan.endsInComment then level else s.commentLevel
         previousCode := if scan.code.isEmpty then s.previousCode else some scan.code
         previousChain :=
           if scan.code.isEmpty then s.previousChain else codeChain s scan trimmed }) :=
  rfl

section

variable (d base : Int) (normalizeDoc : Bool) (s : LayoutState)

theorem codeLevel_shift (scan : LineScan) (trimmed : Text) :
    codeLevel (base + d) (s.shift d) scan trimmed = codeLevel base s scan trimmed + d := by
  unfold codeLevel codeChain
  simp only [LayoutState.shift, touchedFrames_shift, openLevel_shift, touchedLevel_shift,
    underLabel_shift]
  split
  · omega
  · rfl

theorem placeCode_shift (scan : LineScan) (trimmed : Text) :
    placeCode (base + d) (s.shift d) scan trimmed =
      ((placeCode base s scan trimmed).1.shift d, (placeCode base s scan trimmed).2.shift d) := by
  have comment : (if scan.endsInComment then codeLevel base s scan trimmed + d
      else s.commentLevel + d) =
        (if scan.endsInComment then codeLevel base s scan trimmed else s.commentLevel) + d := by
    split <;> rfl
  rw [placeCode_eq, placeCode_eq, codeLevel_shift]
  simp only [LayoutState.shift, codeChain, touchedFrames_shift, inSwitch_shift,
    applyEvents_shift, updateSwitches_shift, comment]
  rfl

theorem placeComment_shift (scan : LineScan) (raw : Text) :
    placeComment normalizeDoc (s.shift d) scan raw =
      (placeComment normalizeDoc s scan raw).shift d := by
  unfold placeComment
  dsimp only
  split
  · rfl
  · split <;> rfl

/-- One line. -/
theorem place_shift (raw : Text) :
    place (base + d) normalizeDoc (s.shift d) raw =
      ((place base normalizeDoc s raw).1.shift d, (place base normalizeDoc s raw).2.shift d) := by
  have scanned : (s.shift d).scanner = s.scanner := rfl
  have next : ({ s.shift d with scanner := (s.scanner.scan raw).2 } : LayoutState) =
      ({ s with scanner := (s.scanner.scan raw).2 } : LayoutState).shift d := rfl
  have inTemplate (events : List Char) :
      applyEvents (s.shift d).frames events (openLevel (base + d) (s.shift d).frames) =
        (applyEvents s.frames events (openLevel base s.frames)).map (Frame.shift d) := by
    rw [LayoutState.shift, openLevel_shift, applyEvents_shift]
  have inComment (events : List Char) :
      applyEvents (s.shift d).frames events (s.shift d).commentLevel =
        (applyEvents s.frames events s.commentLevel).map (Frame.shift d) :=
    applyEvents_shift ..
  unfold place
  dsimp only
  rw [scanned, next]
  split
  · -- inside a template literal the line has no level, but its brackets make frames at one
    rw [inTemplate]
    rfl
  · split
    · rw [placeComment_shift, inComment]
      rfl
    · split
      · rfl
      · exact placeCode_shift ..

/-- All lines. -/
theorem placeAll_shift (raws : List Text) :
    placeAll (base + d) normalizeDoc (s.shift d) raws =
      (placeAll base normalizeDoc s raws).map (Placement.shift d) := by
  induction raws generalizing s with
  | nil => rfl
  | cons raw raws ih => rw [placeAll_cons, placeAll_cons, place_shift, List.map_cons, ih]

end

/-- All lines of a text. -/
theorem placeAll_start (b : Int) (normalizeDoc : Bool) (raws : List Text) :
    placeAll b normalizeDoc (.start b) raws =
      (placeAll 0 normalizeDoc (.start 0) raws).map (Placement.shift b) := by
  have start : (LayoutState.start 0).shift b = .start b := by
    simp [LayoutState.start, LayoutState.shift]
  have shifted := placeAll_shift b 0 normalizeDoc (.start 0) raws
  rwa [start, Int.zero_add] at shifted

/-! ## No level is below the base level -/

/-- The level a line is placed at, unless it is written as it stands. -/
def Placement.level? : Placement → Option Int
  | .starredComment level _ => some level
  | .unstarredComment level _ => some level
  | .indented level _ => some level
  | _ => none

/-- No level of the state is below `base`. -/
structure LayoutState.AtLeast (base : Int) (s : LayoutState) : Prop where
  frames : ∀ frame ∈ s.frames, base ≤ frame.indent
  comment : base ≤ s.commentLevel
  chain : 0 ≤ s.previousChain

section

variable {base : Int}

theorem atLeast_start (base : Int) : (LayoutState.start base).AtLeast base :=
  { frames := by simp [LayoutState.start]
    comment := Int.le_refl base
    chain := Int.le_refl 0 }

theorem le_of_mem_applyEvent {level : Int} (high : base ≤ level) {frames : List Frame}
    (levels : ∀ frame ∈ frames, base ≤ frame.indent) (own : Bool) (c : Char) :
    ∀ frame ∈ (applyEvent level (own, frames) c).2, base ≤ frame.indent := by
  have made : ∀ frame ∈ Frame.mk 1 level :: frames, base ≤ frame.indent :=
    List.forall_mem_cons.2 ⟨high, levels⟩
  cases opens : isOpener c with
  | true =>
      simp only [applyEvent, opens, if_true]
      cases own with
      | false => exact made
      | true =>
          cases frames with
          | nil => exact made
          | cons frame outer => exact List.forall_mem_cons.2 (List.forall_mem_cons.1 levels)
  | false =>
      simp only [applyEvent, opens, Bool.false_eq_true, if_false]
      cases frames with
      | nil => exact levels
      | cons frame outer =>
          obtain ⟨here, further⟩ := List.forall_mem_cons.1 levels
          dsimp only
          split
          · exact further
          · exact List.forall_mem_cons.2 ⟨here, further⟩

theorem le_of_mem_applyEvents {level : Int} (high : base ≤ level) {frames : List Frame}
    (levels : ∀ frame ∈ frames, base ≤ frame.indent) (events : List Char) :
    ∀ frame ∈ applyEvents frames events level, base ≤ frame.indent := by
  unfold applyEvents
  generalize false = own
  induction events generalizing own frames with
  | nil => exact levels
  | cons c events ih => exact ih (le_of_mem_applyEvent high levels own c) _

theorem le_openLevel {frames : List Frame} (levels : ∀ frame ∈ frames, base ≤ frame.indent) :
    base ≤ openLevel base frames := by
  cases frames with
  | nil => exact Int.le_refl base
  | cons frame outer =>
      have here := (List.forall_mem_cons.1 levels).1
      simp only [openLevel]
      omega

theorem le_touchedLevel {frames : List Frame} (levels : ∀ frame ∈ frames, base ≤ frame.indent)
    (touched : Nat) : base ≤ touchedLevel base frames touched := by
  unfold touchedLevel
  split
  · rename_i frame found
    exact levels frame (List.mem_of_getElem? found)
  · exact Int.le_refl base

theorem chainIndent_nonneg {gained : Int} (some : 0 ≤ gained) (code : Text) (before : Option Text) :
    0 ≤ chainIndent code before gained := by
  unfold chainIndent
  split
  · exact Int.le_refl 0
  · split
    · exact Int.le_refl 0
    · split_ifs <;> omega

variable {s : LayoutState}

theorem codeChain_nonneg (atLeast : s.AtLeast base) (scan : LineScan) (trimmed : Text) :
    0 ≤ codeChain s scan trimmed := by
  unfold codeChain
  split
  · exact chainIndent_nonneg atLeast.chain _ _
  · exact Int.le_refl 0

theorem le_codeLevel (atLeast : s.AtLeast base) (scan : LineScan) (trimmed : Text) :
    base ≤ codeLevel base s scan trimmed := by
  have inner := le_openLevel atLeast.frames
  have chain := codeChain_nonneg atLeast scan trimmed
  unfold codeLevel
  dsimp only
  split_ifs
  · omega
  · omega
  · exact le_touchedLevel atLeast.frames _

variable (normalizeDoc : Bool)

theorem placeCode_atLeast (atLeast : s.AtLeast base) (scan : LineScan) (trimmed : Text) :
    (∀ level ∈ (placeCode base s scan trimmed).1.level?, base ≤ level) ∧
      (placeCode base s scan trimmed).2.AtLeast base := by
  have high := le_codeLevel atLeast scan trimmed
  rw [placeCode_eq]
  refine ⟨fun level own => ?_, le_of_mem_applyEvents high atLeast.frames _, ?_, ?_⟩
  · cases own
    exact high
  · dsimp only
    split
    · exact high
    · exact atLeast.comment
  · dsimp only
    split
    · exact atLeast.chain
    · exact codeChain_nonneg atLeast scan trimmed

theorem le_of_level?_placeComment (atLeast : s.AtLeast base) (scan : LineScan) (raw : Text) :
    ∀ level ∈ (placeComment normalizeDoc s scan raw).level?, base ≤ level := by
  intro level own
  unfold placeComment at own
  dsimp only at own
  split_ifs at own
  · cases own
    exact atLeast.comment
  · cases own
    exact atLeast.comment
  · cases own

/-- One line. -/
theorem place_atLeast (atLeast : s.AtLeast base) (raw : Text) :
    (∀ level ∈ (place base normalizeDoc s raw).1.level?, base ≤ level) ∧
      (place base normalizeDoc s raw).2.AtLeast base := by
  obtain ⟨levels, comment, chain⟩ := atLeast
  have scanned : ({ s with scanner := (s.scanner.scan raw).2 } : LayoutState).AtLeast base :=
    ⟨levels, comment, chain⟩
  unfold place
  dsimp only
  split
  · refine ⟨fun level own => ?_, le_of_mem_applyEvents (le_openLevel levels) levels _, comment, chain⟩
    cases own
  · split
    · exact ⟨le_of_level?_placeComment normalizeDoc scanned _ raw,
        le_of_mem_applyEvents comment levels _, comment, chain⟩
    · split
      · exact ⟨(fun level own => by cases own), scanned⟩
      · exact placeCode_atLeast scanned _ _

/-- All lines. -/
theorem le_of_mem_placeAll (atLeast : s.AtLeast base) {raws : List Text} {p : Placement}
    (member : p ∈ placeAll base normalizeDoc s raws) : ∀ level ∈ p.level?, base ≤ level := by
  induction raws generalizing s with
  | nil => cases member
  | cons raw raws ih =>
      obtain ⟨here, next⟩ := place_atLeast normalizeDoc atLeast raw
      rw [placeAll_cons] at member
      rcases List.mem_cons.1 member with rfl | later
      · exact here
      · exact ih next later

end

/-! ## Written lines -/

theorem times_add (unit : Text) {level : Int} (high : 0 ≤ level) (b : Nat) :
    times unit (level + b) = times unit b ++ times unit level := by
  have count : (level + b).toNat = (b : Int).toNat + level.toNat := by omega
  rw [times, times, times, count, List.replicate_add, List.flatten_append]

/-- A line with a level is written that many units deeper. -/
theorem write_shift (unit : Text) {p : Placement} {level : Int} (own : p.level? = some level)
    (high : 0 ≤ level) (b : Nat) :
    ((p.shift b).write unit).text = times unit b ++ (p.write unit).text := by
  cases p with
  | starredComment other trimmed =>
      cases own
      simp [Placement.shift, Placement.write, times_add unit high]
  | unstarredComment other trimmed =>
      cases own
      simp [Placement.shift, Placement.write, times_add unit high]
  | indented other trimmed =>
      cases own
      simp [Placement.shift, Placement.write, times_add unit high]
  | _ => cases own

/-- Which lines are kept does not depend on their levels. -/
theorem keptRows_shift (d : Int) (run : List Placement) :
    keptRows (run.map (Placement.shift d)) = keptRows run := by
  have empty : ∀ p ∈ run, (p.shift d).isEmpty = p.isEmpty := fun p _ => by cases p <;> rfl
  have blank : ((!·.isBlank) ∘ Placement.shift d : Placement → Bool) = (!·.isBlank) :=
    funext fun p => by cases p <;> rfl
  rw [keptRows, dropEndWhile_map empty, List.findIdxs_map, blank, keptRows]

/-! ## Two outputs of one text -/

/-- A line that starts inside a comment is kept as it stands: it has no star and gains none. -/
def LineScan.keepsComment (normalizeDoc : Bool) (scan : LineScan) (raw : Text) : Bool :=
  scan.startsInComment && !startsWith (trim raw) ['*'] && !(normalizeDoc && scan.commentIsDoc)

/-- Two lines of output that stem from one line of a text, or from none: the second is the first
with `b` units in front, unless both are a blank line, the line starts inside a template literal,
or it is kept inside a comment. -/
inductive Nests (b : Nat) (unit : Text) (normalizeDoc : Bool) (text : Text) :
    Option Nat → Text → Text → Prop
  | blank : Nests b unit normalizeDoc text none [] []
  | inTemplate {n : Nat} {raw : Text} {scan : LineScan} (here : (lines text)[n]? = some raw)
      (scanned : (scanLines .start (lines text))[n]? = some scan)
      (inside : scan.startsInTemplate = true) : Nests b unit normalizeDoc text (some n) raw raw
  | inComment {n : Nat} {raw : Text} {scan : LineScan} (here : (lines text)[n]? = some raw)
      (scanned : (scanLines .start (lines text))[n]? = some scan)
      (outside : scan.startsInTemplate = false) (kept : scan.keepsComment normalizeDoc raw = true) :
      Nests b unit normalizeDoc text (some n) (trimEnd raw) (trimEnd raw)
  | deeper {n : Nat} {raw line : Text} {scan : LineScan} (here : (lines text)[n]? = some raw)
      (scanned : (scanLines .start (lines text))[n]? = some scan)
      (outside : scan.startsInTemplate = false) (moves : scan.keepsComment normalizeDoc raw = false)
      (ends : trim raw <:+ line) : Nests b unit normalizeDoc text (some n) line (times unit b ++ line)

/-- What is written of a line says at its end what the line says. -/
theorem trim_suffix_write {p : Placement} {level : Int} {trimmed : Text} (unit : Text)
    (kind : p = .starredComment level trimmed ∨ p = .unstarredComment level trimmed ∨
      p = .indented level trimmed) : trimmed <:+ (p.write unit).text := by
  rcases kind with rfl | rfl | rfl
  · exact (List.suffix_cons ' ' trimmed).trans (List.suffix_append _ _)
  · cases trimmed with
    | nil => exact List.nil_suffix
    | cons c trimmed => exact (List.suffix_cons ' ' _).trans (List.suffix_append _ _)
  · exact List.suffix_append _ _

section

variable {base : Int} {normalizeDoc : Bool}

/-- How a line is placed, by what it starts inside of. -/
theorem place_kind (s : LayoutState) (raw : Text) :
    let scan := (s.scanner.scan raw).1
    let p := (place base normalizeDoc s raw).1
    (scan.startsInTemplate = true ∧ p = .verbatim raw) ∨
      (scan.startsInTemplate = false ∧ scan.keepsComment normalizeDoc raw = true ∧
        p = .keptComment raw) ∨
      (scan.startsInTemplate = false ∧ scan.keepsComment normalizeDoc raw = false ∧
        (p = .blank ∨ ∃ level, p = .starredComment level (trim raw) ∨
          p = .unstarredComment level (trim raw) ∨ p = .indented level (trim raw))) := by
  intro scan p
  cases inTemplate : scan.startsInTemplate with
  | true =>
      refine .inl ⟨rfl, ?_⟩
      simp only [p, place]
      rw [if_pos inTemplate]
  | false =>
      cases inComment : scan.startsInComment with
      | true =>
          have placed : p = placeComment normalizeDoc
              { s with scanner := (s.scanner.scan raw).2 } scan raw := by
            simp only [p, place]
            rw [if_neg (by simpa using inTemplate), if_pos inComment]
          rw [placed]
          unfold placeComment LineScan.keepsComment
          by_cases star : startsWith (trim raw) ['*'] = true
          · rw [if_pos star]
            exact .inr (.inr ⟨rfl, by simp [star], .inr ⟨_, .inl rfl⟩⟩)
          · rw [if_neg star]
            by_cases gains : (normalizeDoc && scan.commentIsDoc) = true
            · rw [if_pos gains]
              exact .inr (.inr ⟨rfl, by simp [gains], .inr ⟨_, .inr (.inl rfl)⟩⟩)
            · rw [if_neg gains]
              exact .inr (.inl ⟨rfl, by simp [inComment, star, gains], rfl⟩)
      | false =>
          have code : scan.inCode = true := by simp [LineScan.inCode, inTemplate, inComment]
          have placed := @place_of_code base normalizeDoc _ _ code
          refine .inr (.inr ⟨rfl, by simp [LineScan.keepsComment, inComment], ?_⟩)
          by_cases empty : (trim raw).isEmpty = true
          · rw [if_pos empty] at placed
            exact .inl (congrArg Prod.fst placed)
          · rw [if_neg empty] at placed
            exact .inr ⟨_, .inr (.inr (congrArg Prod.fst placed))⟩

end

/-- A line that is kept, written at level 0 and at a deeper one. -/
theorem nests_writtenRow (b : Nat) (unit : Text) (normalizeDoc : Bool) (text : Text) {n : Nat}
    (kept : n ∈ keptRows (placeAll 0 normalizeDoc (.start 0) (lines text))) :
    Nests b unit normalizeDoc text (some n)
      (writtenRow unit (placeAll 0 normalizeDoc (.start 0) (lines text)) n)
      (writtenRow unit
        ((placeAll 0 normalizeDoc (.start 0) (lines text)).map (Placement.shift b)) n) := by
  obtain ⟨p, placed, filled⟩ := exists_of_mem_keptRows kept
  have high := le_of_mem_placeAll normalizeDoc (atLeast_start 0) (List.mem_of_getElem? placed)
  rw [writtenRow, writtenRow, List.getElem?_map, placed]
  cases here : (lines text)[n]? with
  | none =>
      rw [placeAll_getElem?, here] at placed
      cases placed
  | some raw =>
      have scanned := scan_stateBefore 0 normalizeDoc here
      rw [place_stateBefore here] at placed
      have kind := @place_kind 0 normalizeDoc
        (stateBefore 0 normalizeDoc (lines text) n) raw
      rw [Option.some.inj placed] at kind
      rcases kind with ⟨inside, rfl⟩ | ⟨outside, keeps, rfl⟩ | ⟨outside, moves, rfl | ⟨level, kind⟩⟩
      · exact .inTemplate here scanned inside
      · exact .inComment here scanned outside keeps
      · cases filled
      · have own : p.level? = some level := by rcases kind with rfl | rfl | rfl <;> rfl
        have written := write_shift unit own (high level own) b
        simp only [Option.map_some, Option.elim_some, written]
        exact .deeper here scanned outside moves (trim_suffix_write unit kind)

/-- **A block is nested as a whole.**  Reindented from a deeper level, a text has the same lines,
each with that many units in front, apart from blank lines, lines that start inside a template
literal and lines that are kept inside a comment, which do not change.  The table lists the
rows of both outputs, with the lines of the text they stem from, in order. -/
theorem reindentLines_nested (b : Nat) (unit : Text) (normalizeDoc : Bool) (text : Text) :
    let flush := reindentLines 0 unit normalizeDoc text
    let nested := reindentLines b unit normalizeDoc text
    nested.length = flush.length ∧
      ∃ table : List (Option Nat × Text × Text),
        table.map (·.2.1) = flush ∧ table.map (·.2.2) = nested ∧
          (table.filterMap (·.1)).Pairwise (· < ·) ∧
          ∀ row ∈ table, Nests b unit normalizeDoc text row.1 row.2.1 row.2.2 := by
  intro flush nested
  let run := placeAll 0 normalizeDoc (.start 0) (lines text)
  let deeper := run.map (Placement.shift b)
  have flushRows : flush = (withGaps (keptRows run)).map (·.elim [] (writtenRow unit run)) :=
    reindentLines_rows 0 unit normalizeDoc text
  have nestedRows : nested = (withGaps (keptRows run)).map (·.elim [] (writtenRow unit deeper)) := by
    have rows := reindentLines_rows b unit normalizeDoc text
    dsimp only at rows
    rwa [placeAll_start, keptRows_shift] at rows
  refine ⟨by rw [flushRows, nestedRows, List.length_map, List.length_map],
    (withGaps (keptRows run)).map fun row =>
      (row, row.elim [] (writtenRow unit run), row.elim [] (writtenRow unit deeper)), ?_, ?_, ?_, ?_⟩
  · rw [flushRows, List.map_map]
    rfl
  · rw [nestedRows, List.map_map]
    rfl
  · rw [List.filterMap_map]
    have rows : (withGaps (keptRows run)).filterMap id = keptRows run := filterMap_withGaps _
    exact (congrArg (List.Pairwise (· < ·)) rows).mpr List.pairwise_findIdxs
  · intro row member
    obtain ⟨source, inRows, rfl⟩ := List.mem_map.1 member
    cases source with
    | none => exact .blank
    | some n => exact nests_writtenRow b unit normalizeDoc text (mem_of_mem_withGaps inRows)

/-- The second line of the literal and the line inside the plain comment stay where they are. -/
example :
    let text := "f(`a\n b`, \x7b\n\n/*\n c */\nx\n\x7d)".toList
    reindentLines 0 "\t".toList true text = ["f(`a".toList, " b`, \x7b".toList, [],
        "\t\t/*".toList, " c */".toList, "\t\tx".toList, "\x7d)".toList] ∧
      reindentLines 1 "\t".toList true text = ["\tf(`a".toList, " b`, \x7b".toList, [],
        "\t\t\t/*".toList, " c */".toList, "\t\t\tx".toList, "\t\x7d)".toList] := by
  decide +kernel

end UiFormat.Layout

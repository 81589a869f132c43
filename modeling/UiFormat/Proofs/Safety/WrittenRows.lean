/-
# UiFormat.Proofs.Safety.WrittenRows -- written lines, with protected line feeds

A line is written as it is, dropped, or written with other blanks around the same body
(`RowWritten`); as it is it must be where the line feed in front of it is protected.  The
lines are followed one by one, with the spacing that is left over behind one carried to the
next (`Pending`): the written text is the source, reflowed (`reflowed_collapseAfter`).

What the layout does with a line is one of these three if the line is tidy
(`rowWritten_place`), so a run of the layout writes tidy lines in this way
(`rowsWritten_placeAll`).
-/
import UiFormat.Proofs.Safety.Structure

namespace UiFormat.Safety

open UiFormat.Text
open UiFormat.Layout
open UiFormat.Ets

set_option autoImplicit false

/-! ## Written lines -/

/-- A line that starts at `start` and how it is written: as it is where the line feed in front
of it is protected; else not at all if it is blank, or with other blanks around the same
body.  No blanks stand behind a body in front of a protected line feed, or behind a
backslash. -/
inductive RowWritten (fixed : Nat → Prop) (start : Nat) (raw : Text) : PlacedLine → Prop
  | inside (within : fixed start) : RowWritten fixed start raw ⟨raw, false⟩
  | dropped (free : ¬ fixed start) (onward : ¬ fixed (start + raw.length + 1))
      (blank : ∀ c ∈ raw, isInlineBlank c = true) : RowWritten fixed start raw ⟨[], true⟩
  | kept {body left right lead trail : Text} (free : ¬ fixed start)
      (whole : raw = left ++ (body ++ right))
      (before : (∀ c ∈ left, isInlineBlank c = true) ∧ ∀ c ∈ right, isInlineBlank c = true)
      (after : (∀ c ∈ lead, isInlineBlank c = true) ∧ ∀ c ∈ trail, isInlineBlank c = true)
      (flush : fixed (start + raw.length + 1) ∨ body.getLast? = some '\\' →
        right = [] ∧ trail = []) :
      RowWritten fixed start raw ⟨lead ++ (body ++ trail), false⟩

/-- Lines of which the first starts at `start`, and how each is written. -/
inductive RowsWritten (fixed : Nat → Prop) : Nat → List Text → List PlacedLine → Prop
  | nil (start : Nat) : RowsWritten fixed start [] []
  | cons {start : Nat} {raw : Text} {line : PlacedLine} {raws : List Text}
      {placed : List PlacedLine} (here : RowWritten fixed start raw line)
      (later : RowsWritten fixed (start + raw.length + 1) raws placed) :
      RowsWritten fixed start (raw :: raws) (line :: placed)

/-- Spacing that two texts have left over in front of the lines that start at `start`: `gap`
tells that blank lines have been passed, which stand in `x` only, and `escaped` that a
backslash stands in front. -/
structure Pending (fixed : Nat → Prop) (start : Nat) (x y : Text) (gap escaped : Bool) : Prop where
  left : Spacing x
  right : ∀ c ∈ y, isInlineBlank c = true
  feeds : '\n' ∈ x ↔ gap = true
  within : fixed start → x = [] ∧ y = [] ∧ gap = false
  edge : escaped = true → (∀ c ∈ x.head?, c = '\n') ∧ y = []

namespace Pending

variable {fixed : Nat → Prop} {start : Nat} {x y : Text} {gap escaped : Bool}

theorem none : Pending fixed start [] [] false escaped where
  left := by simp [Spacing]
  right := by simp
  feeds := by simp
  within := fun _ => ⟨rfl, rfl, rfl⟩
  edge := fun _ => ⟨by simp, rfl⟩

/-- A blank line has been passed. -/
theorem passed (pending : Pending fixed start x y gap escaped) {next : Nat} {raw : Text}
    (blank : Spacing raw) (onward : ¬ fixed next) :
    Pending fixed next (x ++ '\n' :: raw) y true escaped where
  left := List.forall_mem_append.2 ⟨pending.left, List.forall_mem_cons.2 ⟨by decide, blank⟩⟩
  right := pending.right
  feeds := by simp
  within := fun protects => absurd protects onward
  edge := by
    intro escapes
    obtain ⟨first, none⟩ := pending.edge escapes
    refine ⟨fun c isFirst => ?_, none⟩
    cases x with
    | nil => exact (Option.some.inj isFirst).symm
    | cons d x => exact first c isFirst

/-- The blanks behind a body are left over. -/
theorem behind {body right trail : Text} (inlineRight : ∀ c ∈ right, isInlineBlank c = true)
    (inlineTrail : ∀ c ∈ trail, isInlineBlank c = true)
    (flush : fixed start ∨ body.getLast? = some '\\' → right = [] ∧ trail = []) :
    Pending fixed start right trail false (escapedAfter false body) where
  left := (spacing_of_inline inlineRight).1
  right := inlineTrail
  feeds := by simp [(spacing_of_inline inlineRight).2]
  within := by
    intro protects
    obtain ⟨rfl, rfl⟩ := flush (.inl protects)
    exact ⟨rfl, rfl, rfl⟩
  edge := by
    intro escapes
    have last := (getLast?_of_escapedAfter escapes).resolve_left (by simp)
    obtain ⟨rfl, rfl⟩ := flush (.inr last)
    exact ⟨by simp, rfl⟩

/-- The gap begins with its line feed behind a backslash. -/
theorem head (pending : Pending fixed start x y gap true) (left lead : Text) :
    (x ++ '\n' :: left).head? = some '\n' ∧
      (y ++ ((if gap then ['\n'] else []) ++ '\n' :: lead)).head? = some '\n' := by
  obtain ⟨first, rfl⟩ := pending.edge rfl
  constructor
  · cases x with
    | nil => rfl
    | cons d x => rw [first d rfl]; rfl
  · cases gap with
    | true => rfl
    | false => rfl

end Pending

/-- Lines as they are written are reflowed. -/
theorem reflowed_collapseAfter {fixed : Nat → Prop} {size start : Nat} {raws : List Text}
    {placed : List PlacedLine} (rows : RowsWritten fixed start raws placed)
    {before after : List Text} (blankBefore : ∀ row ∈ before, Spacing row)
    (blankAfter : ∀ row ∈ after, Spacing row) {x y : Text} {gap escaped : Bool}
    (pending : Pending fixed start x y gap escaped)
    (free : Free (fun rest => fixed (size - rest.length)) (fed (raws ++ before)) x)
    (place : start + (fed (raws ++ before)).length = size + 1) :
    Reflowed (fun rest => fixed (size - rest.length)) escaped
      (x ++ fed (raws ++ before)) (y ++ fed (collapseAfter gap placed ++ after)) := by
  induction rows generalizing x y gap escaped with
  | nil start =>
      refine .ends (List.forall_mem_append.2 ⟨pending.left, spacing_fed blankBefore⟩) ?_
      exact List.forall_mem_append.2
        ⟨(spacing_of_inline pending.right).1, spacing_fed blankAfter⟩
  | @cons start raw line raws placed here _ ih =>
      rw [List.cons_append, fed_cons] at place free ⊢
      rw [List.length_cons, List.length_append] at place
      have onward : start + raw.length + 1 + (fed (raws ++ before)).length = size + 1 := by omega
      have isStart : size - (raw ++ fed (raws ++ before)).length = start := by
        rw [List.length_append]
        omega
      cases here with
      | inside protects =>
          obtain ⟨rfl, rfl, rfl⟩ := pending.within protects
          exact .same '\n' (.append_left raw (ih .none trivial onward))
      | dropped notHere notNext blank =>
          rw [← isStart] at notHere
          have freeRow : Free (fun rest => fixed (size - rest.length)) (fed (raws ++ before))
              (x ++ '\n' :: raw) :=
            free_append.2 ⟨free, fun _ => notHere, free_of_not_mem (spacing_of_inline blank).2⟩
          have later := ih (pending.passed (spacing_of_inline blank).1 notNext) freeRow onward
          rw [collapseAfter, if_pos rfl]
          simpa using later
      | @kept body left right lead trail notHere whole inlineRaw inlineText flush =>
          have later := ih (.behind inlineRaw.2 inlineText.2 flush)
            (free_of_not_mem (spacing_of_inline inlineRaw.2).2) onward
          have freeGap : Free (fun rest => fixed (size - rest.length))
              (body ++ (right ++ fed (raws ++ before))) (x ++ '\n' :: left) := by
            have tail : raw ++ fed (raws ++ before) =
                left ++ (body ++ (right ++ fed (raws ++ before))) := by
              rw [whole]
              simp
            rw [tail] at free isStart
            rw [← isStart] at notHere
            exact free_append.2 ⟨free, fun _ => notHere,
              free_of_not_mem (spacing_of_inline inlineRaw.1).2⟩
          have gapped := @Reflowed.gap (fun rest => fixed (size - rest.length)) escaped _ _ _ _
            (breakAlike_gap pending.left pending.right pending.feeds inlineRaw.1 inlineText.1) freeGap
            (fun escapes => Pending.head (escapes ▸ pending) left lead) (.append_left body later)
          subst whole
          rw [collapseAfter]
          cases gap with
          | true => simpa [fed_cons] using gapped
          | false => simpa [fed_cons] using gapped

/-! ## Lines as the layout writes them -/

/-- The offsets of lines of which the first starts at `start`. -/
def startsFrom (start : Nat) : List Text → List Nat
  | [] => []
  | line :: rest => start :: startsFrom (start + line.length + 1) rest

/-- A line that trimming leaves alone has no blanks at its end. -/
theorem eq_nil_of_trimEnd {front right : Text} (inline : ∀ c ∈ right, isInlineBlank c = true)
    (trimmed : trimEnd (front ++ right) = front ++ right) : right = [] := by
  have blank : ∀ c ∈ right, isBlank c = true := fun c member =>
    isBlank_of_isSpacing ((spacing_of_inline inline).1 c member)
  have short := (dropEndWhile_begins isBlank front).length_le
  rw [trimEnd_append_blank _ _ blank] at trimmed
  have lengths := congrArg List.length trimmed
  rw [trimEnd, List.length_append] at lengths
  exact List.length_eq_zero_iff.1 (by omega)

/-- A steady line has no blanks behind a backslash. -/
theorem SteadyLine.eq_nil {front body right : Text} (steady : SteadyLine (front ++ (body ++ right)))
    (inline : ∀ c ∈ right, isInlineBlank c = true) (last : body.getLast? = some '\\') :
    right = [] := by
  obtain ⟨before, rfl⟩ := List.getLast?_eq_some_iff.1 last
  exact steady right ⟨front ++ before, by simp⟩ (spacing_of_inline inline).1

/-- A line that starts outside template literals and is written neatly. -/
theorem rowWritten_of_rewritten {fixed : Nat → Prop} {start : Nat} {raw : Text} {line : PlacedLine}
    (free : ¬ fixed start) (plain : '\n' ∉ raw) (steady : SteadyLine raw)
    (rewritten : Rewritten raw line)
    (flush : fixed (start + raw.length + 1) →
      trim raw ≠ [] ∧ trimEnd raw = raw ∧ trimEnd line.text = line.text) :
    RowWritten fixed start raw line := by
  cases rewritten with
  | dropped blank =>
      refine .dropped free (fun protects => (flush protects).1 ?_) fun c member => ?_
      · exact (trim_eq_nil_iff raw).2 fun c member => isBlank_of_isSpacing (blank c member)
      · have other : c ≠ '\n' := fun feed => plain (feed ▸ member)
        simpa [isSpacing, other] using blank c member
  | @kept body text wrapsRaw wrapsText steadyText =>
      obtain ⟨left, right, rfl, inlineLeft, inlineRight⟩ := wrapsRaw
      obtain ⟨lead, trail, rfl, inlineLead, inlineTrail⟩ := wrapsText
      refine .kept free rfl ⟨inlineLeft, inlineRight⟩ ⟨inlineLead, inlineTrail⟩ ?_
      rintro (protects | escapes)
      · obtain ⟨-, flushRaw, flushText⟩ := flush protects
        dsimp only at flushText
        rw [← List.append_assoc] at flushRaw flushText
        exact ⟨eq_nil_of_trimEnd inlineRight flushRaw, eq_nil_of_trimEnd inlineTrail flushText⟩
      · exact ⟨steady.eq_nil inlineRight escapes, steadyText.eq_nil inlineTrail escapes⟩

/-- No blanks are written behind a line that has none there. -/
theorem trimEnd_write {unit raw : Text} {p : Placement} (places : Places false raw p)
    (filled : trim raw ≠ []) (flush : trimEnd raw = raw) :
    trimEnd (p.write unit).text = (p.write unit).text := by
  cases places with
  | verbatim => exact flush
  | keptComment => exact trimEnd_trimEnd raw
  | starredComment level =>
      rw [Placement.write, List.append_cons]
      exact trimEnd_append_trim _ filled
  | unstarredComment level asked => cases asked
  | blank empty => exact absurd empty filled
  | indented level => exact trimEnd_append_trim _ filled

/-- What is asked of a line that starts at `start`: neat, and flush in front of a line that starts
inside a template literal, unless it starts inside one itself. -/
structure TidyLine (fixed : Nat → Prop) (start : Nat) (line : Text) : Prop where
  neat : fixed start ∨ isNeatLine line = true
  flush : fixed (start + line.length + 1) → fixed start ∨ trim line ≠ [] ∧ trimEnd line = line

theorem place_of_startsInTemplate {s : LayoutState} {raw : Text}
    (inside : (s.scanner.scan raw).1.startsInTemplate = true) (base : Int) (normalizeDoc : Bool) :
    (place base normalizeDoc s raw).1 = .verbatim raw := by
  unfold place
  dsimp only
  rw [if_pos inside]

/-- One line. -/
theorem rowWritten_place {unit : Text} (indents : IsIndentUnit unit) {fixed : Nat → Prop} {start : Nat}
    {raw : Text} {s : LayoutState} (plain : '\n' ∉ raw) (tidy : TidyLine fixed start raw)
    (seen : fixed start → (s.scanner.scan raw).1.startsInTemplate = true) :
    RowWritten fixed start raw ((place 0 false s raw).1.write unit) := by
  by_cases protects : fixed start
  · rw [place_of_startsInTemplate (seen protects)]
    exact .inside protects
  · have neat := tidy.neat.resolve_left protects
    have places := place_places 0 false s raw
    refine rowWritten_of_rewritten protects plain (steadyLine_of_isNeatLine neat)
      (rewritten_write indents neat places) fun next => ?_
    obtain ⟨filled, flush⟩ := (tidy.flush next).resolve_left protects
    exact ⟨filled, flush, trimEnd_write places filled flush⟩

/-- All lines. -/
theorem rowsWritten_placeAll {unit : Text} (indents : IsIndentUnit unit) {fixed : Nat → Prop}
    {raws : List Text} (plain : ∀ raw ∈ raws, BreakFree raw) {start : Nat} {s : LayoutState}
    (tidy : ∀ place line, (place, line) ∈ (startsFrom start raws).zip raws → TidyLine fixed place line)
    (seen : ∀ place scan, (place, scan) ∈ (startsFrom start raws).zip (scanLines s.scanner raws) →
      fixed place → scan.startsInTemplate = true) :
    RowsWritten fixed start raws ((placeAll 0 false s raws).map (·.write unit)) := by
  induction raws generalizing start s with
  | nil => exact .nil start
  | cons raw raws ih =>
      rw [List.forall_mem_cons] at plain
      rw [startsFrom, List.zip_cons_cons] at tidy
      rw [startsFrom, scanLines, List.zip_cons_cons] at seen
      rw [placeAll_cons, List.map_cons]
      refine .cons ?_ (ih plain.2 ?_ ?_)
      · exact rowWritten_place indents (fun feed => by cases plain.1 '\n' feed)
          (tidy start raw List.mem_cons_self) (seen start _ List.mem_cons_self)
      · exact fun place line member => tidy place line (List.mem_cons_of_mem _ member)
      · rw [scanner_place]
        exact fun place scan member => seen place scan (List.mem_cons_of_mem _ member)

section Rows

variable {fixed : Nat → Prop} {start : Nat} {raws : List Text}

theorem RowsWritten.split {front back : List PlacedLine}
    (rows : RowsWritten fixed start raws (front ++ back)) :
    ∃ a b, raws = a ++ b ∧ RowsWritten fixed start a front ∧
      RowsWritten fixed (start + (fed a).length) b back := by
  induction front generalizing start raws with
  | nil => exact ⟨[], raws, rfl, .nil start, rows⟩
  | cons line front ih =>
      cases rows with
      | @cons _ raw _ raws _ here later =>
          obtain ⟨a, b, rfl, first, second⟩ := ih later
          refine ⟨raw :: a, b, rfl, .cons here first, ?_⟩
          rw [fed_cons, List.length_cons, List.length_append]
          convert second using 1
          omega

theorem RowsWritten.spacing {placed : List PlacedLine} (rows : RowsWritten fixed start raws placed)
    (empty : ∀ line ∈ placed, line.text = []) : ∀ raw ∈ raws, Spacing raw := by
  induction rows with
  | nil start => exact fun raw member => by cases member
  | cons here _ ih =>
      rw [List.forall_mem_cons] at empty ⊢
      refine ⟨?_, ih empty.2⟩
      cases here with
      | inside =>
          obtain rfl := empty.1
          exact fun c member => by cases member
      | dropped _ _ blank => exact (spacing_of_inline blank).1
      | @kept body left right lead trail _ whole inline =>
          obtain ⟨-, rest⟩ := List.append_eq_nil_iff.1 empty.1
          rw [(List.append_eq_nil_iff.1 rest).1] at whole
          exact (show Wraps [] _ from ⟨left, right, whole, inline⟩).spacing

end Rows

end UiFormat.Safety

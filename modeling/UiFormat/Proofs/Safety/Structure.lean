/-
# UiFormat.Proofs.Safety.Structure -- formatting keeps comments and braces

The comparison of comments and braces is made on what is formatted from the declarations,
never on what the basic rules write.  It would object there too, in two cases only
(`formatBasic_changes_braces`), both about the blanks that the rules take off a line:

* a backslash stands before them, and then before the line feed, which it hides from the
  end of a regular expression;
* one of them is no blank to the lexer, for which it is a punctuator that allows a regular
  expression behind it.

A line without either is neat (`isNeatLine`).  The basic rules respace neat lines
(`respaced_collapseAfter`), so their result has the same tokens up to blanks, and the whole
formatter keeps comments and braces (`format_keeps_structure`).
-/
import UiFormat.Proofs.Ets.Idempotence
import UiFormat.Proofs.Ets.ReflowedTokens

namespace UiFormat.Safety

open UiFormat.Text
open UiFormat.Layout
open UiFormat.Ets

set_option autoImplicit false

/-! ## Neat lines -/

theorem isBlank_of_isSpacing {c : Char} (spacing : isSpacing c = true) : isBlank c = true := by
  rcases isSpacing_cases spacing with rfl | rfl | rfl | rfl | rfl <;> decide

theorem isSpacing_of_isInlineBlank {c : Char} (inline : isInlineBlank c = true) :
    isSpacing c = true := by
  rw [isSpacing, inline, Bool.true_or]

/-- The blanks at both ends of a line are blanks to the lexer, and no backslash stands
before those at its end. -/
def isNeatLine (line : Text) : Bool :=
  (line.takeWhile isBlank).all isInlineBlank &&
    (line.drop (trimEnd line).length).all isInlineBlank &&
      (trimEnd line == line || (trimEnd line).getLast? != some '\\')

/-- Every line is neat. -/
def NeatLines (source : Text) : Prop :=
  ∀ line ∈ lines source, isNeatLine line = true

instance (source : Text) : Decidable (NeatLines source) :=
  inferInstanceAs (Decidable (∀ line ∈ lines source, isNeatLine line = true))

/-- The line is `body` between blanks of the lexer. -/
def Wraps (body line : Text) : Prop :=
  ∃ left right, line = left ++ (body ++ right) ∧ (∀ c ∈ left, isInlineBlank c = true) ∧
    ∀ c ∈ right, isInlineBlank c = true

/-- A backslash that only spacing follows is the last character of the line. -/
def SteadyLine (line : Text) : Prop :=
  ∀ rest, '\\' :: rest <:+ line → Spacing rest → rest = []

/-- What stands behind the last visible character stands behind any front that ends the
line but for blanks. -/
theorem mem_drop_trimEnd (front : Text) {right : Text} (blank : ∀ c ∈ right, isBlank c = true) {c : Char}
    (member : c ∈ right) : c ∈ (front ++ right).drop (trimEnd (front ++ right)).length := by
  have short : (trimEnd (front ++ right)).length ≤ front.length := by
    rw [trimEnd_append_blank _ _ blank]
    exact (dropEndWhile_begins isBlank front).length_le
  refine List.drop_subset_drop_left _ short ?_
  rwa [List.drop_left]

theorem wraps_of_isNeatLine {line : Text} (neat : isNeatLine line = true) :
    Wraps (trim line) line := by
  simp only [isNeatLine, Bool.and_eq_true, List.all_eq_true] at neat
  obtain ⟨right, split, blank⟩ := exists_dropEndWhile_append isBlank (trimStart line)
  have whole : line = line.takeWhile isBlank ++ (trim line ++ right) := by
    rw [trim, trimEnd, ← split, trimStart, List.takeWhile_append_dropWhile]
  refine ⟨line.takeWhile isBlank, right, whole, neat.1.1, fun c member => neat.1.2 c ?_⟩
  rw [← List.append_assoc] at whole
  have inside := mem_drop_trimEnd (line.takeWhile isBlank ++ trim line) blank member
  rwa [← whole] at inside

theorem trimEnd_of_backslash {front rest : Text} (spacing : Spacing rest) :
    trimEnd (front ++ '\\' :: rest) = front ++ ['\\'] := by
  have visible : trimEnd (front ++ ['\\']) = front ++ ['\\'] :=
    trimEnd_of_getLast? List.getLast?_concat (by decide)
  rw [← visible, ← trimEnd_append_blank (front ++ ['\\']) rest fun c member =>
    isBlank_of_isSpacing (spacing c member), List.append_assoc, List.singleton_append]

theorem steadyLine_of_isNeatLine {line : Text} (neat : isNeatLine line = true) : SteadyLine line := by
  rintro rest ⟨front, rfl⟩ spacing
  simp only [isNeatLine, Bool.and_eq_true, Bool.or_eq_true, beq_iff_eq, bne_iff_ne,
    trimEnd_of_backslash spacing, List.getLast?_concat, ne_eq, not_true, or_false] at neat
  simpa using neat.2

/-- Trimmed lines are steady. -/
theorem steadyLine_of_trimEnd {line : Text} (trimmed : trimEnd line = line) : SteadyLine line := by
  rintro rest ⟨front, rfl⟩ spacing
  rw [trimEnd_of_backslash spacing] at trimmed
  simpa using trimmed

theorem SteadyLine.blank_append {blanks line : Text}
    (blank : ∀ c ∈ blanks, isInlineBlank c = true) (steady : SteadyLine line) :
    SteadyLine (blanks ++ line) := by
  induction blanks with
  | nil => exact steady
  | cons c blanks ih =>
      rw [List.forall_mem_cons] at blank
      intro rest suffix
      rcases List.suffix_cons_iff.1 suffix with whole | later
      · cases whole
        cases blank.1
      · exact ih blank.2 rest later

/-! ## Written lines -/

/-- A line and how it is written: not at all if it is blank, else steadily with other blanks
around the same text. -/
inductive Rewritten (raw : Text) : PlacedLine → Prop
  | dropped (blank : Spacing raw) : Rewritten raw ⟨[], true⟩
  | kept {body text : Text} (before : Wraps body raw) (after : Wraps body text)
      (steady : SteadyLine text) : Rewritten raw ⟨text, false⟩

theorem wraps_trimEnd {raw : Text} (wraps : Wraps (trim raw) raw) :
    Wraps (trim raw) (trimEnd raw) := by
  obtain ⟨left, right, whole, inlineLeft, inlineRight⟩ := wraps
  have kept : trimEnd raw = trimEnd (left ++ trim raw) := by
    have blank : ∀ c ∈ right, isBlank c = true := fun c member =>
      isBlank_of_isSpacing (isSpacing_of_isInlineBlank (inlineRight c member))
    conv_lhs => rw [whole, ← List.append_assoc, trimEnd_append_blank _ _ blank]
  cases last : (trim raw).getLast? with
  | none =>
      have empty : trim raw = [] := List.getLast?_eq_none_iff.1 last
      have gone : trimEnd raw = [] := by
        have blank := (trim_eq_nil_iff raw).1 empty
        have dropped := trimEnd_append_blank [] raw blank
        exact dropped
      exact ⟨[], [], by rw [gone, empty]; rfl, by simp, by simp⟩
  | some c =>
      have visible : isBlank c = false := dropEndWhile_getLast isBlank (trimStart raw) c last
      refine ⟨left, [], ?_, inlineLeft, by simp⟩
      rw [kept, List.append_nil]
      refine trimEnd_of_getLast? ?_ visible
      rw [List.getLast?_append, last]
      rfl

theorem inline_times {unit : Text} (indents : IsIndentUnit unit) (level : Int) :
    ∀ c ∈ times unit level, isInlineBlank c = true := by
  intro c member
  rcases indents c (mem_of_mem_times member) with rfl | rfl <;> decide

theorem wraps_indent {blanks : Text} (blank : ∀ c ∈ blanks, isInlineBlank c = true) (body : Text) :
    Wraps body (blanks ++ body) :=
  ⟨blanks, [], by rw [List.append_nil], blank, by simp⟩

/-- Writing a neat line changes its blanks only. -/
theorem rewritten_write {unit raw : Text} {p : Placement} (indents : IsIndentUnit unit)
    (neat : isNeatLine raw = true) (places : Places false raw p) :
    Rewritten raw (p.write unit) := by
  have wraps := wraps_of_isNeatLine neat
  have trimmed : SteadyLine (trim raw) := steadyLine_of_trimEnd (trimEnd_trimEnd _)
  cases places with
  | verbatim => exact .kept wraps wraps (steadyLine_of_isNeatLine neat)
  | keptComment =>
      exact .kept wraps (wraps_trimEnd wraps) (steadyLine_of_trimEnd (trimEnd_trimEnd raw))
  | starredComment level =>
      have blank : ∀ c ∈ times unit level ++ [' '], isInlineBlank c = true := by
        rw [List.forall_mem_append]
        exact ⟨inline_times indents level, forall_mem_of_all (by decide)⟩
      rw [Placement.write, List.append_cons]
      exact .kept wraps (wraps_indent blank _) (trimmed.blank_append blank)
  | unstarredComment level asked => cases asked
  | blank empty =>
      obtain ⟨left, right, whole, inlineLeft, inlineRight⟩ := wraps
      refine .dropped fun c member => isSpacing_of_isInlineBlank ?_
      rw [whole, empty, List.nil_append, List.mem_append] at member
      exact member.elim (inlineLeft c) (inlineRight c)
  | indented level =>
      have blank := inline_times indents level
      exact .kept wraps (wraps_indent blank _) (trimmed.blank_append blank)

/-! ## Lines behind line feeds -/

/-- The lines, each behind a line feed. -/
def fed (rows : List Text) : Text :=
  rows.flatMap ('\n' :: ·)

theorem fed_cons (row : Text) (rows : List Text) : fed (row :: rows) = '\n' :: (row ++ fed rows) :=
  rfl

theorem fed_append (a b : List Text) : fed (a ++ b) = fed a ++ fed b :=
  List.flatMap_append

theorem fed_join {rows : List Text} (some : rows ≠ []) : fed rows = '\n' :: join ['\n'] rows := by
  induction rows with
  | nil => exact absurd rfl some
  | cons row rows ih =>
      cases rows with
      | nil => rw [fed_cons, join, fed, List.flatMap_nil, List.append_nil]
      | cons next rows => rw [fed_cons, ih (by simp), join, List.append_assoc, List.singleton_append]

theorem fed_lines {text : Text} (noReturn : '\r' ∉ text) : fed (lines text) = '\n' :: text := by
  induction text with
  | nil => rfl
  | cons c text ih =>
      rw [List.mem_cons, not_or] at noReturn
      have later := ih noReturn.2
      by_cases feed : c = '\n'
      · subst feed
        rw [lines, fed_cons, later]
        rfl
      · have plain : isBreak c = false := by simp [isBreak, feed, Ne.symm noReturn.1]
        rw [lines_cons_of_not_break text plain]
        cases rows : lines text with
        | nil => exact absurd rows (lines_ne_nil text)
        | cons row rows =>
            rw [‹lines text = _›, fed_cons] at later
            rw [consLine, fed_cons, List.cons_append, (List.cons.inj later).2]

theorem spacing_fed {rows : List Text} (blank : ∀ row ∈ rows, Spacing row) : Spacing (fed rows) := by
  intro c member
  obtain ⟨row, inRows, inRow⟩ := List.mem_flatMap.1 member
  rcases List.mem_cons.1 inRow with rfl | inside
  · decide
  · exact blank row inRows c inside

theorem steady_cons {c : Char} {text : Text} (notBackslash : c ≠ '\\') (steady : Steady text) :
    Steady (c :: text) := by
  intro rest suffix
  rcases List.suffix_cons_iff.1 suffix with whole | later
  · cases whole
    exact absurd rfl notBackslash
  · exact steady rest later

/-- A steady line in front of a line feed or of the end. -/
theorem SteadyLine.append {line tail : Text} (steady : SteadyLine line) (plain : BreakFree line)
    (begins : ∀ c ∈ tail.head?, c = '\n') (later : Steady tail) : Steady (line ++ tail) := by
  induction line with
  | nil => exact later
  | cons c line ih =>
      have deeper : Steady (line ++ tail) :=
        ih (fun rest suffix => steady rest (suffix.trans (List.suffix_cons c line)))
          fun d member => plain d (List.mem_cons_of_mem c member)
      intro rest suffix feeds
      rw [List.cons_append] at suffix
      rcases List.suffix_cons_iff.1 suffix with whole | inside
      · obtain ⟨rfl, rfl⟩ := List.cons.inj whole
        by_cases spacing : Spacing line
        · have ends : line = [] := steady line (List.suffix_refl _) spacing
          subst ends
          cases tail with
          | nil => cases feeds
          | cons d tail => rw [begins d rfl]; rfl
        · -- The spacing ends inside the line, which holds no line feed.
          obtain ⟨d, inLine, visible⟩ : ∃ d ∈ line, ¬ isSpacing d = true := by
            simpa [Spacing] using spacing
          rw [List.takeWhile_append, if_neg] at feeds
          · have breaks := plain '\n' (List.mem_cons_of_mem _ ((List.takeWhile_sublist _).mem feeds))
            cases breaks
          · intro all
            have same := (List.takeWhile_prefix isSpacing).eq_of_length all
            rw [List.takeWhile_eq_self_iff] at same
            exact visible (same d inLine)
      · exact deeper rest inside feeds

/-- Steady lines make a steady text. -/
theorem steady_fed {rows : List Text}
    (steady : ∀ row ∈ rows, BreakFree row ∧ SteadyLine row) : Steady (fed rows) := by
  induction rows with
  | nil =>
      intro rest suffix
      cases List.suffix_nil.1 suffix
  | cons row rows ih =>
      rw [List.forall_mem_cons] at steady
      rw [fed_cons]
      refine steady_cons (by decide) (steady.1.2.append steady.1.1 ?_ (ih steady.2))
      cases rows with
      | nil => exact fun c first => by cases first
      | cons next rows => exact fun c first => (Option.some.inj first).symm

/-! ## Respaced lines -/

theorem Wraps.spacing {raw : Text} (wraps : Wraps [] raw) : Spacing raw := by
  obtain ⟨left, right, rfl, inlineLeft, inlineRight⟩ := wraps
  rw [List.nil_append]
  exact fun c member => isSpacing_of_isInlineBlank
    ((List.mem_append.1 member).elim (inlineLeft c) (inlineRight c))

theorem spacing_of_inline {text : Text} (inline : ∀ c ∈ text, isInlineBlank c = true) :
    Spacing text ∧ '\n' ∉ text :=
  ⟨fun c member => isSpacing_of_isInlineBlank (inline c member),
    fun feed => by cases inline '\n' feed⟩

/-- The gap before a line that is kept: with blank lines in both texts or in neither. -/
theorem breakAlike_gap {x y left lead : Text} {gap : Bool} (spacingX : Spacing x)
    (inlineY : ∀ c ∈ y, isInlineBlank c = true) (feeds : '\n' ∈ x ↔ gap = true)
    (inlineLeft : ∀ c ∈ left, isInlineBlank c = true)
    (inlineLead : ∀ c ∈ lead, isInlineBlank c = true) :
    BreakAlike (x ++ '\n' :: left) (y ++ ((if gap then ['\n'] else []) ++ '\n' :: lead)) where
  left := List.forall_mem_append.2
    ⟨spacingX, List.forall_mem_cons.2 ⟨by decide, (spacing_of_inline inlineLeft).1⟩⟩
  right := by
    refine List.forall_mem_append.2 ⟨(spacing_of_inline inlineY).1, List.forall_mem_append.2 ⟨?_,
      List.forall_mem_cons.2 ⟨by decide, (spacing_of_inline inlineLead).1⟩⟩⟩
    cases gap <;> simp [isSpacing]
  breaks := by simp
  again := by
    have countX : 1 ≤ x.count '\n' ↔ gap = true := List.one_le_count_iff.trans feeds
    have countY := List.count_eq_zero.2 (spacing_of_inline inlineY).2
    have countLeft := List.count_eq_zero.2 (spacing_of_inline inlineLeft).2
    have countLead := List.count_eq_zero.2 (spacing_of_inline inlineLead).2
    simp only [List.count_append, List.count_cons_self, countY, countLeft, countLead]
    cases gap with
    | true => simpa using countX
    | false => simpa using countX

/-- Lines and how they are written, behind spacing `x` and `y` that the text has left over:
`gap` tells that blank lines have been passed, which stand in `x` only. -/
theorem respaced_collapseAfter {raws : List Text} {placed : List PlacedLine}
    (rows : List.Forall₂ Rewritten raws placed) {before after : List Text}
    (blankBefore : ∀ row ∈ before, Spacing row) (blankAfter : ∀ row ∈ after, Spacing row)
    {x y : Text} {gap : Bool} (spacingX : Spacing x) (inlineY : ∀ c ∈ y, isInlineBlank c = true)
    (feeds : '\n' ∈ x ↔ gap = true) :
    Respaced (x ++ fed (raws ++ before)) (y ++ fed (collapseAfter gap placed ++ after)) := by
  induction rows generalizing x y gap with
  | nil =>
      refine .ends (List.forall_mem_append.2 ⟨spacingX, spacing_fed blankBefore⟩) ?_
      exact List.forall_mem_append.2 ⟨(spacing_of_inline inlineY).1, spacing_fed blankAfter⟩
  | @cons raw line raws placed here _ ih =>
      cases here with
      | dropped blank =>
          have spaced : Spacing (x ++ '\n' :: raw) :=
            List.forall_mem_append.2 ⟨spacingX, List.forall_mem_cons.2 ⟨by decide, blank⟩⟩
          have passed : '\n' ∈ x ++ '\n' :: raw ↔ true = true := by simp
          have later := ih spaced inlineY passed
          rw [List.cons_append, fed_cons, collapseAfter]
          simpa using later
      | @kept body text wrapsRaw wrapsText _ =>
          obtain ⟨left, right, rfl, inlineLeft, inlineRight⟩ := wrapsRaw
          obtain ⟨lead, trail, rfl, inlineLead, inlineTrail⟩ := wrapsText
          obtain ⟨spacingRight, noFeed⟩ := spacing_of_inline inlineRight
          have none : '\n' ∈ right ↔ false = true := by simp [noFeed]
          have later := ih spacingRight inlineTrail none
          have whole := Respaced.gap (breakAlike_gap spacingX inlineY feeds inlineLeft inlineLead)
            (later.append_left body)
          rw [List.cons_append, fed_cons, collapseAfter]
          cases gap with
          | true => simpa [fed_cons] using whole
          | false => simpa [fed_cons] using whole

/-- A line of which nothing is written is blank. -/
theorem Rewritten.spacing {raw : Text} {line : PlacedLine} (rewritten : Rewritten raw line)
    (empty : line.text = []) : Spacing raw := by
  cases rewritten with
  | dropped blank => exact blank
  | kept wrapsRaw wrapsText steady =>
      obtain ⟨lead, trail, rfl, -, -⟩ := wrapsText
      obtain ⟨-, none⟩ := List.append_eq_nil_iff.1 empty
      rw [(List.append_eq_nil_iff.1 none).1] at wrapsRaw
      exact wrapsRaw.spacing

section Rows

variable {raws : List Text} {placed : List PlacedLine}

theorem spacing_of_empty (rows : List.Forall₂ Rewritten raws placed)
    (empty : ∀ line ∈ placed, line.text = []) : ∀ raw ∈ raws, Spacing raw := by
  induction rows with
  | nil => exact fun raw member => by cases member
  | cons here _ ih =>
      rw [List.forall_mem_cons] at empty ⊢
      exact ⟨here.spacing empty.1, ih empty.2⟩

theorem steadyLine_of_mem (rows : List.Forall₂ Rewritten raws placed) :
    ∀ line ∈ placed, SteadyLine line.text := by
  induction rows with
  | nil => exact fun line member => by cases member
  | cons here _ ih =>
      refine List.forall_mem_cons.2 ⟨?_, ih⟩
      cases here with
      | dropped blank => exact steadyLine_of_trimEnd rfl
      | kept wrapsRaw wrapsText steady => exact steady

theorem exists_append_of_forall₂ {front back : List PlacedLine}
    (rows : List.Forall₂ Rewritten raws (front ++ back)) :
    ∃ a b, raws = a ++ b ∧ List.Forall₂ Rewritten a front ∧ List.Forall₂ Rewritten b back :=
  ⟨raws.take front.length, raws.drop front.length, (List.take_append_drop _ raws).symm,
    List.forall₂_take_append raws front back rows, List.forall₂_drop_append raws front back rows⟩

end Rows

/-- The lines of a source and how they are written: those that are dropped at either end
are blank. -/
theorem exists_rewritten {unit source : Text} (indents : IsIndentUnit unit)
    (neat : NeatLines source) :
    ∃ lead raws trail placed, lines source = lead ++ (raws ++ trail) ∧
      (∀ row ∈ lead, Spacing row) ∧ (∀ row ∈ trail, Spacing row) ∧
      List.Forall₂ Rewritten raws placed ∧
      reindentLines 0 unit false source = collapseAfter false placed := by
  obtain ⟨run, isRun⟩ : ∃ run, run = (placeAll 0 false (.start 0) (lines source)).map (·.write unit) :=
    ⟨_, rfl⟩
  have rows : List.Forall₂ Rewritten (lines source) run := by
    have places := placeAll_places 0 false (lines source) (.start 0)
    rw [isRun, List.forall₂_map_right_iff]
    refine List.Forall₂.imp ?_ ((List.forall₂_and_left _ _).2 ⟨neat, places⟩)
    exact fun raw p ⟨isNeat, here⟩ => rewritten_write indents isNeat here
  obtain ⟨ends, placed, tail, split, empty, isPlaced⟩ := exists_collapseAfter 0 unit false source
  rw [← isRun] at split
  rw [split] at rows
  obtain ⟨lead, others, whole, leadRows, otherRows⟩ := exists_append_of_forall₂ rows
  obtain ⟨raws, trail, rfl, rawRows, trailRows⟩ := exists_append_of_forall₂ otherRows
  rw [List.forall_mem_append] at empty
  exact ⟨lead, raws, trail, placed, whole, spacing_of_empty leadRows empty.1,
    spacing_of_empty trailRows empty.2, rawRows, isPlaced⟩

/-! ## Comments and braces -/

/-- The written text behind a line feed: the written lines, and an empty one if the source
ends in a line break. -/
theorem exists_fed_formatBasic (unit source : Text) :
    ∃ after, (∀ row ∈ after, row = []) ∧
      (formatBasic ['\n'] unit source = fed (reindentLines 0 unit false source ++ after) ∨
        '\n' :: formatBasic ['\n'] unit source =
          fed (reindentLines 0 unit false source ++ after)) := by
  rw [formatBasic]
  split
  · rename_i none
    exact ⟨[], by simp, .inl (by rw [none]; rfl)⟩
  · rename_i first rest some
    rw [some]
    split
    · refine ⟨[[]], by simp, .inr ?_⟩
      rw [join_append_terminator _ _ (by simp), fed_join (by simp)]
    · refine ⟨[], by simp, .inr ?_⟩
      rw [List.append_nil, List.append_nil, fed_join (by simp)]

/-- Spacing in front of a text adds nothing that counts. -/
theorem tally_spacing_append {counts : Kind → Text → Bool}
    (trivia : ∀ kind text, kind.isTrivia = true → counts kind text = false) {x : Text}
    (spacing : Spacing x) (text : Text) :
    tally counts false (x ++ text) = tally counts false text := by
  rw [← tally_strip trivia false (x ++ text), ← tally_strip trivia false text,
    List.dropWhile_append_of_pos spacing]

/-- Lines of a neat source make a steady text. -/
theorem steady_fed_of_neat {source : Text} {rows : List Text} (neat : NeatLines source)
    (ofLines : ∀ row ∈ rows, row ∈ lines source) : Steady (fed rows) :=
  steady_fed fun row member => ⟨breakFree_of_mem_lines source row (ofLines row member),
    steadyLine_of_isNeatLine (neat row (ofLines row member))⟩

theorem return_not_mem_fed {source : Text} {rows : List Text} (noReturn : '\r' ∉ source)
    (ofLines : ∀ row ∈ rows, row ∈ lines source) : '\r' ∉ fed rows := by
  intro member
  obtain ⟨row, inRows, inRow⟩ := List.mem_flatMap.1 member
  rcases List.mem_cons.1 inRow with isFeed | inside
  · cases isFeed
  · exact noReturn (mem_of_mem_lines source row (ofLines row inRows) _ inside)

/-- Neat lines are respaced by the basic rules, so their tokens are counted alike. -/
theorem tally_formatBasic (counts : Kind → Text → Bool)
    (trivia : ∀ kind text, kind.isTrivia = true → counts kind text = false)
    (kinds : ∀ kind text other, kind.isSpelled = false → counts kind text = counts kind other)
    {unit source : Text} (indents : IsIndentUnit unit) (noReturn : '\r' ∉ source)
    (neat : NeatLines source) :
    tally counts false (formatBasic ['\n'] unit source) = tally counts false source := by
  obtain ⟨lead, raws, trail, placed, split, blankLead, blankTrail, rows, isRows⟩ :=
    exists_rewritten indents neat
  obtain ⟨after, blankAfter, written⟩ := exists_fed_formatBasic unit source
  have feed : Spacing ['\n'] := by simp [Spacing, isSpacing]
  have respaced : Respaced (fed (raws ++ trail)) (fed (collapseAfter false placed ++ after)) :=
    respaced_collapseAfter rows blankTrail (fun row member => by simp [blankAfter row member, Spacing])
      (x := []) (y := []) (by simp [Spacing]) (by simp) (show '\n' ∈ [] ↔ false = true by simp)
  have ofLines : ∀ row ∈ raws ++ trail, row ∈ lines source := fun row member => by
    rw [split]
    exact List.mem_append_right lead member
  have steadyResult : Steady (fed (collapseAfter false placed ++ after)) := by
    have empty : BreakFree [] ∧ SteadyLine [] := ⟨by simp [BreakFree], steadyLine_of_trimEnd rfl⟩
    refine steady_fed fun row member => ?_
    rcases List.mem_append.1 member with inRows | inAfter
    · refine ⟨?_, ?_⟩
      · rw [← isRows] at inRows
        exact breakFree_reindentLines indents.breakFree 0 false source row inRows
      · rcases mem_collapseAfter inRows with rfl | ⟨line, inPlaced, rfl⟩
        · exact empty.2
        · exact steadyLine_of_mem rows line inPlaced
    · rw [blankAfter row inAfter]
      exact empty
  calc tally counts false (formatBasic ['\n'] unit source)
      = tally counts false (fed (collapseAfter false placed ++ after)) := by
        rw [← isRows]
        rcases written with same | behindFeed
        · rw [same]
        · rw [← behindFeed]
          exact (tally_spacing_append trivia feed _).symm
    _ = tally counts false (fed (raws ++ trail)) :=
        (tally_respaced trivia kinds respaced (steady_fed_of_neat neat ofLines) steadyResult
          (return_not_mem_fed noReturn ofLines) false).symm
    _ = tally counts false (fed (lines source)) := by
        rw [split, fed_append lead, tally_spacing_append trivia (spacing_fed blankLead)]
    _ = tally counts false source := by
        rw [fed_lines noReturn]
        exact tally_spacing_append trivia feed source

theorem hasIssues_formatBasic {unit source : Text} (indents : IsIndentUnit unit)
    (noReturn : '\r' ∉ source) (neat : NeatLines source) :
    hasIssues source (formatBasic ['\n'] unit source) = false := by
  have comments : commentCount (formatBasic ['\n'] unit source) = commentCount source := by
    refine tally_formatBasic (fun kind _ => kind.isComment) ?_ ?_ indents noReturn neat
    · intro kind text isTrivia
      cases kind <;> first | rfl | cases isTrivia
    · exact fun kind text other _ => rfl
  have braces : braceCount (formatBasic ['\n'] unit source) = braceCount source := by
    refine tally_formatBasic
      (fun kind text => kind == .punctuator && (text == ['{'] || text == ['}']))
      ?_ ?_ indents noReturn neat
    · intro kind text isTrivia
      cases kind <;> first | rfl | cases isTrivia
    · intro kind text other isSpelled
      cases kind <;> first | rfl | cases isSpelled
  rw [hasIssues, comments, braces]
  simp

end UiFormat.Safety

namespace UiFormat.Ets

open UiFormat.Text
open UiFormat.Safety

/-- What is formatted from the declarations has been compared with the source. -/
theorem hasIssues_of_formatStructure {o : Options} {source text : Text}
    {errors : List Parse.Diagnostic} (done : formatStructure o source = (.ok text, errors)) :
    hasIssues source text = false := by
  simp only [formatStructure] at done
  split at done
  · cases done
  split at done
  · cases done
  split at done
  · cases done
  split at done
  · cases done
  · obtain ⟨compared, -⟩ := Prod.mk.inj done
    split at compared
    · cases compared
    · rename_i noIssues
      cases compared
      simpa using noIssues

/-- **Formatting keeps comments and braces.**  Whichever way a source is formatted, the
result has as many braces and no fewer comments, provided the lines are neat where the
basic rules are used. -/
theorem format_keeps_structure {o : Options} {source : Text} (feeds : o.eol = ['\n'])
    (noReturn : '\r' ∉ source)
    (neat : (format o source).usedFallback = true → NeatLines source) :
    hasIssues source (format o source).text = false := by
  by_cases fallback : (format o source).usedFallback = true
  · rw [text_of_usedFallback fallback, feeds]
    exact hasIssues_formatBasic (isIndentUnit_indentUnit o) noReturn (neat fallback)
  · unfold format at fallback ⊢
    split
    · rename_i text errors structured
      exact hasIssues_of_formatStructure structured
    · rename_i reason errors refused
      rw [refused] at fallback
      exact absurd rfl fallback

/-- Comments of two forms, a regular expression with an escaped slash, a template literal and
blank runs, in a construct that only the basic rules format. -/
def commentedSource : Text :=
  "\n\nnamespace N \x7b \n/** a\n* b */\n\n \n let r = /\\/\x7b/ // c \n\t.d(\x60\n $\x7be\x7d\x60)\n \x7d ".toList

/-- A component that is formatted from its declarations. -/
def componentSource : Text :=
  "@Component\nstruct S \x7b build() \x7b Text(\x27a\x27) // b\n\x7d \x7d\n".toList

theorem format_keeps_structure_routes :
    ((format {} commentedSource).usedFallback = true ∧ NeatLines commentedSource ∧
      hasIssues commentedSource (format {} commentedSource).text = false) ∧
    ((format {} componentSource).usedFallback = false ∧
      hasIssues componentSource (format {} componentSource).text = false) := by
  obtain ⟨fallback, noReturn, neat⟩ : (format {} commentedSource).usedFallback = true ∧
      '\r' ∉ commentedSource ∧ NeatLines commentedSource := by
    rw [show commentedSource = _ from String.toList_ofList]
    decide +kernel
  obtain ⟨structured, unbroken⟩ : (format {} componentSource).usedFallback = false ∧
      '\r' ∉ componentSource := by
    rw [show componentSource = _ from String.toList_ofList]
    decide +kernel
  refine ⟨⟨fallback, neat, format_keeps_structure rfl noReturn fun _ => neat⟩, structured, ?_⟩
  refine format_keeps_structure rfl unbroken fun fallback => ?_
  rw [structured] at fallback
  cases fallback

/-- A backslash before a blank that is taken off its line, and a blank that the lexer takes
for a punctuator. -/
def untidySources : List Text := [
  "/\\ \n\x7b/\n".toList,
  "a\u00a0\n/\x7b/\n".toList
]

/-- The basic rules change the number of braces. -/
theorem formatBasic_changes_braces :
    (untidySources.all fun source =>
      !source.contains '\r' && (format {} source).usedFallback &&
        braceCount (format {} source).text != braceCount source &&
          hasIssues source (format {} source).text) = true := by
  rw [untidySources, String.toList_ofList, String.toList_ofList]
  decide +kernel

end UiFormat.Ets

/-
# UiFormat.Proofs.Layout.Indentation -- existing indentation does not matter

The layout scans a line as it stands in the text, spaces and tabs around it included, and
writes it from its trimmed text.  Of the spaces and tabs nothing reaches what is carried to
the next line: neither the scan (`scan_stripIndent`) nor the trimmed text depends on them, and
only a line that is kept as it is shows them in its placement (`place_stripIndent`).  So a
text and the same text stripped of its indentation are placed alike, line by line, up to the
lines that are kept (`placeAll_stripIndent`).

A line is kept only inside a template literal or a comment.  Where every line starts in code,
two texts with the same lines up to indentation are therefore written alike.

Main statement: `reindentLines_of_stripIndent`.
-/
import UiFormat.Proofs.Layout.BracketLevels

namespace UiFormat.Layout

open UiFormat.Text

set_option autoImplicit false

/-! ## A line without its indentation -/

/-- A space or a tab. -/
def isIndent (c : Char) : Bool :=
  c == ' ' || c == '\t'

/-- The line without the spaces and tabs at its two ends. -/
def stripIndent (line : Text) : Text :=
  dropEndWhile isIndent (line.dropWhile isIndent)

theorem eq_of_isIndent {c : Char} (indents : isIndent c = true) : c = ' ' ∨ c = '\t' := by
  simpa [isIndent] using indents

theorem isBlank_of_isIndent {c : Char} (indents : isIndent c = true) : isBlank c = true := by
  rcases eq_of_isIndent indents with rfl | rfl
  · rfl
  · rfl

/-- A line is its stripped text between spaces and tabs. -/
theorem exists_append_stripIndent_append (line : Text) :
    ∃ left right, line = left ++ (stripIndent line ++ right) ∧
      (∀ c ∈ left, isIndent c = true) ∧ ∀ c ∈ right, isIndent c = true := by
  obtain ⟨right, split, behind⟩ := exists_dropEndWhile_append isIndent (line.dropWhile isIndent)
  refine ⟨line.takeWhile isIndent, right, ?_, fun c member => List.mem_takeWhile_imp member, behind⟩
  rw [stripIndent, ← split, List.takeWhile_append_dropWhile]

theorem scan_stripIndent (s : ScanState) (line : Text) : s.scan (stripIndent line) = s.scan line := by
  obtain ⟨left, right, split, before, behind⟩ := exists_append_stripIndent_append line
  have blank : ∀ c ∈ right, isBlank c = true := fun c member => isBlank_of_isIndent (behind c member)
  have indents : ∀ c ∈ left, c = ' ' ∨ c = '\t' := fun c member => eq_of_isIndent (before c member)
  calc s.scan (stripIndent line)
      = s.scan (stripIndent line ++ right) := (scan_append_blank blank s _).symm
    _ = s.scan (left ++ (stripIndent line ++ right)) := (scan_indent_append indents s _).symm
    _ = s.scan line := by rw [← split]

theorem trim_stripIndent (line : Text) : trim (stripIndent line) = trim line := by
  obtain ⟨left, right, split, before, behind⟩ := exists_append_stripIndent_append line
  have leading : ∀ c ∈ left, isBlank c = true := fun c member => isBlank_of_isIndent (before c member)
  have trailing : ∀ c ∈ right, isBlank c = true := fun c member => isBlank_of_isIndent (behind c member)
  calc trim (stripIndent line)
      = trim (stripIndent line ++ right) := (trim_append_blank _ trailing).symm
    _ = trim (left ++ (stripIndent line ++ right)) := (trim_blank_append _ leading).symm
    _ = trim line := by rw [← split]

/-! ## Placements -/

/-- The placement of the line without its indentation: it differs where the line is kept. -/
def Placement.strip : Placement → Placement
  | .verbatim raw => .verbatim (stripIndent raw)
  | .keptComment raw => .keptComment (stripIndent raw)
  | other => other

theorem placeComment_stripIndent (normalizeDoc : Bool) (s : LayoutState) (scan : LineScan)
    (raw : Text) : placeComment normalizeDoc s scan (stripIndent raw) =
      (placeComment normalizeDoc s scan raw).strip := by
  simp only [placeComment, trim_stripIndent]
  by_cases starred : startsWith (trim raw) ['*'] = true
  · rw [if_pos starred, if_pos starred]
    rfl
  · rw [if_neg starred, if_neg starred]
    by_cases normalized : (normalizeDoc && scan.commentIsDoc) = true
    · rw [if_pos normalized, if_pos normalized]
      rfl
    · rw [if_neg normalized, if_neg normalized]
      rfl

section

variable (base : Int) (normalizeDoc : Bool)

/-- One line: the state for the next line does not depend on the indentation. -/
theorem place_stripIndent (s : LayoutState) (raw : Text) :
    place base normalizeDoc s (stripIndent raw) =
      ((place base normalizeDoc s raw).1.strip, (place base normalizeDoc s raw).2) := by
  unfold place
  rw [scan_stripIndent, trim_stripIndent]
  dsimp only
  by_cases inTemplate : (s.scanner.scan raw).1.startsInTemplate = true
  · rw [if_pos inTemplate, if_pos inTemplate]
    rfl
  · rw [if_neg inTemplate, if_neg inTemplate]
    by_cases inComment : (s.scanner.scan raw).1.startsInComment = true
    · rw [if_pos inComment, if_pos inComment, placeComment_stripIndent]
    · rw [if_neg inComment, if_neg inComment]
      by_cases empty : (trim raw).isEmpty = true
      · rw [if_pos empty]
        rfl
      · rw [if_neg empty]
        rfl

/-- All lines. -/
theorem placeAll_stripIndent (s : LayoutState) (raws : List Text) :
    placeAll base normalizeDoc s (raws.map stripIndent) =
      (placeAll base normalizeDoc s raws).map Placement.strip := by
  induction raws generalizing s with
  | nil => rfl
  | cons raw raws ih =>
      rw [List.map_cons, placeAll_cons, placeAll_cons, place_stripIndent, List.map_cons, ih]

theorem scanLines_stripIndent (s : ScanState) (raws : List Text) :
    scanLines s (raws.map stripIndent) = scanLines s raws := by
  induction raws generalizing s with
  | nil => rfl
  | cons raw raws ih => rw [List.map_cons, scanLines, scanLines, scan_stripIndent, ih]

/-! ## Lines that start in code -/

/-- A line that starts in code is not kept as it is. -/
theorem strip_place_of_code {s : LayoutState} {raw : Text}
    (code : (s.scanner.scan raw).1.inCode = true) :
    (place base normalizeDoc s raw).1.strip = (place base normalizeDoc s raw).1 := by
  rw [place_of_code code]
  by_cases empty : (trim raw).isEmpty = true
  · rw [if_pos empty]
    rfl
  · rw [if_neg empty]
    rfl

theorem map_strip_placeAll {s : LayoutState} {raws : List Text}
    (code : StartInCode (scanLines s.scanner raws)) :
    (placeAll base normalizeDoc s raws).map Placement.strip = placeAll base normalizeDoc s raws := by
  induction raws generalizing s with
  | nil => rfl
  | cons raw raws ih =>
      obtain ⟨here, later⟩ := List.forall_mem_cons.1 code
      have next : StartInCode (scanLines (place base normalizeDoc s raw).2.scanner raws) := by
        rwa [scanner_place]
      rw [placeAll_cons, List.map_cons, strip_place_of_code base normalizeDoc here, ih next]

/-- **Existing indentation does not matter.**  Two texts whose lines are the same in order once
spaces and tabs are removed at their ends, and of which no line starts inside a template
literal or a comment, are reindented alike, whatever the base level and the indent unit, and
whether or not doc comments gain stars.  It is enough that one of them has no such line: the
lines of both are scanned alike. -/
theorem reindentLines_of_stripIndent (unit : Text) {a b : Text}
    (same : (lines a).map stripIndent = (lines b).map stripIndent)
    (code : StartInCode (scanLines .start (lines a))) :
    reindentLines base unit normalizeDoc a = reindentLines base unit normalizeDoc b := by
  have scans : scanLines .start (lines b) = scanLines .start (lines a) := by
    rw [← scanLines_stripIndent .start (lines a), same, scanLines_stripIndent]
  have placed : placeAll base normalizeDoc (.start base) (lines a) =
      placeAll base normalizeDoc (.start base) (lines b) :=
    calc placeAll base normalizeDoc (.start base) (lines a)
        = (placeAll base normalizeDoc (.start base) (lines a)).map Placement.strip :=
          (map_strip_placeAll base normalizeDoc code).symm
      _ = placeAll base normalizeDoc (.start base) ((lines a).map stripIndent) :=
          (placeAll_stripIndent base normalizeDoc _ _).symm
      _ = placeAll base normalizeDoc (.start base) ((lines b).map stripIndent) := by rw [same]
      _ = (placeAll base normalizeDoc (.start base) (lines b)).map Placement.strip :=
          placeAll_stripIndent base normalizeDoc _ _
      _ = placeAll base normalizeDoc (.start base) (lines b) :=
          map_strip_placeAll base normalizeDoc (by rwa [← scans] at code)
  rw [reindentLines, reindentLines, placed]

end

/-- A `switch` with a label, strings that end with their line, one of them in a backslash and
blanks, a call chain, comments, and a bracket behind a blank that is no indentation. -/
def raggedText : Text :=
  ("\t switch (x) \x7b  \n case 1:\t\nfoo(\x27un\\ \t\n\t\t.bar(\x22b  \n\n /* c */ )  \n" ++
    "  \xa0\x7d // d\t\n \t\x7d /* e  ").toList

/-- The same lines without indentation. -/
def flushText : Text :=
  ("switch (x) \x7b\ncase 1:\nfoo(\x27un\\\n.bar(\x22b\n\n/* c */ )\n" ++
    "\xa0\x7d // d\n\x7d /* e").toList

theorem reindentLines_of_stripIndent_ragged :
    (lines raggedText).map stripIndent = (lines flushText).map stripIndent ∧
      StartInCode (scanLines .start (lines raggedText)) ∧ raggedText ≠ flushText ∧
      reindentLines 1 "\t".toList true raggedText = reindentLines 1 "\t".toList true flushText := by
  obtain ⟨same, code, differ⟩ :
      (lines raggedText).map stripIndent = (lines flushText).map stripIndent ∧
        StartInCode (scanLines .start (lines raggedText)) ∧ raggedText ≠ flushText := by
    unfold StartInCode
    rw [show raggedText = _ from toList_append_ofList, show flushText = _ from toList_append_ofList]
    decide +kernel
  exact ⟨same, code, differ, reindentLines_of_stripIndent 1 true "\t".toList same code⟩

/-- Inside a template literal it does matter. -/
example : reindentLines 0 [] true "\x60a\n b\x60".toList ≠
    reindentLines 0 [] true "\x60a\nb\x60".toList := by
  decide +kernel

end UiFormat.Layout

/-
# UiFormat.Proofs.Safety.Literals -- the basic rules keep template literals

A line that starts inside a template literal is written as it is.  This is not enough to keep
the literals (`templates_spoiledSources`):

* the line in which a literal opens is trimmed, so blanks at its end are lost to the literal;
* the scan by lines knows no regular expressions, so a back quote in one makes it take code
  for a literal and a literal for code;
* a line that is not neat may change its tokens, and so where literals stand.

Lines without all three are tidy (`TidyLines`).  The basic rules reflow tidy lines
(`reflowed_formatBasic`), the line feeds inside literals being protected, so closed literals
keep their texts (`templates_formatBasic`).
-/
import UiFormat.Proofs.Safety.WrittenRows

namespace UiFormat.Safety

open UiFormat.Text
open UiFormat.Layout
open UiFormat.Ets

set_option autoImplicit false

/-! ## Lines and literals -/

/-- A line that starts at this place starts inside a template literal. -/
def InTemplate (source : Text) (start : Nat) : Prop :=
  ∃ t ∈ tokenize source, t.kind = .template ∧ Covers t start

/-- The texts of the template literals, in order. -/
def templates (text : Text) : List Text :=
  ((tokenize text).filter (·.kind == .template)).map (·.text)

theorem breakEnds_eq_startsFrom {text line : Text} {rest : List Text} (noReturn : '\r' ∉ text)
    (split : lines text = line :: rest) (place : Nat) :
    breakEnds place text = startsFrom (place + line.length + 1) rest := by
  induction text generalizing line rest place with
  | nil =>
      obtain ⟨rfl, rfl⟩ := List.cons.inj split
      rfl
  | cons c text ih =>
      rw [List.mem_cons, not_or] at noReturn
      cases later : lines text with
      | nil => exact absurd later (lines_ne_nil text)
      | cons row others =>
          by_cases feed : c = '\n'
          · subst feed
            rw [lines, later] at split
            obtain ⟨rfl, rfl⟩ := List.cons.inj split
            rw [breakEnds, ih noReturn.2 later, startsFrom]
            rfl
          · have plain : isBreak c = false := by simp [isBreak, feed, Ne.symm noReturn.1]
            rw [lines_cons_of_not_break text plain, later, consLine] at split
            obtain ⟨rfl, rfl⟩ := List.cons.inj split
            rw [breakEnds_cons plain, ih noReturn.2 later, List.length_cons]
            congr 1
            omega

theorem lineStarts_eq_startsFrom {text : Text} (noReturn : '\r' ∉ text) :
    lineStarts text = startsFrom 0 (lines text) := by
  cases split : lines text with
  | nil => exact absurd split (lines_ne_nil text)
  | cons line rest => rw [lineStarts, breakEnds_eq_startsFrom noReturn split, startsFrom]

/-! ## The lines of a source -/

/-- What stands from the start of a line on: the line, and further lines behind line feeds. -/
theorem stands_of_mem {source : Text} {raws : List Text} {start : Nat}
    (here : fed raws = '\n' :: source.drop start) {place : Nat} {line : Text}
    (member : (place, line) ∈ (startsFrom start raws).zip raws) :
    ∃ rows, source.drop place = line ++ fed rows := by
  induction raws generalizing start with
  | nil => cases here
  | cons raw raws ih =>
      have first : raw ++ fed raws = source.drop start := (List.cons.inj here).2
      rw [startsFrom, List.zip_cons_cons, List.mem_cons] at member
      rcases member with same | later
      · obtain ⟨rfl, rfl⟩ := Prod.mk.inj same
        exact ⟨raws, first.symm⟩
      · have behind : source.drop (start + raw.length) = fed raws := by
          rw [← List.drop_drop, ← first, List.drop_left]
        cases raws with
        | nil => cases later
        | cons next raws =>
            refine ih ?_ later
            rw [← List.drop_drop, behind]
            rfl

/-- In front of a line that starts inside a template literal stands one that does, too, or that
holds the back quote that opens it. -/
theorem inTemplate_or_backquote {source : Text} {start : Nat} {line : Text} {rows : List Text}
    (stands : source.drop start = line ++ fed rows)
    (next : InTemplate source (start + line.length + 1)) :
    InTemplate source start ∨ '\x60' ∈ line := by
  obtain ⟨t, member, isTemplate, covers⟩ := next
  by_cases earlier : t.start < start
  · exact .inl ⟨t, member, isTemplate, earlier, by have := covers.2; omega⟩
  · refine .inr ?_
    have inLexemes : t ∈ lexemes source := by
      rcases List.mem_append.1 member with found | atEnd
      · exact found
      · rw [List.mem_singleton.1 atEnd] at isTemplate
        cases isTemplate
    obtain ⟨operandBefore, c, rest, here, kind, -⟩ := exists_lexeme_of_mem inLexemes
    obtain ⟨rfl, -⟩ := (lexeme_spans operandBefore c rest).1 (kind ▸ isTemplate)
    have short : t.start - start ≤ line.length := by have := covers.1; omega
    have within : line.drop (t.start - start) ++ fed rows = '\x60' :: rest := by
      rw [← here, ← List.drop_append_of_le_length short, ← stands, List.drop_drop]
      congr 1
      omega
    cases inside : line.drop (t.start - start) with
    | nil =>
        rw [inside, List.nil_append] at within
        cases rows with
        | nil => cases within
        | cons row rows => cases (List.cons.inj within).1
    | cons d later =>
        rw [inside] at within
        obtain ⟨rfl, -⟩ := List.cons.inj within
        exact List.mem_of_mem_drop (inside ▸ List.mem_cons_self)

/-- The lines of a source do not touch its template literals, and the scan by lines sees them:
a line that starts inside one is seen to, and the others are neat, without blanks at their
end if a literal goes on behind it. -/
structure TidyLines (source : Text) : Prop where
  seen : ∀ row ∈ (lineStarts source).zip (scanLines .start (lines source)),
    InTemplate source row.1 → row.2.startsInTemplate = true
  neat : ∀ row ∈ (lineStarts source).zip (lines source),
    InTemplate source row.1 ∨ isNeatLine row.2 = true
  flush : ∀ row ∈ (lineStarts source).zip (lines source),
    InTemplate source (row.1 + row.2.length + 1) →
      InTemplate source row.1 ∨ trimEnd row.2 = row.2

instance (t : Tok) (place : Nat) : Decidable (Covers t place) :=
  inferInstanceAs (Decidable (t.start < place ∧ place ≤ t.stop))

instance (source : Text) (start : Nat) : Decidable (InTemplate source start) :=
  inferInstanceAs (Decidable (∃ t ∈ tokenize source, t.kind = .template ∧ Covers t start))

instance (source : Text) : Decidable (TidyLines source) :=
  decidable_of_iff
    ((∀ row ∈ (lineStarts source).zip (scanLines .start (lines source)),
        InTemplate source row.1 → row.2.startsInTemplate = true) ∧
      (∀ row ∈ (lineStarts source).zip (lines source),
        InTemplate source row.1 ∨ isNeatLine row.2 = true) ∧
      ∀ row ∈ (lineStarts source).zip (lines source),
        InTemplate source (row.1 + row.2.length + 1) →
          InTemplate source row.1 ∨ trimEnd row.2 = row.2)
    ⟨fun ⟨seen, neat, flush⟩ => ⟨seen, neat, flush⟩, fun tidy => ⟨tidy.seen, tidy.neat, tidy.flush⟩⟩

/-- Where every token can be followed line by line, the scan sees the literals. -/
theorem seen_of_linear {source : Text}
    (linear : ∀ t ∈ tokenize source, isLinear t.kind t.text = true) :
    ∀ row ∈ (lineStarts source).zip (scanLines .start (lines source)),
      InTemplate source row.1 → row.2.startsInTemplate = true :=
  fun row member => ((linesAgree_of_linear linear).template row.1 row.2 member).2

theorem TidyLines.line {source : Text} (tidy : TidyLines source) (noReturn : '\r' ∉ source)
    {start : Nat} {line : Text}
    (member : (start, line) ∈ (startsFrom 0 (lines source)).zip (lines source)) :
    TidyLine (InTemplate source) start line := by
  have whole : fed (lines source) = '\n' :: source.drop 0 := fed_lines noReturn
  obtain ⟨rows, stands⟩ := stands_of_mem whole member
  rw [← lineStarts_eq_startsFrom noReturn] at member
  refine ⟨tidy.neat _ member, fun next => ?_⟩
  rcases inTemplate_or_backquote stands next with inside | quoted
  · exact .inl inside
  · refine (tidy.flush _ member next).imp_right fun flush => ⟨fun empty => ?_, flush⟩
    cases (trim_eq_nil_iff line).1 empty _ quoted

theorem rowsWritten_lines {unit source : Text} (indents : IsIndentUnit unit) (noReturn : '\r' ∉ source)
    (tidy : TidyLines source) :
    RowsWritten (InTemplate source) 0 (lines source)
      ((placeAll 0 false (.start 0) (lines source)).map (·.write unit)) := by
  refine rowsWritten_placeAll indents (breakFree_of_mem_lines source) (fun place line member =>
    tidy.line noReturn member) fun place scan member => ?_
  rw [← lineStarts_eq_startsFrom noReturn] at member
  exact tidy.seen _ member

/-- The lines of a source and how they are written: those that are dropped at either end
are blank. -/
theorem exists_rowsWritten {unit source : Text} (indents : IsIndentUnit unit)
    (noReturn : '\r' ∉ source) (tidy : TidyLines source) :
    ∃ lead raws trail placed, lines source = lead ++ (raws ++ trail) ∧
      (∀ row ∈ lead, Spacing row) ∧ (∀ row ∈ trail, Spacing row) ∧
      RowsWritten (InTemplate source) (fed lead).length raws placed ∧
      reindentLines 0 unit false source = collapseAfter false placed := by
  have rows := rowsWritten_lines indents noReturn tidy
  obtain ⟨ends, placed, tail, split, empty, isPlaced⟩ := exists_collapseAfter 0 unit false source
  rw [split] at rows
  obtain ⟨lead, others, whole, leadRows, otherRows⟩ := rows.split
  obtain ⟨raws, trail, rfl, rawRows, trailRows⟩ := otherRows.split
  rw [Nat.zero_add] at rawRows
  rw [List.forall_mem_append] at empty
  exact ⟨lead, raws, trail, placed, whole, leadRows.spacing empty.1, trailRows.spacing empty.2,
    rawRows, isPlaced⟩

/-- The basic rules reflow a source with tidy lines. -/
theorem reflowed_formatBasic {unit source : Text} (indents : IsIndentUnit unit)
    (noReturn : '\r' ∉ source) (tidy : TidyLines source) :
    Reflowed (fun rest => InTemplate source (source.length - rest.length)) false
      (source.dropWhile isSpacing) ((formatBasic ['\n'] unit source).dropWhile isSpacing) := by
  obtain ⟨lead, raws, trail, placed, split, blankLead, blankTrail, rows, isRows⟩ :=
    exists_rowsWritten indents noReturn tidy
  obtain ⟨after, blankAfter, written⟩ := exists_fed_formatBasic unit source
  have feed : ∀ c ∈ ['\n'], isSpacing c = true := forall_mem_of_all (by decide)
  have whole : fed lead ++ fed (raws ++ trail) = '\n' :: source := by
    rw [← fed_append, ← split, fed_lines noReturn]
  have place : (fed lead).length + (fed (raws ++ trail)).length = source.length + 1 := by
    rw [← List.length_append, whole, List.length_cons]
  have spacingAfter : ∀ row ∈ after, Spacing row := fun row member => by
    simp [blankAfter row member, Spacing]
  have none : Pending (InTemplate source) (fed lead).length [] [] false false := .none
  have reflowed :=
    (reflowed_collapseAfter rows blankTrail spacingAfter none trivial place).strip false
  have left : (fed (raws ++ trail)).dropWhile isSpacing = source.dropWhile isSpacing := by
    rw [← List.dropWhile_append_of_pos (spacing_fed blankLead), whole]
    exact List.dropWhile_append_of_pos feed
  have right : (fed (collapseAfter false placed ++ after)).dropWhile isSpacing =
      (formatBasic ['\n'] unit source).dropWhile isSpacing := by
    rw [← isRows]
    rcases written with same | behindFeed
    · rw [same]
    · rw [← behindFeed]
      exact List.dropWhile_append_of_pos feed
  rw [List.nil_append, List.nil_append, left, right] at reflowed
  exact reflowed

/-! ## Template literals -/

theorem templates_eq_visibleTokens (text : Text) :
    templates text = ((visibleTokens .start false text).filter (·.kind == .template)).map (·.text) := by
  have ends : [endToken text].filter (·.kind == .template) = [] := rfl
  rw [templates, tokenize, List.filter_append, ends, List.append_nil, visibleTokens,
    List.filter_filter]
  refine congrArg (List.map _) (List.filter_congr fun t _ => ?_)
  cases t.kind <;> rfl

/-- **The basic rules keep template literals**: their texts are the same, in order. -/
theorem templates_formatBasic {unit source : Text} (indents : IsIndentUnit unit)
    (noReturn : '\r' ∉ source)
    (closed : ∀ t ∈ tokenize source, t.kind = .template → isClosed t.text = true)
    (tidy : TidyLines source) :
    templates (formatBasic ['\n'] unit source) = templates source := by
  have same := sameTokens_of_reflowed (reflowed_formatBasic indents noReturn tidy) noReturn false
    (p := .start) (Nat.zero_add _) .start
  have inSource : ∀ t ∈ visibleTokens .start false source, t ∈ tokenize source := fun t member =>
    List.mem_append_left _ (List.mem_of_mem_filter member)
  rw [templates_eq_visibleTokens, templates_eq_visibleTokens]
  generalize visibleTokens .start false source = tokens at same inSource ⊢
  generalize visibleTokens .start false (formatBasic ['\n'] unit source) = others at same ⊢
  induction same with
  | nil => rfl
  | @cons t u tokens others here _ ih =>
      rw [List.forall_mem_cons] at inSource
      rw [List.filter_cons, List.filter_cons, ← here.kind]
      split
      · rename_i isTemplate
        have isTemplate := eq_of_beq isTemplate
        have text := here.template isTemplate (closed t inSource.1 isTemplate) fun place covers =>
          ⟨t, inSource.1, isTemplate, covers⟩
        rw [List.map_cons, List.map_cons, text, ih inSource.2]
      · exact ih inSource.2

/-- Code that is indented anew around a literal with a blank line, a group, blanks at the end
of a line and an escape, and around a regular expression. -/
def quotedSource : Text :=
  "  let s = \x60a\n\n    $\x7b f(\x7b\n  x \x7d) \x7d  \n\\\x60 b\x60;\n   g(/[x]/)\n\n\n  \x60c\x60\n".toList

theorem templates_quotedSource :
    IsIndentUnit "  ".toList ∧ '\r' ∉ quotedSource ∧
      (∀ t ∈ tokenize quotedSource, t.kind = .template → isClosed t.text = true) ∧
      TidyLines quotedSource ∧ formatBasic ['\n'] "  ".toList quotedSource ≠ quotedSource ∧
      templates (formatBasic ['\n'] "  ".toList quotedSource) = templates quotedSource := by
  have indents : IsIndentUnit "  ".toList := forall_mem_of_all (by decide)
  obtain ⟨noReturn, closed, tidy, changed⟩ : '\r' ∉ quotedSource ∧
      (∀ t ∈ tokenize quotedSource, t.kind = .template → isClosed t.text = true) ∧
      TidyLines quotedSource ∧ formatBasic ['\n'] "  ".toList quotedSource ≠ quotedSource := by
    rw [show quotedSource = _ from String.toList_ofList]
    decide +kernel
  exact ⟨indents, noReturn, closed, tidy, changed,
    templates_formatBasic indents noReturn closed tidy⟩

/-- A literal that goes on behind a line with a blank at its end, one behind a regular
expression that the scan by lines takes for the start of a literal, and a blank in front of
a regular expression that the lexer takes for a punctuator. -/
def spoiledSources : List Text := [
  "\x60a \nb\x60\n".toList,
  "x = /\x60/\n\x60a\n  b\x60\n".toList,
  "a\u00a0\n/\x60/\n".toList
]

/-- The basic rules change closed template literals, or make one. -/
theorem templates_spoiledSources :
    (spoiledSources.all fun source =>
      !source.contains '\r' &&
        (tokenize source).all (fun t => t.kind != .template || isClosed t.text) &&
          templates (formatBasic ['\n'] "  ".toList source) != templates source) = true := by
  rw [spoiledSources, String.toList_ofList, String.toList_ofList, String.toList_ofList]
  decide +kernel

end UiFormat.Safety

/-
# UiFormat.Proofs.Safety.BasicRules -- formatting by the basic rules keeps the content

The basic rules are the path taken when nothing else is trusted, so their law
holds of every source, malformed or not: whatever the terminator and the indent
unit, the lines that say something are the same, in the same order, and the
result ends in a terminator exactly when the source ends in a line break
(`formatBasic_keeps_contents`).
-/
import UiFormat.Safety.BasicRules
import UiFormat.Proofs.Layout.Contents

namespace UiFormat.Safety

open UiFormat.Text
open UiFormat.Layout

set_option autoImplicit false

/-- The indent unit is made of spaces and tabs. -/
def IsIndentUnit (unit : Text) : Prop :=
  ∀ c ∈ unit, c = ' ' ∨ c = '\t'

theorem IsIndentUnit.isBlank {unit : Text} (indents : IsIndentUnit unit) :
    ∀ c ∈ unit, isBlank c = true := by
  intro c member
  rcases indents c member with rfl | rfl <;> decide

theorem IsIndentUnit.breakFree {unit : Text} (indents : IsIndentUnit unit) : BreakFree unit := by
  intro c member
  rcases indents c member with rfl | rfl <;> decide

theorem contents_formatBasic {eol unit : Text} (source : Text) (terminator : IsTerminator eol)
    (indents : IsIndentUnit unit) : contents (formatBasic eol unit source) = contents source := by
  have plain := breakFree_reindentLines indents.breakFree 0 false source
  have same := shown_reindentLines indents.isBlank 0 source
  rw [formatBasic]
  split
  · rename_i none
    rw [none] at same
    exact same
  · rename_i first rest some
    rw [some] at plain same
    split
    · rw [contents, lines_join_terminated terminator _ (by simp) plain, shown_append, same]
      simp [shown, trim, trimStart, trimEnd, dropEndWhile]
    · rw [List.append_nil, contents, lines_join terminator _ (by simp) plain, same]

theorem terminator_getLast {eol : Text} (terminator : IsTerminator eol) :
    ∃ c, eol.getLast? = some c ∧ isBreak c = true := by
  rcases terminator with rfl | rfl | rfl
  · exact ⟨'\n', rfl, by decide⟩
  · exact ⟨'\n', rfl, by decide⟩
  · exact ⟨'\r', rfl, by decide⟩

theorem getLast?_join (eol : Text) :
    ∀ (parts : List Text) (last : Text), last ≠ [] →
      (join eol (parts ++ [last])).getLast? = last.getLast?
  | [], last, _ => by simp [join]
  | [part], last, filled => by
      rw [List.singleton_append, join, join, List.getLast?_append_of_ne_nil _ filled]
  | part :: next :: parts, last, filled => by
      have rest := getLast?_join eol (next :: parts) last filled
      have nonempty : join eol (next :: parts ++ [last]) ≠ [] := by
        intro empty
        rw [empty, List.getLast?_nil, eq_comm, List.getLast?_eq_none_iff] at rest
        exact filled rest
      simp only [List.cons_append] at rest nonempty ⊢
      rw [join, List.getLast?_append_of_ne_nil _ nonempty, rest]

/-- Lines without breaks, the last of them not empty, do not end in a
terminator. -/
theorem not_endsWith_join {eol : Text} (terminator : IsTerminator eol) (parts : List Text)
    (plain : ∀ part ∈ parts, BreakFree part) (filled : parts.getLast? ≠ some [])
    (nonempty : parts ≠ []) : endsWith (join eol parts) eol = false := by
  obtain ⟨front, last, rfl⟩ := (List.eq_nil_or_concat parts).resolve_left nonempty
  rw [List.concat_eq_append] at plain filled ⊢
  have lastFilled : last ≠ [] := by simpa using filled
  obtain ⟨c, ends, isBreakChar⟩ := terminator_getLast terminator
  by_contra suffix
  have isSuffix : eol <:+ join eol (front ++ [last]) :=
    List.isSuffixOf_iff_suffix.1 (by simpa [endsWith] using suffix)
  obtain ⟨before, whole⟩ := isSuffix
  have eolFilled : eol ≠ [] := by rintro rfl; simp at ends
  have sameEnd : last.getLast? = some c := by
    rw [← getLast?_join eol front last lastFilled, ← whole,
      List.getLast?_append_of_ne_nil _ eolFilled, ends]
  have plainEnd := plain last (by simp) c (List.mem_of_getLast? sameEnd)
  rw [isBreakChar] at plainEnd
  exact absurd plainEnd (by decide)

theorem endsWith_formatBasic {eol unit : Text} (source : Text) (terminator : IsTerminator eol)
    (indents : IsIndentUnit unit) (nonblank : contents source ≠ []) :
    endsWith (formatBasic eol unit source) eol = true ↔ endsInBreak source = true := by
  have plain := breakFree_reindentLines indents.breakFree 0 false source
  have same := shown_reindentLines indents.isBlank 0 source
  have filled := reindentLines_getLast_ne_nil 0 unit false source
  rw [formatBasic]
  split
  · rename_i none
    rw [none] at same
    exact absurd same.symm nonblank
  · rename_i first rest some
    rw [some] at plain filled
    split
    · rename_i breaks
      simp [endsWith, breaks]
    · rename_i noBreak
      rw [List.append_nil, not_endsWith_join terminator _ plain filled (by simp)]
      simp [noBreak]

/-- **The basic rules keep the content.**  The lines of the result that are not
blank are those of the source, trimmed, in the same order; and the result ends
in a terminator exactly when the source ends in a line break. -/
theorem formatBasic_keeps_contents {eol unit : Text} (source : Text)
    (terminator : IsTerminator eol) (indents : IsIndentUnit unit) :
    contents (formatBasic eol unit source) = contents source ∧
      (contents source ≠ [] →
        (endsWith (formatBasic eol unit source) eol = true ↔ endsInBreak source = true)) :=
  ⟨contents_formatBasic source terminator indents,
    endsWith_formatBasic source terminator indents⟩

/-- A template literal, a starred comment, blank runs and unmatched brackets. -/
def mixedSource : Text :=
  "f(\x60a\n  b\x60\n\n\n/*\n* c\n d */\n\x7d\x7d\r\n".toList

theorem formatBasic_keeps_contents_mixed :
    IsTerminator ['\r'] ∧ IsIndentUnit ['\t', ' '] ∧
      contents (formatBasic ['\r'] ['\t', ' '] mixedSource) = contents mixedSource ∧
      contents mixedSource ≠ [] ∧
      (endsWith (formatBasic ['\r'] ['\t', ' '] mixedSource) ['\r'] = true ↔
        endsInBreak mixedSource = true) := by
  have terminator : IsTerminator ['\r'] := .inr (.inr rfl)
  have indents : IsIndentUnit ['\t', ' '] := by simp [IsIndentUnit]
  have kept := formatBasic_keeps_contents mixedSource terminator indents
  have nonblank : contents mixedSource ≠ [] := by decide
  exact ⟨terminator, indents, kept.1, nonblank, kept.2 nonblank⟩

end UiFormat.Safety

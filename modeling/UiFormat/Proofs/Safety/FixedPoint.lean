/-
# UiFormat.Proofs.Safety.FixedPoint -- the basic rules change nothing twice

What the basic rules write, they leave as it is (`formatBasic_formatBasic`), if no line
of the source begins with a blank other than a space or a tab.  Such a blank counts as
code in front of a closing bracket as long as it stands there, and it is gone after the
first run.
-/
import UiFormat.Proofs.Layout.Settled
import UiFormat.Proofs.Safety.BasicRules

namespace UiFormat.Safety

open UiFormat.Text
open UiFormat.Layout

set_option autoImplicit false

/-- No line begins with a blank other than a space or a tab. -/
def PlainLeads (source : Text) : Prop :=
  ∀ line ∈ lines source, PlainLead line

instance (source : Text) : Decidable (PlainLeads source) :=
  decidable_of_iff (((lines source).all fun line =>
    (line.takeWhile isBlank).all fun c => c == ' ' || c == '\t') = true) (by
      simp [PlainLeads, PlainLead])

section

variable {eol unit : Text} (source : Text) (terminator : IsTerminator eol)
  (indents : IsIndentUnit unit)

include terminator indents

/-- The lines of the result are those that were written. -/
theorem lines_formatBasic :
    lines (formatBasic eol unit source) = reindentLines 0 unit false source ∨
      lines (formatBasic eol unit source) = reindentLines 0 unit false source ++ [[]] := by
  have plain := breakFree_reindentLines indents.breakFree 0 false source
  rw [formatBasic]
  split
  · rename_i none
    rw [none]
    exact .inr rfl
  · rename_i first rest some
    rw [some] at plain ⊢
    split
    · exact .inr (lines_join_terminated terminator _ (by simp) plain)
    · rw [List.append_nil]
      exact .inl (lines_join terminator _ (by simp) plain)

/-- The result ends in a line break where the source does. -/
theorem endsInBreak_formatBasic (some : reindentLines 0 unit false source ≠ []) :
    endsInBreak (formatBasic eol unit source) = endsInBreak source := by
  have plain := breakFree_reindentLines indents.breakFree 0 false source
  have filled := reindentLines_getLast_ne_nil 0 unit false source
  rw [formatBasic]
  split
  · rename_i none
    exact absurd none some
  · rename_i first rest rows
    rw [rows] at plain filled
    split
    · rename_i breaks
      obtain ⟨c, last, isBreakChar⟩ := terminator_getLast terminator
      rw [breaks, endsInBreak, List.getLast?_append, last]
      exact isBreakChar
    · rename_i noBreak
      obtain ⟨front, last, split⟩ := (List.eq_nil_or_concat (first :: rest)).resolve_left (by simp)
      rw [List.concat_eq_append] at split
      have lastFilled : last ≠ [] := by
        rintro rfl
        exact filled (by rw [split, List.getLast?_concat])
      rw [List.append_nil, split, endsInBreak, getLast?_join eol front last lastFilled,
        List.getLast?_eq_some_getLast lastFilled]
      have visible := plain last (by rw [split]; simp) _ (List.getLast_mem lastFilled)
      simp only [visible]
      simpa using noBreak

/-- **The basic rules settle a source.**  What they write, they write again as it is. -/
theorem formatBasic_formatBasic (plain : PlainLeads source) :
    formatBasic eol unit (formatBasic eol unit source) = formatBasic eol unit source := by
  obtain ⟨settled, first⟩ := settled_reindentLines indents 0 false plain
  have again : reindentLines 0 unit false (formatBasic eol unit source) =
      reindentLines 0 unit false source :=
    settled.reindentLines_eq first (reindentLines_getLast_ne_nil 0 unit false source)
      ((lines_formatBasic source terminator indents).imp_right (⟨rfl, ·⟩))
  cases rows : reindentLines 0 unit false source with
  | nil =>
      have empty : ∀ text : Text, reindentLines 0 unit false text = [] → formatBasic eol unit text = [] := by
        intro text none
        rw [formatBasic, none]
      rw [empty _ (again.trans rows), empty _ rows]
  | cons line rest =>
      have ends := endsInBreak_formatBasic source terminator indents (by simp [rows])
      rw [formatBasic, again, rows, ends, formatBasic, rows]

end

end UiFormat.Safety

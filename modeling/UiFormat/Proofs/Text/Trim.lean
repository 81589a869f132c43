/-
# UiFormat.Proofs.Text.Trim -- what trimming forgets

Trimming forgets blanks at the two ends and nothing else: blanks written in
front of a text or after it do not change what is left, and the trimmed text
starts and ends with a character that is not blank.

`dropEndWhile` is the library's `List.rdropWhile`, so its laws come from there.
-/
import UiFormat.Proofs.Text.Blanks
import Mathlib.Data.List.DropRight

namespace UiFormat

set_option autoImplicit false

theorem dropEndWhile_eq_rdropWhile {α : Type} (p : α → Bool) (items : List α) :
    dropEndWhile p items = items.rdropWhile p := by
  induction items with
  | nil => rfl
  | cons a items ih =>
      have concat : (a :: items).rdropWhile p =
          if items.rdropWhile p = [] then (if p a then [] else [a])
          else a :: items.rdropWhile p := by
        simp only [List.rdropWhile, List.reverse_cons, List.dropWhile_append]
        by_cases allDropped : items.reverse.dropWhile p = []
        · by_cases pa : p a <;> simp [allDropped, pa]
        · simp [allDropped]
      rw [concat, dropEndWhile, ih]
      cases items.rdropWhile p with
      | nil => rfl
      | cons b kept => rfl

theorem dropEndWhile_append_of_all {α : Type} (p : α → Bool) (items tail : List α)
    (all : ∀ a ∈ tail, p a = true) : dropEndWhile p (items ++ tail) = dropEndWhile p items := by
  have reversed : ∀ a ∈ tail.reverse, p a = true := fun a member =>
    all a (List.mem_reverse.1 member)
  rw [dropEndWhile_eq_rdropWhile, dropEndWhile_eq_rdropWhile, List.rdropWhile,
    List.rdropWhile, List.reverse_append, List.dropWhile_append_of_pos reversed]

theorem dropEndWhile_begins {α : Type} (p : α → Bool) (items : List α) :
    dropEndWhile p items <+: items := by
  rw [dropEndWhile_eq_rdropWhile]
  exact List.rdropWhile_prefix p items

theorem dropEndWhile_getLast {α : Type} (p : α → Bool) (items : List α) (a : α)
    (last : (dropEndWhile p items).getLast? = some a) : p a = false := by
  rw [dropEndWhile_eq_rdropWhile] at last
  have nonempty : items.rdropWhile p ≠ [] := by
    intro empty
    simp [empty] at last
  have stays := List.rdropWhile_last_not p items nonempty
  rw [List.getLast?_eq_some_getLast nonempty, Option.some.injEq] at last
  simpa [last] using stays

/-- What is dropped at the end satisfies the test. -/
theorem exists_dropEndWhile_append {α : Type} (p : α → Bool) (items : List α) :
    ∃ tail, items = dropEndWhile p items ++ tail ∧ ∀ a ∈ tail, p a = true := by
  refine ⟨items.rtakeWhile p, ?_, fun a member => List.mem_rtakeWhile_imp member⟩
  rw [dropEndWhile_eq_rdropWhile, List.rdropWhile_append_rtakeWhile]

theorem dropEndWhile_eq_self {α : Type} {p : α → Bool} {items : List α}
    (stays : ∀ a ∈ items.getLast?, p a = false) : dropEndWhile p items = items := by
  obtain ⟨tail, split, all⟩ := exists_dropEndWhile_append p items
  cases dropped : tail.getLast? with
  | none =>
      rw [List.getLast?_eq_none_iff.1 dropped, List.append_nil] at split
      exact split.symm
  | some a =>
      have last : items.getLast? = some a := by
        rw [split, List.getLast?_append, dropped]
        rfl
      have kept := stays a last
      rw [all a (List.mem_of_getLast? dropped)] at kept
      cases kept

namespace Text

theorem trimStart_blank_append (blanks text : Text) (blank : ∀ c ∈ blanks, isBlank c = true) :
    trimStart (blanks ++ text) = trimStart text :=
  List.dropWhile_append_of_pos blank

theorem trimEnd_append_blank (text blanks : Text) (blank : ∀ c ∈ blanks, isBlank c = true) :
    trimEnd (text ++ blanks) = trimEnd text :=
  dropEndWhile_append_of_all isBlank text blanks blank

theorem trimStart_of_head? {text : Text} {c : Char} (first : text.head? = some c)
    (visible : isBlank c = false) : trimStart text = text := by
  cases text with
  | nil => cases first
  | cons d text =>
      cases first
      rw [trimStart, List.dropWhile_cons_of_neg (by simp [visible])]

theorem trimEnd_of_getLast? {text : Text} {c : Char} (last : text.getLast? = some c)
    (visible : isBlank c = false) : trimEnd text = text := by
  refine dropEndWhile_eq_self fun d isLast => ?_
  rw [last] at isLast
  cases isLast
  exact visible

theorem trimStart_append {lead text : Text} (visible : ∀ c ∈ text.head?, isBlank c = false) :
    trimStart (lead ++ text) = trimStart lead ++ text := by
  induction lead with
  | nil =>
      cases text with
      | nil => rfl
      | cons c text => exact trimStart_of_head? rfl (visible c rfl)
  | cons c lead ih =>
      cases blank : isBlank c with
      | true =>
          rw [List.cons_append, trimStart, List.dropWhile_cons_of_pos blank, trimStart,
            List.dropWhile_cons_of_pos blank]
          exact ih
      | false =>
          rw [List.cons_append, trimStart_of_head? rfl blank, trimStart_of_head? rfl blank]
          rfl

/-- Blanks at the end of what comes last can go first. -/
theorem trimEnd_append_trimEnd (text tail : Text) :
    trimEnd (text ++ trimEnd tail) = trimEnd (text ++ tail) := by
  obtain ⟨blanks, split, blank⟩ := exists_dropEndWhile_append isBlank tail
  calc trimEnd (text ++ trimEnd tail) = trimEnd (text ++ trimEnd tail ++ blanks) :=
        (trimEnd_append_blank _ _ blank).symm
    _ = trimEnd (text ++ tail) := by rw [List.append_assoc, trimEnd, trimEnd, trimEnd, ← split]

theorem trimEnd_append {text tail : Text} (visible : ∃ c ∈ text.getLast?, isBlank c = false) :
    trimEnd (text ++ tail) = text ++ trimEnd tail := by
  obtain ⟨c, last, visible⟩ := visible
  rw [← trimEnd_append_trimEnd]
  cases ends : (trimEnd tail).getLast? with
  | none =>
      rw [List.getLast?_eq_none_iff.1 ends, List.append_nil]
      exact trimEnd_of_getLast? last visible
  | some d =>
      have whole : (text ++ trimEnd tail).getLast? = some d := by
        rw [List.getLast?_append, ends]
        rfl
      exact trimEnd_of_getLast? whole (dropEndWhile_getLast isBlank tail d ends)

/-- Blanks at the front of what comes first can go first. -/
theorem trimStart_trimStart_append (text tail : Text) :
    trimStart (trimStart text ++ tail) = trimStart (text ++ tail) := by
  have split : text.takeWhile isBlank ++ trimStart text = text := List.takeWhile_append_dropWhile
  have dropped := trimStart_blank_append (text.takeWhile isBlank) (trimStart text ++ tail) fun c =>
    List.mem_takeWhile_imp
  rwa [← List.append_assoc, split, eq_comm] at dropped

/-- Blanks in front do not matter to `trim`. -/
@[simp] theorem trim_blank_append {blanks : Text} (text : Text)
    (blank : ∀ c ∈ blanks, isBlank c = true) : trim (blanks ++ text) = trim text := by
  rw [trim, trimStart_blank_append _ _ blank, trim]

theorem trim_eq_nil_iff (text : Text) : trim text = [] ↔ ∀ c ∈ text, isBlank c = true := by
  rw [trim, trimEnd, dropEndWhile_eq_rdropWhile, List.rdropWhile_eq_nil_iff, trimStart]
  constructor
  · intro dropped
    have allBlank : text.dropWhile isBlank = [] := by
      rcases empty : text.dropWhile isBlank with _ | ⟨c, rest⟩
      · rfl
      · have first : (text.dropWhile isBlank).head? = some c := by rw [empty]; rfl
        have notBlank := List.head?_dropWhile_not isBlank text
        rw [first] at notBlank
        exact absurd (dropped c (by simp [empty])) (by simpa using notBlank)
    exact List.dropWhile_eq_nil_iff.1 allBlank
  · intro blank c member
    exact blank c ((List.dropWhile_sublist isBlank).mem member)

/-- Blanks at the end do not matter to `trim`. -/
@[simp] theorem trim_append_blank (text : Text) {blanks : Text}
    (blank : ∀ c ∈ blanks, isBlank c = true) : trim (text ++ blanks) = trim text := by
  by_cases allBlank : ∀ c ∈ text, isBlank c = true
  · have both : ∀ c ∈ text ++ blanks, isBlank c = true := fun c member =>
      (List.mem_append.1 member).elim (allBlank c) (blank c)
    rw [(trim_eq_nil_iff _).2 both, (trim_eq_nil_iff _).2 allBlank]
  · have kept : (text.dropWhile isBlank).isEmpty = false := by
      simpa [List.isEmpty_eq_false_iff, List.dropWhile_eq_nil_iff] using allBlank
    rw [trim, trim, trimStart, trimStart, List.dropWhile_append]
    simp only [kept, Bool.false_eq_true, if_false]
    exact trimEnd_append_blank _ _ blank

@[simp] theorem trim_trimEnd (text : Text) : trim (trimEnd text) = trim text := by
  obtain ⟨tail, split, blank⟩ := exists_dropEndWhile_append isBlank text
  calc trim (trimEnd text) = trim (trimEnd text ++ tail) := (trim_append_blank _ blank).symm
    _ = trim text := by rw [trimEnd, ← split]

theorem trimEnd_trimEnd (text : Text) : trimEnd (trimEnd text) = trimEnd text := by
  simp only [trimEnd, dropEndWhile_eq_rdropWhile, List.rdropWhile_idempotent isBlank text]

theorem trim_trimStart (text : Text) : trim (trimStart text) = trim text := by
  rw [trim, trim, trimStart, trimStart, List.dropWhile_idempotent]

@[simp] theorem trim_trim (text : Text) : trim (trim text) = trim text := by
  calc trim (trim text) = trim (trimStart text) := trim_trimEnd (trimStart text)
    _ = trim text := trim_trimStart text

/-- A text is its trimmed part between blanks. -/
theorem exists_trim_append (text : Text) :
    ∃ left right, text = left ++ (trim text ++ right) ∧ (∀ c ∈ left, isBlank c = true) ∧
      ∀ c ∈ right, isBlank c = true := by
  obtain ⟨right, split, blank⟩ := exists_dropEndWhile_append isBlank (trimStart text)
  refine ⟨text.takeWhile isBlank, right, ?_, fun c => List.mem_takeWhile_imp, blank⟩
  rw [trim, trimEnd, ← split, trimStart, List.takeWhile_append_dropWhile]

/-- A trimmed text that is not empty ends what it ends visibly. -/
theorem trimEnd_append_trim (front : Text) {text : Text} (filled : trim text ≠ []) :
    trimEnd (front ++ trim text) = front ++ trim text := by
  obtain ⟨c, last⟩ : ∃ c, (trim text).getLast? = some c :=
    ⟨_, List.getLast?_eq_some_getLast filled⟩
  refine trimEnd_of_getLast? (c := c) ?_ (dropEndWhile_getLast isBlank (trimStart text) c last)
  rw [List.getLast?_append, last]
  rfl

theorem mem_of_mem_trim {text : Text} {c : Char} (member : c ∈ trim text) : c ∈ text :=
  (List.dropWhile_sublist isBlank).mem ((dropEndWhile_begins isBlank _).sublist.mem member)

theorem mem_of_mem_trimEnd {text : Text} {c : Char} (member : c ∈ trimEnd text) : c ∈ text :=
  (dropEndWhile_begins isBlank _).sublist.mem member

end Text
end UiFormat

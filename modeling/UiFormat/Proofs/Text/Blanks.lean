/-
# UiFormat.Proofs.Text.Blanks -- runs of blanks

Blanks that the formatters write themselves are spaces, tabs and line breaks
(`Blanks`): indentation, line ends and the space around an operator.  All of them
are blanks in the wider sense that trimming and collapsing go by.
-/
import UiFormat.Options
import UiFormat.Text.Blank
import UiFormat.Text.Word

namespace UiFormat.Text

set_option autoImplicit false

/-- What was tested of all items holds of each. -/
theorem forall_mem_of_all {α : Type} {P : α → Prop} [DecidablePred P] {items : List α}
    (all : (items.all fun a => decide (P a)) = true) : ∀ a ∈ items, P a :=
  fun a member => of_decide_eq_true (List.all_eq_true.1 all a member)

/-- The characters of a text that is written as two literals.  A literal shows its characters,
as in `String.toList_ofList`; it takes much longer to decode it. -/
theorem toList_append_ofList {a b : List Char} :
    (String.ofList a ++ String.ofList b).toList = a ++ b := by
  rw [String.toList_append, String.toList_ofList, String.toList_ofList]

theorem isPlainBlank_iff {c : Char} :
    isPlainBlank c = true ↔ c = ' ' ∨ c = '\t' ∨ c = '\r' ∨ c = '\n' := by
  simp only [isPlainBlank, Bool.or_eq_true, beq_iff_eq, or_assoc]

theorem isBlank_of_isPlainBlank {c : Char} (blank : isPlainBlank c = true) : isBlank c = true := by
  rcases isPlainBlank_iff.1 blank with rfl | rfl | rfl | rfl <;> decide

theorem ne_of_isBlank {c d : Char} (blank : isBlank c = true) (visible : isBlank d = false) :
    c ≠ d := by
  rintro rfl
  rw [visible] at blank
  cases blank

/-- The text is made of spaces, tabs and line breaks. -/
def Blanks (text : Text) : Prop :=
  ∀ c ∈ text, isPlainBlank c = true

instance (text : Text) : Decidable (Blanks text) :=
  decidable_of_iff (text.all isPlainBlank = true) List.all_eq_true

theorem Blanks.append {a b : Text} (first : Blanks a) (second : Blanks b) : Blanks (a ++ b) :=
  List.forall_mem_append.2 ⟨first, second⟩

theorem Blanks.isBlank {text : Text} (blanks : Blanks text) : ∀ c ∈ text, isBlank c = true :=
  fun c member => isBlank_of_isPlainBlank (blanks c member)

theorem Blanks.getLast?_ne {text : Text} (blanks : Blanks text) {c : Char}
    (visible : isPlainBlank c = false) : text.getLast? ≠ some c := by
  intro last
  rw [blanks c (List.mem_of_getLast? last)] at visible
  cases visible

theorem mem_of_mem_times {unit : Text} {level : Int} {c : Char} (member : c ∈ times unit level) :
    c ∈ unit := by
  obtain ⟨copy, isCopy, inCopy⟩ := List.mem_flatten.1 member
  rwa [List.eq_of_mem_replicate isCopy] at inCopy

/-- Indentation is blank whatever the options say. -/
theorem blanks_indent (o : Options) (level : Int) : Blanks (o.indent level) := by
  intro c member
  have inUnit : c ∈ o.indentUnit := mem_of_mem_times member
  unfold Options.indentUnit at inUnit
  split at inUnit
  · rw [List.mem_singleton.1 (mem_of_mem_times inUnit)]
    decide
  · rw [List.mem_singleton.1 inUnit]
    decide

/-! ## Blanks and words -/

/-- The code points of the blank characters. -/
def blankCodes : List Nat :=
  blankRanges.flatMap fun (low, high) => List.range' low (high + 1 - low)

theorem mem_blankCodes {c : Char} (blank : isBlank c = true) : c.toNat ∈ blankCodes := by
  obtain ⟨⟨low, high⟩, member, inside⟩ := List.any_eq_true.1 blank
  simp only [Bool.and_eq_true, decide_eq_true_eq] at inside
  refine List.mem_flatMap.2 ⟨(low, high), member, List.mem_range'_1.2 ⟨inside.1, ?_⟩⟩
  have ordered : ∀ range ∈ blankRanges, range.1 ≤ range.2 := by decide
  have here := ordered (low, high) member
  simp only at here ⊢
  omega

/-- A blank belongs to no word. -/
theorem isWord_of_isBlank {c : Char} (blank : isBlank c = true) : isWord c = false := by
  have table : ∀ code ∈ blankCodes, isWord (Char.ofNat code) = false := by decide +kernel
  have here := table c.toNat (mem_blankCodes blank)
  rwa [Char.ofNat_toNat] at here

/-! ## Text without its blanks -/

/-- The text without its spaces, tabs and line breaks. -/
def ink (text : Text) : Text :=
  text.filter fun c => !isPlainBlank c

@[simp] theorem ink_nil : ink [] = [] := rfl

@[simp] theorem ink_append (a b : Text) : ink (a ++ b) = ink a ++ ink b :=
  List.filter_append a b

theorem Blanks.ink_eq {text : Text} (blanks : Blanks text) : ink text = [] := by
  refine List.filter_eq_nil_iff.2 fun c member => ?_
  rw [blanks c member]
  decide

/-- A separator that a filter drops is dropped wherever it stands. -/
theorem filter_join {p : Char → Bool} {separator : Text} (dropped : separator.filter p = [])
    (parts : List Text) : (join separator parts).filter p = parts.flatten.filter p := by
  match parts with
  | [] => rfl
  | [part] => simp [join]
  | part :: next :: parts =>
      have later := filter_join dropped (next :: parts)
      rw [join, List.filter_append, List.filter_append, dropped, later]
      simp

/-- A separator of plain blanks shows nothing. -/
theorem ink_join {separator : Text} (blanks : Blanks separator) (parts : List Text) :
    ink (join separator parts) = ink parts.flatten :=
  filter_join blanks.ink_eq parts

theorem ink_space (text : Text) : ink (' ' :: text) = ink text := rfl

theorem ink_brace (text : Text) : ink ('{' :: text) = '{' :: ink text := rfl

end UiFormat.Text

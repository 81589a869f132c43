/-
# UiFormat.Proofs.Text.Squash -- text up to its blanks

`squash` trims a text and writes every run of blanks inside it as one space.
Neither blanks around a text nor collapsing or trimming it first change what it
is squashed to: the printer may do all of these.

`bare` leaves out every blank, so it does not tell apart where a text has some.
-/
import UiFormat.Proofs.Text.Trim

namespace UiFormat.Text

set_option autoImplicit false

/-- The text without blanks at its ends and with single spaces inside. -/
def squash (text : Text) : Text :=
  trim (collapseBlanks text)

/-! ## Collapsing -/

theorem squeeze_blank {c : Char} (blank : isBlank c = true) (afterBlank : Bool) (text : Text) :
    squeeze afterBlank (c :: text) =
      if afterBlank then squeeze true text else ' ' :: squeeze true text := by
  rw [squeeze, if_pos blank]

theorem squeeze_visible {c : Char} (visible : isBlank c = false) (afterBlank : Bool) (text : Text) :
    squeeze afterBlank (c :: text) = c :: squeeze false text := by
  rw [squeeze, if_neg (by simp [visible])]

theorem isBlank_space : isBlank ' ' = true := by decide

/-- Collapsing leaves at most one space in front. -/
theorem trimStart_squeeze (afterBlank : Bool) (text : Text) :
    trimStart (squeeze afterBlank text) = squeeze false (trimStart text) := by
  induction text generalizing afterBlank with
  | nil => rfl
  | cons c text ih =>
      cases blank : isBlank c with
      | true =>
          have dropped : trimStart (c :: text) = trimStart text := by
            rw [trimStart, List.dropWhile_cons_of_pos blank, trimStart]
          rw [squeeze_blank blank, dropped, ← ih true]
          cases afterBlank with
          | true => rfl
          | false =>
              show trimStart (' ' :: squeeze true text) = _
              rw [trimStart, List.dropWhile_cons_of_pos isBlank_space, trimStart]
      | false =>
          have kept : trimStart (c :: text) = c :: text := by
            rw [trimStart, List.dropWhile_cons_of_neg (by simp [blank])]
          rw [squeeze_visible blank, kept, squeeze_visible blank, trimStart,
            List.dropWhile_cons_of_neg (by simp [blank])]

/-- Blanks behind a text leave at most one space. -/
theorem exists_squeeze_append_blank (afterBlank : Bool) (text : Text) {blanks : Text}
    (blank : ∀ c ∈ blanks, isBlank c = true) :
    ∃ tail, squeeze afterBlank (text ++ blanks) = squeeze afterBlank text ++ tail ∧
      ∀ c ∈ tail, isBlank c = true := by
  have after : ∀ {blanks : Text}, (∀ c ∈ blanks, isBlank c = true) → squeeze true blanks = [] := by
    intro blanks blank
    induction blanks with
    | nil => rfl
    | cons c blanks ih =>
        rw [squeeze_blank (blank c List.mem_cons_self), if_pos rfl]
        exact ih fun d member => blank d (List.mem_cons_of_mem _ member)
  induction text generalizing afterBlank with
  | nil =>
      cases blanks with
      | nil => exact ⟨[], rfl, by simp⟩
      | cons c blanks =>
          have rest := after fun d member => blank d (List.mem_cons_of_mem c member)
          refine ⟨squeeze afterBlank (c :: blanks), rfl, ?_⟩
          rw [squeeze_blank (blank c List.mem_cons_self), rest]
          cases afterBlank with
          | true => simp
          | false => simp [isBlank_space]
  | cons c text ih =>
      cases isBlankChar : isBlank c with
      | true =>
          obtain ⟨tail, split, allBlank⟩ := ih true
          refine ⟨tail, ?_, allBlank⟩
          rw [List.cons_append, squeeze_blank isBlankChar, squeeze_blank isBlankChar, split]
          cases afterBlank <;> rfl
      | false =>
          obtain ⟨tail, split, allBlank⟩ := ih false
          refine ⟨tail, ?_, allBlank⟩
          rw [List.cons_append, squeeze_visible isBlankChar, squeeze_visible isBlankChar, split]
          rfl

theorem squeeze_squeeze (afterBlank : Bool) (text : Text) :
    squeeze afterBlank (squeeze afterBlank text) = squeeze afterBlank text := by
  induction text generalizing afterBlank with
  | nil => rfl
  | cons c text ih =>
      cases blank : isBlank c with
      | true =>
          cases afterBlank with
          | true =>
              rw [squeeze_blank blank, if_pos rfl]
              exact ih true
          | false =>
              rw [squeeze_blank blank, if_neg (by simp), squeeze_blank isBlank_space,
                if_neg (by simp), ih true]
      | false =>
          rw [squeeze_visible blank, squeeze_visible blank, ih false]

theorem collapseBlanks_collapseBlanks (text : Text) :
    collapseBlanks (collapseBlanks text) = collapseBlanks text :=
  squeeze_squeeze false text

theorem squeeze_false_eq_nil {text : Text} (empty : squeeze false text = []) : text = [] := by
  cases text with
  | nil => rfl
  | cons c text =>
      cases blank : isBlank c with
      | true =>
          rw [squeeze_blank blank] at empty
          cases empty
      | false =>
          rw [squeeze_visible blank] at empty
          cases empty

/-- What collapsing leaves at the end, unless it is a space, was there before. -/
theorem getLast?_squeeze {afterBlank : Bool} {text : Text} {c : Char}
    (last : (squeeze afterBlank text).getLast? = some c) (visible : isBlank c = false) :
    text.getLast? = some c := by
  have extend : ∀ {d : Char} {text : Text}, text.getLast? = some c →
      (d :: text).getLast? = some c := by
    intro d text last
    rw [List.getLast?_cons, last]
    rfl
  induction text generalizing afterBlank with
  | nil => cases last
  | cons d text ih =>
      cases blank : isBlank d with
      | true =>
          rw [squeeze_blank blank] at last
          cases afterBlank with
          | true => exact extend (ih last)
          | false =>
              rw [if_neg (by simp), List.getLast?_cons] at last
              cases later : (squeeze true text).getLast? with
              | none =>
                  rw [later] at last
                  cases last
                  cases visible.symm.trans isBlank_space
              | some e =>
                  rw [later] at last
                  cases last
                  exact extend (ih later)
      | false =>
          rw [squeeze_visible blank, List.getLast?_cons] at last
          cases later : (squeeze false text).getLast? with
          | none =>
              have empty := squeeze_false_eq_nil (List.getLast?_eq_none_iff.1 later)
              rw [later] at last
              cases last
              rw [empty]
              rfl
          | some e =>
              rw [later] at last
              cases last
              exact extend (ih later)

theorem head?_squeeze {text : Text} {c : Char} (first : (squeeze false text).head? = some c)
    (visible : isBlank c = false) : text.head? = some c := by
  cases text with
  | nil => cases first
  | cons d text =>
      cases blank : isBlank d with
      | true =>
          rw [squeeze_blank blank] at first
          cases first
          cases visible.symm.trans isBlank_space
      | false =>
          rw [squeeze_visible blank] at first
          exact first

/-- Trimming a text before it is collapsed changes nothing but its end. -/
theorem trimEnd_collapseBlanks_trimEnd (text : Text) :
    trimEnd (collapseBlanks (trimEnd text)) = trimEnd (collapseBlanks text) := by
  obtain ⟨blanks, split, blank⟩ := exists_dropEndWhile_append isBlank text
  obtain ⟨tail, squeezed, allBlank⟩ := exists_squeeze_append_blank false (trimEnd text) blank
  have whole : collapseBlanks text = collapseBlanks (trimEnd text) ++ tail := by
    rw [collapseBlanks, collapseBlanks, ← squeezed, trimEnd, ← split]
  rw [whole, trimEnd_append_blank _ _ allBlank]

/-- Collapsing keeps what is visible. -/
theorem mem_squeeze {c : Char} {text : Text} (member : c ∈ text) (visible : isBlank c = false)
    (afterBlank : Bool) : c ∈ squeeze afterBlank text := by
  induction text generalizing afterBlank with
  | nil => cases member
  | cons d text ih =>
      rcases List.mem_cons.1 member with rfl | later
      · rw [squeeze_visible visible]
        exact List.mem_cons_self
      · cases blank : isBlank d with
        | true =>
            rw [squeeze_blank blank]
            split
            · exact ih later _
            · exact List.mem_cons_of_mem _ (ih later _)
        | false =>
            rw [squeeze_visible blank]
            exact List.mem_cons_of_mem _ (ih later _)

/-- Collapsing leaves no blanks but spaces. -/
theorem eq_space_of_mem_squeeze {c : Char} {afterBlank : Bool} {text : Text}
    (member : c ∈ squeeze afterBlank text) (blank : isBlank c = true) : c = ' ' := by
  induction text generalizing afterBlank with
  | nil => cases member
  | cons d text ih =>
      cases here : isBlank d with
      | true =>
          rw [squeeze_blank here] at member
          split at member
          · exact ih member
          · exact (List.mem_cons.1 member).elim id ih
      | false =>
          rw [squeeze_visible here] at member
          rcases List.mem_cons.1 member with rfl | later
          · rw [here] at blank
            cases blank
          · exact ih later

/-! ## Squashing -/

theorem squash_blank_append {blanks : Text} (text : Text) (blank : ∀ c ∈ blanks, isBlank c = true) :
    squash (blanks ++ text) = squash text := by
  rw [squash, squash, collapseBlanks, collapseBlanks, trim, trim, trimStart_squeeze,
    trimStart_squeeze, trimStart_blank_append _ _ blank]

theorem squash_append_blank (text : Text) {blanks : Text} (blank : ∀ c ∈ blanks, isBlank c = true) :
    squash (text ++ blanks) = squash text := by
  obtain ⟨tail, split, allBlank⟩ := exists_squeeze_append_blank false text blank
  rw [squash, squash, collapseBlanks, collapseBlanks, split, trim_append_blank _ allBlank]

theorem squash_collapseBlanks (text : Text) : squash (collapseBlanks text) = squash text := by
  rw [squash, squash, collapseBlanks_collapseBlanks]

theorem squash_trimStart (text : Text) : squash (trimStart text) = squash text := by
  have split : text.takeWhile isBlank ++ trimStart text = text := List.takeWhile_append_dropWhile
  have front := squash_blank_append (trimStart text) fun c (member : c ∈ text.takeWhile isBlank) =>
    List.mem_takeWhile_imp member
  rw [split] at front
  exact front.symm

theorem squash_trimEnd (text : Text) : squash (trimEnd text) = squash text := by
  obtain ⟨tail, split, blank⟩ := exists_dropEndWhile_append isBlank text
  have back := squash_append_blank (trimEnd text) blank
  rw [trimEnd, ← split] at back
  exact back.symm

theorem squash_squash (text : Text) : squash (squash text) = squash text := by
  calc squash (squash text)
      = squash (trimStart (collapseBlanks text)) := squash_trimEnd _
    _ = squash (collapseBlanks text) := squash_trimStart _
    _ = squash text := squash_collapseBlanks text

/-- Nothing is left of blanks. -/
theorem squash_of_blank {text : Text} (blank : ∀ c ∈ text, isBlank c = true) : squash text = [] := by
  have all := squash_blank_append [] blank
  rw [List.append_nil] at all
  exact all

/-- What is left of a text is not blank. -/
theorem not_isBlankText_squash {text : Text} (some : squash text ≠ []) :
    isBlankText (squash text) = false := by
  by_contra blank
  have blank : ∀ c ∈ squash text, isBlank c = true := by
    simpa [isBlankText] using blank
  have empty := (trim_eq_nil_iff (squash text)).2 blank
  rw [squash, trim_trim] at empty
  exact some empty

/-! ## Text without any blanks -/

/-- The text without its blanks. -/
def bare (text : Text) : Text :=
  text.filter fun c => !isBlank c

@[simp] theorem bare_append (a b : Text) : bare (a ++ b) = bare a ++ bare b :=
  List.filter_append a b

theorem bare_of_blank {text : Text} (blank : ∀ c ∈ text, isBlank c = true) : bare text = [] :=
  List.filter_eq_nil_iff.2 fun c member => by simp [blank c member]

theorem bare_of_isBlankText {text : Text} (blank : isBlankText text = true) : bare text = [] :=
  bare_of_blank (List.all_eq_true.1 blank)

@[simp] theorem bare_trim (text : Text) : bare (trim text) = bare text := by
  obtain ⟨left, right, split, leftBlank, rightBlank⟩ := exists_trim_append text
  calc bare (trim text)
      = bare (left ++ (trim text ++ right)) := by
        rw [bare_append, bare_append, bare_of_blank leftBlank, bare_of_blank rightBlank,
          List.nil_append, List.append_nil]
    _ = bare text := by rw [← split]

theorem bare_squeeze (afterBlank : Bool) (text : Text) :
    bare (squeeze afterBlank text) = bare text := by
  induction text generalizing afterBlank with
  | nil => rfl
  | cons c text ih =>
      cases blank : isBlank c with
      | true =>
          have dropped : bare (c :: text) = bare text := List.filter_cons_of_neg (by simp [blank])
          rw [squeeze_blank blank, dropped]
          cases afterBlank with
          | true => exact ih true
          | false => exact (List.filter_cons_of_neg (by decide)).trans (ih true)
      | false =>
          have kept (text : Text) : bare (c :: text) = c :: bare text :=
            List.filter_cons_of_pos (by simp [blank])
          rw [squeeze_visible blank, kept, kept, ih false]

@[simp] theorem bare_collapseBlanks (text : Text) : bare (collapseBlanks text) = bare text :=
  bare_squeeze false text

theorem bare_join {separator : Text} (blank : ∀ c ∈ separator, isBlank c = true)
    (parts : List Text) : bare (join separator parts) = bare parts.flatten :=
  filter_join (bare_of_blank blank) parts

end UiFormat.Text

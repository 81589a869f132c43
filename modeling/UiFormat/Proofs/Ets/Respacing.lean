/-
# UiFormat.Proofs.Ets.Respacing -- tokens and the blanks around line breaks

`Respaced a b` relates texts that differ only in the blanks around their line breaks, in
the number of their blank lines, and in the blanks at their end.  Whatever looks at visible
characters only finds the same ones at the front of both (`Respaced.front`,
`Respaced.takeWhile`, `Respaced.after?`), and a scan that passes over blanks leaves
respaced texts behind when each of its steps does (`Respaced.lift`).
-/
import UiFormat.Proofs.Ets.Spelling
import UiFormat.Proofs.Text.Cut

namespace UiFormat.Ets

open UiFormat.Text
open UiFormat.Parse

set_option autoImplicit false

/-! ## Spacing -/

/-- A blank inside a line or a line feed. -/
def isSpacing (c : Char) : Bool :=
  isInlineBlank c || c == '\n'

/-- Nothing but blanks inside lines and line feeds. -/
def Spacing (text : Text) : Prop :=
  ∀ c ∈ text, isSpacing c = true

/-- No visible character stands at the front. -/
def Faded (text : Text) : Prop :=
  ∀ c ∈ text.head?, isSpacing c = true

theorem isSpacing_cases {c : Char} (spacing : isSpacing c = true) :
    c = ' ' ∨ c = '\t' ∨ c = '\x0c' ∨ c = '\x0b' ∨ c = '\n' := by
  simpa only [isSpacing, isInlineBlank, Bool.or_eq_true, beq_iff_eq, or_assoc] using spacing

/-- A test that the five blanks fail is failed by all spacing. -/
theorem fails_of_isSpacing {p : Char → Bool}
    (fails : ∀ d ∈ [' ', '\t', '\x0c', '\x0b', '\n'], p d = false) {c : Char}
    (spacing : isSpacing c = true) : p c = false :=
  fails c (by simpa using isSpacing_cases spacing)

theorem isSpacing_of_isPlain {c : Char} (plain : isPlain c = true) : isSpacing c = false := by
  cases spacing : isSpacing c with
  | false => rfl
  | true =>
      rw [fails_of_isSpacing (p := isPlain) (forall_mem_of_all (by decide)) spacing] at plain
      cases plain

theorem Spacing.faded {text : Text} (spacing : Spacing text) : Faded text :=
  fun c first => spacing c (List.mem_of_mem_head? first)

theorem Spacing.append_faded {x : Text} (spacing : Spacing x) (some : x ≠ []) (rest : Text) :
    Faded (x ++ rest) := by
  obtain ⟨c, x, rfl⟩ := List.exists_cons_of_ne_nil some
  intro d first
  cases first
  exact spacing c List.mem_cons_self

theorem Spacing.tail {c : Char} {x : Text} (spacing : Spacing (c :: x)) : Spacing x :=
  (List.forall_mem_cons.1 spacing).2

theorem Faded.takeWhile_eq {text : Text} (faded : Faded text) {p : Char → Bool}
    (visible : ∀ c, isSpacing c = true → p c = false) : text.takeWhile p = [] := by
  cases text with
  | nil => rfl
  | cons c text => rw [List.takeWhile_cons_of_neg (by simp [visible c (faded c rfl)])]

theorem Faded.dropWhile_eq {text : Text} (faded : Faded text) {p : Char → Bool}
    (visible : ∀ c, isSpacing c = true → p c = false) : text.dropWhile p = text := by
  cases text with
  | nil => rfl
  | cons c text => rw [List.dropWhile_cons_of_neg (by simp [visible c (faded c rfl)])]

/-- A line ends at the first line feed of the spacing behind it. -/
theorem Spacing.dropLine {x : Text} (spacing : Spacing x) (feeds : '\n' ∈ x) :
    ∃ later, (∀ rest, (x ++ rest).dropWhile (!isBreak ·) = '\n' :: later ++ rest) ∧
      Spacing ('\n' :: later) ∧ ('\n' :: later).count '\n' = x.count '\n' := by
  induction x with
  | nil => cases feeds
  | cons c x ih =>
      by_cases feed : c = '\n'
      · subst feed
        exact ⟨x, fun rest => rfl, spacing, rfl⟩
      · have passes : isBreak c = false := by
          rcases isSpacing_cases (spacing c List.mem_cons_self) with rfl | rfl | rfl | rfl | rfl
          · rfl
          · rfl
          · rfl
          · rfl
          · exact absurd rfl feed
        obtain ⟨later, begins, spaced, count⟩ :=
          ih spacing.tail (List.mem_of_ne_of_mem (Ne.symm feed) feeds)
        refine ⟨later, fun rest => ?_, spaced, ?_⟩
        · simpa only [List.cons_append, List.dropWhile_cons, passes, Bool.not_false, if_true]
            using begins rest
        · rw [count, List.count_cons_of_ne (by exact feed)]

/-- Stretches of spacing with a line feed each, and with a blank line both or neither. -/
structure BreakAlike (x y : Text) : Prop where
  left : Spacing x
  right : Spacing y
  breaks : '\n' ∈ x ∧ '\n' ∈ y
  again : 2 ≤ x.count '\n' ↔ 2 ≤ y.count '\n'

/-- The same text up to spacing around line breaks and at the end. -/
inductive Respaced : Text → Text → Prop
  | ends {a b : Text} (left : Spacing a) (right : Spacing b) : Respaced a b
  | same {a b : Text} (c : Char) (later : Respaced a b) : Respaced (c :: a) (c :: b)
  | gap {x y a b : Text} (alike : BreakAlike x y) (later : Respaced a b) :
      Respaced (x ++ a) (y ++ b)

theorem BreakAlike.ne_nil {x y : Text} (alike : BreakAlike x y) : x ≠ [] ∧ y ≠ [] :=
  ⟨List.ne_nil_of_mem alike.breaks.1, List.ne_nil_of_mem alike.breaks.2⟩

/-! ## The front of respaced texts -/

namespace Respaced

variable {a b : Text}

theorem nil : Respaced [] [] :=
  .ends (fun _ member => by cases member) fun _ member => by cases member

theorem append_left (text : Text) (later : Respaced a b) : Respaced (text ++ a) (text ++ b) := by
  induction text with
  | nil => exact later
  | cons c text ih => exact .same c ih

/-- The texts open with the same visible character, or with none both. -/
theorem front (respaced : Respaced a b) :
    (∃ c r s, a = c :: r ∧ b = c :: s ∧ isSpacing c = false ∧ Respaced r s) ∨
      (Faded a ∧ Faded b) := by
  cases respaced with
  | ends left right => exact .inr ⟨left.faded, right.faded⟩
  | @same a b c later =>
      cases shows : isSpacing c with
      | false => exact .inl ⟨c, a, b, rfl, rfl, shows, later⟩
      | true =>
          have here : ∀ rest : Text, Faded (c :: rest) := by
            intro rest d first
            cases first
            exact shows
          exact .inr ⟨here a, here b⟩
  | gap alike later =>
      exact .inr ⟨alike.left.append_faded alike.ne_nil.1 _, alike.right.append_faded alike.ne_nil.2 _⟩

theorem tail {c : Char} {r : Text} (respaced : Respaced (c :: r) b) (shows : isSpacing c = false) :
    ∃ s, b = c :: s ∧ Respaced r s := by
  rcases respaced.front with ⟨d, u, v, same, rfl, -, later⟩ | ⟨faded, -⟩
  · cases same
    exact ⟨v, rfl, later⟩
  · rw [faded c rfl] at shows
    cases shows

theorem symm (respaced : Respaced a b) : Respaced b a := by
  induction respaced with
  | ends left right => exact .ends right left
  | same c later ih => exact .same c ih
  | gap alike later ih =>
      exact .gap ⟨alike.right, alike.left, alike.breaks.symm, alike.again.symm⟩ ih

/-- What is left when the spacing at the front is gone. -/
theorem strip (respaced : Respaced a b) :
    Respaced (a.dropWhile isSpacing) (b.dropWhile isSpacing) := by
  induction respaced with
  | ends left right =>
      rw [List.dropWhile_eq_nil_iff.2 left, List.dropWhile_eq_nil_iff.2 right]
      exact nil
  | same c later ih =>
      cases shows : isSpacing c with
      | false =>
          rw [List.dropWhile_cons_of_neg (by simp [shows]), List.dropWhile_cons_of_neg (by simp [shows])]
          exact .same c later
      | true => rwa [List.dropWhile_cons_of_pos shows, List.dropWhile_cons_of_pos shows]
  | gap alike later ih =>
      rwa [List.dropWhile_append_of_pos alike.left, List.dropWhile_append_of_pos alike.right]

/-- Behind the spacing at the front stands nothing, or the same visible character. -/
theorem stripped (respaced : Respaced a b) :
    (a.dropWhile isSpacing = [] ∧ b.dropWhile isSpacing = []) ∨
      ∃ c r s, a.dropWhile isSpacing = c :: r ∧ b.dropWhile isSpacing = c :: s ∧
        isSpacing c = false ∧ Respaced r s ∧ r.length < a.length := by
  have nothing : ∀ {text : Text}, Faded (text.dropWhile isSpacing) → text.dropWhile isSpacing = [] := by
    intro text faded
    cases left : text.dropWhile isSpacing with
    | nil => rfl
    | cons c rest =>
        have shows := List.head?_dropWhile_not isSpacing text
        rw [left] at shows faded
        simp [faded c rfl] at shows
  rcases respaced.strip.front with ⟨c, r, s, left, right, shows, later⟩ | ⟨left, right⟩
  · have shorter := (List.dropWhile_suffix isSpacing (l := a)).length_le
    rw [left, List.length_cons] at shorter
    exact .inr ⟨c, r, s, left, right, shows, later, shorter⟩
  · exact .inl ⟨nothing left, nothing right⟩

/-- What passes over spacing does not see the spacing at the front. -/
theorem dropWhile_isSpacing_passed {α : Type} {f : Text → α}
    (passes : ∀ c text, isSpacing c = true → f (c :: text) = f text) (text : Text) :
    f (text.dropWhile isSpacing) = f text := by
  induction text with
  | nil => rfl
  | cons c text ih =>
      cases shows : isSpacing c with
      | false => rw [List.dropWhile_cons_of_neg (by simp [shows])]
      | true => rw [List.dropWhile_cons_of_pos shows, ih, passes c text shows]

/-- A scan that passes over spacing keeps a relation that every visible character keeps. -/
theorem lift {ι α : Type} {R : α → α → Prop} {f : ι → Text → α}
    (passes : ∀ i c text, isSpacing c = true → f i (c :: text) = f i text)
    (ends : ∀ i, R (f i []) (f i []))
    (visible : ∀ i c r s, isSpacing c = false → Respaced r s →
      (∀ j u v, u.length ≤ r.length → Respaced u v → R (f j u) (f j v)) →
        R (f i (c :: r)) (f i (c :: s)))
    (i : ι) (respaced : Respaced a b) : R (f i a) (f i b) := by
  induction size : a.length using Nat.strong_induction_on generalizing i a b with
  | _ n ih =>
      rw [← dropWhile_isSpacing_passed (passes i) a, ← dropWhile_isSpacing_passed (passes i) b]
      rcases respaced.stripped with ⟨left, right⟩ | ⟨c, r, s, left, right, shows, later, shorter⟩
      · rw [left, right]
        exact ends i
      · rw [left, right]
        refine visible i c r s shows later fun j u v short related => ?_
        exact ih u.length (by omega) j related rfl

theorem startsWith (respaced : Respaced a b) {word : Text}
    (visible : ∀ d ∈ word, isSpacing d = false) : Text.startsWith a word = Text.startsWith b word := by
  induction word generalizing a b with
  | nil => simp [Text.startsWith]
  | cons d word ih =>
      rw [List.forall_mem_cons] at visible
      have none : ∀ {text : Text}, Faded text → Text.startsWith text (d :: word) = false := by
        intro text faded
        cases text with
        | nil => rfl
        | cons c text =>
            have other : (d == c) = false := by
              rw [beq_eq_false_iff_ne]
              rintro rfl
              rw [faded d rfl] at visible
              cases visible.1
            simp [Text.startsWith, List.isPrefixOf, other]
      rcases respaced.front with ⟨c, r, s, rfl, rfl, -, later⟩ | ⟨left, right⟩
      · have follow := ih later visible.2
        simp only [Text.startsWith, List.isPrefixOf] at follow ⊢
        rw [follow]
      · rw [none left, none right]

theorem after? (respaced : Respaced a b) {word : Text}
    (visible : ∀ d ∈ word, isSpacing d = false) :
    Option.Rel Respaced (Text.after? word a) (Text.after? word b) := by
  induction word generalizing a b with
  | nil => exact .some respaced
  | cons d word ih =>
      rw [List.forall_mem_cons] at visible
      have none : ∀ {text : Text}, Faded text → Text.after? (d :: word) text = Option.none := by
        intro text faded
        cases text with
        | nil => rfl
        | cons c text =>
            rw [Text.after?, if_neg]
            rintro rfl
            rw [faded d rfl] at visible
            cases visible.1
      rcases respaced.front with ⟨c, r, s, rfl, rfl, -, later⟩ | ⟨left, right⟩
      · rw [Text.after?, Text.after?]
        split
        · exact ih later visible.2
        · exact .none
      · rw [none left, none right]
        exact .none

/-- A run of characters of which none is a blank. -/
theorem takeWhile (respaced : Respaced a b) {p : Char → Bool}
    (visible : ∀ c, isSpacing c = true → p c = false) :
    a.takeWhile p = b.takeWhile p ∧ Respaced (a.dropWhile p) (b.dropWhile p) := by
  have faded : ∀ {x y : Text}, Faded x → Faded y → Respaced x y →
      x.takeWhile p = y.takeWhile p ∧ Respaced (x.dropWhile p) (y.dropWhile p) := by
    intro x y left right related
    rw [left.takeWhile_eq visible, right.takeWhile_eq visible, left.dropWhile_eq visible,
      right.dropWhile_eq visible]
    exact ⟨rfl, related⟩
  induction respaced with
  | ends left right => exact faded left.faded right.faded (.ends left right)
  | same c later ih =>
      cases passes : p c with
      | true =>
          simp only [List.takeWhile_cons_of_pos passes, List.dropWhile_cons_of_pos passes]
          exact ⟨by rw [ih.1], ih.2⟩
      | false =>
          have fails : ¬ p c = true := by simp [passes]
          simp only [List.takeWhile_cons_of_neg fails, List.dropWhile_cons_of_neg fails]
          exact ⟨trivial, .same c later⟩
  | gap alike later ih =>
      exact faded (alike.left.append_faded alike.ne_nil.1 _) (alike.right.append_faded alike.ne_nil.2 _)
        (.gap alike later)

theorem runLength (respaced : Respaced a b) {p : Char → Bool}
    (visible : ∀ c, isSpacing c = true → p c = false) :
    Text.runLength p a = Text.runLength p b := by
  rw [Text.runLength, Text.runLength, (respaced.takeWhile visible).1]

/-- As many characters further on, if none of those in between is a blank. -/
theorem drop (respaced : Respaced a b) {n : Nat} (left : ∀ d ∈ a.take n, isSpacing d = false)
    (right : ∀ d ∈ b.take n, isSpacing d = false) :
    a.take n = b.take n ∧ Respaced (a.drop n) (b.drop n) := by
  induction n generalizing a b with
  | zero => exact ⟨rfl, respaced⟩
  | succ n ih =>
      have none : ∀ {text : Text}, (∀ d ∈ text.take (n + 1), isSpacing d = false) → Faded text →
          text = [] := by
        intro text visible faded
        cases text with
        | nil => rfl
        | cons c text =>
            have shows := visible c List.mem_cons_self
            rw [faded c rfl] at shows
            cases shows
      rcases respaced.front with ⟨c, r, s, rfl, rfl, -, later⟩ | ⟨fadedLeft, fadedRight⟩
      · rw [List.take_succ_cons] at left right
        obtain ⟨same, behind⟩ := ih later (List.forall_mem_cons.1 left).2 (List.forall_mem_cons.1 right).2
        rw [List.take_succ_cons, List.take_succ_cons, same]
        exact ⟨rfl, behind⟩
      · rw [none left fadedLeft, none right fadedRight]
        exact ⟨rfl, nil⟩

/-- The rest of a line. -/
theorem dropLine (respaced : Respaced a b) :
    Respaced (a.dropWhile (!isBreak ·)) (b.dropWhile (!isBreak ·)) := by
  induction respaced with
  | ends left right =>
      exact .ends (fun c member => left c ((List.dropWhile_suffix _).subset member))
        fun c member => right c ((List.dropWhile_suffix _).subset member)
  | same c later ih =>
      cases breaks : isBreak c with
      | false => simpa only [List.dropWhile_cons, breaks, Bool.not_false, if_true] using ih
      | true =>
          simp only [List.dropWhile_cons, breaks, Bool.not_true, Bool.false_eq_true, if_false]
          exact .same c later
  | gap alike later ih =>
      obtain ⟨x, feedX, spacingX, countX⟩ := alike.left.dropLine alike.breaks.1
      obtain ⟨y, feedY, spacingY, countY⟩ := alike.right.dropLine alike.breaks.2
      rw [feedX, feedY]
      exact .gap ⟨spacingX, spacingY, ⟨List.mem_cons_self, List.mem_cons_self⟩,
        by rw [countX, countY]; exact alike.again⟩ later

end Respaced

end UiFormat.Ets

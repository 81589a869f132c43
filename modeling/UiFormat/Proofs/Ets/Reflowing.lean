/-
# UiFormat.Proofs.Ets.Reflowing -- respaced texts with stretches that stay as they are

`Reflowed fixed escaped a b` says more than that `a` and `b` are respaced.  The blanks around
a protected line feed are the same in both, so that a stretch of which every line feed is
protected stands in both as it is (`Reflowed.begins`).  And where other blanks stand behind a
backslash, both texts go on with the line feed that the backslash hides from the end of a
regular expression, so that one ends alike in both (`Reflowed.behindRegexp?`).

The relation is not bound to the characters that a scanner passes over: as many visible
characters further on the texts are reflowed again, up to the spacing there
(`Reflowed.drop`).  Texts in which a backslash stands before blanks only where it stands
before the line feed itself are steady; respaced steady texts are reflowed
(`reflowed_of_steady`).
-/
import UiFormat.Proofs.Ets.RespacedTokens

namespace UiFormat.Ets

open UiFormat.Text
open UiFormat.Parse

set_option autoImplicit false

/-! ## Visible characters -/

/-- How many visible characters a text holds. -/
def visibleCount (text : Text) : Nat :=
  text.countP (!isSpacing ·)

theorem Spacing.visibleCount_eq {x : Text} (spacing : Spacing x) : visibleCount x = 0 := by
  rw [visibleCount, List.countP_eq_zero]
  exact fun c member => by simp [spacing c member]

theorem visibleCount_append (x rest : Text) :
    visibleCount (x ++ rest) = visibleCount x + visibleCount rest :=
  List.countP_append

theorem Spacing.take {x : Text} (spacing : Spacing x) (m : Nat) : Spacing (x.take m) :=
  fun c member => spacing c (List.mem_of_mem_take member)

theorem Spacing.drop {x : Text} (spacing : Spacing x) (m : Nat) : Spacing (x.drop m) :=
  fun c member => spacing c (List.mem_of_mem_drop member)

/-- Spacing at the front does not count. -/
theorem Spacing.visibleCount_take {x : Text} (spacing : Spacing x) (rest : Text) (m : Nat) :
    visibleCount ((x ++ rest).take m) = visibleCount (rest.take (m - x.length)) := by
  rw [List.take_append, visibleCount_append, (spacing.take m).visibleCount_eq, Nat.zero_add]

theorem Spacing.dropWhile_drop {x : Text} (spacing : Spacing x) (rest : Text) (m : Nat) :
    ((x ++ rest).drop m).dropWhile isSpacing = (rest.drop (m - x.length)).dropWhile isSpacing := by
  rw [List.drop_append, List.dropWhile_append_of_pos (spacing.drop m)]

theorem Respaced.visibleCount {a b : Text} (respaced : Respaced a b) :
    visibleCount a = visibleCount b := by
  induction respaced with
  | ends left right => rw [left.visibleCount_eq, right.visibleCount_eq]
  | same c later ih =>
      rw [Ets.visibleCount, List.countP_cons, Ets.visibleCount, List.countP_cons]
      exact congrArg (· + _) ih
  | gap alike later ih =>
      rw [visibleCount_append, visibleCount_append, alike.left.visibleCount_eq,
        alike.right.visibleCount_eq, ih]

/-! ## Protected line feeds -/

/-- No line feed of a stretch in front of `tail` is protected: `fixed` tells which are, given
the text behind the line feed. -/
def Free (fixed : Text → Prop) (tail : Text) : Text → Prop
  | [] => True
  | c :: x => (c = '\n' → ¬ fixed (x ++ tail)) ∧ Free fixed tail x

theorem free_append {fixed : Text → Prop} {tail x y : Text} :
    Free fixed tail (x ++ y) ↔ Free fixed (y ++ tail) x ∧ Free fixed tail y := by
  induction x with
  | nil => simp [Free]
  | cons c x ih => rw [List.cons_append, Free, ih, Free, List.append_assoc, and_assoc]

theorem free_of_not_mem {fixed : Text → Prop} {tail x : Text} (none : '\n' ∉ x) :
    Free fixed tail x := by
  induction x with
  | nil => trivial
  | cons c x ih =>
      rw [List.mem_cons, not_or] at none
      exact ⟨fun feed => absurd feed.symm none.1, ih none.2⟩

/-- Whether a backslash stands last. -/
def escapedAfter (escaped : Bool) : Text → Bool
  | [] => escaped
  | c :: text => escapedAfter (c == '\\') text

theorem getLast?_of_escapedAfter {escaped : Bool} {text : Text}
    (escapes : escapedAfter escaped text = true) :
    (text = [] ∧ escaped = true) ∨ text.getLast? = some '\\' := by
  induction text generalizing escaped with
  | nil => exact .inl ⟨rfl, escapes⟩
  | cons c text ih =>
      refine .inr ?_
      rcases ih escapes with ⟨rfl, isLast⟩ | last
      · exact congrArg some (eq_of_beq isLast)
      · rw [List.getLast?_cons, last]
        rfl

/-- Respaced texts in which the blanks around protected line feeds are the same.  Behind a
backslash, which `escaped` tells of, other blanks begin with their line feed in both texts. -/
inductive Reflowed (fixed : Text → Prop) : Bool → Text → Text → Prop
  | ends {escaped : Bool} {a b : Text} (left : Spacing a) (right : Spacing b) :
      Reflowed fixed escaped a b
  | same {escaped : Bool} {a b : Text} (c : Char) (later : Reflowed fixed (c == '\\') a b) :
      Reflowed fixed escaped (c :: a) (c :: b)
  | gap {escaped : Bool} {x y a b : Text} (alike : BreakAlike x y)
      (free : Free fixed a x)
      (feeds : escaped = true → x.head? = some '\n' ∧ y.head? = some '\n')
      (later : Reflowed fixed false a b) : Reflowed fixed escaped (x ++ a) (y ++ b)

namespace Reflowed

variable {fixed : Text → Prop} {escaped : Bool} {a b : Text}

theorem respaced (reflowed : Reflowed fixed escaped a b) : Respaced a b := by
  induction reflowed with
  | ends left right => exact .ends left right
  | same c _ ih => exact .same c ih
  | gap alike _ _ _ ih => exact .gap alike ih

theorem append_left (text : Text) (later : Reflowed fixed (escapedAfter escaped text) a b) :
    Reflowed fixed escaped (text ++ a) (text ++ b) := by
  induction text generalizing escaped with
  | nil => exact later
  | cons c text ih => exact .same c (ih later)

/-- What is left when the spacing at the front is gone. -/
theorem strip (reflowed : Reflowed fixed escaped a b) (other : Bool) :
    Reflowed fixed other (a.dropWhile isSpacing) (b.dropWhile isSpacing) := by
  induction reflowed with
  | ends left right =>
      rw [List.dropWhile_eq_nil_iff.2 left, List.dropWhile_eq_nil_iff.2 right]
      exact .ends (fun c member => by cases member) fun c member => by cases member
  | same c later ih =>
      cases shows : isSpacing c with
      | false =>
          rw [List.dropWhile_cons_of_neg (by simp [shows]),
            List.dropWhile_cons_of_neg (by simp [shows])]
          exact .same c later
      | true => rwa [List.dropWhile_cons_of_pos shows, List.dropWhile_cons_of_pos shows]
  | gap alike _ _ _ ih =>
      rwa [List.dropWhile_append_of_pos alike.left, List.dropWhile_append_of_pos alike.right]

/-- Behind a visible character that opens one of the texts and so both. -/
theorem tail {c : Char} {r : Text} (reflowed : Reflowed fixed escaped (c :: r) b)
    (shows : isSpacing c = false) : ∃ s, b = c :: s ∧ Reflowed fixed (c == '\\') r s := by
  obtain ⟨whole, isWhole⟩ : ∃ whole, whole = c :: r := ⟨_, rfl⟩
  rw [← isWhole] at reflowed
  have opens : ∀ {x rest : Text}, x ++ rest = c :: r → x ≠ [] → Spacing x → False := by
    intro x rest same some spacing
    have blank := spacing.append_faded some rest
    rw [same] at blank
    rw [blank c rfl] at shows
    cases shows
  cases reflowed with
  | ends left right =>
      have alone : whole ++ [] = c :: r := by rw [List.append_nil, isWhole]
      exact (opens alone (by simp [isWhole]) left).elim
  | @same _ a b d later =>
      obtain ⟨rfl, rfl⟩ := List.cons.inj isWhole
      exact ⟨b, rfl, later⟩
  | gap alike _ _ _ => exact (opens isWhole alike.ne_nil.1 alike.left).elim

/-- Behind the spacing at the front stands nothing, or the same visible character. -/
theorem stripped (reflowed : Reflowed fixed escaped a b) :
    (a.dropWhile isSpacing = [] ∧ b.dropWhile isSpacing = []) ∨
      ∃ c r s, a.dropWhile isSpacing = c :: r ∧ b.dropWhile isSpacing = c :: s ∧
        isSpacing c = false ∧ Reflowed fixed (c == '\\') r s ∧ r.length < a.length := by
  refine reflowed.respaced.stripped.imp_right ?_
  rintro ⟨c, r, s, left, right, shows, -, shorter⟩
  have inner := reflowed.strip false
  rw [left, right] at inner
  obtain ⟨t, same, later⟩ := inner.tail shows
  cases same
  exact ⟨c, r, s, left, right, shows, later, shorter⟩

/-- As many visible characters further on, up to spacing. -/
theorem drop (reflowed : Reflowed fixed escaped a b) {m n : Nat}
    (passed : visibleCount (a.take m) = visibleCount (b.take n)) :
    Reflowed fixed false ((a.drop m).dropWhile isSpacing) ((b.drop n).dropWhile isSpacing) := by
  induction reflowed generalizing m n with
  | ends left right =>
      rw [List.dropWhile_eq_nil_iff.2 (left.drop m), List.dropWhile_eq_nil_iff.2 (right.drop n)]
      exact .ends (fun c member => by cases member) fun c member => by cases member
  | @same escaped a b c later ih =>
      cases shows : isSpacing c with
      | true =>
          have spacing : Spacing [c] := by simpa [Spacing] using shows
          have left := spacing.visibleCount_take a m
          have right := spacing.visibleCount_take b n
          rw [List.singleton_append] at left right
          rw [left, right] at passed
          exact spacing.dropWhile_drop a m ▸ spacing.dropWhile_drop b n ▸ ih passed
      | false =>
          cases m with
          | zero =>
              cases n with
              | zero => exact (@Reflowed.same fixed false a b c later).strip false
              | succ n => simp [visibleCount, shows] at passed
          | succ m =>
              cases n with
              | zero => simp [visibleCount, shows] at passed
              | succ n =>
                  refine ih ?_
                  simpa [visibleCount, shows] using passed
  | gap alike _ _ _ ih =>
      rw [alike.left.visibleCount_take, alike.right.visibleCount_take] at passed
      rw [alike.left.dropWhile_drop, alike.right.dropWhile_drop]
      exact ih passed

/-- A stretch whose line feeds are all protected stands in the other text as it is. -/
theorem begins {u : Text} (reflowed : Reflowed fixed escaped (u ++ a) b)
    (last : ∃ c ∈ u.getLast?, isSpacing c = false)
    (kept : ∀ v w, u = v ++ '\n' :: w → fixed (w ++ a)) : u <+: b := by
  obtain ⟨e, isLast, visible⟩ := last
  have notSpacing : ∀ {u : Text}, e ∈ u.getLast? → ¬ Spacing u := by
    intro u isLast spacing
    rw [spacing e (List.mem_of_getLast? isLast)] at visible
    cases visible
  induction u generalizing escaped b with
  | nil => cases isLast
  | cons c u ih =>
      obtain ⟨whole, isWhole⟩ : ∃ whole, whole = c :: (u ++ a) := ⟨_, rfl⟩
      rw [List.cons_append, ← isWhole] at reflowed
      cases reflowed with
      | ends left right =>
          refine absurd (fun d member => left d ?_) (notSpacing isLast)
          rw [isWhole, ← List.cons_append]
          exact List.mem_append_left a member
      | @same _ r s d later =>
          obtain ⟨rfl, rfl⟩ := List.cons.inj isWhole
          refine (List.prefix_cons_inj d).2 ?_
          cases u with
          | nil => exact List.nil_prefix
          | cons f u =>
              rw [List.getLast?_cons_cons] at isLast
              exact ih later (fun v w split => kept (d :: v) w (by rw [split]; rfl)) isLast
      | @gap _ x y r s alike free feeds later =>
          obtain ⟨v, w, rfl⟩ := List.append_of_mem alike.breaks.1
          rw [List.append_assoc, ← List.cons_append, List.append_eq_append_iff] at isWhole
          have spacingV : Spacing v := (List.forall_mem_append.1 alike.left).1
          rcases isWhole with ⟨front, same, behind⟩ | ⟨front, same, behind⟩
          · cases front with
            | nil =>
                rw [List.append_nil] at same
                exact absurd (same ▸ spacingV) (notSpacing isLast)
            | cons d front =>
                rw [List.cons_append, List.cons_append] at behind
                obtain ⟨rfl, rest⟩ := List.cons.inj behind
                exact absurd (rest ▸ kept v front same) ((free_append.1 free).2.1 rfl)
          · refine absurd (fun d member => spacingV d ?_) (notSpacing isLast)
            rw [same]
            exact List.mem_append_left front member

/-- A regular expression ends alike in both texts, or in neither. -/
theorem behindRegexp? (inClass : Bool) (reflowed : Reflowed fixed escaped a b) :
    Option.Rel Respaced (behindRegexp? inClass a) (behindRegexp? inClass b) := by
  induction size : a.length using Nat.strong_induction_on generalizing inClass escaped a b with
  | _ n ih =>
      cases reflowed with
      | ends left right =>
          rw [behindRegexp?_of_spacing left, behindRegexp?_of_spacing right]
          exact .none
      | gap alike _ _ later =>
          rw [behindRegexp?_spacing alike.left, behindRegexp?_spacing alike.right,
            if_pos alike.breaks.1, if_pos alike.breaks.2]
          exact .none
      | @same _ r s c later =>
          rw [List.length_cons] at size
          by_cases escapes : c = '\\'
          · subst escapes
            rw [behindRegexp?_escape, behindRegexp?_escape]
            cases later with
            | ends left right =>
                rw [behindRegexp?_of_spacing (left.drop 1), behindRegexp?_of_spacing (right.drop 1)]
                exact .none
            | @same _ u v d further =>
                rw [List.length_cons] at size
                exact ih u.length (by omega) inClass further rfl
            | @gap _ x y u v alike _ feeds further =>
                -- The backslash takes the line feed with it; a second one ends the line.
                obtain ⟨firstX, firstY⟩ := feeds rfl
                obtain ⟨x, rfl⟩ := List.head?_eq_some_iff.1 firstX
                obtain ⟨y, rfl⟩ := List.head?_eq_some_iff.1 firstY
                have again : '\n' ∈ x ↔ '\n' ∈ y := by
                  have counts := alike.again
                  rw [List.count_cons_self, List.count_cons_self, Nat.succ_le_succ_iff,
                    Nat.succ_le_succ_iff, List.one_le_count_iff, List.one_le_count_iff] at counts
                  exact counts
                rw [List.cons_append, List.cons_append, List.drop_one, List.drop_one, List.tail_cons,
                  List.tail_cons, behindRegexp?_spacing alike.left.tail,
                  behindRegexp?_spacing alike.right.tail]
                simp only [again]
                split
                · exact .none
                · rw [List.length_append, List.length_cons] at size
                  exact ih u.length (by omega) inClass further rfl
          · rw [behindRegexp?_cons escapes, behindRegexp?_cons escapes]
            split
            · exact .none
            · split
              · exact .some later.respaced
              · exact ih r.length (by omega) _ later rfl

end Reflowed

/-! ## Steady texts -/

/-- Where spacing behind a backslash holds a line feed, it begins with one. -/
def Steady (text : Text) : Prop :=
  ∀ rest, '\\' :: rest <:+ text → '\n' ∈ rest.takeWhile isSpacing → rest.head? = some '\n'

theorem Steady.suffix {text rest : Text} (steady : Steady text) (suffix : rest <:+ text) :
    Steady rest :=
  fun later found => steady later (found.trans suffix)

/-- The spacing behind a backslash, from its line feed on. -/
theorem Steady.feed {x rest : Text} (steady : Steady ('\\' :: (x ++ rest))) (spacing : Spacing x)
    (feeds : '\n' ∈ x) : ∃ later, x = '\n' :: later := by
  have within : '\n' ∈ (x ++ rest).takeWhile isSpacing := by
    rw [List.takeWhile_append_of_pos spacing]
    exact List.mem_append_left _ feeds
  have first := steady _ (List.suffix_refl _) within
  cases x with
  | nil => cases feeds
  | cons c later =>
      cases first
      exact ⟨later, rfl⟩

theorem free_of_false {tail : Text} (x : Text) : Free (fun _ => False) tail x := by
  induction x with
  | nil => trivial
  | cons c x ih => exact ⟨fun _ => not_false, ih⟩

/-- Respaced steady texts, of which nothing is protected. -/
theorem reflowed_of_steady {a b : Text} (respaced : Respaced a b) {escaped : Bool}
    (left : Steady (if escaped then '\\' :: a else a))
    (right : Steady (if escaped then '\\' :: b else b)) :
    Reflowed (fun _ => False) escaped a b := by
  have inner : ∀ {escaped : Bool} {text : Text},
      Steady (if escaped then '\\' :: text else text) → Steady text := by
    intro escaped text steady
    cases escaped with
    | true => exact steady.suffix (List.suffix_cons _ text)
    | false => exact steady
  induction respaced generalizing escaped with
  | ends spacingA spacingB => exact .ends spacingA spacingB
  | @same a b c later ih =>
      refine .same c (ih ?_ ?_)
      · split
        · rename_i escapes
          rw [← eq_of_beq escapes]
          exact inner left
        · exact (inner left).suffix (List.suffix_cons c a)
      · split
        · rename_i escapes
          rw [← eq_of_beq escapes]
          exact inner right
        · exact (inner right).suffix (List.suffix_cons c b)
  | @gap x y a b alike later ih =>
      refine .gap alike (free_of_false x) ?_ (ih ?_ ?_)
      · rintro rfl
        obtain ⟨x, rfl⟩ := Steady.feed left alike.left alike.breaks.1
        obtain ⟨y, rfl⟩ := Steady.feed right alike.right alike.breaks.2
        exact ⟨rfl, rfl⟩
      · exact (inner left).suffix (List.suffix_append x a)
      · exact (inner right).suffix (List.suffix_append y b)

end UiFormat.Ets

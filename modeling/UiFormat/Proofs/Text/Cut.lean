/-
# UiFormat.Proofs.Text.Cut -- where a mark is found

`cut?` finds the first occurrence of a mark and puts nothing aside: what stands
before it, the mark and what stands after it are the whole text.  Only the
characters up to the end of the mark matter, so the same occurrence is found in
front of any other text (`cut?_append`).
-/
import UiFormat.Text.Basic

namespace UiFormat.Text

set_option autoImplicit false

theorem after?_eq_some_iff {opening text rest : Text} :
    after? opening text = some rest ↔ text = opening ++ rest := by
  fun_induction after? opening text with
  | case1 text => simp
  | case2 o opening => simp
  | case3 opening c text ih => simp [ih]
  | case4 o opening c text other =>
      simp only [List.cons_append, List.cons.injEq, reduceCtorEq, false_iff, not_and]
      intro same
      exact absurd same.symm other

/-- A text that is long enough settles whether the opening stands there. -/
theorem after?_append_eq_none {opening text : Text} (long : opening.length ≤ text.length)
    (none : after? opening text = none) (w : Text) : after? opening (text ++ w) = Option.none := by
  fun_induction after? opening text with
  | case1 text => cases none
  | case2 o opening => exact absurd long (by simp)
  | case3 opening c text ih =>
      rw [List.cons_append, after?, if_pos rfl]
      exact ih (Nat.le_of_succ_le_succ long) none
  | case4 o opening c text other => rw [List.cons_append, after?, if_neg other]

theorem cut?_eq_some {mark text before rest : Text} (found : cut? mark text = some (before, rest)) :
    text = before ++ (mark ++ rest) := by
  induction text generalizing before with
  | nil =>
      rw [cut?] at found
      split at found
      · rename_i empty
        cases found
        rw [List.isEmpty_iff.1 empty]
        rfl
      · cases found
  | cons c text ih =>
      rw [cut?] at found
      split at found
      · rename_i after here
        cases found
        rw [List.nil_append]
        exact after?_eq_some_iff.1 here
      · obtain ⟨⟨later, after⟩, there, same⟩ := Option.map_eq_some_iff.1 found
        cases same
        rw [ih there]
        rfl

/-- In front of its first occurrence a mark does not occur. -/
theorem cut?_before {mark text before rest : Text} (marked : mark ≠ [])
    (found : cut? mark text = some (before, rest)) : cut? mark before = none := by
  induction text generalizing before with
  | nil => simp [cut?, marked] at found
  | cons c text ih =>
      rw [cut?] at found
      split at found
      · cases found
        simp [cut?, marked]
      · rename_i absent
        obtain ⟨⟨front, after⟩, there, same⟩ := Option.map_eq_some_iff.1 found
        cases same
        have here : after? mark (c :: front) = none := by
          cases stands : after? mark (c :: front) with
          | none => rfl
          | some r =>
              have whole : c :: text = mark ++ (r ++ (mark ++ rest)) := by
                rw [cut?_eq_some there, ← List.append_assoc mark, ← after?_eq_some_iff.1 stands,
                  List.cons_append]
              rw [after?_eq_some_iff.2 whole] at absent
              cases absent
        rw [cut?, here, ih there]
        rfl

theorem cut?_front (mark rest : Text) : cut? mark (mark ++ rest) = some ([], rest) := by
  have here : after? mark (mark ++ rest) = some rest := after?_eq_some_iff.2 rfl
  cases split : mark ++ rest with
  | nil =>
      obtain ⟨rfl, rfl⟩ := List.append_eq_nil_iff.1 split
      rfl
  | cons c text =>
      rw [split] at here
      rw [cut?, here]

/-- The first occurrence of a mark is the first in front of any other text. -/
theorem cut?_append {mark before rest : Text}
    (found : cut? mark (before ++ (mark ++ rest)) = some (before, rest)) (w : Text) :
    cut? mark (before ++ (mark ++ w)) = some (before, w) := by
  induction before with
  | nil => exact cut?_front mark w
  | cons c before ih =>
      rw [List.cons_append, cut?] at found
      rw [List.cons_append, cut?]
      split at found
      · cases found
      · rename_i absent
        obtain ⟨⟨later, after⟩, there, same⟩ := Option.map_eq_some_iff.1 found
        cases same
        have long : mark.length ≤ ((c :: before) ++ mark).length := by
          rw [List.length_append]
          exact Nat.le_add_left _ _
        have near : after? mark ((c :: before) ++ mark) = none := by
          cases here : after? mark ((c :: before) ++ mark) with
          | none => rfl
          | some r =>
              have whole : c :: (before ++ (mark ++ rest)) = mark ++ (r ++ rest) := by
                rw [← List.append_assoc mark, ← after?_eq_some_iff.1 here]
                simp
              rw [after?_eq_some_iff.2 whole] at absent
              cases absent
        have still := after?_append_eq_none long near w
        rw [List.append_assoc, List.cons_append] at still
        rw [still, ih there]
        rfl

theorem withoutEnds_cons_concat (a b : Char) (text : Text) :
    withoutEnds (a :: (text ++ [b])) = text := by
  rw [withoutEnds, List.drop_one, List.tail_cons, List.dropLast_concat]

end UiFormat.Text

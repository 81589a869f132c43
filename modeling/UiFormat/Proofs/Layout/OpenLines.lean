/-
# UiFormat.Proofs.Layout.OpenLines -- the lines that have brackets open

A frame belongs to a line, so the frames in front of line `n` are counted by the lines that
have brackets open there (`Groups.card_eq`).  One line closes some of the innermost ones and
may add itself (`openLines_succ`).  So a frame that stays keeps its place, counted from the
outermost on (`frameCount_kept`); and behind a line that closes a frame there are fewer frames
than up to that one before (`card_lt_frameCount`), unless this is the only one lost and the
line has one of its own instead (`frameCount_le_of_closes`).
-/
import UiFormat.Proofs.Layout.OpenBrackets
import Mathlib.Data.Finset.Card

namespace UiFormat.Layout

open UiFormat.Text

set_option autoImplicit false

/-- The lines that have brackets open in front of line `n`.  Each of them has one frame. -/
def openLines (scans : List LineScan) (n : Nat) : Finset Nat :=
  (openBefore scans n).toFinset

/-- Line `n` closes the last open bracket of line `j`. -/
def Closes (scans : List LineScan) (n j : Nat) : Prop :=
  j ∈ openLines scans n ∧ j ∉ openLines scans (n + 1)

instance (scans : List LineScan) (n j : Nat) : Decidable (Closes scans n j) :=
  inferInstanceAs (Decidable (_ ∧ _))

/-- How many frames there are up to that of line `j`, from the outermost on. -/
def frameCount (opened : Finset Nat) (j : Nat) : Nat :=
  (opened.filter (· ≤ j)).card

theorem Groups.card_eq {level : Nat → Int} {frames : List Frame} {stack : List Nat}
    (groups : Groups level frames stack) : stack.toFinset.card = frames.length := by
  induction groups with
  | nil => rfl
  | @frame frames stack count line some apart outer ih =>
      have same : (List.replicate count line ++ stack).toFinset = insert line stack.toFinset := by
        rw [List.toFinset_append, List.toFinset_replicate_of_ne_zero (Nat.ne_of_gt some)]
        rfl
      rw [same, Finset.card_insert_of_notMem (by simpa using apart), ih, List.length_cons]

section

variable {scans : List LineScan} {n j k : Nat}

theorem lt_of_mem_openLines (member : j ∈ openLines scans n) : j < n :=
  lt_of_mem_openBefore (List.mem_toFinset.1 member)

theorem openLines_beyond (beyond : scans[n]? = none) :
    openLines scans (n + 1) = openLines scans n := by
  rw [openLines, openBefore, beyond, openLines]

theorem lt_of_closes (closes : Closes scans n j) : n < scans.length := by
  by_contra beyond
  have same := openLines_beyond (List.getElem?_eq_none_iff.2 (Nat.le_of_not_lt beyond))
  exact closes.2 (same ▸ closes.1)

/-- Inner brackets are those of later lines. -/
theorem sorted_openBefore (scans : List LineScan) (n : Nat) :
    (openBefore scans n).Pairwise (· ≥ ·) := by
  induction n with
  | zero => exact .nil
  | succ n ih =>
      rw [openBefore]
      split
      · rename_i scan found
        obtain ⟨own, kept, split, ours, outer⟩ := openAfter_split n (openBefore scans n) scan.events
        rw [split]
        refine List.pairwise_append.2 ⟨?_, ih.sublist outer.sublist, ?_⟩
        · exact List.pairwise_of_forall_mem_list fun a first b second =>
            Nat.le_of_eq ((ours b second).trans (ours a first).symm)
        · intro a first b second
          rw [ours a first]
          exact Nat.le_of_lt (lt_of_mem_openBefore (outer.subset second))
      · exact ih

/-- A line closes inner brackets and opens some of its own. -/
theorem openLines_succ (scans : List LineScan) (n : Nat) :
    (∀ j ∈ openLines scans (n + 1), j ≠ n → j ∈ openLines scans n) ∧
      ∀ j ∈ openLines scans (n + 1), j ≠ n → ∀ k ∈ openLines scans n, k < j →
        k ∈ openLines scans (n + 1) := by
  simp only [openLines, List.mem_toFinset]
  have sorted := sorted_openBefore scans n
  rw [openBefore]
  split
  · rename_i scan found
    obtain ⟨own, kept, split, ours, closed, whole⟩ :=
      openAfter_split n (openBefore scans n) scan.events
    rw [split]
    have old : ∀ j ∈ own ++ kept, j ≠ n → j ∈ kept := fun j member other =>
      (List.mem_append.1 member).resolve_left fun inOwn => other (ours j inOwn)
    refine ⟨fun j member other => whole ▸ List.mem_append_right closed (old j member other), ?_⟩
    intro j member other k inner less
    rw [← whole, List.mem_append] at inner
    rcases inner with inClosed | inKept
    · rw [← whole] at sorted
      have above := (List.pairwise_append.1 sorted).2.2 k inClosed j (old j member other)
      omega
    · exact List.mem_append_right own inKept
  · exact ⟨fun j member _ => member, fun j _ _ k inner _ => inner⟩

theorem frameCount_lt {opened : Finset Nat} (member : k ∈ opened) (less : j < k) :
    frameCount opened j < frameCount opened k := by
  refine Finset.card_lt_card (Finset.ssubset_iff_of_subset ?_ |>.2 ⟨k, ?_, ?_⟩)
  · exact Finset.monotone_filter_right _ fun i _ le => Nat.le_trans le (Nat.le_of_lt less)
  · simpa using member
  · simp [less]

theorem frameCount_le_card (opened : Finset Nat) (j : Nat) : frameCount opened j ≤ opened.card :=
  Finset.card_filter_le _ _

/-- The frame of the last line is the innermost. -/
theorem frameCount_eq_card {opened : Finset Nat} (last : ∀ k ∈ opened, k ≤ j) :
    frameCount opened j = opened.card := by
  rw [frameCount, Finset.filter_true_of_mem last]

/-- A frame that stays keeps its place. -/
theorem frameCount_kept (member : j ∈ openLines scans (n + 1)) (other : j < n) :
    frameCount (openLines scans (n + 1)) j = frameCount (openLines scans n) j := by
  obtain ⟨back, down⟩ := openLines_succ scans n
  unfold frameCount
  congr 1
  ext k
  simp only [Finset.mem_filter, and_congr_left_iff]
  intro le
  constructor
  · exact fun inner => back k inner (Nat.ne_of_lt (Nat.lt_of_le_of_lt le other))
  · intro inner
    rcases Nat.lt_or_eq_of_le le with less | rfl
    · exact down j member (Nat.ne_of_lt other) k inner less
    · exact member

theorem frameCount_eq_succ {opened : Finset Nat} (member : j ∈ opened) :
    frameCount opened j = (opened.filter (· < j)).card + 1 := by
  have same : opened.filter (· ≤ j) = insert j (opened.filter (· < j)) := by
    ext k
    simp only [Finset.mem_filter, Finset.mem_insert]
    constructor
    · rintro ⟨inner, le⟩
      rcases Nat.lt_or_eq_of_le le with less | rfl
      · exact .inr ⟨inner, less⟩
      · exact .inl rfl
    · rintro (rfl | ⟨inner, less⟩)
      · exact ⟨member, Nat.le_refl _⟩
      · exact ⟨inner, Nat.le_of_lt less⟩
  rw [frameCount, same, Finset.card_insert_of_notMem (by simp)]

/-- When the frame of line `j` is closed, only frames around it and one new one are left. -/
theorem erase_subset_of_closes (closes : Closes scans n j) :
    (openLines scans (n + 1)).erase n ⊆ (openLines scans n).filter (· < j) := by
  obtain ⟨back, down⟩ := openLines_succ scans n
  intro k member
  rw [Finset.mem_erase] at member
  refine Finset.mem_filter.2 ⟨back k member.2 member.1, ?_⟩
  by_contra above
  rcases Nat.lt_or_eq_of_le (Nat.le_of_not_lt above) with less | rfl
  · exact closes.2 (down k member.2 member.1 j closes.1 less)
  · exact closes.2 member.2

/-- Then there are fewer frames than before up to that of line `j`, if the closing line opens
none or closes one more. -/
theorem card_lt_frameCount (closes : Closes scans n j)
    (fewer : n ∈ openLines scans (n + 1) → ∃ k < j, Closes scans n k) :
    (openLines scans (n + 1)).card < frameCount (openLines scans n) j := by
  have left := erase_subset_of_closes closes
  rw [frameCount_eq_succ closes.1]
  by_cases own : n ∈ openLines scans (n + 1)
  · obtain ⟨k, less, inner, gone⟩ := fewer own
    have strict : (openLines scans (n + 1)).erase n ⊂ (openLines scans n).filter (· < j) :=
      (Finset.ssubset_iff_of_subset left).2 ⟨k, by simp [inner, less], by simp [gone]⟩
    have card := Finset.card_lt_card strict
    rw [Finset.card_erase_of_mem own] at card
    omega
  · rw [Finset.erase_eq_of_notMem own] at left
    exact Nat.lt_succ_of_le (Finset.card_le_card left)

/-- Otherwise there are as many as before. -/
theorem frameCount_le_of_closes (opened : j ∈ openLines scans n) (own : n ∈ openLines scans (n + 1))
    (outer : ∀ k < j, ¬ Closes scans n k) :
    frameCount (openLines scans n) j ≤ (openLines scans (n + 1)).card := by
  have kept : insert n ((openLines scans n).filter (· < j)) ⊆ openLines scans (n + 1) := by
    refine Finset.insert_subset own fun k member => ?_
    obtain ⟨inner, less⟩ := Finset.mem_filter.1 member
    exact not_not.1 fun closed => outer k less ⟨inner, closed⟩
  have fresh : n ∉ (openLines scans n).filter (· < j) := fun member =>
    Nat.lt_irrefl n (lt_of_mem_openLines (Finset.mem_filter.1 member).1)
  have card := Finset.card_le_card kept
  rwa [Finset.card_insert_of_notMem fresh, ← frameCount_eq_succ opened] at card

end

section

variable {base : Int} {normalizeDoc : Bool} {rows : List Text}

theorem length_frames (n : Nat) :
    (stateBefore base normalizeDoc rows n).frames.length =
      (openLines (scanLines .start rows) n).card :=
  (groups_frames n).card_eq.symm

theorem isEmpty_frames (n : Nat) :
    (stateBefore base normalizeDoc rows n).frames.isEmpty =
      (openBefore (scanLines .start rows) n).isEmpty := by
  rw [Bool.eq_iff_iff, List.isEmpty_iff, List.isEmpty_iff, ← List.length_eq_zero_iff, length_frames,
    Finset.card_eq_zero, openLines, List.toFinset_eq_empty_iff]

end

end UiFormat.Layout

/-
# UiFormat.Proofs.Layout.SwitchBlocks -- the frames that switch blocks name

A switch block remembers how many frames there were when it was added, its own included,
and not which frame it was.  It names the frame of its own line as long as that line has
brackets open and the frames up to it are still so many (`Names`).

Blocks are removed only behind lines of code, when there are too few frames for them.  So a
block is left over when the last bracket of its line is closed by a line that starts in a
comment or in a template literal, or by a line that leaves a bracket of its own open in the
same place; and a block names another frame from the start when the brace at the end of its
line is part of a string.  `Orderly` says that none of this happens in a text.  It is exactly
what is needed: the blocks name the frames of their own lines in front of every line if and
only if the text is orderly.

In front of a line where they do, the line gains the level of a `case` label only directly
inside the frame of a `switch` head.

Main statement: `switchBlocks_live`.
-/
import UiFormat.Proofs.Layout.OpenLines
import Mathlib.Data.List.DropRight

namespace UiFormat.Layout

open UiFormat.Text

set_option autoImplicit false

/-! ## Switch blocks and their lines -/

/-- Line `n` adds a switch block: it is the head of a `switch`, in code that ends in a brace,
and brackets are open behind it. -/
def addsSwitch (rows : List Text) (scans : List LineScan) (n : Nat) : Bool :=
  match rows[n]?, scans[n]? with
  | some raw, some scan =>
      scan.inCode && isSwitchHead (trim raw) && endsWith scan.code ['{'] &&
        !(openBefore scans (n + 1)).isEmpty
  | _, _ => false

/-- The lines that added the switch blocks in front of line `n`, innermost first.  Blocks are
added and removed at the inner end only, so the outer ones are those that are left. -/
def headsBefore (base : Int) (normalizeDoc : Bool) (rows : List Text) : (n : Nat) → List Nat
  | 0 => []
  | n + 1 =>
      let heads := headsBefore base normalizeDoc rows n
      (if addsSwitch rows (scanLines .start rows) n then n :: heads else heads).rtake
        (stateBefore base normalizeDoc rows (n + 1)).switches.length

/-- The block of so many frames names the frame of line `j`: the line has brackets open, and
there are so many frames up to its own. -/
def Names (opened : Finset Nat) (j height : Nat) : Prop :=
  j ∈ opened ∧ height = frameCount opened j

instance (opened : Finset Nat) (j height : Nat) : Decidable (Names opened j height) :=
  inferInstanceAs (Decidable (_ ∧ _))

/-- In front of line `n` every switch block names the frame of the line that added it. -/
def BlocksLive (base : Int) (normalizeDoc : Bool) (rows : List Text) (n : Nat) : Prop :=
  List.Forall₂ (fun j block => Names (openLines (scanLines .start rows) n) j block.height)
    (headsBefore base normalizeDoc rows n) (stateBefore base normalizeDoc rows n).switches

instance (base : Int) (normalizeDoc : Bool) (rows : List Text) (n : Nat) :
    Decidable (BlocksLive base normalizeDoc rows n) :=
  inferInstanceAs (Decidable (List.Forall₂ _ _ _))

/-- Line `n`, which closes the frame of line `j`, removes the block that names it: it is a line
of code, and leaves a frame of its own only if it closes an outer one, too, and adds no switch
block. -/
def RemovesBlock (rows : List Text) (scans : List LineScan) (j n : Nat) : Prop :=
  scans[n]?.any LineScan.inCode = true ∧
    (n ∈ openLines scans (n + 1) →
      addsSwitch rows scans n = false ∧ ∃ k < j, Closes scans n k)

instance (rows : List Text) (scans : List LineScan) (j n : Nat) :
    Decidable (RemovesBlock rows scans j n) :=
  inferInstanceAs (Decidable (_ ∧ _))

/-- Every line that adds a switch block opens a frame, and the line that closes this frame
removes the block. -/
structure Orderly (rows : List Text) (scans : List LineScan) : Prop where
  opening : ∀ j, addsSwitch rows scans j = true → j ∈ openLines scans (j + 1)
  closing : ∀ j n, addsSwitch rows scans j = true → Closes scans n j →
    RemovesBlock rows scans j n

section

variable {rows : List Text} {scans : List LineScan} {j n : Nat}

theorem lt_of_addsSwitch (adds : addsSwitch rows scans n = true) : n < rows.length := by
  unfold addsSwitch at adds
  split at adds
  · rename_i here _
    exact (List.getElem?_eq_some_iff.1 here).1
  · cases adds

/-- Only finitely many lines matter. -/
theorem orderly_iff : Orderly rows scans ↔
    (∀ j < rows.length, addsSwitch rows scans j = true → j ∈ openLines scans (j + 1)) ∧
      ∀ j < rows.length, ∀ n < scans.length, addsSwitch rows scans j = true →
        Closes scans n j → RemovesBlock rows scans j n := by
  constructor
  · rintro ⟨opening, closing⟩
    exact ⟨fun j _ => opening j, fun j _ n _ => closing j n⟩
  · rintro ⟨opening, closing⟩
    refine ⟨fun j adds => opening j (lt_of_addsSwitch adds) adds, ?_⟩
    exact fun j n adds closes =>
      closing j (lt_of_addsSwitch adds) n (lt_of_closes closes) adds closes

instance : Decidable (Orderly rows scans) :=
  decidable_of_iff' _ orderly_iff

end

section

variable {base : Int} {normalizeDoc : Bool} {s : LayoutState} {raw : Text}

theorem heights_markCase (isLabel : Bool) (switches : List SwitchBlock) :
    (markCase isLabel switches).map (·.height) = switches.map (·.height) := by
  cases switches <;> rfl

/-- Behind a line that starts in a comment or a template literal, and behind a blank line, the
blocks are what they were. -/
theorem switches_place_of_quiet
    (quiet : (s.scanner.scan raw).1.inCode = false ∨ trim raw = []) :
    (place base normalizeDoc s raw).2.switches = s.switches := by
  unfold place
  dsimp only
  split
  · rfl
  · rename_i noTemplate
    split
    · rfl
    · rename_i noComment
      split
      · rfl
      · rename_i filled
        rcases quiet with inside | empty
        · simp [LineScan.inCode, noTemplate, noComment] at inside
        · simp [empty] at filled

/-- A block is added with all frames there are, and blocks with more are removed. -/
theorem heights_updateSwitches (frames : List Frame) (opens : Bool) (switches : List SwitchBlock) :
    (updateSwitches frames opens switches).map (·.height) =
      (if opens && !frames.isEmpty then frames.length :: switches.map (·.height)
        else switches.map (·.height)).dropWhile (frames.length < ·) := by
  have kept (blocks : List SwitchBlock) :
      (blocks.dropWhile fun block => frames.length < block.height).map (·.height) =
        (blocks.map (·.height)).dropWhile (frames.length < ·) := by
    rw [List.dropWhile_map]
    rfl
  unfold updateSwitches
  split <;> exact kept _

/-- Behind a line of code the heights are those of the blocks in front of it, with one for
the line if it opens a `switch`, less those that are too great. -/
theorem heights_place (code : (s.scanner.scan raw).1.inCode = true) (filled : trim raw ≠ []) :
    let next := (place base normalizeDoc s raw).2
    let opens := isSwitchHead (trim raw) && endsWith (s.scanner.scan raw).1.code ['{']
    next.switches.map (·.height) =
      (if opens && !next.frames.isEmpty then
          next.frames.length :: s.switches.map (·.height)
        else s.switches.map (·.height)).dropWhile (next.frames.length < ·) := by
  have marked (inside : Bool) : (if inside then markCase (isCaseLabel (trim raw)) s.switches
      else s.switches).map (·.height) = s.switches.map (·.height) := by
    cases inside
    · rfl
    · exact heights_markCase _ _
  rw [place_of_code code]
  dsimp only
  rw [if_neg (by simpa using filled)]
  simp only [placeCode, heights_updateSwitches]
  rw [← marked]
  rfl

end

/-! ## Steps -/

/-- Of two lists of one length, the same elements are left. -/
theorem zip_rtake_dropWhile {α β : Type} (p : β → Bool) {first : List α} {second : List β}
    (same : first.length = second.length) :
    (first.rtake (second.dropWhile p).length).zip (second.dropWhile p) =
      (first.zip second).dropWhile fun pair => p pair.2 := by
  induction second generalizing first with
  | nil => simp
  | cons b second ih =>
      cases first with
      | nil => cases same
      | cons a first =>
          have rest := Nat.succ.inj same
          cases drops : p b with
          | true =>
              have fewer : (second.dropWhile p).length ≤ first.length :=
                rest ▸ (List.dropWhile_sublist p).length_le
              have shorter : (a :: first).rtake (second.dropWhile p).length =
                  first.rtake (second.dropWhile p).length := by
                rw [List.rtake, List.length_cons, Nat.succ_sub fewer, List.drop_succ_cons, List.rtake]
              simp only [List.dropWhile_cons, drops, if_true, List.zip_cons_cons, shorter, ih rest]
          | false =>
              have whole : (a :: first).rtake (b :: second).length = a :: first := by
                rw [← same, List.rtake, Nat.sub_self, List.drop_zero]
              simp only [List.dropWhile_cons, drops, Bool.false_eq_true, if_false,
                List.zip_cons_cons, whole]

section

variable (base : Int) (normalizeDoc : Bool) (rows : List Text)

/-- The switch blocks in front of line `n`: the lines that added them, and their heights. -/
def namedBlocks (n : Nat) : List (Nat × Nat) :=
  (headsBefore base normalizeDoc rows n).zip
    ((stateBefore base normalizeDoc rows n).switches.map (·.height))

variable {base normalizeDoc rows}

/-- The test for a switch block, made with the state. -/
theorem addsSwitch_eq {n : Nat} {raw : Text} (here : rows[n]? = some raw) :
    addsSwitch rows (scanLines .start rows) n =
      let scan := ((stateBefore base normalizeDoc rows n).scanner.scan raw).1
      scan.inCode && isSwitchHead (trim raw) && endsWith scan.code ['{'] &&
        !(stateBefore base normalizeDoc rows (n + 1)).frames.isEmpty := by
  rw [isEmpty_frames]
  simp only [addsSwitch, here, scan_stateBefore base normalizeDoc here]

/-- A line of code adds a block if it is the head of a `switch`, and removes those of too many
frames.  Other lines leave the blocks as they are, and do not add any. -/
theorem switches_cases (n : Nat) :
    let scans := scanLines .start rows
    let before := (stateBefore base normalizeDoc rows n).switches.map (·.height)
    let after := (stateBefore base normalizeDoc rows (n + 1)).switches.map (·.height)
    (after = before ∧ addsSwitch rows scans n = false ∧
        (scans[n]?.any LineScan.inCode = true → openLines scans (n + 1) = openLines scans n)) ∨
      (scans[n]?.any LineScan.inCode = true ∧
        after = (if addsSwitch rows scans n then (openLines scans (n + 1)).card :: before
          else before).dropWhile ((openLines scans (n + 1)).card < ·)) := by
  intro scans before after
  cases here : rows[n]? with
  | none =>
      have beyond : scans[n]? = none := by
        rw [List.getElem?_eq_none_iff] at here ⊢
        rwa [length_scanLines]
      refine .inl ⟨?_, ?_, fun _ => openLines_beyond beyond⟩
      · simp only [after, before, stateBefore_beyond here]
      · simp only [addsSwitch, here]
  | some raw =>
      have scan : scans[n]? = _ := scan_stateBefore base normalizeDoc here
      have next : stateBefore base normalizeDoc rows (n + 1) = _ := stateBefore_succ here
      have adds : addsSwitch rows scans n = _ := @addsSwitch_eq base normalizeDoc rows n raw here
      rw [scan, Option.any_some]
      by_cases code : ((stateBefore base normalizeDoc rows n).scanner.scan raw).1.inCode = true
      · by_cases empty : trim raw = []
        · refine .inl ⟨?_, ?_, fun _ => ?_⟩
          · simp only [after, before, next, switches_place_of_quiet (.inr empty)]
          · simp [adds, empty, show isSwitchHead [] = false from rfl]
          · rw [openLines, openBefore, scan]
            simp only [(scan_of_blank empty _).1]
            rfl
        · have card : (openLines scans (n + 1)).card =
              (stateBefore base normalizeDoc rows (n + 1)).frames.length :=
            (length_frames (n + 1)).symm
          refine .inr ⟨code, ?_⟩
          simp only [after, adds, code, Bool.true_and, card, next]
          exact heights_place code empty
      · refine .inl ⟨?_, ?_, fun inside => absurd inside code⟩
        · simp only [after, before, next, switches_place_of_quiet (.inl (by simpa using code))]
        · simp [adds, code]

theorem length_headsBefore (n : Nat) :
    (headsBefore base normalizeDoc rows n).length =
      ((stateBefore base normalizeDoc rows n).switches.map (·.height)).length := by
  induction n with
  | zero => rfl
  | succ n ih =>
      rw [headsBefore, List.rtake, List.length_drop, ← List.length_map fun block : SwitchBlock => block.height]
      refine Nat.sub_sub_self ?_
      obtain ⟨after, adds, -⟩ | ⟨-, after⟩ := @switches_cases base normalizeDoc rows n
      · rw [after, adds, ← ih]
        rfl
      · rw [after]
        refine Nat.le_trans (List.dropWhile_sublist _).length_le (Nat.le_of_eq ?_)
        split
        · exact congrArg Nat.succ ih.symm
        · exact ih.symm

/-- What one line does to the blocks and the lines they stand for. -/
theorem namedBlocks_cases (n : Nat) :
    let scans := scanLines .start rows
    let blocks := namedBlocks base normalizeDoc rows n
    let card := (openLines scans (n + 1)).card
    (namedBlocks base normalizeDoc rows (n + 1) = blocks ∧ addsSwitch rows scans n = false ∧
        (scans[n]?.any LineScan.inCode = true → openLines scans (n + 1) = openLines scans n)) ∨
      (scans[n]?.any LineScan.inCode = true ∧
        namedBlocks base normalizeDoc rows (n + 1) =
          (if addsSwitch rows scans n then (n, card) :: blocks else blocks).dropWhile
            (card < ·.2)) := by
  intro scans blocks card
  have length := @length_headsBefore base normalizeDoc rows n
  rw [namedBlocks, headsBefore, ← List.length_map fun block : SwitchBlock => block.height]
  obtain ⟨after, adds, still⟩ | ⟨code, after⟩ := @switches_cases base normalizeDoc rows n
  · refine .inl ⟨?_, adds, still⟩
    rw [after, adds, if_neg Bool.false_ne_true, ← length, List.rtake, Nat.sub_self, List.drop_zero]
    rfl
  · refine .inr ⟨code, ?_⟩
    rw [after]
    split
    · exact zip_rtake_dropWhile _ (congrArg Nat.succ length)
    · exact zip_rtake_dropWhile _ length

/-- The lines of the blocks are earlier lines that added one, inner ones later. -/
theorem sorted_headsBefore (n : Nat) :
    (headsBefore base normalizeDoc rows n).Pairwise (· > ·) ∧
      ∀ j ∈ headsBefore base normalizeDoc rows n,
        j < n ∧ addsSwitch rows (scanLines .start rows) j = true := by
  induction n with
  | zero => exact ⟨.nil, by simp [headsBefore]⟩
  | succ n ih =>
      obtain ⟨sorted, old⟩ := ih
      rw [headsBefore]
      refine ⟨List.Pairwise.sublist (List.drop_sublist _ _) ?_, fun j member => ?_⟩
      · split
        · exact List.pairwise_cons.2 ⟨fun j member => (old j member).1, sorted⟩
        · exact sorted
      · have member := List.mem_of_mem_drop member
        split at member
        · rename_i adds
          rcases List.mem_cons.1 member with rfl | member
          · exact ⟨Nat.lt_succ_self j, adds⟩
          · exact ⟨Nat.lt_succ_of_lt (old j member).1, (old j member).2⟩
        · exact ⟨Nat.lt_succ_of_lt (old j member).1, (old j member).2⟩

theorem sorted_namedBlocks (n : Nat) :
    (namedBlocks base normalizeDoc rows n).Pairwise (·.1 > ·.1) := by
  have sorted := (@sorted_headsBefore base normalizeDoc rows n).1
  rwa [← List.map_fst_zip (Nat.le_of_eq (length_headsBefore n)), List.pairwise_map] at sorted

theorem of_mem_namedBlocks {n j height : Nat}
    (member : (j, height) ∈ namedBlocks base normalizeDoc rows n) :
    j < n ∧ addsSwitch rows (scanLines .start rows) j = true :=
  (sorted_headsBefore n).2 j (List.of_mem_zip member).1

theorem blocksLive_iff (n : Nat) :
    BlocksLive base normalizeDoc rows n ↔
      ∀ j height, (j, height) ∈ namedBlocks base normalizeDoc rows n →
        Names (openLines (scanLines .start rows) n) j height := by
  rw [BlocksLive, ← List.forall₂_map_right_iff, List.forall₂_iff_zip]
  exact and_iff_right (length_headsBefore n)

/-! ## Orderly texts -/

/-- Of blocks whose heights do not rise, those are left that are not too high. -/
theorem le_of_mem_dropWhile {blocks : List (Nat × Nat)} {card : Nat} {block : Nat × Nat}
    (sorted : blocks.Pairwise (·.2 ≥ ·.2)) (member : block ∈ blocks.dropWhile (card < ·.2)) :
    block.2 ≤ card := by
  induction blocks with
  | nil => cases member
  | cons inner blocks ih =>
      obtain ⟨above, sorted⟩ := List.pairwise_cons.1 sorted
      rw [List.dropWhile_cons] at member
      split at member
      · exact ih sorted member
      · rename_i low
        have low : inner.2 ≤ card := by simpa using low
        rcases List.mem_cons.1 member with rfl | member
        · exact low
        · exact Nat.le_trans (above block member) low

theorem mem_dropWhile_of_le {blocks : List (Nat × Nat)} {card : Nat} {block : Nat × Nat}
    (member : block ∈ blocks) (low : block.2 ≤ card) :
    block ∈ blocks.dropWhile (card < ·.2) := by
  rw [← List.takeWhile_append_dropWhile (p := fun block => card < block.2) (l := blocks),
    List.mem_append] at member
  refine member.resolve_left fun dropped => ?_
  have high := List.mem_takeWhile_imp dropped
  simp at high
  omega

/-- A block goes on naming a frame that stays. -/
theorem Names.kept {scans : List LineScan} {n j height : Nat}
    (named : Names (openLines scans n) j height) (stays : ¬ Closes scans n j) :
    Names (openLines scans (n + 1)) j height := by
  obtain ⟨opened, rfl⟩ := named
  have still := not_not.1 fun closed => stays ⟨opened, closed⟩
  exact ⟨still, (frameCount_kept still (lt_of_mem_openLines opened)).symm⟩

/-- Blocks that name frames are sorted by height. -/
theorem BlocksLive.sorted {n : Nat} (live : BlocksLive base normalizeDoc rows n) :
    (namedBlocks base normalizeDoc rows n).Pairwise (·.2 ≥ ·.2) := by
  rw [blocksLive_iff] at live
  refine (sorted_namedBlocks n).imp_of_mem ?_
  rintro ⟨k, high⟩ ⟨j, low⟩ first second inner
  obtain ⟨opened, rfl⟩ := live k high first
  obtain ⟨-, rfl⟩ := live j low second
  exact Nat.le_of_lt (frameCount_lt opened inner)

theorem blocksLive_of_orderly (orderly : Orderly rows (scanLines .start rows)) (n : Nat) :
    BlocksLive base normalizeDoc rows n := by
  induction n with
  | zero => exact .nil
  | succ n ih =>
      have sorted := ih.sorted
      rw [blocksLive_iff] at ih ⊢
      intro j height member
      obtain ⟨same, -, still⟩ | ⟨-, next⟩ := @namedBlocks_cases base normalizeDoc rows n
      · rw [same] at member
        refine (ih j height member).kept fun closes => ?_
        have code := (orderly.closing j n (of_mem_namedBlocks member).2 closes).1
        exact closes.2 (still code ▸ closes.1)
      · rw [next] at member
        split at member
        · rename_i adds
          have own := orderly.opening n adds
          rw [List.dropWhile_cons_of_neg (by simp)] at member
          rcases List.mem_cons.1 member with new | old
          · obtain ⟨rfl, rfl⟩ := Prod.mk.inj new
            exact ⟨own, (frameCount_eq_card fun k inner =>
              Nat.le_of_lt_succ (lt_of_mem_openLines inner)).symm⟩
          · refine (ih j height old).kept fun closes => ?_
            have none := ((orderly.closing j n (of_mem_namedBlocks old).2 closes).2 own).1
            rw [adds] at none
            cases none
        · -- The heights are sorted, so no block that is too high can stay behind a lower one.
          have low := le_of_mem_dropWhile sorted member
          have old := (List.dropWhile_sublist _).subset member
          refine (ih j height old).kept fun closes => ?_
          obtain ⟨-, rfl⟩ := ih j height old
          have high := card_lt_frameCount closes fun own =>
            ((orderly.closing j n (of_mem_namedBlocks old).2 closes).2 own).2
          exact absurd high (Nat.not_lt_of_le low)

/-- A line that adds a block does so innermost. -/
theorem namedBlocks_of_adds {n : Nat} (adds : addsSwitch rows (scanLines .start rows) n = true) :
    namedBlocks base normalizeDoc rows (n + 1) =
      (n, (openLines (scanLines .start rows) (n + 1)).card) ::
        namedBlocks base normalizeDoc rows n := by
  obtain ⟨-, none, -⟩ | ⟨-, next⟩ := @namedBlocks_cases base normalizeDoc rows n
  · rw [adds] at none
    cases none
  · rw [next, if_pos adds, List.dropWhile_cons_of_neg (by simp)]

/-- A block that is low enough stays. -/
theorem mem_namedBlocks_succ {n j height : Nat}
    (member : (j, height) ∈ namedBlocks base normalizeDoc rows n)
    (low : height ≤ (openLines (scanLines .start rows) (n + 1)).card) :
    (j, height) ∈ namedBlocks base normalizeDoc rows (n + 1) := by
  obtain ⟨same, -, -⟩ | ⟨-, next⟩ := @namedBlocks_cases base normalizeDoc rows n
  · rwa [same]
  · rw [next]
    refine mem_dropWhile_of_le ?_ low
    split
    · exact List.mem_cons_of_mem _ member
    · exact member

/-- As long as blocks name frames, the block of a line is there as long as its frame. -/
theorem mem_namedBlocks_of_live (live : ∀ n, BlocksLive base normalizeDoc rows n) {j n : Nat}
    (adds : addsSwitch rows (scanLines .start rows) j = true)
    (opened : j ∈ openLines (scanLines .start rows) n) :
    (j, frameCount (openLines (scanLines .start rows) n) j) ∈
      namedBlocks base normalizeDoc rows n := by
  have later : j < n := lt_of_mem_openLines opened
  suffices held : ∃ height, (j, height) ∈ namedBlocks base normalizeDoc rows n by
    obtain ⟨height, member⟩ := held
    rwa [← ((blocksLive_iff n).1 (live n) j height member).2]
  induction n, later using Nat.le_induction with
  | base => exact ⟨_, namedBlocks_of_adds adds ▸ List.mem_cons_self⟩
  | succ n later ih =>
      have before := (openLines_succ _ n).1 j opened (Nat.ne_of_lt later)
      obtain ⟨height, member⟩ := ih before
      refine ⟨height, mem_namedBlocks_succ member ?_⟩
      rw [((blocksLive_iff n).1 (live n) j height member).2, ← frameCount_kept opened later]
      exact frameCount_le_card _ j

theorem orderly_of_blocksLive (live : ∀ n, BlocksLive base normalizeDoc rows n) :
    Orderly rows (scanLines .start rows) where
  opening j adds := by
    have member : (j, _) ∈ namedBlocks base normalizeDoc rows (j + 1) :=
      namedBlocks_of_adds adds ▸ List.mem_cons_self
    exact ((blocksLive_iff (j + 1)).1 (live (j + 1)) j _ member).1
  closing j n adds closes := by
    have member := mem_namedBlocks_of_live live adds closes.1
    have gone (height : Nat) : (j, height) ∉ namedBlocks base normalizeDoc rows (n + 1) :=
      fun left => closes.2 ((blocksLive_iff (n + 1)).1 (live (n + 1)) j height left).1
    refine ⟨?_, fun own => ⟨?_, ?_⟩⟩
    · obtain ⟨same, -, -⟩ | ⟨code, -⟩ := @namedBlocks_cases base normalizeDoc rows n
      · exact absurd (same ▸ member) (gone _)
      · exact code
    · rw [← Bool.not_eq_true]
      intro opens
      exact gone _ (namedBlocks_of_adds opens ▸ List.mem_cons_of_mem _ member)
    · by_contra outer
      have low := frameCount_le_of_closes closes.1 own fun k less closed => outer ⟨k, less, closed⟩
      exact gone _ (mem_namedBlocks_succ member low)

/-! ## The level of a `case` label -/

/-- The block of all frames names the innermost one. -/
theorem Names.innermost {scans : List LineScan} {n j : Nat}
    (named : Names (openLines scans n) j (openLines scans n).card) :
    (openBefore scans n).head? = some j := by
  obtain ⟨opened, all⟩ := named
  have last : ∀ k ∈ openLines scans n, k ≤ j := by
    rw [frameCount, eq_comm, Finset.card_filter_eq_iff] at all
    exact all
  have sorted := sorted_openBefore scans n
  simp only [openLines, List.mem_toFinset] at opened last
  cases stack : openBefore scans n with
  | nil =>
      rw [stack] at opened
      cases opened
  | cons k outer =>
      rw [stack] at opened last sorted
      have inner : j ≤ k := by
        rcases List.mem_cons.1 opened with rfl | member
        · exact Nat.le_refl j
        · exact (List.pairwise_cons.1 sorted).1 j member
      rw [List.head?_cons, Nat.le_antisymm (last k List.mem_cons_self) inner]

/-- The innermost open bracket in front of line `n` is one of a `switch` head. -/
def insideSwitch (rows : List Text) (scans : List LineScan) (n : Nat) : Bool :=
  ((openBefore scans n).head?.bind fun j => rows[j]?).any fun head => isSwitchHead (trim head)

theorem head_of_adds {scans : List LineScan} {j : Nat} (adds : addsSwitch rows scans j = true) :
    ∃ head, rows[j]? = some head ∧ isSwitchHead (trim head) = true := by
  unfold addsSwitch at adds
  split at adds
  · rename_i head scan here _
    simp only [Bool.and_eq_true] at adds
    exact ⟨head, here, adds.1.1.2⟩
  · cases adds

/-- Where blocks name frames, only lines directly inside a `switch` are under a label. -/
theorem insideSwitch_of_underLabel {n : Nat} (live : BlocksLive base normalizeDoc rows n)
    (under : underLabel (stateBefore base normalizeDoc rows n).frames
      (stateBefore base normalizeDoc rows n).switches = true) :
    insideSwitch rows (scanLines .start rows) n = true := by
  have added := (@sorted_headsBefore base normalizeDoc rows n).2
  unfold BlocksLive at live
  generalize headsBefore base normalizeDoc rows n = heads at live added
  generalize (stateBefore base normalizeDoc rows n).switches = switches at live under
  cases live with
  | nil => cases under
  | @cons j block heads outer named _ =>
      simp only [underLabel, Bool.and_eq_true, beq_iff_eq, length_frames] at under
      rw [under.1] at named
      obtain ⟨head, here, opens⟩ := head_of_adds (added j List.mem_cons_self).2
      rw [insideSwitch, named.innermost, Option.bind_some, here, Option.any_some, opens]

end

/-- **Switch blocks name the frames of their lines** in front of every line exactly when the
text is orderly.  Where they do, a line of code that closes no frame with its first brackets
stands inside the innermost open bracket, deeper by what it gains in a call chain; and only if
this bracket is one of a `switch` head, and the line no label, can it be one level deeper. -/
theorem switchBlocks_live (base : Int) (normalizeDoc : Bool) (text : Text) :
    let rows := lines text
    let scans := scanLines .start rows
    ((∀ n, BlocksLive base normalizeDoc rows n) ↔ Orderly rows scans) ∧
      ∀ n raw scan, BlocksLive base normalizeDoc rows n → rows[n]? = some raw →
        scans[n]? = some scan → scan.inCode = true → trim raw ≠ [] →
        reachedLine (openBefore scans n) scan.leadingClosers = none →
        let before := stateBefore base normalizeDoc rows n
        let inner := (openBefore scans n).head?.elim base fun line =>
          levelAt base normalizeDoc rows line + 1
        ∃ extra : Int,
          (placeAll base normalizeDoc (.start base) rows)[n]? = some (.indented
            (inner + (extra + chainIndent (trim raw) before.previousCode before.previousChain))
            (trim raw)) ∧
          (extra = 0 ∨
            extra = 1 ∧ isCaseLabel (trim raw) = false ∧ insideSwitch rows scans n = true) := by
  intro rows scans
  refine ⟨⟨orderly_of_blocksLive, blocksLive_of_orderly⟩, ?_⟩
  intro n raw scan live here scanned code filled outside before inner
  obtain rfl := Option.some.inj (scanned.symm.trans (scan_stateBefore base normalizeDoc here))
  refine ⟨if !isCaseLabel (trim raw) && underLabel before.frames before.switches then 1 else 0,
    ?_, ?_⟩
  · rw [place_stateBefore here, place_of_code code, if_neg (by simpa using filled),
      (groups_frames n).placeCode_eq, bracketedLevel, outside, gainedLevels]
  · split
    · rename_i gains
      obtain ⟨other, under⟩ := Bool.and_eq_true_iff.1 gains
      exact .inr ⟨rfl, by simpa using other, insideSwitch_of_underLabel live under⟩
    · exact .inl rfl

/-- A `switch` under a label of another, and a block behind both. -/
def nestedSwitch : Text :=
  "switch (a) \x7b\ncase 1:\nswitch (b) \x7b\ncase 2:\nx\n\x7d\ny\n\x7d\nif (c) \x7b\nz\n\x7d".toList

theorem switchBlocks_live_nested :
    let rows := lines nestedSwitch
    let scans := scanLines .start rows
    Orderly rows scans ∧ (∀ n, BlocksLive 0 true rows n) ∧
      reindentLines 0 "  ".toList true nestedSwitch = [
        "switch (a) \x7b".toList, "  case 1:".toList, "    switch (b) \x7b".toList,
        "      case 2:".toList, "        x".toList, "    \x7d".toList, "    y".toList,
        "\x7d".toList, "if (c) \x7b".toList, "  z".toList, "\x7d".toList] ∧
      ∃ extra : Int,
        (placeAll 0 true (.start 0) rows)[4]? = some (.indented (3 + (extra + 0)) ['x']) ∧
        (extra = 0 ∨ extra = 1 ∧ isCaseLabel ['x'] = false ∧ insideSwitch rows scans 4 = true) := by
  rw [show nestedSwitch = _ from String.toList_ofList]
  intro rows scans
  obtain ⟨orderly, here, scanned, inner, chain⟩ : Orderly rows scans ∧
      rows[4]? = some ['x'] ∧ scans[4]? = some ⟨false, false, false, false, [], 0, ['x']⟩ ∧
      ((openBefore scans 4).head?.elim 0 fun line => levelAt 0 true rows line + 1) = 3 ∧
      chainIndent (trim ['x']) (stateBefore 0 true rows 4).previousCode
        (stateBefore 0 true rows 4).previousChain = 0 := by
    decide +kernel
  have live := (switchBlocks_live 0 true _).1.2 orderly
  have levels := (switchBlocks_live 0 true _).2 4 ['x'] _ (live 4) here scanned rfl (by decide) rfl
  refine ⟨orderly, live, by decide +kernel, ?_⟩
  simp only [scans, rows] at inner chain
  simp only [inner, chain] at levels
  exact levels

/-- The line that closes the `switch` opens a block of its own in its place. -/
def reopenedSwitch : Text :=
  "switch (a) \x7b\ncase 1:\n\x7d if (b) \x7b\nx\n\x7d".toList

/-- The line that closes the `switch` starts in a comment. -/
def switchClosedInComment : Text :=
  "switch (a) \x7b\ncase 1: /*\n*/ \x7d\nif (b) \x7b\nx\n\x7d".toList

/-- The brace at the end of the `switch` head is part of a string. -/
def switchEndingInString : Text :=
  "f(\nswitch (a) '\x7b\ncase 1:\nx\n)".toList

/-- Blocks that are left over, or that no frame belongs to, name the frames of other lines.
What stands in these gains the level of a label, with no bracket of a `switch` around it. -/
theorem switchBlocks_stale :
    (¬ BlocksLive 0 true (lines reopenedSwitch) 3 ∧
      insideSwitch (lines reopenedSwitch) (scanLines .start (lines reopenedSwitch)) 3 = false ∧
      reindentLines 0 "  ".toList true reopenedSwitch = [
        "switch (a) \x7b".toList, "  case 1:".toList, "\x7d if (b) \x7b".toList,
        "    x".toList, "\x7d".toList]) ∧
    (¬ BlocksLive 0 true (lines switchClosedInComment) 4 ∧
      insideSwitch (lines switchClosedInComment)
        (scanLines .start (lines switchClosedInComment)) 4 = false ∧
      reindentLines 0 "  ".toList true switchClosedInComment = [
        "switch (a) \x7b".toList, "  case 1: /*".toList, "   */ \x7d".toList,
        "if (b) \x7b".toList, "    x".toList, "\x7d".toList]) ∧
    ¬ BlocksLive 0 true (lines switchEndingInString) 3 ∧
      insideSwitch (lines switchEndingInString)
        (scanLines .start (lines switchEndingInString)) 3 = false ∧
      reindentLines 0 "  ".toList true switchEndingInString = [
        "f(".toList, "  switch (a) '\x7b".toList, "  case 1:".toList, "    x".toList,
        ")".toList] := by
  rw [show reopenedSwitch = _ from String.toList_ofList,
    show switchClosedInComment = _ from String.toList_ofList,
    show switchEndingInString = _ from String.toList_ofList]
  decide +kernel

end UiFormat.Layout

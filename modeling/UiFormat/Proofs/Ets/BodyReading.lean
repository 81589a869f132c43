/-
# UiFormat.Proofs.Ets.BodyReading -- what the readers of a body spend

A reader of a body shows what it spends, or gives up (`Spends`).  What it passes over
without showing are plain blanks; a comment makes the reading incomplete.  The rules here
put the account of a reader together from those of its parts: one reader after another
(`Spends.trans`), a reader that goes back (`Spends.back`), and a loop, which spends what
its rounds spend (`spends_of_finishes`).
-/
import UiFormat.Ets.ComponentParser
import UiFormat.Proofs.Parse.Termination
import UiFormat.Proofs.Text.Cut
import UiFormat.Proofs.Text.Trim

namespace UiFormat.Ets

open UiFormat.Text
open UiFormat.Parse

set_option autoImplicit false

/-! ## What a reader spends -/

/-- The reader moved forward from `s` to `t`, and if it has not given up by then, it spent
`shown` and plain blanks. -/
structure Spends (s : BodyState) (shown : Text) (t : BodyState) : Prop where
  rest_suffix : t.rest <:+ s.rest
  complete : t.complete = true → s.complete = true
  ink_eq : t.complete = true → ink s.rest = ink shown ++ ink t.rest

variable {α : Type} {s t u : BodyState} {shown later : Text}

theorem Spends.refl (s : BodyState) : Spends s [] s :=
  ⟨List.suffix_rfl, id, fun _ => rfl⟩

theorem Spends.trans (first : Spends s shown t) (second : Spends t later u) :
    Spends s (shown ++ later) u where
  rest_suffix := second.rest_suffix.trans first.rest_suffix
  complete understood := first.complete (second.complete understood)
  ink_eq understood := by
    rw [first.ink_eq (second.complete understood), second.ink_eq understood, ink_append,
      List.append_assoc]

/-- What is spent is known up to plain blanks. -/
theorem Spends.congr (spends : Spends s shown t) (same : ink shown = ink later) :
    Spends s later t :=
  ⟨spends.rest_suffix, spends.complete, same ▸ spends.ink_eq⟩

/-- A reader that has given up accounts for nothing. -/
theorem spends_incomplete (suffix : t.rest <:+ s.rest) (gaveUp : t.complete = false)
    (shown : Text) : Spends s shown t where
  rest_suffix := suffix
  complete understood := by rw [gaveUp] at understood; cases understood
  ink_eq understood := by rw [gaveUp] at understood; cases understood

theorem Spends.gaveUp (spends : Spends s shown t) (other : Text) : Spends s other (giveUp t).2 :=
  @spends_incomplete s (giveUp t).2 spends.rest_suffix rfl other

/-- Reading the front of the text spends it. -/
theorem spends_front {rest : Text} (front : s.rest = shown ++ rest) :
    Spends s shown (resume rest s).2 where
  rest_suffix := ⟨shown, front.symm⟩
  complete := id
  ink_eq _ := by rw [front, ink_append]; rfl

theorem spends_take (s : BodyState) (n : Nat) :
    Spends s (s.rest.take n) (resume (s.rest.drop n) s).2 :=
  spends_front (List.take_append_drop n s.rest).symm

theorem spends_length (front : ∃ rest, s.rest = shown ++ rest) :
    Spends s shown (resume (s.rest.drop shown.length) s).2 := by
  obtain ⟨rest, front⟩ := front
  have dropped : s.rest.drop shown.length = rest := by rw [front, List.drop_left]
  rw [dropped]
  exact spends_front front

/-- Going back to where a reader started forgets what it spent, but not that it gave
up. -/
theorem Spends.back (spends : Spends s shown t) : Spends s [] (resume s.rest t).2 :=
  ⟨List.suffix_rfl, spends.complete, fun _ => rfl⟩

/-- A reader that drops something first leaves less text. -/
theorem Spends.length_lt {n : Nat} (spends : Spends (resume (s.rest.drop n) s).2 shown t)
    (drops : 0 < n) (filled : s.rest ≠ []) : t.rest.length < s.rest.length := by
  have shorter : t.rest.length ≤ (s.rest.drop n).length := spends.rest_suffix.length_le
  have some : 0 < s.rest.length := List.length_pos_iff.2 filled
  rw [List.length_drop] at shorter
  omega

/-! ## Gaps and brackets -/

/-- A choice is made before it runs. -/
theorem run_ite (c : Prop) [Decidable c] (p q : BodyParser α) (s : BodyState) :
    (if c then p else q) s = if c then p s else q s := by
  split <;> rfl

theorem blanks_take_gapLength (text : Text) (bare : (gapLength text).2 = false) :
    Blanks (text.take (gapLength text).1) := by
  induction text with
  | nil => simp [gapLength, Blanks]
  | cons c rest ih =>
      rw [gapLength] at bare ⊢
      split at bare
      · rename_i blank
        rw [if_pos blank] at *
        exact List.forall_mem_cons.2 ⟨blank, ih bare⟩
      · rename_i visible
        rw [if_neg visible]
        split at bare
        · cases bare
        · rename_i noLine
          rw [if_neg noLine]
          split at bare
          · cases bare
          · rename_i noBlock
            rw [if_neg noBlock]
            simp [Blanks]

/-- What a gap holds is spent without being shown, unless it holds comments. -/
theorem spends_skipGap (s : BodyState) : Spends s [] (skipGap s).2 where
  rest_suffix := List.drop_suffix _ _
  complete understood := by
    have both : (s.complete && !(gapLength s.rest).2) = true := understood
    rw [Bool.and_eq_true] at both
    exact both.1
  ink_eq understood := by
    have both : (s.complete && !(gapLength s.rest).2) = true := understood
    rw [Bool.and_eq_true, Bool.not_eq_true'] at both
    show ink s.rest = [] ++ ink (s.rest.drop (gapLength s.rest).1)
    calc ink s.rest
        = ink (s.rest.take (gapLength s.rest).1 ++ s.rest.drop (gapLength s.rest).1) := by
          rw [List.take_append_drop]
      _ = [] ++ ink (s.rest.drop (gapLength s.rest).1) := by
          rw [ink_append, (blanks_take_gapLength s.rest both.2).ink_eq]

theorem balanced_run (opening closing : Char) (s : BodyState) :
    balanced opening closing s =
      if startsWith s.rest [opening] = true then
        (s.rest.take (balancedLength opening closing 0 s.rest),
          (resume (s.rest.drop (balancedLength opening closing 0 s.rest)) s).2)
      else ([], s) :=
  run_ite _ _ _ _

/-- What is read between brackets is shown as it stands. -/
theorem spends_balanced (opening closing : Char) (s : BodyState) :
    Spends s (balanced opening closing s).1 (balanced opening closing s).2 := by
  rw [balanced_run]
  split
  · exact spends_take s _
  · exact .refl s

/-- Arguments are read behind a gap. -/
theorem spends_arguments (s : BodyState) :
    Spends s (balanced '(' ')' (skipGap s).2).1 (balanced '(' ')' (skipGap s).2).2 :=
  (spends_skipGap s).trans (spends_balanced '(' ')' _)

/-! ## Shapes -/

theorem wordThen_front {word : String} {c : Char} {text : Text} (found : wordThen word c text = true) :
    ∃ rest, text = word.toList ++ rest := by
  unfold wordThen at found
  split at found
  · rename_i rest front
    exact ⟨rest, after?_eq_some_iff.1 front⟩
  · cases found

/-- An `else` with a further condition stands in front of blanks and `if`. -/
theorem isElseIf_front {text : Text} (found : isElseIf text = true) :
    ∃ rest, text = "else".toList ++ rest ∧ ∃ later, trimStart rest = "if".toList ++ later := by
  unfold isElseIf at found
  split at found
  · rename_i rest front
    rw [Bool.and_eq_true] at found
    exact ⟨rest, after?_eq_some_iff.1 front, wordThen_front found.2⟩
  · cases found

theorem componentName?_front {text name : Text} (found : componentName? text = some name) :
    name ≠ [] ∧ ∃ rest, text = name ++ rest := by
  unfold componentName? at found
  split at found
  · cases found
  · rename_i c rest
    split at found
    · cases found
      exact ⟨List.cons_ne_nil _ _, rest.dropWhile isComponentChar, by simp⟩
    · cases found

theorem loopName?_front {text name : Text} (found : loopName? text = some name) :
    name ≠ [] ∧ ∃ rest, text = name ++ rest := by
  unfold loopName? at found
  split at found
  · rename_i lazy
    cases found
    exact ⟨by decide, wordThen_front lazy⟩
  · split at found
    · rename_i eager
      cases found
      exact ⟨by decide, wordThen_front eager⟩
    · cases found

theorem callName?_front {text name : Text} (found : callName? text = some name) :
    ∃ rest, text = ('.' :: name) ++ rest := by
  unfold callName? at found
  split at found
  · rename_i c rest
    split at found
    · cases found
      exact ⟨rest.dropWhile isCallChar, by simp⟩
    · cases found
  · cases found

/-! ## Loops -/

/-- What a round shows of its item. -/
def shownBy (print : α → Text) : Round α → Text
  | .stop => []
  | .last item => print item
  | .skip => []
  | .next item => print item

/-- **A loop spends what its rounds spend**, in order. -/
theorem spends_of_finishes {round : BodyParser (Round α)} {print : α → Text}
    (each : ∀ s, Spends s (shownBy print (round s).1) (round s).2) {items : List α}
    (run : Finishes round s items t) : Spends s (items.flatMap print) t := by
  induction run with
  | @stop s here =>
      have round := each s
      rw [here] at round
      exact round
  | @last s item here =>
      have round := each s
      rw [here] at round
      rw [List.flatMap_singleton]
      exact round
  | @skip s t items here run ih =>
      have round := each s
      rw [here] at round
      exact round.trans ih
  | @next s t item items here run ih =>
      have round := each s
      rw [here] at round
      exact round.trans ih

/-! ## Chained calls -/

theorem callRound_run (s : BodyState) :
    callRound s = match callName? (skipGap s).2.rest with
      | none => (.stop, (resume s.rest (skipGap s).2).2)
      | some name =>
          let named := (resume ((skipGap s).2.rest.drop ('.' :: name).length) (skipGap s).2).2
          (.next { name, arguments := (balanced '(' ')' (skipGap named).2).1 },
            (balanced '(' ')' (skipGap named).2).2) := by
  show (match callName? (skipGap s).2.rest with
    | none => _
    | some name => _ : BodyParser (Round Call)) (skipGap s).2 = _
  cases callName? (skipGap s).2.rest <;> rfl

theorem spends_callRound (s : BodyState) :
    Spends s (shownBy Call.print (callRound s).1) (callRound s).2 := by
  have gap := spends_skipGap s
  rw [callRound_run]
  cases found : callName? (skipGap s).2.rest with
  | none => exact gap.back
  | some name =>
      have named := spends_length (callName?_front found)
      exact gap.trans (named.trans (spends_arguments _))

theorem shrinks_callRound :
    Shrinks (fun _ => True) (fun s : BodyState => s.rest.length) callRound := by
  intro s _ goes
  refine ⟨trivial, ?_⟩
  have gap := (spends_skipGap s).rest_suffix.length_le
  rw [callRound_run] at goes ⊢
  cases found : callName? (skipGap s).2.rest with
  | none =>
      rw [found] at goes
      cases goes
  | some name =>
      have filled : (skipGap s).2.rest ≠ [] := by
        obtain ⟨rest, front⟩ := callName?_front found
        rw [front]
        exact List.cons_ne_nil _ _
      have less := (spends_arguments _).length_lt (Nat.succ_pos name.length) filled
      exact Nat.lt_of_lt_of_le less gap

/-- Chained calls are shown one after another. -/
theorem spends_chainedCalls (s : BodyState) :
    Spends s ((chainedCalls s).1.flatMap Call.print) (chainedCalls s).2 :=
  spends_of_finishes spends_callRound (finishes_collectBy shrinks_callRound s trivial)

end UiFormat.Ets

/-
# UiFormat.Proofs.Parse.Termination -- loops that end by themselves

A parser's loop is run with a bound on its rounds, one more than there is input left.
`Finishes` and `Refines` are the two loops without that bound: rounds follow each other
until one of them ends the loop.  If every round that goes on leaves less input, a loop
ends in this sense, and with the items and the state that it has within its bound
(`finishes_collectBy`, `refines_refineBy`): the bound is never what stops it.

The rounds need to make progress only in states that the loop can be in, so a property
`holds` of states comes along that the rounds keep.
-/
import UiFormat.Proofs.Parse.Reading

namespace UiFormat.Parse

set_option autoImplicit false

variable {σ α : Type} {holds : σ → Prop} {size : σ → Nat}

/-! ## Collecting -/

/-- Rounds run from `s` until one ends the loop in `t`, with the items they gave. -/
inductive Finishes (round : StateM σ (Round α)) : σ → List α → σ → Prop
  | stop {s : σ} (here : (round s).1 = .stop) : Finishes round s [] (round s).2
  | last {s : σ} {item : α} (here : (round s).1 = .last item) :
      Finishes round s [item] (round s).2
  | skip {s t : σ} {items : List α} (here : (round s).1 = .skip)
      (later : Finishes round (round s).2 items t) : Finishes round s items t
  | next {s t : σ} {item : α} {items : List α} (here : (round s).1 = .next item)
      (later : Finishes round (round s).2 items t) : Finishes round s (item :: items) t

theorem Finishes.of_stop {round : StateM σ (Round α)} {s t : σ} (run : round s = (.stop, t)) :
    Finishes round s [] t := by
  have ends : Finishes round s [] (round s).2 := .stop (congrArg Prod.fst run)
  rwa [run] at ends

theorem Finishes.of_next {round : StateM σ (Round α)} {s t u : σ} {item : α} {items : List α}
    (run : round s = (.next item, t)) (later : Finishes round t items u) :
    Finishes round s (item :: items) u := by
  refine .next (congrArg Prod.fst run) ?_
  rwa [run]

/-- A loop ends where its last round does. -/
theorem Finishes.of_round {round : StateM σ (Round α)} {P : σ → Prop} {s t : σ} {items : List α}
    (run : Finishes round s items t)
    (ends : ∀ s, (round s).1.goesOn = false → P (round s).2) : P t := by
  induction run with
  | stop here => exact ends _ (by rw [here]; rfl)
  | last here => exact ends _ (by rw [here]; rfl)
  | skip here later ih => exact ih
  | next here later ih => exact ih

/-- What every item of a round satisfies every item of a loop does; `holds` tells of the states
that the loop can be in. -/
theorem Finishes.forall_items {round : StateM σ (Round α)} {P : α → Prop} {s t : σ} {items : List α}
    (run : Finishes round s items t) (keeps : ∀ s, holds s → holds (round s).2)
    (each : ∀ s, holds s → ∀ item, (round s).1 = .next item ∨ (round s).1 = .last item → P item)
    (start : holds s) : ∀ item ∈ items, P item := by
  induction run with
  | stop here => exact fun item member => by cases member
  | last here => exact List.forall_mem_singleton.2 (each _ start _ (.inr here))
  | skip here later ih => exact ih (keeps _ start)
  | next here later ih => exact List.forall_mem_cons.2 ⟨each _ start _ (.inl here), ih (keeps _ start)⟩

/-- A round that goes on leaves less input. -/
def Shrinks (holds : σ → Prop) (size : σ → Nat) (round : StateM σ (Round α)) : Prop :=
  ∀ s, holds s → (round s).1.goesOn = true → holds (round s).2 ∧ size (round s).2 < size s

/-- A loop with fuel left does what its next round says. -/
theorem collectWithin_succ (round : StateM σ (Round α)) (fuel : Nat) (s : σ) :
    collectWithin round (fuel + 1) s =
      match (round s).1 with
      | .stop => ([], (round s).2)
      | .last item => ([item], (round s).2)
      | .skip => collectWithin round fuel (round s).2
      | .next item =>
          (item :: (collectWithin round fuel (round s).2).1,
            (collectWithin round fuel (round s).2).2) := by
  show (match (round s).1 with
    | .stop => pure []
    | .last item => pure [item]
    | .skip => collectWithin round fuel
    | .next item => do
        let items ← collectWithin round fuel
        pure (item :: items) : StateM σ (List α)) (round s).2 = _
  cases (round s).1 <;> rfl

theorem finishes_collectWithin {round : StateM σ (Round α)} (shrinks : Shrinks holds size round)
    (fuel : Nat) (s : σ) (start : holds s) (enough : size s < fuel) :
    Finishes round s (collectWithin round fuel s).1 (collectWithin round fuel s).2 := by
  induction fuel generalizing s with
  | zero => omega
  | succ fuel ih =>
      have goes := shrinks s start
      rw [collectWithin_succ]
      cases ran : (round s).1 with
      | stop => exact .stop ran
      | last item => exact .last ran
      | skip =>
          obtain ⟨stays, less⟩ := goes (by rw [ran]; rfl)
          exact .skip ran (ih _ stays (by omega))
      | next item =>
          obtain ⟨stays, less⟩ := goes (by rw [ran]; rfl)
          exact .next ran (ih _ stays (by omega))

/-- **A collecting loop ends by itself**, if each of its rounds leaves less input or ends it. -/
theorem finishes_collectBy {round : StateM σ (Round α)} (shrinks : Shrinks holds size round)
    (s : σ) (start : holds s) :
    Finishes round s (collectBy size round s).1 (collectBy size round s).2 :=
  finishes_collectWithin shrinks (size s + 1) s start (Nat.lt_succ_self _)

/-! ## Refining -/

/-- Rounds replace the value from `s` on until one gives none and leaves `t`. -/
inductive Refines (round : α → StateM σ (Option α)) : α → σ → α → σ → Prop
  | done {value : α} {s : σ} (here : (round value s).1 = none) :
      Refines round value s value (round value s).2
  | again {value better result : α} {s t : σ} (here : (round value s).1 = some better)
      (later : Refines round better (round value s).2 result t) : Refines round value s result t

theorem Refines.of_none {round : α → StateM σ (Option α)} {value : α} {s t : σ}
    (run : round value s = (none, t)) : Refines round value s value t := by
  have ends : Refines round value s value (round value s).2 := .done (congrArg Prod.fst run)
  rwa [run] at ends

theorem Refines.of_some {round : α → StateM σ (Option α)} {value better result : α} {s t u : σ}
    (run : round value s = (some better, t)) (later : Refines round better t result u) :
    Refines round value s result u := by
  refine .again (congrArg Prod.fst run) ?_
  rwa [run]

theorem refineWithin_succ (round : α → StateM σ (Option α)) (fuel : Nat) (value : α) (s : σ) :
    refineWithin round (fuel + 1) value s =
      match (round value s).1 with
      | none => (value, (round value s).2)
      | some better => refineWithin round fuel better (round value s).2 := by
  show (match (round value s).1 with
    | none => pure value
    | some better => refineWithin round fuel better : StateM σ α) (round value s).2 = _
  cases (round value s).1 <;> rfl

theorem refines_refineWithin {round : α → StateM σ (Option α)}
    (shrinks : ∀ value s, holds s → (round value s).1.isSome = true →
      holds (round value s).2 ∧ size (round value s).2 < size s)
    (fuel : Nat) (value : α) (s : σ) (start : holds s) (enough : size s < fuel) :
    Refines round value s (refineWithin round fuel value s).1
      (refineWithin round fuel value s).2 := by
  induction fuel generalizing value s with
  | zero => omega
  | succ fuel ih =>
      have goes := shrinks value s start
      rw [refineWithin_succ]
      cases ran : (round value s).1 with
      | none => exact .done ran
      | some better =>
          obtain ⟨stays, less⟩ := goes (by rw [ran]; rfl)
          exact .again ran (ih better _ stays (by omega))

/-- **A refining loop ends by itself**, if each round that gives a value leaves less input. -/
theorem refines_refineBy {round : α → StateM σ (Option α)}
    (shrinks : ∀ value s, holds s → (round value s).1.isSome = true →
      holds (round value s).2 ∧ size (round value s).2 < size s)
    (value : α) (s : σ) (start : holds s) :
    Refines round value s (refineBy size round value s).1 (refineBy size round value s).2 :=
  refines_refineWithin shrinks (size s + 1) value s start (Nat.lt_succ_self _)

end UiFormat.Parse

/-
# UiFormat.Proofs.Parse.Keeping -- runs that keep something beside their state

What is written for any monad with a state can be run in one that keeps a second value
beside the state, such as a count of what is open.  A `Keeper` hands that value on; only
`kept` looks at it and only `keep` changes it, so nothing that is written for any monad
can do either.

`Shadows ok k p` says that the keeper `k`, started with any value that is `ok`, does what the
plain `p` does, and that it ends with a value that is `ok` again.  A sequence shadows a
sequence if its steps do, and so does a loop.  `Mirrors here k p` is the case of one value
only: started with `here`, the keeper ends with `here`.
-/
import UiFormat.Parse.State

namespace UiFormat.Parse

set_option autoImplicit false

variable {ν σ α β : Type}

/-! ## Keepers -/

/-- A computation on a state, with a value of type `ν` beside it. -/
def Keeper (ν σ α : Type) : Type := σ → ν → α × σ × ν

instance : Monad (Keeper ν σ) where
  pure a := fun s here => (a, s, here)
  bind k f := fun s here => f (k s here).1 (k s here).2.1 (k s here).2.2

instance : MonadState σ (Keeper ν σ) where
  get := fun s here => (s, s, here)
  set t := fun _ here => ((), t, here)
  modifyGet f := fun s here => ((f s).1, (f s).2, here)

/-- The value beside the state. -/
def kept : Keeper ν σ ν := fun s here => (here, s, here)

/-- Changes the value beside the state. -/
def keep (f : ν → ν) : Keeper ν σ Unit := fun s here => ((), s, f here)

/-! ## Shadowing -/

/-- Started with a value that is `ok`, the keeper does what `p` does and ends with one. -/
class Shadows (ok : ν → Prop) (k : Keeper ν σ α) (p : StateM σ α) : Prop where
  run_eq (s : σ) {v : ν} (fine : ok v) : ∃ w, ok w ∧ k s v = ((p s).1, (p s).2, w)

/-- Started with `here`, the keeper does what `p` does and ends with `here`. -/
class Mirrors (here : ν) (k : Keeper ν σ α) (p : StateM σ α) : Prop where
  run_eq (s : σ) : k s here = ((p s).1, (p s).2, here)

theorem Mirrors.of_shadows {here : ν} {k : Keeper ν σ α} {p : StateM σ α}
    (shadows : Shadows (· = here) k p) : Mirrors here k p where
  run_eq s := by
    obtain ⟨w, rfl, ran⟩ := shadows.run_eq s rfl
    exact ran

section

variable {ok : ν → Prop} {k l : Keeper ν σ α} {p q : StateM σ α}

instance shadows_pure (a : α) : Shadows ok (pure a : Keeper ν σ α) (pure a) :=
  ⟨fun _ v fine => ⟨v, fine, rfl⟩⟩

instance shadows_bind {f : α → Keeper ν σ β} {g : α → StateM σ β} [first : Shadows ok k p]
    [second : ∀ a, Shadows ok (f a) (g a)] : Shadows ok (k >>= f) (p >>= g) where
  run_eq s v fine := by
    obtain ⟨between, still, ran⟩ := first.run_eq s fine
    show ∃ w, ok w ∧ f (k s v).1 (k s v).2.1 (k s v).2.2 = _
    rw [ran]
    exact (second (p s).1).run_eq (p s).2 still

instance shadows_map (f : α → β) [shadows : Shadows ok k p] : Shadows ok (f <$> k) (f <$> p) where
  run_eq s v fine := by
    obtain ⟨w, still, ran⟩ := shadows.run_eq s fine
    refine ⟨w, still, ?_⟩
    show (f (k s v).1, (k s v).2.1, (k s v).2.2) = _
    rw [ran]
    rfl

theorem Shadows.ite {c : Prop} [Decidable c] (yes : c → Shadows ok k p)
    (no : ¬ c → Shadows ok l q) : Shadows ok (if c then k else l) (if c then p else q) := by
  split
  · rename_i holds
    exact yes holds
  · rename_i fails
    exact no fails

instance shadows_ite (c : Prop) [Decidable c] [yes : Shadows ok k p] [no : Shadows ok l q] :
    Shadows ok (if c then k else l) (if c then p else q) :=
  .ite (fun _ => yes) fun _ => no

instance shadows_get : Shadows ok (get : Keeper ν σ σ) get :=
  ⟨fun _ v fine => ⟨v, fine, rfl⟩⟩

instance shadows_modify (f : σ → σ) : Shadows ok (modify f : Keeper ν σ PUnit) (modify f) :=
  ⟨fun _ v fine => ⟨v, fine, rfl⟩⟩

/-- What changes the value beside the state shadows, if `inside` does with the changed
value and the change is taken back. -/
theorem shadows_between {within : ν → Prop} {change restore : ν → ν} {inside : Keeper ν σ β}
    {r : StateM σ β} {f : β → Keeper ν σ α} {g : β → StateM σ α}
    (enter : ∀ v, ok v → within (change v)) (leave : ∀ v, within v → ok (restore v))
    [body : Shadows within inside r] [later : ∀ b, Shadows ok (f b) (g b)] :
    Shadows ok (do keep change; let b ← inside; keep restore; f b) (r >>= g) where
  run_eq s v fine := by
    obtain ⟨w, still, ran⟩ := body.run_eq s (enter v fine)
    show ∃ u, ok u ∧ f (inside s (change v)).1 (inside s (change v)).2.1
      (restore (inside s (change v)).2.2) = _
    rw [ran]
    exact (later (r s).1).run_eq (r s).2 (leave w still)

end

/-! ## Reading tokens -/

section

variable {κ ε : Type} {ok : ν → Prop}

instance shadows_current : Shadows ok (current : Keeper ν (State κ ε) (Token κ)) current := by
  unfold current; infer_instance

instance shadows_remaining :
    Shadows ok (remaining : Keeper ν (State κ ε) (List (Token κ))) remaining := by
  unfold remaining; infer_instance

instance shadows_continueAt (rest : List (Token κ)) :
    Shadows ok (continueAt rest : Keeper ν (State κ ε) Unit) (continueAt rest) := by
  unfold continueAt; infer_instance

instance shadows_atEnd : Shadows ok (atEnd : Keeper ν (State κ ε) Bool) atEnd := by
  unfold atEnd; infer_instance

instance shadows_looking (q : Token κ → Bool) :
    Shadows ok (looking q : Keeper ν (State κ ε) Bool) (looking q) := by
  unfold looking; infer_instance

instance shadows_advance : Shadows ok (advance : Keeper ν (State κ ε) (Token κ)) advance := by
  unfold advance; infer_instance

instance shadows_skipWhile (q : Token κ → Bool) :
    Shadows ok (skipWhile q : Keeper ν (State κ ε) Unit) (skipWhile q) := by
  unfold skipWhile; infer_instance

instance shadows_report (cause : ε) :
    Shadows ok (report cause : Keeper ν (State κ ε) Unit) (report cause) := by
  unfold report reportAt; infer_instance

/-! ## Loops -/

instance shadows_collectWithin {k : Keeper ν (State κ ε) (Round α)} {p : Parser κ ε (Round α)}
    [step : Shadows ok k p] (fuel : Nat) :
    Shadows ok (collectWithin k fuel) (collectWithin p fuel) := by
  induction fuel with
  | zero => exact shadows_pure []
  | succ fuel ih =>
      refine @shadows_bind _ _ _ _ _ _ _ _ _ step fun r => ?_
      cases r <;> infer_instance

instance shadows_collect {k : Keeper ν (State κ ε) (Round α)} {p : Parser κ ε (Round α)}
    [Shadows ok k p] : Shadows ok (collect k) (collect p) := by
  unfold collect collectBy; infer_instance

instance shadows_refineWithin {k : α → Keeper ν (State κ ε) (Option α)}
    {p : α → Parser κ ε (Option α)} [step : ∀ a, Shadows ok (k a) (p a)] (fuel : Nat) (value : α) :
    Shadows ok (refineWithin k fuel value) (refineWithin p fuel value) := by
  induction fuel generalizing value with
  | zero => exact shadows_pure value
  | succ fuel ih =>
      refine @shadows_bind _ _ _ _ _ _ _ _ _ (step value) fun r => ?_
      cases r with
      | none => exact shadows_pure value
      | some better => exact ih better

instance shadows_refine {k : α → Keeper ν (State κ ε) (Option α)} {p : α → Parser κ ε (Option α)}
    [∀ a, Shadows ok (k a) (p a)] (value : α) :
    Shadows ok (refine k value) (refine p value) := by
  unfold refine refineBy; infer_instance

end

end UiFormat.Parse

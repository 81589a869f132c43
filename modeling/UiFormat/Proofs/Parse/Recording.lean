/-
# UiFormat.Proofs.Parse.Recording -- runs that keep their states

What is written for any monad with a state can be run in one that remembers.  A
`Recorder` hands the state on as a plain state monad does, and keeps besides every state
that it looks at and every state that it leaves: the moments of the run.  Nothing that is
written for any monad can tell the difference, so the moments are those of the plain run,
which by itself shows the state it ends in only.
-/
import UiFormat.Parse.State

namespace UiFormat.Parse

set_option autoImplicit false

variable {σ α β : Type}

/-- The result of a run, the state it ends in, and its moments, oldest first. -/
structure Run (σ α : Type) where
  result : α
  final : σ
  moments : List σ

/-- A computation on a state that keeps its moments. -/
def Recorder (σ α : Type) : Type := σ → Run σ α

instance : Monad (Recorder σ) where
  pure a := fun s => { result := a, final := s, moments := [] }
  bind p f := fun s =>
    let first := p s
    let later := f first.result first.final
    { later with moments := first.moments ++ later.moments }

instance : MonadState σ (Recorder σ) where
  get := fun s => { result := s, final := s, moments := [s] }
  set t := fun s => { result := (), final := t, moments := [s, t] }
  modifyGet f := fun s => { result := (f s).1, final := (f s).2, moments := [s, (f s).2] }

end UiFormat.Parse

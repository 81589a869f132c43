/-
# UiFormat.Parse.Loop -- loops of a parser

A parser's loop runs rounds until one of them ends it.  A round that does not
end the loop consumes input, so a loop runs at most one round more than there is
input left: that bound is the fuel of both loops here, computed where the loop
starts, and it is never what stops a loop whose rounds make progress.
-/
namespace UiFormat.Parse

set_option autoImplicit false

/-- What one round of a collecting loop does: end the loop with or without a
last item, or go on with or without an item. -/
inductive Round (α : Type) where
  | stop
  | last (item : α)
  | skip
  | next (item : α)
  deriving Repr

variable {m : Type → Type} [Monad m] {σ α : Type}

/-- At most `fuel` rounds, with the items they gave. -/
def collectWithin (round : m (Round α)) : (fuel : Nat) → m (List α)
  | 0 => pure []
  | fuel + 1 => do
      match ← round with
      | .stop => pure []
      | .last item => pure [item]
      | .skip => collectWithin round fuel
      | .next item => do
          let items ← collectWithin round fuel
          pure (item :: items)

/-- Runs rounds until one ends the loop; `size` measures the input left. -/
def collectBy [MonadState σ m] (size : σ → Nat) (round : m (Round α)) : m (List α) := do
  let s ← get
  collectWithin round (size s + 1)

/-- At most `fuel` rounds, each replacing the value of the one before. -/
def refineWithin (round : α → m (Option α)) : (fuel : Nat) → α → m α
  | 0, value => pure value
  | fuel + 1, value => do
      match ← round value with
      | none => pure value
      | some better => refineWithin round fuel better

/-- Replaces a value round by round until a round gives none; `size` measures
the input left. -/
def refineBy [MonadState σ m] (size : σ → Nat) (round : α → m (Option α)) (value : α) : m α := do
  let s ← get
  refineWithin round (size s + 1) value

end UiFormat.Parse

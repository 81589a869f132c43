/-
# UiFormat.Proofs.Parse.Progress -- readers that take tokens

`Below n found p s` says of a reader that it leaves fewer than `n` tokens behind it, if
its result is one that counts as found.  A reader is followed step by step: looking at
tokens changes no state, a step is followed into the state that it leaves, and once fewer
than `n` tokens are left they stay fewer, because readers only move forward.
-/
import UiFormat.Proofs.Parse.Termination

namespace UiFormat.Parse

set_option autoImplicit false

variable {κ ε α β : Type} {n : Nat} {s t : State κ ε} {found : α → Bool}

theorem run_bind (p : Parser κ ε α) (f : α → Parser κ ε β) (s : State κ ε) :
    (p >>= f) s = f (p s).1 (p s).2 :=
  rfl

/-- If the result of `p` from `s` is one of `found`, fewer than `n` tokens are left. -/
def Below (n : Nat) (found : α → Bool) (p : Parser κ ε α) (s : State κ ε) : Prop :=
  found (p s).1 = true → (p s).2.rest.length < n

theorem Below.lt {p : Parser κ ε α} {a : α} (below : Below n found p s) (run : p s = (a, t))
    (isFound : found a = true) : t.rest.length < n := by
  rw [Below, run] at below
  exact below isFound

/-- Readers that only move forward keep what has been gained. -/
theorem below_of_lt {p : Parser κ ε α} [forward : Forward p] (less : s.rest.length < n) :
    Below n found p s :=
  fun _ => Nat.lt_of_le_of_lt (forward.rest_suffix s).length_le less

theorem below_pure {a : α} (missing : found a = false) :
    Below n found (pure a : Parser κ ε α) s := by
  intro isFound
  have both : found a = true := isFound
  rw [missing] at both
  cases both

/-- A reader is followed into the state that its first step leaves. -/
theorem Below.step {p : Parser κ ε β} {f : β → Parser κ ε α}
    (later : ∀ b t, p s = (b, t) → Below n found (f b) t) : Below n found (p >>= f) s :=
  later _ _ rfl

theorem Below.ite {c : Prop} [Decidable c] {p q : Parser κ ε α} (yes : c → Below n found p s)
    (no : ¬ c → Below n found q s) : Below n found (if c then p else q) s := by
  split
  · rename_i holds
    exact yes holds
  · rename_i fails
    exact no fails

/-! Looking at tokens changes no state. -/

theorem Below.current {f : Token κ → Parser κ ε α} (later : Below n found (f s.current) s) :
    Below n found (Parse.current >>= f) s :=
  later

theorem Below.remaining {f : List (Token κ) → Parser κ ε α} (later : Below n found (f s.rest) s) :
    Below n found (Parse.remaining >>= f) s :=
  later

theorem Below.atEnd {f : Bool → Parser κ ε α} (later : Below n found (f s.rest.isEmpty) s) :
    Below n found (Parse.atEnd >>= f) s :=
  later

theorem Below.looking {q : Token κ → Bool} {f : Bool → Parser κ ε α}
    (later : Below n found (f (q s.current)) s) : Below n found (Parse.looking q >>= f) s :=
  later

/-! ## Single tokens -/

/-- A test that the closing token fails tells that a token is left. -/
theorem filled_of_test {q : Token κ → Bool} (fails : q s.closing = false)
    (passes : q s.current = true) : s.rest ≠ [] := by
  intro empty
  have ends : s.current = s.closing := by
    rw [State.current, empty]
    rfl
  rw [ends, fails] at passes
  cases passes

theorem advance_lt (filled : s.rest ≠ []) (le : s.rest.length ≤ n) :
    ((advance : Parser κ ε (Token κ)) s).2.rest.length < n := by
  have some := List.length_pos_iff.2 filled
  show s.rest.tail.length < n
  rw [List.length_tail]
  omega

/-- A reader that begins with a token takes it. -/
theorem below_advance {f : Token κ → Parser κ ε α} [∀ t, Forward (f t)]
    (filled : s.rest ≠ []) (le : s.rest.length ≤ n) : Below n found (advance >>= f) s :=
  .step fun _ _ run => below_of_lt (by
    have less : ((advance : Parser κ ε (Token κ)) s).2.rest.length < n := advance_lt filled le
    rwa [run] at less)

/-- A report takes no token. -/
theorem rest_of_report {cause : ε} {u : Unit} (run : (report cause : Parser κ ε Unit) s = (u, t)) :
    t.rest = s.rest := by
  obtain ⟨-, rfl⟩ := Prod.mk.inj run
  rfl

end UiFormat.Parse

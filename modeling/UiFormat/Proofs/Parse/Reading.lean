/-
# UiFormat.Proofs.Parse.Reading -- runs of a parser that report nothing

`Reads closing p ts a rest` says that the parser `p`, in front of the tokens `ts`
and the closing token, gives `a`, leaves the tokens `rest` and reports nothing.
A parser that reports once has reported for good: the parsers that only move
forward (`Forward`) add errors and never remove one, and they never give back a
token.  So a silent run of a sequence is a silent run of its parts
(`reads_bind`), and the runs of a parser can be computed from its text by
rewriting with the `reads_` equivalences.

The two loops are characterised without their fuel: a loop whose rounds consume
input runs until a round ends it (`reads_collect`, `reads_refine`).
-/
import UiFormat.Parse.State
import Mathlib.Data.List.Infix

namespace UiFormat.Parse

set_option autoImplicit false

variable {κ ε α β : Type}

/-! ## Moving forward -/

/-- The parser takes tokens from the front only, keeps the closing token and
forgets no error. -/
class Forward (p : Parser κ ε α) : Prop where
  rest_suffix (s : State κ ε) : (p s).2.rest <:+ s.rest
  closing_eq (s : State κ ε) : (p s).2.closing = s.closing
  errors_begin (s : State κ ε) : s.errors <+: (p s).2.errors

instance forward_pure (a : α) : Forward (pure a : Parser κ ε α) :=
  ⟨fun _ => List.suffix_rfl, fun _ => rfl, fun _ => List.prefix_rfl⟩

instance forward_bind (p : Parser κ ε α) (f : α → Parser κ ε β) [first : Forward p]
    [second : ∀ a, Forward (f a)] : Forward (p >>= f) where
  rest_suffix s := ((second _).rest_suffix _).trans (first.rest_suffix s)
  closing_eq s := ((second _).closing_eq _).trans (first.closing_eq s)
  errors_begin s := (first.errors_begin s).trans ((second _).errors_begin _)

instance forward_map (f : α → β) (p : Parser κ ε α) [forward : Forward p] : Forward (f <$> p) :=
  ⟨forward.rest_suffix, forward.closing_eq, forward.errors_begin⟩

instance forward_ite (c : Prop) [Decidable c] (p q : Parser κ ε α) [yes : Forward p]
    [no : Forward q] : Forward (if c then p else q) := by
  split
  · exact yes
  · exact no

instance forward_current : Forward (current : Parser κ ε (Token κ)) :=
  ⟨fun _ => List.suffix_rfl, fun _ => rfl, fun _ => List.prefix_rfl⟩

instance forward_remaining : Forward (remaining : Parser κ ε (List (Token κ))) :=
  ⟨fun _ => List.suffix_rfl, fun _ => rfl, fun _ => List.prefix_rfl⟩

instance forward_atEnd : Forward (atEnd : Parser κ ε Bool) :=
  ⟨fun _ => List.suffix_rfl, fun _ => rfl, fun _ => List.prefix_rfl⟩

instance forward_looking (q : Token κ → Bool) : Forward (looking q : Parser κ ε Bool) :=
  ⟨fun _ => List.suffix_rfl, fun _ => rfl, fun _ => List.prefix_rfl⟩

instance forward_advance : Forward (advance : Parser κ ε (Token κ)) :=
  ⟨fun s => List.tail_suffix s.rest, fun _ => rfl, fun _ => List.prefix_rfl⟩

instance forward_skipWhile (q : Token κ → Bool) : Forward (skipWhile q : Parser κ ε Unit) :=
  ⟨fun _ => List.dropWhile_suffix q, fun _ => rfl, fun _ => List.prefix_rfl⟩

instance forward_report (cause : ε) : Forward (report cause : Parser κ ε Unit) :=
  ⟨fun _ => List.suffix_rfl, fun _ => rfl, fun s => List.prefix_append s.errors _⟩

instance forward_collectWithin (round : Parser κ ε (Round α)) [step : Forward round] (fuel : Nat) :
    Forward (collectWithin round fuel) := by
  induction fuel with
  | zero => exact forward_pure []
  | succ fuel ih =>
      have after : ∀ r : Round α, Forward (match r with
          | .stop => pure []
          | .last item => pure [item]
          | .skip => collectWithin round fuel
          | .next item => do
              let items ← collectWithin round fuel
              pure (item :: items) : Parser κ ε (List α)) := by
        intro r
        cases r <;> infer_instance
      exact forward_bind round _

instance forward_collect (round : Parser κ ε (Round α)) [step : Forward round] :
    Forward (collect round) :=
  ⟨fun s => (forward_collectWithin round (s.rest.length + 1)).rest_suffix s,
    fun s => (forward_collectWithin round (s.rest.length + 1)).closing_eq s,
    fun s => (forward_collectWithin round (s.rest.length + 1)).errors_begin s⟩

instance forward_refineWithin (round : α → Parser κ ε (Option α)) [step : ∀ a, Forward (round a)]
    (fuel : Nat) (value : α) : Forward (refineWithin round fuel value) := by
  induction fuel generalizing value with
  | zero => exact forward_pure value
  | succ fuel ih =>
      have after : ∀ r : Option α, Forward (match r with
          | none => pure value
          | some better => refineWithin round fuel better : Parser κ ε α) := by
        intro r
        cases r
        · exact forward_pure value
        · exact ih _
      exact forward_bind (round value) _

instance forward_refine (round : α → Parser κ ε (Option α)) [step : ∀ a, Forward (round a)]
    (value : α) : Forward (refine round value) :=
  ⟨fun s => (forward_refineWithin round (s.rest.length + 1) value).rest_suffix s,
    fun s => (forward_refineWithin round (s.rest.length + 1) value).closing_eq s,
    fun s => (forward_refineWithin round (s.rest.length + 1) value).errors_begin s⟩

/-! ## Silent runs -/

/-- In front of `ts` the parser gives `a`, leaves `rest` and reports nothing. -/
def Reads (closing : Token κ) (p : Parser κ ε α) (ts : List (Token κ)) (a : α)
    (rest : List (Token κ)) : Prop :=
  p { rest := ts, closing, errors := [] } = (a, { rest, closing, errors := [] })

/-- The token that comes next. -/
def ahead (closing : Token κ) (ts : List (Token κ)) : Token κ :=
  ts.headD closing

@[simp] theorem ahead_nil (closing : Token κ) : ahead closing [] = closing := rfl

@[simp] theorem ahead_cons (closing t : Token κ) (ts : List (Token κ)) :
    ahead closing (t :: ts) = t := rfl

variable {closing : Token κ} {ts rest : List (Token κ)}

/-- The outcome of a silent run is unique. -/
theorem Reads.unique {p : Parser κ ε α} {a b : α} {other : List (Token κ)}
    (first : Reads closing p ts a rest) (second : Reads closing p ts b other) :
    a = b ∧ rest = other := by
  have same := first.symm.trans second
  exact ⟨congrArg Prod.fst same, congrArg (fun r => r.2.rest) same⟩

theorem Reads.suffix {p : Parser κ ε α} [Forward p] {a : α} (reads : Reads closing p ts a rest) :
    rest <:+ ts := by
  have suffix := Forward.rest_suffix (p := p) { rest := ts, closing, errors := [] }
  rwa [reads] at suffix

theorem Reads.length_le {p : Parser κ ε α} [Forward p] {a : α}
    (reads : Reads closing p ts a rest) : rest.length ≤ ts.length :=
  reads.suffix.length_le

theorem reads_iff_of_run {p : Parser κ ε α} {a b : α} {other : List (Token κ)}
    (run : Reads closing p ts b other) : Reads closing p ts a rest ↔ a = b ∧ rest = other := by
  constructor
  · intro reads
    exact reads.unique run
  · rintro ⟨rfl, rfl⟩
    exact run

theorem reads_pure {a b : α} :
    Reads closing (pure a : Parser κ ε α) ts b rest ↔ b = a ∧ rest = ts :=
  reads_iff_of_run rfl

/-- A silent run of a sequence is a silent run of its parts. -/
theorem reads_bind {p : Parser κ ε α} {f : α → Parser κ ε β} [Forward p] [∀ a, Forward (f a)]
    {b : β} : Reads closing (p >>= f) ts b rest ↔
      ∃ a between, Reads closing p ts a between ∧ Reads closing (f a) between b rest := by
  constructor
  · intro reads
    obtain ⟨a, s, first⟩ : ∃ a s, p { rest := ts, closing, errors := [] } = (a, s) := ⟨_, _, rfl⟩
    have second : f a s = (b, { rest, closing, errors := [] }) := by
      have whole : f (p { rest := ts, closing, errors := [] }).1
          (p { rest := ts, closing, errors := [] }).2 = (b, { rest, closing, errors := [] }) := reads
      rwa [first] at whole
    have silent : s.errors = [] := by
      have grows := Forward.errors_begin (p := f a) s
      rw [second] at grows
      exact List.prefix_nil.1 grows
    have kept : s.closing = closing := by
      have same := Forward.closing_eq (p := p) { rest := ts, closing, errors := [] }
      rwa [first] at same
    obtain ⟨between, c, errors⟩ := s
    simp only at silent kept
    subst silent kept
    exact ⟨a, between, first, second⟩
  · rintro ⟨a, between, first, second⟩
    have whole : (p >>= f) { rest := ts, closing, errors := [] } =
        f (p { rest := ts, closing, errors := [] }).1
          (p { rest := ts, closing, errors := [] }).2 := rfl
    rw [Reads, whole, first]
    exact second

theorem reads_map {f : α → β} {p : Parser κ ε α} {b : β} :
    Reads closing (f <$> p) ts b rest ↔ ∃ a, Reads closing p ts a rest ∧ b = f a := by
  have run : (f <$> p) { rest := ts, closing, errors := [] } =
      (f (p { rest := ts, closing, errors := [] }).1,
        (p { rest := ts, closing, errors := [] }).2) := rfl
  constructor
  · intro reads
    rw [Reads, run] at reads
    obtain ⟨a, s, first⟩ : ∃ a s, p { rest := ts, closing, errors := [] } = (a, s) := ⟨_, _, rfl⟩
    rw [first] at reads
    have left : s = { rest, closing, errors := [] } := congrArg Prod.snd reads
    rw [left] at first
    exact ⟨a, first, (congrArg Prod.fst reads).symm⟩
  · rintro ⟨a, first, rfl⟩
    rw [Reads, run, first]

/-- A report is never silent. -/
theorem not_reads_report {cause : ε} {u : Unit} :
    ¬ Reads closing (report cause : Parser κ ε Unit) ts u rest := by
  intro reads
  have errors := congrArg (fun r => r.2.errors) reads
  have added : [] ++ [{ cause, token := ahead closing ts }] = ([] : List (ParseError κ ε)) := errors
  cases added

/-- A report ends every silent run it stands in. -/
theorem not_reads_report_bind {cause : ε} {f : Unit → Parser κ ε α} [∀ u, Forward (f u)] {a : α} :
    ¬ Reads closing (report cause >>= f) ts a rest := by
  rw [reads_bind]
  rintro ⟨u, between, reports, -⟩
  exact not_reads_report reports

section Peeking

variable {f : Token κ → Parser κ ε α} {g : Bool → Parser κ ε α} {a : α}

theorem reads_current_bind : Reads closing (current >>= f) ts a rest ↔
    Reads closing (f (ahead closing ts)) ts a rest :=
  Iff.rfl

theorem reads_looking_bind {q : Token κ → Bool} : Reads closing (looking q >>= g) ts a rest ↔
    Reads closing (g (q (ahead closing ts))) ts a rest :=
  Iff.rfl

theorem reads_atEnd_bind : Reads closing (atEnd >>= g) ts a rest ↔
    Reads closing (g ts.isEmpty) ts a rest :=
  Iff.rfl

theorem reads_remaining_bind {h : List (Token κ) → Parser κ ε α} :
    Reads closing (remaining >>= h) ts a rest ↔ Reads closing (h ts) ts a rest :=
  Iff.rfl

theorem reads_advance_bind : Reads closing (advance >>= f) ts a rest ↔
    Reads closing (f (ahead closing ts)) ts.tail a rest :=
  Iff.rfl

theorem reads_skipWhile_bind {q : Token κ → Bool} {h : Unit → Parser κ ε α} :
    Reads closing (skipWhile q >>= h) ts a rest ↔
      Reads closing (h ()) (ts.dropWhile q) a rest :=
  Iff.rfl

end Peeking

/-- A test that the closing token fails tells that a token is left. -/
theorem ahead_and_tail_iff {q : Token κ → Bool} (fails : q closing = false) :
    (q (ahead closing ts) = true ∧ rest = ts.tail) ↔ ∃ t, ts = t :: rest ∧ q t = true := by
  cases ts with
  | nil => simp [fails]
  | cons t ts =>
      constructor
      · rintro ⟨passes, rfl⟩
        exact ⟨t, rfl, passes⟩
      · rintro ⟨u, same, passes⟩
        cases same
        exact ⟨passes, rfl⟩

/-! ## Loops -/

/-- The loop runs another round after this one. -/
def Round.goesOn : Round α → Bool
  | .skip => true
  | .next _ => true
  | _ => false

/-- Rounds up to one that ends the loop, with the items they gave. -/
inductive Rounds (closing : Token κ) (round : Parser κ ε (Round α)) :
    List (Token κ) → List α → List (Token κ) → Prop
  | stop {ts rest : List (Token κ)} (here : Reads closing round ts .stop rest) :
      Rounds closing round ts [] rest
  | last {ts rest : List (Token κ)} {item : α} (here : Reads closing round ts (.last item) rest) :
      Rounds closing round ts [item] rest
  | skip {ts between rest : List (Token κ)} {items : List α}
      (here : Reads closing round ts .skip between)
      (later : Rounds closing round between items rest) : Rounds closing round ts items rest
  | next {ts between rest : List (Token κ)} {item : α} {items : List α}
      (here : Reads closing round ts (.next item) between)
      (later : Rounds closing round between items rest) :
      Rounds closing round ts (item :: items) rest

/-- Every round that does not end the loop takes a token. -/
def Consumes (closing : Token κ) (round : Parser κ ε (Round α)) : Prop :=
  ∀ ts r rest, Reads closing round ts r rest → r.goesOn = true → rest.length < ts.length

theorem reads_collectWithin {round : Parser κ ε (Round α)} [Forward round]
    (consumes : Consumes closing round) {items : List α} :
    ∀ (fuel : Nat) (ts : List (Token κ)), ts.length < fuel →
      (Reads closing (collectWithin round fuel) ts items rest ↔
        Rounds closing round ts items rest) := by
  intro fuel
  induction fuel generalizing items with
  | zero => intro ts enough; omega
  | succ fuel ih =>
      intro ts enough
      have after : ∀ r : Round α, Forward (match r with
          | .stop => pure []
          | .last item => pure [item]
          | .skip => collectWithin round fuel
          | .next item => do
              let items ← collectWithin round fuel
              pure (item :: items) : Parser κ ε (List α)) := by
        intro r
        cases r <;> infer_instance
      rw [collectWithin, reads_bind]
      constructor
      · rintro ⟨r, between, here, later⟩
        cases r with
        | stop =>
            obtain ⟨rfl, rfl⟩ := reads_pure.1 later
            exact .stop here
        | last item =>
            obtain ⟨rfl, rfl⟩ := reads_pure.1 later
            exact .last here
        | skip =>
            have shorter := consumes _ _ _ here rfl
            exact .skip here ((ih between (by omega)).1 later)
        | next item =>
            have shorter := consumes _ _ _ here rfl
            obtain ⟨items, between', later, ends⟩ := reads_bind.1 later
            obtain ⟨rfl, rfl⟩ := reads_pure.1 ends
            exact .next here ((ih between (by omega)).1 later)
      · intro rounds
        cases rounds with
        | stop here => exact ⟨_, _, here, reads_pure.2 ⟨rfl, rfl⟩⟩
        | last here => exact ⟨_, _, here, reads_pure.2 ⟨rfl, rfl⟩⟩
        | skip here later =>
            have shorter := consumes _ _ _ here rfl
            exact ⟨_, _, here, (ih _ (by omega)).2 later⟩
        | next here later =>
            have shorter := consumes _ _ _ here rfl
            exact ⟨_, _, here, reads_bind.2 ⟨_, _, (ih _ (by omega)).2 later,
              reads_pure.2 ⟨rfl, rfl⟩⟩⟩

/-- A collecting loop whose rounds take tokens runs until a round ends it. -/
theorem reads_collect {round : Parser κ ε (Round α)} [Forward round]
    (consumes : Consumes closing round) {items : List α} :
    Reads closing (collect round) ts items rest ↔ Rounds closing round ts items rest :=
  reads_collectWithin consumes (ts.length + 1) ts (Nat.lt_succ_self _)

/-- Rounds that replace a value, up to one that gives none. -/
inductive Refinements (closing : Token κ) (round : α → Parser κ ε (Option α)) :
    α → List (Token κ) → α → List (Token κ) → Prop
  | done {value : α} {ts rest : List (Token κ)} (here : Reads closing (round value) ts none rest) :
      Refinements closing round value ts value rest
  | again {value better result : α} {ts between rest : List (Token κ)}
      (here : Reads closing (round value) ts (some better) between)
      (later : Refinements closing round better between result rest) :
      Refinements closing round value ts result rest

theorem reads_refineWithin {round : α → Parser κ ε (Option α)} [∀ a, Forward (round a)]
    (consumes : ∀ value ts better rest, Reads closing (round value) ts (some better) rest →
      rest.length < ts.length) {result : α} :
    ∀ (fuel : Nat) (value : α) (ts : List (Token κ)), ts.length < fuel →
      (Reads closing (refineWithin round fuel value) ts result rest ↔
        Refinements closing round value ts result rest) := by
  intro fuel
  induction fuel with
  | zero => intro value ts enough; omega
  | succ fuel ih =>
      intro value ts enough
      have after : ∀ r : Option α, Forward (match r with
          | none => pure value
          | some better => refineWithin round fuel better : Parser κ ε α) := by
        intro r
        cases r <;> infer_instance
      rw [refineWithin, reads_bind]
      constructor
      · rintro ⟨r, between, here, later⟩
        cases r with
        | none =>
            obtain ⟨rfl, rfl⟩ := reads_pure.1 later
            exact .done here
        | some better =>
            have shorter := consumes _ _ _ _ here
            exact .again here ((ih better between (by omega)).1 later)
      · intro refinements
        cases refinements with
        | done here => exact ⟨_, _, here, reads_pure.2 ⟨rfl, rfl⟩⟩
        | again here later =>
            have shorter := consumes _ _ _ _ here
            exact ⟨_, _, here, (ih _ _ (by omega)).2 later⟩

/-- A refining loop whose rounds take tokens runs until a round gives none. -/
theorem reads_refine {round : α → Parser κ ε (Option α)} [∀ a, Forward (round a)]
    (consumes : ∀ value ts better rest, Reads closing (round value) ts (some better) rest →
      rest.length < ts.length) {value result : α} :
    Reads closing (refine round value) ts result rest ↔
      Refinements closing round value ts result rest :=
  reads_refineWithin consumes (ts.length + 1) value ts (Nat.lt_succ_self _)

end UiFormat.Parse

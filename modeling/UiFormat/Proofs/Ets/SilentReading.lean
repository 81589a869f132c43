/-
# UiFormat.Proofs.Ets.SilentReading -- what readers do that report nothing

A reader that gives up after it has taken tokens has reported that.  So a silent
reader either finds something and takes tokens for it, or finds nothing and stays
where it is (`FindsOrStays`); no token is passed over in silence.  For the readers of
members this is `reads_parseMember`.

`Gives p P` carries the tokens a silent reader took through its steps: `P place own a`
speaks of the tokens `own`, the place where they stand, and the result `a`.
-/
import UiFormat.Proofs.Ets.Advance
import UiFormat.Proofs.Ets.NodeTokens
import UiFormat.Proofs.Ets.Decorators

namespace UiFormat.Ets

open UiFormat.Text
open UiFormat.Parse

set_option autoImplicit false

variable {α β : Type} {closing : Tok} {ts rest : List Tok}

/-! ## Places -/

/-- The tokens left and the closing token lie one behind the other from `place`
on. -/
structure Placed (closing : Tok) (place : Nat) (ts : List Tok) : Prop where
  tiles : Tiles place ts
  ends : closing.start = place + (textOf ts).length

/-- The token that comes next stands at the place. -/
theorem Placed.start_ahead {place : Nat} (placed : Placed closing place ts) :
    (ahead closing ts).start = place := by
  cases ts with
  | nil => simpa using placed.ends
  | cons t ts => exact placed.tiles.1

theorem Placed.right {place : Nat} {front back : List Tok}
    (placed : Placed closing place (front ++ back)) :
    Placed closing (place + (textOf front).length) back where
  tiles := (tiles_append.1 placed.tiles).2
  ends := by
    rw [placed.ends, textOf_append, List.length_append]
    omega

theorem placed_lexemes (source : Text) : Placed (endToken source) 0 (lexemes source) where
  tiles := tiles_lexemes source
  ends := by rw [start_endToken, textOf_lexemes, Nat.zero_add]

/-! ## Readers and their tokens -/

theorem reads_yields {p : EtsParser α} {a : α} (reads : Reads closing p ts a rest) (P : α → Prop)
    (yields : Yields p P) : P a := by
  have known := yields { rest := ts, closing, errors := [] }
  rwa [reads] at known

/-- The reader moves forward and, where it runs silently, what it gives and the tokens
it takes satisfy `P`. -/
structure Gives (closing : Tok) (p : EtsParser α) (P : Nat → List Tok → α → Prop) : Prop where
  forward : Forward p
  silent {place : Nat} {ts : List Tok} {a : α} {rest : List Tok} (placed : Placed closing place ts)
    (reads : Reads closing p ts a rest) : ∃ own, ts = own ++ rest ∧ P place own a

section

variable {P : Nat → List Tok → α → Prop} {R : Nat → List Tok → β → Prop}

theorem Gives.bind {p : EtsParser α} {f : α → EtsParser β} {Q : α → Nat → List Tok → β → Prop}
    (first : Gives closing p P) (second : ∀ a, Gives closing (f a) (Q a))
    (joined : ∀ {place own a more b}, P place own a →
      Q a (place + (textOf own).length) more b → R place (own ++ more) b) :
    Gives closing (p >>= f) R := by
  have here := first.forward
  have there := fun a => (second a).forward
  refine ⟨inferInstance, ?_⟩
  intro place ts b rest placed reads
  obtain ⟨a, between, here, later⟩ := reads_bind.1 reads
  obtain ⟨own, rfl, known⟩ := first.silent placed here
  obtain ⟨more, rfl, also⟩ := (second a).silent placed.right later
  exact ⟨own ++ more, by rw [List.append_assoc], joined known also⟩

theorem gives_pure {a : α} (holds : ∀ place, P place [] a) : Gives closing (pure a) P := by
  refine ⟨inferInstance, ?_⟩
  intro place ts b rest placed reads
  obtain ⟨rfl, rfl⟩ := reads_pure.1 reads
  exact ⟨[], rfl, holds place⟩

theorem gives_ite {condition : Prop} [Decidable condition] {p q : EtsParser α}
    (holds : Gives closing p P) (fails : Gives closing q P) :
    Gives closing (if condition then p else q) P := by
  split
  · exact holds
  · exact fails

/-- What holds of every result holds of silent ones. -/
theorem gives_of_yields {p : EtsParser α} [forward : Forward p] {K : α → Prop}
    (yields : Yields p K) (known : ∀ {place own a}, K a → P place own a) : Gives closing p P := by
  refine ⟨forward, ?_⟩
  intro place ts a rest placed reads
  obtain ⟨own, split⟩ := reads.suffix
  exact ⟨own, split.symm, known (reads_yields reads K yields)⟩

/-- A report is never silent, whatever comes after it. -/
theorem gives_report {cause : Problem} {f : Unit → EtsParser α} (later : ∀ u, Forward (f u)) :
    Gives closing (report cause >>= f) P :=
  ⟨inferInstance, fun _ reads => absurd reads not_reads_report_bind⟩

/-- Tokens in front do not matter to `R`. -/
def Prepends (R : Nat → List Tok → β → Prop) : Prop :=
  ∀ {place front own b}, R (place + (textOf front).length) own b → R place (front ++ own) b

/-- What is read first does not matter. -/
theorem Gives.after (prepends : Prepends R) {p : EtsParser α} [Forward p] {f : α → EtsParser β}
    (later : ∀ a, Gives closing (f a) R) : Gives closing (p >>= f) R := by
  have any : Gives closing p fun _ _ _ => True :=
    gives_of_yields (K := fun _ => True) (fun _ => trivial) fun known => known
  exact any.bind later fun _ given => prepends given

/-- What a silent reader always finds need not be missed by the next step. -/
theorem Gives.found (prepends : Prepends R) {p : EtsParser (Option α)}
    {f : Option α → EtsParser β} (first : Gives closing p fun _ _ a? => a?.isSome = true)
    (missing : Forward (f none)) (later : ∀ a, Gives closing (f (some a)) R) :
    Gives closing (p >>= f) R := by
  have here := first.forward
  have there : ∀ a?, Forward (f a?)
    | none => missing
    | some a => (later a).forward
  refine ⟨inferInstance, ?_⟩
  intro place ts b rest placed reads
  obtain ⟨a?, between, here, next⟩ := reads_bind.1 reads
  obtain ⟨front, rfl, isSome⟩ := first.silent placed here
  obtain ⟨a, rfl⟩ := Option.isSome_iff_exists.1 isSome
  obtain ⟨own, rfl, given⟩ := (later a).silent placed.right next
  exact ⟨front ++ own, by rw [List.append_assoc], prepends given⟩

end

/-- A silent sequence, for continuations whose moving forward is shown on the spot. -/
theorem reads_split {p : EtsParser α} {f : α → EtsParser β} [Forward p] {b : β}
    (reads : Reads closing (p >>= f) ts b rest) (later : ∀ a, Forward (f a)) :
    ∃ a between, Reads closing p ts a between ∧ Reads closing (f a) between b rest ∧
      rest <:+ between := by
  obtain ⟨a, between, here, there⟩ := reads_bind.1 reads
  exact ⟨a, between, here, there, there.suffix⟩

/-! ## Steps -/

/-- A token of some class comes next, and the closing token is of none. -/
theorem exists_cons_of_ahead (eof : closing.kind = .eof) {p : Tok → Bool}
    (fails : ∀ t : Tok, t.kind = .eof → p t = false) (holds : p (ahead closing ts) = true) :
    ∃ t left, ts = t :: left ∧ p t = true := by
  cases ts with
  | nil => rw [ahead_nil, fails closing eof] at holds; cases holds
  | cons t left => exact ⟨t, left, rfl, holds⟩

theorem isSymbol_of_eof {symbol : String} (t : Tok) (eof : t.kind = .eof) :
    isSymbol symbol t = false := by
  simp [isSymbol, isSymbolToken, eof]

theorem isWordOf_of_eof {words : List String} (t : Tok) (eof : t.kind = .eof) :
    isWordOf words t = false := by
  simp [isWordOf, isNameToken, eof]

theorem reads_skipTrivia_bind {f : Nat → EtsParser α} {a : α} :
    Reads closing (skipTrivia >>= f) ts a rest ↔
      Reads closing (f ((ts.takeWhile isTriviaToken).countP (·.kind == .newline)))
        (ts.dropWhile isTriviaToken) a rest :=
  Iff.rfl

theorem reads_atWord_bind {words : List String} {f : Bool → EtsParser α} {a : α} :
    Reads closing (atWord words >>= f) ts a rest ↔
      Reads closing (f (isWordOf words (ahead closing ts))) ts a rest :=
  Iff.rfl

theorem reads_atSymbol_bind {symbol : String} {f : Bool → EtsParser α} {a : α} :
    Reads closing (atSymbol symbol >>= f) ts a rest ↔
      Reads closing (f (isSymbol symbol (ahead closing ts))) ts a rest :=
  Iff.rfl

/-- A symbol that is taken or not. -/
theorem reads_takeSymbol_bind (eof : closing.kind = .eof) {symbol : String} {f : Bool → EtsParser α}
    {a : α} (reads : Reads closing (takeSymbol symbol >>= f) ts a rest) :
    (∃ t left, ts = t :: left ∧ isSymbol symbol t = true ∧ Reads closing (f true) left a rest) ∨
      (isSymbol symbol (ahead closing ts) = false ∧ Reads closing (f false) ts a rest) := by
  have run : (if isSymbol symbol (ahead closing ts) = true then
      f true { rest := ts.tail, closing, errors := [] }
    else f false { rest := ts, closing, errors := [] }) = (a, { rest, closing, errors := [] }) := by
    rw [← reads]
    show _ = f ((takeSymbol symbol : EtsParser Bool) _).1 ((takeSymbol symbol : EtsParser Bool) _).2
    have taken : (takeSymbol symbol : EtsParser Bool) { rest := ts, closing, errors := [] } =
        if isSymbol symbol (ahead closing ts) = true then
          (true, { rest := ts.tail, closing, errors := [] })
        else (false, { rest := ts, closing, errors := [] }) := by
      show (if isSymbol symbol (ahead closing ts) = true then _ else _ : EtsParser Bool) _ = _
      split <;> rfl
    rw [taken]
    split <;> rfl
  split at run
  · rename_i here
    obtain ⟨t, left, rfl, found⟩ := exists_cons_of_ahead eof isSymbol_of_eof here
    exact .inl ⟨t, left, rfl, found, run⟩
  · rename_i missing
    exact .inr ⟨by simpa using missing, run⟩

theorem reads_trailingComment? {found : Option Text}
    (reads : Reads closing trailingComment? ts found rest) :
    (found = none ∧ rest = ts) ∨ ∃ blanks t, ts = blanks ++ t :: rest ∧
      (∀ b ∈ blanks, b.kind = .whitespace) ∧ isTrailingComment t = true ∧ found = some t.text := by
  have split : ts = ts.takeWhile (·.kind == .whitespace) ++ ts.dropWhile (·.kind == .whitespace) :=
    List.takeWhile_append_dropWhile.symm
  rw [trailingComment?, reads_remaining_bind] at reads
  cases later : ts.dropWhile (·.kind == .whitespace) with
  | nil =>
      rw [later] at reads
      exact .inl (reads_pure.1 reads)
  | cons t left =>
      rw [later] at reads split
      by_cases isTrailing : isTrailingComment t = true
      · simp only [isTrailing, if_true] at reads
        obtain ⟨rfl, rfl⟩ : found = some t.text ∧ rest = left := by
          have run := reads
          simp only [Reads] at run
          exact ⟨(congrArg Prod.fst run).symm, (congrArg (fun r => r.2.rest) run).symm⟩
        refine .inr ⟨_, t, split, fun b member => ?_, isTrailing, rfl⟩
        simpa using List.mem_takeWhile_imp member
      · simp only [isTrailing, Bool.false_eq_true, if_false] at reads
        exact .inl (reads_pure.1 reads)

/-- A node in its surroundings has the place of what was read since `start`, and takes
the comment behind it. -/
theorem reads_surrounded {start : Tok} {newlines : Nat} {n m : Node}
    (reads : Reads closing (surrounded start newlines n) ts m rest) :
    ∃ trail a, ts = trail ++ rest ∧ m = n.withAround a ∧ Trails m trail ∧
      ∃ span, m.around.span = some span ∧ span.start = start.start ∧
        span.stop = (ahead closing ts).start := by
  rw [surrounded, reads_bind] at reads
  obtain ⟨span, between, here, later⟩ := reads
  obtain ⟨rfl, rfl⟩ : span = _ ∧ between = ts := reads_pure.1 (reads_current_bind.1 here)
  obtain ⟨found, left, comment, ends⟩ := reads_bind.1 later
  obtain ⟨rfl, rfl⟩ := reads_pure.1 ends
  rcases reads_trailingComment? comment with ⟨rfl, rfl⟩ | ⟨blanks, t, rfl, blank, trailing, rfl⟩
  · exact ⟨[], _, rfl, rfl, .nothing (by simp), _,
      congrArg Surroundings.span (around_withAround _ _), rfl, rfl⟩
  · exact ⟨blanks ++ [t], _, by simp, rfl, .comment blank trailing (by simp), _,
      congrArg Surroundings.span (around_withAround _ _), rfl, rfl⟩

/-- Read since the tokens `own`, the node stands for them. -/
theorem stands_of_surrounded {inside : Nat → List Tok → Node → Prop} {place newlines : Nat}
    {own : List Tok} {n m : Node} (placed : Placed closing place (own ++ ts)) (some : own ≠ [])
    (reads : Reads closing (surrounded (ahead closing (own ++ ts)) newlines n) ts m rest)
    (holds : ∀ a, inside place own (n.withAround a)) :
    ∃ trail, ts = trail ++ rest ∧ Stands inside place own trail m := by
  obtain ⟨trail, a, split, rfl, trails, span, found, starts, stops⟩ := reads_surrounded reads
  refine ⟨trail, split, some, ⟨span, found, ?_, ?_⟩, trails, holds a⟩
  · rw [starts, placed.start_ahead]
  · rw [stops, placed.right.start_ahead]

/-! ## Readers that take something -/

/-- A silent run of the reader in front of some token takes a token. -/
def Takes (closing : Tok) (p : EtsParser α) : Prop :=
  ∀ {ts : List Tok} {a : α} {rest : List Tok}, Reads closing p ts a rest → ts ≠ [] →
    rest.length < ts.length

theorem takes_advance : Takes closing advance := by
  intro ts a rest reads some
  obtain ⟨rfl, rfl⟩ : a = ahead closing ts ∧ rest = ts.tail := reads_pure.1 reads
  cases ts with
  | nil => exact absurd rfl some
  | cons t ts => exact Nat.lt_succ_self _

theorem Takes.bind {p : EtsParser α} {f : α → EtsParser β} [Forward p] (takes : Takes closing p)
    (later : ∀ a, Forward (f a)) : Takes closing (p >>= f) := by
  intro ts b rest reads some
  obtain ⟨a, between, here, -, suffix⟩ := reads_split reads later
  exact Nat.lt_of_le_of_lt suffix.length_le (takes here some)

/-- What a round of a loop over decorators or modifiers does: it stops where it is, or
gives an item for the token that comes next and perhaps more. -/
def StopsOrTakes {ι : Type} (ts : List Tok) (r : Round ι) (rest : List Tok) : Prop :=
  (r = .stop ∧ rest = ts) ∨ ∃ item t left, r = .next item ∧ ts = t :: left ∧ rest <:+ left

theorem reads_decoratorRound (eof : closing.kind = .eof) {r : Round Decorator}
    (reads : Reads closing decoratorRound ts r rest) : StopsOrTakes ts r rest := by
  rw [decoratorRound, reads_looking_bind] at reads
  split at reads
  · rename_i isDecorator
    obtain ⟨t, left, rfl, -⟩ := exists_cons_of_ahead eof (p := fun t => t.kind == .decorator)
      (fun t eof => by simp [eof]) isDecorator
    rw [reads_advance_bind] at reads
    obtain ⟨d, rfl⟩ : ∃ d, r = .next d := by
      refine reads_yields reads (fun r => ∃ d, r = .next d) (yields_bind fun opens => ?_)
      split_ifs
      · exact yields_bind fun _ => yields_bind fun _ => yields_pure ⟨_, rfl⟩
      · exact yields_bind fun _ => yields_bind fun _ => yields_pure ⟨_, rfl⟩
    exact .inr ⟨d, t, left, rfl, rfl, reads.suffix⟩
  · exact .inl (reads_pure.1 reads)

theorem reads_modifierRound (eof : closing.kind = .eof) {allowed : List String} {r : Round Text}
    (reads : Reads closing (modifierRound allowed) ts r rest) : StopsOrTakes ts r rest := by
  rw [modifierRound, reads_atWord_bind, reads_bind] at reads
  obtain ⟨next, between, here, later⟩ := reads
  obtain ⟨-, rfl⟩ : next = _ ∧ between = ts := reads_pure.1 here
  split at later
  · rename_i isModifier
    obtain ⟨t, left, rfl, -⟩ := exists_cons_of_ahead eof isWordOf_of_eof
      (Bool.and_eq_true_iff.1 isModifier).1
    rw [reads_advance_bind] at later
    obtain ⟨word, rfl⟩ : ∃ word, r = .next word :=
      reads_yields later (fun r => ∃ word, r = .next word)
        (yields_bind fun _ => yields_pure ⟨_, rfl⟩)
    exact .inr ⟨word, t, left, rfl, rfl, later.suffix⟩
  · exact .inl (reads_pure.1 later)

/-- A loop of such rounds that gives nothing has taken nothing. -/
theorem eq_of_reads_collect_nil {ι : Type} {round : EtsParser (Round ι)} [Forward round]
    (step : ∀ {ts : List Tok} {r : Round ι} {rest : List Tok}, Reads closing round ts r rest →
      StopsOrTakes ts r rest)
    (reads : Reads closing (collect round) ts [] rest) : rest = ts := by
  have consumes : Consumes closing round := by
    intro ts r rest here goesOn
    rcases step here with ⟨rfl, -⟩ | ⟨item, t, left, -, rfl, suffix⟩
    · cases goesOn
    · exact Nat.lt_succ_of_le suffix.length_le
  cases (reads_collect consumes).1 reads with
  | stop here =>
      rcases step here with ⟨-, same⟩ | ⟨item, t, left, impossible, -⟩
      · exact same
      · cases impossible
  | skip here later =>
      rcases step here with ⟨impossible, -⟩ | ⟨item, t, left, impossible, -⟩ <;> cases impossible

theorem eq_of_reads_parseDecorators (eof : closing.kind = .eof)
    (reads : Reads closing parseDecorators ts [] rest) : rest = ts :=
  eq_of_reads_collect_nil (reads_decoratorRound eof) reads

theorem eq_of_reads_parseModifiers (eof : closing.kind = .eof) {allowed : List String}
    (reads : Reads closing (parseModifiers allowed) ts [] rest) : rest = ts :=
  eq_of_reads_collect_nil (reads_modifierRound eof) reads

/-! ## Members -/

theorem balancedCount_pos (opening closes : Text) (depth : Nat) (t : Tok) (ts : List Tok) :
    0 < balancedCount opening closes depth (t :: ts) := by
  rw [balancedCount]
  split <;> omega

theorem takes_readBalanced (opening closes : Text) : Takes closing (readBalanced opening closes) := by
  intro ts text rest reads some
  obtain ⟨tokens, between, here, ends⟩ := reads_bind.1 (reads_remaining_bind.1 reads)
  obtain ⟨rfl, rfl⟩ := reads_pure.1 ends
  obtain ⟨-, rfl⟩ : tokens = _ ∧ rest = _ := reads_pure.1 here
  cases ts with
  | nil => exact absurd rfl some
  | cons t ts =>
      have counts := balancedCount_pos opening closes 0 t ts
      simp only [List.length_drop, List.length_cons]
      omega

/-- Something was found and tokens taken for it, or nothing was found and nothing
taken. -/
def FindsOrStays (ts : List Tok) (found : Option α) (rest : List Tok) : Prop :=
  (found = none ∧ rest = ts) ∨ (found.isSome = true ∧ rest.length < ts.length)

theorem reads_memberName? (eof : closing.kind = .eof) {name? : Option Text}
    (reads : Reads closing memberName? ts name? rest) : FindsOrStays ts name? rest := by
  rw [memberName?, reads_current_bind] at reads
  split at reads
  · rename_i isName
    obtain ⟨t, left, rfl, -⟩ := exists_cons_of_ahead eof
      (p := fun t => isNameToken t || t.kind == .string || t.kind == .number)
      (fun t eof => by simp [isNameToken, eof]) isName
    rw [reads_advance_bind] at reads
    obtain ⟨rfl, rfl⟩ := reads_pure.1 reads
    exact .inr ⟨rfl, Nat.lt_succ_self _⟩
  · split at reads
    · rename_i isBracket
      obtain ⟨t, left, rfl, -⟩ := exists_cons_of_ahead eof isSymbol_of_eof isBracket
      obtain ⟨text, here, rfl⟩ := reads_map.1 reads
      exact .inr ⟨rfl, takes_readBalanced _ _ here (List.cons_ne_nil t left)⟩
    · exact .inl (reads_pure.1 reads)

/-- A reader that goes back to its start when its second step finds nothing. -/
theorem reads_orBack {p : EtsParser (Option α)} {f : Option α → EtsParser β} {g : α → β} {none' : β}
    {found : β} (reads : Reads closing (p >>= f) ts found rest)
    (given : ∀ a, f (some a) = pure (g a))
    (missing : f none = (do continueAt ts; return none')) :
    (found = none' ∧ rest = ts) ∨ ∃ a, found = g a ∧ Reads closing p ts (some a) rest := by
  obtain ⟨a?, s, here⟩ : ∃ a? s, p { rest := ts, closing, errors := [] } = (a?, s) := ⟨_, _, rfl⟩
  have run : f a? s = (found, { rest, closing, errors := [] }) := by
    have whole : f (p { rest := ts, closing, errors := [] }).1
        (p { rest := ts, closing, errors := [] }).2 = (found, { rest, closing, errors := [] }) := reads
    rwa [here] at whole
  cases a? with
  | none =>
      rw [missing] at run
      exact .inl ⟨(congrArg Prod.fst run).symm, (congrArg (fun r => r.2.rest) run).symm⟩
  | some a =>
      rw [given] at run
      refine .inr ⟨a, (congrArg Prod.fst run).symm, ?_⟩
      rw [Reads, here]
      exact congrArg (some a, ·) (congrArg Prod.snd run)

theorem reads_parseBuild? (eof : closing.kind = .eof) {decorators : List Decorator}
    {found : Option Node} (reads : Reads closing (parseBuild? decorators) ts found rest) :
    FindsOrStays ts found rest := by
  rw [parseBuild?, reads_atWord_bind] at reads
  split at reads
  · rename_i isBuild
    obtain ⟨t, left, rfl, -⟩ := exists_cons_of_ahead eof isWordOf_of_eof isBuild
    rw [reads_remaining_bind] at reads
    rcases reads_orBack reads (fun _ => rfl) rfl with stays | ⟨body, rfl, here⟩
    · exact .inl stays
    · have takes : Takes closing buildBody? := takes_advance.bind fun _ =>
        forward_then fun _ => forward_then fun _ => inferInstance
      exact .inr ⟨rfl, takes here (List.cons_ne_nil t left)⟩
  · exact .inl (reads_pure.1 reads)

/-- A member without a name is silent only where nothing stands in front of it. -/
theorem reads_parseNamedMember (eof : closing.kind = .eof) {decorators : List Decorator}
    {found : Option Node} (reads : Reads closing (parseNamedMember decorators) ts found rest) :
    FindsOrStays ts found rest ∧ (found = none → decorators = []) := by
  obtain ⟨modifiers, between, words, reads, -⟩ := reads_split reads fun modifiers =>
    forward_then fun name? => by cases name? <;> dsimp only <;> infer_instance
  obtain ⟨name?, left, named, later, -⟩ := reads_split reads fun name? => by
    cases name? <;> dsimp only <;> infer_instance
  rcases reads_memberName? eof named with ⟨rfl, rfl⟩ | ⟨isSome, shorter⟩
  · dsimp only at later
    split at later
    · exact absurd later not_reads_report_bind
    · rename_i none
      obtain ⟨rfl, rfl⟩ := reads_pure.1 later
      simp only [Bool.not_eq_true, Bool.not_eq_false', Bool.and_eq_true, List.isEmpty_iff] at none
      obtain ⟨rfl, rfl⟩ := none
      exact ⟨.inl ⟨rfl, eq_of_reads_parseModifiers eof words⟩, fun _ => rfl⟩
  · obtain ⟨name, rfl⟩ := Option.isSome_iff_exists.1 isSome
    obtain ⟨n, here, rfl⟩ := reads_map.1 later
    refine ⟨.inr ⟨rfl, ?_⟩, nofun⟩
    exact Nat.lt_of_le_of_lt here.length_le (Nat.lt_of_lt_of_le shorter words.length_le)

/-- A silent reader of members finds one or stays where it is. -/
theorem reads_parseMember (eof : closing.kind = .eof) {found : Option Node}
    (reads : Reads closing parseMember ts found rest) : FindsOrStays ts found rest := by
  obtain ⟨decorators, between, marks, reads, -⟩ := reads_split reads fun decorators =>
    forward_then fun build? => by cases build? <;> infer_instance
  obtain ⟨build?, left, build, later, -⟩ := reads_split reads fun build? => by
    cases build? <;> infer_instance
  rcases reads_parseBuild? eof build with ⟨rfl, rfl⟩ | ⟨isSome, shorter⟩
  · obtain ⟨⟨rfl, rfl⟩ | ⟨isSome, shorter⟩, bare⟩ := reads_parseNamedMember eof later
    · obtain rfl := bare rfl
      exact .inl ⟨rfl, eq_of_reads_parseDecorators eof marks⟩
    · exact .inr ⟨isSome, Nat.lt_of_lt_of_le shorter marks.length_le⟩
  · obtain ⟨n, rfl⟩ := Option.isSome_iff_exists.1 isSome
    obtain ⟨rfl, rfl⟩ := reads_pure.1 later
    exact .inr ⟨rfl, Nat.lt_of_lt_of_le shorter marks.length_le⟩

end UiFormat.Ets

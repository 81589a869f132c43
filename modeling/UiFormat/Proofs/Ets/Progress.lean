/-
# UiFormat.Proofs.Ets.Progress -- every round takes a token or ends its loop

The loops of the parser have no common measure: a member that was not found, a parameter
that overshoots its list and a token that starts no declaration are each passed over in a
way of their own.  Here is, reader by reader, that it leaves fewer tokens than before
whenever it reports success (`Below`), and from that for each round that it does so
whenever the loop goes on.

Nothing depends on the errors reported.  All that is asked of a state is that its closing
token is an end token, which no test of the parser takes for anything else (`Within`).
-/
import UiFormat.Proofs.Ets.NodeLayout
import UiFormat.Proofs.Parse.Progress

namespace UiFormat.Parse

open UiFormat.Ets

set_option autoImplicit false

/-! The tests of the parser only look. -/

section

variable {α : Type} {n : Nat} {s : State Kind Problem} {found : α → Bool}
  {f : Bool → EtsParser α}

theorem Below.atSymbol {symbol : String} (later : Below n found (f (isSymbol symbol s.current)) s) :
    Below n found (Ets.atSymbol symbol >>= f) s :=
  later

theorem Below.atWord {words : List String} (later : Below n found (f (isWordOf words s.current)) s) :
    Below n found (Ets.atWord words >>= f) s :=
  later

theorem Below.isBefore {stop : Nat} (later : Below n found (f (decide (stop < s.rest.length))) s) :
    Below n found (Ets.isBefore stop >>= f) s :=
  later

theorem Below.atWords {first second : String}
    (yes : isWordOf [first] s.current = true → Below n found (f true) s)
    (no : Below n found (f false) s) : Below n found (Ets.atWords first second >>= f) s := by
  refine .step fun both t run => ?_
  have whole : (Ets.atWords first second : EtsParser Bool) s =
      (isWordOf [first] s.current &&
        (nextSignificant s.closing s.rest.tail).text == second.toList, s) := by
    show (if isWordOf [first] s.current = true then _ else _ : EtsParser Bool) s = _
    cases isWordOf [first] s.current <;> rfl
  rw [whole] at run
  obtain ⟨rfl, rfl⟩ := Prod.mk.inj run
  cases word : isWordOf [first] s.current with
  | false => exact no
  | true =>
      cases (nextSignificant s.closing s.rest.tail).text == second.toList with
      | false => exact no
      | true => exact yes word

end

end UiFormat.Parse

namespace UiFormat.Ets

open UiFormat.Text
open UiFormat.Parse

variable {α β : Type} {n : Nat} {s t : State Kind Problem}

/-! ## Tokens left -/

/-- At most `n` tokens are left, in front of an end token. -/
structure Within (n : Nat) (s : State Kind Problem) : Prop where
  eof : s.closing.kind = .eof
  le : s.rest.length ≤ n

theorem Within.follow (within : Within n s) (follows : Follows s t) : Within n t where
  eof := by
    rw [follows.closing_eq]
    exact within.eof
  le := follows.rest_suffix.length_le.trans within.le

theorem follows_of_run {p : EtsParser α} [Forward p] {a : α} (run : p s = (a, t)) :
    Follows s t := by
  have follows := follows_run p s
  rwa [run] at follows

/-! ## Single tokens -/

/-- A test that end tokens fail tells that a token is left. -/
theorem Within.filled (within : Within n s) {q : Tok → Bool}
    (fails : ∀ t : Tok, t.kind = .eof → q t = false) (passes : q s.current = true) :
    s.rest ≠ [] :=
  filled_of_test (fails s.closing within.eof) passes

/-- Reading a stretch that is not empty takes tokens. -/
theorem drop_lt {ts : List Tok} {count : Nat} (filled : ts ≠ []) (counts : 0 < count)
    (le : ts.length ≤ n) : (ts.drop count).length < n := by
  have some := List.length_pos_iff.2 filled
  rw [List.length_drop]
  omega

theorem TakesFirst.below {p : EtsReader α} (takes : TakesFirst p) {found : α → Bool}
    (filled : s.rest ≠ []) (le : s.rest.length ≤ n) : Below n found p s := by
  obtain ⟨g, f, -, plain, later⟩ := takes
  have below : Below n found (advance >>= f) s := below_advance filled le
  rwa [← plain] at below

theorem ne_nil_of_length_eq {a b : List Tok} (filled : a ≠ []) (same : b.length = a.length) :
    b ≠ [] :=
  List.length_pos_iff.1 (same ▸ List.length_pos_iff.2 filled)

/-- A word comes next only when it is a token that is left. -/
theorem Within.exists_word (within : Within n s) (isName : isNameToken s.current = true) :
    ∃ t left, s.rest = t :: left ∧ isNameToken t = true := by
  have filled : s.rest ≠ [] := by
    refine within.filled ?_ isName
    intro t eof
    simp [isNameToken, eof]
  obtain ⟨t, left, split⟩ := List.exists_cons_of_ne_nil filled
  rw [State.current, split] at isName
  exact ⟨t, left, split, isName⟩

/-- A symbol that was taken is a token less; one that was not leaves everything. -/
theorem takeSymbol_cases (within : Within n s) {symbol : String} {taken : Bool}
    (run : (takeSymbol symbol : EtsParser Bool) s = (taken, t)) :
    (taken = true ∧ t.rest.length < n) ∨ (taken = false ∧ t = s) := by
  have whole : (takeSymbol symbol : EtsParser Bool) s =
      if isSymbol symbol s.current = true then (true, ((advance : EtsParser Tok) s).2)
      else (false, s) := by
    show (if isSymbol symbol s.current = true then _ else _ : EtsParser Bool) s = _
    split <;> rfl
  rw [whole] at run
  split at run
  · rename_i here
    cases run
    exact .inl ⟨rfl, advance_lt (within.filled isSymbol_of_eof here) within.le⟩
  · cases run
    exact .inr ⟨rfl, rfl⟩

/-! ## Decorators, modifiers and types -/

theorem below_decoratorRound (within : Within n s) : Below n Round.goesOn decoratorRound s := by
  refine .looking (.ite (fun isDecorator => below_advance ?_ within.le) fun _ => below_pure rfl)
  refine within.filled (q := fun t => t.kind == .decorator) ?_ isDecorator
  intro t eof
  simp [eof]

theorem below_modifierRound (within : Within n s) (allowed : List String) :
    Below n Round.goesOn (modifierRound allowed) s := by
  refine .atWord (.step fun next t run => ?_)
  obtain ⟨rfl, rfl⟩ : nextSignificant s.closing s.rest.tail = next ∧ s = t := Prod.mk.inj run
  refine .ite (fun isModifier => below_advance ?_ within.le) fun _ => below_pure rfl
  exact within.filled isWordOf_of_eof (Bool.and_eq_true_iff.1 isModifier).1

theorem below_typeListRound (within : Within n s) : Below n Round.goesOn typeListRound s := by
  refine .step fun taken t run => ?_
  rcases takeSymbol_cases within run with ⟨rfl, less⟩ | ⟨rfl, rfl⟩
  · exact below_of_lt less
  · exact below_pure rfl

theorem below_heritageRound (within : Within n s) (found : Option Text × List Text) :
    Below n Option.isSome (heritageRound found) s := by
  refine .step fun _ t run => .atWord (.ite (fun isParent => ?_) fun _ => .atWord (.ite ?_ ?_))
  · have spaced := within.follow (follows_of_run run)
    exact below_advance (spaced.filled isWordOf_of_eof isParent) spaced.le
  · intro isList
    have spaced := within.follow (follows_of_run run)
    exact below_advance (spaced.filled isWordOf_of_eof isList) spaced.le
  · intro _
    exact below_pure rfl

/-! ## Parameters -/

/-- Skipping to a delimiter leaves fewer tokens than there were when the parameter
started. -/
theorem below_skipToDelimiter {start : Nat} (stop : Nat) (le : s.rest.length ≤ start)
    (some : 0 < start) : Below start (fun _ => true) (skipToDelimiter stop start) s := by
  refine .remaining (.step fun _ t run => .remaining ?_)
  have skipped : t.rest.length ≤ start := by
    obtain ⟨-, rfl⟩ := Prod.mk.inj run
    simp only [List.length_drop]
    omega
  refine .ite (fun same => below_advance (fun empty => ?_) skipped) fun other => ?_
  · rw [empty] at same
    exact absurd same.symm (Nat.ne_of_gt some)
  · exact below_of_lt (by omega)

/-- After a parameter the loop stands further on than before it: behind a comma, at a
parenthesis that was not there, behind the end of the list, or where it was moved to. -/
theorem below_parameterEnd {stop : Nat} (within : Within n s) (follows : Follows s t)
    (filled : s.rest ≠ []) (inside : isSymbol ")" s.current = false) (before : stop < n) :
    Below n (fun _ => true) (parameterEnd stop s.rest.length) t := by
  refine .step fun _ u spaced => .step fun taken v run => ?_
  have reached := follows.trans (follows_of_run spaced)
  rcases takeSymbol_cases (within.follow reached) run with ⟨rfl, less⟩ | ⟨rfl, rfl⟩
  · exact below_of_lt less
  · refine .atSymbol (.isBefore (.ite (fun _ => .step fun _ w reported => ?_) fun done _ => ?_))
    · have moved := reached.trans (follows_of_run reported)
      have some := List.length_pos_iff.2 filled
      intro isFound
      exact Nat.lt_of_lt_of_le
        (below_skipToDelimiter stop moved.rest_suffix.length_le some isFound) within.le
    · show v.rest.length < n
      by_cases closes : isSymbol ")" v.current = true
      · by_contra notBelow
        have same : v.rest = s.rest := by
          refine reached.rest_suffix.eq_of_length ?_
          have shorter := reached.rest_suffix.length_le
          have most := within.le
          omega
        have current : v.current = s.current := by
          rw [State.current, State.current, same, reached.closing_eq]
        rw [current, inside] at closes
        cases closes
      · have behind : ¬ stop < v.rest.length := by simpa [closes] using done
        omega

theorem below_parameterRound (within : Within n s) (stop : Nat) :
    Below n Round.goesOn (parameterRound stop) s := by
  refine .isBefore (.ite (fun _ => below_pure rfl) fun before => .step fun _ t spaced => ?_)
  refine .atSymbol (.atEnd (.ite (fun _ => below_pure rfl) fun more => .remaining ?_))
  refine .step fun parameter u read => .step fun _ v ended => ?_
  have left : stop < n := by
    have some : stop < s.rest.length := by simpa using before
    exact Nat.lt_of_lt_of_le some within.le
  rw [Bool.or_eq_true, not_or, Bool.not_eq_true, List.isEmpty_iff] at more
  have less := (below_parameterEnd (within.follow (follows_of_run spaced)) (follows_of_run read)
    more.2 more.1 left).lt ended rfl
  cases parameter with
  | some parameter => exact below_of_lt less
  | none => exact below_of_lt less

/-! ## Members -/

theorem below_readBalanced {opening closes : Text} (filled : s.rest ≠ [])
    (le : s.rest.length ≤ n) : Below n (fun _ => true) (readBalanced opening closes) s := by
  intro _
  show (s.rest.drop (balancedCount opening closes 0 s.rest)).length < n
  obtain ⟨t, rest, split⟩ := List.exists_cons_of_ne_nil filled
  refine drop_lt filled ?_ le
  rw [split]
  exact balancedCount_pos opening closes 0 t rest

theorem below_parseBuild? (within : Within n s) (decorators : List Decorator) :
    Below n Option.isSome (parseBuild? decorators) s := by
  refine .atWord (.ite (fun isBuild => .remaining (.step fun body? t run => ?_)) fun _ =>
    below_pure rfl)
  cases body? with
  | none => exact .step fun _ _ _ => below_pure rfl
  | some body =>
      have below : Below n Option.isSome buildBody? s :=
        takesFirst_buildBody?.below (within.filled isWordOf_of_eof isBuild) within.le
      exact below_of_lt (below.lt run rfl)

theorem below_memberName? (within : Within n s) : Below n Option.isSome memberName? s := by
  refine .current (.ite (fun isName => below_advance ?_ within.le) fun _ =>
    .ite (fun opens => ?_) fun _ => below_pure rfl)
  · refine within.filled (q := fun t => isNameToken t || t.kind == .string || t.kind == .number)
      ?_ isName
    intro t eof
    simp [isNameToken, eof]
  · intro _
    exact below_readBalanced (within.filled isSymbol_of_eof opens) within.le rfl

theorem below_parseNamedMember (within : Within n s) (decorators : List Decorator) :
    Below n Option.isSome (parseNamedMember decorators) s := by
  refine .step fun modifiers t first => .step fun name? u run => ?_
  cases name? with
  | none =>
      exact .ite (fun _ => .step fun _ _ _ => below_pure rfl) fun _ => below_pure rfl
  | some name =>
      exact below_of_lt ((below_memberName? (within.follow (follows_of_run first))).lt run rfl)

/-- A member takes tokens. -/
theorem below_parseMember (within : Within n s) : Below n Option.isSome parseMember s := by
  refine .step fun decorators t first => .step fun build? u run => ?_
  have decorated := within.follow (follows_of_run first)
  cases build? with
  | some build => exact below_of_lt ((below_parseBuild? decorated decorators).lt run rfl)
  | none => exact below_parseNamedMember (decorated.follow (follows_of_run run)) decorators

theorem below_memberRound (within : Within n s) (what : Text) (brace : Tok) :
    Below n Round.goesOn (memberRound what brace) s := by
  refine .step fun newlines t first => .atEnd (.ite (fun _ => ?_) fun filled => ?_)
  · exact .step fun _ _ _ => below_pure rfl
  · have spaced := within.follow (follows_of_run first)
    rw [List.isEmpty_iff] at filled
    refine .step fun closes u run => ?_
    rcases takeSymbol_cases spaced run with ⟨rfl, -⟩ | ⟨rfl, rfl⟩
    · exact below_pure rfl
    · refine .current (.ite (fun _ => below_advance filled spaced.le) fun _ => .ite (fun _ => ?_)
        fun _ => ?_)
      · exact below_advance filled spaced.le
      · refine .remaining (.step fun member? v read => ?_)
        have reached := follows_of_run read
        cases member? with
        | some member => exact below_of_lt ((below_parseMember spaced).lt read rfl)
        | none =>
            refine .remaining (.ite (fun same => ?_) fun moved => ?_)
            · refine .step fun _ w reported => below_advance ?_ ?_
              · rw [rest_of_report reported]
                exact ne_nil_of_length_eq filled same
              · exact (spaced.follow (reached.trans (follows_of_run reported))).le
            · have shorter := reached.rest_suffix.length_le
              have most := spaced.le
              exact below_of_lt (by omega)

/-! ## Declarations -/

/-- An expression that begins with a word takes it. -/
theorem below_readExpression {stopAtComma : Bool} (within : Within n s)
    (isName : isNameToken s.current = true) :
    Below n (fun _ => true) (readExpression stopAtComma) s := by
  intro _
  obtain ⟨t, left, split, word⟩ := within.exists_word isName
  have noTrivia : s.rest.dropWhile isTriviaToken = s.rest := by
    rw [split]
    refine List.dropWhile_cons_of_neg ?_
    rcases kind_of_isNameToken word with kind | kind <;> simp [isTriviaToken, Kind.isTrivia, kind]
  show (List.drop (expressionCount stopAtComma s.closing 0 none (s.rest.dropWhile isTriviaToken))
    (s.rest.dropWhile isTriviaToken)).length < n
  rw [noTrivia]
  refine drop_lt (split ▸ List.cons_ne_nil t left) ?_ within.le
  rw [split]
  exact expressionCount_pos word stopAtComma

/-- A statement that begins with a word takes it. -/
theorem below_readStatement (within : Within n s) (isName : isNameToken s.current = true) :
    Below n (fun _ => true) readStatement s := by
  refine .remaining (.step fun text t read => ?_)
  have less := (below_readExpression within isName).lt read rfl
  have ends := tracked_after (·.kind == .whitespace) (isSymbol ";")
    (fun _ rest => textOf (s.rest.take (s.rest.length - rest.length))) text
  exact @below_of_lt _ _ _ _ _ _ _ ends.forward less

/-- A declaration takes tokens. -/
theorem below_parseDeclaration (within : Within n s) (decorators : List Decorator) :
    Below n Option.isSome (parseDeclaration decorators) s := by
  have filled : ∀ {words : List String}, isWordOf words s.current = true → s.rest ≠ [] :=
    fun isWord => within.filled isWordOf_of_eof isWord
  refine .atWord (.ite (fun isStruct => ?_) fun _ => .atWord (.ite (fun isClass => ?_) fun _ => ?_))
  · exact (takesFirst_parseStruct decorators).below (filled isStruct) within.le
  · exact (takesFirst_parseClass decorators false).below (filled isClass) within.le
  refine .atWords (fun isAbstract => below_advance (filled isAbstract) within.le) ?_
  refine .atWord (.ite (fun isInterface => ?_) fun _ => ?_)
  · exact takesFirst_parseInterface.below (filled isInterface) within.le
  refine .atWord (.ite (fun isFunction => ?_) fun _ => ?_)
  · exact (takesFirst_parseFunction decorators false).below (filled isFunction) within.le
  refine .atWords (fun isAsync => below_advance (filled isAsync) within.le) ?_
  refine .atWord (.ite (fun isStatement => .step fun text t read => ?_) fun _ => below_pure rfl)
  have word := (Bool.and_eq_true_iff.1 isStatement).1
  exact below_of_lt ((below_readStatement within (isNameToken_of_isWordOf word)).lt read rfl)

/-! ## Documents -/

/-- A loop whose first round takes tokens takes tokens. -/
theorem below_collect {round : EtsParser (Round α)} [Forward round]
    (goesOn : (round s).1.goesOn = true) (below : Below n Round.goesOn round s) :
    Below n (fun _ => true) (collect round) s := by
  intro _
  have less := below goesOn
  have rounds : collect round s = collectWithin round (s.rest.length + 1) s := rfl
  have later := follows_run (collectWithin round s.rest.length) (round s).2
  have shorter := later.rest_suffix.length_le
  rw [rounds, collectWithin_succ]
  cases ran : (round s).1 with
  | stop => exact less
  | last item => exact less
  | skip => exact Nat.lt_of_le_of_lt shorter less
  | next item => exact Nat.lt_of_le_of_lt shorter less

theorem decoratorRound_cases (s : State Kind Problem) :
    ((decoratorRound : EtsParser _) s).1.goesOn = true ∨
      (decoratorRound : EtsParser _) s = (.stop, s) := by
  have whole : (decoratorRound : EtsParser _) s =
      (if (s.current.kind == .decorator) = true then _ else pure .stop :
        EtsParser (Round Decorator)) s := rfl
  rw [whole]
  split
  · -- With arguments or without them, a decorator was read.
    left
    obtain ⟨t, isNext⟩ : ∃ t, t = ((advance : EtsParser Tok) s).2 := ⟨_, rfl⟩
    show ((if isSymbol "(" ((advance : EtsParser Tok) s).2.current = true then _ else _ :
      EtsParser (Round Decorator)) ((advance : EtsParser Tok) s).2).1.goesOn = true
    rw [← isNext]
    split <;> rfl
  · exact .inr rfl

/-- Decorators that were found are tokens less; none leave everything. -/
theorem parseDecorators_cases (within : Within n s) {decorators : List Decorator}
    (run : (parseDecorators : EtsParser _) s = (decorators, t)) :
    t.rest.length < n ∨ (decorators = [] ∧ t = s) := by
  rcases decoratorRound_cases s with goesOn | stops
  · exact .inl ((below_collect goesOn (below_decoratorRound within)).lt run rfl)
  · have rounds : (parseDecorators : EtsParser _) s =
        collectWithin (decoratorRound : EtsParser _) (s.rest.length + 1) s := rfl
    rw [rounds, collectWithin_succ, stops] at run
    cases run
    exact .inr ⟨rfl, rfl⟩

theorem below_parseImport (within : Within n s) (isName : isNameToken s.current = true) :
    Below n (fun _ => true) parseImport s := by
  intro _
  obtain ⟨t, left, split, word⟩ := within.exists_word isName
  show (List.drop (importCount s.closing 0 [] s.rest) s.rest).length < n
  refine drop_lt (split ▸ List.cons_ne_nil t left) ?_ within.le
  rw [split]
  exact importCount_pos word

/-- At the top level something is read, whatever comes next. -/
theorem below_parseTopLevel (within : Within n s) (filled : s.rest ≠ []) :
    Below n (fun _ => true) parseTopLevel s := by
  have declared := tracked_declared
  refine .current (.ite (fun _ => below_advance filled within.le) fun _ => ?_)
  refine .step fun taken t run => .ite (fun isTaken => ?_) fun notTaken => ?_
  · rcases takeSymbol_cases within run with ⟨-, less⟩ | ⟨rfl, -⟩
    · exact below_of_lt less
    · cases isTaken
  obtain rfl : t = s := by
    rcases takeSymbol_cases within run with ⟨rfl, -⟩ | ⟨-, same⟩
    · exact absurd rfl notTaken
    · exact same
  refine .step fun decorators u decorated => ?_
  rcases parseDecorators_cases within decorated with less | ⟨rfl, rfl⟩
  · exact below_of_lt less
  refine .atWord (.ite (fun isImport => ?_) fun _ => ?_)
  · have word := isNameToken_of_isWordOf (Bool.and_eq_true_iff.1 isImport).2
    refine .step fun node v read => ?_
    exact below_of_lt ((below_parseImport within word).lt read rfl)
  refine .atWord (.ite (fun isExport => ?_) fun _ => ?_)
  · have takes := (takesFirst_parseExport []).bind (f := fun node => pure (TopLevel.node node))
      fun node => tracked_pure (TopLevel.node node)
    exact takes.below (within.filled isWordOf_of_eof isExport) within.le
  · refine .remaining (.step fun found v read => ?_)
    have reached := follows_of_run read
    cases found with
    | some node => exact below_of_lt ((below_parseDeclaration within []).lt read rfl)
    | none =>
        refine .remaining (.ite (fun same => ?_) fun moved => below_of_lt ?_)
        · exact below_advance (ne_nil_of_length_eq filled same) (within.follow reached).le
        · have shorter := reached.rest_suffix.length_le
          have most := within.le
          omega

/-- An item of the document takes tokens, unless the document is at its end. -/
theorem below_documentRound (within : Within n s) : Below n Round.goesOn documentRound s := by
  refine .step fun newlines t spaced => .atEnd (.ite (fun _ => below_pure rfl) fun filled => ?_)
  refine .current (.step fun item u read => ?_)
  rw [List.isEmpty_iff] at filled
  have less := (below_parseTopLevel (within.follow (follows_of_run spaced)) filled).lt read rfl
  cases item <;> exact below_of_lt less

end UiFormat.Ets

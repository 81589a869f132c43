/-
# UiFormat.Proofs.Markup.ExprReading -- the expression parser reads its grammar

Each level of the parser reads exactly what the grammar derives at that level:
a silent run that gives `e` has consumed tokens that spell `e` and stops at a
token with which no such expression goes on, and every such spelling is read
(`reads_primary` up to `reads_assignment`).  Tied together over the nesting
limit this is `reads_expressionAt`, and with the height limit `reads_expression`.

The left operand of a binary operator or a postfix form is read before the loop
that extends it.  So the step from a derivation to a run takes the rest of the
loop as an argument (`exists_operand_of_derives`, `exists_atom_of_derives`).
-/
import UiFormat.Proofs.Markup.ExprGrammar
import Mathlib.Data.List.TakeWhile

namespace UiFormat.Markup

open UiFormat.Text
open UiFormat.Parse

set_option autoImplicit false

/-! ## The parsers move forward -/

instance forward_expectPunctuator (c : Char) : Forward (expectPunctuator c) := by
  unfold expectPunctuator; infer_instance

instance forward_expectOperator (c : Char) : Forward (expectOperator c) := by
  unfold expectOperator; infer_instance

instance forward_rejectToken (problem : Problem) : Forward (rejectToken problem) := by
  unfold rejectToken; infer_instance

section

variable {α : Type} (item : MarkupParser α) [Forward item]

instance forward_listRound (closing : Char) (what : String) :
    Forward (listRound closing what item) := by
  unfold listRound; infer_instance

instance forward_listBetween (opening closing : Char) (what : String) :
    Forward (listBetween opening closing what item) := by
  unfold listBetween; infer_instance

end

section

variable (nested : MarkupParser Expr) [Forward nested]

instance forward_objectKey : Forward (objectKey nested) := by
  unfold objectKey
  refine @forward_bind _ _ _ _ _ _ _ fun t => ?_
  split
  · infer_instance
  · split
    · infer_instance
    · split <;> infer_instance

instance forward_objectEntry : Forward (objectEntry nested) := by
  unfold objectEntry; infer_instance

instance forward_primary : Forward (primary nested) := by
  unfold primary
  refine @forward_bind _ _ _ _ _ _ _ fun t => ?_
  repeat' split
  all_goals infer_instance

instance forward_postfixRound (value : Expr) : Forward (postfixRound nested value) := by
  unfold postfixRound; infer_instance

instance forward_postfixed : Forward (postfixed nested) := by
  unfold postfixed; infer_instance

instance forward_unary : Forward (unary nested) := by
  unfold unary; infer_instance

instance forward_binaryRound (build : Expr → Text → Expr → Expr) (ops : List String)
    (left : Expr) : Forward (binaryRound build ops nested left) := by
  unfold binaryRound; infer_instance

instance forward_leftAssociative (build : Expr → Text → Expr → Expr) (ops : List String) :
    Forward (leftAssociative build ops nested) := by
  unfold leftAssociative; infer_instance

instance forward_logicalOr : Forward (logicalOr nested) := by
  unfold logicalOr logicalAnd equality relational additive multiplicative; infer_instance

instance forward_conditional : Forward (conditional nested) := by
  unfold conditional; infer_instance

instance forward_assignment : Forward (assignment nested) := by
  unfold assignment; infer_instance

end

instance forward_expressionAt (levels : Nat) : Forward (expressionAt levels) := by
  induction levels with
  | zero => unfold expressionAt; infer_instance
  | succ levels ih => unfold expressionAt; infer_instance

instance forward_expression : Forward expression := by
  unfold expression; infer_instance

/-! ## Lists, keys and entries -/

/-- The parser reads what `spells` derives, up to a token with which no
expression goes on. -/
structure ReadsAs (closing : Tok) (p : MarkupParser Expr) (spells : List Tok → Expr → Prop) :
    Prop where
  reads_iff (ts : List Tok) (e : Expr) (rest : List Tok) :
    Reads closing p ts e rest ↔
      ∃ toks, ts = toks ++ rest ∧ spells toks e ∧ Stops closing 1 rest
  starts {toks : List Tok} {e : Expr} (spelled : spells toks e) :
    ∃ t more, toks = t :: more ∧ startsExpression t = true

section

variable {closing : Tok} {ts rest : List Tok}

theorem isPunctuator_closing (eof : closing.kind = .eof) (c : Char) :
    isPunctuator c closing = false := by
  simp [isPunctuator, eof]

theorem isOperator_closing (eof : closing.kind = .eof) (op : String) :
    isOperator op closing = false := by
  simp [isOperator, eof]

theorem reads_expectPunctuator (eof : closing.kind = .eof) {c : Char} {u : Unit} :
    Reads closing (expectPunctuator c) ts u rest ↔
      ∃ t, ts = t :: rest ∧ isPunctuator c t = true := by
  rw [← ahead_and_tail_iff (isPunctuator_closing eof c), expectPunctuator, reads_looking_bind]
  by_cases passes : isPunctuator c (ahead closing ts) = true
  · rw [if_pos passes, reads_advance_bind, reads_pure]
    simp [passes]
  · rw [if_neg passes]
    simp [passes, not_reads_report]

theorem reads_expectOperator (eof : closing.kind = .eof) {c : Char} {u : Unit} :
    Reads closing (expectOperator c) ts u rest ↔
      ∃ t, ts = t :: rest ∧ isOperator (String.singleton c) t = true := by
  rw [← ahead_and_tail_iff (isOperator_closing eof _), expectOperator, reads_looking_bind]
  by_cases passes : isOperator (String.singleton c) (ahead closing ts) = true
  · rw [if_pos passes, reads_advance_bind, reads_pure]
    simp [passes]
  · rw [if_neg passes]
    simp [passes, not_reads_report]

/-- One round of a list: its end, or an item with or without a comma. -/
theorem reads_listRound {α : Type} {item : MarkupParser α} [Forward item] (eof : closing.kind = .eof)
    {close : Char} {what : String} {r : Round α} :
    Reads closing (listRound close what item) ts r rest ↔
      (isPunctuator close (ahead closing ts) = true ∧ r = .stop ∧ rest = ts) ∨
      (isPunctuator close (ahead closing ts) = false ∧ endsExpression (ahead closing ts) = false ∧
        ∃ x between, Reads closing item ts x between ∧
          ((∃ comma, between = comma :: rest ∧ isPunctuator ',' comma = true ∧ r = .next x) ∨
            (isPunctuator ',' (ahead closing between) = false ∧ rest = between ∧ r = .last x))) := by
  rw [listRound, reads_looking_bind]
  by_cases closes : isPunctuator close (ahead closing ts) = true
  · rw [if_pos closes, reads_pure]
    simp [closes]
  · rw [if_neg closes, reads_looking_bind]
    by_cases ends : endsExpression (ahead closing ts) = true
    · rw [if_pos ends]
      exact iff_of_false not_reads_report_bind (by simp [closes, ends])
    · rw [if_neg ends, reads_bind]
      simp only [closes, ends, Bool.not_eq_true] at *
      simp only [Bool.false_eq_true, false_and, false_or, true_and]
      refine exists_congr fun x => exists_congr fun between => and_congr_right fun _ => ?_
      rw [reads_looking_bind]
      by_cases isComma : isPunctuator ',' (ahead closing between) = true
      · rw [if_pos isComma, reads_advance_bind, reads_pure]
        have taken : (_ ↔ ∃ t, between = t :: rest ∧ isPunctuator ',' t = true) :=
          ahead_and_tail_iff (isPunctuator_closing eof ',')
        simp only [isComma, true_and] at taken
        simp only [isComma, Bool.true_eq_false, false_and, or_false, taken]
        constructor
        · rintro ⟨isNext, comma, split, passes⟩
          exact ⟨comma, split, passes, isNext⟩
        · rintro ⟨comma, split, passes, isNext⟩
          exact ⟨isNext, comma, split, passes⟩
      · rw [if_neg isComma, reads_pure]
        simp only [Bool.not_eq_true] at isComma
        simp only [isComma, true_and]
        constructor
        · rintro ⟨isLast, left⟩
          exact .inr ⟨left, isLast⟩
        · rintro (⟨comma, rfl, passes, -⟩ | ⟨left, isLast⟩)
          · simp [passes] at isComma
          · exact ⟨isLast, left⟩

/-- The parser reads the items `spells` derives, in front of a comma or of the
bracket `close`, and no item begins with that bracket. -/
structure ReadsItems {α : Type} (closing : Tok) (item : MarkupParser α)
    (spells : List Tok → α → Prop) (close : Char) : Prop where
  sound {ts : List Tok} {x : α} {rest : List Tok} (reads : Reads closing item ts x rest) :
    ∃ toks, ts = toks ++ rest ∧ spells toks x
  complete {toks : List Tok} {x : α} {t : Tok} {rest : List Tok} (spelled : spells toks x)
    (ends : isPunctuator ',' t = true ∨ isPunctuator close t = true) :
    Reads closing item (toks ++ t :: rest) x (t :: rest)
  starts {toks : List Tok} {x : α} (spelled : spells toks x) :
    ∃ t more, toks = t :: more ∧ isPunctuator close t = false ∧ endsExpression t = false

theorem consumes_listRound {α : Type} {item : MarkupParser α} [Forward item]
    (eof : closing.kind = .eof) (close : Char) (what : String) :
    Consumes closing (listRound close what item) := by
  intro ts r rest reads goesOn
  rcases (reads_listRound eof).1 reads with ⟨-, rfl, -⟩ | ⟨-, -, x, between, here, after⟩
  · exact absurd goesOn (by simp [Round.goesOn])
  · rcases after with ⟨comma, rfl, -, rfl⟩ | ⟨-, rfl, rfl⟩
    · exact here.length_le
    · exact absurd goesOn (by simp [Round.goesOn])

/-- The rounds of a list in front of its closing bracket read its items. -/
theorem rounds_list_iff {α : Type} {item : MarkupParser α} [Forward item]
    {spells : List Tok → α → Prop} {close : Char} {what : String} (eof : closing.kind = .eof)
    (notComma : close ≠ ',') (spec : ReadsItems closing item spells close) {bracket : Tok}
    (closes : isPunctuator close bracket = true) {xs : List α} :
    Rounds closing (listRound close what item) ts xs (bracket :: rest) ↔
      ∃ toks, ts = toks ++ bracket :: rest ∧ Items spells toks xs := by
  have noComma : isPunctuator ',' bracket = false := by
    obtain ⟨kind, text⟩ := isPunctuator_iff.1 closes
    simp [isPunctuator, kind, text, notComma]
  constructor
  · intro rounds
    generalize left : bracket :: rest = after at rounds
    induction rounds with
    | stop here =>
        rcases (reads_listRound eof).1 here with ⟨-, -, rfl⟩ | ⟨-, -, x, between, -, after⟩
        · exact ⟨[], by simp, .nil⟩
        · rcases after with ⟨_, _, _, impossible⟩ | ⟨_, _, impossible⟩ <;> cases impossible
    | last here =>
        rcases (reads_listRound eof).1 here with ⟨-, impossible, -⟩ | ⟨-, -, x, between, read, after⟩
        · cases impossible
        · rcases after with ⟨_, _, _, impossible⟩ | ⟨-, rfl, same⟩
          · cases impossible
          · cases same
            obtain ⟨toks, rfl, spelled⟩ := spec.sound read
            exact ⟨toks, rfl, .last spelled⟩
    | skip here =>
        rcases (reads_listRound eof).1 here with ⟨-, impossible, -⟩ | ⟨-, -, x, between, -, after⟩
        · cases impossible
        · rcases after with ⟨_, _, _, impossible⟩ | ⟨_, _, impossible⟩ <;> cases impossible
    | next here later ih =>
        obtain ⟨more, rfl, items⟩ := ih left
        rcases (reads_listRound eof).1 here with ⟨-, impossible, -⟩ | ⟨-, -, x, between, read, after⟩
        · cases impossible
        · rcases after with ⟨comma, rfl, isComma, same⟩ | ⟨_, _, impossible⟩
          · cases same
            obtain ⟨toks, rfl, spelled⟩ := spec.sound read
            exact ⟨toks ++ comma :: more, by simp, .more spelled isComma items⟩
          · cases impossible
  · rintro ⟨toks, rfl, items⟩
    induction items with
    | nil => exact .stop ((reads_listRound eof).2 (.inl ⟨by simpa using closes, rfl, rfl⟩))
    | last here =>
        obtain ⟨t, more, rfl, notClose, notEnd⟩ := spec.starts here
        exact .last ((reads_listRound eof).2 (.inr ⟨by simpa using notClose, by simpa using notEnd,
          _, _, spec.complete here (.inr closes), .inr ⟨by simpa using noComma, rfl, rfl⟩⟩))
    | @more toks later comma x xs here isComma items ih =>
        obtain ⟨t, more, rfl, notClose, notEnd⟩ := spec.starts here
        have read : Reads closing item (t :: more ++ comma :: (later ++ bracket :: rest)) x
            (comma :: (later ++ bracket :: rest)) := spec.complete here (.inl isComma)
        have regroup : (t :: more ++ comma :: later) ++ bracket :: rest =
            t :: more ++ comma :: (later ++ bracket :: rest) := by simp
        rw [regroup]
        exact .next ((reads_listRound eof).2 (.inr ⟨by simpa using notClose, by simpa using notEnd,
          _, _, read, .inl ⟨comma, rfl, isComma, rfl⟩⟩)) ih

/-- A list between brackets reads its items. -/
theorem reads_listBetween {α : Type} {item : MarkupParser α} [Forward item]
    {spells : List Tok → α → Prop} {opening close : Char} {what : String}
    (eof : closing.kind = .eof) (notComma : close ≠ ',')
    (spec : ReadsItems closing item spells close) {xs : List α} :
    Reads closing (listBetween opening close what item) ts xs rest ↔
      ∃ bra toks ket, ts = bra :: (toks ++ ket :: rest) ∧ isPunctuator opening bra = true ∧
        Items spells toks xs ∧ isPunctuator close ket = true := by
  rw [listBetween, reads_bind]
  simp only [reads_expectPunctuator eof, reads_bind, reads_pure,
    reads_collect (consumes_listRound eof close what)]
  constructor
  · rintro ⟨-, inner, ⟨bra, rfl, opens⟩, items, after, rounds, u, left, ⟨ket, rfl, closes⟩, rfl, rfl⟩
    obtain ⟨toks, rfl, spelled⟩ := (rounds_list_iff eof notComma spec closes).1 rounds
    exact ⟨bra, toks, ket, rfl, opens, spelled, closes⟩
  · rintro ⟨bra, toks, ket, rfl, opens, spelled, closes⟩
    exact ⟨(), _, ⟨bra, rfl, opens⟩, xs, _,
      (rounds_list_iff eof notComma spec closes).2 ⟨toks, rfl, spelled⟩,
      (), rest, ⟨ket, rfl, closes⟩, rfl, rfl⟩

theorem not_reads_rejectToken {problem : Problem} {u : Unit} :
    ¬ Reads closing (rejectToken problem) ts u rest :=
  not_reads_report_bind

section

variable {nested : MarkupParser Expr} {spells : List Tok → Expr → Prop}

theorem ReadsAs.sound (spec : ReadsAs closing nested spells) {e : Expr}
    (reads : Reads closing nested ts e rest) : ∃ toks, ts = toks ++ rest ∧ spells toks e := by
  obtain ⟨toks, split, spelled, -⟩ := (spec.reads_iff ts e rest).1 reads
  exact ⟨toks, split, spelled⟩

theorem ReadsAs.complete (spec : ReadsAs closing nested spells) {toks : List Tok} {e : Expr}
    (spelled : spells toks e) (stops : Stops closing 1 rest) :
    Reads closing nested (toks ++ rest) e rest :=
  (spec.reads_iff _ e rest).2 ⟨toks, rfl, spelled, stops⟩

theorem stops_of_punctuator {c : Char} {t : Tok} (isMark : isPunctuator c t = true)
    (notOpening : c ≠ '[' ∧ c ≠ '(') : Stops closing 1 (t :: rest) := by
  rw [Stops, ahead_cons, continuation_of_punctuator isMark notOpening]
  decide

theorem readsItems_nested (spec : ReadsAs closing nested spells) {close : Char}
    (isBracket : close = ')' ∨ close = ']') : ReadsItems closing nested spells close where
  sound := spec.sound
  complete spelled ends := by
    refine spec.complete spelled ?_
    rcases ends with isComma | closes
    · exact stops_of_punctuator isComma (by decide)
    · rcases isBracket with rfl | rfl
      · exact stops_of_punctuator closes (by decide)
      · exact stops_of_punctuator closes (by decide)
  starts spelled := by
    obtain ⟨t, more, rfl, starts⟩ := spec.starts spelled
    refine ⟨t, more, rfl, isPunctuator_of_starts starts ?_, endsExpression_of_starts starts⟩
    rcases isBracket with rfl | rfl <;> decide

variable [Forward nested]

/-- A bracketed expression after its opening bracket. -/
theorem reads_nested_close (eof : closing.kind = .eof) (spec : ReadsAs closing nested spells)
    {close : Char} (notOpening : close ≠ '[' ∧ close ≠ '(') {α : Type} (build : Expr → α) {x : α} :
    Reads closing (do let body ← nested; expectPunctuator close; return build body) ts x rest ↔
      ∃ toks e ket, ts = toks ++ ket :: rest ∧ spells toks e ∧ isPunctuator close ket = true ∧
        x = build e := by
  simp only [reads_bind, reads_expectPunctuator eof, reads_pure]
  constructor
  · rintro ⟨e, between, read, u, left, ⟨ket, rfl, closes⟩, rfl, rfl⟩
    obtain ⟨toks, rfl, spelled⟩ := spec.sound read
    exact ⟨toks, e, ket, rfl, spelled, closes, rfl⟩
  · rintro ⟨toks, e, ket, rfl, spelled, closes, rfl⟩
    exact ⟨e, _, spec.complete spelled (stops_of_punctuator closes notOpening), (), rest,
      ⟨ket, rfl, closes⟩, rfl, rfl⟩

/-- The next token, when it passes a test that the closing one fails. -/
theorem exists_cons_of_ahead {q : Tok → Bool} (fails : q closing = false)
    (passes : q (ahead closing ts) = true) : ∃ t, ts = t :: ts.tail ∧ ahead closing ts = t ∧ q t = true := by
  cases ts with
  | nil => simp [fails] at passes
  | cons t ts => exact ⟨t, rfl, rfl, passes⟩

theorem isNameToken_closing (eof : closing.kind = .eof) : isNameToken closing = false := by
  simp [isNameToken, eof]

theorem reads_objectKey (eof : closing.kind = .eof) (spec : ReadsAs closing nested spells)
    {key : Key} : Reads closing (objectKey nested) ts key rest ↔
      ∃ toks, ts = toks ++ rest ∧ KeySpells spells toks key := by
  rw [objectKey, reads_current_bind]
  constructor
  · intro reads
    split at reads
    · rename_i isName
      obtain ⟨t, split, same, passes⟩ := exists_cons_of_ahead (isNameToken_closing eof) isName
      rw [reads_advance_bind, reads_pure, same] at reads
      obtain ⟨rfl, rfl⟩ := reads
      exact ⟨[t], split, .name passes⟩
    · split at reads
      · rename_i opens
        obtain ⟨t, split, same, passes⟩ := exists_cons_of_ahead (isPunctuator_closing eof '[') opens
        rw [reads_advance_bind, reads_nested_close eof spec (by decide)] at reads
        obtain ⟨toks, e, ket, tail, spelled, closes, rfl⟩ := reads
        refine ⟨t :: (toks ++ [ket]), ?_, .computed passes spelled closes⟩
        rw [split, tail]
        simp
      · cases ts with
        | nil =>
            simp only [ahead_nil, eof] at reads
            obtain ⟨u, between, rejects, -⟩ := reads_bind.1 reads
            exact absurd rejects not_reads_rejectToken
        | cons t ts =>
            simp only [ahead_cons] at reads
            split at reads
            · rename_i kind
              obtain ⟨rfl, rfl⟩ := reads_pure.1 reads
              exact ⟨[t], rfl, .literal (by rw [kind]; rfl)⟩
            · rename_i kind
              obtain ⟨rfl, rfl⟩ := reads_pure.1 reads
              exact ⟨[t], rfl, .literal (by rw [kind]; rfl)⟩
            · rename_i kind
              obtain ⟨rfl, rfl⟩ := reads_pure.1 reads
              exact ⟨[t], rfl, .literal (by rw [kind]; rfl)⟩
            · obtain ⟨u, between, rejects, -⟩ := reads_bind.1 reads
              exact absurd rejects not_reads_rejectToken
  · rintro ⟨toks, rfl, spelled⟩
    cases spelled with
    | @name t isName =>
        simp only [List.singleton_append, ahead_cons, isName, if_true]
        exact reads_pure.2 ⟨rfl, rfl⟩
    | @literal t kind isLiteral =>
        have isKey : t.kind = .string ∨ t.kind = .number ∨ t.kind = .boolean := by
          revert isLiteral
          cases t.kind <;> simp [keyLiteral?]
        rcases isKey with isKey | isKey | isKey <;>
          simp only [isKey, keyLiteral?, Option.some.injEq] at isLiteral <;> subst isLiteral <;>
          simp only [List.singleton_append, ahead_cons, isNameToken, isPunctuator, isKey] <;>
          exact reads_pure.2 ⟨rfl, rfl⟩
    | @computed bra ket toks e opens body closes =>
        have notName : isNameToken bra = false := by
          simp [isNameToken, (isPunctuator_iff.1 opens).1]
        simp only [List.cons_append, List.append_assoc, ahead_cons, notName, opens, if_true,
          Bool.false_eq_true, if_false]
        exact (reads_nested_close eof spec (by decide) Key.computed).2
          ⟨toks, e, ket, rfl, body, closes, rfl⟩

theorem reads_objectEntry (eof : closing.kind = .eof) (spec : ReadsAs closing nested spells)
    {entry : Entry} : Reads closing (objectEntry nested) ts entry rest ↔
      (∃ toks key, ts = toks ++ rest ∧ KeySpells spells toks key ∧
        isOperator ":" (ahead closing rest) = false ∧ entry = .shorthand key) ∨
      (∃ toks key colon later value, ts = toks ++ colon :: (later ++ rest) ∧
        KeySpells spells toks key ∧ isOperator ":" colon = true ∧ spells later value ∧
        Stops closing 1 rest ∧ entry = .pair key value) := by
  rw [objectEntry, reads_bind]
  simp only [reads_objectKey eof spec, reads_looking_bind]
  constructor
  · rintro ⟨key, between, ⟨toks, rfl, spelled⟩, reads⟩
    split at reads
    · rename_i isColon
      obtain ⟨colon, split, -, passes⟩ := exists_cons_of_ahead (isOperator_closing eof ":") isColon
      rw [reads_advance_bind, reads_bind] at reads
      obtain ⟨value, left, read, ends⟩ := reads
      obtain ⟨rfl, rfl⟩ := reads_pure.1 ends
      obtain ⟨later, tail, value_spelled, stops⟩ := (spec.reads_iff _ _ _).1 read
      exact .inr ⟨toks, key, colon, later, value, by rw [split, tail], spelled, passes,
        value_spelled, stops, rfl⟩
    · rename_i notColon
      obtain ⟨rfl, rfl⟩ := reads_pure.1 reads
      exact .inl ⟨toks, key, rfl, spelled, by simpa using notColon, rfl⟩
  · rintro (⟨toks, key, rfl, spelled, notColon, rfl⟩ |
      ⟨toks, key, colon, later, value, rfl, spelled, isColon, value_spelled, stops, rfl⟩)
    · refine ⟨key, rest, ⟨toks, rfl, spelled⟩, ?_⟩
      rw [if_neg (by simp [notColon])]
      exact reads_pure.2 ⟨rfl, rfl⟩
    · refine ⟨key, _, ⟨toks, rfl, spelled⟩, ?_⟩
      rw [ahead_cons, if_pos isColon, reads_advance_bind, reads_bind]
      exact ⟨value, rest, spec.complete value_spelled stops, reads_pure.2 ⟨rfl, rfl⟩⟩

theorem KeySpells.starts {toks : List Tok} {key : Key} (spelled : KeySpells spells toks key) :
    ∃ t more, toks = t :: more ∧ isPunctuator '}' t = false ∧ endsExpression t = false := by
  cases spelled with
  | @name t isName =>
      refine ⟨t, [], rfl, ?_⟩
      rcases kind_of_isNameToken isName with kind | kind <;>
        simp [isPunctuator, endsExpression, kind]
  | @literal t kind isLiteral =>
      refine ⟨t, [], rfl, ?_⟩
      constructor
      · by_contra closes
        simp [(isPunctuator_iff.1 (by simpa using closes)).1, keyLiteral?] at isLiteral
      · by_contra ends
        have kind : t.kind = .interpEnd ∨ t.kind = .eof := by
          simpa [endsExpression, or_iff_not_imp_left] using ends
        rcases kind with kind | kind <;> simp [kind, keyLiteral?] at isLiteral
  | @computed bra ket toks e opens body closes =>
      refine ⟨bra, _, rfl, ?_⟩
      obtain ⟨kind, text⟩ := isPunctuator_iff.1 opens
      simp [isPunctuator, endsExpression, kind, text]

theorem EntrySpells.starts {toks : List Tok} {entry : Entry}
    (spelled : EntrySpells spells toks entry) :
    ∃ t more, toks = t :: more ∧ isPunctuator '}' t = false ∧ endsExpression t = false := by
  cases spelled with
  | shorthand here => exact here.starts
  | pair here isColon value =>
      obtain ⟨t, more, rfl, begins⟩ := here.starts
      exact ⟨t, _, rfl, begins⟩

theorem readsItems_entries (eof : closing.kind = .eof) (spec : ReadsAs closing nested spells) :
    ReadsItems closing (objectEntry nested) (EntrySpells spells) '}' where
  sound reads := by
    rcases (reads_objectEntry eof spec).1 reads with
      ⟨toks, key, rfl, spelled, -, rfl⟩ |
      ⟨toks, key, colon, later, value, rfl, spelled, isColon, value_spelled, -, rfl⟩
    · exact ⟨toks, rfl, .shorthand spelled⟩
    · exact ⟨toks ++ colon :: later, by simp, .pair spelled isColon value_spelled⟩
  complete {toks entry t rest} spelled ends := by
    have stops : Stops closing 1 (t :: rest) := by
      rcases ends with ends | ends
      · exact stops_of_punctuator ends (by decide)
      · exact stops_of_punctuator ends (by decide)
    have notColon : isOperator ":" t = false := by
      rcases ends with ends | ends <;> simp [isOperator, (isPunctuator_iff.1 ends).1]
    refine (reads_objectEntry eof spec).2 ?_
    cases spelled with
    | shorthand here => exact .inl ⟨_, _, rfl, here, notColon, rfl⟩
    | @pair toks later colon key value here isColon value_spelled =>
        exact .inr ⟨toks, key, colon, later, value, by simp, here, isColon, value_spelled, stops,
          rfl⟩
  starts := EntrySpells.starts

/-! ## The levels of the grammar -/

/-- The parser reads what the grammar derives at `level`, as far as it goes. -/
def ReadsLevel (closing : Tok) (spells : List Tok → Expr → Prop) (level : Nat)
    (p : MarkupParser Expr) : Prop :=
  ∀ ts e rest, Reads closing p ts e rest ↔
    ∃ toks, ts = toks ++ rest ∧ Derives spells level toks e ∧ Stops closing level rest

theorem Derives.level_le {level : Nat} {toks : List Tok} {e : Expr}
    (derived : Derives spells level toks e) : level ≤ 11 := by
  induction derived <;> omega

theorem readsLevel_primary (eof : closing.kind = .eof) (spec : ReadsAs closing nested spells) :
    ReadsLevel closing spells 11 (primary nested) := by
  intro ts e rest
  rw [primary, reads_current_bind]
  constructor
  · intro reads
    suffices derived : ∃ toks, ts = toks ++ rest ∧ Derives spells 11 toks e by
      obtain ⟨toks, split, derived⟩ := derived
      exact ⟨toks, split, derived, stops_atom closing rest⟩
    split at reads
    · rename_i isName
      obtain ⟨t, split, same, passes⟩ := exists_cons_of_ahead (isNameToken_closing eof) isName
      rw [reads_advance_bind, reads_pure, same] at reads
      obtain ⟨rfl, rfl⟩ := reads
      exact ⟨[t], split, .name passes⟩
    · split at reads
      · rename_i opens
        obtain ⟨t, split, same, passes⟩ := exists_cons_of_ahead (isPunctuator_closing eof '(') opens
        rw [reads_advance_bind, reads_nested_close eof spec (by decide)] at reads
        obtain ⟨toks, body, ket, tail, spelled, closes, rfl⟩ := reads
        refine ⟨t :: (toks ++ [ket]), ?_, .grouping passes spelled closes⟩
        rw [split, tail]
        simp
      · split at reads
        · obtain ⟨items, left, read, ends⟩ := reads_bind.1 reads
          obtain ⟨rfl, rfl⟩ := reads_pure.1 ends
          obtain ⟨bra, toks, ket, rfl, opens, spelled, closes⟩ :=
            (reads_listBetween eof (by decide) (readsItems_nested spec (.inr rfl))).1 read
          exact ⟨bra :: (toks ++ [ket]), by simp, .array opens spelled closes⟩
        · split at reads
          · obtain ⟨items, left, read, ends⟩ := reads_bind.1 reads
            obtain ⟨rfl, rfl⟩ := reads_pure.1 ends
            obtain ⟨bra, toks, ket, rfl, opens, spelled, closes⟩ :=
              (reads_listBetween eof (by decide) (readsItems_entries eof spec)).1 read
            exact ⟨bra :: (toks ++ [ket]), by simp, .object opens spelled closes⟩
          · split at reads
            · rename_i kind isLiteral
              cases ts with
              | nil => simp [eof, literalKind?] at isLiteral
              | cons t ts =>
                  rw [reads_advance_bind, reads_pure] at reads
                  obtain ⟨rfl, rfl⟩ := reads
                  exact ⟨[t], rfl, .literal isLiteral⟩
            · obtain ⟨u, between, rejects, -⟩ := reads_bind.1 reads
              exact absurd rejects not_reads_rejectToken
  · rintro ⟨toks, rfl, derived, -⟩
    cases derived with
    | @name t isName =>
        simp only [List.singleton_append, ahead_cons, isName, if_true]
        exact reads_pure.2 ⟨rfl, rfl⟩
    | @literal t kind isLiteral =>
        have isAtom : isNameToken t = false ∧ ∀ c, isPunctuator c t = false := by
          revert isLiteral
          rw [isNameToken]
          simp only [isPunctuator]
          cases t.kind <;> simp [literalKind?]
        simp only [List.singleton_append, ahead_cons, isAtom, isLiteral, Bool.false_eq_true,
          if_false]
        exact reads_pure.2 ⟨rfl, rfl⟩
    | @grouping bra ket toks body opens spelled closes =>
        have notName : isNameToken bra = false := by
          simp [isNameToken, (isPunctuator_iff.1 opens).1]
        simp only [List.cons_append, List.append_assoc, ahead_cons, notName, opens, if_true,
          Bool.false_eq_true, if_false]
        exact (reads_nested_close eof spec (by decide) Expr.grouping).2
          ⟨toks, body, ket, rfl, spelled, closes, rfl⟩
    | @array bra ket toks items opens spelled closes =>
        obtain ⟨kind, text⟩ := isPunctuator_iff.1 opens
        have others : isNameToken bra = false ∧ isPunctuator '(' bra = false := by
          simp [isNameToken, isPunctuator, kind, text]
        simp only [List.cons_append, List.append_assoc, ahead_cons, others, opens, if_true,
          Bool.false_eq_true, if_false]
        refine reads_bind.2 ⟨items, rest, ?_, reads_pure.2 ⟨rfl, rfl⟩⟩
        exact (reads_listBetween eof (by decide) (readsItems_nested spec (.inr rfl))).2
          ⟨bra, toks, ket, rfl, opens, spelled, closes⟩
    | @object bra ket toks entries opens spelled closes =>
        obtain ⟨kind, text⟩ := isPunctuator_iff.1 opens
        have others : isNameToken bra = false ∧ isPunctuator '(' bra = false ∧
            isPunctuator '[' bra = false := by
          simp [isNameToken, isPunctuator, kind, text]
        simp only [List.cons_append, List.append_assoc, ahead_cons, others, opens, if_true,
          Bool.false_eq_true, if_false]
        refine reads_bind.2 ⟨entries, rest, ?_, reads_pure.2 ⟨rfl, rfl⟩⟩
        exact (reads_listBetween eof (by decide) (readsItems_entries eof spec)).2
          ⟨bra, toks, ket, rfl, opens, spelled, closes⟩
    | binary first isOp second => exact absurd isOp (by simp [isOperatorOf, operatorsAt])
    | tighter here => exact absurd here.level_le (by decide)

theorem isMemberName_closing (eof : closing.kind = .eof) : isMemberName closing = false := by
  simp [isMemberName, isNameToken, eof]

/-- The tokens of one postfix form and the expression it builds. -/
inductive PostfixSpells (spells : List Tok → Expr → Prop) (value : Expr) : List Tok → Expr → Prop
  | member {point name : Tok} (isPoint : isOperator "." point = true)
      (isName : isMemberName name = true) :
      PostfixSpells spells value [point, name] (.member value name.text)
  | index {inner : List Tok} {bra ket : Tok} {i : Expr} (opens : isPunctuator '[' bra = true)
      (body : spells inner i) (closes : isPunctuator ']' ket = true) :
      PostfixSpells spells value (bra :: (inner ++ [ket])) (.computedMember value i)
  | call {inner : List Tok} {bra ket : Tok} {es : List Expr} (opens : isPunctuator '(' bra = true)
      (items : Items spells inner es) (closes : isPunctuator ')' ket = true) :
      PostfixSpells spells value (bra :: (inner ++ [ket])) (.call value es)

theorem PostfixSpells.derives {value better : Expr} {toks more : List Tok}
    (step : PostfixSpells spells value more better) (here : Derives spells 10 toks value) :
    Derives spells 10 (toks ++ more) better := by
  cases step with
  | member isPoint isName => exact .member here isPoint isName
  | index opens body closes => exact .index here opens body closes
  | call opens items closes => exact .call here opens items closes

theorem reads_postfixRound (eof : closing.kind = .eof) (spec : ReadsAs closing nested spells)
    {value : Expr} {r : Option Expr} :
    Reads closing (postfixRound nested value) ts r rest ↔
      (∃ more better, ts = more ++ rest ∧ PostfixSpells spells value more better ∧
        r = some better) ∨
      (Stops closing 10 ts ∧ rest = ts ∧ r = none) := by
  rw [postfixRound, reads_current_bind]
  constructor
  · intro reads
    split at reads
    · rename_i isPoint
      obtain ⟨point, split, -, passes⟩ := exists_cons_of_ahead (isOperator_closing eof ".") isPoint
      rw [reads_advance_bind, reads_current_bind] at reads
      split at reads
      · rename_i isName
        obtain ⟨name, tail, same, named⟩ := exists_cons_of_ahead (isMemberName_closing eof) isName
        rw [reads_advance_bind, reads_pure, same] at reads
        obtain ⟨rfl, rfl⟩ := reads
        exact .inl ⟨[point, name], _, by rw [split, tail]; rfl, .member passes named, rfl⟩
      · exact absurd reads not_reads_report_bind
    · rename_i notPoint
      split at reads
      · rename_i opens
        obtain ⟨bra, split, -, passes⟩ := exists_cons_of_ahead (isPunctuator_closing eof '[') opens
        rw [reads_advance_bind, reads_nested_close eof spec (by decide)] at reads
        obtain ⟨toks, i, ket, tail, spelled, closes, rfl⟩ := reads
        refine .inl ⟨bra :: (toks ++ [ket]), _, ?_, .index passes spelled closes, rfl⟩
        rw [split, tail]
        simp
      · rename_i notIndex
        split at reads
        · obtain ⟨items, left, read, ends⟩ := reads_bind.1 reads
          obtain ⟨rfl, rfl⟩ := reads_pure.1 ends
          obtain ⟨bra, toks, ket, rfl, opens, spelled, closes⟩ :=
            (reads_listBetween eof (by decide) (readsItems_nested spec (.inl rfl))).1 read
          exact .inl ⟨bra :: (toks ++ [ket]), _, by simp, .call opens spelled closes, rfl⟩
        · rename_i notCall
          obtain ⟨rfl, rfl⟩ := reads_pure.1 reads
          refine .inr ⟨?_, rfl, rfl⟩
          have notTen : continuation (ahead closing rest) ≠ 10 := by
            rw [ne_eq, continuation_eq_ten_iff]
            simp [notPoint, notIndex, notCall]
          exact Nat.lt_of_le_of_ne (continuation_le _) notTen
  · rintro (⟨more, better, rfl, step, rfl⟩ | ⟨stops, rfl, rfl⟩)
    · cases step with
      | @member point name isPoint isName =>
          simp only [List.cons_append, List.nil_append, ahead_cons, isPoint, if_true]
          rw [reads_advance_bind, reads_current_bind]
          simp only [List.tail_cons, ahead_cons, isName, if_true]
          exact reads_pure.2 ⟨rfl, rfl⟩
      | @index toks bra ket i opens body closes =>
          have notPoint : isOperator "." bra = false := by
            simp [isOperator, (isPunctuator_iff.1 opens).1]
          simp only [List.cons_append, List.append_assoc, ahead_cons, notPoint, opens, if_true,
            Bool.false_eq_true, if_false]
          exact (reads_nested_close eof spec (by decide) fun i => some (Expr.computedMember value i)).2
            ⟨toks, i, ket, rfl, body, closes, rfl⟩
      | @call toks bra ket items opens spelled closes =>
          obtain ⟨kind, text⟩ := isPunctuator_iff.1 opens
          have others : isOperator "." bra = false ∧ isPunctuator '[' bra = false := by
            simp [isOperator, isPunctuator, kind, text]
          simp only [List.cons_append, List.append_assoc, ahead_cons, others, opens, if_true,
            Bool.false_eq_true, if_false]
          refine reads_bind.2 ⟨items, rest, ?_, reads_pure.2 ⟨rfl, rfl⟩⟩
          exact (reads_listBetween eof (by decide) (readsItems_nested spec (.inl rfl))).2
            ⟨bra, toks, ket, rfl, opens, spelled, closes⟩
    · have notTen : ¬ continuation (ahead closing rest) = 10 := Nat.ne_of_lt stops
      rw [continuation_eq_ten_iff] at notTen
      simp only [not_or, Bool.not_eq_true] at notTen
      simp only [notTen, Bool.false_eq_true, if_false]
      exact reads_pure.2 ⟨rfl, rfl⟩

theorem consumes_postfixRound (eof : closing.kind = .eof) (spec : ReadsAs closing nested spells)
    (value : Expr) (ts : List Tok) (better : Expr) (rest : List Tok)
    (reads : Reads closing (postfixRound nested value) ts (some better) rest) :
    rest.length < ts.length := by
  rcases (reads_postfixRound eof spec).1 reads with ⟨more, other, rfl, step, -⟩ | ⟨-, -, impossible⟩
  · cases step <;> simp <;> omega
  · cases impossible

/-- Whatever a loop reaches from `e` in front of tokens that `fits` admits,
reading `toks` with `first` and running the loop reaches too. -/
def Prepares (closing : Tok) (first : MarkupParser Expr)
    (round : Expr → MarkupParser (Option Expr)) (fits : List Tok → Prop) (toks : List Tok)
    (e : Expr) : Prop :=
  ∀ left result rest, fits left → Refinements closing round e left result rest →
    ∃ start between, Reads closing first (toks ++ left) start between ∧
      Refinements closing round start between result rest

theorem Prepares.extend {first : MarkupParser Expr} {round : Expr → MarkupParser (Option Expr)}
    {fits : List Tok → Prop} {toks more : List Tok} {e better : Expr}
    (prepared : Prepares closing first round fits toks e)
    (step : ∀ left, fits left → fits (more ++ left) ∧
      Reads closing (round e) (more ++ left) (some better) left) :
    Prepares closing first round fits (toks ++ more) better := by
  intro left result rest admitted later
  obtain ⟨still, reads⟩ := step left admitted
  rw [List.append_assoc]
  exact prepared _ _ _ still (.again reads later)

theorem prepares_postfixed (eof : closing.kind = .eof) (spec : ReadsAs closing nested spells)
    {level : Nat} {toks : List Tok} {e : Expr} (derived : Derives spells level toks e)
    (isPostfix : level = 10) :
    Prepares closing (primary nested) (postfixRound nested) (fun _ => True) toks e := by
  have round : ∀ {value better : Expr} {more : List Tok}, PostfixSpells spells value more better →
      ∀ left, True → True ∧
        Reads closing (postfixRound nested value) (more ++ left) (some better) left :=
    fun step left _ =>
      ⟨trivial, (reads_postfixRound eof spec).2 (.inl ⟨_, _, rfl, step, rfl⟩)⟩
  induction derived with
  | member here isPoint isName ih => exact (ih rfl).extend (round (.member isPoint isName))
  | index here opens body closes ih => exact (ih rfl).extend (round (.index opens body closes))
  | call here opens items closes ih => exact (ih rfl).extend (round (.call opens items closes))
  | @tighter level toks e here =>
      intro left result rest _ later
      subst isPostfix
      exact ⟨e, left, (readsLevel_primary eof spec _ _ _).2
        ⟨toks, rfl, here, stops_atom closing left⟩, later⟩
  | @binary level left right op x y first isOp =>
      subst isPostfix
      exact absurd isOp (by simp [isOperatorOf, operatorsAt])
  | _ => omega

theorem readsLevel_postfixed (eof : closing.kind = .eof) (spec : ReadsAs closing nested spells) :
    ReadsLevel closing spells 10 (postfixed nested) := by
  intro ts e rest
  rw [postfixed, reads_bind]
  simp only [reads_refine (consumes_postfixRound eof spec)]
  constructor
  · rintro ⟨atom, between, read, loop⟩
    obtain ⟨toks, rfl, derived, -⟩ := (readsLevel_primary eof spec _ _ _).1 read
    replace derived : Derives spells 10 toks atom := .tighter derived
    clear read
    induction loop generalizing toks with
    | done here =>
        rcases (reads_postfixRound eof spec).1 here with ⟨_, _, -, -, impossible⟩ | ⟨stops, rfl, -⟩
        · cases impossible
        · exact ⟨toks, rfl, derived, stops⟩
    | again here later ih =>
        rcases (reads_postfixRound eof spec).1 here with ⟨more, other, rfl, step, same⟩ |
          ⟨-, -, impossible⟩
        · cases same
          obtain ⟨all, split, derives, stops⟩ := ih (toks ++ more) (step.derives derived)
          exact ⟨all, by rw [← List.append_assoc, split], derives, stops⟩
        · cases impossible
  · rintro ⟨toks, rfl, derived, stops⟩
    exact prepares_postfixed eof spec derived rfl _ _ _ trivial
      (.done ((reads_postfixRound eof spec).2 (.inr ⟨stops, rfl, rfl⟩)))

/-- Signs in front of a postfix form. -/
theorem derives_signs {signs toks : List Tok} {e : Expr}
    (areSigns : ∀ sign ∈ signs, isOperatorOf unaryOperators sign = true)
    (derived : Derives spells 10 toks e) :
    Derives spells 9 (signs ++ toks) (signs.foldr (fun sign e => .unary sign.text e) e) := by
  induction signs with
  | nil => exact .tighter derived
  | cons sign signs ih =>
      exact .unary (areSigns sign List.mem_cons_self)
        (ih fun other member => areSigns other (List.mem_cons_of_mem _ member))

theorem exists_signs {level : Nat} {toks : List Tok} {e : Expr}
    (derived : Derives spells level toks e) (isUnary : level = 9) :
    ∃ signs more operand, toks = signs ++ more ∧
      (∀ sign ∈ signs, isOperatorOf unaryOperators sign = true) ∧
      Derives spells 10 more operand ∧
      e = signs.foldr (fun sign e => .unary sign.text e) operand := by
  induction derived with
  | @unary sign toks e isSign here ih =>
      obtain ⟨signs, more, operand, rfl, areSigns, derived, rfl⟩ := ih rfl
      refine ⟨sign :: signs, more, operand, rfl, ?_, derived, rfl⟩
      intro other member
      rcases List.mem_cons.1 member with rfl | member
      · exact isSign
      · exact areSigns other member
  | @tighter level toks e here =>
      subst isUnary
      exact ⟨[], toks, e, rfl, by simp, here, rfl⟩
  | @binary level left right op x y first isOp =>
      subst isUnary
      exact absurd isOp (by simp [isOperatorOf, operatorsAt])
  | _ => omega

theorem stops_nine_iff : Stops closing 9 rest ↔ Stops closing 10 rest := by
  have notNine := continuation_ne_nine (ahead closing rest)
  simp only [Stops]
  omega

theorem readsLevel_unary (eof : closing.kind = .eof) (spec : ReadsAs closing nested spells) :
    ReadsLevel closing spells 9 (unary nested) := by
  intro ts e rest
  rw [unary, reads_remaining_bind, reads_skipWhile_bind, reads_bind]
  simp only [readsLevel_postfixed eof spec _ _ _, reads_pure]
  constructor
  · rintro ⟨operand, left, ⟨toks, split, derived, stops⟩, rfl, rfl⟩
    refine ⟨ts.takeWhile (isOperatorOf unaryOperators) ++ toks, ?_, ?_, stops_nine_iff.2 stops⟩
    · rw [List.append_assoc, ← split]
      exact List.takeWhile_append_dropWhile.symm
    · exact derives_signs (fun sign member => List.mem_takeWhile_imp member) derived
  · rintro ⟨toks, rfl, derived, stops⟩
    obtain ⟨signs, more, operand, rfl, areSigns, unsignedDerived, rfl⟩ := exists_signs derived rfl
    obtain ⟨t, others, rfl, -, unsigned⟩ := unsignedDerived.starts
    have taken : (signs ++ (t :: others ++ rest)).takeWhile (isOperatorOf unaryOperators) = signs := by
      rw [List.takeWhile_append_of_pos areSigns, List.cons_append,
        List.takeWhile_cons_of_neg (by simp [unsigned])]
      simp
    have dropped : (signs ++ (t :: others ++ rest)).dropWhile (isOperatorOf unaryOperators) =
        t :: others ++ rest := by
      rw [List.dropWhile_append_of_pos areSigns, List.cons_append,
        List.dropWhile_cons_of_neg (by simp [unsigned])]
    refine ⟨operand, rest, ⟨t :: others, ?_, unsignedDerived, stops_nine_iff.1 stops⟩, ?_, rfl⟩
    · rw [List.append_assoc]
      exact dropped
    · rw [List.append_assoc]
      exact congrArg (List.foldr _ operand) taken.symm

theorem isOperatorOf_closing (eof : closing.kind = .eof) (ops : List String) :
    isOperatorOf ops closing = false := by
  simp [isOperatorOf, eof]

section

variable {operand : MarkupParser Expr} [Forward operand] {level : Nat}

theorem reads_binaryRound (eof : closing.kind = .eof)
    (spec : ReadsLevel closing spells (level + 1) operand) {left : Expr} {r : Option Expr} :
    Reads closing (binaryRound (buildAt level) (operatorsAt level) operand left) ts r rest ↔
      (∃ op right e, ts = op :: (right ++ rest) ∧ isOperatorOf (operatorsAt level) op = true ∧
        Derives spells (level + 1) right e ∧ Stops closing (level + 1) rest ∧
        r = some (buildAt level left op.text e)) ∨
      (isOperatorOf (operatorsAt level) (ahead closing ts) = false ∧ rest = ts ∧ r = none) := by
  rw [binaryRound, reads_looking_bind]
  constructor
  · intro reads
    split at reads
    · rename_i isOp
      obtain ⟨op, split, same, passes⟩ :=
        exists_cons_of_ahead (isOperatorOf_closing eof _) isOp
      rw [reads_advance_bind, reads_bind, same] at reads
      obtain ⟨e, between, read, ends⟩ := reads
      obtain ⟨rfl, rfl⟩ := reads_pure.1 ends
      obtain ⟨right, tail, derived, stops⟩ := (spec _ _ _).1 read
      exact .inl ⟨op, right, e, by rw [split, tail], passes, derived, stops, rfl⟩
    · rename_i notOp
      obtain ⟨rfl, rfl⟩ := reads_pure.1 reads
      exact .inr ⟨by simpa using notOp, rfl, rfl⟩
  · rintro (⟨op, right, e, rfl, isOp, derived, stops, rfl⟩ | ⟨notOp, rfl, rfl⟩)
    · rw [ahead_cons, if_pos isOp, reads_advance_bind, reads_bind]
      exact ⟨e, rest, (spec _ _ _).2 ⟨right, rfl, derived, stops⟩, reads_pure.2 ⟨rfl, rfl⟩⟩
    · rw [if_neg (by simp [notOp])]
      exact reads_pure.2 ⟨rfl, rfl⟩

theorem consumes_binaryRound (eof : closing.kind = .eof)
    (spec : ReadsLevel closing spells (level + 1) operand)
    (left : Expr) (ts : List Tok) (better : Expr) (rest : List Tok)
    (reads : Reads closing (binaryRound (buildAt level) (operatorsAt level) operand left) ts
      (some better) rest) : rest.length < ts.length := by
  rcases (reads_binaryRound eof spec).1 reads with ⟨op, right, e, rfl, -, -, -, -⟩ | ⟨-, -, impossible⟩
  · simp only [List.length_cons, List.length_append]
    omega
  · cases impossible

/-- An operand is read in front of what does not go on with it; the operator of
this level is of that sort. -/
theorem prepares_leftAssociative (eof : closing.kind = .eof)
    (spec : ReadsLevel closing spells (level + 1) operand) (low : 3 ≤ level) (high : level ≤ 8)
    {actual : Nat} {toks : List Tok} {e : Expr} (derived : Derives spells actual toks e)
    (isLevel : actual = level) :
    Prepares closing operand (binaryRound (buildAt level) (operatorsAt level) operand)
      (Stops closing (level + 1)) toks e := by
  induction derived with
  | @binary actual left right op x y first isOp second ihFirst =>
      subst isLevel
      refine (ihFirst rfl).extend fun later stops => ⟨?_, ?_⟩
      · rw [Stops, List.cons_append, ahead_cons, continuation_of_operator isOp]
        exact Nat.lt_succ_self actual
      · exact (reads_binaryRound eof spec).2 (.inl ⟨op, right, y, rfl, isOp, second, stops, rfl⟩)
  | @tighter actual toks e here =>
      intro left result rest stops later
      subst isLevel
      exact ⟨e, left, (spec _ _ _).2 ⟨toks, rfl, here, stops⟩, later⟩
  | _ => omega

theorem readsLevel_leftAssociative (eof : closing.kind = .eof)
    (spec : ReadsLevel closing spells (level + 1) operand) (low : 3 ≤ level) (high : level ≤ 8) :
    ReadsLevel closing spells level
      (leftAssociative (buildAt level) (operatorsAt level) operand) := by
  intro ts e rest
  rw [leftAssociative, reads_bind]
  simp only [reads_refine (consumes_binaryRound eof spec)]
  constructor
  · rintro ⟨first, between, read, loop⟩
    obtain ⟨toks, rfl, derived, stops⟩ := (spec _ _ _).1 read
    replace derived : Derives spells level toks first := .tighter derived
    clear read
    induction loop generalizing toks with
    | done here =>
        rcases (reads_binaryRound eof spec).1 here with ⟨_, _, _, -, -, -, -, impossible⟩ |
          ⟨notOp, rfl, -⟩
        · cases impossible
        · refine ⟨toks, rfl, derived, Nat.lt_of_le_of_ne (Nat.le_of_lt_succ stops) fun goesOn => ?_⟩
          simp [isOperatorOf_of_continuation low high goesOn] at notOp
    | again here later ih =>
        rcases (reads_binaryRound eof spec).1 here with
          ⟨op, right, y, rfl, isOp, second, after, same⟩ | ⟨-, -, impossible⟩
        · cases same
          obtain ⟨all, split, derives, stops⟩ := ih (toks ++ op :: right) after
            (.binary derived isOp second)
          exact ⟨all, by rw [← split]; simp, derives, stops⟩
        · cases impossible
  · rintro ⟨toks, rfl, derived, stops⟩
    refine prepares_leftAssociative eof spec low high derived rfl _ _ _
      (stops.mono (Nat.le_succ level)) (.done ((reads_binaryRound eof spec).2 (.inr ⟨?_, rfl, rfl⟩)))
    by_contra isOp
    rw [Stops, continuation_of_operator (by simpa using isOp)] at stops
    exact Nat.lt_irrefl level stops

end

theorem readsLevel_logicalOr (eof : closing.kind = .eof) (spec : ReadsAs closing nested spells) :
    ReadsLevel closing spells 3 (logicalOr nested) := by
  have products := readsLevel_leftAssociative eof (readsLevel_unary eof spec)
    (by decide : 3 ≤ 8) (by decide)
  have sums := readsLevel_leftAssociative eof products (by decide : 3 ≤ 7) (by decide)
  have relations := readsLevel_leftAssociative eof sums (by decide : 3 ≤ 6) (by decide)
  have equalities := readsLevel_leftAssociative eof relations (by decide : 3 ≤ 5) (by decide)
  have conjunctions := readsLevel_leftAssociative eof equalities (by decide : 3 ≤ 4) (by decide)
  have disjunctions := readsLevel_leftAssociative eof conjunctions (by decide : 3 ≤ 3) (by decide)
  exact disjunctions

/-- The last branch of a conditional takes an assignment with it, so in front of
an assignment operator only a disjunction has been read. -/
theorem reads_conditional (eof : closing.kind = .eof) (spec : ReadsAs closing nested spells)
    {e : Expr} : Reads closing (conditional nested) ts e rest ↔
      ∃ toks, ts = toks ++ rest ∧ Derives spells 2 toks e ∧ Stops closing 2 rest ∧
        (Stops closing 1 rest ∨ Derives spells 3 toks e) := by
  rw [conditional, reads_bind]
  simp only [readsLevel_logicalOr eof spec _ _ _, reads_looking_bind]
  constructor
  · rintro ⟨test, between, ⟨a, rfl, derived, stops⟩, reads⟩
    split at reads
    · rename_i asks
      obtain ⟨question, split, -, passes⟩ := exists_cons_of_ahead (isOperator_closing eof "?") asks
      rw [reads_advance_bind] at reads
      simp only [reads_bind, reads_expectOperator eof, reads_pure] at reads
      obtain ⟨yes, left, readYes, u, later, ⟨colon, rfl, isColon⟩, no, last, readNo, rfl, rfl⟩ := reads
      obtain ⟨b, tail, yesSpelled⟩ := spec.sound readYes
      obtain ⟨c, rfl, noSpelled, ends⟩ := (spec.reads_iff _ _ _).1 readNo
      refine ⟨a ++ question :: (b ++ colon :: c), ?_,
        .conditional derived passes yesSpelled isColon noSpelled, ends.mono (by decide), .inl ends⟩
      rw [split, tail]
      simp
    · rename_i asksNot
      obtain ⟨rfl, rfl⟩ := reads_pure.1 reads
      refine ⟨a, rfl, .tighter derived, Nat.lt_of_le_of_ne (Nat.le_of_lt_succ stops) ?_, .inr derived⟩
      exact fun goesOn => asksNot (asks_of_continuation goesOn)
  · rintro ⟨toks, rfl, derived, stops, ends⟩
    cases derived with
    | @conditional a b c question colon x y z test asks yes isColon no =>
        have last : Stops closing 1 rest := by
          rcases ends with ends | impossible
          · exact ends
          · exact absurd impossible.le_level (by decide : ¬ 3 ≤ 2)
        refine ⟨x, question :: (b ++ colon :: (c ++ rest)), ⟨a, by simp, test, ?_⟩, ?_⟩
        · rw [Stops, ahead_cons, continuation_of_question asks]
          decide
        · rw [ahead_cons, if_pos asks, reads_advance_bind]
          simp only [reads_bind, reads_expectOperator eof, reads_pure]
          refine ⟨y, _, spec.complete yes ?_, (), _, ⟨colon, rfl, isColon⟩, z, rest,
            spec.complete no last, rfl, rfl⟩
          rw [Stops, ahead_cons, continuation_of_colon isColon]
          decide
    | binary first isOp second => exact absurd isOp (by simp [isOperatorOf, operatorsAt])
    | tighter here =>
        refine ⟨e, rest, ⟨toks, rfl, here, stops.mono (by decide)⟩, ?_⟩
        rw [if_neg]
        · exact reads_pure.2 ⟨rfl, rfl⟩
        · intro asks
          rw [Stops, continuation_of_question asks] at stops
          exact Nat.lt_irrefl 2 stops

theorem readsLevel_assignment (eof : closing.kind = .eof) (spec : ReadsAs closing nested spells) :
    ReadsLevel closing spells 1 (assignment nested) := by
  intro ts e rest
  rw [assignment, reads_bind]
  simp only [reads_conditional eof spec, reads_looking_bind]
  constructor
  · rintro ⟨target, between, ⟨a, rfl, derived, stops, ends⟩, reads⟩
    split at reads
    · rename_i isOp
      obtain ⟨op, split, same, passes⟩ := exists_cons_of_ahead (isOperatorOf_closing eof _) isOp
      have disjunction : Derives spells 3 a target := by
        rcases ends with ends | disjunction
        · rw [Stops, same, continuation_of_assignment passes] at ends
          exact absurd ends (by decide)
        · exact disjunction
      rw [reads_advance_bind, reads_bind, same] at reads
      obtain ⟨value, left, read, done⟩ := reads
      obtain ⟨rfl, rfl⟩ := reads_pure.1 done
      obtain ⟨b, tail, spelled, last⟩ := (spec.reads_iff _ _ _).1 read
      refine ⟨a ++ op :: b, ?_, .assignment disjunction passes spelled, last⟩
      rw [split, tail]
      simp
    · rename_i notOp
      obtain ⟨rfl, rfl⟩ := reads_pure.1 reads
      refine ⟨a, rfl, .tighter derived, Nat.lt_of_le_of_ne (Nat.le_of_lt_succ stops) ?_⟩
      exact fun goesOn => notOp (assigns_of_continuation goesOn)
  · rintro ⟨toks, rfl, derived, stops⟩
    cases derived with
    | @assignment a b op x y target assigns value =>
        have goesOn : continuation op = 1 := continuation_of_assignment assigns
        refine ⟨x, op :: (b ++ rest), ⟨a, by simp, .tighter target, ?_, .inr target⟩, ?_⟩
        · rw [Stops, ahead_cons, goesOn]
          decide
        · change Reads closing (if isOperatorOf assignmentOperators op = true then _ else _) _ _ _
          rw [if_pos assigns, reads_advance_bind, reads_bind]
          exact ⟨y, rest, spec.complete value stops, reads_pure.2 ⟨rfl, rfl⟩⟩
    | binary first isOp second => exact absurd isOp (by simp [isOperatorOf, operatorsAt])
    | tighter here =>
        refine ⟨e, rest, ⟨toks, rfl, here, stops.mono (by decide), .inl stops⟩, ?_⟩
        rw [if_neg]
        · exact reads_pure.2 ⟨rfl, rfl⟩
        · intro assigns
          rw [Stops, continuation_of_assignment assigns] at stops
          exact Nat.lt_irrefl 1 stops

end

/-- A complete expression is read as the grammar spells it, as far as it goes. -/
theorem readsAs_expressionAt (eof : closing.kind = .eof) (levels : Nat) :
    ReadsAs closing (expressionAt levels) (Spells levels) := by
  induction levels with
  | zero =>
      refine ⟨fun ts e rest => iff_of_false ?_ ?_, fun spelled => spelled.elim⟩
      · intro reads
        rw [expressionAt, reads_looking_bind] at reads
        split at reads
        · exact not_reads_report_bind reads
        · exact not_reads_report_bind reads
      · rintro ⟨toks, -, spelled, -⟩
        exact spelled
  | succ levels ih =>
      refine ⟨fun ts e rest => ?_, Spells.starts⟩
      rw [expressionAt, reads_looking_bind]
      by_cases ends : endsExpression (ahead closing ts) = true
      · rw [if_pos ends]
        refine iff_of_false not_reads_report_bind ?_
        rintro ⟨toks, rfl, spelled, -⟩
        obtain ⟨t, more, rfl, starts⟩ := Spells.starts spelled
        simp [endsExpression_of_starts starts] at ends
      · rw [if_neg ends]
        exact readsLevel_assignment eof ih ts e rest

/-- The expression of an interpolation is read as the grammar spells it, within
the two limits. -/
theorem reads_expression (eof : closing.kind = .eof) {e : Expr} :
    Reads closing expression ts e rest ↔
      ∃ toks, ts = toks ++ rest ∧ Spells expressionLimit toks e ∧ Stops closing 1 rest ∧
        e.height ≤ heightLimit := by
  rw [expression, reads_bind]
  simp only [(readsAs_expressionAt eof expressionLimit).reads_iff]
  constructor
  · rintro ⟨tree, between, ⟨toks, rfl, spelled, stops⟩, reads⟩
    split at reads
    · exact absurd reads not_reads_report_bind
    · obtain ⟨rfl, rfl⟩ := reads_pure.1 reads
      exact ⟨toks, rfl, spelled, stops, by omega⟩
  · rintro ⟨toks, rfl, spelled, stops, high⟩
    refine ⟨e, rest, ⟨toks, rfl, spelled, stops⟩, ?_⟩
    rw [if_neg (by omega)]
    exact reads_pure.2 ⟨rfl, rfl⟩

end

end UiFormat.Markup

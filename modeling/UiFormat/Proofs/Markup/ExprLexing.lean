/-
# UiFormat.Proofs.Markup.ExprLexing -- tokens of expressions, read back

A token read inside an interpolation is spelled like its kind (`Spelled`): a
word, a numeral or a closed string, since something follows it.  Such a token is
read back from its text alone, in front of a character that ends it
(`lexes_leaf`); the printer puts only such characters behind a leaf.  Operators
and punctuators are read back from the places where the printer puts them.
-/
import UiFormat.Proofs.Markup.Lexing
import UiFormat.Proofs.Text.Literal
import UiFormat.Proofs.Markup.ExprGrammar

namespace UiFormat.Markup

open UiFormat.Text
open UiFormat.Parse

set_option autoImplicit false

/-! ## Spelling -/

/-- The text is a word. -/
def IsWord (text : Text) : Prop :=
  ∃ c r, text = c :: r ∧ isIdentStart c = true ∧ ∀ d ∈ r, isIdentChar d = true

/-- The text is a number. -/
def IsNumber (text : Text) : Prop :=
  ∃ c r, text = c :: r ∧ isIdentStart c = false ∧
    (isDigit c || (c = '.' && r.head?.any isDigit)) = true ∧ Numeral text

/-- The text is a closed string. -/
def IsString (text : Text) : Prop :=
  ∃ quote r, text = quote :: r ∧ (quote = '\x22' ∨ quote = '\x27') ∧
    ∀ w, stringExtent quote (r ++ w) = r.length

/-- The text of a token of an expression is of its kind. -/
def Spelled (t : Tok) : Prop :=
  match t.kind with
  | .identifier | .boolean | .null | .undefined => IsWord t.text ∧ wordKind t.text = t.kind
  | .number => IsNumber t.text
  | .string => IsString t.text
  | .operator => ∃ op ∈ operators, t.text = op.toList
  | .punctuator => True
  | _ => False

/-- A leaf does not begin with an equals sign. -/
theorem Spelled.front {t : Tok} (spelled : Spelled t)
    (leaf : isNameToken t = true ∨ ∃ kind, literalKind? t.kind = some kind) :
    ∃ d r, t.text = d :: r ∧ d ≠ '=' := by
  unfold Spelled at spelled
  have word : IsWord t.text → ∃ d r, t.text = d :: r ∧ d ≠ '=' := by
    rintro ⟨c, r, split, isStart, -⟩
    refine ⟨c, r, split, ?_⟩
    rintro rfl
    exact absurd isStart (by decide)
  split at spelled
  · exact word spelled.1
  · exact word spelled.1
  · exact word spelled.1
  · exact word spelled.1
  · obtain ⟨c, r, split, -, announced, -⟩ := spelled
    refine ⟨c, r, split, ?_⟩
    rintro rfl
    have digit : isDigit '=' = false := by decide
    simp [digit] at announced
  · obtain ⟨c, r, split, isQuote, -⟩ := spelled
    refine ⟨c, r, split, ?_⟩
    rcases isQuote with rfl | rfl <;> decide
  · rename_i kind
    simp [isNameToken, literalKind?, kind] at leaf
  · rename_i kind
    simp [isNameToken, literalKind?, kind] at leaf
  · exact spelled.elim

theorem Spelled.word {t : Tok} (spelled : Spelled t)
    (kinds : t.kind ≠ .operator ∧ t.kind ≠ .punctuator ∧ t.kind ≠ .number ∧ t.kind ≠ .string) :
    ∃ c r, t.text = c :: r ∧ isIdentStart c = true := by
  have word : IsWord t.text → ∃ c r, t.text = c :: r ∧ isIdentStart c = true := by
    rintro ⟨c, r, split, isStart, -⟩
    exact ⟨c, r, split, isStart⟩
  unfold Spelled at spelled
  split at spelled
  · exact word spelled.1
  · exact word spelled.1
  · exact word spelled.1
  · exact word spelled.1
  · exact absurd ‹_› kinds.2.2.1
  · exact absurd ‹_› kinds.2.2.2
  · exact absurd ‹_› kinds.1
  · exact absurd ‹_› kinds.2.1
  · exact spelled.elim

theorem spelled_of_word {t : Tok} (isWord : IsWord t.text) (kind : t.kind = wordKind t.text) :
    Spelled t := by
  have cases : t.kind = .identifier ∨ t.kind = .boolean ∨ t.kind = .null ∨
      t.kind = .undefined := by
    rw [kind, wordKind]
    repeat' split
    all_goals simp
  rcases cases with same | same | same | same <;> rw [Spelled, same] <;>
    exact ⟨isWord, kind.symm.trans same⟩

/-- Tokens read inside an interpolation are spelled like their kinds. -/
theorem spelled_of_next? {k k' : Cursor} {t : Tok} (here : k.next? = some (t, k'))
    (mode : k.modes.current = .interpolation) (more : k'.rest ≠ [])
    (stays : t.kind.shift = .stay) : Spelled t := by
  obtain ⟨gap, c, rest, -, -, rfl, left, -, -⟩ := next?_eq_some here
  rw [left] at more
  clear here left
  simp only [mode, Mode.lexeme, Token.at] at more stays ⊢
  revert more stays
  fun_cases expressionLexeme c rest with
  | case1 => exact fun _ stays => absurd stays (by decide)
  | case2 notEnd isStart extra =>
      intro _ _
      have plain : tokenText (wordKind (c :: rest.take extra)) (c :: rest.take extra) =
          c :: rest.take extra := by
        simp only [wordKind]
        repeat' split
        all_goals rfl
      refine spelled_of_word ?_ ?_
      · change IsWord (tokenText (wordKind (c :: rest.take extra)) (c :: rest.take extra))
        rw [plain]
        refine ⟨c, _, rfl, isStart, fun d member => ?_⟩
        rw [take_runLength] at member
        exact List.mem_takeWhile_imp member
      · simp only [plain]
  | case3 notEnd notWord announced =>
      intro _ _
      obtain ⟨r, taken, same, first⟩ := numberLength_announced announced
      simp only [Spelled, tokenText, ← same]
      refine ⟨c, r, rfl, by simpa using notWord, first, ?_⟩
      rw [← taken]
      exact numeral_take _
  | case4 notEnd notWord notNumber isQuote =>
      intro more _
      simp only [Spelled, tokenText]
      refine ⟨c, _, rfl, by simpa using isQuote, fun w => ?_⟩
      have closed : stringExtent c (rest.take (stringExtent c rest) ++
          rest.drop (stringExtent c rest)) = (rest.take (stringExtent c rest)).length := by
        rw [List.take_append_drop, List.length_take, Nat.min_eq_left (stringExtent_le c rest)]
      exact stringExtent_append closed more w
  | case5 notEnd notWord notNumber notQuote op found =>
      intro _ _
      simp only [Spelled, tokenText]
      refine ⟨op, List.mem_of_find?_eq_some found, ?_⟩
      have starts : startsWith (c :: rest) op.toList = true := by
        simpa using List.find?_some found
      have front : op.toList <+: c :: rest := List.isPrefixOf_iff_prefix.1 starts
      have some : op.toList ≠ [] := by
        have table : ∀ op ∈ operators, op.toList ≠ [] := by decide
        exact table op (List.mem_of_find?_eq_some found)
      have length : op.length - 1 + 1 = op.toList.length := by
        have positive := List.length_pos_iff.2 some
        rw [String.length_toList] at positive ⊢
        omega
      rw [List.prefix_iff_eq_take.1 front, ← length, List.take_succ_cons]
  | case6 => exact fun _ _ => trivial

theorem Steps.length_le {k k' : Cursor} {toks : List Tok} (steps : Steps k toks k') :
    k'.rest.length ≤ k.rest.length := by
  induction steps with
  | nil => exact Nat.le_refl _
  | cons here later ih => exact Nat.le_trans ih (Nat.le_of_lt (Cursor.next?_rest_lt here))

/-- In front of tokens and something behind them there is something. -/
theorem Steps.some_left {k k' : Cursor} {toks : List Tok} (steps : Steps k toks k')
    (more : k'.rest ≠ []) : k.rest ≠ [] := by
  intro none
  have short := steps.length_le
  rw [none] at short
  exact more (List.eq_nil_of_length_eq_zero (Nat.le_zero.1 short))

/-- Tokens inside an interpolation that do not end it, in front of something. -/
theorem Steps.spelled {k k' : Cursor} {toks : List Tok} (steps : Steps k toks k')
    (mode : k.modes.current = .interpolation) (more : k'.rest ≠ [])
    (stay : ∀ t ∈ toks, t.kind.shift = .stay) :
    (∀ t ∈ toks, Spelled t) ∧ k'.modes = k.modes := by
  induction steps with
  | nil k => exact ⟨by simp, rfl⟩
  | @cons k between k' t toks here later ih =>
      have stays := stay t List.mem_cons_self
      have modes : between.modes = k.modes := by
        rw [modes_of_next? here, stays]
        rfl
      have some : between.rest ≠ [] := later.some_left more
      obtain ⟨spelled, same⟩ := ih (by rw [modes, mode]) more
        fun u member => stay u (List.mem_cons_of_mem _ member)
      refine ⟨fun u member => ?_, same.trans modes⟩
      rcases List.mem_cons.1 member with rfl | member
      · exact spelled_of_next? here mode some stays
      · exact spelled u member

/-! ## Tokens that can stand in an expression -/

/-- The brackets and the comma. -/
def marks : Text := "()[]\x7b\x7d,".toList

/-- The token can stand in an expression: it leaves the modes alone, and a
punctuator is a bracket or a comma. -/
def Belongs (t : Tok) : Prop :=
  t.kind.shift = .stay ∧ (t.kind = .punctuator → ∃ c ∈ marks, t.text = [c])

theorem belongs_of_leaf {t : Tok} (leaf : isMemberName t = true ∨
    (∃ kind, literalKind? t.kind = some kind) ∨ ∃ kind, keyLiteral? t.kind = some kind) :
    Belongs t := by
  unfold isMemberName isNameToken at leaf
  cases kind : t.kind <;> simp [kind, literalKind?, keyLiteral?] at leaf <;>
    exact ⟨by rw [kind]; rfl, fun other => by rw [kind] at other; cases other⟩

theorem belongs_of_name {t : Tok} (isName : isNameToken t = true) : Belongs t := by
  rcases kind_of_isNameToken isName with kind | kind <;>
    exact ⟨by rw [kind]; rfl, fun other => by rw [kind] at other; cases other⟩

theorem belongs_of_operator {t : Tok} (isOp : t.kind = .operator) : Belongs t :=
  ⟨by rw [isOp]; rfl, fun other => by rw [isOp] at other; cases other⟩

theorem belongs_of_punctuator {c : Char} {t : Tok} (isMark : isPunctuator c t = true)
    (member : c ∈ marks) : Belongs t := by
  obtain ⟨kind, text⟩ := isPunctuator_iff.1 isMark
  exact ⟨by rw [kind]; rfl, fun _ => ⟨c, member, text⟩⟩

theorem belongs_bracketed {bra ket : Char} {opening closing : Tok} {inner : List Tok}
    (opens : isPunctuator bra opening = true) (inside : ∀ t ∈ inner, Belongs t)
    (closes : isPunctuator ket closing = true) (bra_mem : bra ∈ marks) (ket_mem : ket ∈ marks) :
    ∀ t ∈ opening :: (inner ++ [closing]), Belongs t := by
  intro t member
  simp only [List.mem_cons, List.mem_append, List.not_mem_nil, or_false] at member
  rcases member with rfl | member | rfl
  · exact belongs_of_punctuator opens bra_mem
  · exact inside t member
  · exact belongs_of_punctuator closes ket_mem

theorem Items.belongs {α : Type} {item : List Tok → α → Prop} {toks : List Tok} {xs : List α}
    (each : ∀ toks x, item toks x → ∀ t ∈ toks, Belongs t)
    (items : Items item toks xs) : ∀ t ∈ toks, Belongs t := by
  induction items with
  | nil => simp
  | last here => exact each _ _ here
  | more here isComma rest ih =>
      simp only [List.forall_mem_append, List.forall_mem_cons]
      exact ⟨each _ _ here, belongs_of_punctuator isComma (by decide), ih⟩

section

variable {spells : List Tok → Expr → Prop}
  (nested : ∀ toks e, spells toks e → ∀ t ∈ toks, Belongs t)

include nested

theorem KeySpells.belongs (toks : List Tok) (key : Key) (spelled : KeySpells spells toks key) :
    ∀ t ∈ toks, Belongs t := by
  cases spelled with
  | name isName => simpa using belongs_of_name isName
  | literal isLiteral => simpa using belongs_of_leaf (.inr (.inr ⟨_, isLiteral⟩))
  | computed opens body closes =>
      exact belongs_bracketed opens (nested _ _ body) closes (by decide) (by decide)

theorem EntrySpells.belongs (toks : List Tok) (entry : Entry)
    (spelled : EntrySpells spells toks entry) : ∀ t ∈ toks, Belongs t := by
  cases spelled with
  | shorthand here => exact KeySpells.belongs nested _ _ here
  | pair here isColon rest =>
      simp only [List.forall_mem_cons, List.forall_mem_append]
      exact ⟨KeySpells.belongs nested _ _ here, belongs_of_operator (isOperator_iff.1 isColon).1,
        nested _ _ rest⟩

theorem Derives.belongs {level : Nat} {toks : List Tok} {e : Expr}
    (derived : Derives spells level toks e) : ∀ t ∈ toks, Belongs t := by
  induction derived with
  | name isName => simpa using belongs_of_name isName
  | literal isLiteral => simpa using belongs_of_leaf (.inr (.inl ⟨_, isLiteral⟩))
  | grouping opens body closes =>
      exact belongs_bracketed opens (nested _ _ body) closes (by decide) (by decide)
  | array opens items closes =>
      exact belongs_bracketed opens (items.belongs nested) closes (by decide) (by decide)
  | object opens entries closes =>
      exact belongs_bracketed opens (entries.belongs (EntrySpells.belongs nested)) closes
        (by decide) (by decide)
  | member here isPoint isName ih =>
      simp only [List.forall_mem_cons, List.forall_mem_append, List.not_mem_nil, false_imp_iff,
        implies_true, and_true]
      exact ⟨ih, belongs_of_operator (isOperator_iff.1 isPoint).1, belongs_of_leaf (.inl isName)⟩
  | index here opens body closes ih =>
      exact List.forall_mem_append.2
        ⟨ih, belongs_bracketed opens (nested _ _ body) closes (by decide) (by decide)⟩
  | call here opens items closes ih =>
      exact List.forall_mem_append.2
        ⟨ih, belongs_bracketed opens (items.belongs nested) closes (by decide) (by decide)⟩
  | unary isSign here ih =>
      simp only [List.forall_mem_cons]
      exact ⟨belongs_of_operator (isOperatorOf_iff.1 isSign).1, ih⟩
  | binary first isOp second ihFirst ihSecond =>
      simp only [List.forall_mem_cons, List.forall_mem_append]
      exact ⟨ihFirst, belongs_of_operator (isOperatorOf_iff.1 isOp).1, ihSecond⟩
  | conditional test asks yes splits no ih =>
      simp only [List.forall_mem_cons, List.forall_mem_append]
      exact ⟨ih, belongs_of_operator (isOperator_iff.1 asks).1, nested _ _ yes,
        belongs_of_operator (isOperator_iff.1 splits).1, nested _ _ no⟩
  | assignment target assigns value ih =>
      simp only [List.forall_mem_cons, List.forall_mem_append]
      exact ⟨ih, belongs_of_operator (isOperatorOf_iff.1 assigns).1, nested _ _ value⟩
  | tighter here ih => exact ih

end

theorem Spells.belongs {n : Nat} {toks : List Tok} {e : Expr} (spelled : Spells n toks e) :
    ∀ t ∈ toks, Belongs t := by
  induction n generalizing toks e with
  | zero => exact spelled.elim
  | succ n ih => exact Derives.belongs (fun _ _ inner => ih inner) spelled

/-- Tokens between the marks of an interpolation are spelled like their kinds. -/
theorem Spells.spelled {n : Nat} {toks rest : List Tok} {closing : Tok} {e : Expr} {k k' : Cursor}
    (spells : Spells n toks e) (steps : Steps k (toks ++ closing :: rest) k')
    (mode : k.modes.current = .interpolation) :
    ∀ t ∈ toks, Spelled t := by
  obtain ⟨between, first, second⟩ := steps.split
  have more : between.rest ≠ [] := by
    cases second with
    | cons here later =>
        intro none
        have shorter := Cursor.next?_rest_lt here
        rw [none] at shorter
        exact absurd shorter (Nat.not_lt_zero _)
  exact (first.spelled mode more fun t member => (spells.belongs t member).1).1

/-! ## Leaves -/

/-- The characters the printer puts behind a leaf. -/
def delimiters : Text := " )],[(:.".toList

/-- The text opens with a character that ends a leaf. -/
def Delimited (w : Text) : Prop :=
  ∃ d ∈ delimiters, w.head? = some d

theorem Delimited.clear {w : Text} (ends : Delimited w) {p : Char → Bool}
    (fails : (delimiters.all fun d => !p d) = true) : Clear p w := by
  obtain ⟨d, member, head⟩ := ends
  intro c first
  rw [head] at first
  cases first
  simpa using List.all_eq_true.1 fails d member

theorem expressionGap_eq_zero {c : Char} (text : Text) (notBlank : isPlainBlank c = false)
    (notSlash : c ≠ '/') : expressionGap (c :: text) = 0 := by
  rw [expressionGap]
  simp [notBlank, notSlash]

/-- No leaf begins with a blank, a slash or a closing brace. -/
theorem leaf_front {c : Char} (leaf : isIdentStart c = true ∨ isDigit c = true ∨ c = '.' ∨
    c = '\x22' ∨ c = '\x27') : isPlainBlank c = false ∧ c ≠ '/' ∧ c ≠ '}' := by
  refine ⟨?_, ?_, ?_⟩
  · rw [Bool.eq_false_iff, Ne, isPlainBlank_iff]
    rintro (rfl | rfl | rfl | rfl) <;> revert leaf <;> decide
  · rintro rfl
    revert leaf
    decide
  · rintro rfl
    revert leaf
    decide

section

variable {ms : Modes} {w : Text}

/-- A token of an expression at the front of a text without a gap. -/
theorem lexes_inside {c : Char} {r : Text} {kind : Kind} (noGap : expressionGap (c :: (r ++ w)) = 0)
    (here : expressionLexeme c (r ++ w) = { kind, extra := r.length })
    (plain : kind ≠ .comment) :
    Lexes (.interpolation :: ms) (c :: r) w (.interpolation :: ms) (IsToken kind (c :: r)) := by
  have lexes : Lexes (.interpolation :: ms) (c :: r) w (.interpolation :: ms)
      (IsToken kind (tokenText kind (c :: r))) :=
    @lexes_token (.interpolation :: ms) c r w kind .stay noGap here
  have same : tokenText kind (c :: r) = c :: r := by
    cases kind <;> first | rfl | exact absurd rfl plain
  rwa [same] at lexes

theorem wordKind_ne_comment (word : Text) : wordKind word ≠ .comment := by
  unfold wordKind
  repeat' split
  all_goals decide

theorem lexes_word {text : Text} (isWord : IsWord text) (ends : Delimited w) :
    Lexes (.interpolation :: ms) text w (.interpolation :: ms)
      (IsToken (wordKind text) text) := by
  obtain ⟨c, r, rfl, isStart, all⟩ := isWord
  obtain ⟨notBlank, notSlash, notBrace⟩ := leaf_front (.inl isStart)
  have run : runLength isIdentChar (r ++ w) = r.length :=
    runLength_append all (ends.clear (by decide))
  refine lexes_inside (expressionGap_eq_zero _ notBlank notSlash) ?_ (wordKind_ne_comment _)
  simp [expressionLexeme, notBrace, isStart, run]

theorem lexes_number {text : Text} (isNumber : IsNumber text) (ends : Delimited w)
    (noPoint : w.head? = some '.' → text.all isDigit = false) :
    Lexes (.interpolation :: ms) text w (.interpolation :: ms) (IsToken .number text) := by
  obtain ⟨c, r, rfl, notWord, announced, numeral⟩ := isNumber
  have front : isDigit c = true ∨ c = '.' := by
    simp only [Bool.or_eq_true, Bool.and_eq_true, decide_eq_true_eq] at announced
    exact announced.imp id And.left
  obtain ⟨notBlank, notSlash, notBrace⟩ := leaf_front (.inr (front.imp id .inl))
  have again : (isDigit c || (c = '.' && (r ++ w).head?.any isDigit)) = true := by
    cases r with
    | nil =>
        have digit : isDigit c = true := by simpa using announced
        simp [digit]
    | cons d r => exact announced
  have length : numberLength isDigit (c :: (r ++ w)) = r.length + 1 :=
    numberLength_append numeral (by simp) ⟨ends.clear (by decide), noPoint⟩
  refine lexes_inside (expressionGap_eq_zero _ notBlank notSlash) ?_ (by decide)
  simp only [expressionLexeme, notBrace, decide_false, Bool.false_and, Bool.false_eq_true, if_false,
    notWord, again, if_true, length, Nat.add_sub_cancel]

theorem lexes_string {text : Text} (isString : IsString text) :
    Lexes (.interpolation :: ms) text w (.interpolation :: ms) (IsToken .string text) := by
  obtain ⟨quote, r, rfl, isQuote, extent⟩ := isString
  obtain ⟨notBlank, notSlash, notBrace⟩ := leaf_front (.inr (.inr (.inr isQuote)))
  refine lexes_inside (expressionGap_eq_zero _ notBlank notSlash) ?_ (by decide)
  have other : isIdentStart quote = false ∧ isDigit quote = false ∧ quote ≠ '.' := by
    rcases isQuote with rfl | rfl <;> decide
  simp [expressionLexeme, notBrace, other, isQuote, extent w]

/-- A leaf is read back from its text. -/
theorem lexes_leaf {t : Tok} (spelled : Spelled t) (notOperator : t.kind ≠ .operator)
    (notPunctuator : t.kind ≠ .punctuator) (ends : Delimited w)
    (noPoint : w.head? = some '.' → t.kind = .number → t.text.all isDigit = false) :
    Lexes (.interpolation :: ms) t.text w (.interpolation :: ms) (IsToken t.kind t.text) := by
  unfold Spelled at spelled
  split at spelled
  · rw [← spelled.2]
    exact lexes_word spelled.1 ends
  · rw [← spelled.2]
    exact lexes_word spelled.1 ends
  · rw [← spelled.2]
    exact lexes_word spelled.1 ends
  · rw [← spelled.2]
    exact lexes_word spelled.1 ends
  · rename_i kind
    rw [kind]
    exact lexes_number spelled ends fun point => noPoint point kind
  · rename_i kind
    rw [kind]
    exact lexes_string spelled
  · contradiction
  · contradiction
  · exact spelled.elim

/-! ## Operators and punctuators -/

theorem expressionGap_slash {d : Char} (text : Text) (other : d ≠ '/' ∧ d ≠ '*') :
    expressionGap ('/' :: d :: text) = 0 := by
  have notBlank : isPlainBlank '/' = false := by decide
  rw [expressionGap]
  simp [notBlank, startsWith, List.isPrefixOf, Ne.symm other.1, Ne.symm other.2]

/-- The operators the printer puts a space behind. -/
def spacedOperators : List String := [
  "||", "&&", "==", "!=", "===", "!==", "<", ">", "<=", ">=", "+", "-", "*", "/", "%",
  "=", "+=", "-=", "*=", "/=", "%=", "?", ":"
]

theorem lexes_operator {op : String} (member : op ∈ spacedOperators) :
    Lexes (.interpolation :: ms) op.toList (' ' :: w) (.interpolation :: ms)
      (IsToken .operator op.toList) := by
  suffices shape : ∃ c r, op.toList = c :: r ∧ expressionGap (c :: (r ++ ' ' :: w)) = 0 ∧
      expressionLexeme c (r ++ ' ' :: w) = { kind := .operator, extra := r.length } by
    obtain ⟨c, r, split, noGap, here⟩ := shape
    rw [split]
    exact lexes_inside noGap here (by decide)
  simp only [spacedOperators, List.mem_cons, List.not_mem_nil, or_false] at member
  rcases member with rfl | rfl | rfl | rfl | rfl | rfl | rfl | rfl | rfl | rfl | rfl | rfl | rfl |
    rfl | rfl | rfl | rfl | rfl | rfl | rfl | rfl | rfl | rfl
  all_goals
    refine ⟨_, _, rfl, ?_, rfl⟩
    first
    | exact expressionGap_eq_zero _ (by decide) (by decide)
    | exact expressionGap_slash _ (by decide)

/-- Spaces around an operator do not matter. -/
theorem lexes_spaced {op : String} (member : op ∈ spacedOperators) :
    Lexes (.interpolation :: ms) (' ' :: op.toList) (' ' :: w) (.interpolation :: ms)
      (IsToken .operator op.toList) := by
  have spaced : Blanks [' '] := by decide
  exact (lexes_operator member).blanks (by simp [Modes.current]) (by simp [IsToken]) spaced

/-- A sign is read alone, unless an equals sign or the same sign follows. -/
theorem lexes_sign {op : String} (isSign : op ∈ unaryOperators) {d : Char}
    (apart : d ≠ '=' ∧ (d = '+' → op ≠ "+") ∧ (d = '-' → op ≠ "-")) :
    Lexes (.interpolation :: ms) op.toList (d :: w) (.interpolation :: ms)
      (IsToken .operator op.toList) := by
  have notEquals : ¬ ('=' = d) := Ne.symm apart.1
  suffices shape : ∃ c, op.toList = [c] ∧ expressionGap (c :: d :: w) = 0 ∧
      expressionLexeme c (d :: w) = { kind := .operator, extra := 0 } by
    obtain ⟨c, split, noGap, here⟩ := shape
    rw [split]
    exact lexes_inside noGap here (by decide)
  simp only [unaryOperators, List.mem_cons, List.not_mem_nil, or_false] at isSign
  rcases isSign with rfl | rfl | rfl | rfl
  · have other : ¬ ('+' = d) := fun same => apart.2.1 same.symm rfl
    refine ⟨'+', rfl, expressionGap_eq_zero _ (by decide) (by decide), ?_⟩
    have front : isIdentStart '+' = false ∧ isDigit '+' = false := by decide
    simp [expressionLexeme, operators, startsWith, List.isPrefixOf, front, notEquals, other]
    rfl
  · have other : ¬ ('-' = d) := fun same => apart.2.2 same.symm rfl
    refine ⟨'-', rfl, expressionGap_eq_zero _ (by decide) (by decide), ?_⟩
    have front : isIdentStart '-' = false ∧ isDigit '-' = false := by decide
    simp [expressionLexeme, operators, startsWith, List.isPrefixOf, front, notEquals, other]
    rfl
  · refine ⟨'!', rfl, expressionGap_eq_zero _ (by decide) (by decide), ?_⟩
    have front : isIdentStart '!' = false ∧ isDigit '!' = false := by decide
    simp [expressionLexeme, operators, startsWith, List.isPrefixOf, front, notEquals]
    rfl
  · exact ⟨'~', rfl, expressionGap_eq_zero _ (by decide) (by decide), rfl⟩

theorem isDigit_of_isIdentStart {c : Char} (isStart : isIdentStart c = true) :
    isDigit c = false := by
  have ascii : c.toNat < 128 ∧ (c.toNat < 48 ∨ 57 < c.toNat) := by
    have letters : c.isAlpha = (decide (c.val ≥ 'A'.val ∧ c.val ≤ 'Z'.val) ||
        (decide (c.val ≥ 'a'.val) && decide (c.val ≤ 'z'.val))) := rfl
    simp only [isIdentStart, letters, Bool.or_eq_true, Bool.and_eq_true, decide_eq_true_eq,
      beq_iff_eq, UInt32.le_iff_toNat_le] at isStart
    have same : c.toNat = c.val.toNat := rfl
    rcases isStart with ((⟨low, high⟩ | ⟨low, high⟩) | rfl) | rfl
    · simp at low high
      omega
    · simp at low high
      omega
    · decide
    · decide
  by_contra digit
  have range := toNat_of_isDigit (by simpa using digit)
  omega

/-- A point in front of a name is no number. -/
theorem lexes_point {d : Char} (isStart : isIdentStart d = true) :
    Lexes (.interpolation :: ms) ['.'] (d :: w) (.interpolation :: ms)
      (IsToken .operator ".".toList) := by
  refine lexes_inside (expressionGap_eq_zero _ (by decide) (by decide)) ?_ (by decide)
  have front : isIdentStart '.' = false ∧ isDigit '.' = false := by decide
  simp [expressionLexeme, operators, startsWith, List.isPrefixOf, front,
    isDigit_of_isIdentStart isStart]
  rfl

/-- Brackets and commas are read alone. -/
theorem lexes_mark {c : Char} (member : c ∈ "()[]\x7b,".toList) :
    Lexes (.interpolation :: ms) [c] w (.interpolation :: ms) (IsToken .punctuator [c]) := by
  have member : c = '(' ∨ c = ')' ∨ c = '[' ∨ c = ']' ∨ c = '{' ∨ c = ',' := by
    simpa using member
  rcases member with rfl | rfl | rfl | rfl | rfl | rfl
  all_goals
    exact lexes_inside (expressionGap_eq_zero _ (by decide) (by decide)) rfl (by decide)

/-- A closing brace is read alone when no other follows. -/
theorem lexes_brace {d : Char} (notBrace : d ≠ '}') :
    Lexes (.interpolation :: ms) ['}'] (d :: w) (.interpolation :: ms)
      (IsToken .punctuator ['}']) := by
  refine lexes_inside (expressionGap_eq_zero _ (by decide) (by decide)) ?_ (by decide)
  have front : isIdentStart '}' = false ∧ isDigit '}' = false := by decide
  simp [expressionLexeme, operators, startsWith, List.isPrefixOf, front, Ne.symm notBrace]

end

end UiFormat.Markup

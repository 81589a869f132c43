/-
# UiFormat.Proofs.Ets.BracketMatching -- brackets by characters and by tokens

The component parser looks for the partner of a bracket character by character and passes
over literals on its own; the readers of ETS source count tokens.  Where a source has no
comment and no regular expression, both stop at the same place.

To the count of characters a token is one of three things (`Seen`): a literal, which it
passes over as far as the lexer does, a single bracket, or characters that it passes over
one at a time.  Each of them moves both counts alike (`balancedLength_token`), so the two
agree on every stretch of tokens (`balancedLength_tokensFrom`), whether the bracket is
closed in it or not.

Main statement: `balanced_eq_readBalanced`.
-/
import UiFormat.Proofs.Ets.BracketExtent
import UiFormat.Proofs.Ets.Spelling

namespace UiFormat.Ets

open UiFormat.Text
open UiFormat.Parse

set_option autoImplicit false

section Matching

variable {opening closing : Char}

/-! ## What the count of characters sees -/

/-- A round or curly bracket with its partner. -/
def IsPair (opening closing : Char) : Prop :=
  (opening = '(' ∧ closing = ')') ∨ (opening = '{' ∧ closing = '}')

/-- The character opens a string or a template literal. -/
def opensLiteral (c : Char) : Bool :=
  c == '\x22' || c == '\x27' || c == '\x60'

/-- The count passes over the character. -/
def isPassed (opening closing c : Char) : Bool :=
  c != opening && c != closing && !opensLiteral c

/-- The round and curly brackets. -/
def brackets : Text :=
  ['(', ')', '{', '}']

/-- The characters at which the count does more than go on. -/
def landmarks : Text :=
  brackets ++ ['\x22', '\x27', '\x60']

/-- A test that no landmark passes is passed only by characters the count passes over. -/
theorem IsPair.isPassed_of {p : Char → Bool} (pair : IsPair opening closing)
    (fails : ∀ d ∈ landmarks, p d = false) {c : Char} (passes : p c = true) :
    isPassed opening closing c = true := by
  have other : ∀ d ∈ landmarks, c ≠ d := by
    rintro d member rfl
    rw [fails c member] at passes
    cases passes
  have shape : opening ∈ landmarks ∧ closing ∈ landmarks := by
    rcases pair with ⟨rfl, rfl⟩ | ⟨rfl, rfl⟩ <;> decide
  simp only [isPassed, opensLiteral, Bool.and_eq_true, Bool.not_eq_true', Bool.or_eq_false_iff,
    bne_iff_ne, beq_eq_false_iff_ne]
  exact ⟨⟨other _ shape.1, other _ shape.2⟩, ⟨other _ (by decide), other _ (by decide)⟩,
    other _ (by decide)⟩

theorem IsPair.isPassed_of_isPlain (pair : IsPair opening closing) {c : Char}
    (plain : isPlain c = true) : isPassed opening closing c = true :=
  pair.isPassed_of (p := isPlain) (forall_mem_of_all (by decide)) plain

/-- What the count of characters sees of the token at the front of `c :: rest`. -/
inductive Seen (opening closing c : Char) (rest : Text) : Kind × Nat → Prop
  | literal {kind : Kind} (opens : opensLiteral c = true)
      (noSymbol : kind ≠ .punctuator ∧ kind ≠ .operator) :
      Seen opening closing c rest (kind, literalExtent c rest)
  | bracket (isBracket : c = opening ∨ c = closing) : Seen opening closing c rest (.punctuator, 0)
  | passed {kind : Kind} {extra : Nat}
      (passed : ∀ d ∈ c :: rest.take extra, isPassed opening closing d = true) :
      Seen opening closing c rest (kind, extra)

theorem symbol_of_bracket {c : Char} (isBracket : c ∈ brackets) (rest : Text) :
    symbol c rest = (.punctuator, 0) := by
  have table : ∀ op ∈ operators, op.toList.head?.any (!brackets.contains ·) = true := by decide
  have none : operator? (c :: rest) = none := by
    refine List.find?_eq_none.2 fun op member stands => ?_
    obtain ⟨later, split⟩ := List.isPrefixOf_iff_prefix.1 stands
    obtain ⟨d, first, other⟩ := (Option.any_eq_true _ _).1 (table op member)
    cases spelled : op.toList with
    | nil =>
        rw [spelled] at first
        cases first
    | cons e others =>
        rw [spelled] at split first
        cases first
        obtain rfl := (List.cons.inj split).1
        simp [isBracket] at other
  have noSpread : startsWith (c :: rest) "...".toList = false := by
    have notPoint : ('.' == c) = false := by
      rw [beq_eq_false_iff_ne]
      rintro rfl
      revert isBracket
      decide
    simp [startsWith, List.isPrefixOf, notPoint]
  rw [symbol, none, noSpread]
  rfl

theorem lexeme_of_bracket {c : Char} (isBracket : c ∈ brackets) (operandBefore : Bool)
    (rest : Text) : lexeme operandBefore c rest = (.punctuator, 0) := by
  have fails : ∀ {p : Char → Bool}, (∀ d ∈ brackets, p d = false) → p c = false :=
    fun all => all c isBracket
  have other : ∀ {d : Char}, d ∉ brackets → c ≠ d := by
    rintro d outside rfl
    exact outside isBracket
  rw [← symbol_of_bracket isBracket rest, lexeme]
  have notFeed := other (d := '\n') (by decide)
  have notReturn := other (d := '\r') (by decide)
  have notSlash := other (d := '/') (by decide)
  have notAt := other (d := '@') (by decide)
  have notPoint := other (d := '.') (by decide)
  have noLiteral := fails (p := opensLiteral) (forall_mem_of_all (by decide))
  have noBlank := fails (p := isInlineBlank) (forall_mem_of_all (by decide))
  have noDigit := fails (p := Char.isDigit) (forall_mem_of_all (by decide))
  have noName := fails (p := isIdentStart) (forall_mem_of_all (by decide))
  simp only [opensLiteral, Bool.or_eq_false_iff, beq_eq_false_iff_ne] at noLiteral
  simp [notFeed, notReturn, notSlash, notAt, notPoint, noLiteral, noBlank, noDigit, noName]

theorem lexeme_of_opensLiteral {c : Char} (opens : opensLiteral c = true) (operandBefore : Bool)
    (rest : Text) :
    lexeme operandBefore c rest =
      (if c = '\x60' then .template else .string, literalExtent c rest) := by
  have quotes : (c = '\x22' ∨ c = '\x27') ∨ c = '\x60' := by
    simpa only [opensLiteral, Bool.or_eq_true, beq_iff_eq] using opens
  rcases quotes with (rfl | rfl) | rfl <;> rfl

/-- Whatever is no bracket and opens no literal is passed over, and so is all that its token
holds, comments and regular expressions apart. -/
theorem passed_of_lexeme (pair : IsPair opening closing) {operandBefore : Bool} {c : Char}
    {rest : Text} (noLiteral : opensLiteral c = false)
    (noComment : (lexeme operandBefore c rest).1.isComment = false)
    (noRegexp : (lexeme operandBefore c rest).1 ≠ .regexp) :
    ∀ d ∈ rest.take (lexeme operandBefore c rest).2, isPassed opening closing d = true := by
  have plain : ∀ {text : Text}, (∀ d ∈ text, isPlain d = true) →
      ∀ d ∈ text, isPassed opening closing d = true :=
    fun all d member => pair.isPassed_of_isPlain (all d member)
  have name : ∀ d ∈ rest.take (runLength isIdentChar rest), isPassed opening closing d = true := by
    rw [take_runLength]
    exact plain (plain_takeWhile_isIdentChar rest)
  have nothing : ∀ d ∈ rest.take 0, isPassed opening closing d = true := by
    rw [List.take_zero]
    exact fun d member => by cases member
  simp only [opensLiteral, Bool.or_eq_false_iff, beq_eq_false_iff_ne] at noLiteral
  revert noComment noRegexp
  fun_cases lexeme operandBefore c rest with
  | case1 => exact fun _ _ => nothing
  | case2 =>
      intro _ _
      dsimp only
      split
      · rename_i feeds
        obtain ⟨later, split⟩ := List.isPrefixOf_iff_prefix.1 feeds
        rw [← split]
        refine List.forall_mem_singleton.2 ?_
        exact pair.isPassed_of (p := (· == '\n')) (forall_mem_of_all (by decide)) rfl
      · exact nothing
  | case3 =>
      intro _ _ d member
      rw [take_runLength] at member
      exact pair.isPassed_of (p := isInlineBlank) (forall_mem_of_all (by decide))
        (List.mem_takeWhile_imp member)
  | case4 => exact fun comment _ => by cases comment
  | case5 =>
      intro comment _
      dsimp only at comment
      split at comment
      · cases comment
      · cases comment
  | case6 => exact fun _ _ => name
  | case7 _ _ _ _ _ _ opens => exact absurd opens (by simp [noLiteral])
  | case8 _ _ _ _ _ _ _ opens => exact absurd opens noLiteral.2
  | case9 => exact fun _ _ => plain (plain_numberExtent c rest)
  | case10 => exact fun _ _ => name
  | case11 =>
      fun_cases slash operandBefore rest with
      | case1 => exact fun _ regexp => absurd rfl regexp
      | case2 => exact fun _ _ => plain (plain_symbol '/' rest)
  | case12 => exact fun _ _ => plain (plain_symbol c rest)

/-- Apart from comments and regular expressions every token is a literal, a bracket, or
passed over. -/
theorem lexeme_seen (pair : IsPair opening closing) {operandBefore : Bool} {c : Char} {rest : Text}
    (noComment : (lexeme operandBefore c rest).1.isComment = false)
    (noRegexp : (lexeme operandBefore c rest).1 ≠ .regexp) :
    Seen opening closing c rest (lexeme operandBefore c rest) := by
  by_cases isBracket : c = opening ∨ c = closing
  · have known : c ∈ brackets := by
      rcases pair with ⟨rfl, rfl⟩ | ⟨rfl, rfl⟩ <;> rcases isBracket with rfl | rfl <;> decide
    rw [lexeme_of_bracket known]
    exact .bracket isBracket
  cases opens : opensLiteral c with
  | true =>
      rw [lexeme_of_opensLiteral opens]
      exact .literal opens (by split <;> decide)
  | false =>
      refine .passed (List.forall_mem_cons.2 ⟨?_, passed_of_lexeme pair opens noComment noRegexp⟩)
      rw [not_or] at isBracket
      simp [isPassed, isBracket, opens]

/-! ## One token -/

theorem balancedLength_cons (depth : Nat) (c : Char) (rest : Text) :
    balancedLength opening closing depth (c :: rest) =
      if opensLiteral c then
        literalExtent c rest + 1 +
          balancedLength opening closing depth (rest.drop (literalExtent c rest))
      else
        let depth :=
          if c = opening then depth + 1 else if c = closing then depth - 1 else depth
        if depth = 0 then 1 else balancedLength opening closing depth rest + 1 := by
  rw [balancedLength]
  simp only [opensLiteral, Bool.or_eq_true, decide_eq_true_eq, beq_iff_eq]
  split
  · omega
  · rfl

theorem balancedLength_passed {x : Text} (passed : ∀ c ∈ x, isPassed opening closing c = true)
    (depth : Nat) (rest : Text) :
    balancedLength opening closing (depth + 1) (x ++ rest) =
      x.length + balancedLength opening closing (depth + 1) rest := by
  induction x with
  | nil => exact (Nat.zero_add _).symm
  | cons c x ih =>
      rw [List.forall_mem_cons] at passed
      obtain ⟨here, later⟩ := passed
      simp only [isPassed, Bool.and_eq_true, Bool.not_eq_true', bne_iff_ne] at here
      simp only [List.cons_append, balancedLength_cons, here, if_false, Bool.false_eq_true,
        Nat.add_one_ne_zero, ih later, List.length_cons]
      omega

/-- Round and curly brackets are opened and closed one at a time. -/
theorem IsPair.depthAfter_eq (pair : IsPair opening closing) {t : Tok}
    (symbol : isSymbolToken t = true) (depth : Nat) :
    depthAfter [opening] [closing] depth t =
      if t.text = [opening] then depth + 1
      else if t.text = [closing] then depth - 1
      else depth := by
  refine depthAfter_of_symbol ?_ symbol depth
  rcases pair with ⟨-, rfl⟩ | ⟨-, rfl⟩ <;> decide

/-- What the two counts do at a token: the levels after it are the same, and as long as one
is open the count of characters goes on behind it. -/
theorem balancedLength_token (pair : IsPair opening closing) {c : Char} {rest : Text} {t : Tok}
    {kind : Kind} {extra : Nat} (seen : Seen opening closing c rest (kind, extra))
    (isKind : t.kind = kind) (text : t.text = c :: rest.take extra) (depth : Nat) :
    balancedLength opening closing (depth + 1) (c :: rest) =
      t.text.length +
        if depthAfter [opening] [closing] (depth + 1) t = 0 then 0
        else balancedLength opening closing (depthAfter [opening] [closing] (depth + 1) t)
          (rest.drop extra) := by
  cases seen with
  | literal opens noSymbol =>
      have fits := literalExtent_le c rest
      have other : isSymbolToken t = false := by simp [isSymbolToken, isKind, noSymbol]
      rw [depthAfter_of_noSymbol other, balancedLength_cons, if_pos opens, text]
      simp only [List.length_cons, List.length_take, Nat.min_eq_left fits, Nat.add_one_ne_zero,
        if_false]
  | bracket isBracket =>
      have symbol : isSymbolToken t = true := by simp [isSymbolToken, isKind]
      have single : t.text = [c] := by rw [text, List.take_zero]
      have noLiteral : opensLiteral c = false := by
        rcases pair with ⟨rfl, rfl⟩ | ⟨rfl, rfl⟩ <;> rcases isBracket with rfl | rfl <;> decide
      rw [pair.depthAfter_eq symbol, balancedLength_cons, single]
      simp only [noLiteral, Bool.false_eq_true, if_false, List.cons.injEq, and_true, List.drop_zero,
        List.length_singleton]
      generalize (if c = opening then depth + 1 + 1 else if c = closing then depth + 1 - 1
        else depth + 1) = levels
      split <;> omega
  | passed passed =>
      have same : depthAfter [opening] [closing] (depth + 1) t = depth + 1 := by
        cases symbol : isSymbolToken t with
        | false => exact depthAfter_of_noSymbol symbol _
        | true =>
            have here := passed c List.mem_cons_self
            simp only [isPassed, Bool.and_eq_true, bne_iff_ne] at here
            rw [pair.depthAfter_eq symbol, text, if_neg (by simp [here]), if_neg (by simp [here])]
      rw [same, if_neg (Nat.succ_ne_zero depth), ← List.take_append_drop extra rest,
        ← List.cons_append, balancedLength_passed passed, text, List.take_append_drop]

/-! ## Stretches of tokens -/

/-- None of the tokens is a comment or a regular expression. -/
def IsUncommented (tokens : List Tok) : Prop :=
  ∀ t ∈ tokens, t.kind.isComment = false ∧ t.kind ≠ .regexp

/-- Inside a bracket both counts reach the same place, or the end of the text. -/
theorem balancedLength_tokensFrom (pair : IsPair opening closing) {p : Position}
    {operandBefore : Bool} {text : Text}
    (uncommented : IsUncommented (tokensFrom p operandBefore text)) (depth : Nat) :
    balancedLength opening closing (depth + 1) text =
      (textOf ((tokensFrom p operandBefore text).take
        (balancedCount [opening] [closing] (depth + 1)
          (tokensFrom p operandBefore text)))).length := by
  fun_induction tokensFrom p operandBefore text generalizing depth with
  | case1 p operandBefore => rw [balancedLength]; rfl
  | case2 p operandBefore c rest kind extra here text operand ih =>
      obtain ⟨⟨noComment, noRegexp⟩, later⟩ := List.forall_mem_cons.1 uncommented
      have seen : Seen opening closing c rest (kind, extra) := by
        rw [← here]
        refine lexeme_seen pair ?_ ?_
        · rw [here]; exact noComment
        · rw [here]; exact noRegexp
      rw [balancedLength_token pair seen (t := Token.at p kind text text.length) rfl rfl,
        balancedCount]
      cases levels : depthAfter [opening] [closing] (depth + 1)
        (Token.at p kind text text.length) with
      | zero => simp [Token.at]
      | succ levels =>
          simp only [Nat.add_one_ne_zero, if_false, ih later, List.take_succ_cons, textOf_cons,
            List.length_append]

/-- The component parser reads as far as the count reaches. -/
theorem run_balanced (text : Text) (complete : Bool) :
    (balanced opening closing).run { rest := opening :: text, complete } =
      ((opening :: text).take (balancedLength opening closing 0 (opening :: text)),
        { rest := (opening :: text).drop (balancedLength opening closing 0 (opening :: text)),
          complete }) := by
  have stands : startsWith (opening :: text) [opening] = true := by
    simp [startsWith, List.isPrefixOf]
  show (if startsWith (opening :: text) [opening] then _ else _ : BodyParser Text).run _ = _
  rw [if_pos stands]
  rfl

/-- **Brackets by characters and by tokens.**  In a source without comments and regular
expressions the component parser, started on the text at a round or curly bracket, reads
what the readers of tokens read from that token on, and both leave the same text, also when
the bracket is never closed. -/
theorem balanced_eq_readBalanced (pair : IsPair opening closing) {source : Text}
    (uncommented : IsUncommented (tokenize source)) {t : Tok} {after : List Tok}
    (stands : t :: after <:+ lexemes source) (isPunctuator : t.kind = .punctuator)
    (isOpening : t.text = [opening]) (complete : Bool) (errors : List (ParseError Kind Problem)) :
    let characters := (balanced opening closing).run { rest := source.drop t.start, complete }
    let tokens := (readBalanced [opening] [closing] : EtsParser Text).run
      { rest := t :: after, closing := endToken source, errors }
    characters.1 = tokens.1 ∧ characters.2.rest = textOf tokens.2.rest := by
  intro characters tokens
  have inside : after <:+ lexemes source := (List.suffix_cons t after).trans stands
  obtain ⟨q, operand, isRest⟩ := eq_tokensFrom_of_suffix inside
  have known : IsUncommented (tokensFrom q operand (textOf after)) :=
    isRest ▸ fun u member => uncommented u (List.mem_append_left _ (inside.subset member))
  have opened : depthAfter [opening] [closing] 0 t = 1 := by
    rw [pair.depthAfter_eq (by simp [isSymbolToken, isPunctuator]), if_pos isOpening]
  have noLiteral : opensLiteral opening = false := by
    rcases pair with ⟨rfl, rfl⟩ | ⟨rfl, rfl⟩ <;> decide
  have here : source.drop t.start = opening :: textOf after := by
    rw [← textOf_suffix stands, textOf_cons, isOpening, List.singleton_append]
  -- Both counts take the opening bracket, and then what the counts inside it take.
  let count := balancedCount [opening] [closing] 1 after
  have byTokens : balancedCount [opening] [closing] 0 (t :: after) = count + 1 := by
    rw [balancedCount, opened, if_neg Nat.one_ne_zero]
  have byCharacters : balancedLength opening closing 0 (opening :: textOf after) =
      (opening :: textOf (after.take count)).length := by
    have inner := balancedLength_tokensFrom pair known 0
    rw [← isRest] at inner
    simp only [balancedLength_cons, noLiteral, Bool.false_eq_true, if_false, if_true,
      Nat.zero_add, Nat.one_ne_zero, List.length_cons]
    exact congrArg (· + 1) inner
  have split : opening :: textOf after =
      (opening :: textOf (after.take count)) ++ textOf (after.drop count) := by
    rw [List.cons_append, ← textOf_append, List.take_append_drop]
  have readCharacters : characters = _ := (congrArg (fun rest =>
    (balanced opening closing).run { rest, complete }) here).trans (run_balanced _ complete)
  have readTokens : tokens = (textOf ((t :: after).take (count + 1)),
      { rest := (t :: after).drop (count + 1), closing := endToken source, errors }) := by
    rw [← byTokens]
    rfl
  rw [readCharacters, readTokens, byCharacters, split, List.take_left, List.drop_left,
    List.take_succ_cons, textOf_cons, isOpening, List.drop_succ_cons]
  exact ⟨rfl, rfl⟩

end Matching

/-- Brackets in strings and in a template literal with groups, and a call that is never
closed. -/
def literalArguments : Text :=
  "f(')', \x60)$\x7b\x7b')': \x60(\x60\x7d\x7d\x60, \x22\\\x22(\x22) + g(\x7b a: '".toList

theorem balanced_literalArguments :
    IsPair '(' ')' ∧ IsUncommented (tokenize literalArguments) ∧
      bracketAt 1 '(' :: (lexemes literalArguments).drop 2 <:+ lexemes literalArguments ∧
      bracketAt 35 '(' :: (lexemes literalArguments).drop 15 <:+ lexemes literalArguments ∧
      ((readBalanced ['('] [')'] : EtsParser Text).run
        { rest := bracketAt 1 '(' :: (lexemes literalArguments).drop 2,
          closing := endToken literalArguments, errors := [] }).1 =
        "(')', \x60)$\x7b\x7b')': \x60(\x60\x7d\x7d\x60, \x22\\\x22(\x22)".toList ∧
      ((readBalanced ['('] [')'] : EtsParser Text).run
        { rest := bracketAt 35 '(' :: (lexemes literalArguments).drop 15,
          closing := endToken literalArguments, errors := [] }).1 = "(\x7b a: '".toList := by
  have pair : IsPair '(' ')' := .inl ⟨rfl, rfl⟩
  obtain ⟨uncommented, closed, unclosed⟩ : IsUncommented (tokenize literalArguments) ∧
      bracketAt 1 '(' :: (lexemes literalArguments).drop 2 = (lexemes literalArguments).drop 1 ∧
      bracketAt 35 '(' :: (lexemes literalArguments).drop 15 =
        (lexemes literalArguments).drop 14 := by
    unfold IsUncommented
    rw [show literalArguments = _ from String.toList_ofList]
    decide +kernel
  have first : bracketAt 1 '(' :: (lexemes literalArguments).drop 2 <:+
      lexemes literalArguments := closed ▸ List.drop_suffix _ _
  have second : bracketAt 35 '(' :: (lexemes literalArguments).drop 15 <:+
      lexemes literalArguments := unclosed ▸ List.drop_suffix _ _
  refine ⟨pair, uncommented, first, second, ?_, ?_⟩
  · refine (balanced_eq_readBalanced pair uncommented first rfl rfl true []).1.symm.trans ?_
    rw [show literalArguments = _ from String.toList_ofList]
    decide +kernel
  · refine (balanced_eq_readBalanced pair uncommented second rfl rfl true []).1.symm.trans ?_
    rw [show literalArguments = _ from String.toList_ofList]
    decide +kernel

end UiFormat.Ets

/-
# UiFormat.Proofs.Ets.Wording -- what the tokens of a text say

`wording` reads off a token list what it says: the kind and the text of every token that is
no blank, no comment and no semicolon, strings without their quotes.  `Worded text words` says
that the tokens of a text say `words`, whatever stands before it; it is built up from the end
of the text, piece by piece.  Blanks in front say nothing (`worded_blank`), a mark says itself
(`worded_mark`), and names say the same in front of everything that does not continue them
(`worded_name`).

Text made of names and blanks (`Phrase`) says what its names say, however the blanks are
written: collapsing and trimming it changes nothing (`Phrase.squeeze`, `Phrase.trim`).  The
exception are blanks that the lexer does not know: to it they are punctuators.
-/
import UiFormat.Proofs.Ets.BracketMatching
import UiFormat.Proofs.Ets.ImportForms
import UiFormat.Proofs.Ets.ReflowedTokens

namespace UiFormat.Text

set_option autoImplicit false

end UiFormat.Text

namespace UiFormat.Ets

open UiFormat.Text
open UiFormat.Parse

set_option autoImplicit false

/-! ## Words -/

/-- What a token of the kind and text says. -/
def wordOf (kind : Kind) (text : Text) : List (Kind × Text) :=
  if kind.isSignificant && !(kind == .punctuator && text == [';']) then
    [(kind, if kind == .string then withoutEnds text else text)]
  else []

/-- What the tokens say: all but blanks, comments and semicolons, strings without their
quotes. -/
def wording (tokens : List Tok) : List (Kind × Text) :=
  tokens.flatMap fun t => wordOf t.kind t.text

/-- What the tokens of a text say that stands behind something. -/
def wordingFrom (operandBefore : Bool) (text : Text) : List (Kind × Text) :=
  wording (tokensFrom .start operandBefore text)

theorem wording_cons (t : Tok) (tokens : List Tok) :
    wording (t :: tokens) = wordOf t.kind t.text ++ wording tokens :=
  rfl

/-- What is said does not depend on the place. -/
theorem wording_tokensFrom (p : Position) (operandBefore : Bool) (text : Text) :
    wording (tokensFrom p operandBefore text) = wordingFrom operandBefore text := by
  have same : ∀ q, wording (tokensFrom p operandBefore text) = wording (tokensFrom q operandBefore text) := by
    fun_induction tokensFrom p operandBefore text with
    | case1 => exact fun q => by rw [tokensFrom]
    | case2 p operandBefore c rest kind extra here text operand ih =>
        intro q
        rw [tokensFrom_cons here q, wording_cons, wording_cons, ih]
        rfl
  exact same .start

theorem wordingFrom_nil (operandBefore : Bool) : wordingFrom operandBefore [] = [] := by
  rw [wordingFrom, tokensFrom]
  rfl

theorem wordingFrom_cons {operandBefore : Bool} {c : Char} {rest : Text} {kind : Kind} {extra : Nat}
    (here : lexeme operandBefore c rest = (kind, extra)) :
    wordingFrom operandBefore (c :: rest) = wordOf kind (c :: rest.take extra) ++
      wordingFrom (operandAfter operandBefore kind (c :: rest.take extra)) (rest.drop extra) := by
  rw [wordingFrom, tokensFrom_cons here, wording_cons, wording_tokensFrom]
  rfl

/-- What is said is written there. -/
theorem mem_of_mem_wordingFrom {operandBefore : Bool} {text : Text} {word : Kind × Text}
    (said : word ∈ wordingFrom operandBefore text) : ∀ c ∈ word.2, c ∈ text := by
  obtain ⟨t, isToken, isWord⟩ := List.mem_flatMap.1 said
  have inToken : ∀ c ∈ word.2, c ∈ t.text := by
    rw [wordOf] at isWord
    split at isWord
    · rw [List.mem_singleton.1 isWord]
      split
      · exact fun c member => List.mem_of_mem_drop (List.dropLast_subset _ member)
      · exact fun c member => member
    · cases isWord
  intro c member
  have whole := (tiles_tokensFrom .start operandBefore text).2.1
  rw [← whole]
  exact List.mem_flatMap.2 ⟨t, isToken, inToken c member⟩

/-- The tokens of the text say the words, whatever stands before it. -/
def Worded (text : Text) (words : List (Kind × Text)) : Prop :=
  ∀ operandBefore, wordingFrom operandBefore text = words

theorem Worded.wording_eq {text : Text} {words : List (Kind × Text)} (worded : Worded text words) :
    wording (lexemes text) = words :=
  worded false

theorem worded_nil : Worded [] [] :=
  wordingFrom_nil

/-- A token that does not depend on what stands before it, and what stands behind it. -/
theorem worded_token {c : Char} {x w : Text} {kind : Kind} {words : List (Kind × Text)}
    (here : ∀ operandBefore, lexeme operandBefore c (x ++ w) = (kind, x.length))
    (worded : Worded w words) : Worded (c :: (x ++ w)) (wordOf kind (c :: x) ++ words) := by
  intro operandBefore
  rw [wordingFrom_cons (here operandBefore), List.take_left, List.drop_left, worded]

/-! ## Blanks -/

/-- A blank that the lexer passes over. -/
def isTokenBlank (c : Char) : Bool :=
  isInlineBlank c || isBreak c

/-- The lexer knows the blanks of the text. -/
def KnownBlanks (text : Text) : Prop :=
  ∀ c ∈ text, isBlank c = true → isTokenBlank c = true

theorem isTokenBlank_cases {c : Char} (blank : isTokenBlank c = true) :
    isInlineBlank c = true ∨ c = '\r' ∨ c = '\n' := by
  simpa [isTokenBlank, isBreak] using blank

theorem lexeme_of_isInlineBlank {c : Char} (blank : isInlineBlank c = true) (operandBefore : Bool)
    (rest : Text) : lexeme operandBefore c rest = (.whitespace, runLength isInlineBlank rest) := by
  have kinds : c = ' ' ∨ c = '\t' ∨ c = '\x0c' ∨ c = '\x0b' := by
    simpa only [isInlineBlank, Bool.or_eq_true, beq_iff_eq, or_assoc] using blank
  rcases kinds with rfl | rfl | rfl | rfl <;> rfl

/-- Blanks in front say nothing. -/
theorem wordingFrom_blank {c : Char} (blank : isTokenBlank c = true) (operandBefore : Bool) (rest : Text) :
    wordingFrom operandBefore (c :: rest) = wordingFrom operandBefore rest := by
  have inline : ∀ {c : Char} {rest : Text}, isInlineBlank c = true →
      wordingFrom operandBefore (c :: rest) =
        wordingFrom operandBefore (rest.dropWhile isInlineBlank) := by
    intro c rest blank
    rw [wordingFrom_cons (lexeme_of_isInlineBlank blank operandBefore rest), drop_runLength]
    rfl
  rcases isTokenBlank_cases blank with isInline | rfl | rfl
  · rw [inline isInline]
    cases rest with
    | nil => rfl
    | cons d rest =>
        cases next : isInlineBlank d with
        | true => rw [inline next, List.dropWhile_cons_of_pos next]
        | false => rw [List.dropWhile_cons_of_neg (by simp [next])]
  · cases feeds : startsWith rest ['\n'] with
    | false =>
        have here : lexeme operandBefore '\r' rest = (.newline, 0) := by simp [lexeme, feeds]
        rw [wordingFrom_cons here]
        rfl
    | true =>
        have here : lexeme operandBefore '\r' rest = (.newline, 1) := by simp [lexeme, feeds]
        obtain ⟨later, rfl⟩ := List.isPrefixOf_iff_prefix.1 feeds
        have again : lexeme operandBefore '\n' later = (.newline, 0) := rfl
        rw [wordingFrom_cons here, List.singleton_append, wordingFrom_cons again]
        rfl
  · have here : lexeme operandBefore '\n' rest = (.newline, 0) := rfl
    rw [wordingFrom_cons here]
    rfl

theorem worded_blank {c : Char} {w : Text} {words : List (Kind × Text)} (blank : isTokenBlank c = true)
    (worded : Worded w words) : Worded (c :: w) words := by
  intro operandBefore
  rw [wordingFrom_blank blank, worded]

/-! ## Numbers -/

section Numbers

variable {w : Text}

theorem clear_isDigit (clear : Clear isNumberChar w) : Clear Char.isDigit w :=
  clear.mono fun _ => isNumberChar_of_isDigit

theorem fractionLength_of_clear (clear : Clear isNumberChar w) (text : Text) :
    fractionLength Char.isDigit (text ++ w) = fractionLength Char.isDigit text := by
  cases text with
  | nil =>
      cases w with
      | nil => rfl
      | cons c w =>
          have other : c ≠ '.' := by
            rintro rfl
            cases clear '.' rfl
          rw [List.nil_append, fractionLength.eq_def]
          split
          · rename_i same
            cases same
            exact absurd rfl other
          · rfl
  | cons c text =>
      by_cases point : c = '.'
      · subst point
        rw [List.cons_append, fractionLength, fractionLength, runLength_of_clear (clear_isDigit clear)]
      · rw [List.cons_append, fractionLength, fractionLength]
        · exact fun rest same => point (List.cons.inj same).1
        · exact fun rest same => point (List.cons.inj same).1

theorem signLength_of_clear (clear : Clear isNumberChar w) (text : Text) :
    signLength (text ++ w) = signLength text := by
  cases text with
  | cons c text => rfl
  | nil =>
      cases w with
      | nil => rfl
      | cons c w =>
          have other : c ≠ '+' ∧ c ≠ '-' := by
            refine ⟨?_, ?_⟩
            · rintro rfl
              cases clear '+' rfl
            · rintro rfl
              cases clear '-' rfl
          simp [signLength, other]

theorem signLength_le (text : Text) : signLength text ≤ text.length := by
  fun_cases signLength text <;> simp

theorem exponentLength_of_clear (clear : Clear isNumberChar w) (text : Text) :
    exponentLength Char.isDigit (text ++ w) = exponentLength Char.isDigit text := by
  cases text with
  | nil =>
      cases w with
      | nil => rfl
      | cons c w =>
          have other : c ≠ 'e' ∧ c ≠ 'E' := by
            refine ⟨?_, ?_⟩
            · rintro rfl
              cases clear 'e' rfl
            · rintro rfl
              cases clear 'E' rfl
          simp [exponentLength, other]
  | cons c text =>
      rw [List.cons_append, exponentLength, exponentLength, signLength_of_clear clear,
        List.drop_append_of_le_length (signLength_le text), runLength_of_clear (clear_isDigit clear)]

theorem fractionLength_le (digit : Char → Bool) (text : Text) :
    fractionLength digit text ≤ text.length := by
  fun_cases fractionLength digit text with
  | case1 text => simpa using runLength_le digit text
  | case2 text => exact Nat.zero_le _

theorem exponentLength_le (digit : Char → Bool) (text : Text) :
    exponentLength digit text ≤ text.length := by
  fun_cases exponentLength digit text with
  | case1 c text =>
      have sign := signLength_le text
      have digits := runLength_le digit (text.drop (signLength text))
      rw [List.length_drop] at digits
      rw [List.length_cons]
      omega
  | case2 c text => exact Nat.zero_le _
  | case3 => exact Nat.zero_le _

theorem decimalLength_le (digit : Char → Bool) (text : Text) :
    decimalLength digit text ≤ text.length := by
  have whole := runLength_le digit text
  have fraction := fractionLength_le digit (text.drop (runLength digit text))
  have exponent := exponentLength_le digit
    (text.drop (runLength digit text + fractionLength digit (text.drop (runLength digit text))))
  rw [List.length_drop] at fraction exponent
  simp only [decimalLength]
  omega

theorem decimalLength_of_clear (clear : Clear isNumberChar w) (text : Text) :
    decimalLength Char.isDigit (text ++ w) = decimalLength Char.isDigit text := by
  have whole := runLength_le Char.isDigit text
  have fraction := fractionLength_le Char.isDigit (text.drop (runLength Char.isDigit text))
  rw [List.length_drop] at fraction
  simp only [decimalLength, runLength_of_clear (clear_isDigit clear)]
  rw [List.drop_append_of_le_length whole, fractionLength_of_clear clear,
    List.drop_append_of_le_length (by omega), exponentLength_of_clear clear]

theorem numberLength_le (text : Text) : numberLength Char.isDigit text ≤ text.length := by
  fun_cases numberLength Char.isDigit text with
  | case1 mark digits allowed isRadix => simpa using runLength_le allowed.contains digits
  | case2 mark digits => exact decimalLength_le _ _
  | case3 text => exact decimalLength_le _ _

/-- A number that has begun ends where it did before something that continues no number. -/
theorem numberLength_of_clear (clear : Clear isNumberChar w) (c : Char) (text : Text) :
    numberLength Char.isDigit (c :: (text ++ w)) = numberLength Char.isDigit (c :: text) := by
  have decimal := decimalLength_of_clear clear (c :: text)
  rw [List.cons_append] at decimal
  by_cases zero : c = '0'
  · subst zero
    cases text with
    | cons mark digits =>
        rw [List.cons_append] at decimal ⊢
        rw [numberLength, numberLength]
        cases isRadix : radixDigits? mark with
        | none => exact decimal
        | some allowed =>
            have digit := (isNumberChar_of_radix isRadix).2
            exact congrArg (· + 2) (runLength_of_clear (clear.mono digit) digits)
    | nil =>
        cases w with
        | nil => rfl
        | cons mark w =>
            rw [List.nil_append] at decimal ⊢
            have noRadix : radixDigits? mark = none := by
              refine Option.eq_none_iff_forall_ne_some.2 fun allowed isRadix => ?_
              have inNumber := (isNumberChar_of_radix isRadix).1
              rw [clear mark rfl] at inNumber
              cases inNumber
            rw [numberLength, noRadix]
            exact decimal
  · have other : ∀ text : Text, numberLength Char.isDigit (c :: text) = decimalLength Char.isDigit (c :: text) := by
      intro text
      rw [numberLength]
      exact fun mark digits same => zero (List.cons.inj same).1
    rw [other, other, decimal]

theorem numberExtent_of_clear (clear : Clear isNumberChar w) (c : Char) (text : Text) :
    numberExtent c (text ++ w) = numberExtent c text := by
  have fits := numberLength_le (c :: text)
  have noMark : startsWith w ['n'] = false := by
    cases w with
    | nil => rfl
    | cons d w =>
        have other : ('n' == d) = false := by
          rw [beq_eq_false_iff_ne]
          rintro rfl
          cases clear 'n' rfl
        simp [startsWith, List.isPrefixOf, other]
  rw [List.length_cons] at fits
  simp only [numberExtent, numberLength_of_clear clear]
  rw [List.drop_append_of_le_length (by omega)]
  cases behind : text.drop (numberLength Char.isDigit (c :: text) - 1) with
  | nil => rw [List.nil_append, noMark]; rfl
  | cons d later => simp [startsWith, List.isPrefixOf]

theorem numberExtent_le (c : Char) (text : Text) : numberExtent c text ≤ text.length := by
  have fits := numberLength_le (c :: text)
  rw [List.length_cons] at fits
  simp only [numberExtent]
  split
  · rename_i isBig
    have short : 0 < (text.drop (numberLength Char.isDigit (c :: text) - 1)).length := by
      obtain ⟨later, split⟩ := List.isPrefixOf_iff_prefix.1 isBig
      rw [← split]
      exact Nat.succ_pos _
    rw [List.length_drop] at short
    omega
  · omega

end Numbers

/-! ## Names -/

/-- A character that can go on with a name, or with a number inside one. -/
def continuesName (c : Char) : Bool :=
  isImportChar c || isNumberChar c

theorem lexeme_of_isIdentStart {c : Char} (starts : isIdentStart c = true) (operandBefore : Bool)
    (rest : Text) :
    lexeme operandBefore c rest =
      (if isOneOf keywords (c :: rest.takeWhile isIdentChar) then .keyword else .identifier,
        runLength isIdentChar rest) := by
  have other : ∀ {d : Char}, isIdentStart d = false → c ≠ d := by
    rintro d fails rfl
    rw [starts] at fails
    cases fails
  have noDigit : c.isDigit = false := by
    have fails := of_isIdentStart (p := fun c => !c.isDigit) (by decide +kernel) starts
    simpa using fails
  have noBlank : isInlineBlank c = false := by
    simp [isInlineBlank, other (d := ' ') rfl, other (d := '\t') rfl, other (d := '\x0c') rfl,
      other (d := '\x0b') rfl]
  simp [lexeme, other (d := '\n') rfl, other (d := '\r') rfl, noBlank, other (d := '/') rfl,
    other (d := '@') rfl, other (d := '\x22') rfl, other (d := '\x27') rfl, other (d := '\x60') rfl,
    noDigit, other (d := '.') rfl, starts, take_runLength]

theorem lexeme_of_isDigit {c : Char} (digit : c.isDigit = true) (operandBefore : Bool) (rest : Text) :
    lexeme operandBefore c rest = (.number, numberExtent c rest) := by
  have other : ∀ {d : Char}, d.isDigit = false → c ≠ d := by
    rintro d fails rfl
    rw [digit] at fails
    cases fails
  have noBlank : isInlineBlank c = false := by
    simp [isInlineBlank, other (d := ' ') rfl, other (d := '\t') rfl, other (d := '\x0c') rfl,
      other (d := '\x0b') rfl]
  simp [lexeme, other (d := '\n') rfl, other (d := '\r') rfl, noBlank, other (d := '/') rfl,
    other (d := '@') rfl, other (d := '\x22') rfl, other (d := '\x27') rfl, other (d := '\x60') rfl,
    digit]

/-- The character is a token of its own, whatever stands around it: it opens no blank, no line
break, no literal, no comment, no number, no name and no operator. -/
def isLone (c : Char) : Bool :=
  !c.isDigit && !isIdentStart c &&
    !("\n\r \t\x0c\x0b/@\x22\x27\x60.<>=!+-*&|?%^~:".toList).contains c

/-- The marks of an import clause, and the one that ends it. -/
theorem isLone_of_mem {c : Char} (mark : c ∈ [',', ';', '{', '}']) : isLone c = true :=
  have table : ∀ c ∈ [',', ';', '{', '}'], isLone c = true := forall_mem_of_all (by decide +kernel)
  table c mark

theorem symbol_of_isLone {c : Char} (lone : isLone c = true) (rest : Text) :
    symbol c rest = (.punctuator, 0) := by
  have table : ∀ op ∈ operators, op.toList.head?.any (!isLone ·) = true := by decide +kernel
  have none : operator? (c :: rest) = none := by
    refine List.find?_eq_none.2 fun op member stands => ?_
    obtain ⟨later, split⟩ := List.isPrefixOf_iff_prefix.1 stands
    obtain ⟨d, first, other⟩ := (Option.any_eq_true _ _).1 (table op member)
    cases spelled : op.toList with
    | nil =>
        rw [spelled] at first
        cases first
    | cons e others =>
        rw [spelled] at split first
        cases first
        obtain rfl := (List.cons.inj split).1
        simp [lone] at other
  have noSpread : startsWith (c :: rest) "...".toList = false := by
    have notPoint : ('.' == c) = false := by
      rw [beq_eq_false_iff_ne]
      rintro rfl
      revert lone
      decide
    simp [startsWith, List.isPrefixOf, notPoint]
  rw [symbol, none, noSpread]
  rfl

theorem lexeme_of_isLone {c : Char} (lone : isLone c = true) (operandBefore : Bool) (rest : Text) :
    lexeme operandBefore c rest = (.punctuator, 0) := by
  rw [← symbol_of_isLone lone rest]
  simp only [isLone, Bool.and_eq_true, Bool.not_eq_true', List.contains_eq_mem,
    decide_eq_false_iff_not] at lone
  obtain ⟨noName, other⟩ := lone
  rw [String.toList_ofList] at other
  simp only [List.mem_cons, not_or] at other
  simp [lexeme, isInlineBlank, noName, other]

/-- A character that continues a name opens one, or a number, or stands alone. -/
theorem isLone_of_isImportChar {c : Char} (continues : isImportChar c = true)
    (noStart : isIdentStart c = false) (noDigit : c.isDigit = false) : isLone c = true := by
  have table : ∀ d ∈ "\n\r \t\x0c\x0b/@\x22\x27\x60.<>=!+-*&|?%^~:".toList,
      isImportChar d = false := forall_mem_of_all (by decide)
  have outside : ("\n\r \t\x0c\x0b/@\x22\x27\x60.<>=!+-*&|?%^~:".toList).contains c = false := by
    by_contra inside
    rw [Bool.not_eq_false, List.contains_iff_mem] at inside
    rw [table c inside] at continues
    cases continues
  rw [isLone, noStart, noDigit, outside]
  rfl

/-- A name is read token by token as it is alone, in front of all that does not continue it. -/
theorem lexeme_of_isImportChar {c : Char} {w : Text} (continues : isImportChar c = true)
    (clear : Clear continuesName w) (operandBefore alone : Bool) (text : Text) :
    lexeme operandBefore c (text ++ w) = lexeme alone c text ∧ (lexeme alone c text).2 ≤ text.length := by
  cases starts : isIdentStart c with
  | true =>
      have same : runLength isIdentChar (text ++ w) = runLength isIdentChar text :=
        runLength_of_clear (clear.mono fun d isName => by
          rw [continuesName, isNumberChar, isName]; simp) text
      have taken : (text ++ w).takeWhile isIdentChar = text.takeWhile isIdentChar := by
        rw [← take_runLength, ← take_runLength, same,
          List.take_append_of_le_length (runLength_le _ _)]
      rw [lexeme_of_isIdentStart starts, lexeme_of_isIdentStart starts, same, taken]
      exact ⟨rfl, runLength_le _ _⟩
  | false =>
      cases digit : c.isDigit with
      | true =>
          have numberClear : Clear isNumberChar w :=
            clear.mono fun d isNumber => by rw [continuesName, isNumber, Bool.or_true]
          rw [lexeme_of_isDigit digit, lexeme_of_isDigit digit, numberExtent_of_clear numberClear]
          exact ⟨rfl, numberExtent_le c text⟩
      | false =>
          have lone := isLone_of_isImportChar continues starts digit
          rw [lexeme_of_isLone lone, lexeme_of_isLone lone]
          exact ⟨rfl, Nat.zero_le _⟩

/-- A name says what it says alone, in front of all that does not continue it. -/
theorem worded_name {name w : Text} {words : List (Kind × Text)}
    (isName : ∀ c ∈ name, isImportChar c = true) (clear : Clear continuesName w)
    (worded : Worded w words) : Worded (name ++ w) (wordingFrom false name ++ words) := by
  induction size : name.length using Nat.strong_induction_on generalizing name w words with
  | _ n ih =>
    cases name with
    | nil =>
        rw [wordingFrom_nil]
        exact worded
    | cons c text =>
        intro operandBefore
        obtain ⟨same, fits⟩ := lexeme_of_isImportChar (isName c List.mem_cons_self) clear
          operandBefore false text
        cases here : lexeme false c text with
        | mk kind extra =>
            rw [here] at same fits
            dsimp only at fits
            have later : ∀ d ∈ text.drop extra, isImportChar d = true :=
              fun d member => isName d (List.mem_cons_of_mem _ (List.mem_of_mem_drop member))
            have shorter : (text.drop extra).length < n := by
              rw [← size, List.length_drop, List.length_cons]
              omega
            have behind := ih _ shorter later clear worded rfl
            have alone := ih _ shorter later (w := []) (fun d first => by cases first) worded_nil rfl
            rw [List.append_nil, List.append_nil] at alone
            rw [List.cons_append, wordingFrom_cons same, wordingFrom_cons here,
              List.take_append_of_le_length fits, List.drop_append_of_le_length fits, behind,
              alone (operandAfter false kind _), List.append_assoc]

/-! ## Pieces -/

/-- The text says the words, in front of anything. -/
def Loose (text : Text) (words : List (Kind × Text)) : Prop :=
  ∀ (w : Text) (later : List (Kind × Text)), Worded w later → Worded (text ++ w) (words ++ later)

/-- The text says the words, in front of anything that does not continue a name. -/
def Says (text : Text) (words : List (Kind × Text)) : Prop :=
  ∀ (w : Text) (later : List (Kind × Text)), Clear continuesName w → Worded w later →
    Worded (text ++ w) (words ++ later)

section

variable {a b text : Text} {front back words : List (Kind × Text)}

theorem Loose.toSays (loose : Loose text words) : Says text words :=
  fun w later _ worded => loose w later worded

theorem loose_nil : Loose [] [] :=
  fun _ _ worded => worded

theorem Loose.append (first : Loose a front) (second : Loose b back) :
    Loose (a ++ b) (front ++ back) := by
  intro w later worded
  rw [List.append_assoc, List.append_assoc]
  exact first _ _ (second _ _ worded)

theorem Loose.append_piece (first : Loose a front) (second : Says b back) :
    Says (a ++ b) (front ++ back) := by
  intro w later clear worded
  rw [List.append_assoc, List.append_assoc]
  exact first _ _ (second _ _ clear worded)

theorem Says.append (first : Says a front) (opens : Clear continuesName b) (second : Says b back) :
    Says (a ++ b) (front ++ back) := by
  intro w later clear worded
  rw [List.append_assoc, List.append_assoc]
  exact first _ _ (clear_append opens clear) (second _ _ clear worded)

theorem Says.append_loose (first : Says a front) (opens : ∀ w, Clear continuesName (b ++ w))
    (second : Loose b back) : Loose (a ++ b) (front ++ back) := by
  intro w later worded
  rw [List.append_assoc, List.append_assoc]
  exact first _ _ (opens w) (second _ _ worded)

/-- What a piece says is what its tokens say. -/
theorem Says.worded (told : Says text words) : Worded text words := by
  have whole := told [] [] (fun c first => by cases first) worded_nil
  rwa [List.append_nil, List.append_nil] at whole

theorem says_name (isName : ∀ c ∈ text, isImportChar c = true) : Says text (wordingFrom false text) :=
  fun _ _ clear worded => worded_name isName clear worded

theorem loose_blanks (blank : ∀ c ∈ text, isTokenBlank c = true) : Loose text [] := by
  intro w later worded
  induction text with
  | nil => exact worded
  | cons c text ih =>
      rw [List.forall_mem_cons] at blank
      exact worded_blank blank.1 (ih blank.2)

theorem loose_mark {c : Char} (lone : isLone c = true) : Loose [c] (wordOf .punctuator [c]) :=
  fun _ _ worded => worded_token (x := []) (fun operandBefore => lexeme_of_isLone lone operandBefore _) worded

/-- A string that is closed says what stands between its quotes. -/
theorem loose_string {quote : Char} {path : Text} (isQuote : isPathQuote quote = true)
    (quotable : Quotable quote path) : Loose (quote :: (path ++ [quote])) [(.string, path)] := by
  intro w later worded
  have notBackslash : quote ≠ '\\' := by
    rintro rfl
    cases isQuote
  have closes : stringExtent quote ((path ++ [quote]) ++ w) = (path ++ [quote]).length := by
    rw [List.append_assoc, quotable, List.singleton_append, stringExtent_cons notBackslash, if_pos rfl,
      List.length_append, List.length_singleton]
  have here : ∀ operandBefore, lexeme operandBefore quote ((path ++ [quote]) ++ w) =
      (.string, (path ++ [quote]).length) := by
    intro operandBefore
    rw [← closes]
    rcases isPathQuote_iff.1 isQuote with rfl | rfl <;> rfl
  have word : wordOf .string (quote :: (path ++ [quote])) = [(.string, path)] := by
    rw [wordOf, withoutEnds_cons_concat]
    rfl
  rw [← word]
  exact worded_token here worded

theorem lexeme_star {c : Char} (other : (c == '*' || c == '=') = false) (operandBefore : Bool)
    (rest : Text) : lexeme operandBefore '*' (c :: rest) = (.operator, 0) := by
  simp only [Bool.or_eq_false_iff, beq_eq_false_iff_ne] at other
  have notStar : ('*' == c) = false := by simpa using other.1.symm
  have notEqual : ('=' == c) = false := by simpa using other.2.symm
  have found : operator? ('*' :: c :: rest) = some "*" := by
    simp [operator?, operators, startsWith, List.isPrefixOf, notStar, notEqual]
  have plain : lexeme operandBefore '*' (c :: rest) = symbol '*' (c :: rest) := rfl
  rw [plain, symbol, found]
  rfl

/-- A star is read alone where no other operator begins with it. -/
theorem says_star (opens : Clear (fun c => c == '*' || c == '=') text) (filled : text ≠ [])
    (told : Says text words) : Says ('*' :: text) ((.operator, ['*']) :: words) := by
  intro w later clear worded
  obtain ⟨c, text, rfl⟩ := List.exists_cons_of_ne_nil filled
  exact worded_token (x := []) (fun operandBefore => lexeme_star (opens c rfl) operandBefore _)
    (told _ _ clear worded)

/-- Pieces with a mark between them say what they say with the word of the mark between. -/
theorem says_join {separator : Text} {word : Kind × Text} (loose : Loose separator [word])
    (opens : ∀ rest, Clear continuesName (separator ++ rest)) {parts : List Text}
    (told : ∀ part ∈ parts, Says part (wordingFrom false part)) :
    Says (join separator parts) (List.intercalate [word] (parts.map (wordingFrom false))) := by
  induction parts with
  | nil => exact loose_nil.toSays
  | cons part parts ih =>
      rw [List.forall_mem_cons] at told
      cases parts with
      | nil => simpa [join] using told.1
      | cons next parts =>
          have later := loose.append_piece (ih told.2)
          have whole := told.1.append (opens _) later
          rw [join, List.append_assoc]
          simpa [List.intercalate] using whole

end

/-! ## Names with blanks between them -/

/-- Names with blanks between them, and what they say. -/
inductive Phrase : Text → List (Kind × Text) → Prop
  | nil : Phrase [] []
  | blank {c : Char} {text : Text} {words : List (Kind × Text)} (isBlank : isTokenBlank c = true)
      (later : Phrase text words) : Phrase (c :: text) words
  | name {name text : Text} {words : List (Kind × Text)} (filled : name ≠ [])
      (isName : ∀ c ∈ name, isImportChar c = true) (clear : Clear isImportChar text)
      (later : Phrase text words) : Phrase (name ++ text) (wordingFrom false name ++ words)

theorem continuesName_of_isTokenBlank {c : Char} (blank : isTokenBlank c = true) :
    continuesName c = false := by
  have kinds : (c = ' ' ∨ c = '\t' ∨ c = '\x0c' ∨ c = '\x0b') ∨ c = '\r' ∨ c = '\n' := by
    simpa only [isTokenBlank, isInlineBlank, isBreak, Bool.or_eq_true, beq_iff_eq, or_assoc] using blank
  rcases kinds with (rfl | rfl | rfl | rfl) | rfl | rfl <;> decide

theorem isBlank_of_isTokenBlank {c : Char} (blank : isTokenBlank c = true) : isBlank c = true := by
  have kinds : (c = ' ' ∨ c = '\t' ∨ c = '\x0c' ∨ c = '\x0b') ∨ c = '\r' ∨ c = '\n' := by
    simpa only [isTokenBlank, isInlineBlank, isBreak, Bool.or_eq_true, beq_iff_eq, or_assoc] using blank
  rcases kinds with (rfl | rfl | rfl | rfl) | rfl | rfl <;> decide

theorem isBlank_of_isImportChar {c : Char} (continues : isImportChar c = true) : isBlank c = false := by
  cases blank : isBlank c with
  | false => rfl
  | true =>
      rw [isImportChar_of_isBlank blank] at continues
      cases continues

section

variable {text : Text} {words : List (Kind × Text)}

theorem Phrase.clear (phrase : Phrase text words) (clear : Clear isImportChar text) :
    Clear continuesName text := by
  cases phrase with
  | nil => exact fun c first => by cases first
  | blank isBlank later =>
      intro c first
      cases first
      exact continuesName_of_isTokenBlank isBlank
  | name filled isName _ later =>
      obtain ⟨c, name, rfl⟩ := List.exists_cons_of_ne_nil filled
      have continues := isName c List.mem_cons_self
      rw [clear c rfl] at continues
      cases continues

theorem Phrase.toSays (phrase : Phrase text words) : Says text words := by
  induction phrase with
  | nil => exact loose_nil.toSays
  | blank isBlank later ih => exact (loose_blanks (List.forall_mem_singleton.2 isBlank)).append_piece ih
  | name filled isName clear later ih => exact (says_name isName).append (later.clear clear) ih

theorem phrase_of_chars (inside : ∀ c ∈ text, isImportChar c = true ∨ isTokenBlank c = true) :
    ∃ words, Phrase text words := by
  induction size : text.length using Nat.strong_induction_on generalizing text with
  | _ n ih =>
    cases text with
    | nil => exact ⟨[], .nil⟩
    | cons c text =>
        rw [List.forall_mem_cons] at inside
        cases continues : isImportChar c with
        | false =>
            obtain ⟨words, phrase⟩ := ih _ (by rw [← size]; exact Nat.lt_succ_self _) inside.2 rfl
            exact ⟨words, .blank (inside.1.resolve_left (by simp [continues])) phrase⟩
        | true =>
            have shorter : (text.dropWhile isImportChar).length < n := by
              have suffix := (List.dropWhile_suffix (l := text) isImportChar).length_le
              rw [← size, List.length_cons]
              omega
            obtain ⟨words, phrase⟩ := ih _ shorter
              (fun d member => inside.2 d ((List.dropWhile_suffix isImportChar).subset member)) rfl
            have name : ∀ d ∈ c :: text.takeWhile isImportChar, isImportChar d = true :=
              List.forall_mem_cons.2 ⟨continues, fun d => List.mem_takeWhile_imp⟩
            have whole := Phrase.name (List.cons_ne_nil _ _) name (clear_dropWhile _ _) phrase
            rw [List.cons_append, List.takeWhile_append_dropWhile] at whole
            exact ⟨_, whole⟩

theorem squeeze_append_visible {name : Text} (visible : ∀ c ∈ name, isBlank c = false) (text : Text) :
    squeeze false (name ++ text) = name ++ squeeze false text := by
  induction name with
  | nil => rfl
  | cons c name ih =>
      rw [List.forall_mem_cons] at visible
      rw [List.cons_append, squeeze_visible visible.1, ih visible.2, List.cons_append]

/-- However the blanks of a phrase are written, it says the same. -/
theorem Phrase.squeeze (phrase : Phrase text words) (afterBlank : Bool) :
    Phrase (squeeze afterBlank text) words := by
  induction phrase generalizing afterBlank with
  | nil => exact .nil
  | blank isBlank later ih =>
      rw [squeeze_blank (isBlank_of_isTokenBlank isBlank)]
      split
      · exact ih true
      · exact .blank rfl (ih true)
  | @name name text words filled isName clear later ih =>
      have visible : ∀ c ∈ name, UiFormat.Text.isBlank c = false :=
        fun c member => isBlank_of_isImportChar (isName c member)
      have stays : UiFormat.Text.squeeze afterBlank (name ++ text) =
          UiFormat.Text.squeeze false (name ++ text) := by
        obtain ⟨c, name, rfl⟩ := List.exists_cons_of_ne_nil filled
        rw [List.cons_append, squeeze_visible (visible c List.mem_cons_self),
          squeeze_visible (visible c List.mem_cons_self)]
      have opens : Clear isImportChar (UiFormat.Text.squeeze false text) := by
        cases later with
        | nil => exact clear
        | blank isBlank later =>
            rw [squeeze_blank (isBlank_of_isTokenBlank isBlank)]
            intro c first
            cases first
            decide
        | name filledLater isNameLater _ _ =>
            obtain ⟨c, name, rfl⟩ := List.exists_cons_of_ne_nil filledLater
            have continues := isNameLater c List.mem_cons_self
            rw [clear c rfl] at continues
            cases continues
      rw [stays, squeeze_append_visible visible]
      exact .name filled isName opens (ih false)

/-- A name says something. -/
theorem wordingFrom_name_ne_nil {c : Char} (continues : isImportChar c = true) (text : Text) :
    wordingFrom false (c :: text) ≠ [] := by
  have told : ∀ {kind : Kind} {extra : Nat}, lexeme false c text = (kind, extra) →
      wordOf kind (c :: text.take extra) ≠ [] → wordingFrom false (c :: text) ≠ [] := by
    intro kind extra here word
    rw [wordingFrom_cons here]
    exact List.append_ne_nil_of_left_ne_nil word _
  cases starts : isIdentStart c with
  | true =>
      refine told (lexeme_of_isIdentStart starts false text) ?_
      split <;> simp [wordOf, Kind.isSignificant, Kind.isTrivia, Kind.isComment]
  | false =>
      cases digit : c.isDigit with
      | true =>
          refine told (lexeme_of_isDigit digit false text) ?_
          simp [wordOf, Kind.isSignificant, Kind.isTrivia, Kind.isComment]
      | false =>
          have other : c ≠ ';' := by
            rintro rfl
            revert continues
            decide
          refine told (lexeme_of_isLone (isLone_of_isImportChar continues starts digit) false text) ?_
          simp [wordOf, Kind.isSignificant, Kind.isTrivia, Kind.isComment, other]

/-- A phrase that says nothing is blank. -/
theorem Phrase.blank_of_silent (phrase : Phrase text words) (silent : words = []) :
    ∀ c ∈ text, isBlank c = true := by
  induction phrase with
  | nil => exact fun c member => by cases member
  | blank isBlank later ih =>
      exact List.forall_mem_cons.2 ⟨isBlank_of_isTokenBlank isBlank, ih silent⟩
  | name filled isName clear later ih =>
      obtain ⟨c, name, rfl⟩ := List.exists_cons_of_ne_nil filled
      exact absurd (List.append_eq_nil_iff.1 silent).1
        (wordingFrom_name_ne_nil (isName c List.mem_cons_self) name)

end

end UiFormat.Ets

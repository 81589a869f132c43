/-
# UiFormat.Proofs.Ets.Spelling -- the characters that tokens are made of

Blanks, line breaks, quotes, brackets and the slash open tokens of their own; every other
character is plain (`isPlain`).  Names, decorators and numbers are made of plain characters
only (`plain_of_isIdentChar`, `plain_numberExtent`), and operators and punctuators of plain
characters behind their first one (`plain_symbol`).  So whatever looks for one of the
special characters finds none inside such a token.
-/
import UiFormat.Ets.Token
import UiFormat.Proofs.Text.Literal

namespace UiFormat.Ets

open UiFormat.Text

set_option autoImplicit false

/-- The characters that open a blank, a line break, a literal, a comment or a bracket. -/
def specials : Text :=
  " \t\x0c\x0b\r\n/\x22\x27\x60\x7b\x7d[]()".toList

/-- The character opens no token of another kind than it stands in. -/
def isPlain (c : Char) : Bool :=
  !specials.contains c

/-- A test that every special character fails is passed by plain characters only. -/
theorem plain_of {p : Char → Bool} (fails : ∀ d ∈ specials, p d = false) {c : Char}
    (passes : p c = true) : isPlain c = true := by
  cases special : specials.contains c with
  | false => simp only [isPlain, special, Bool.not_false]
  | true =>
      rw [fails c (List.contains_iff_mem.1 special)] at passes
      cases passes

theorem plain_of_isIdentChar {c : Char} (isName : isIdentChar c = true) : isPlain c = true :=
  plain_of (p := isIdentChar) (forall_mem_of_all (by decide)) isName

theorem plain_takeWhile_isIdentChar (text : Text) :
    ∀ d ∈ text.takeWhile isIdentChar, isPlain d = true :=
  fun _ member => plain_of_isIdentChar (List.mem_takeWhile_imp member)

/-! ## Numbers -/

/-- A character of a number. -/
def isNumberChar (c : Char) : Bool :=
  isIdentChar c || c == '.' || c == '+' || c == '-'

theorem isNumberChar_of_isDigit {c : Char} (digit : c.isDigit = true) : isNumberChar c = true := by
  simp [isNumberChar, isIdentChar, Char.isAlphanum, digit]

/-- All characters of the text can stand in a number. -/
def NumberChars (text : Text) : Prop :=
  ∀ c ∈ text, isNumberChar c = true

theorem numberChars_take_add {text : Text} {m n : Nat} (front : NumberChars (text.take m))
    (back : NumberChars ((text.drop m).take n)) : NumberChars (text.take (m + n)) := by
  rw [List.take_add]
  exact List.forall_mem_append.2 ⟨front, back⟩

theorem numberChars_run {p : Char → Bool} (allowed : ∀ c, p c = true → isNumberChar c = true)
    (text : Text) : NumberChars (text.take (runLength p text)) := by
  rw [take_runLength]
  exact fun c member => allowed c (List.mem_takeWhile_imp member)

theorem numberChars_fraction (text : Text) :
    NumberChars (text.take (fractionLength Char.isDigit text)) := by
  fun_cases fractionLength Char.isDigit text with
  | case1 text =>
      rw [List.take_succ_cons]
      exact List.forall_mem_cons.2 ⟨by decide, numberChars_run (fun c => isNumberChar_of_isDigit) text⟩
  | case2 text => exact fun c member => by simp at member

theorem numberChars_sign (text : Text) : NumberChars (text.take (signLength text)) := by
  fun_cases signLength text with
  | case1 c text isSign =>
      have kinds : c = '+' ∨ c = '-' := by simpa using isSign
      rcases kinds with rfl | rfl
      · exact fun d member => by rw [List.mem_singleton.1 member]; decide
      · exact fun d member => by rw [List.mem_singleton.1 member]; decide
  | case2 c text => exact fun d member => by simp at member
  | case3 => exact fun d member => by simp at member

theorem numberChars_exponent (text : Text) :
    NumberChars (text.take (exponentLength Char.isDigit text)) := by
  fun_cases exponentLength Char.isDigit text with
  | case1 c text isMark =>
      have kinds : c = 'e' ∨ c = 'E' := by simpa using isMark
      rw [List.take_succ_cons]
      refine List.forall_mem_cons.2 ⟨by rcases kinds with rfl | rfl <;> decide, ?_⟩
      exact numberChars_take_add (numberChars_sign text)
        (numberChars_run (fun c => isNumberChar_of_isDigit) _)
  | case2 c text => exact fun d member => by simp at member
  | case3 => exact fun d member => by simp at member

theorem numberChars_decimal (text : Text) :
    NumberChars (text.take (decimalLength Char.isDigit text)) := by
  simp only [decimalLength]
  refine numberChars_take_add (numberChars_take_add ?_ (numberChars_fraction _))
    (numberChars_exponent _)
  exact numberChars_run (fun c => isNumberChar_of_isDigit) text

/-- A radix mark and the digits it allows can stand in a number. -/
theorem isNumberChar_of_radix {mark : Char} {allowed : Text}
    (isRadix : radixDigits? mark = some allowed) :
    isNumberChar mark = true ∧ ∀ c, allowed.contains c = true → isNumberChar c = true := by
  have table : ∀ (letters : List Char) {digits : Text},
      (letters.all isNumberChar && digits.all isNumberChar) = true → mark ∈ letters →
        digits = allowed →
          isNumberChar mark = true ∧ ∀ c, allowed.contains c = true → isNumberChar c = true := by
    rintro letters _ all member rfl
    rw [Bool.and_eq_true, List.all_eq_true, List.all_eq_true] at all
    exact ⟨all.1 mark member, fun c inside => all.2 c (List.contains_iff_mem.1 inside)⟩
  revert isRadix
  fun_cases radixDigits? mark with
  | case1 isHex =>
      intro same
      exact table ['x', 'X'] (by decide) (by simpa using isHex) (Option.some.inj same)
  | case2 _ isBinary =>
      intro same
      exact table ['b', 'B'] (by decide) (by simpa using isBinary) (Option.some.inj same)
  | case3 _ _ isOctal =>
      intro same
      exact table ['o', 'O'] (by decide) (by simpa using isOctal) (Option.some.inj same)
  | case4 => exact fun impossible => by cases impossible

theorem numberChars_number (text : Text) :
    NumberChars (text.take (numberLength Char.isDigit text)) := by
  fun_cases numberLength Char.isDigit text with
  | case1 mark digits allowed isRadix =>
      obtain ⟨inNumber, digit⟩ := isNumberChar_of_radix isRadix
      rw [List.take_succ_cons, List.take_succ_cons]
      refine List.forall_mem_cons.2 ⟨by decide, List.forall_mem_cons.2 ⟨inNumber, ?_⟩⟩
      exact numberChars_run digit digits
  | case2 mark digits _ => exact numberChars_decimal _
  | case3 text _ => exact numberChars_decimal _

/-- Behind its first character a number holds plain characters only. -/
theorem plain_numberExtent (c : Char) (rest : Text) :
    ∀ d ∈ rest.take (numberExtent c rest), isPlain d = true := by
  have plain : ∀ d, isNumberChar d = true → isPlain d = true :=
    fun d => plain_of (p := isNumberChar) (forall_mem_of_all (by decide))
  have digits : NumberChars (rest.take (numberLength Char.isDigit (c :: rest) - 1)) := by
    have all := numberChars_number (c :: rest)
    cases length : numberLength Char.isDigit (c :: rest) with
    | zero => exact fun d member => by simp at member
    | succ n =>
        rw [length, List.take_succ_cons] at all
        exact (List.forall_mem_cons.1 all).2
  intro d member
  refine plain d (numberChars_take_add digits ?_ d member)
  split
  · rename_i isBig
    obtain ⟨later, split⟩ := List.isPrefixOf_iff_prefix.1 isBig
    rw [← split]
    exact fun e inside => by rw [List.mem_singleton.1 inside]; decide
  · exact fun e inside => by simp at inside

/-! ## Symbols -/

/-- Behind its first character an operator or punctuator holds plain characters only. -/
theorem plain_symbol (c : Char) (rest : Text) :
    ∀ d ∈ rest.take (symbol c rest).2, isPlain d = true := by
  fun_cases symbol c rest with
  | case1 op found =>
      have table : ∀ op ∈ operators, (op.toList.drop 1).all isPlain = true ∧
          op.toList.length = op.length := by decide
      obtain ⟨tail, length⟩ := table op (List.mem_of_find?_eq_some found)
      have stands : startsWith (c :: rest) op.toList = true := by
        simpa using List.find?_some found
      obtain ⟨later, split⟩ := List.isPrefixOf_iff_prefix.1 stands
      cases spelled : op.toList with
      | nil =>
          rw [spelled] at length
          simp [← length]
      | cons first others =>
          rw [spelled] at split tail length
          have behind : rest = others ++ later := (List.cons.inj split).2.symm
          have taken : rest.take (op.length - 1) = others := by
            rw [behind, ← length, List.length_cons, Nat.add_sub_cancel, List.take_left]
          show ∀ d ∈ rest.take (op.length - 1), isPlain d = true
          rw [taken]
          exact List.all_eq_true.1 tail
  | case2 none =>
      dsimp only
      split
      · rename_i isSpread
        obtain ⟨later, split⟩ := List.isPrefixOf_iff_prefix.1 isSpread
        have behind : rest = ['.', '.'] ++ later := (List.cons.inj split).2.symm
        have points : ∀ d ∈ ['.', '.'], isPlain d = true := forall_mem_of_all (by decide)
        intro d member
        rw [behind] at member
        exact points d member
      · exact fun d member => by simp at member

end UiFormat.Ets

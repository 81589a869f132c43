/-
# UiFormat.Proofs.Text.Literal -- literals end where they ended

The extent of a string or a number is found by looking at what follows.  Here is
how far that look goes: a string that was closed is as long in front of any other
text (`stringExtent_append`), and a number is as long in front of any text that
opens with a character no numeral goes on with (`numberLength_append`).  A point
goes on with a numeral that is digits alone, and with no other.
-/
import UiFormat.Text.Digit
import UiFormat.Text.NumberExtent
import UiFormat.Text.Quoted
import UiFormat.Proofs.Text.Blanks
import Mathlib.Data.List.TakeWhile

namespace UiFormat.Text

set_option autoImplicit false

/-! ## Strings -/

theorem stringExtent_cons {quote c : Char} (notBackslash : c ≠ '\\') (text : Text) :
    stringExtent quote (c :: text) = if c = quote then 1 else stringExtent quote text + 1 := by
  rw [stringExtent.eq_def]
  split
  · contradiction
  · rename_i same
    cases same
    contradiction
  · rename_i same
    cases same
    rfl

theorem stringExtent_escape (quote c : Char) (text : Text) :
    stringExtent quote ('\\' :: c :: text) = stringExtent quote text + 2 := by
  rw [stringExtent]

theorem stringExtent_pos {quote : Char} {text : Text} (some : text ≠ []) :
    0 < stringExtent quote text := by
  fun_cases stringExtent quote text with
  | case1 => exact absurd rfl some
  | case2 => decide
  | case3 => omega
  | case4 => decide
  | case5 => omega

theorem templateExtent_cons {depth : Nat} {c : Char} {text : Text} (notBackslash : c ≠ '\\')
    (noGroup : c = '$' → startsWith text ['{'] = false) :
    templateExtent depth (c :: text) =
      if c = '{' then templateExtent (if depth = 0 then 0 else depth + 1) text + 1
      else if c = '}' then templateExtent (depth - 1) text + 1
      else if c = '\x60' && depth = 0 then 1
      else templateExtent depth text + 1 := by
  rw [templateExtent.eq_def]
  split
  · contradiction
  · rename_i same
    cases same
    contradiction
  · rename_i same
    cases same
    cases noGroup rfl
  · rename_i same
    cases same
    rfl

theorem templateExtent_pos (depth : Nat) {text : Text} (some : text ≠ []) :
    0 < templateExtent depth text := by
  fun_cases templateExtent depth text with
  | case1 => exact absurd rfl some
  | case2 => decide
  | case7 => decide
  | _ => omega

/-- Something follows the string, so it has been closed. -/
theorem stringExtent_append {quote : Char} {x rest : Text}
    (here : stringExtent quote (x ++ rest) = x.length) (more : rest ≠ []) (w : Text) :
    stringExtent quote (x ++ w) = x.length := by
  fun_induction stringExtent quote x with
  | case1 => exact absurd here (Nat.ne_of_gt (stringExtent_pos more))
  | case2 =>
      cases rest with
      | nil => exact absurd rfl more
      | cons c rest => simp [stringExtent_escape] at here
  | case3 c text ih =>
      simp only [List.cons_append, stringExtent_escape, List.length_cons,
        Nat.add_right_cancel_iff] at here ⊢
      exact ih here
  | case4 text notBackslash =>
      rw [List.cons_append, stringExtent_cons (by simpa using notBackslash), if_pos rfl] at here ⊢
      exact here
  | case5 c text notBackslash notQuote ih =>
      rw [List.cons_append, stringExtent_cons (by simpa using notBackslash), if_neg notQuote] at here ⊢
      exact congrArg (· + 1) (ih (Nat.succ.inj here))

/-- Something follows the template literal, so a back quote has closed it. -/
theorem templateExtent_append {depth : Nat} {x rest : Text}
    (here : templateExtent depth (x ++ rest) = x.length) (more : rest ≠ []) :
    x.getLast? = some '\x60' ∧ ∀ w, templateExtent depth (x ++ w) = x.length := by
  have extend : ∀ {c : Char} {text : Text}, text.getLast? = some '\x60' →
      (c :: text).getLast? = some '\x60' := by
    intro c text last
    rw [List.getLast?_cons, last]
    rfl
  fun_induction templateExtent depth x with
  | case1 => exact absurd here (Nat.ne_of_gt (templateExtent_pos _ more))
  | case2 depth =>
      obtain ⟨c, rest, rfl⟩ := List.exists_cons_of_ne_nil more
      simp [templateExtent] at here
  | case3 depth c text ih =>
      simp only [List.cons_append, templateExtent, List.length_cons, Nat.add_right_cancel_iff] at here ⊢
      obtain ⟨last, all⟩ := ih here
      exact ⟨extend (extend last), all⟩
  | case4 depth text ih =>
      simp only [List.cons_append, templateExtent, List.length_cons, Nat.add_right_cancel_iff] at here ⊢
      obtain ⟨last, all⟩ := ih here
      exact ⟨extend (extend last), all⟩
  | case5 depth text _ _ ih =>
      simp only [List.cons_append, templateExtent_cons (show '{' ≠ '\\' by decide)
        (fun isDollar => absurd isDollar (by decide)), if_true, List.length_cons,
        Nat.add_right_cancel_iff] at here ⊢
      obtain ⟨last, all⟩ := ih here
      exact ⟨extend last, all⟩
  | case6 depth text _ _ other ih =>
      simp only [List.cons_append, templateExtent_cons (show '}' ≠ '\\' by decide)
        (fun isDollar => absurd isDollar (by decide)), if_neg other, if_true, List.length_cons,
        Nat.add_right_cancel_iff] at here ⊢
      obtain ⟨last, all⟩ := ih here
      exact ⟨extend last, all⟩
  | case7 depth c text notBackslash notGroup notOpening notClosing closes =>
      obtain ⟨rfl, rfl⟩ : c = '\x60' ∧ depth = 0 := by simpa using closes
      have one : ∀ w, templateExtent 0 ('\x60' :: w) = 1 := fun w =>
        templateExtent_cons (by decide) fun isDollar => absurd isDollar (by decide)
      rw [List.cons_append, one, List.length_cons] at here
      obtain rfl : text = [] := List.length_eq_zero_iff.1 (by omega)
      exact ⟨rfl, one⟩
  | case8 depth c text notBackslash notGroup notOpening notClosing goesOn ih =>
      have further : ∀ {w : Text}, (c = '$' → startsWith w ['{'] = false) →
          templateExtent depth (c :: w) = templateExtent depth w + 1 := by
        intro w noGroup
        rw [templateExtent_cons (by simpa using notBackslash) noGroup, if_neg notOpening,
          if_neg notClosing, if_neg goesOn]
      cases text with
      | nil =>
          by_cases opens : c = '$' ∧ startsWith rest ['{'] = true
          · obtain ⟨rfl, brace⟩ := opens
            obtain ⟨rest, rfl⟩ := List.isPrefixOf_iff_prefix.1 brace
            simp [templateExtent] at here
          · have some := templateExtent_pos depth more
            rw [List.cons_append, List.nil_append, further (by simpa using opens),
              List.length_singleton] at here
            omega
      | cons d text =>
          have noGroup : ∀ w, c = '$' → startsWith (d :: text ++ w) ['{'] = false := by
            intro w isDollar
            have other : d ≠ '{' := by
              rintro rfl
              exact notGroup text isDollar rfl
            simp [startsWith, List.isPrefixOf, Ne.symm other]
          rw [List.cons_append, further (noGroup rest), List.length_cons,
            Nat.add_right_cancel_iff] at here
          obtain ⟨last, all⟩ := ih here
          refine ⟨extend last, fun w => ?_⟩
          rw [List.cons_append, further (noGroup w), all, List.length_cons (a := c)]

theorem stringExtent_le (quote : Char) (text : Text) : stringExtent quote text ≤ text.length := by
  fun_induction stringExtent quote text <;> simp only [List.length_cons, List.length_nil] <;> omega

theorem templateExtent_le (depth : Nat) (text : Text) : templateExtent depth text ≤ text.length := by
  fun_induction templateExtent depth text <;> simp only [List.length_cons, List.length_nil] <;> omega

theorem literalExtent_le (quote : Char) (text : Text) : literalExtent quote text ≤ text.length := by
  rw [literalExtent]
  split
  · exact templateExtent_le 0 text
  · exact stringExtent_le quote text

/-- The text can stand inside a string: it does not close it. -/
def staysOpen (quote : Char) : Text → Bool
  | [] => true
  | '\\' :: text =>
      match text with
      | [] => true
      | _ :: rest => staysOpen quote rest
  | c :: text => c != quote && staysOpen quote text

theorem staysOpen_cons {quote c : Char} (notBackslash : c ≠ '\\') (text : Text) :
    staysOpen quote (c :: text) = (c != quote && staysOpen quote text) := by
  rw [staysOpen.eq_def]
  split
  · contradiction
  · rename_i same
    cases same
    contradiction
  · rename_i same
    cases same
    rfl

theorem staysOpen_escape (quote c : Char) (text : Text) :
    staysOpen quote ('\\' :: c :: text) = staysOpen quote text := by
  rw [staysOpen]

/-- A string that goes on behind a text is not closed in it. -/
theorem staysOpen_of_lt {quote : Char} {text w : Text}
    (longer : text.length < stringExtent quote (text ++ w)) : staysOpen quote text = true := by
  fun_induction staysOpen quote text with
  | case1 => rfl
  | case2 => rfl
  | case3 c text ih =>
      simp only [List.cons_append, stringExtent_escape, List.length_cons] at longer
      exact ih (by omega)
  | case4 c text notBackslash ih =>
      rw [List.cons_append, stringExtent_cons (by simpa using notBackslash)] at longer
      split at longer
      · simp at longer
      · rename_i notQuote
        simp only [List.length_cons, Nat.add_lt_add_iff_right] at longer
        simp [notQuote, ih longer]

theorem staysOpen_left {quote : Char} {a b : Text} (opened : staysOpen quote (a ++ b) = true) :
    staysOpen quote a = true := by
  fun_induction staysOpen quote a with
  | case1 => rfl
  | case2 => rfl
  | case3 c text ih =>
      rw [List.cons_append, List.cons_append, staysOpen_escape] at opened
      exact ih opened
  | case4 c text notBackslash ih =>
      rw [List.cons_append, staysOpen_cons (by simpa using notBackslash), Bool.and_eq_true] at opened
      simp [opened.1, ih opened.2]

/-- The text and nothing of what follows it is part of the string. -/
def Quotable (quote : Char) (text : Text) : Prop :=
  ∀ w, stringExtent quote (text ++ w) = text.length + stringExtent quote w

/-- A backslash at the end of a text takes the next character with it; any other
text ends where it ends. -/
theorem staysOpen_split {quote : Char} {a b : Text} (opened : staysOpen quote (a ++ b) = true)
    (last : a.getLast? ≠ some '\\') : Quotable quote a ∧ staysOpen quote b = true := by
  fun_induction staysOpen quote a with
  | case1 => exact ⟨fun w => (Nat.zero_add _).symm, opened⟩
  | case2 => exact absurd rfl last
  | case3 c text ih =>
      rw [List.cons_append, List.cons_append, staysOpen_escape] at opened
      have inner : text.getLast? ≠ some '\\' := by
        cases text with
        | nil => simp
        | cons d text => simpa using last
      obtain ⟨quotable, later⟩ := ih opened inner
      refine ⟨fun w => ?_, later⟩
      simp only [List.cons_append, stringExtent_escape, quotable w, List.length_cons]
      omega
  | case4 c text notBackslash ih =>
      have other : c ≠ '\\' := by simpa using notBackslash
      rw [List.cons_append, staysOpen_cons other, Bool.and_eq_true] at opened
      have inner : text.getLast? ≠ some '\\' := by
        cases text with
        | nil => simp
        | cons d text => simpa using last
      obtain ⟨quotable, later⟩ := ih opened.2 inner
      refine ⟨fun w => ?_, later⟩
      rw [List.cons_append, stringExtent_cons other, if_neg (by simpa using opened.1), quotable w,
        List.length_cons]
      omega

theorem Quotable.append {quote : Char} {a b : Text} (first : Quotable quote a)
    (second : Quotable quote b) : Quotable quote (a ++ b) := by
  intro w
  rw [List.append_assoc, first, second, List.length_append]
  omega

theorem Quotable.staysOpen {quote : Char} {text : Text} (quotable : Quotable quote text) :
    staysOpen quote text = true := by
  refine staysOpen_of_lt (w := [quote]) ?_
  have pos : 0 < stringExtent quote [quote] := stringExtent_pos (by simp)
  rw [quotable]
  omega

/-- Texts without quotes and backslashes. -/
theorem quotable_of_forall {quote : Char} {text : Text}
    (plain : ∀ c ∈ text, c ≠ quote ∧ c ≠ '\\') : Quotable quote text := by
  intro w
  induction text with
  | nil => exact (Nat.zero_add _).symm
  | cons c text ih =>
      obtain ⟨notQuote, notBackslash⟩ := plain c List.mem_cons_self
      have later := ih fun d member => plain d (List.mem_cons_of_mem _ member)
      rw [List.cons_append, stringExtent_cons notBackslash, if_neg notQuote, later,
        List.length_cons]
      omega

theorem staysOpen_of_forall {quote : Char} {text : Text}
    (plain : ∀ c ∈ text, c ≠ quote ∧ c ≠ '\\') : staysOpen quote text = true := by
  induction text with
  | nil => rfl
  | cons c text ih =>
      obtain ⟨notQuote, notBackslash⟩ := plain c List.mem_cons_self
      have later := ih fun d member => plain d (List.mem_cons_of_mem _ member)
      rw [staysOpen_cons notBackslash, later]
      simpa using notQuote

/-- Plain characters behind an open string do not close it. -/
theorem staysOpen_append {quote : Char} {a b : Text} (opened : staysOpen quote a = true)
    (plain : ∀ c ∈ b, c ≠ quote ∧ c ≠ '\\') : staysOpen quote (a ++ b) = true := by
  fun_induction staysOpen quote a with
  | case1 => exact staysOpen_of_forall plain
  | case2 =>
      cases b with
      | nil => rfl
      | cons c b =>
          rw [List.singleton_append, staysOpen_escape]
          exact staysOpen_of_forall fun d member => plain d (List.mem_cons_of_mem _ member)
  | case3 c text ih =>
      rw [List.cons_append, List.cons_append, staysOpen_escape]
      exact ih opened
  | case4 c text notBackslash ih =>
      rw [Bool.and_eq_true] at opened
      rw [List.cons_append, staysOpen_cons (by simpa using notBackslash), opened.1, ih opened.2]
      rfl

/-- A closed string ends with its quote. -/
theorem getLast?_of_closed {quote : Char} {text : Text}
    (closed : ∀ w, stringExtent quote (text ++ w) = text.length) : text.getLast? = some quote := by
  fun_induction stringExtent quote text with
  | case1 =>
      have impossible := closed [quote]
      exact absurd impossible (Nat.ne_of_gt (stringExtent_pos (by simp)))
  | case2 =>
      have impossible := closed [quote]
      simp [stringExtent_escape] at impossible
  | case3 c text ih =>
      have inner : ∀ w, stringExtent quote (text ++ w) = text.length := by
        intro w
        have here := closed w
        simpa [stringExtent_escape] using here
      have last := ih inner
      cases text with
      | nil => cases last
      | cons d text => simpa using last
  | case4 text notBackslash =>
      have here := closed []
      rw [List.append_nil, stringExtent_cons (by simpa using notBackslash), if_pos rfl] at here
      cases text with
      | nil => rfl
      | cons d text => simp at here
  | case5 c text notBackslash notQuote ih =>
      have inner : ∀ w, stringExtent quote (text ++ w) = text.length := by
        intro w
        have here := closed w
        rw [List.cons_append, stringExtent_cons (by simpa using notBackslash), if_neg notQuote] at here
        exact Nat.succ.inj here
      have last := ih inner
      cases text with
      | nil => cases last
      | cons d text => simpa using last

/-- The last character is a backslash that takes what follows with it. -/
def escapesEnd : Text → Bool
  | [] => false
  | '\\' :: text =>
      match text with
      | [] => true
      | _ :: rest => escapesEnd rest
  | _ :: text => escapesEnd text

/-- A text without the quote can stand in a string unless it escapes what is behind it. -/
theorem quotable_of_escapesEnd {quote : Char} {text : Text} (inside : ∀ c ∈ text, c ≠ quote)
    (closed : escapesEnd text = false) : Quotable quote text := by
  intro w
  fun_induction escapesEnd text with
  | case1 => exact (Nat.zero_add _).symm
  | case2 => cases closed
  | case3 c rest ih =>
      have later := ih (fun d member => inside d (by simp [member])) closed
      simp only [List.cons_append, stringExtent_escape, later, List.length_cons]
      omega
  | case4 c text notBackslash ih =>
      have other : c ≠ '\\' := by simpa using notBackslash
      rw [List.forall_mem_cons] at inside
      rw [List.cons_append, stringExtent_cons other, if_neg inside.1, ih inside.2 closed, List.length_cons]
      omega

/-- A text that escapes the quote behind it takes the quote into the string. -/
theorem stringExtent_of_escapesEnd {quote : Char} {text : Text} (inside : ∀ c ∈ text, c ≠ quote)
    (escapes : escapesEnd text = true) (w : Text) :
    stringExtent quote (text ++ quote :: w) = text.length + 1 + stringExtent quote w := by
  fun_induction escapesEnd text with
  | case1 => cases escapes
  | case2 =>
      rw [List.cons_append, List.nil_append, stringExtent_escape, List.length_singleton]
      omega
  | case3 c rest ih =>
      have later := ih (fun d member => inside d (by simp [member])) escapes
      simp only [List.cons_append, stringExtent_escape, later, List.length_cons]
      omega
  | case4 c text notBackslash ih =>
      have other : c ≠ '\\' := by simpa using notBackslash
      rw [List.forall_mem_cons] at inside
      rw [List.cons_append, stringExtent_cons other, if_neg inside.1, ih inside.2 escapes, List.length_cons]
      omega

/-! ## Numbers -/

/-- Digits are the ten of ASCII or lie beyond it. -/
theorem toNat_of_isDigit {c : Char} (digit : isDigit c = true) :
    48 ≤ c.toNat ∧ c.toNat ≤ 57 ∨ 128 ≤ c.toNat := by
  have table : ∀ range ∈ decimalRanges ++ otherDigitRanges,
      (range.1 = 48 ∧ range.2 = 57) ∨ 128 ≤ range.1 := by decide
  simp only [isDigit, inRanges, Bool.or_eq_true, List.any_eq_true, Bool.and_eq_true,
    decide_eq_true_eq] at digit
  rcases digit with ⟨range, member, low, high⟩ | ⟨range, member, low, high⟩
  · rcases table range (List.mem_append_left _ member) with ⟨one, two⟩ | far <;> omega
  · rcases table range (List.mem_append_right _ member) with ⟨one, two⟩ | far <;> omega

/-- No character of the kind stands at the front. -/
def Clear (p : Char → Bool) (text : Text) : Prop :=
  ∀ c ∈ text.head?, p c = false

theorem runLength_append {p : Char → Bool} {run rest : Text} (all : ∀ c ∈ run, p c = true)
    (clear : Clear p rest) : runLength p (run ++ rest) = run.length := by
  unfold runLength
  rw [List.takeWhile_append_of_pos all]
  cases rest with
  | nil => simp
  | cons c rest => simp [clear c rfl]

theorem take_runLength (p : Char → Bool) (text : Text) :
    text.take (runLength p text) = text.takeWhile p :=
  (List.prefix_iff_eq_take.1 (List.takeWhile_prefix p)).symm

theorem drop_runLength (p : Char → Bool) (text : Text) :
    text.drop (runLength p text) = text.dropWhile p := by
  have whole : text.takeWhile p ++ text.dropWhile p = text := List.takeWhile_append_dropWhile
  calc text.drop (runLength p text)
      = (text.takeWhile p ++ text.dropWhile p).drop (text.takeWhile p).length := by
        rw [whole, runLength]
    _ = text.dropWhile p := List.drop_left

theorem clear_append {p : Char → Bool} {text w : Text} (front : ∀ c ∈ text.head?, p c = false)
    (clear : Clear p w) : Clear p (text ++ w) := by
  cases text with
  | nil => exact clear
  | cons c text => exact front

theorem clear_dropWhile (p : Char → Bool) (text : Text) : Clear p (text.dropWhile p) := by
  intro c first
  have stops := List.head?_dropWhile_not p text
  rw [first] at stops
  simpa using stops

/-- A stretch of one kind of characters ends where the kind ends. -/
theorem takeWhile_stretch {p : Char → Bool} {stretch rest : Text} (all : ∀ c ∈ stretch, p c = true)
    (clear : Clear p rest) : (stretch ++ rest).takeWhile p = stretch := by
  rw [← take_runLength, runLength_append all clear, List.take_left]

theorem dropWhile_stretch {p : Char → Bool} {stretch rest : Text} (all : ∀ c ∈ stretch, p c = true)
    (clear : Clear p rest) : (stretch ++ rest).dropWhile p = rest := by
  rw [← drop_runLength, runLength_append all clear, List.drop_left]

/-- Characters of a kind that `rest` does not open with are all in front of it. -/
theorem take_append_of_clear {p : Char → Bool} {text rest : Text} {n : Nat} (clear : Clear p rest)
    (inside : ∀ c ∈ (text ++ rest).take n, p c = true) :
    (text ++ rest).take n = text.take n ∧ (text ++ rest).drop n = text.drop n ++ rest := by
  cases rest with
  | nil => simp
  | cons c rest =>
      have short : n ≤ text.length := by
        by_contra long
        obtain ⟨k, taken⟩ : ∃ k, n - text.length = k + 1 := ⟨n - text.length - 1, by omega⟩
        have member : c ∈ (text ++ c :: rest).take n := by
          rw [List.take_append, taken, List.take_succ_cons]
          exact List.mem_append_right _ List.mem_cons_self
        have holds := inside c member
        rw [clear c rfl] at holds
        cases holds
      exact ⟨List.take_append_of_le_length short, List.drop_append_of_le_length short⟩

theorem runLength_le (p : Char → Bool) (text : Text) : runLength p text ≤ text.length :=
  (List.takeWhile_prefix p).length_le

theorem runLength_of_clear {p : Char → Bool} {w : Text} (clear : Clear p w) (text : Text) :
    runLength p (text ++ w) = runLength p text := by
  have split : (text.takeWhile p ++ text.dropWhile p) ++ w = text ++ w := by
    rw [List.takeWhile_append_dropWhile]
  have behind : Clear p (text.dropWhile p ++ w) :=
    clear_append (clear_dropWhile p text) clear
  rw [← split, List.append_assoc, runLength_append (fun _ => List.mem_takeWhile_imp) behind, runLength]

/-- A number is read at least to the character that announced it. -/
theorem numberLength_announced {c : Char} {rest : Text}
    (announced : (isDigit c || (c = '.' && rest.head?.any isDigit)) = true) :
    ∃ r, (c :: rest).take (numberLength isDigit (c :: rest)) = c :: r ∧
      r = rest.take (numberLength isDigit (c :: rest) - 1) ∧
      (isDigit c || (c = '.' && r.head?.any isDigit)) = true := by
  by_cases digit : isDigit c = true
  · have positive : 0 < numberLength isDigit (c :: rest) := by
      have whole : 0 < runLength isDigit (c :: rest) := by
        simp [runLength, digit]
      have decimal : 0 < decimalLength isDigit (c :: rest) := by
        simp only [decimalLength]
        omega
      rw [numberLength.eq_def]
      split
      · split
        · omega
        · exact decimal
      · exact decimal
    refine ⟨rest.take (numberLength isDigit (c :: rest) - 1), ?_, rfl, by simp [digit]⟩
    obtain ⟨n, same⟩ := Nat.exists_eq_succ_of_ne_zero (Nat.ne_of_gt positive)
    simp [same]
  · obtain ⟨rfl, next⟩ : c = '.' ∧ rest.head?.any isDigit = true := by
      simpa [digit] using announced
    cases rest with
    | nil => cases next
    | cons d rest =>
        have digit : isDigit d = true := by simpa using next
        have length : numberLength isDigit ('.' :: d :: rest) =
            decimalLength isDigit ('.' :: d :: rest) := by
          rw [numberLength.eq_def]
          split
          · rename_i same
            cases same
          · rfl
        have whole : runLength isDigit ('.' :: d :: rest) = 0 := by
          have noDigit : isDigit '.' = false := by decide
          simp [runLength, noDigit]
        have fraction : fractionLength isDigit ('.' :: d :: rest) = runLength isDigit rest + 2 := by
          simp [fractionLength, runLength, digit]
        obtain ⟨n, same⟩ : ∃ n, numberLength isDigit ('.' :: d :: rest) = n + 2 := by
          refine Nat.exists_eq_add_of_le' ?_
          rw [length, decimalLength]
          simp only [whole, List.drop_zero, fraction]
          omega
        refine ⟨(d :: rest).take (n + 1), ?_, ?_, ?_⟩
        · rw [same, List.take_succ_cons]
        · rw [same]
          rfl
        · simp [digit]

/-- A point with digits after it, or nothing. -/
def IsFraction (text : Text) : Prop :=
  text = [] ∨ ∃ digits, text = '.' :: digits ∧ ∀ c ∈ digits, isDigit c = true

/-- A letter with a sign and digits after it, both optional, or nothing. -/
def IsExponent (text : Text) : Prop :=
  text = [] ∨ ∃ mark sign digits, text = mark :: (sign ++ digits) ∧ (mark = 'e' ∨ mark = 'E') ∧
    (sign = [] ∨ sign = ['+'] ∨ sign = ['-']) ∧ ∀ c ∈ digits, isDigit c = true

/-- The shapes of numbers. -/
inductive Numeral : Text → Prop
  | radix {mark : Char} {allowed digits : Text} (isMark : radixDigits? mark = some allowed)
      (all : ∀ c ∈ digits, allowed.contains c = true) : Numeral ('0' :: mark :: digits)
  | decimal {whole fraction exponent : Text} (all : ∀ c ∈ whole, isDigit c = true)
      (isFraction : IsFraction fraction) (isExponent : IsExponent exponent)
      (noMark : ∀ mark digits, whole ++ fraction ++ exponent = '0' :: mark :: digits →
        radixDigits? mark = none) : Numeral (whole ++ fraction ++ exponent)

/-- Characters a numeral can go on with, the point apart. -/
def isNumeralChar (c : Char) : Bool :=
  isDigit c || "+-abcdefxoABCDEFXO".toList.contains c

/-- The numeral `x` ends in front of `w`. -/
def EndsNumeral (x w : Text) : Prop :=
  Clear isNumeralChar w ∧ (w.head? = some '.' → x.all isDigit = false)

theorem isFraction_take (text : Text) : IsFraction (text.take (fractionLength isDigit text)) := by
  fun_cases fractionLength isDigit text with
  | case1 text =>
      refine .inr ⟨text.takeWhile isDigit, ?_, fun c => List.mem_takeWhile_imp⟩
      rw [List.take_succ_cons, take_runLength]
  | case2 => exact .inl (List.take_zero)

theorem isExponent_take (text : Text) : IsExponent (text.take (exponentLength isDigit text)) := by
  cases text with
  | nil => exact .inl rfl
  | cons mark text =>
      rw [exponentLength]
      split
      · rename_i isMark
        have isMark : mark = 'e' ∨ mark = 'E' := by simpa using isMark
        refine .inr ⟨mark, text.take (signLength text),
          (text.drop (signLength text)).takeWhile isDigit, ?_, isMark, ?_,
          fun c => List.mem_takeWhile_imp⟩
        · rw [List.take_succ_cons, List.take_add, take_runLength]
        · cases text with
          | nil => exact .inl rfl
          | cons c text =>
              rw [signLength]
              split
              · rename_i isSign
                have isSign : c = '+' ∨ c = '-' := by simpa using isSign
                rcases isSign with rfl | rfl <;> simp
              · exact .inl rfl
      · exact .inl (List.take_zero)

/-- What is read as a number has one of the shapes. -/
theorem numeral_take (text : Text) : Numeral (text.take (numberLength isDigit text)) := by
  have decimal (noMark : ∀ mark digits, text = '0' :: mark :: digits → radixDigits? mark = none) :
      Numeral (text.take (decimalLength isDigit text)) := by
    rw [decimalLength, List.take_add, List.take_add, take_runLength]
    refine .decimal (fun c => List.mem_takeWhile_imp) (isFraction_take _) (isExponent_take _) ?_
    intro mark digits split
    refine noMark mark (text.drop 2) ?_
    rw [← take_runLength, ← List.take_add, ← List.take_add] at split
    have whole := List.take_append_drop (runLength isDigit text +
      fractionLength isDigit (text.drop (runLength isDigit text)) + exponentLength isDigit
        (text.drop (runLength isDigit text +
          fractionLength isDigit (text.drop (runLength isDigit text))))) text
    rw [split] at whole
    rw [← whole]
    rfl
  fun_cases numberLength isDigit text with
  | case1 mark digits allowed isMark =>
      rw [List.take_succ_cons, List.take_succ_cons, take_runLength]
      exact .radix isMark fun c => List.mem_takeWhile_imp
  | case2 mark digits notMark =>
      refine decimal fun other rest split => ?_
      cases split
      exact notMark
  | case3 text noMark =>
      exact decimal fun mark digits split => absurd split (noMark mark digits)

theorem Clear.mono {p q : Char → Bool} {w : Text} (clear : Clear p w)
    (weaker : ∀ c, q c = true → p c = true) : Clear q w := by
  intro c member
  have fails := clear c member
  cases holds : q c with
  | false => rfl
  | true => simp [weaker c holds] at fails

theorem isNumeralChar_of_digit {c : Char} (digit : isDigit c = true) : isNumeralChar c = true := by
  simp [isNumeralChar, digit]

theorem isNumeralChar_of_allowed {mark c : Char} {allowed : Text}
    (isMark : radixDigits? mark = some allowed) (member : allowed.contains c = true) :
    isNumeralChar c = true := by
  have table : ∀ c ∈ "0123456789abcdefABCDEF".toList, isNumeralChar c = true :=
    forall_mem_of_all (by decide)
  refine table c ?_
  have member : c ∈ allowed := by simpa using member
  unfold radixDigits? at isMark
  split at isMark
  · cases isMark
    exact member
  · split at isMark
    · cases isMark
      have subset : ∀ c ∈ "01".toList, c ∈ "0123456789abcdefABCDEF".toList :=
        forall_mem_of_all (by decide)
      exact subset c member
    · split at isMark
      · cases isMark
        have subset : ∀ c ∈ "01234567".toList, c ∈ "0123456789abcdefABCDEF".toList :=
        forall_mem_of_all (by decide)
        exact subset c member
      · cases isMark

theorem radixDigits?_eq_none {c : Char} (other : isNumeralChar c = false) :
    radixDigits? c = none := by
  unfold radixDigits?
  split
  · rename_i isMark
    have isMark : c = 'x' ∨ c = 'X' := by simpa using isMark
    rcases isMark with rfl | rfl <;> exact absurd other (by decide)
  · split
    · rename_i isMark
      have isMark : c = 'b' ∨ c = 'B' := by simpa using isMark
      rcases isMark with rfl | rfl <;> exact absurd other (by decide)
    · split
      · rename_i isMark
        have isMark : c = 'o' ∨ c = 'O' := by simpa using isMark
        rcases isMark with rfl | rfl <;> exact absurd other (by decide)
      · rfl

theorem exponentLength_append {exponent w : Text} (isExponent : IsExponent exponent)
    (clear : Clear isNumeralChar w) : exponentLength isDigit (exponent ++ w) = exponent.length := by
  have noDigit : Clear isDigit w := clear.mono fun c => isNumeralChar_of_digit
  rcases isExponent with rfl | ⟨mark, sign, digits, rfl, isMark, isSign, all⟩
  · cases w with
    | nil => rfl
    | cons c w =>
        have other := clear c rfl
        rw [List.nil_append, exponentLength, if_neg]
        · rfl
        · intro isMark
          have isMark : c = 'e' ∨ c = 'E' := by simpa using isMark
          rcases isMark with rfl | rfl <;> exact absurd other (by decide)
  · have signed : signLength (sign ++ (digits ++ w)) = sign.length := by
      rcases isSign with rfl | rfl | rfl
      · cases digits with
        | nil =>
            cases w with
            | nil => rfl
            | cons c w =>
                have other := clear c rfl
                rw [List.nil_append, List.nil_append, signLength, if_neg]
                · rfl
                · intro isSign
                  have isSign : c = '+' ∨ c = '-' := by simpa using isSign
                  rcases isSign with rfl | rfl <;> exact absurd other (by decide)
        | cons c digits =>
            have digit := all c List.mem_cons_self
            rw [List.nil_append, List.cons_append, signLength, if_neg]
            · rfl
            · intro isSign
              have isSign : c = '+' ∨ c = '-' := by simpa using isSign
              rcases isSign with rfl | rfl <;> exact absurd digit (by decide)
      · rfl
      · rfl
    rw [List.cons_append, exponentLength, if_pos (by simpa using isMark), List.append_assoc, signed,
      List.drop_left, runLength_append all noDigit]
    simp

theorem fractionLength_append {fraction w : Text} (isFraction : IsFraction fraction)
    (noDigit : Clear isDigit w) (noPoint : fraction = [] → w.head? ≠ some '.') :
    fractionLength isDigit (fraction ++ w) = fraction.length := by
  rcases isFraction with rfl | ⟨digits, rfl, all⟩
  · rw [List.nil_append, fractionLength.eq_def]
    split
    · exact absurd rfl (noPoint rfl)
    · rfl
  · rw [List.cons_append, fractionLength, runLength_append all noDigit]
    rfl

/-- A number is as long in front of other text, when that does not go on with
it. -/
theorem numberLength_append {x w : Text} (numeral : Numeral x) (some : x ≠ [])
    (ends : EndsNumeral x w) : numberLength isDigit (x ++ w) = x.length := by
  obtain ⟨clear, noPoint⟩ := ends
  cases numeral with
  | @radix mark allowed digits isMark all =>
      have noDigit : Clear allowed.contains w :=
        clear.mono fun c => isNumeralChar_of_allowed isMark
      rw [List.cons_append, List.cons_append, numberLength, isMark]
      simp only [runLength_append all noDigit, List.length_cons]
  | @decimal whole fraction exponent all isFraction isExponent noMark =>
      have noDigit : Clear isDigit w := clear.mono fun c => isNumeralChar_of_digit
      have exponentFront : ∀ c ∈ exponent.head?, isDigit c = false ∧ c ≠ '.' := by
        rcases isExponent with rfl | ⟨mark, sign, digits, rfl, isMark, -⟩
        · simp
        · rcases isMark with rfl | rfl <;> simp <;> decide
      have fractionFront : ∀ c ∈ fraction.head?, isDigit c = false := by
        rcases isFraction with rfl | ⟨digits, rfl, -⟩
        · simp
        · simp; decide
      have afterFraction : Clear isDigit (exponent ++ w) :=
        clear_append (fun c member => (exponentFront c member).1) noDigit
      have afterWhole : Clear isDigit (fraction ++ (exponent ++ w)) :=
        clear_append fractionFront afterFraction
      have point : fraction = [] → (exponent ++ w).head? ≠ Option.some '.' := by
        rintro rfl isPoint
        cases exponent with
        | nil =>
            have digits := noPoint isPoint
            have allDigits : (whole ++ [] ++ []).all isDigit = true := by simpa using all
            rw [allDigits] at digits
            cases digits
        | cons c exponent =>
            cases isPoint
            exact absurd rfl (exponentFront '.' rfl).2
      have decimal : decimalLength isDigit (whole ++ fraction ++ exponent ++ w) =
          (whole ++ fraction ++ exponent).length := by
        simp only [decimalLength, List.append_assoc]
        rw [runLength_append all afterWhole, List.drop_left,
          fractionLength_append isFraction afterFraction point, ← List.drop_drop, List.drop_left,
          List.drop_left, exponentLength_append isExponent clear]
        simp only [List.length_append]
        omega
      rw [← decimal, numberLength.eq_def]
      split
      · rename_i mark digits split
        have none : radixDigits? mark = none := by
          generalize whole ++ fraction ++ exponent = x at some noMark split
          match x, some, split with
          | [c], _, split =>
              cases split
              exact radixDigits?_eq_none (clear mark rfl)
          | c :: d :: x, _, split =>
              cases split
              exact noMark mark x rfl
        rw [none]
      · rfl

end UiFormat.Text

/-
# UiFormat.Proofs.Ets.RespacedTokens -- respaced texts open with the same token

Texts that differ only in the blanks around their line breaks open with the same token up to
blanks.  Every scanner of the lexer carries the relation from the text it starts on to the
text it leaves (`Respaced.behindString`, `Respaced.behindTemplate`, ...), so one token does
(`lexeme_respaced`).

The exception are regular expressions: a backslash takes the next character with it, also
the line feed that would end the expression.  That one is closed alike in both texts is a
condition here; texts that meet it are the subject of the module on reflowed texts.
-/
import UiFormat.Proofs.Ets.Respacing
import Mathlib.Data.List.Find

namespace UiFormat.Ets

open UiFormat.Text
open UiFormat.Parse

set_option autoImplicit false

section Scanners

variable {a b : Text}

/-! ## Strings, template literals and block comments -/

/-- A step that takes one character with it, whatever it is. -/
theorem Respaced.lift_escape {α : Type} {R : α → α → Prop} {f : Text → α} {r s : Text}
    (passes : ∀ c text, isSpacing c = true → f (c :: text) = f text) (respaced : Respaced r s)
    (related : ∀ u v, u.length ≤ r.length → Respaced u v → R (f u) (f v)) :
    R (f (r.drop 1)) (f (s.drop 1)) := by
  have passed : ∀ {text : Text}, Faded text → f (text.drop 1) = f text := by
    intro text faded
    cases text with
    | nil => rfl
    | cons c text => exact (passes c text (faded c rfl)).symm
  rcases respaced.front with ⟨c, u, v, rfl, rfl, -, later⟩ | ⟨left, right⟩
  · exact related u v (Nat.le_succ _) later
  · rw [passed left, passed right]
    exact related r s (Nat.le_refl _) respaced

/-- What follows a string literal, which opened before the text. -/
def behindString (quote : Char) (text : Text) : Text :=
  text.drop (stringExtent quote text)

theorem behindString_cons {quote c : Char} (notBackslash : c ≠ '\\') (text : Text) :
    behindString quote (c :: text) = if c = quote then text else behindString quote text := by
  rw [behindString, stringExtent_cons notBackslash]
  split
  · rfl
  · rfl

theorem behindString_escape (quote : Char) (text : Text) :
    behindString quote ('\\' :: text) = behindString quote (text.drop 1) := by
  cases text with
  | nil => rfl
  | cons c text =>
      rw [behindString, stringExtent_escape]
      rfl

theorem Respaced.behindString {quote : Char} (shown : isSpacing quote = false)
    (respaced : Respaced a b) : Respaced (behindString quote a) (behindString quote b) := by
  have passes : ∀ c text, isSpacing c = true →
      Ets.behindString quote (c :: text) = Ets.behindString quote text := by
    intro c text spacing
    rw [behindString_cons, if_neg]
    · rintro rfl
      rw [spacing] at shown
      cases shown
    · rintro rfl
      cases spacing
  refine Respaced.lift (ι := Unit) (fun _ => passes) (fun _ => nil) ?_ () respaced
  intro _ c r s shows later related
  by_cases escapes : c = '\\'
  · subst escapes
    rw [behindString_escape, behindString_escape]
    exact lift_escape passes later (related ())
  · rw [behindString_cons escapes, behindString_cons escapes]
    split
    · exact later
    · exact related () r s (Nat.le_refl _) later

/-- What follows a template literal, which opened before the text, `depth` brace groups
being open. -/
def behindTemplate (depth : Nat) (text : Text) : Text :=
  text.drop (templateExtent depth text)

theorem behindTemplate_escape (depth : Nat) (text : Text) :
    behindTemplate depth ('\\' :: text) = behindTemplate depth (text.drop 1) := by
  cases text with
  | nil => rfl
  | cons c text =>
      rw [behindTemplate, templateExtent]
      rfl

theorem behindTemplate_group (depth : Nat) (text : Text) :
    behindTemplate depth ('$' :: '{' :: text) = behindTemplate (depth + 1) text := by
  rw [behindTemplate, templateExtent]
  rfl

theorem behindTemplate_cons {depth : Nat} {c : Char} {text : Text} (notBackslash : c ≠ '\\')
    (noGroup : c = '$' → startsWith text ['{'] = false) :
    behindTemplate depth (c :: text) =
      if c = '{' then behindTemplate (if depth = 0 then 0 else depth + 1) text
      else if c = '}' then behindTemplate (depth - 1) text
      else if c = '\x60' && depth = 0 then text
      else behindTemplate depth text := by
  rw [behindTemplate, templateExtent_cons notBackslash noGroup]
  split
  · rfl
  · split
    · rfl
    · split
      · rfl
      · rfl

theorem Respaced.behindTemplate (depth : Nat) (respaced : Respaced a b) :
    Respaced (behindTemplate depth a) (behindTemplate depth b) := by
  have passes : ∀ depth c text, isSpacing c = true →
      Ets.behindTemplate depth (c :: text) = Ets.behindTemplate depth text := by
    intro depth c text spacing
    have other : c ≠ '\\' ∧ c ≠ '$' ∧ c ≠ '{' ∧ c ≠ '}' ∧ c ≠ '\x60' := by
      rcases isSpacing_cases spacing with rfl | rfl | rfl | rfl | rfl <;> decide
    rw [behindTemplate_cons other.1 fun isGroup => absurd isGroup other.2.1, if_neg other.2.2.1,
      if_neg other.2.2.2.1, if_neg (by simp [other.2.2.2.2])]
  refine Respaced.lift passes (fun _ => nil) ?_ depth respaced
  intro depth c r s shows later related
  by_cases escapes : c = '\\'
  · subst escapes
    rw [behindTemplate_escape, behindTemplate_escape]
    exact lift_escape (passes depth) later (related depth)
  by_cases opens : c = '$' ∧ Text.startsWith r ['{'] = true
  · obtain ⟨rfl, brace⟩ := opens
    obtain ⟨r, rfl⟩ := List.isPrefixOf_iff_prefix.1 brace
    obtain ⟨s, rfl, inside⟩ := later.tail (by decide)
    rw [List.singleton_append, behindTemplate_group, behindTemplate_group]
    exact related _ r s (Nat.le_succ _) inside
  · have noGroup : c = '$' → Text.startsWith r ['{'] = false := by simpa using opens
    have visible : ∀ d ∈ ['{'], isSpacing d = false := forall_mem_of_all (by decide)
    have alike := later.startsWith visible
    rw [behindTemplate_cons escapes noGroup, behindTemplate_cons escapes (alike ▸ noGroup)]
    split
    · exact related _ r s (Nat.le_refl _) later
    · split
      · exact related _ r s (Nat.le_refl _) later
      · split
        · exact later
        · exact related _ r s (Nat.le_refl _) later

/-- What follows a block comment, of which the text holds all but its opening. -/
def behindComment (text : Text) : Text :=
  text.drop (lengthThrough "*/".toList text)

theorem behindComment_cons (c : Char) (text : Text) :
    behindComment (c :: text) =
      (after? "*/".toList (c :: text)).getD (behindComment text) := by
  rw [behindComment, lengthThrough, cut?]
  cases here : after? "*/".toList (c :: text) with
  | some rest =>
      rw [after?_eq_some_iff.1 here]
      rfl
  | none =>
      rw [behindComment, lengthThrough]
      cases later : cut? "*/".toList text with
      | none => rfl
      | some found => rfl

theorem Respaced.behindComment (respaced : Respaced a b) :
    Respaced (behindComment a) (behindComment b) := by
  refine Respaced.lift (ι := Unit) (f := fun _ => Ets.behindComment) ?_ (fun _ => nil) ?_ () respaced
  · intro _ c text spacing
    have absent : Text.after? "*/".toList (c :: text) = none := by
      rcases isSpacing_cases spacing with rfl | rfl | rfl | rfl | rfl <;> rfl
    rw [behindComment_cons, absent, Option.getD_none]
  · intro _ c r s _ later related
    rw [behindComment_cons, behindComment_cons]
    have closing := (Respaced.same c later).after?
      (show ∀ d ∈ "*/".toList, isSpacing d = false from forall_mem_of_all (by decide))
    generalize Text.after? "*/".toList (c :: r) = x at closing ⊢
    generalize Text.after? "*/".toList (c :: s) = y at closing ⊢
    cases closing with
    | none => exact related () r s (Nat.le_refl _) later
    | some behind => exact behind

/-! ## Regular expressions -/

/-- What follows the body of a regular expression, if the line holds all of it. -/
def behindRegexp? (inClass : Bool) (text : Text) : Option Text :=
  (regexpLength? inClass text).map text.drop

/-- Whether a character class is open behind a character. -/
def classAfter (inClass : Bool) (c : Char) : Bool :=
  if c = '[' then true else if c = ']' then false else inClass

theorem behindRegexp?_nil (inClass : Bool) : behindRegexp? inClass [] = none := by
  rw [behindRegexp?, regexpLength?]
  rfl

theorem behindRegexp?_escape (inClass : Bool) (text : Text) :
    behindRegexp? inClass ('\\' :: text) = behindRegexp? inClass (text.drop 1) := by
  cases text with
  | nil =>
      rw [List.drop_nil, behindRegexp?_nil, behindRegexp?, regexpLength?]
      rfl
  | cons c text =>
      rw [behindRegexp?, regexpLength?, Option.map_map]
      rfl

theorem behindRegexp?_cons {inClass : Bool} {c : Char} (notBackslash : c ≠ '\\') (text : Text) :
    behindRegexp? inClass (c :: text) =
      if isBreak c then none
      else if c = '/' && !inClass then some text
      else behindRegexp? (classAfter inClass c) text := by
  have shift : ∀ length : Option Nat,
      (length.map (· + 1)).map (c :: text).drop = length.map text.drop := by
    intro length
    rw [Option.map_map]
    rfl
  rw [behindRegexp?, regexpLength?.eq_def, behindRegexp?, classAfter]
  split
  · contradiction
  · rename_i same
    cases same
    contradiction
  · rename_i same
    cases same
    split
    · rfl
    · split
      · rfl
      · split
        · exact shift _
        · split
          · exact shift _
          · exact shift _

/-- No regular expression ends in spacing that closes the line or the text. -/
theorem behindRegexp?_spacing {x : Text} (spacing : Spacing x) (inClass : Bool) (rest : Text) :
    behindRegexp? inClass (x ++ rest) = if '\n' ∈ x then none else behindRegexp? inClass rest := by
  induction x with
  | nil => rfl
  | cons c x ih =>
      have blank : ∀ {d : Char}, isSpacing d = true → d ≠ '\n' → d ≠ '\\' ∧ isBreak d = false ∧
          d ≠ '/' ∧ ∀ inClass, classAfter inClass d = inClass := by
        intro d shows other
        rcases isSpacing_cases shows with rfl | rfl | rfl | rfl | rfl
        · exact ⟨by decide, rfl, by decide, fun _ => rfl⟩
        · exact ⟨by decide, rfl, by decide, fun _ => rfl⟩
        · exact ⟨by decide, rfl, by decide, fun _ => rfl⟩
        · exact ⟨by decide, rfl, by decide, fun _ => rfl⟩
        · exact absurd rfl other
      by_cases feed : c = '\n'
      · subst feed
        rw [if_pos List.mem_cons_self, List.cons_append, behindRegexp?_cons (by decide),
          if_pos (by decide)]
      · obtain ⟨notBackslash, noBreak, notSlash, same⟩ := blank (spacing c List.mem_cons_self) feed
        have later : '\n' ∈ c :: x ↔ '\n' ∈ x := by
          rw [List.mem_cons, or_iff_right (Ne.symm feed)]
        rw [List.cons_append, behindRegexp?_cons notBackslash, if_neg (by simp [noBreak]),
          if_neg (by simp [notSlash]), same, ih spacing.tail]
        simp only [later]

theorem behindRegexp?_of_spacing {x : Text} (spacing : Spacing x) (inClass : Bool) :
    behindRegexp? inClass x = none := by
  have found := behindRegexp?_spacing spacing inClass []
  rw [List.append_nil, behindRegexp?_nil, ite_self] at found
  exact found

/-! ## Numbers -/

theorem isDigit_of_isSpacing (c : Char) (spacing : isSpacing c = true) : c.isDigit = false :=
  fails_of_isSpacing (p := Char.isDigit) (forall_mem_of_all (by decide)) spacing

theorem isSpacing_of_isNumberChar {c : Char} (inNumber : isNumberChar c = true) :
    isSpacing c = false :=
  isSpacing_of_isPlain (plain_of (p := isNumberChar) (forall_mem_of_all (by decide)) inNumber)

/-- A number at the front of both texts ends at the same place of both. -/
theorem Respaced.drop_number (respaced : Respaced a b) {n : Nat} (left : NumberChars (a.take n))
    (right : NumberChars (b.take n)) : Respaced (a.drop n) (b.drop n) :=
  (respaced.drop (fun d member => isSpacing_of_isNumberChar (left d member))
    fun d member => isSpacing_of_isNumberChar (right d member)).2

theorem Respaced.fractionLength (respaced : Respaced a b) :
    fractionLength Char.isDigit a = fractionLength Char.isDigit b := by
  have none : ∀ {text : Text}, Faded text → Text.fractionLength Char.isDigit text = 0 := by
    intro text faded
    fun_cases Text.fractionLength Char.isDigit text with
    | case1 text => cases faded '.' rfl
    | case2 text => rfl
  rcases respaced.front with ⟨c, r, s, rfl, rfl, -, later⟩ | ⟨left, right⟩
  · by_cases point : c = '.'
    · subst point
      rw [Text.fractionLength, Text.fractionLength, later.runLength isDigit_of_isSpacing]
    · rw [Text.fractionLength, Text.fractionLength]
      · exact fun text same => point (List.cons.inj same).1
      · exact fun text same => point (List.cons.inj same).1
  · rw [none left, none right]

theorem Respaced.signLength (respaced : Respaced a b) : signLength a = signLength b := by
  have none : ∀ {text : Text}, Faded text → Text.signLength text = 0 := by
    intro text faded
    fun_cases Text.signLength text with
    | case1 c text isSign =>
        have signs : c = '+' ∨ c = '-' := by simpa using isSign
        rcases signs with rfl | rfl
        · cases faded '+' rfl
        · cases faded '-' rfl
    | case2 c text => rfl
    | case3 => rfl
  rcases respaced.front with ⟨c, r, s, rfl, rfl, -, -⟩ | ⟨left, right⟩
  · rfl
  · rw [none left, none right]

theorem Respaced.exponentLength (respaced : Respaced a b) :
    exponentLength Char.isDigit a = exponentLength Char.isDigit b := by
  have none : ∀ {text : Text}, Faded text → Text.exponentLength Char.isDigit text = 0 := by
    intro text faded
    fun_cases Text.exponentLength Char.isDigit text with
    | case1 c text isMark =>
        have marks : c = 'e' ∨ c = 'E' := by simpa using isMark
        rcases marks with rfl | rfl
        · cases faded 'e' rfl
        · cases faded 'E' rfl
    | case2 c text => rfl
    | case3 => rfl
  rcases respaced.front with ⟨c, r, s, rfl, rfl, -, later⟩ | ⟨left, right⟩
  · have sign := later.signLength
    have digits := later.drop_number (numberChars_sign r) (sign ▸ numberChars_sign s)
    rw [Text.exponentLength, Text.exponentLength, ← sign, digits.runLength isDigit_of_isSpacing]
  · rw [none left, none right]

theorem Respaced.decimalLength (respaced : Respaced a b) :
    decimalLength Char.isDigit a = decimalLength Char.isDigit b := by
  have whole := respaced.runLength isDigit_of_isSpacing
  have wholeChars : ∀ text : Text, NumberChars (text.take (Text.runLength Char.isDigit text)) :=
    numberChars_run fun c => isNumberChar_of_isDigit
  have behindWhole := respaced.drop_number (wholeChars a) (whole ▸ wholeChars b)
  have fraction := behindWhole.fractionLength
  have behindFraction := behindWhole.drop_number (numberChars_fraction _)
    (fraction ▸ numberChars_fraction _)
  have exponent := behindFraction.exponentLength
  simp only [List.drop_drop] at exponent
  simp only [Text.decimalLength]
  rw [← whole, ← fraction, exponent]

/-- The text opens with a radix mark. -/
def IsRadix (text : Text) : Prop :=
  ∃ mark digits allowed, text = '0' :: mark :: digits ∧ radixDigits? mark = some allowed

theorem numberLength_of_not_radix {text : Text} (plain : ¬ IsRadix text) :
    numberLength Char.isDigit text = decimalLength Char.isDigit text := by
  fun_cases Text.numberLength Char.isDigit text with
  | case1 mark digits allowed isRadix => exact absurd ⟨mark, digits, allowed, rfl, isRadix⟩ plain
  | case2 => rfl
  | case3 => rfl

theorem Respaced.numberLength (respaced : Respaced a b) :
    numberLength Char.isDigit a = numberLength Char.isDigit b := by
  have opens : ∀ {a b : Text} {mark : Char} {digits allowed : Text}, Respaced a b →
      a = '0' :: mark :: digits → radixDigits? mark = some allowed →
        ∃ more, b = '0' :: mark :: more ∧ Respaced digits more := by
    rintro _ b mark digits allowed related rfl isRadix
    obtain ⟨rest, rfl, marked⟩ := related.tail (by decide)
    obtain ⟨more, rfl, later⟩ :=
      marked.tail (isSpacing_of_isNumberChar (isNumberChar_of_radix isRadix).1)
    exact ⟨more, rfl, later⟩
  by_cases radix : IsRadix a
  · obtain ⟨mark, digits, allowed, rfl, isRadix⟩ := radix
    obtain ⟨more, rfl, later⟩ := opens respaced rfl isRadix
    have visible : ∀ c, isSpacing c = true → allowed.contains c = false := by
      intro c spacing
      by_contra inside
      have inNumber := (isNumberChar_of_radix isRadix).2 c (by simpa using inside)
      rw [isSpacing_of_isNumberChar inNumber] at spacing
      cases spacing
    simp only [Text.numberLength, isRadix, later.runLength visible]
  · have plain : ¬ IsRadix b := by
      rintro ⟨mark, digits, allowed, same, isRadix⟩
      obtain ⟨more, there, -⟩ := opens respaced.symm same isRadix
      exact radix ⟨mark, more, allowed, there, isRadix⟩
    rw [numberLength_of_not_radix radix, numberLength_of_not_radix plain, respaced.decimalLength]

theorem Respaced.numberExtent (c : Char) {r s : Text} (later : Respaced r s) :
    numberExtent c r = numberExtent c s := by
  have length := (Respaced.same c later).numberLength
  have behind : Respaced (r.drop (Text.numberLength Char.isDigit (c :: r) - 1))
      (s.drop (Text.numberLength Char.isDigit (c :: r) - 1)) := by
    have ends := (Respaced.same c later).drop_number (numberChars_number _)
      (length ▸ numberChars_number _)
    cases size : Text.numberLength Char.isDigit (c :: r) with
    | zero => exact later
    | succ n =>
        rw [size] at ends
        exact ends
  have visible : ∀ d ∈ ['n'], isSpacing d = false := forall_mem_of_all (by decide)
  have big := behind.startsWith visible
  simp only [Ets.numberExtent]
  rw [← length, big]

/-! ## Tokens -/

theorem Respaced.drop_plain {r s : Text} (later : Respaced r s) {n : Nat}
    (left : ∀ d ∈ r.take n, isPlain d = true) (right : ∀ d ∈ s.take n, isPlain d = true) :
    r.take n = s.take n ∧ Respaced (r.drop n) (s.drop n) :=
  later.drop (fun d member => isSpacing_of_isPlain (left d member))
    fun d member => isSpacing_of_isPlain (right d member)

/-- The kind alone does not tell what the token is. -/
def Kind.isSpelled : Kind → Bool
  | .keyword | .punctuator => true
  | _ => false

/-- Tokens at the front of respaced texts: of the same kind, with respaced texts behind
them, and with the same text where their kind does not tell all. -/
structure SameLexeme (r s : Text) (x y : Kind × Nat) : Prop where
  kind : x.1 = y.1
  rest : Respaced (r.drop x.2) (s.drop y.2)
  text : x.1.isSpelled = true → r.take x.2 = s.take y.2

theorem SameLexeme.ite {r s : Text} {p : Prop} [Decidable p] {x y u v : Kind × Nat}
    (yes : p → SameLexeme r s x y) (no : ¬ p → SameLexeme r s u v) :
    SameLexeme r s (if p then x else u) (if p then y else v) := by
  split
  · exact yes ‹p›
  · exact no ‹¬p›

theorem Respaced.symbol (c : Char) {r s : Text} (later : Respaced r s) :
    SameLexeme r s (symbol c r) (symbol c s) := by
  have same : Ets.symbol c r = Ets.symbol c s := by
    have whole := Respaced.same c later
    have visible : ∀ op ∈ operators, (op.toList.all fun d => decide (isSpacing d = false)) = true := by
      decide
    have found : operator? (c :: r) = operator? (c :: s) := by
      rw [operator?, operator?]
      refine List.find?_congr fun op member => ?_
      exact whole.startsWith (forall_mem_of_all (visible op member))
    have points : ∀ d ∈ "...".toList, isSpacing d = false := forall_mem_of_all (by decide)
    have spread := whole.startsWith points
    rw [Ets.symbol, Ets.symbol, found, spread]
  have ends := later.drop_plain (plain_symbol c r) (same ▸ plain_symbol c s)
  rw [← same]
  exact ⟨rfl, ends.2, fun _ => ends.1⟩

theorem isIdentChar_of_isSpacing (c : Char) (spacing : isSpacing c = true) :
    isIdentChar c = false :=
  fails_of_isSpacing (p := isIdentChar) (forall_mem_of_all (by decide)) spacing

theorem Respaced.slash {r s : Text} (operandBefore : Bool) (later : Respaced r s)
    (closing : Option.Rel Respaced (behindRegexp? false r) (behindRegexp? false s)) :
    SameLexeme r s (slash operandBefore r) (slash operandBefore s) := by
  rw [Ets.slash, Ets.slash]
  cases operandBefore with
  | true => exact later.symbol '/'
  | false =>
      simp only [Ets.behindRegexp?, regexpExtent?, Bool.false_eq_true, if_false] at closing ⊢
      cases here : regexpLength? false r with
      | none =>
          cases there : regexpLength? false s with
          | none => exact later.symbol '/'
          | some n =>
              rw [here, there] at closing
              cases closing
      | some m =>
          cases there : regexpLength? false s with
          | none =>
              rw [here, there] at closing
              cases closing
          | some n =>
              rw [here, there] at closing
              cases closing with
              | some behind =>
                  refine ⟨rfl, ?_, nofun⟩
                  simp only [Option.map_some, ← List.drop_drop, drop_runLength]
                  exact (behind.takeWhile isIdentChar_of_isSpacing).2

/-- One token: whatever visible character opens it, both texts have it. -/
theorem lexeme_respaced {c : Char} {r s : Text} (operandBefore : Bool)
    (shows : isSpacing c = false) (noReturn : c ≠ '\r') (later : Respaced r s)
    (closing : Option.Rel Respaced (behindRegexp? false r) (behindRegexp? false s)) :
    SameLexeme r s (lexeme operandBefore c r) (lexeme operandBefore c s) := by
  have starts : ∀ word : Text, (word.all fun d => decide (isSpacing d = false)) = true →
      Text.startsWith r word = Text.startsWith s word :=
    fun word visible => later.startsWith (forall_mem_of_all visible)
  have digit : r.head?.any Char.isDigit = s.head?.any Char.isDigit := by
    rcases later.front with ⟨d, u, v, rfl, rfl, -, -⟩ | ⟨fadedR, fadedS⟩
    · rfl
    · have none : ∀ {text : Text}, Faded text → text.head?.any Char.isDigit = false := by
        intro text faded
        cases text with
        | nil => rfl
        | cons d text => exact isDigit_of_isSpacing d (faded d rfl)
      rw [none fadedR, none fadedS]
  simp only [lexeme, starts ['/'] (by decide), starts ['*'] (by decide),
    starts "**".toList (by decide), starts "**/".toList (by decide), digit]
  refine .ite (fun feed => ?_) fun _ => ?_
  · rw [feed] at shows
    cases shows
  refine .ite (fun isReturn => absurd isReturn noReturn) fun _ => ?_
  refine .ite (fun blank => ?_) fun _ => ?_
  · rw [isSpacing, blank] at shows
    cases shows
  refine .ite (fun isComment => ?_) fun _ => ?_
  · refine ⟨rfl, ?_, fun isSpelled => absurd isSpelled Bool.false_ne_true⟩
    rw [drop_runLength, drop_runLength]
    exact later.dropLine
  refine .ite (fun isBlock => ?_) fun _ => ?_
  · rw [Bool.and_eq_true, ← starts ['*'] (by decide)] at isBlock
    obtain ⟨u, rfl⟩ := List.isPrefixOf_iff_prefix.1 isBlock.2
    obtain ⟨v, rfl, inside⟩ := later.tail (by decide)
    refine ⟨rfl, inside.behindComment, fun isSpelled => ?_⟩
    dsimp only at isSpelled
    split at isSpelled
    · cases isSpelled
    · cases isSpelled
  refine .ite (fun isDecorator => ?_) fun _ => ?_
  · refine ⟨rfl, ?_, fun isSpelled => absurd isSpelled Bool.false_ne_true⟩
    rw [drop_runLength, drop_runLength]
    exact (later.takeWhile isIdentChar_of_isSpacing).2
  refine .ite (fun isString => ?_) fun _ => ?_
  · exact ⟨rfl, later.behindString shows, fun isSpelled => absurd isSpelled Bool.false_ne_true⟩
  refine .ite (fun isTemplate => ?_) fun _ => ?_
  · exact ⟨rfl, later.behindTemplate 0, fun isSpelled => absurd isSpelled Bool.false_ne_true⟩
  refine .ite (fun isNumber => ?_) fun _ => ?_
  · have extent := later.numberExtent c
    have ends := later.drop_plain (plain_numberExtent c r) (extent ▸ plain_numberExtent c s)
    rw [← extent]
    exact ⟨rfl, ends.2, fun _ => ends.1⟩
  refine .ite (fun isName => ?_) fun _ => ?_
  · obtain ⟨same, behind⟩ := later.takeWhile isIdentChar_of_isSpacing
    simp only [take_runLength]
    rw [same]
    refine ⟨rfl, ?_, fun _ => ?_⟩
    · rwa [drop_runLength, drop_runLength]
    · rwa [take_runLength, take_runLength]
  exact .ite (fun isSlash => later.slash operandBefore closing) fun _ => later.symbol c

end Scanners

end UiFormat.Ets

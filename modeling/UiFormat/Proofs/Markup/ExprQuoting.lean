/-
# UiFormat.Proofs.Markup.ExprQuoting -- expressions inside quotes

A quoted attribute value that is one interpolation is printed between the same
quotes as before, so its expression must not close them.  It does not: in the
source the value stood between these quotes, and no token of an expression ends
with a backslash, so a string inside the expression is read alike with and without
the quotes around the value (`Steps.quotable`).  What the printer adds to the
tokens has neither quotes nor backslashes (`quotable_print`).
-/
import UiFormat.Proofs.Markup.ExprParentheses
import UiFormat.Proofs.Text.Cut
import UiFormat.Proofs.Text.Trim

namespace UiFormat.Markup

open UiFormat.Text
open UiFormat.Parse

set_option autoImplicit false

/-- The two quotes. -/
def IsQuote (c : Char) : Prop :=
  c = '\x22' ∨ c = '\x27'

/-! ## Tokens -/

theorem ne_of_isIdentChar {quote c : Char} (isQuote : IsQuote quote) (isChar : isIdentChar c = true) :
    c ≠ quote ∧ c ≠ '\\' := by
  rcases isQuote with rfl | rfl
  · constructor <;> rintro rfl <;> revert isChar <;> decide
  · constructor <;> rintro rfl <;> revert isChar <;> decide

theorem ne_of_isNumeralChar {quote c : Char} (isQuote : IsQuote quote)
    (isChar : isNumeralChar c = true) : c ≠ quote ∧ c ≠ '\\' := by
  rcases isQuote with rfl | rfl
  · constructor <;> rintro rfl <;> revert isChar <;> decide
  · constructor <;> rintro rfl <;> revert isChar <;> decide

theorem ne_of_numeral {quote : Char} {text : Text} (isQuote : IsQuote quote)
    (numeral : Numeral text) : ∀ c ∈ text, c ≠ quote ∧ c ≠ '\\' := by
  have other : ∀ c : Char, c ∈ "0.eE+-xXbBoO".toList → c ≠ quote ∧ c ≠ '\\' := by
    rcases isQuote with rfl | rfl <;> exact forall_mem_of_all (by decide)
  have digit : ∀ c : Char, isDigit c = true → c ≠ quote ∧ c ≠ '\\' := fun c digit =>
    ne_of_isNumeralChar isQuote (isNumeralChar_of_digit digit)
  cases numeral with
  | @radix mark allowed digits isMark all =>
      simp only [List.forall_mem_cons]
      refine ⟨other _ (by decide), ?_, fun c member => ?_⟩
      · unfold radixDigits? at isMark
        refine other _ ?_
        split at isMark
        · rename_i isX
          have isX : mark = 'x' ∨ mark = 'X' := by simpa using isX
          rcases isX with rfl | rfl <;> decide
        · split at isMark
          · rename_i isB
            have isB : mark = 'b' ∨ mark = 'B' := by simpa using isB
            rcases isB with rfl | rfl <;> decide
          · split at isMark
            · rename_i isO
              have isO : mark = 'o' ∨ mark = 'O' := by simpa using isO
              rcases isO with rfl | rfl <;> decide
            · cases isMark
      · exact ne_of_isNumeralChar isQuote (isNumeralChar_of_allowed isMark (all c member))
  | @decimal whole fraction exponent all isFraction isExponent noMark =>
      simp only [List.forall_mem_append]
      refine ⟨⟨fun c member => digit c (all c member), ?_⟩, ?_⟩
      · rcases isFraction with rfl | ⟨digits, rfl, all⟩
        · simp
        · simp only [List.forall_mem_cons]
          exact ⟨other _ (by decide), fun c member => digit c (all c member)⟩
      · rcases isExponent with rfl | ⟨mark, sign, digits, rfl, isMark, isSign, all⟩
        · simp
        · simp only [List.forall_mem_cons, List.forall_mem_append]
          refine ⟨?_, ?_, fun c member => digit c (all c member)⟩
          · rcases isMark with rfl | rfl <;> exact other _ (by decide)
          · rcases isSign with rfl | rfl | rfl
            · simp
            · simpa using other '+' (by decide)
            · simpa using other '-' (by decide)

/-- No token of an expression ends with a backslash. -/
theorem getLast?_of_spelled {t : Tok} (spelled : Spelled t) (belongs : Belongs t) :
    t.text.getLast? ≠ some '\\' := by
  have plain : (∀ c ∈ t.text, c ≠ '\\') → t.text.getLast? ≠ some '\\' :=
    fun all last => all _ (List.mem_of_getLast? last) rfl
  have word : IsWord t.text → t.text.getLast? ≠ some '\\' := by
    rintro ⟨c, r, split, isStart, all⟩
    refine plain fun d member => ?_
    rw [split] at member
    rcases List.mem_cons.1 member with rfl | member
    · rintro rfl
      revert isStart
      decide
    · exact (ne_of_isIdentChar (.inl rfl) (all d member)).2
  unfold Spelled at spelled
  split at spelled
  · exact word spelled.1
  · exact word spelled.1
  · exact word spelled.1
  · exact word spelled.1
  · obtain ⟨c, r, -, -, -, numeral⟩ := spelled
    exact plain fun d member => (ne_of_numeral (.inl rfl) numeral d member).2
  · obtain ⟨quote, r, split, isQuote, closed⟩ := spelled
    have last := getLast?_of_closed closed
    rw [split]
    cases r with
    | nil => cases last
    | cons d r =>
        rw [List.getLast?_cons_cons, last]
        rcases isQuote with rfl | rfl <;> decide
  · obtain ⟨op, member, text⟩ := spelled
    have table : ∀ op ∈ operators, op.toList.getLast? ≠ some '\\' := by decide
    rw [text]
    exact table op member
  · obtain ⟨c, member, text⟩ := belongs.2 ‹_›
    rw [text]
    have table : ∀ c ∈ marks, [c].getLast? ≠ some '\\' := forall_mem_of_all (by decide)
    exact table c member
  · exact spelled.elim

/-! ## Gaps -/

theorem getLast?_append_ne {a b : Text} {c : Char} (first : a.getLast? ≠ some c)
    (second : b.getLast? ≠ some c) : (a ++ b).getLast? ≠ some c := by
  rw [List.getLast?_append]
  cases last : b.getLast? with
  | none => simpa using first
  | some d =>
      rw [last] at second
      simpa using second

/-- The blanks and comments in front of a token do not end with a backslash. -/
theorem getLast?_expressionGap {text : Text} (more : text.drop (expressionGap text) ≠ []) :
    (text.take (expressionGap text)).getLast? ≠ some '\\' := by
  fun_induction expressionGap text with
  | case1 => simp
  | case2 c rest isBlank ih =>
      rw [List.take_succ_cons, ← List.singleton_append]
      refine getLast?_append_ne ?_ (ih more)
      rintro last
      cases last
      revert isBlank
      decide
  | case3 c rest notBlank isLine extra ih =>
      have sum : expressionGap (rest.drop extra) + extra + 1 =
          (extra + expressionGap (rest.drop extra)) + 1 := by omega
      rw [sum] at more ⊢
      rw [List.drop_succ_cons, ← List.drop_drop] at more
      rw [List.take_succ_cons, List.take_add]
      -- A line feed ends the comment, and it is part of the gap.
      have feed : ∃ tail, rest.drop extra = '\n' :: tail := by
        cases split : rest.drop extra with
        | nil =>
            rw [split] at more
            exact absurd (by simp) more
        | cons d tail =>
            have stops := List.head?_dropWhile_not (· != '\n') rest
            rw [← drop_runLength, split] at stops
            have isFeed : d = '\n' := by simpa using stops
            exact ⟨tail, by rw [isFeed]⟩
      obtain ⟨tail, split⟩ := feed
      have isBlank : isPlainBlank '\n' = true := by decide
      have last := ih more
      rw [split, expressionGap, if_pos isBlank, List.take_succ_cons] at last ⊢
      rw [← List.cons_append, List.getLast?_append]
      simpa using last
  | case4 c rest notBlank notLine isBlock extra ih =>
      have sum : expressionGap (rest.drop extra) + extra + 1 =
          (extra + expressionGap (rest.drop extra)) + 1 := by omega
      rw [sum] at more ⊢
      rw [List.drop_succ_cons, ← List.drop_drop] at more
      rw [List.take_succ_cons, List.take_add, ← List.cons_append]
      refine getLast?_append_ne ?_ (ih more)
      obtain ⟨rfl, tail, rfl⟩ : c = '/' ∧ ∃ tail, rest = '*' :: tail := by
        cases rest with
        | nil => simp [startsWith] at isBlock
        | cons d tail =>
            simp only [startsWith, Bool.and_eq_true, decide_eq_true_eq] at isBlock
            have same : '*' = d := by simpa using isBlock.2
            exact ⟨isBlock.1, tail, by rw [same]⟩
      cases found : cut? "*/".toList tail with
      | none =>
          have all : extra = tail.length + 1 := by
            rw [show extra = lengthThrough "*/".toList tail + 1 from rfl, lengthThrough, found]
          rw [all] at more
          exact absurd (by simp) more
      | some parts =>
          obtain ⟨before, after⟩ := parts
          have length : extra = before.length + 2 + 1 := by
            rw [show extra = lengthThrough "*/".toList tail + 1 from rfl, lengthThrough, found]
            rfl
          have taken : ('*' :: tail).take extra = '*' :: (before ++ ['*', '/']) := by
            rw [length, List.take_succ_cons, cut?_eq_some found, ← List.append_assoc]
            have two : before.length + 2 = (before ++ "*/".toList).length := by simp
            rw [two, List.take_left]
            rfl
          have last : ('/' :: '*' :: (before ++ ['*', '/'])).getLast? = some '/' := by
            rw [show '/' :: '*' :: (before ++ ['*', '/']) = ('/' :: '*' :: before ++ ['*']) ++ ['/']
              by simp, List.getLast?_concat]
          rw [taken, last]
          decide
  | case5 c rest => simp

/-- Tokens of an expression that stands inside a string. -/
theorem Steps.quotable {quote : Char} {k k' : Cursor} {toks : List Tok} (steps : Steps k toks k')
    (mode : k.modes.current = .interpolation) (opened : staysOpen quote k.rest = true)
    (spelled : ∀ t ∈ toks, Spelled t) (belong : ∀ t ∈ toks, Belongs t) :
    ∀ t ∈ toks, Quotable quote t.text := by
  induction steps with
  | nil k => simp
  | @cons k between k' t toks here later ih =>
      have isSpelled := spelled t List.mem_cons_self
      have belongs := belong t List.mem_cons_self
      have modes : between.modes = k.modes := by
        rw [modes_of_next? here, belongs.1]
        rfl
      obtain ⟨gap, c, rest, split, length, same, left, -, -⟩ := next?_eq_some here
      have isGap : expressionGap (gap ++ c :: rest) = gap.length := by
        rw [mode, split] at length
        exact length.symm
      have gapLast : gap.getLast? ≠ some '\\' := by
        have more : (gap ++ c :: rest).drop (expressionGap (gap ++ c :: rest)) ≠ [] := by
          rw [isGap, List.drop_left]
          exact List.cons_ne_nil _ _
        have last := getLast?_expressionGap more
        rwa [isGap, List.take_left] at last
      have text : t.text = c :: rest.take (k.modes.current.lexeme c rest).extra := by
        have notComment : (k.modes.current.lexeme c rest).kind ≠ .comment := by
          intro isComment
          rw [same] at isSpelled
          simp [Spelled, Token.at, isComment] at isSpelled
        rw [same]
        simp only [Token.at]
        cases kind : (k.modes.current.lexeme c rest).kind <;> first | rfl | exact absurd kind notComment
      have whole : k.rest = gap ++ (t.text ++ between.rest) := by
        rw [split, text, left, List.cons_append, List.take_append_drop]
      rw [whole] at opened
      obtain ⟨-, inner⟩ := staysOpen_split opened gapLast
      obtain ⟨quotable, outer⟩ := staysOpen_split inner (getLast?_of_spelled isSpelled belongs)
      intro u member
      rcases List.mem_cons.1 member with rfl | member
      · exact quotable
      · exact ih (by rw [modes, mode]) outer (fun u inside => spelled u (List.mem_cons_of_mem _ inside))
          (fun u inside => belong u (List.mem_cons_of_mem _ inside)) u member

/-! ## Printed expressions -/

section

variable {quote : Char}

theorem quotable_fixed (isQuote : IsQuote quote) {text : Text}
    (plain : (text.all fun c => decide (c ∈ " ()[]\x7b\x7d,:?.".toList)) = true) :
    Quotable quote text := by
  have table : ∀ c ∈ " ()[]\x7b\x7d,:?.".toList, c ≠ quote ∧ c ≠ '\\' := by
    rcases isQuote with rfl | rfl <;> exact forall_mem_of_all (by decide)
  exact quotable_of_forall fun c member => table c (forall_mem_of_all plain c member)

theorem quotable_bracketed (isQuote : IsQuote quote) {bra ket : Char} {text : Text}
    (opens : bra ∈ " ()[]\x7b\x7d,:?.".toList) (closes : ket ∈ " ()[]\x7b\x7d,:?.".toList)
    (body : Quotable quote text) : Quotable quote ([bra] ++ text ++ [ket]) :=
  ((quotable_fixed isQuote (by simpa using opens)).append body).append
    (quotable_fixed isQuote (by simpa using closes))

theorem quotable_parenthesize (isQuote : IsQuote quote) {required level : Nat} {text : Text}
    (body : Quotable quote text) : Quotable quote (parenthesize required level text) := by
  unfold parenthesize
  split
  · exact quotable_bracketed isQuote (by decide) (by decide) body
  · exact body

theorem quotable_join (isQuote : IsQuote quote) {parts : List Text}
    (all : ∀ part ∈ parts, Quotable quote part) : Quotable quote (join ", ".toList parts) := by
  induction parts with
  | nil => exact fun w => (Nat.zero_add _).symm
  | cons part parts ih =>
      cases parts with
      | nil => exact all part List.mem_cons_self
      | cons next parts =>
          have later := ih fun other member => all other (List.mem_cons_of_mem _ member)
          exact ((all part List.mem_cons_self).append (quotable_fixed isQuote (by decide))).append later

theorem quotable_around (isQuote : IsQuote quote) {a op b : Text} (left : Quotable quote a)
    (middle : Quotable quote op) (right : Quotable quote b) :
    Quotable quote (a ++ [' '] ++ op ++ [' '] ++ b) := by
  have space : Quotable quote [' '] := quotable_fixed isQuote (by decide)
  exact (((left.append space).append middle).append space).append right

variable {spells : List Tok → Expr → Prop}

theorem KeySpells.quotable_print (isQuote : IsQuote quote)
    (nested : ∀ toks e, spells toks e → (∀ t ∈ toks, Quotable quote t.text) → Quotable quote e.print)
    {toks : List Tok} {key : Key} (spelled : KeySpells spells toks key)
    (texts : ∀ t ∈ toks, Quotable quote t.text) : Quotable quote key.print := by
  cases spelled with
  | name isName => exact texts _ (List.mem_singleton.2 rfl)
  | literal isLiteral => exact texts _ (List.mem_singleton.2 rfl)
  | computed opens body closes =>
      exact quotable_bracketed isQuote (by decide) (by decide)
        (nested _ _ body fun t member => texts t (by simp [member]))

theorem EntrySpells.quotable_print (isQuote : IsQuote quote)
    (nested : ∀ toks e, spells toks e → (∀ t ∈ toks, Quotable quote t.text) → Quotable quote e.print)
    {toks : List Tok} {entry : Entry} (spelled : EntrySpells spells toks entry)
    (texts : ∀ t ∈ toks, Quotable quote t.text) : Quotable quote entry.print := by
  cases spelled with
  | shorthand here => exact here.quotable_print isQuote nested texts
  | pair here isColon rest =>
      have key := here.quotable_print isQuote nested fun t member => texts t (by simp [member])
      have value := nested _ _ rest fun t member => texts t (by simp [member])
      exact (key.append (quotable_fixed isQuote (by decide))).append value

/-- A printed expression can stand inside quotes when its tokens can. -/
theorem Derives.quotable_print (isQuote : IsQuote quote)
    (nested : ∀ toks e, spells toks e → (∀ t ∈ toks, Quotable quote t.text) → Quotable quote e.print)
    {level : Nat} {toks : List Tok} {e : Expr} (derived : Derives spells level toks e)
    (texts : ∀ t ∈ toks, Quotable quote t.text) : Quotable quote e.print := by
  have list : ∀ {toks : List Tok} {es : List Expr}, Items spells toks es →
      (∀ t ∈ toks, Quotable quote t.text) → Quotable quote (join ", ".toList (printAll es)) := by
    intro toks es items texts
    rw [printAll_eq]
    refine quotable_join isQuote fun part member => ?_
    obtain ⟨e, inside, rfl⟩ := List.mem_map.1 member
    obtain ⟨sub, subset, here⟩ := items.exists_of_mem inside
    exact nested _ _ here fun t member => texts t (subset t member)
  induction derived with
  | name isName => exact texts _ (List.mem_singleton.2 rfl)
  | literal isLiteral => exact texts _ (List.mem_singleton.2 rfl)
  | grouping opens body closes =>
      exact quotable_bracketed isQuote (by decide) (by decide)
        (nested _ _ body fun t member => texts t (by simp [member]))
  | array opens items closes =>
      exact quotable_bracketed isQuote (by decide) (by decide)
        (list items fun t member => texts t (by simp [member]))
  | @object opening closing toks es opens entries closes =>
      have parts : Quotable quote (join ", ".toList (printEntries es)) := by
        rw [printEntries_eq]
        refine quotable_join isQuote fun part member => ?_
        obtain ⟨entry, inside, rfl⟩ := List.mem_map.1 member
        obtain ⟨sub, subset, here⟩ := entries.exists_of_mem inside
        exact here.quotable_print isQuote nested fun t member => texts t (by simp [subset t member])
      rw [Expr.print]
      split
      · exact quotable_fixed isQuote (by decide)
      · rename_i first rest split
        rw [split] at parts
        exact ((quotable_fixed isQuote (by decide)).append parts).append
          (quotable_fixed isQuote (by decide))
  | @member toks point name e here isPoint isName ih =>
      have value := ih fun t member => texts t (by simp [member])
      have nameText : Quotable quote name.text := texts name (by simp)
      exact ((quotable_parenthesize isQuote value).append
        (quotable_fixed isQuote (by decide))).append nameText
  | @index toks inner opening closing e i here opens body closes ih =>
      have value := ih fun t member => texts t (by simp [member])
      have index := nested _ _ body fun t member => texts t (by simp [member])
      exact (((quotable_parenthesize isQuote value).append
        (quotable_fixed isQuote (by decide))).append index).append
          (quotable_fixed isQuote (by decide))
  | @call toks inner opening closing e es here opens items closes ih =>
      have value := ih fun t member => texts t (by simp [member])
      have arguments := list items fun t member => texts t (by simp [member])
      exact (((quotable_parenthesize isQuote value).append
        (quotable_fixed isQuote (by decide))).append arguments).append
          (quotable_fixed isQuote (by decide))
  | @unary sign toks e isSign here ih =>
      have operand : Quotable quote (parenthesize unaryLevel e.level e.print) :=
        quotable_parenthesize isQuote (ih fun t member => texts t (by simp [member]))
      have op : Quotable quote sign.text := texts sign (by simp)
      rw [Expr.print, signed]
      split
      · exact (op.append (quotable_fixed isQuote (by decide))).append operand
      · exact op.append operand
  | @binary level left right op x y first isOp second ihFirst ihSecond =>
      have a := ihFirst fun t member => texts t (by simp [member])
      have b := ihSecond fun t member => texts t (by simp [member])
      have middle : Quotable quote op.text := texts op (by simp)
      rw [print_buildAt]
      exact quotable_around isQuote (quotable_parenthesize isQuote a) middle
        (quotable_parenthesize isQuote b)
  | @conditional a b c question colon x y z test asks yes splits no ih =>
      have first := ih fun t member => texts t (by simp [member])
      have second := nested _ _ yes fun t member => texts t (by simp [member])
      have third := nested _ _ no fun t member => texts t (by simp [member])
      exact ((((quotable_parenthesize isQuote first).append
        (quotable_fixed isQuote (by decide))).append (quotable_parenthesize isQuote second)).append
          (quotable_fixed isQuote (by decide))).append (quotable_parenthesize isQuote third)
  | @assignment a b op x y target assigns value ih =>
      have left := ih fun t member => texts t (by simp [member])
      have right := nested _ _ value fun t member => texts t (by simp [member])
      have middle : Quotable quote op.text := texts op (by simp)
      exact quotable_around isQuote (quotable_parenthesize isQuote left) middle
        (quotable_parenthesize isQuote right)
  | tighter here ih => exact ih texts

theorem Spells.quotable_print (isQuote : IsQuote quote) {n : Nat} {toks : List Tok} {e : Expr}
    (spelled : Spells n toks e) (texts : ∀ t ∈ toks, Quotable quote t.text) :
    Quotable quote e.print := by
  induction n generalizing toks e with
  | zero => exact spelled.elim
  | succ n ih => exact Derives.quotable_print isQuote (fun _ _ inner => ih inner) spelled texts

end

/-! ## Attribute values -/

/-- A value that is one interpolation, with the blanks around it. -/
theorem exists_of_loneInterpolation? {value inner : Text}
    (lone : loneInterpolation? value = some inner) :
    ∃ left right, value = left ++ (['{', '{'] ++ inner ++ ['}', '}'] ++ right) ∧
      (∀ c ∈ left, isBlank c = true) ∧ ∀ c ∈ right, isBlank c = true := by
  obtain ⟨left, right, split, leftBlank, rightBlank⟩ := exists_trim_append value
  refine ⟨left, right, ?_, leftBlank, rightBlank⟩
  unfold loneInterpolation? at lone
  generalize trim value = trimmed at lone split
  simp only [startsWith, endsWith, Option.ite_none_right_eq_some, Bool.and_eq_true,
    decide_eq_true_eq, Option.some.injEq] at lone
  obtain ⟨⟨⟨starts, ends⟩, long⟩, rfl⟩ := lone
  obtain ⟨rest, rfl⟩ := List.isPrefixOf_iff_prefix.1 starts
  obtain ⟨front, closes⟩ := List.isSuffixOf_iff_suffix.1 ends
  -- The marks do not overlap, since the value has room for both.
  have inside : ∃ middle, rest = middle ++ ['}', '}'] := by
    refine ⟨front.drop 2, ?_⟩
    have dropped := congrArg (List.drop 2) closes
    have room : 2 ≤ front.length := by
      have lengths := congrArg List.length closes
      simp only [List.length_append, List.length_cons, List.length_nil] at lengths long
      omega
    rw [List.drop_append_of_le_length room] at dropped
    exact dropped.symm
  obtain ⟨middle, rfl⟩ := inside
  have same : withoutEnds (withoutEnds (['{', '{'] ++ (middle ++ ['}', '}']))) = middle := by
    have outer : ['{', '{'] ++ (middle ++ ['}', '}']) =
        '{' :: (('{' :: (middle ++ ['}'])) ++ ['}']) := by simp
    rw [outer, withoutEnds_cons_concat, withoutEnds_cons_concat]
  rw [split, same]
  simp

theorem not_isBlank_backslash {text : Text} (blank : ∀ c ∈ text, isBlank c = true) :
    text.getLast? ≠ some '\\' := by
  intro last
  have isBlank := blank _ (List.mem_of_getLast? last)
  revert isBlank
  decide

/-- A quoted interpolation is printed so that it does not close its quotes. -/
theorem quotable_interpolated {quote : Char} (isQuote : IsQuote quote) {value inner : Text} {e : Expr}
    (opened : staysOpen quote value = true) (lone : loneInterpolation? value = some inner)
    (parsed : fragment? inner = some e) : Quotable quote (interpolated e) := by
  obtain ⟨left, right, split, leftBlank, -⟩ := exists_of_loneInterpolation? lone
  have read : parseFragment inner = (some e, []) := by
    unfold fragment? at parsed
    split at parsed
    · cases parsed
      assumption
    · cases parsed
  obtain ⟨toks, k, steps, spelled, leaves, -⟩ := exists_steps_of_parseFragment read
  have plain : ∀ c ∈ [' ', '}'], c ≠ quote ∧ c ≠ '\\' := by
    rcases isQuote with rfl | rfl <;> exact forall_mem_of_all (by decide)
  have inside : staysOpen quote inner = true := by
    rw [split] at opened
    have opened := (staysOpen_split opened (not_isBlank_backslash leftBlank)).2
    rw [List.append_assoc, List.append_assoc] at opened
    exact staysOpen_left (staysOpen_split opened (by decide)).2
  have padded : staysOpen quote ([' '] ++ inner ++ [' ', '}', '}']) = true := by
    rw [List.append_assoc, List.singleton_append, staysOpen_cons (plain ' ' (by decide)).2,
      staysOpen_append inside fun c member => plain c (by simpa using member), Bool.and_true]
    simpa using (plain ' ' (by decide)).1
  have texts := steps.quotable rfl padded leaves spelled.belongs
  have opening : Quotable quote ['{', '{', ' '] := quotable_fixed isQuote (by decide)
  have closing : Quotable quote [' ', '}', '}'] := quotable_fixed isQuote (by decide)
  exact (opening.append (spelled.quotable_print isQuote texts)).append closing

end UiFormat.Markup

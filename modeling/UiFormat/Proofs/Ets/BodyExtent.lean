/-
# UiFormat.Proofs.Ets.BodyExtent -- where a body between braces ends

A body reaches from its opening brace to the brace that closes it.  Counted over the
braces from the opening one on, those opened less those closed, that is the first place
where the count is zero again (`Closes`); without such a place nothing closes the body
(`Unclosed`), and it reaches to the end of the source.

The reader counts the same way and goes to the same place (`balancedCount_of_unclosed`).
Whether the body was closed it does not take from the count, though, but from the last
character it has read.  Of a closed body that is the closing brace.  Of one that is never
closed it is the last character of the source, and a brace there, of an inner block, in a
comment or in a literal that is open itself, hides that the body has no end
(`readBody_silent`).

Main statement: `readBody_extent`.
-/
import UiFormat.Proofs.Ets.BracketExtent
import UiFormat.Proofs.Parse.Progress
import Mathlib.Data.Nat.Find

namespace UiFormat.Ets

open UiFormat.Text
open UiFormat.Parse

set_option autoImplicit false

/-! ## Braces -/

/-- The braces that the tokens open, less those that they close. -/
def braceDepth (tokens : List Tok) : Int :=
  tokens.countP (isSymbol "\x7b") - tokens.countP (isSymbol "\x7d")

/-- Behind none of the tokens are the braces closed that were opened up to there. -/
def Unclosed (tokens : List Tok) : Prop :=
  ∀ k < tokens.length, braceDepth (tokens.take (k + 1)) ≠ 0

instance (tokens : List Tok) : Decidable (Unclosed tokens) :=
  inferInstanceAs (Decidable (∀ k < tokens.length, braceDepth (tokens.take (k + 1)) ≠ 0))

/-- Behind `inner` the token `close` is the first that closes all braces from `opening`
on. -/
structure Closes (opening : Tok) (inner : List Tok) (close : Tok) : Prop where
  unclosed : Unclosed (opening :: inner)
  closed : braceDepth (opening :: (inner ++ [close])) = 0

theorem braceDepth_cons (t : Tok) (tokens : List Tok) :
    braceDepth (t :: tokens) = braceDepth [t] + braceDepth tokens := by
  simp only [braceDepth, List.countP_cons, List.countP_nil]
  omega

theorem braceDepth_append (front back : List Tok) :
    braceDepth (front ++ back) = braceDepth front + braceDepth back := by
  simp only [braceDepth, List.countP_append]
  omega

theorem isSymbol_closing_of_opening {t : Tok} (opens : isSymbol "\x7b" t = true) :
    isSymbol "\x7d" t = false := by
  simp only [isSymbol, Bool.and_eq_true, beq_iff_eq] at opens
  simp [isSymbol, opens.2]

theorem braceDepth_opening {t : Tok} (opens : isSymbol "\x7b" t = true) : braceDepth [t] = 1 := by
  simp [braceDepth, opens, isSymbol_closing_of_opening opens]

/-- A token closes a brace, or opens one, or leaves the count alone. -/
theorem braceDepth_singleton (t : Tok) :
    (isSymbol "\x7d" t = true ∧ braceDepth [t] = -1) ∨ 0 ≤ braceDepth [t] := by
  cases closes : isSymbol "\x7d" t with
  | false =>
      have none : [t].countP (isSymbol "\x7d") = 0 := by simp [closes]
      rw [braceDepth, none]
      exact .inr (by omega)
  | true =>
      have other : isSymbol "\x7b" t = false := by
        by_contra opens
        rw [isSymbol_closing_of_opening (by simpa using opens)] at closes
        cases closes
      exact .inl ⟨rfl, by simp [braceDepth, closes, other]⟩

/-- While a brace is open the levels of the reader are the count. -/
theorem depthAfter_braces {depth : Nat} (opened : 0 < depth) (t : Tok) :
    (depthAfter ['{'] ['}'] depth t : Int) = depth + braceDepth [t] := by
  cases symbol : isSymbolToken t with
  | false =>
      have none : isSymbol "\x7b" t = false ∧ isSymbol "\x7d" t = false := by
        simp [isSymbol, symbol]
      simp [depthAfter_of_noSymbol symbol, braceDepth, none]
  | true =>
      rw [depthAfter_of_symbol (by decide) symbol]
      split
      · rename_i opens
        have isOpening : isSymbol "\x7b" t = true := by simp [isSymbol, symbol, opens]
        simp [braceDepth_opening isOpening]
      · rename_i noOpening
        split
        · rename_i closes
          simp [braceDepth, isSymbol, symbol, closes]
          omega
        · rename_i noClosing
          simp [braceDepth, isSymbol, noOpening, noClosing]

/-! ## The end of a body -/

theorem Unclosed.tail {t : Tok} {front : List Tok} {depth : Nat}
    (unclosed : ∀ k < (t :: front).length, depth + braceDepth ((t :: front).take (k + 1)) ≠ 0)
    {next : Nat} (after : (next : Int) = depth + braceDepth [t]) :
    0 < next ∧ ∀ k < front.length, next + braceDepth (front.take (k + 1)) ≠ 0 := by
  constructor
  · have first := unclosed 0 (Nat.succ_pos _)
    simp only [List.take_succ_cons, List.take_zero] at first
    omega
  · intro k short
    have later := unclosed (k + 1) (Nat.succ_lt_succ short)
    rw [List.take_succ_cons, braceDepth_cons] at later
    omega

/-- As long as the braces are not all closed the reader goes on. -/
theorem balancedCount_of_unclosed {depth : Nat} (opened : 0 < depth) {front : List Tok}
    (unclosed : ∀ k < front.length, depth + braceDepth (front.take (k + 1)) ≠ 0)
    (later : List Tok) :
    ∃ next : Nat, 0 < next ∧ (next : Int) = depth + braceDepth front ∧
      balancedCount ['{'] ['}'] depth (front ++ later) =
        front.length + balancedCount ['{'] ['}'] next later := by
  induction front generalizing depth with
  | nil => exact ⟨depth, opened, by simp [braceDepth], by simp⟩
  | cons t front ih =>
      have after := depthAfter_braces opened t
      obtain ⟨still, rest⟩ := Unclosed.tail unclosed after
      obtain ⟨next, positive, count, reach⟩ := ih still rest
      refine ⟨next, positive, ?_, ?_⟩
      · rw [count, after, braceDepth_cons t front]
        omega
      · rw [List.cons_append, balancedCount]
        simp only [Nat.ne_of_gt still, if_false, reach, List.length_cons]
        omega

section Body

variable {t : Tok} (opens : isSymbol "\x7b" t = true)

include opens

theorem text_of_opening : t.text = ['{'] := by
  simp only [isSymbol, Bool.and_eq_true, beq_iff_eq] at opens
  exact opens.2

/-- Behind the opening brace one level is open, and the reader counts on from there. -/
theorem balancedCount_opening {front : List Tok} (unclosed : Unclosed (t :: front))
    (later : List Tok) :
    ∃ next : Nat, 0 < next ∧ (next : Int) = 1 + braceDepth front ∧
      balancedCount ['{'] ['}'] 0 (t :: (front ++ later)) =
        front.length + 1 + balancedCount ['{'] ['}'] next later := by
  have first : depthAfter ['{'] ['}'] 0 t = 1 := by
    have symbol : isSymbolToken t = true := by
      rw [isSymbol, Bool.and_eq_true] at opens
      exact opens.1
    rw [depthAfter_of_symbol (by decide) symbol, if_pos (text_of_opening opens)]
  have inside : ∀ k < front.length, ((1 : Nat) : Int) + braceDepth (front.take (k + 1)) ≠ 0 := by
    intro k short
    have later := unclosed (k + 1) (Nat.succ_lt_succ short)
    rw [List.take_succ_cons, braceDepth_cons, braceDepth_opening opens] at later
    exact later
  obtain ⟨next, positive, count, reach⟩ := balancedCount_of_unclosed Nat.one_pos inside later
  refine ⟨next, positive, count, ?_⟩
  rw [balancedCount, first, if_neg Nat.one_ne_zero, reach]
  omega

/-- A body that nothing closes reaches to the end. -/
theorem balancedCount_unclosed {after : List Tok} (unclosed : Unclosed (t :: after)) :
    balancedCount ['{'] ['}'] 0 (t :: after) = (t :: after).length := by
  obtain ⟨next, -, -, reach⟩ := balancedCount_opening opens unclosed []
  rwa [List.append_nil] at reach

theorem Closes.isSymbol_close {inner : List Tok} {close : Tok} (closes : Closes t inner close) :
    isSymbol "\x7d" close = true := by
  obtain ⟨next, positive, count, -⟩ := balancedCount_opening opens closes.unclosed []
  have closed := closes.closed
  rw [braceDepth_cons, braceDepth_append, braceDepth_opening opens] at closed
  rcases braceDepth_singleton close with ⟨isClosing, -⟩ | other
  · exact isClosing
  · omega

/-- A body that is closed reaches to the brace that closes it. -/
theorem balancedCount_closed {inner later : List Tok} {close : Tok}
    (closes : Closes t inner close) :
    balancedCount ['{'] ['}'] 0 (t :: (inner ++ close :: later)) =
      (t :: (inner ++ [close])).length := by
  obtain ⟨next, positive, count, reach⟩ :=
    balancedCount_opening opens closes.unclosed (close :: later)
  have closed := closes.closed
  rw [braceDepth_cons, braceDepth_append, braceDepth_opening opens] at closed
  have after := depthAfter_braces positive close
  have zero : depthAfter ['{'] ['}'] next close = 0 := by omega
  rw [reach, balancedCount, zero, if_pos rfl]
  simp

/-- Either nothing closes the body, or some token is the first that does. -/
theorem unclosed_or_closes (after : List Tok) :
    Unclosed (t :: after) ∨
      ∃ inner close later, after = inner ++ close :: later ∧ Closes t inner close := by
  by_cases unclosed : Unclosed (t :: after)
  · exact .inl unclosed
  · have found : ∃ k, k < (t :: after).length ∧ braceDepth ((t :: after).take (k + 1)) = 0 := by
      simpa [Unclosed] using unclosed
    classical
    obtain ⟨short, zero⟩ := Nat.find_spec found
    have first := fun j (less : j < Nat.find found) => Nat.find_min found less
    generalize Nat.find found = k at short zero first
    cases k with
    | zero =>
        rw [List.take_succ_cons, List.take_zero, braceDepth_opening opens] at zero
        cases zero
    | succ k =>
        have within : k < after.length := Nat.lt_of_succ_lt_succ short
        refine .inr ⟨after.take k, after[k], after.drop (k + 1), ?_, ?_, ?_⟩
        · rw [List.getElem_cons_drop within, List.take_append_drop]
        · intro j less
          rw [List.length_cons, List.length_take, Nat.min_eq_left (Nat.le_of_lt within)] at less
          have notYet := first j less
          have same : (t :: after.take k).take (j + 1) = (t :: after).take (j + 1) := by
            rw [List.take_succ_cons, List.take_succ_cons, List.take_take,
              Nat.min_eq_left (Nat.le_of_lt_succ less)]
          rw [same]
          exact fun isZero => notYet ⟨Nat.lt_trans less short, isZero⟩
        · rwa [List.take_succ_cons, List.take_succ_eq_append_getElem within] at zero

end Body

/-! ## The reader -/

/-- What is read of a body is judged by its last character. -/
theorem readBody_run (what : Text) (t : Tok) (after : List Tok) (closing : Tok)
    (errors : List (ParseError Kind Problem)) :
    let count := balancedCount ['{'] ['}'] 0 (t :: after)
    let text := textOf ((t :: after).take count)
    (readBody what : EtsParser Text).run { rest := t :: after, closing, errors } =
      if endsWith text ['}'] && 2 ≤ text.length then
        (withoutEnds text, { rest := (t :: after).drop count, closing, errors })
      else
        (text.drop 1, { rest := (t :: after).drop count, closing,
                        errors := errors ++ [{ cause := .unterminatedBody what, token := t }] }) := by
  intro count text
  let s : State Kind Problem := { rest := t :: after, closing, errors }
  have first : (current : EtsParser Tok) s = (t, s) := rfl
  have balanced : (readBalanced ['{'] ['}'] : EtsParser Text) s =
      (text, { s with rest := (t :: after).drop count }) := rfl
  show (readBody what : EtsParser Text) s = _
  rw [readBody, run_bind, first, run_bind, balanced]
  split <;> rfl

section Source

variable {source : Text} {t : Tok} {after : List Tok}

/-- What is between two tokens of a source is what its text has between their offsets. -/
theorem textOf_between {inner later : List Tok} {close : Tok}
    (stands : t :: (inner ++ close :: later) <:+ lexemes source) :
    textOf inner = (source.take close.start).drop t.stop := by
  obtain ⟨front, whole⟩ := stands
  have tiles := tiles_lexemes source
  rw [← whole] at tiles
  have start : t.start = (textOf front).length := by simpa using tiles.start_eq
  have stop : t.stop = (textOf (front ++ [t])).length := by
    rw [tiles.stop_eq, start]
    simp
  have again : front ++ t :: (inner ++ close :: later) =
      (front ++ t :: inner) ++ close :: later := by simp
  have ends : close.start = (textOf (front ++ t :: inner)).length := by
    rw [again] at tiles
    simpa using tiles.start_eq
  have split : source = textOf (front ++ t :: inner) ++ textOf (close :: later) := by
    rw [← textOf_append, ← again, whole, textOf_lexemes]
  have inside : front ++ t :: inner = (front ++ [t]) ++ inner := by simp
  rw [ends, stop, congrArg (List.take _) split, List.take_left, inside,
    textOf_append (front ++ [t]) inner, List.drop_left]

theorem endsWith_append_single (front : Text) (last c : Char) :
    endsWith (front ++ [last]) [c] = (c == last) := by
  simp [endsWith, List.isSuffixOf, List.isPrefixOf]

theorem endsWith_append {front back : Text} {c : Char} (some : back ≠ []) :
    endsWith (front ++ back) [c] = endsWith back [c] := by
  obtain ⟨kept, last, rfl⟩ := (List.eq_nil_or_concat back).resolve_left some
  rw [List.concat_eq_append, ← List.append_assoc, endsWith_append_single, endsWith_append_single]

/-- From a token on the text ends as the whole source does. -/
theorem endsWith_textOf (stands : t :: after <:+ lexemes source) (some : t.text ≠ []) (c : Char) :
    endsWith (textOf (t :: after)) [c] = endsWith source [c] := by
  obtain ⟨front, whole⟩ := stands
  have split : source = textOf front ++ textOf (t :: after) := by
    rw [← textOf_append, whole, textOf_lexemes]
  conv_rhs => rw [split]
  exact (endsWith_append (by simp [some])).symm

/-- The closing brace ends what would be unclosed. -/
theorem Closes.not_unclosed {inner later : List Tok} {close : Tok}
    (closes : Closes t inner close) : ¬ Unclosed (t :: (inner ++ close :: later)) := by
  intro unclosed
  refine unclosed (inner.length + 1) (by simp) ?_
  have front : (t :: (inner ++ close :: later)).take (inner.length + 2) =
      t :: (inner ++ [close]) := by
    simp [List.take_append, List.take_of_length_le (Nat.le_succ inner.length)]
  rw [front, closes.closed]

section

variable (opens : isSymbol "\x7b" t = true) (what : Text) (errors : List (ParseError Kind Problem))

include opens

/-- A closed body ends in its closing brace, and so it is found to be closed. -/
theorem readBody_closed {inner later : List Tok} {close : Tok} (closes : Closes t inner close)
    (closing : Tok) :
    (readBody what : EtsParser Text).run
        { rest := t :: (inner ++ close :: later), closing, errors } =
      (textOf inner, { rest := later, closing, errors }) := by
  have text : textOf (t :: (inner ++ [close])) = ['{'] ++ textOf inner ++ ['}'] := by
    have ends := closes.isSymbol_close opens
    simp only [isSymbol, Bool.and_eq_true, beq_iff_eq] at ends
    simp [text_of_opening opens, ends.2]
  have split : t :: (inner ++ close :: later) = t :: (inner ++ [close]) ++ later := by simp
  rw [readBody_run, balancedCount_closed opens closes, split, List.take_left, List.drop_left, text,
    endsWith_append_single, if_pos (by simp)]
  simp [withoutEnds]

/-- An unclosed body is read to the end, and judged by the last character there. -/
theorem readBody_unclosed (stands : t :: after <:+ lexemes source) (unclosed : Unclosed (t :: after))
    (closing : Tok) :
    ((readBody what : EtsParser Text).run { rest := t :: after, closing, errors }).2.errors =
      if endsWith source ['}'] = false
      then errors ++ [{ cause := .unterminatedBody what, token := t }] else errors := by
  have begins := text_of_opening opens
  rw [readBody_run, balancedCount_unclosed opens unclosed, List.take_length,
    endsWith_textOf stands (by simp [begins])]
  cases ends : endsWith source ['}'] with
  | false => rfl
  | true =>
      -- The opening brace is not the closing one, so there are at least two characters.
      have long : 2 ≤ (textOf (t :: after)).length := by
        rw [← endsWith_textOf stands (by simp [begins]), textOf_cons, begins] at ends
        cases behind : textOf after with
        | nil =>
            rw [behind] at ends
            exact absurd ends (by decide)
        | cons c rest => simp [textOf_cons, begins, behind]
      rw [Bool.true_and, if_pos (decide_eq_true long)]
      rfl

/-- **The end of a body.**  From an opening brace on, whatever the source, the reader reports
that the body is not terminated exactly when no brace closes it and the source does not end
in a closing brace, and else it reports nothing.  Of a body that is closed it gives the text
between the two braces, and goes on behind the second. -/
theorem readBody_extent (stands : t :: after <:+ lexemes source) :
    let s : State Kind Problem := { rest := t :: after, closing := endToken source, errors }
    let read := (readBody what : EtsParser Text).run s
    read.2.errors = (if Unclosed (t :: after) ∧ endsWith source ['}'] = false
        then errors ++ [{ cause := .unterminatedBody what, token := t }] else errors) ∧
      (Unclosed (t :: after) ∨
        ∃ inner close later, after = inner ++ close :: later ∧ Closes t inner close) ∧
      ∀ inner close later, after = inner ++ close :: later → Closes t inner close →
        read = ((source.take close.start).drop t.stop, { s with rest := later }) := by
  intro s read
  have between : ∀ inner close later, after = inner ++ close :: later → Closes t inner close →
      read = ((source.take close.start).drop t.stop, { s with rest := later }) := by
    rintro inner close later rfl closes
    rw [← textOf_between stands]
    exact readBody_closed opens what errors closes (endToken source)
  refine ⟨?_, unclosed_or_closes opens after, between⟩
  rcases unclosed_or_closes opens after with unclosed | ⟨inner, close, later, split, closes⟩
  · rw [show read.2.errors = _ from readBody_unclosed opens what errors stands unclosed _]
    simp [unclosed]
  · have closed : ¬ Unclosed (t :: after) := split ▸ closes.not_unclosed
    rw [between inner close later split closes, if_neg fun both => closed both.1]

end

end Source

/-- A block, a string and a comment with braces in them, in front of other text. -/
def bracedBody : Text :=
  "\x7b if (a) \x7b b('\x7d') \x7d /* \x7b */ \x7d c".toList

/-- An inner block is closed, the body is not. -/
def openBody : Text :=
  "\x7b a() \x7b \x7d ;".toList

theorem readBody_extent_nested :
    let start (source : Text) : State Kind Problem :=
      { rest := bracketAt 0 '{' :: (lexemes source).drop 1, closing := endToken source, errors := [] }
    let read (source : Text) := (readBody "function".toList : EtsParser Text).run (start source)
    bracketAt 0 '{' :: (lexemes bracedBody).drop 1 <:+ lexemes bracedBody ∧
      bracketAt 0 '{' :: (lexemes openBody).drop 1 <:+ lexemes openBody ∧
      isSymbol "\x7b" (bracketAt 0 '{') = true ∧
      (read bracedBody).1 = " if (a) \x7b b('\x7d') \x7d /* \x7b */ ".toList ∧
      (read bracedBody).2 = { start bracedBody with rest := (lexemes bracedBody).drop 20 } ∧
      (read openBody).2.errors =
        [{ cause := .unterminatedBody "function".toList, token := bracketAt 0 '{' }] := by
  intro start read
  have opens : isSymbol "\x7b" (bracketAt 0 '{') = true := by decide
  obtain ⟨here, split, unclosed, depth, text⟩ :
      bracketAt 0 '{' :: (lexemes bracedBody).drop 1 = lexemes bracedBody ∧
        (lexemes bracedBody).drop 1 = ((lexemes bracedBody).drop 1).take 18 ++
          bracketAt 28 '}' :: (lexemes bracedBody).drop 20 ∧
        Unclosed (bracketAt 0 '{' :: ((lexemes bracedBody).drop 1).take 18) ∧
        braceDepth (bracketAt 0 '{' :: (((lexemes bracedBody).drop 1).take 18 ++
          [bracketAt 28 '}'])) = 0 ∧
        (bracedBody.take 28).drop 1 = " if (a) \x7b b('\x7d') \x7d /* \x7b */ ".toList := by
    rw [show bracedBody = _ from String.toList_ofList]
    decide +kernel
  obtain ⟨hereOpen, stays⟩ :
      bracketAt 0 '{' :: (lexemes openBody).drop 1 = lexemes openBody ∧
        (Unclosed (bracketAt 0 '{' :: (lexemes openBody).drop 1) ∧
          endsWith openBody ['}'] = false) := by
    rw [show openBody = _ from String.toList_ofList]
    decide +kernel
  have first : bracketAt 0 '{' :: (lexemes bracedBody).drop 1 <:+ lexemes bracedBody :=
    here ▸ List.suffix_rfl
  have second : bracketAt 0 '{' :: (lexemes openBody).drop 1 <:+ lexemes openBody :=
    hereOpen ▸ List.suffix_rfl
  obtain ⟨-, -, closed⟩ := readBody_extent opens "function".toList [] first
  obtain ⟨reports, -⟩ := readBody_extent opens "function".toList [] second
  have whole := closed _ _ _ split ⟨unclosed, depth⟩
  refine ⟨first, second, opens, ?_, ?_, ?_⟩
  · exact (congrArg Prod.fst whole).trans text
  · exact congrArg Prod.snd whole
  · exact reports.trans (if_pos stays)

/-- The brace of an inner block, of a comment, of a string and of a template literal at the
end of a source. -/
def bracedEnds : List Text :=
  ["\x7b \x7b\x7d".toList, "\x7b // \x7d".toList, "\x7b '\x7d".toList, "\x7b \x60\x7d".toList]

/-- With a brace at the end of the source nobody notices that a body has no end. -/
theorem readBody_silent :
    (∀ source ∈ bracedEnds, Unclosed (lexemes source) ∧
      ((readBody "function".toList : EtsParser Text).run
        (.start (lexemes source) (endToken source))).2.errors = []) ∧
    ¬ ∀ (source : Text) (t : Tok) (after : List Tok) (what : Text),
      t :: after <:+ lexemes source → isSymbol "\x7b" t = true →
      (((readBody what : EtsParser Text).run
          (.start (t :: after) (endToken source))).2.errors ≠ [] ↔ Unclosed (t :: after)) := by
  obtain ⟨silent, here⟩ :
      (∀ source ∈ bracedEnds, Unclosed (lexemes source) ∧
        ((readBody "function".toList : EtsParser Text).run
          (.start (lexemes source) (endToken source))).2.errors = []) ∧
      lexemes "\x7b \x7b\x7d".toList =
        bracketAt 0 '{' :: (lexemes "\x7b \x7b\x7d".toList).drop 1 := by decide +kernel
  refine ⟨silent, fun detects => ?_⟩
  obtain ⟨unclosed, none⟩ := silent _ List.mem_cons_self
  rw [here] at unclosed none
  exact (detects _ _ _ _ (here ▸ List.suffix_rfl) (by decide)).2 unclosed none

end UiFormat.Ets

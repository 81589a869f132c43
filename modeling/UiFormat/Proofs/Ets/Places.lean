/-
# UiFormat.Proofs.Ets.Places -- the lines and columns of ETS tokens

A line break of a source ends behind a line feed, and behind a carriage return that no line
feed follows (`endsLine`).  The line of an offset counts the breaks that end at it or before
it, and its column counts from the last of them (`placeAt`).

The lexer counts in another way: token by token, from the text of each alone.  The two agree
as long as no token ends between the carriage return and the line feed of a pair, where a
token by itself looks as if a line ended (`pastLines_placeAt`).  None does: a token ends at a
character of its own kind, or at the end of the source, and what looks ahead for a line feed
takes it (`lexeme_apart`).

Main statement: `tokenize_located`.
-/
import UiFormat.Proofs.Ets.Spelling
import UiFormat.Proofs.Ets.Tiling
import UiFormat.Proofs.Text.Cut

namespace UiFormat.Text

set_option autoImplicit false

/-! ## Line breaks of a source -/

/-- A line break ends at the offset: behind a line feed, or behind a carriage return that no
line feed follows. -/
def endsLine (source : Text) : (offset : Nat) → Bool
  | 0 => false
  | i + 1 => source[i]? == some '\n' || (source[i]? == some '\r' && source[i + 1]? != some '\n')

/-- The offset lies between the carriage return and the line feed of a pair. -/
def splitsPair (source : Text) : (offset : Nat) → Bool
  | 0 => false
  | i + 1 => source[i]? == some '\r' && source[i + 1]? == some '\n'

/-- The offsets up to `offset` at which a line break ends. -/
def lineEnds (source : Text) (offset : Nat) : List Nat :=
  (List.range (offset + 1)).filter (endsLine source)

/-- Where the line of `offset` starts: at the end of the last line break, or at the beginning of
the source. -/
def lineStart (source : Text) (offset : Nat) : Nat :=
  (lineEnds source offset).getLast?.getD 0

/-- The line and column of an offset. -/
def placeAt (source : Text) (offset : Nat) : Position :=
  { offset
    line := 1 + (lineEnds source offset).length
    column := 1 + (offset - lineStart source offset) }

theorem placeAt_zero (source : Text) : placeAt source 0 = .start := rfl

section

variable {source : Text} {offset : Nat}

theorem lineEnds_succ : lineEnds source (offset + 1) =
    lineEnds source offset ++ if endsLine source (offset + 1) then [offset + 1] else [] := by
  rw [lineEnds, List.range_succ, List.filter_append, lineEnds]
  congr 1
  rw [List.filter_cons, List.filter_nil]

theorem lineStart_le : lineStart source offset ≤ offset := by
  rw [lineStart]
  cases last : (lineEnds source offset).getLast? with
  | none => exact Nat.zero_le offset
  | some stop =>
      have inside : stop ∈ List.range (offset + 1) :=
        (List.mem_filter.1 (List.mem_of_getLast? last)).1
      exact Nat.le_of_lt_succ (List.mem_range.1 inside)

/-- Where a line break ends, a line begins. -/
theorem placeAt_of_endsLine (ends : endsLine source (offset + 1) = true) :
    placeAt source (offset + 1) = (placeAt source offset).nextLine 1 := by
  have start : lineStart source (offset + 1) = offset + 1 := by
    rw [lineStart, lineEnds_succ, if_pos ends, List.getLast?_concat, Option.getD_some]
  rw [placeAt, start, lineEnds_succ, if_pos ends, List.length_append, List.length_singleton,
    Nat.sub_self]
  rfl

/-- Where none ends, the line goes on. -/
theorem placeAt_of_goesOn (goesOn : endsLine source (offset + 1) = false) :
    placeAt source (offset + 1) = (placeAt source offset).nextColumn := by
  have same : lineEnds source (offset + 1) = lineEnds source offset := by
    rw [lineEnds_succ, goesOn, if_neg Bool.false_ne_true, List.append_nil]
  have start : lineStart source (offset + 1) = lineStart source offset := by
    rw [lineStart, same, lineStart]
  have before : lineStart source offset ≤ offset := lineStart_le
  rw [placeAt, start, same, Nat.succ_sub before]
  rfl

end

/-! ## A place between two texts -/

theorem getElem?_seam (front : Text) (c : Char) (behind : Text) :
    (front ++ c :: behind)[front.length]? = some c ∧
      (front ++ c :: behind)[front.length + 1]? = behind.head? := by
  constructor
  · rw [List.getElem?_append_right (Nat.le_refl _), Nat.sub_self, List.getElem?_cons_zero]
  · have past : front.length + 1 - front.length = 1 := by omega
    rw [List.getElem?_append_right (Nat.le_succ _), past, List.getElem?_cons_succ,
      List.head?_eq_getElem?]

/-- One character further: a line break ends there, or the line goes on. -/
theorem placeAt_append_cons (front : Text) (c : Char) (behind : Text) :
    placeAt (front ++ c :: behind) (front ++ [c]).length =
      if c = '\n' ∨ (c = '\r' ∧ behind.head? ≠ some '\n') then
        (placeAt (front ++ c :: behind) front.length).nextLine 1
      else (placeAt (front ++ c :: behind) front.length).nextColumn := by
  obtain ⟨here, next⟩ := getElem?_seam front c behind
  have ends : endsLine (front ++ c :: behind) (front.length + 1) = true ↔
      (c = '\n' ∨ (c = '\r' ∧ behind.head? ≠ some '\n')) := by
    rw [endsLine, here, next]
    simp
  rw [List.length_append, List.length_singleton]
  split
  · rename_i ended
    exact placeAt_of_endsLine (ends.2 ended)
  · rename_i goesOn
    exact placeAt_of_goesOn (Bool.eq_false_iff.2 fun ended => goesOn (ends.1 ended))

/-- No pair of a carriage return and a line feed lies half in the one text and half in the
other. -/
def Apart (front behind : Text) : Prop :=
  front.getLast? = some '\r' → behind.head? ≠ some '\n'

theorem Apart.splitsPair_eq {front behind : Text} (apart : Apart front behind) :
    splitsPair (front ++ behind) front.length = false := by
  rcases List.eq_nil_or_concat front with rfl | ⟨front, c, rfl⟩
  · rfl
  · obtain ⟨here, next⟩ := getElem?_seam front c behind
    rw [List.concat_eq_append, Apart, List.getLast?_concat] at apart
    rw [List.concat_eq_append, List.length_append, List.length_singleton, List.append_assoc,
      List.singleton_append, splitsPair, here, next, Bool.and_eq_false_imp]
    exact fun isReturn => beq_eq_false_iff_ne.2 (apart (eq_of_beq isReturn))

/-- What stands behind a character is apart from what follows if the two together are. -/
theorem Apart.tail {c : Char} {front behind : Text} (apart : Apart (c :: front) behind) :
    Apart front behind := by
  intro last
  refine apart ?_
  rw [List.getLast?_cons, last]
  rfl

/-- Counting through a part of the source leads from the place where it starts to the place
where it stops, if no pair is split there. -/
theorem pastLines_placeAt {p : Position} {source front text behind : Text}
    (apart : Apart text behind) (split : source = front ++ (text ++ behind))
    (place : p = placeAt source front.length) :
    p.pastLines text = placeAt source (front ++ text).length := by
  have step : ∀ {front rest : Text} {c : Char}, source = front ++ c :: rest →
      placeAt source (front ++ [c]).length =
        if c = '\n' ∨ (c = '\r' ∧ rest.head? ≠ some '\n') then (placeAt source front.length).nextLine 1
        else (placeAt source front.length).nextColumn := by
    rintro front rest c rfl
    exact placeAt_append_cons front c rest
  have shift : ∀ {front rest : Text} {c : Char}, source = front ++ c :: rest →
      source = (front ++ [c]) ++ rest := by
    rintro front rest c rfl
    rw [List.append_assoc, List.singleton_append]
  fun_induction Position.pastLines p text generalizing front with
  | case1 p => rw [List.append_nil, place]
  | case2 p text ih =>
      have first := step split
      have second := step (shift split)
      rw [if_neg (by simp)] at first
      rw [if_pos (.inl rfl), first] at second
      have there := ih apart.tail.tail (shift (shift split)) (by rw [second, place]; rfl)
      rw [there]
      simp
  | case3 p text lone ih =>
      have follows : (text ++ behind).head? ≠ some '\n' := by
        cases text with
        | nil => exact apart rfl
        | cons d text =>
            intro feed
            exact lone text (congrArg (· :: text) (Option.some.inj feed))
      have first := step split
      rw [if_pos (.inr ⟨rfl, follows⟩)] at first
      have there := ih apart.tail (shift split) (by rw [first, place])
      rw [there]
      simp
  | case4 p text ih =>
      have first := step split
      rw [if_pos (.inl rfl)] at first
      have there := ih apart.tail (shift split) (by rw [first, place])
      rw [there]
      simp
  | case5 p c text notPair notReturn notFeed ih =>
      rw [List.cons_append] at split
      have first := step split
      have other : ¬ (c = '\n' ∨ (c = '\r' ∧ (text ++ behind).head? ≠ some '\n')) := by
        rintro (feed | ⟨isReturn, -⟩)
        · exact notFeed feed
        · exact notReturn isReturn
      rw [if_neg other] at first
      have there := ih apart.tail (shift split) (by rw [first, place])
      rw [there]
      simp

end UiFormat.Text

namespace UiFormat.Ets

open UiFormat.Text
open UiFormat.Parse

/-! ## No token ends inside a pair -/

theorem apart_of_ne_return {text : Text} (other : text.getLast? ≠ some '\r') (behind : Text) :
    Apart text behind :=
  fun last => absurd last other

/-- A token of which no character is a carriage return. -/
theorem apart_of_forall {c : Char} {own : Text} (first : c ≠ '\r') (others : ∀ d ∈ own, d ≠ '\r')
    (behind : Text) : Apart (c :: own) behind := by
  refine apart_of_ne_return (fun last => ?_) behind
  rcases List.mem_cons.1 (List.mem_of_getLast? last) with isFirst | inside
  · exact first isFirst.symm
  · exact others _ inside rfl

/-- A token that goes on as long as characters are of a kind. -/
theorem apart_run {p : Char → Bool} (plain : p '\r' = false) {c : Char} (first : c ≠ '\r')
    (rest behind : Text) : Apart (c :: rest.take (runLength p rest)) behind := by
  refine apart_of_forall first (fun d member => ?_) behind
  rintro rfl
  rw [take_runLength] at member
  rw [List.mem_takeWhile_imp member] at plain
  cases plain

theorem apart_plain {c : Char} {own : Text} (first : c ≠ '\r') (plain : ∀ d ∈ own, isPlain d = true)
    (behind : Text) : Apart (c :: own) behind := by
  refine apart_of_forall first (fun d member => ?_) behind
  rintro rfl
  have passes := plain _ member
  revert passes
  decide

/-- A token that ends with a character of its own, unless it ends with the source. -/
theorem apart_of_closed {c mark : Char} {own behind : Text} (other : mark ≠ '\r')
    (closed : behind ≠ [] → own.getLast? = some mark) : Apart (c :: own) behind := by
  cases behind with
  | nil => exact fun _ impossible => by cases impossible
  | cons d behind =>
      have last := closed (List.cons_ne_nil d behind)
      refine apart_of_ne_return ?_ _
      rw [List.getLast?_cons, last]
      exact fun same => other (Option.some.inj same)

theorem getLast?_string {quote : Char} {text : Text}
    (more : text.drop (stringExtent quote text) ≠ []) :
    (text.take (stringExtent quote text)).getLast? = some quote := by
  have length : (text.take (stringExtent quote text)).length = stringExtent quote text := by
    rw [List.length_take, Nat.min_eq_left (stringExtent_le quote text)]
  refine getLast?_of_closed (stringExtent_append ?_ more)
  rw [List.take_append_drop, length]

theorem getLast?_template {text : Text} (more : text.drop (templateExtent 0 text) ≠ []) :
    (text.take (templateExtent 0 text)).getLast? = some '\x60' := by
  have length : (text.take (templateExtent 0 text)).length = templateExtent 0 text := by
    rw [List.length_take, Nat.min_eq_left (templateExtent_le 0 text)]
  have here : templateExtent 0 (text.take (templateExtent 0 text) ++ text.drop (templateExtent 0 text)) =
      (text.take (templateExtent 0 text)).length := by
    rw [List.take_append_drop, length]
  exact (templateExtent_append here more).1

theorem getLast?_lengthThrough {text : Text} (more : text.drop (lengthThrough "*/".toList text) ≠ []) :
    (text.take (lengthThrough "*/".toList text)).getLast? = some '/' := by
  rw [lengthThrough] at more ⊢
  cases found : cut? "*/".toList text with
  | none =>
      rw [found] at more
      exact absurd List.drop_length more
  | some parts =>
      obtain ⟨body, after⟩ := parts
      have whole : text = (body ++ "*/".toList) ++ after := by
        rw [cut?_eq_some found, List.append_assoc]
      dsimp only
      rw [whole, ← List.length_append, List.take_left, List.getLast?_append]
      rfl

/-- The body of a regular expression ends with its slash. -/
theorem getLast?_regexp {inClass : Bool} {text : Text} {n : Nat}
    (found : regexpLength? inClass text = some n) : (text.take n).getLast? = some '/' := by
  have extend : ∀ {c : Char} {rest : Text} {m : Nat}, (rest.take m).getLast? = some '/' →
      ((c :: rest).take (m + 1)).getLast? = some '/' := by
    intro c rest m last
    rw [List.take_succ_cons, List.getLast?_cons, last]
    rfl
  fun_induction regexpLength? inClass text generalizing n with
  | case1 => cases found
  | case2 => cases found
  | case3 inClass c rest ih =>
      obtain ⟨m, later, rfl⟩ := Option.map_eq_some_iff.1 found
      exact extend (extend (ih later))
  | case4 => cases found
  | case5 inClass c rest notBackslash notBreak closes =>
      rw [Bool.and_eq_true, decide_eq_true_iff] at closes
      obtain ⟨rfl, -⟩ := closes
      cases found
      rfl
  | case6 inClass rest _ _ _ ih =>
      obtain ⟨m, later, rfl⟩ := Option.map_eq_some_iff.1 found
      exact extend (ih later)
  | case7 inClass rest _ _ _ _ ih =>
      obtain ⟨m, later, rfl⟩ := Option.map_eq_some_iff.1 found
      exact extend (ih later)
  | case8 inClass c rest _ _ _ _ _ ih =>
      obtain ⟨m, later, rfl⟩ := Option.map_eq_some_iff.1 found
      exact extend (ih later)

/-- A regular expression ends with its slash or with a flag. -/
theorem apart_regexp {rest : Text} {extent : Nat} (found : regexpExtent? rest = some extent)
    (behind : Text) : Apart ('/' :: rest.take extent) behind := by
  obtain ⟨n, body, rfl⟩ := Option.map_eq_some_iff.1 found
  refine apart_of_ne_return (fun last => ?_) behind
  rw [List.take_add, List.getLast?_cons, List.getLast?_append, getLast?_regexp body] at last
  cases flags : ((rest.drop n).take (runLength isIdentChar (rest.drop n))).getLast? with
  | none =>
      rw [flags] at last
      cases last
  | some c =>
      rw [flags] at last
      have inside := List.mem_of_getLast? flags
      rw [take_runLength] at inside
      have isFlag := List.mem_takeWhile_imp inside
      cases last
      revert isFlag
      decide

/-- **No token ends inside a pair.**  What the lexer takes and what it leaves are apart. -/
theorem lexeme_apart (operandBefore : Bool) (c : Char) (rest : Text) :
    Apart (c :: rest.take (lexeme operandBefore c rest).2)
      (rest.drop (lexeme operandBefore c rest).2) := by
  fun_cases lexeme operandBefore c rest with
  | case1 isFeed =>
      subst isFeed
      exact apart_of_forall (by decide) (by simp) _
  | case2 _ isReturn =>
      subst isReturn
      dsimp only
      split
      · rename_i feed
        obtain ⟨later, rfl⟩ := List.isPrefixOf_iff_prefix.1 feed
        exact apart_of_ne_return (by simp) _
      · rename_i lone
        intro _ feed
        cases rest with
        | nil => cases feed
        | cons d rest =>
            cases feed
            exact lone rfl
  | case3 _ notReturn => exact apart_run (by decide) notReturn _ _
  | case4 _ notReturn => exact apart_run (by decide) notReturn _ _
  | case5 _ notReturn _ _ opens =>
      rw [Bool.and_eq_true, decide_eq_true_iff] at opens
      obtain ⟨body, rfl⟩ := List.isPrefixOf_iff_prefix.1 opens.2
      refine apart_of_closed (by decide : '/' ≠ '\r') fun more => ?_
      have last : (body.take (lengthThrough "*/".toList body)).getLast? = some '/' :=
        getLast?_lengthThrough more
      show ('*' :: body.take (lengthThrough "*/".toList body)).getLast? = some '/'
      rw [List.getLast?_cons, last]
      rfl
  | case6 _ notReturn => exact apart_run (by decide) notReturn _ _
  | case7 _ _ _ _ _ _ isQuote =>
      have other : c ≠ '\r' := by
        rintro rfl
        revert isQuote
        decide
      exact apart_of_closed other getLast?_string
  | case8 => exact apart_of_closed (by decide) getLast?_template
  | case9 _ notReturn => exact apart_plain notReturn (plain_numberExtent c rest) _
  | case10 _ notReturn => exact apart_run (by decide) notReturn _ _
  | case11 _ notReturn _ _ _ _ _ _ _ _ isSlash =>
      subst isSlash
      fun_cases slash operandBefore rest with
      | case1 extent found =>
          split at found
          · cases found
          · exact apart_regexp found _
      | case2 => exact apart_plain notReturn (plain_symbol '/' rest) _
  | case12 _ notReturn => exact apart_plain notReturn (plain_symbol c rest) _

/-! ## Every token -/

/-- The line and the column of a token are those of its offset, and neither end of it splits a
pair. -/
structure Located (source : Text) (t : Tok) : Prop where
  line : t.line = 1 + (lineEnds source t.start).length
  column : t.column = 1 + (t.start - lineStart source t.start)
  starts : splitsPair source t.start = false
  stops : splitsPair source t.stop = false

theorem located_at {source front own behind : Text} {kind : Kind} (split : source = front ++ (own ++ behind))
    (starts : Apart front (own ++ behind)) (stops : Apart (front ++ own) behind) :
    Located source (Token.at (placeAt source front.length) kind own own.length) where
  line := rfl
  column := rfl
  starts := by
    rw [split]
    exact starts.splitsPair_eq
  stops := by
    have whole : source = (front ++ own) ++ behind := by rw [split, List.append_assoc]
    show splitsPair source (front.length + own.length) = false
    rw [whole, ← List.length_append]
    exact stops.splitsPair_eq

/-- The lexer keeps to the places of the source, one token after the other. -/
theorem located_tokensFrom {source : Text} (p : Position) (operandBefore : Bool) (rest : Text) :
    ∀ front : Text, source = front ++ rest → Apart front rest → p = placeAt source front.length →
      ∀ t ∈ tokensFrom p operandBefore rest, Located source t := by
  fun_induction tokensFrom p operandBefore rest with
  | case1 => simp
  | case2 p operandBefore c rest kind extra here own operand ih =>
      intro front split apart place
      have within := lexeme_apart operandBefore c rest
      rw [here] at within
      have whole : c :: rest = own ++ rest.drop extra :=
        congrArg (c :: ·) (List.take_append_drop extra rest).symm
      rw [whole] at split apart
      have stops : Apart (front ++ own) (rest.drop extra) := by
        intro last
        rw [List.getLast?_append] at last
        exact within last
      have there := pastLines_placeAt within split place
      subst place
      refine List.forall_mem_cons.2 ⟨located_at split apart stops, ih _ ?_ stops there⟩
      rw [split, List.append_assoc]

/-- **Places are exact.**  Whatever the source, the line of each of its tokens, the closing one
too, is one more than the line breaks that end at its start or before, its column counts from
the end of the last of them, and none of its ends lies inside a pair of a carriage return and
a line feed. -/
theorem tokenize_located (source : Text) : ∀ t ∈ tokenize source, Located source t := by
  have start : Position.start = placeAt source ([] : Text).length := (placeAt_zero source).symm
  have nothing : ∀ behind : Text, Apart [] behind := fun _ impossible => by cases impossible
  intro t member
  rcases List.mem_append.1 member with inside | last
  · exact located_tokensFrom _ _ _ [] rfl (nothing source) start t inside
  · have atEnd : Apart source [] := fun _ impossible => by cases impossible
    have whole : source = [] ++ (source ++ []) := (List.append_nil source).symm
    have place := pastLines_placeAt atEnd whole start
    rw [List.mem_singleton.1 last, endToken, place]
    have closed : source = source ++ ([] ++ []) := (List.append_nil source).symm
    exact located_at closed atEnd (by rwa [List.append_nil])

/-- A slash that opens no regular expression because the line ends, a template literal over two
line breaks of different kinds, and a string that escapes a pair. -/
def tangledBreaks : Text :=
  "a = /b\r\n\x60c\\\r\nd\r\x60 \x27e\\\r\n\x27".toList

/-- The string at the end of it. -/
def escapedPair : Tok :=
  { kind := .string
    text := "\x27e\\\r\n\x27".toList
    start := 17
    stop := 23
    line := 4
    column := 3 }

theorem tokenize_located_tangled :
    escapedPair ∈ tokenize tangledBreaks ∧ Located tangledBreaks escapedPair ∧
      lineEnds tangledBreaks escapedPair.start = [8, 13, 15] ∧
      (List.range 24).filter (splitsPair tangledBreaks) = [7, 12, 21] := by
  obtain ⟨member, ends, pairs⟩ : escapedPair ∈ tokenize tangledBreaks ∧
      lineEnds tangledBreaks escapedPair.start = [8, 13, 15] ∧
      (List.range 24).filter (splitsPair tangledBreaks) = [7, 12, 21] := by
    rw [show tangledBreaks = _ from String.toList_ofList]
    decide +kernel
  exact ⟨member, tokenize_located tangledBreaks escapedPair member, ends, pairs⟩

end UiFormat.Ets

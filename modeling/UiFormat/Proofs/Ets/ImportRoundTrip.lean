/-
# UiFormat.Proofs.Ets.ImportRoundTrip -- a printed import is read as it was

An import that was taken apart is printed as one line, and the line is read as one import with
the same parts.  Three things are shown on the way.

* The count of the tokens of an import goes through the line to its end.  In front of the path
  stand names, spaces, commas and stars, which it passes, and perhaps a pair of braces
  (`TokensOf.heading`); the path is one string; and behind it the line is over, at a semicolon,
  a line break or the comment (`readsLine_of_heading`).
* A path can end in a backslash, which takes the closing quote with it.  The string then runs
  to the end of the source, in the printed text as in the text that was read; so such an import
  was the last thing in its source, and no comment is printed behind it (`behindImport_eq_nil`).
* The comment behind an import is read as the same comment again, with one exception: a block
  comment that is never closed has no line break in it when it ends with the source, and takes
  in the one that is printed (`parse_formatDocument_openComment`).

Main statement: `parse_formatDocument_import`.
-/
import UiFormat.Format
import UiFormat.Proofs.Ets.ImportPrinting
import UiFormat.Proofs.Ets.TokenCuts

namespace UiFormat.Ets

open UiFormat.Text
open UiFormat.Parse

set_option autoImplicit false

variable {closing : Tok} {tokens : List Tok}

/-! ## Counting the tokens of an import -/

/-- Tokens for the text, none of them a comment, that the count of an import goes through: with
`depth` braces open in front of them, `after` are open behind them. -/
structure Counted (closing : Tok) (depth after : Nat) (ts : List Tok) (text : Text) : Prop where
  covers : textOf ts = text
  noComment : ∀ t ∈ ts, isCommentToken t = false
  passes : ∀ read rest, importCount closing depth read (ts ++ rest) =
    ts.length + importCount closing after (read ++ textOf ts) rest

theorem Counted.append {depth after last : Nat} {a b : List Tok} {x y : Text}
    (first : Counted closing depth after a x) (second : Counted closing after last b y) :
    Counted closing depth last (a ++ b) (x ++ y) where
  covers := by rw [textOf_append, first.covers, second.covers]
  noComment := List.forall_mem_append.2 ⟨first.noComment, second.noComment⟩
  passes read rest := by
    rw [List.append_assoc, first.passes, second.passes, textOf_append, List.append_assoc,
      List.length_append, Nat.add_assoc]

/-- The count of an import does no more than go on at the token. -/
structure Unmarked (t : Tok) : Prop where
  noBreak : t.kind ≠ .newline
  noComment : isCommentToken t = false
  noMark : ∀ mark ∈ ["\x7b", "\x7d", ";"], isSymbol mark t = false

theorem Unmarked.counted {t : Tok} (unmarked : Unmarked t) (depth : Nat) :
    Counted closing depth depth [t] t.text where
  covers := List.append_nil _
  noComment := List.forall_mem_singleton.2 unmarked.noComment
  passes read rest := by
    have noBreak : (t.kind == .newline) = false := by simpa using unmarked.noBreak
    have opens := unmarked.noMark "\x7b" (by decide)
    have closes := unmarked.noMark "\x7d" (by decide)
    have ends := unmarked.noMark ";" (by decide)
    rw [List.singleton_append, importCount]
    simp [noBreak, unmarked.noComment, opens, closes, ends, Nat.add_comm]

theorem counted_of_unmarked {ts : List Tok} (unmarked : ∀ t ∈ ts, Unmarked t) (depth : Nat) :
    Counted closing depth depth ts (textOf ts) := by
  induction ts with
  | nil =>
      have nothing : ∀ t ∈ ([] : List Tok), isCommentToken t = false := fun _ member => by cases member
      exact ⟨rfl, nothing, fun read rest => by simp⟩
  | cons t ts ih =>
      rw [List.forall_mem_cons] at unmarked
      exact (unmarked.1.counted depth).append (ih unmarked.2)

/-! ## The tokens in front of the path -/

theorem isPassed_of_isPrintedChar {c : Char} (printed : isPrintedChar c = true) :
    isPassed '{' '}' c = true := by
  have pair : IsPair '{' '}' := .inr ⟨rfl, rfl⟩
  exact pair.isPassed_of (p := isPrintedChar) (forall_mem_of_all (by decide)) printed

/-- No token of names, spaces, commas and stars is marked. -/
theorem TokensOf.unmarked {text : Text} (of : TokensOf tokens text) {t : Tok} (member : t ∈ tokens)
    (printed : Printed t.text) : Unmarked t := by
  obtain ⟨operandBefore, c, rest, isKind, spelled⟩ := of.exists_lexeme member
  have here : isPrintedChar c = true := printed c (by rw [spelled]; exact List.mem_cons_self)
  have other : ∀ {d : Char}, isPrintedChar d = false → c ≠ d := by
    rintro d fails rfl
    rw [here] at fails
    cases fails
  have kinds := opening_of_lexeme operandBefore c rest
  rw [← isKind] at kinds
  refine ⟨fun isNewline => ?_, ?_, fun mark isMark => ?_⟩
  · have breaks := kinds.1 isNewline
    rw [isBreak, Bool.or_eq_true, beq_iff_eq, beq_iff_eq] at breaks
    rcases breaks with isBreak | isBreak
    · exact other (d := '\r') (by decide) isBreak
    · exact other (d := '\n') (by decide) isBreak
  · by_contra comment
    exact other (d := '/') (by decide) (kinds.2 (.inl (by simpa [isCommentToken] using comment)))
  · have notSpelled : (t.text == mark.toList) = false := by
      rw [spelled, beq_eq_false_iff_ne]
      intro same
      have marks : ∀ mark ∈ ["\x7b", "\x7d", ";"], mark.toList.head?.all (!isPrintedChar ·) = true := by
        decide
      have fails := marks mark isMark
      rw [← same] at fails
      simp [here] at fails
    rw [isSymbol, notSpelled, Bool.and_false]

theorem TokensOf.printed {x rest : Text} {mark : Char} (of : TokensOf tokens (x ++ mark :: rest))
    (printed : Printed x) (stops : isPassed '{' '}' mark = false) (closing : Tok) (depth : Nat) :
    ∃ front later, tokens = front ++ later ∧ Counted closing depth depth front x ∧
      TokensOf later (mark :: rest) := by
  have noSlash : '/' ∉ x := by
    intro member
    have here := printed '/' member
    revert here
    decide
  obtain ⟨front, later, rfl, covers, behind⟩ := of.cut (.inr ⟨rfl, rfl⟩)
    (fun c member => isPassed_of_isPrintedChar (printed c member)) noSlash stops
  have unmarked : ∀ t ∈ front, Unmarked t := fun t member =>
    of.unmarked (List.mem_append_left _ member) fun c inside =>
      printed c (covers ▸ List.mem_flatMap.2 ⟨t, member, inside⟩)
  exact ⟨front, later, rfl, covers ▸ counted_of_unmarked unmarked depth, behind⟩

/-- A brace is one token, which opens or closes a level. -/
theorem TokensOf.brace {rest : Text} {mark : Char} (of : TokensOf tokens (mark :: rest))
    (isBrace : mark = '{' ∨ mark = '}') (closing : Tok) (depth : Nat) :
    ∃ t later, tokens = t :: later ∧
      Counted closing depth (if mark = '{' then depth + 1 else depth - 1) [t] [mark] ∧ TokensOf later rest := by
  have here : ∀ operandBefore, lexeme operandBefore mark ([] ++ rest) = (.punctuator, ([] : Text).length) :=
    fun operandBefore => lexeme_of_bracket (by rcases isBrace with rfl | rfl <;> decide) operandBefore rest
  obtain ⟨t, later, rfl, isKind, spelled, behind⟩ := TokensOf.token of here
  have noComment : isCommentToken t = false := by
    rw [isCommentToken, isKind]
    rfl
  refine ⟨t, later, rfl, ⟨by rw [textOf_cons, spelled]; rfl, List.forall_mem_singleton.2 noComment, ?_⟩, behind⟩
  intro read rest
  have covers : textOf [t] = t.text := List.append_nil _
  have symbol : ∀ symbol, isSymbol symbol t = ([mark] == symbol.toList) := by
    intro symbol
    rw [isSymbol, isSymbolToken, isKind, spelled]
    rfl
  rw [List.singleton_append, importCount, noComment, symbol, symbol, symbol, isKind, covers]
  rcases isBrace with rfl | rfl <;> simp [Nat.add_comm]

/-- What stands in front of the path is read for itself, and the count goes through it. -/
theorem TokensOf.heading {x rest : Text} {quote : Char} (of : TokensOf tokens (x ++ quote :: rest))
    (heading : Heading x) (isQuote : isPathQuote quote = true) (closing : Tok) :
    ∃ front later, tokens = front ++ later ∧ Counted closing 0 0 front x ∧
      TokensOf later (quote :: rest) := by
  have stops : isPassed '{' '}' quote = false := by
    rcases isPathQuote_iff.1 isQuote with rfl | rfl <;> decide
  cases heading with
  | plain printed => exact of.printed printed stops closing 0
  | @braced before names behind printed inside printedBehind =>
      simp only [List.append_assoc, List.cons_append] at of
      obtain ⟨front, later, rfl, counted, of⟩ := of.printed printed (by decide) closing 0
      obtain ⟨opening, later, rfl, opens, of⟩ := of.brace (.inl rfl) closing 0
      obtain ⟨middle, later, rfl, within, of⟩ := of.printed inside (by decide) closing 1
      obtain ⟨partner, later, rfl, closes, of⟩ := of.brace (.inr rfl) closing 1
      obtain ⟨back, later, rfl, last, of⟩ := of.printed printedBehind stops closing 0
      have whole := (counted.append (opens.append (within.append (closes.append last))))
      exact ⟨_, later, by simp, whole, of⟩

/-- A string is one token, closed or not. -/
theorem TokensOf.string {rest : Text} {quote : Char} (of : TokensOf tokens (quote :: rest))
    (isQuote : isPathQuote quote = true) :
    ∃ t later, tokens = t :: later ∧ t.kind = .string ∧ t.text = quote :: rest.take (stringExtent quote rest) ∧
      TokensOf later (rest.drop (stringExtent quote rest)) := by
  obtain ⟨operandBefore, t, later, split, isKind, spelled, behind⟩ := of.first
  have here : lexeme operandBefore quote rest = (.string, stringExtent quote rest) := by
    rcases isPathQuote_iff.1 isQuote with rfl | rfl <;> rfl
  rw [here] at isKind spelled behind
  exact ⟨t, later, split, isKind, spelled, behind⟩

theorem unmarked_of_string {t : Tok} (isString : t.kind = .string) : Unmarked t where
  noBreak := by simp [isString]
  noComment := by
    rw [isCommentToken, isString]
    rfl
  noMark mark _ := by
    rw [isSymbol, isSymbolToken, isString]
    rfl

/-! ## The end of the line -/

/-- What is printed behind the statement. -/
def trail (comment : Option Text) : Text :=
  (comment.map (' ' :: ·)).getD []

theorem TokensOf.lineBreak (of : TokensOf tokens ['\n']) : ∃ t, tokens = [t] ∧ t.kind = .newline := by
  have here : ∀ operandBefore, lexeme operandBefore '\n' ([] ++ []) = (.newline, ([] : Text).length) :=
    fun operandBefore => rfl
  obtain ⟨t, later, rfl, isKind, -, behind⟩ := TokensOf.token (x := []) (w := []) of here
  exact ⟨t, by rw [behind.eq_nil], isKind⟩

/-- A line that is over, perhaps with a comment. -/
inductive LineEnd : Option Text → List Tok → Prop
  | plain {t : Tok} (isBreak : t.kind = .newline) : LineEnd none [t]
  | comment {space closes t : Tok} {comment : Text} (isSpace : space.kind = .whitespace)
      (trailing : isTrailingComment closes = true) (isBreak : t.kind = .newline) :
      LineEnd (some comment) [space, closes, t]

theorem TokensOf.lineEnd {comment : Option Text} (closable : ∀ text ∈ comment, LineComment text)
    (of : TokensOf tokens (trail comment ++ ['\n'])) : LineEnd comment tokens := by
  cases comment with
  | none =>
      obtain ⟨t, rfl, isKind⟩ := of.lineBreak
      exact .plain isKind
  | some text =>
      have isComment := closable text rfl
      have blank : ∀ operandBefore, lexeme operandBefore ' ' ([] ++ (text ++ ['\n'])) =
          (.whitespace, ([] : Text).length) := by
        intro operandBefore
        rw [lexeme_of_isInlineBlank rfl]
        cases isComment <;> rfl
      obtain ⟨space, later, rfl, isSpace, -, of⟩ := TokensOf.token (x := []) of blank
      obtain ⟨closes, later, rfl, trailing, -, of⟩ := of.comment isComment
      obtain ⟨t, rfl, isKind⟩ := of.lineBreak
      exact .comment isSpace trailing isKind

/-- Behind the comment that comes next, if there is one, only blanks are left. -/
def Over (ts : List Tok) : Prop :=
  ∀ t ∈ (commentAhead ts).elim ts Prod.snd, isTriviaToken t = true

theorem over_nil : Over [] :=
  fun _ member => (List.not_mem_nil member).elim

theorem over_lineBreak {t : Tok} (isBreak : t.kind = .newline) : Over [t] := by
  have none : commentAhead [t] = none := by
    simp [commentAhead, isBreak, isTrailingComment]
  rw [Over, none]
  exact List.forall_mem_singleton.2 (by rw [isTriviaToken, isBreak]; rfl)

theorem over_comment {spaces : List Tok} {closes t : Tok} (isSpace : ∀ u ∈ spaces, u.kind = .whitespace)
    (trailing : isTrailingComment closes = true) (isBreak : t.kind = .newline) :
    Over (spaces ++ [closes, t]) := by
  have noSpace : (closes.kind == .whitespace) = false := by
    rw [beq_eq_false_iff_ne]
    intro isSpace
    simp [isTrailingComment, isSpace] at trailing
  have found : commentAhead (spaces ++ [closes, t]) = some (closes, [t]) := by
    rw [commentAhead, List.dropWhile_append_of_pos fun u member => by simp [isSpace u member],
      List.dropWhile_cons_of_neg (by simp [noSpace])]
    simp [trailing]
  rw [Over, found]
  exact List.forall_mem_singleton.2 (by rw [isTriviaToken, isBreak]; rfl)

theorem LineEnd.isOver {comment : Option Text} (ends : LineEnd comment tokens) : Over tokens := by
  cases ends with
  | plain isBreak => exact over_lineBreak isBreak
  | comment isSpace trailing isBreak =>
      exact over_comment (List.forall_mem_singleton.2 isSpace) trailing isBreak

/-- The count of an import stops where its line is over. -/
theorem LineEnd.count {closing : Tok} (eof : closing.kind = .eof) {comment : Option Text}
    (ends : LineEnd comment tokens) (read : Text) :
    ∃ spaces after, tokens = spaces ++ after ∧ importCount closing 0 read tokens = spaces.length ∧
      (∀ t ∈ spaces, isTriviaToken t = true) ∧ Over after := by
  cases ends with
  | @plain t isBreak =>
      have stops : importCount closing 0 read [t] = 0 := by
        simp [importCount, isBreak, importContinues, nextSignificant, isTriviaToken, Kind.isTrivia, eof,
          isNameToken]
      have nothing : ∀ t ∈ ([] : List Tok), isTriviaToken t = true := fun _ member => by cases member
      exact ⟨[], [t], rfl, stops, nothing, over_lineBreak isBreak⟩
  | @comment space closes t _ isSpace trailing isBreak =>
      have isComment : isCommentToken closes = true ∧ (closes.kind == .newline) = false := by
        rw [isTrailingComment, Bool.or_eq_true, Bool.and_eq_true, beq_iff_eq, beq_iff_eq] at trailing
        rcases trailing with kind | ⟨kind, -⟩ <;> simp [isCommentToken, Kind.isComment, kind]
      have stops : importCount closing 0 (read ++ space.text) [closes, t] = 0 := by
        simp [importCount, isComment]
      have unmarked : Unmarked space :=
        ⟨by simp [isSpace], by simp [isCommentToken, Kind.isComment, isSpace],
          fun mark _ => by simp [isSymbol, isSymbolToken, isSpace]⟩
      have counted : Counted closing 0 0 [space] space.text := unmarked.counted 0
      have goes := counted.passes read [closes, t]
      have covers : textOf [space] = space.text := List.append_nil _
      rw [covers, stops] at goes
      have blank : ∀ t ∈ [space], isTriviaToken t = true :=
        List.forall_mem_singleton.2 (by rw [isTriviaToken, isSpace]; rfl)
      have nothing : ∀ u ∈ ([] : List Tok), u.kind = .whitespace := fun _ member => by cases member
      exact ⟨[space], [closes, t], rfl, goes, blank, over_comment nothing trailing isBreak⟩

/-! ## The import that is read -/

/-- An import is read that is made from the line, perhaps with blanks behind it, and nothing
but a comment and blanks is left. -/
def ReadsLine (closing : Tok) (ts : List Tok) (line : Text) : Prop :=
  ∃ gap, Gap gap ∧ importAhead closing ts = Import.ofText (line ++ gap) ∧ Over (behindImport closing ts)

/-- The count takes the tokens `body`, which end visibly, and the blanks behind them. -/
theorem readsLine_of_count {closing : Tok} {body blanks after : List Tok} {last : Tok} {line gap : Text}
    (count : importCount closing 0 [] (body ++ (blanks ++ after)) = body.length + blanks.length)
    (covers : textOf body = line ++ gap) (blankGap : Gap gap) (ends : body.getLast? = some last)
    (visible : isTriviaToken last = false) (blank : ∀ t ∈ blanks, isTriviaToken t = true)
    (noComment : ∀ t ∈ body, isCommentToken t = false) (isOver : Over after) :
    ReadsLine closing (body ++ (blanks ++ after)) line := by
  have taken : importTokens closing (body ++ (blanks ++ after)) = body ++ blanks := by
    rw [importTokens, count, ← List.append_assoc, ← List.length_append, List.take_left]
  have left : behindImport closing (body ++ (blanks ++ after)) = after := by
    rw [behindImport, count, ← List.append_assoc, ← List.length_append, List.drop_left]
  have kept : dropEndWhile isTriviaToken (body ++ blanks) = body := by
    rw [dropEndWhile_append_of_all _ _ _ blank]
    refine dropEndWhile_eq_self fun t isLast => ?_
    rw [ends] at isLast
    cases isLast
    exact visible
  have plain : (body ++ blanks).any isCommentToken = false := by
    rw [List.any_eq_false]
    intro t member
    rcases List.mem_append.1 member with inBody | inBlanks
    · simp [noComment t inBody]
    · have kind := blank t inBlanks
      rw [isTriviaToken] at kind
      cases isKind : t.kind <;> simp_all [isCommentToken, Kind.isComment, Kind.isTrivia]
  obtain ⟨t, more, rfl⟩ : ∃ t more, body = t :: more := by
    cases body with
    | nil => cases ends
    | cons t more => exact ⟨t, more, rfl⟩
  refine ⟨gap, blankGap, ?_, by rw [left]; exact isOver⟩
  rw [importAhead, taken, kept, plain, ← covers]
  rfl

theorem isTriviaToken_of_string {t : Tok} (isString : t.kind = .string) : isTriviaToken t = false := by
  rw [isTriviaToken, isString]
  rfl

/-- A semicolon ends an import. -/
theorem TokensOf.semicolon {rest : Text} (of : TokensOf tokens (';' :: rest)) (closing : Tok) :
    ∃ t later, tokens = t :: later ∧ t.text = [';'] ∧ isTriviaToken t = false ∧ isCommentToken t = false ∧
      (∀ read, importCount closing 0 read (t :: later) = 1) ∧ TokensOf later rest := by
  have here : ∀ operandBefore, lexeme operandBefore ';' ([] ++ rest) = (.punctuator, ([] : Text).length) :=
    fun operandBefore => lexeme_of_isLone (isLone_of_mem (by simp)) operandBefore rest
  obtain ⟨t, later, rfl, isKind, spelled, behind⟩ := TokensOf.token of here
  refine ⟨t, later, rfl, spelled, by rw [isTriviaToken, isKind]; rfl, by rw [isCommentToken, isKind]; rfl,
    fun read => ?_, behind⟩
  simp [importCount, isCommentToken, Kind.isComment, isSymbol, isSymbolToken, isKind, spelled]

section

variable {s : Style} {heading path : Text} {comment : Option Text} {closing : Tok} {front later : List Tok}

/-- A path that takes the closing quote with it: the string runs to the end of the source. -/
theorem readsLine_of_open (counted : Counted closing 0 0 front heading)
    (inside : ∀ c ∈ path, isPathChar c = true) (escapes : escapesEnd path = true)
    (of : TokensOf later (s.options.quote :: (path ++ s.options.quote :: (s.terminator ++ ['\n'])))) :
    ReadsLine closing (front ++ later) (lineOf s heading path) := by
  have isQuote := isPathQuote_quote s.options
  have unquoted : ∀ c ∈ s.terminator ++ ['\n'], c ≠ s.options.quote ∧ c ≠ '\\' := by
    have marks : ∀ quote, isPathQuote quote = true → ∀ c ∈ [';', '\n'], c ≠ quote ∧ c ≠ '\\' := by
      intro quote isQuote
      rcases isPathQuote_iff.1 isQuote with rfl | rfl <;> exact forall_mem_of_all (by decide)
    refine fun c member => marks _ isQuote c ?_
    rw [Style.terminator] at member
    split at member
    · exact member
    · exact List.mem_cons_of_mem _ member
  have extent : stringExtent s.options.quote (path ++ s.options.quote :: (s.terminator ++ ['\n'])) =
      (path ++ s.options.quote :: (s.terminator ++ ['\n'])).length := by
    have last := quotable_of_forall unquoted []
    rw [List.append_nil, stringExtent, Nat.add_zero] at last
    rw [stringExtent_of_escapesEnd (fun c member => ne_of_isPathChar isQuote (inside c member)) escapes, last]
    simp only [List.length_append, List.length_cons]
    omega
  obtain ⟨t, later, rfl, isString, spelled, of⟩ := of.string isQuote
  rw [extent, List.take_length] at spelled
  rw [extent, List.drop_length] at of
  obtain rfl := of.eq_nil
  have first := counted.append ((unmarked_of_string isString).counted 0)
  have stops := first.passes [] []
  rw [importCount, Nat.add_zero] at stops
  have covers : textOf (front ++ [t]) = lineOf s heading path ++ ['\n'] := by
    rw [first.covers, spelled]
    simp [lineOf]
  have nothing : ∀ t ∈ ([] : List Tok), isTriviaToken t = true := fun _ member => by cases member
  exact (List.append_nil (front ++ [t])) ▸ readsLine_of_count stops covers (forall_mem_of_all (by decide))
    List.getLast?_concat (isTriviaToken_of_string isString) nothing first.noComment over_nil

/-- A path in closed quotes: the line ends where it is over. -/
theorem readsLine_of_closed (counted : Counted closing 0 0 front heading)
    (inside : ∀ c ∈ path, isPathChar c = true) (closed : escapesEnd path = false)
    (closable : ∀ text ∈ comment, LineComment text) (eof : closing.kind = .eof)
    (of : TokensOf later (s.options.quote :: (path ++ s.options.quote ::
      (s.terminator ++ (trail comment ++ ['\n']))))) :
    ReadsLine closing (front ++ later) (lineOf s heading path) := by
  have isQuote := isPathQuote_quote s.options
  have extent : stringExtent s.options.quote (path ++ s.options.quote ::
      (s.terminator ++ (trail comment ++ ['\n']))) = (path ++ [s.options.quote]).length := by
    have notBackslash : s.options.quote ≠ '\\' := by
      intro same
      rw [same] at isQuote
      cases isQuote
    rw [quotable_of_isPathChar isQuote inside closed, stringExtent_cons notBackslash, if_pos rfl]
    simp
  have regroup : path ++ s.options.quote :: (s.terminator ++ (trail comment ++ ['\n'])) =
      (path ++ [s.options.quote]) ++ (s.terminator ++ (trail comment ++ ['\n'])) := by simp
  obtain ⟨t, later, rfl, isString, spelled, of⟩ := of.string isQuote
  rw [extent, regroup, List.take_left] at spelled
  rw [extent, regroup, List.drop_left] at of
  have first := counted.append ((unmarked_of_string isString).counted 0)
  have covers : textOf (front ++ [t]) = heading ++ s.options.quote :: (path ++ [s.options.quote]) := by
    rw [first.covers, spelled]
  cases terminated : s.terminated with
  | true =>
      have semicolon : s.terminator = [';'] := by rw [Style.terminator, terminated]; rfl
      rw [semicolon] at of
      obtain ⟨u, after, rfl, ends, visible, noComment, stops, of⟩ := of.semicolon closing
      have count : importCount closing 0 [] ((front ++ [t] ++ [u]) ++ ([] ++ after)) =
          (front ++ [t] ++ [u]).length + ([] : List Tok).length := by
        have goes := first.passes [] (u :: after)
        rw [stops] at goes
        simpa using goes
      have coversAll : textOf (front ++ [t] ++ [u]) = lineOf s heading path ++ [] := by
        rw [textOf_append, covers, lineOf, semicolon, textOf_cons, ends]
        simp
      have noComments := List.forall_mem_append.2 ⟨first.noComment, List.forall_mem_singleton.2 noComment⟩
      have nothing : ∀ t ∈ ([] : List Tok), isTriviaToken t = true := fun _ member => by cases member
      have whole := readsLine_of_count count coversAll gap_nil List.getLast?_concat visible nothing noComments
        (of.lineEnd closable).isOver
      simpa using whole
  | false =>
      have nothing : s.terminator = [] := by rw [Style.terminator, terminated]; rfl
      rw [nothing] at of
      obtain ⟨spaces, after, rfl, stops, blank, isOver⟩ := (of.lineEnd closable).count eof
        (textOf (front ++ [t]))
      have count := first.passes [] (spaces ++ after)
      rw [List.nil_append, stops] at count
      have coversAll : textOf (front ++ [t]) = lineOf s heading path ++ [] := by
        rw [covers, lineOf, nothing, List.append_nil]
      have whole := readsLine_of_count count coversAll gap_nil List.getLast?_concat
        (isTriviaToken_of_string isString) blank first.noComment isOver
      simpa using whole

end

/-- **A printed line is read as one import.**  Whatever closes it, the text of the import that is
read is the line with blanks behind it, and nothing else is left of the source. -/
theorem readsLine_of_heading {s : Style} {rest path : Text} {comment : Option Text} {closing : Tok}
    (heading : Heading rest) (inside : ∀ c ∈ path, isPathChar c = true)
    (closable : ∀ text ∈ comment, LineComment text) (alone : escapesEnd path = true → comment = none)
    (eof : closing.kind = .eof)
    (of : TokensOf tokens (lineOf s ("import ".toList ++ rest) path ++ (trail comment ++ ['\n']))) :
    ReadsLine closing tokens (lineOf s ("import ".toList ++ rest) path) := by
  have isQuote := isPathQuote_quote s.options
  have word : Printed "import ".toList := forall_mem_of_all (by decide)
  have whole := heading.around word printed_nil
  rw [List.append_nil] at whole
  have split : lineOf s ("import ".toList ++ rest) path ++ (trail comment ++ ['\n']) =
      ("import ".toList ++ rest) ++ s.options.quote :: (path ++ s.options.quote ::
        (s.terminator ++ (trail comment ++ ['\n']))) := by
    simp [lineOf]
  rw [split] at of
  obtain ⟨front, later, rfl, counted, of⟩ := of.heading whole isQuote closing
  cases escapes : escapesEnd path with
  | true =>
      obtain rfl := alone escapes
      exact readsLine_of_open counted inside escapes of
  | false => exact readsLine_of_closed counted inside escapes closable eof of

/-! ## The import that was read -/

/-- How the forms are laid out around the path. -/
theorem Form.layout {text : Text} {i : Import} (form : Form text i) :
    ∃ front quote tail, text = front ++ quote :: (i.source ++ quote :: tail) ∧
      (∀ c ∈ front, isClauseChar c = true) ∧ isPathQuote quote = true ∧
      (∀ c ∈ i.source, isPathChar c = true) ∧ Tail tail := by
  have ofGap : ∀ {gap : Text}, Gap gap → ∀ c ∈ gap, isClauseChar c = true := fun blank c member =>
    isClauseChar_of_isSpecifierChar (isSpecifierChar_of_gap blank c member)
  have importing : ∀ c ∈ "import".toList, isClauseChar c = true := forall_mem_of_all (by decide)
  have leading : ∀ c ∈ "from".toList, isClauseChar c = true := forall_mem_of_all (by decide)
  cases form with
  | @bare raw path gap text blank pathEnd =>
      obtain ⟨quote, tail, rfl, isQuote, inside, isTail⟩ := pathEnd.exists_tail
      exact ⟨"import".toList ++ gap, quote, tail, by simp [Import.ofParts],
        List.forall_mem_append.2 ⟨importing, ofGap blank⟩, isQuote, inside, isTail⟩
  | @clause raw path gap clause before after text comma first names namespaceName blank filled isClause
      trimmed notType blankBefore noWord blankAfter pathEnd =>
      obtain ⟨quote, tail, rfl, isQuote, inside, isTail⟩ := pathEnd.exists_tail
      refine ⟨"import".toList ++ (gap ++ (clause ++ (before ++ ("from".toList ++ after)))), quote, tail,
        by simp [Import.ofParts], ?_, isQuote, inside, isTail⟩
      simp only [List.forall_mem_append]
      exact ⟨importing, ofGap blank, isClause.chars, ofGap blankBefore, leading, ofGap blankAfter⟩

theorem isPassed_of_isClauseChar {c : Char} (inside : isClauseChar c = true) :
    isPassed '(' ')' c = true ∧ c ≠ '/' := by
  have other : ∀ {d : Char}, isClauseChar d = false → c ≠ d := by
    rintro d fails rfl
    rw [inside] at fails
    cases fails
  simp [isPassed, opensLiteral, other (d := '(') (by decide), other (d := ')') (by decide),
    other (d := '\x22') (by decide), other (d := '\x27') (by decide),
    other (d := '\x60') (by decide), other (d := '/') (by decide)]

/-- Behind a path there is nothing that a string would mind. -/
theorem Tail.plain {tail right : Text} (isTail : Tail tail) (blankRight : Gap right) {quote : Char}
    (isQuote : isPathQuote quote = true) : Quotable quote (tail ++ right) := by
  have quotable : ∀ {text : Text}, (∀ c ∈ text, isBlank c = true ∨ c = ';') → Quotable quote text := by
    intro text chars
    refine quotable_of_forall fun c member => ?_
    have marks : ∀ mark ∈ ['\x22', '\x27', '\\'], isBlank mark = false ∧ mark ≠ ';' :=
      forall_mem_of_all (by decide)
    have other : ∀ mark ∈ ['\x22', '\x27', '\\'], c ≠ mark := by
      rintro mark isMark rfl
      have fails := marks c isMark
      rcases chars c member with blank | isSemicolon
      · rw [fails.1] at blank
        cases blank
      · exact fails.2 isSemicolon
    refine ⟨other quote ?_, other _ (by decide)⟩
    rcases isPathQuote_iff.1 isQuote with rfl | rfl <;> decide
  refine (quotable ?_).append (quotable fun c member => .inl (blankRight c member))
  cases isTail with
  | blank blank => exact fun c member => .inl (blank c member)
  | semicolon blank blankAfter =>
      exact List.forall_mem_append.2 ⟨fun c member => .inl (blank c member),
        List.forall_mem_cons.2 ⟨.inr rfl, fun c member => .inl (blankAfter c member)⟩⟩

/-- A string that takes its closing quote with it runs to the end of the source; so where tokens
end with what is behind it, they are all there are. -/
theorem TokensOf.eq_nil_of_open {kept later : List Tok} {text front path ending : Text} {quote : Char}
    (of : TokensOf (kept ++ later) text)
    (covers : textOf kept = front ++ quote :: (path ++ quote :: ending))
    (clauseChars : ∀ c ∈ front, isClauseChar c = true) (isQuote : isPathQuote quote = true)
    (inside : ∀ c ∈ path, isPathChar c = true) (escapes : escapesEnd path = true)
    (quotable : Quotable quote ending) : later = [] := by
  have whole : text = front ++ quote :: (path ++ quote :: (ending ++ textOf later)) := by
    rw [← of.textOf_eq, textOf_append, covers]
    simp
  have stops : isPassed '(' ')' quote = false := by
    rcases isPathQuote_iff.1 isQuote with rfl | rfl <;> decide
  have extent : stringExtent quote (path ++ quote :: (ending ++ textOf later)) =
      path.length + 1 + (ending.length + stringExtent quote (textOf later)) := by
    rw [stringExtent_of_escapesEnd (fun c member => ne_of_isPathChar isQuote (inside c member)) escapes,
      quotable]
  rw [whole] at of
  obtain ⟨before, behind, split, coversFront, ofBehind⟩ := of.cut (.inl ⟨rfl, rfl⟩)
    (fun c member => (isPassed_of_isClauseChar (clauseChars c member)).1)
    (fun member => (isPassed_of_isClauseChar (clauseChars _ member)).2 rfl) stops
  obtain ⟨t, more, rfl, -, spelled, -⟩ := ofBehind.string isQuote
  have lengths := congrArg List.length covers
  have reached : stringExtent quote (textOf later) = 0 := by
    rcases List.append_eq_append_iff.1 split with ⟨between, rfl, -⟩ | ⟨between, rfl, rest⟩
    · have long := congrArg List.length coversFront
      simp only [textOf_append, List.length_append, List.length_cons] at lengths long
      omega
    · cases between with
      | nil =>
          rw [List.append_nil, coversFront] at lengths
          simp only [List.length_append, List.length_cons] at lengths
          omega
      | cons u between =>
          obtain ⟨rfl, -⟩ := List.cons.inj rest
          have fits := stringExtent_le quote (path ++ quote :: (ending ++ textOf later))
          rw [extent] at spelled fits
          rw [textOf_append, textOf_cons, coversFront, spelled] at lengths
          simp only [List.length_append, List.length_cons, List.length_take] at lengths fits
          omega
  have empty : textOf later = [] := by
    by_contra filled
    exact Nat.ne_of_gt (stringExtent_pos filled) reached
  have left := of.suffix (List.suffix_append kept later)
  rw [empty] at left
  exact left.eq_nil

/-- If the path of an import takes the closing quote with it, the import is the end of the
source. -/
theorem behindImport_eq_nil {closing : Tok} (eof : closing.kind = .eof) {text : Text}
    (of : TokensOf tokens text) (word : isWordOf ["import"] (ahead closing tokens) = true)
    (structured : (importAhead closing tokens).structured = true)
    (escapes : escapesEnd (importAhead closing tokens).source = true) :
    behindImport closing tokens = [] := by
  obtain ⟨t, left, rfl, isImport⟩ := exists_cons_of_ahead eof isWordOf_of_eof word
  obtain ⟨kept, blanks, taken, -, isRaw⟩ := @exists_rawTokens closing t left
    (isNameToken_of_isWordOf isImport)
  have whole : t :: left = kept ++ (blanks ++ behindImport closing (t :: left)) := by
    rw [← List.append_assoc, ← taken]
    exact (List.take_append_drop _ _).symm
  obtain ⟨front, quote, tail, spelled, clauseChars, isQuote, inside, isTail⟩ :=
    (form_of_importAhead structured).layout
  obtain ⟨blankLeft, blankRight, around, isGapLeft, isGapRight⟩ :=
    exists_trim_append (importAhead closing (t :: left)).raw
  have covers : textOf kept = (blankLeft ++ front) ++ quote ::
      ((importAhead closing (t :: left)).source ++ quote :: (tail ++ blankRight)) := by
    rw [← isRaw, around, spelled]
    simp
  have chars : ∀ c ∈ blankLeft ++ front, isClauseChar c = true :=
    List.forall_mem_append.2 ⟨fun c member => isClauseChar_of_isSpecifierChar
      (isSpecifierChar_of_gap isGapLeft c member), clauseChars⟩
  rw [whole] at of
  exact (List.append_eq_nil_iff.1 (of.eq_nil_of_open covers chars isQuote inside escapes
    (isTail.plain isGapRight isQuote))).2

/-! ## There and back -/

theorem LineComment.ne_nil {text : Text} (isComment : LineComment text) : text ≠ [] := by
  cases isComment <;> exact List.cons_ne_nil _ _

/-- A document of one import is one line. -/
theorem printDocument_import {s : Style} (eol : s.options.eol = ['\n']) {around : Surroundings} {i : Import}
    {line : Text} (printed : i.print s 0 = [line])
    (closable : ∀ text ∈ around.trailingComment, LineComment text) :
    printDocument s [.importDecl around i] = .ok (line ++ (trail around.trailingComment ++ ['\n'])) := by
  have lines : withTrailingComment (.importDecl around i) [line] = [line ++ trail around.trailingComment] := by
    have own : (Node.importDecl around i).around = around := rfl
    rw [withTrailingComment, own]
    cases comment : around.trailingComment with
    | none => simp [trail]
    | some text =>
        have filled := (closable text comment).ne_nil
        cases text with
        | nil => exact absurd rfl filled
        | cons c text => rfl
  have whole : printSequence (fun a b => a.topKind.separated b.topKind) (printTopLevel s 0) none
      [.importDecl around i] = .ok [line ++ trail around.trailingComment] := by
    rw [← lines, ← printed]
    exact congrArg Except.ok (List.append_nil _)
  rw [printDocument, whole, eol]
  exact congrArg Except.ok (List.append_assoc _ _ _)

/-- The word that a printed line opens with. -/
theorem exists_importToken {s : Style} {rest path later : Text}
    (of : TokensOf tokens (lineOf s ("import ".toList ++ rest) path ++ later)) :
    ∃ t left, tokens = t :: left ∧ isWordOf ["import"] t = true := by
  obtain ⟨behind, spelled⟩ : ∃ behind, lineOf s ("import ".toList ++ rest) path ++ later =
      'i' :: ("mport".toList ++ (' ' :: behind)) :=
    ⟨_, by rw [lineOf, List.append_assoc, List.append_assoc]; rfl⟩
  have here : ∀ operandBefore, lexeme operandBefore 'i' ("mport".toList ++ (' ' :: behind)) =
      (.keyword, "mport".toList.length) :=
    fun operandBefore => rfl
  rw [spelled] at of
  obtain ⟨t, left, split, isKind, opens, -⟩ := TokensOf.token of here
  exact ⟨t, left, split, by rw [isWordOf, isNameToken, isKind, opens]; rfl⟩

/-- **Imports go there and back.**  An import that the parser takes apart, formatted as a document
of its own with any quote, spacing and semicolons, is read again as one import with the same
parts, unless the comment behind it is a block comment that is never closed. -/
theorem parse_formatDocument_import {source : Text} {around : Surroundings} {i : Import}
    (member : .importDecl around i ∈ (parse source).1.children) (structured : i.structured = true)
    (closed : ∀ comment ∈ around.trailingComment, isClosedComment comment = true)
    {o : Options} (eol : o.eol = ['\n']) (habit : Text) :
    ∃ text, formatDocument o habit [.importDecl around i] = .ok text ∧
      ∃ around' again, (parse text).1.children = [.importDecl around' again] ∧ again.structured = true ∧
        again.source = i.source ∧ again.defaultName = i.defaultName ∧ again.names = i.names ∧
        again.namespaceName = i.namespaceName := by
  obtain ⟨ts, suffix, word, rfl, trailing⟩ := exists_importRead member
  have of := (tokensOf_lexemes source).suffix suffix
  have closable : ∀ text ∈ around.trailingComment, LineComment text := by
    intro text isTrailing
    have found := closed text isTrailing
    rw [trailing] at isTrailing
    obtain ⟨⟨t, left⟩, comes, rfl⟩ := Option.map_eq_some_iff.1 isTrailing
    obtain ⟨inside, isComment⟩ := mem_of_commentAhead comes
    exact of.lineComment (List.mem_of_mem_drop inside) isComment found
  have form := form_of_importAhead structured
  have alone : escapesEnd (importAhead (endToken source) ts).source = true → around.trailingComment = none := by
    intro escapes
    rw [trailing, behindImport_eq_nil rfl of word structured escapes]
    rfl
  obtain ⟨-, -, -, -, -, -, inside, -⟩ := form.layout
  generalize importAhead (endToken source) ts = i at *
  let style : Style :=
    { options := o, terminated := o.semicolons.getD (Safety.infersSemicolons Safety.defaultThreshold habit) }
  obtain ⟨rest, printed, heading, back⟩ := ofText_printed style form
  let line := lineOf style ("import ".toList ++ rest) i.source
  let text := line ++ (trail around.trailingComment ++ ['\n'])
  have ofText : TokensOf (lexemes text) text := tokensOf_lexemes text
  have eof : (endToken text).kind = .eof := rfl
  obtain ⟨gap, blank, isAhead, isOver⟩ := readsLine_of_heading heading inside closable alone eof ofText
  obtain ⟨t, left, next, isImport⟩ := exists_importToken ofText
  obtain ⟨around', children⟩ := children_of_import next isImport isOver
  refine ⟨text, printDocument_import eol printed closable, around', _, children, ?_⟩
  rw [isAhead, back gap blank]
  exact ⟨structured, rfl, rfl, rfl, rfl⟩

/-- What surrounds an import, and the import. -/
def Node.import? : Node → Option (Surroundings × Import)
  | .importDecl around i => some (around, i)
  | _ => none

theorem mem_of_import? {nodes : List Node} {around : Surroundings} {i : Import}
    (found : some (around, i) ∈ nodes.map Node.import?) : .importDecl around i ∈ nodes := by
  obtain ⟨n, isNode, same⟩ := List.mem_map.1 found
  cases n <;> cases same
  exact isNode

/-- A default name that is a keyword, a name renamed to another, an empty entry, a path that
escapes what is in it, and comments on both sides. -/
def oddImport : Text :=
  "/* a */ import type, \x7bb  as from,,\n $c \x7d \nfrom \x22./x\\\\from\x22 /* d */;".toList

/-- What is read of it. -/
def oddParts : Surroundings × Import :=
  ({ trailingComment := some "/* d */".toList, span := some { start := 8, stop := 59, line := 1, column := 9 } },
    { raw := (oddImport.drop 8).take 50, source := "./x\\\\from".toList, defaultName := some "type".toList,
      names := some ["b as from".toList, "$c".toList], structured := true })

theorem parse_formatDocument_oddImport :
    .importDecl oddParts.1 oddParts.2 ∈ (parse oddImport).1.children ∧ oddParts.2.structured = true ∧
      (∀ comment ∈ oddParts.1.trailingComment, isClosedComment comment = true) ∧
      ∀ o : Options, o.eol = ['\n'] → ∀ habit,
        ∃ text, formatDocument o habit [.importDecl oddParts.1 oddParts.2] = .ok text ∧
          ∃ around again, (parse text).1.children = [.importDecl around again] ∧ again.structured = true ∧
            again.source = oddParts.2.source ∧ again.defaultName = oddParts.2.defaultName ∧
            again.names = oddParts.2.names ∧ again.namespaceName = oddParts.2.namespaceName := by
  have parts : some oddParts ∈ (parse oddImport).1.children.map Node.import? := by
    rw [oddParts, show oddImport = _ from String.toList_ofList]
    decide +kernel
  have closed : ∀ comment ∈ oddParts.1.trailingComment, isClosedComment comment = true := by decide
  exact ⟨mem_of_import? parts, rfl, closed, fun o eol habit =>
    parse_formatDocument_import (mem_of_import? parts) rfl closed eol habit⟩

/-- An import with a comment behind it that is never closed. -/
def openComment : Text :=
  "import 'x' /* abc".toList

/-- What is read of it. -/
def openParts : Surroundings × Import :=
  ({ trailingComment := some "/* abc".toList, span := some { start := 0, stop := 11, line := 1, column := 1 } },
    { raw := "import 'x'".toList, source := ['x'], structured := true })

/-- The line break that is printed goes into the comment, which closes no line then and is read
as a node of its own. -/
theorem parse_formatDocument_openComment :
    .importDecl openParts.1 openParts.2 ∈ (parse openComment).1.children ∧ openParts.2.structured = true ∧
      formatDocument {} openComment [.importDecl openParts.1 openParts.2] = .ok (openComment ++ ['\n']) ∧
      ¬ ∃ around again, (parse (openComment ++ ['\n'])).1.children = [.importDecl around again] := by
  obtain ⟨parts, two⟩ : some openParts ∈ (parse openComment).1.children.map Node.import? ∧
      (parse (openComment ++ ['\n'])).1.children.length = 2 := by
    rw [show openComment = _ from String.toList_ofList]
    decide +kernel
  refine ⟨mem_of_import? parts, rfl, rfl, ?_⟩
  rintro ⟨around, again, single⟩
  rw [single] at two
  cases two

end UiFormat.Ets

/-
# UiFormat.Proofs.Ets.LineAgreement -- the line scanner agrees with the lexer

Two scanners look for brackets outside literals and comments: the lexer goes over the whole
text with one loop for each kind of token, the line scanner goes over one line after the
other and carries what is open.  They agree on every text whose tokens a scan by lines can
follow (`isLinear`): no regular expression, no string that holds a line break, and no
template literal with a quote, a slash or a backslash inside.

The line scanner is first made to pass over the whole text (`trace`).  From a state in which
nothing is open, every token takes it to such a state again, and what it shows on the way
is known from the token alone (`followed_lexeme`): a bracket if the token is one, and the
starts of lines inside the token (`tokenItems`).  So a whole run shows what the tokens show
(`trace_tokensFrom`), and tokens tile the text, so each line start lies inside one of them
only.

Main statement: `linesAgree_of_linear`.
-/
import UiFormat.Proofs.Ets.LinePassing
import UiFormat.Proofs.Ets.Tiling

namespace UiFormat.Ets

open UiFormat.Text
open UiFormat.Parse
open UiFormat.Layout

set_option autoImplicit false

/-! ## Tokens -/

/-- From a state in which nothing is open, a token leads to such a state again and shows what
is known from its kind and text. -/
def Followed (token : Kind × Nat) (c : Char) (rest : Text) : Prop :=
  ∀ doc place, ∃ later, trace (idle doc) place (c :: rest) =
    tokenItems token.1 place (c :: rest.take token.2) ++
      trace (idle later) (place + (c :: rest.take token.2).length) (rest.drop token.2)

theorem followed_of_passes {kind : Kind} {n : Nat} {c : Char} {rest : Text}
    (silent : bracket? kind (c :: rest.take n) = none)
    (passes : ∀ doc, ∃ later, Passes (idle doc) kind.setting (n + 1) (idle later) (c :: rest)) :
    Followed (kind, n) c rest := by
  intro doc place
  obtain ⟨later, passed⟩ := passes doc
  refine ⟨later, ?_⟩
  rw [passed place, tokenItems, silent]
  rfl

theorem followed_inert {kind : Kind} {n : Nat} {c : Char} {rest : Text}
    (silent : bracket? kind (c :: rest.take n) = none) (inert : isInert c = true)
    (behind : ∀ d ∈ rest.take n, isInert d = true) : Followed (kind, n) c rest :=
  followed_of_passes silent fun doc =>
    ⟨doc, passes_inert doc kind.setting (List.forall_mem_cons.2 ⟨inert, behind⟩)⟩

theorem isInert_of_isPlain {c : Char} (plain : isPlain c = true) : isInert c = true := by
  rw [isInert, plain, Bool.true_or]

theorem followed_comment {rest : Text} (marked : startsWith rest ['/'] = true) :
    Followed (.comment, runLength (!isBreak ·) rest) '/' rest := by
  refine followed_of_passes rfl fun doc => ⟨doc, fun place => ?_⟩
  have ends : step (idle doc) '/' (rest.takeWhile (!isBreak ·)) = none := by
    have sees : startsWith (rest.takeWhile (!isBreak ·)) ['/'] = startsWith rest ['/'] :=
      startsWith_takeWhile (by simp [BreakFree, isBreak]) rest
    simp [step, idle, sees, marked]
  have line : (('/' :: rest).take (runLength (!isBreak ·) rest + 1)) =
      '/' :: rest.takeWhile (!isBreak ·) := by
    rw [List.take_succ_cons, take_runLength]
  have plain : BreakFree ('/' :: rest.takeWhile (!isBreak ·)) :=
    List.forall_mem_cons.2 ⟨by decide, breakFree_takeWhile rest⟩
  rw [line, crossings_of_breakFree plain, trace_of_none (by decide) ends]
  rfl

theorem followed_blockComment {rest : Text} {kind : Kind} (marked : startsWith rest ['*'] = true)
    (isKind : kind = if startsWith rest "**".toList && !startsWith rest "**/".toList then .docComment
      else .blockComment) :
    Followed (kind, lengthThrough "*/".toList (rest.drop 1) + 1) '/' rest := by
  obtain ⟨inside, rfl⟩ := List.isPrefixOf_iff_prefix.1 marked
  rw [List.singleton_append] at isKind ⊢
  generalize isDoc : (startsWith ('*' :: inside) "**".toList &&
    !startsWith ('*' :: inside) "**/".toList) = doc at isKind
  have sees : ∀ mark, BreakFree mark →
      startsWith (('*' :: inside).takeWhile (!isBreak ·)) mark = startsWith ('*' :: inside) mark :=
    fun mark plain => startsWith_takeWhile plain _
  refine followed_of_passes ?_ fun old => ⟨doc, ?_⟩
  · subst isKind
    cases doc <;> rfl
  · have opens : step (idle old) '/' (('*' :: inside).takeWhile (!isBreak ·)) =
        some (openComment (idle old) (('*' :: inside).takeWhile (!isBreak ·))) := by
      have noLine : startsWith (('*' :: inside).takeWhile (!isBreak ·)) ['/'] = false :=
        sees ['/'] (by simp [BreakFree, isBreak])
      have block : startsWith (('*' :: inside).takeWhile (!isBreak ·)) ['*'] = true :=
        sees ['*'] (by simp [BreakFree, isBreak])
      simp [step, idle, noLine, block]
    have state : (openComment (idle old) (('*' :: inside).takeWhile (!isBreak ·))).state =
        { templates := [], inComment := true, docComment := doc } := by
      rw [openComment, sees _ (by simp [BreakFree, isBreak]), sees _ (by simp [BreakFree, isBreak]),
        isDoc]
      rfl
    have setting : kind.setting = ⟨false, true, doc⟩ := by
      subst isKind
      cases doc <;> rfl
    rw [setting]
    refine Passes.cons_cons ?_ (by decide) (by decide) opens rfl rfl
    rw [state]
    exact passes_comment rfl inside

theorem followed_string {quote : Char} {rest : Text} (isQuote : quote = '\x22' ∨ quote = '\x27')
    (plain : BreakFree (rest.take (stringExtent quote rest))) :
    Followed (.string, stringExtent quote rest) quote rest := by
  refine followed_of_passes rfl fun doc => ⟨doc, ?_⟩
  have goes : step (idle doc) quote (rest.takeWhile (!isBreak ·)) =
      some (.shows (idle doc) .code (stringExtent quote (rest.takeWhile (!isBreak ·)))) := by
    rcases isQuote with rfl | rfl <;> rfl
  have plainQuote : isBreak quote = false := by
    rcases isQuote with rfl | rfl <;> decide
  have reach : min (stringExtent quote (rest.takeWhile (!isBreak ·)))
      (rest.takeWhile (!isBreak ·)).length = stringExtent quote rest := by
    generalize extent : stringExtent quote rest = n at plain
    have short : (rest.take n).length = n := by
      rw [List.length_take, ← extent]
      exact Nat.min_eq_left (stringExtent_le quote rest)
    have line : rest.takeWhile (!isBreak ·) = rest.take n ++ (rest.drop n).takeWhile (!isBreak ·) := by
      conv_lhs => rw [← List.take_append_drop n rest]
      exact List.takeWhile_append_of_pos fun c member => by simpa using plain c member
    have same : stringExtent quote (rest.takeWhile (!isBreak ·)) = n := by
      by_cases last : rest.drop n = []
      · have whole := List.take_append_drop n rest
        rw [last, List.append_nil] at whole
        rw [line, last, List.takeWhile_nil, List.append_nil, whole, extent]
      · have closed := stringExtent_append (by rw [List.take_append_drop, extent, short]) last
          ((rest.drop n).takeWhile (!isBreak ·))
        rw [line, closed, short]
    rw [same, line, List.length_append, short]
    omega
  exact Passes.none.jump (List.forall_mem_cons.2 ⟨plainQuote, plain⟩) goes reach rfl

theorem followed_template {rest : Text}
    (smooth : ∀ c ∈ unclosed (rest.take (templateExtent 0 rest)), isSnag c = false) :
    Followed (.template, templateExtent 0 rest) '\x60' rest := by
  refine followed_of_passes rfl fun doc => ⟨doc, ?_⟩
  have opens : step (idle doc) '\x60' (rest.takeWhile (!isBreak ·)) =
      some (.shows (inTemplate 0 doc) .code 0) := rfl
  exact (passes_template 0 doc rest smooth).cons (by decide) opens rfl rfl

/-- A symbol is the bracket that its first character is. -/
theorem bracket?_symbol (c : Char) (rest : Text) :
    (bracket? (symbol c rest).1 (c :: rest.take (symbol c rest).2)).toList.map Item.bracket =
      if isOpener c || isCloser c then [.bracket c] else [] := by
  fun_cases symbol c rest with
  | case1 op found =>
      have table : ∀ op ∈ operators, (op.toList.head?.all fun d => !(isOpener d || isCloser d)) = true ∧
          op.toList ≠ [] := by decide
      obtain ⟨first, filled⟩ := table op (List.mem_of_find?_eq_some found)
      have stands : startsWith (c :: rest) op.toList = true := by
        simpa using List.find?_some found
      obtain ⟨later, split⟩ := List.isPrefixOf_iff_prefix.1 stands
      obtain ⟨d, others, spelled⟩ := List.exists_cons_of_ne_nil filled
      rw [spelled] at split first
      obtain ⟨rfl, -⟩ := List.cons.inj split
      rw [if_neg (by simpa using first)]
      rfl
  | case2 none =>
      dsimp only
      by_cases spread : startsWith (c :: rest) "...".toList = true
      · obtain ⟨later, split⟩ := List.isPrefixOf_iff_prefix.1 spread
        obtain ⟨rfl, rfl⟩ := List.cons.inj split
        rw [if_pos spread]
        rfl
      · rw [if_neg spread, List.take_zero, bracket?]
        split
        · rfl
        · rfl

theorem followed_symbol {c : Char} {rest : Text} (plain : isBreak c = false)
    (noSlash : c = '/' → startsWith rest ['/'] = false ∧ startsWith rest ['*'] = false)
    (noQuote : c ≠ '\x22' ∧ c ≠ '\x27' ∧ c ≠ '\x60') : Followed (symbol c rest) c rest := by
  have sees : ∀ d, isBreak d = false →
      startsWith (rest.takeWhile (!isBreak ·)) [d] = startsWith rest [d] := fun d isPlain =>
    startsWith_takeWhile (by simpa [BreakFree] using isPlain) rest
  intro doc place
  refine ⟨doc, ?_⟩
  obtain ⟨mark, goes, shows⟩ := step_idle doc (rest.takeWhile (!isBreak ·))
    (fun isSlash => by rw [sees '/' rfl, sees '*' rfl]; exact noSlash isSlash) noQuote
  have behind := passes_inert doc (symbol c rest).1.setting
    fun d member => isInert_of_isPlain (plain_symbol c rest d member)
  have alone : BreakFree [c] := by simpa [BreakFree] using plain
  rw [trace_of_some plain goes, shows, ← bracket?_symbol c rest]
  simp only [Nat.zero_min, Nat.zero_add, List.drop_zero]
  rw [behind, tokenItems, ← List.singleton_append, crossings_append_of_breakFree alone,
    List.append_assoc, List.length_append, Nat.add_assoc]
  rfl

theorem followed_newline {c : Char} {rest later : Text} (eol : Text) (isEol : IsTerminator eol)
    (apart : eol = ['\r'] → later.head? ≠ some '\n') (split : c :: rest = eol ++ later) :
    Followed (.newline, eol.length - 1) c rest := by
  refine followed_of_passes rfl fun doc => ⟨doc, ?_⟩
  have some := length_pos_of_terminator isEol
  have passes : Passes (idle doc) Kind.newline.setting (eol.length + 0) (idle doc) (eol ++ later) :=
    Passes.none.terminator isEol apart rfl
  rwa [Nat.sub_add_cancel some, split]

theorem followed_slash {operandBefore : Bool} {rest : Text}
    (noComment : startsWith rest ['/'] = false ∧ startsWith rest ['*'] = false)
    (linear : isLinear (slash operandBefore rest).1
      ('/' :: rest.take (slash operandBefore rest).2) = true) :
    Followed (slash operandBefore rest) '/' rest := by
  revert linear
  fun_cases slash operandBefore rest with
  | case1 extent isRegexp => exact fun impossible => by cases impossible
  | case2 noRegexp => exact fun _ => followed_symbol (by decide) (fun _ => noComment) (by decide)

/-- One token. -/
theorem followed_lexeme (operandBefore : Bool) (c : Char) (rest : Text)
    (linear : isLinear (lexeme operandBefore c rest).1
      (c :: rest.take (lexeme operandBefore c rest).2) = true) :
    Followed (lexeme operandBefore c rest) c rest := by
  revert linear
  fun_cases lexeme operandBefore c rest with
  | case1 isFeed =>
      intro _
      subst isFeed
      exact followed_newline ['\n'] (.inl rfl) (by simp) rfl
  | case2 _ isReturn =>
      intro _
      subst isReturn
      split
      · rename_i pair
        obtain ⟨later, rfl⟩ := List.isPrefixOf_iff_prefix.1 pair
        exact followed_newline ['\r', '\n'] (.inr (.inl rfl)) (by simp) rfl
      · rename_i lone
        refine followed_newline ['\r'] (.inr (.inr rfl)) (fun _ first => lone ?_) rfl
        obtain ⟨later, rfl⟩ := List.head?_eq_some_iff.1 first
        rfl
  | case3 notFeed notReturn blank =>
      intro _
      refine followed_inert rfl ?_ fun d member => ?_
      · rw [isInert, blank, Bool.or_true]
      · rw [take_runLength] at member
        rw [isInert, List.mem_takeWhile_imp member, Bool.or_true]
  | case4 _ _ _ marked =>
      intro _
      rw [Bool.and_eq_true, decide_eq_true_iff] at marked
      obtain ⟨rfl, marked⟩ := marked
      exact followed_comment marked
  | case5 _ _ _ _ marked isDoc =>
      intro _
      rw [Bool.and_eq_true, decide_eq_true_iff] at marked
      obtain ⟨rfl, marked⟩ := marked
      exact followed_blockComment marked rfl
  | case6 _ _ _ _ _ isMark =>
      intro _
      subst isMark
      refine followed_inert rfl (by decide) fun d member => ?_
      rw [take_runLength] at member
      exact isInert_of_isPlain (plain_takeWhile_isIdentChar rest d member)
  | case7 _ _ _ _ _ _ isQuote =>
      intro linear
      have noBreak : ∀ d ∈ c :: rest.take (stringExtent c rest), isBreak d = false := by
        simpa [isLinear] using linear
      exact followed_string (by simpa using isQuote) fun d member =>
        noBreak d (List.mem_cons_of_mem c member)
  | case8 _ _ _ _ _ _ _ isBack =>
      intro linear
      subst isBack
      have smooth : ∀ d ∈ interior ('\x60' :: rest.take (templateExtent 0 rest)), isSnag d = false := by
        simpa [isLinear] using linear
      exact followed_template smooth
  | case9 _ _ _ _ _ _ _ _ isNumber =>
      intro _
      have inNumber : isNumberChar c = true := by
        rw [Bool.or_eq_true, Bool.and_eq_true, decide_eq_true_iff] at isNumber
        rcases isNumber with digit | ⟨rfl, -⟩
        · exact isNumberChar_of_isDigit digit
        · decide
      have plain : isPlain c = true :=
        plain_of (p := isNumberChar) (forall_mem_of_all (by decide)) inNumber
      exact followed_inert rfl (isInert_of_isPlain plain) fun d member =>
        isInert_of_isPlain (plain_numberExtent c rest d member)
  | case10 _ _ _ _ _ _ _ _ _ isName extra =>
      intro _
      have plain : isPlain c = true :=
        plain_of (p := isIdentStart) (forall_mem_of_all (by decide)) isName
      refine followed_inert ?_ (isInert_of_isPlain plain) fun d member => ?_
      · split
        · rfl
        · rfl
      · rw [take_runLength] at member
        exact isInert_of_isPlain (plain_takeWhile_isIdentChar rest d member)
  | case11 _ _ _ noLine noBlock _ _ _ _ _ isSlash =>
      intro linear
      subst isSlash
      exact followed_slash ⟨by simpa using noLine, by simpa using noBlock⟩ linear
  | case12 notFeed notReturn _ _ _ _ notQuote notBack _ _ notSlash =>
      intro _
      have plain : isBreak c = false := by simp [isBreak, notFeed, notReturn]
      have quotes : c ≠ '\x22' ∧ c ≠ '\x27' := by simpa using notQuote
      exact followed_symbol plain (fun isSlash => absurd isSlash notSlash)
        ⟨quotes.1, quotes.2, notBack⟩

/-- All tokens: what a scan by lines shows of a text is what its tokens show. -/
theorem trace_tokensFrom (p : Position) (operandBefore : Bool) (text : Text)
    (linear : ∀ t ∈ tokensFrom p operandBefore text, isLinear t.kind t.text = true) (doc : Bool) :
    trace (idle doc) p.offset text =
      (tokensFrom p operandBefore text).flatMap fun t => tokenItems t.kind t.start t.text := by
  fun_induction tokensFrom p operandBefore text generalizing doc with
  | case1 p operandBefore => exact trace_nil _ _
  | case2 p operandBefore c rest kind extra here text operand ih =>
      rw [List.forall_mem_cons] at linear
      obtain ⟨later, follows⟩ := followed_lexeme operandBefore c rest (by rw [here]; exact linear.1)
        doc p.offset
      rw [here] at follows
      rw [follows, List.flatMap_cons, ← ih linear.2 later, offset_pastLines]
      rfl

/-! ## Agreement -/

/-- The token is a brace, a bracket or a parenthesis. -/
def isBracketToken (t : Tok) : Bool :=
  t.kind == .punctuator && isOneOf ["\x7b", "\x7d", "[", "]", "(", ")"] t.text

/-- The place lies behind the first character of the token and not behind its last. -/
def Covers (t : Tok) (place : Nat) : Prop :=
  t.start < place ∧ place ≤ t.stop

/-- The line scanner and the lexer agree on a text.  The lines stand at the given starts and
each is scanned; the brackets of all lines are the bracket tokens in order; and a line starts
inside a template literal, a block comment or a doc comment exactly where a token of that
kind covers its start. -/
structure LinesAgree (text : Text) : Prop where
  starts : (lineStarts text).length = (lines text).length ∧
    ∀ start line, (start, line) ∈ (lineStarts text).zip (lines text) → line <+: text.drop start
  scans : (scanLines .start (lines text)).length = (lines text).length
  events : (scanLines .start (lines text)).flatMap (fun scan => scan.events.map ([·])) =
    ((tokenize text).filter isBracketToken).map (·.text)
  template : ∀ start scan, (start, scan) ∈ (lineStarts text).zip (scanLines .start (lines text)) →
    (scan.startsInTemplate = true ↔ ∃ t ∈ tokenize text, t.kind = .template ∧ Covers t start)
  comment : ∀ start scan, (start, scan) ∈ (lineStarts text).zip (scanLines .start (lines text)) →
    (scan.startsInComment = true ↔
      ∃ t ∈ tokenize text, (t.kind = .blockComment ∨ t.kind = .docComment) ∧ Covers t start)
  doc : ∀ start scan, (start, scan) ∈ (lineStarts text).zip (scanLines .start (lines text)) →
    scan.startsInComment = true →
      (scan.commentIsDoc = true ↔ ∃ t ∈ tokenize text, t.kind = .docComment ∧ Covers t start)

theorem isOneOf_brackets (c : Char) :
    isOneOf ["\x7b", "\x7d", "[", "]", "(", ")"] [c] = (isOpener c || isCloser c) := by
  have spelled : isOneOf ["\x7b", "\x7d", "[", "]", "(", ")"] [c] = true ↔
      '{' = c ∨ '}' = c ∨ '[' = c ∨ ']' = c ∨ '(' = c ∨ ')' = c := by
    simp [isOneOf]
  rw [Bool.eq_iff_iff, spelled]
  simp only [isOpener, isCloser, Bool.or_eq_true, beq_iff_eq]
  grind

theorem map_bracket? (t : Tok) :
    (bracket? t.kind t.text).toList.map ([·]) = if isBracketToken t then [t.text] else [] := by
  rw [isBracketToken]
  by_cases punctuates : t.kind = .punctuator
  · rw [punctuates]
    match same : t.text with
    | [] => rfl
    | [c] =>
        rw [isOneOf_brackets, bracket?]
        split
        · rename_i isBracket
          simp [isBracket]
        · rename_i other
          simp [other]
    | c :: d :: rest => simp [bracket?, isOneOf]
  · have silent : bracket? t.kind t.text = none := by
      rw [bracket?.eq_2]
      exact fun c isPunctuator _ => punctuates isPunctuator
    rw [silent, if_neg (by simp [punctuates])]
    rfl

theorem filterMap_bracket?_tokenItems (kind : Kind) (place : Nat) (text : Text) :
    (tokenItems kind place text).filterMap Item.bracket? = (bracket? kind text).toList := by
  have silent : (crossings kind.setting place text).filterMap Item.bracket? = [] := by
    simp [crossings, Item.bracket?]
  rw [tokenItems, List.filterMap_append, silent, List.append_nil, List.filterMap_map]
  exact List.filterMap_some

theorem filterMap_line?_tokenItems (kind : Kind) (place : Nat) (text : Text) :
    (tokenItems kind place text).filterMap Item.line? =
      (breakEnds place text).map (·, kind.setting) := by
  have silent : ((bracket? kind text).toList.map Item.bracket).filterMap Item.line? = [] := by
    simp [Item.line?]
  rw [tokenItems, List.filterMap_append, silent, List.nil_append, crossings, List.filterMap_map]
  exact congrFun List.filterMap_eq_map _

section Agreement

variable {text : Text} (linear : ∀ t ∈ tokenize text, isLinear t.kind t.text = true)

include linear

theorem lineItems_eq_tokenItems :
    lineItems (lineStarts text) (scanLines .start (lines text)) =
      .line 0 .code :: (lexemes text).flatMap fun t => tokenItems t.kind t.start t.text := by
  have inLexemes : ∀ t ∈ lexemes text, isLinear t.kind t.text = true := fun t member =>
    linear t (List.mem_append_left _ member)
  rw [lineItems_lines]
  exact congrArg _ (trace_tokensFrom .start false text inLexemes false)

theorem events_eq :
    (scanLines .start (lines text)).flatMap (fun scan => scan.events.map ([·])) =
      ((tokenize text).filter isBracketToken).map (·.text) := by
  have lengths : (lineStarts text).length = (scanLines .start (lines text)).length := by
    rw [length_lineStarts, length_scanLines]
  have shown := congrArg (List.filterMap Item.bracket?) (lineItems_eq_tokenItems linear)
  rw [filterMap_bracket?_lineItems lengths, List.filterMap_cons_none rfl, List.filterMap_flatMap]
    at shown
  simp only [filterMap_bracket?_tokenItems] at shown
  have ends : [endToken text].filter isBracketToken = [] := rfl
  rw [tokenize, List.filter_append, ends, List.append_nil, ← List.map_flatMap, shown, List.map_flatMap]
  generalize lexemes text = tokens
  induction tokens with
  | nil => rfl
  | cons t tokens ih =>
      rw [List.flatMap_cons, ih, map_bracket?, List.filter_cons]
      split
      · rfl
      · rfl

/-- A line starts inside of what the token around its start says. -/
theorem setting_of_mem {start : Nat} {scan : LineScan}
    (member : (start, scan) ∈ (lineStarts text).zip (scanLines .start (lines text))) :
    (start = 0 ∧ scan.setting = .code) ∨
      ∃ t ∈ lexemes text, Covers t start ∧ scan.setting = t.kind.setting := by
  have shown := congrArg (List.filterMap Item.line?) (lineItems_eq_tokenItems linear)
  rw [filterMap_line?_lineItems, List.filterMap_cons, List.filterMap_flatMap] at shown
  simp only [filterMap_line?_tokenItems] at shown
  have here := List.mem_map_of_mem (f := fun p : Nat × LineScan => (p.1, p.2.setting)) member
  rw [shown] at here
  rcases List.mem_cons.1 here with first | later
  · obtain ⟨isStart, isCode⟩ := Prod.mk.inj first
    exact .inl ⟨isStart, isCode⟩
  · obtain ⟨t, inLexemes, inside⟩ := List.mem_flatMap.1 later
    obtain ⟨place, inBreaks, same⟩ := List.mem_map.1 inside
    obtain ⟨rfl, settings⟩ := Prod.mk.inj same
    have bounds := mem_breakEnds inBreaks
    obtain ⟨front, back, split⟩ := List.append_of_mem inLexemes
    have stop := (split ▸ tiles_lexemes text).stop_eq
    exact .inr ⟨t, inLexemes, ⟨bounds.1, by omega⟩, settings.symm⟩

/-- One part of the setting of a line, read off the token that covers its start. -/
theorem setting_iff (part : Setting → Bool) (outside : part .code = false) {start : Nat}
    {scan : LineScan}
    (member : (start, scan) ∈ (lineStarts text).zip (scanLines .start (lines text))) :
    part scan.setting = true ↔
      ∃ t ∈ tokenize text, part t.kind.setting = true ∧ Covers t start := by
  constructor
  · intro inside
    rcases setting_of_mem linear member with ⟨-, isCode⟩ | ⟨t, inLexemes, covers, same⟩
    · rw [isCode, outside] at inside
      cases inside
    · exact ⟨t, List.mem_append_left _ inLexemes, same ▸ inside, covers⟩
  · rintro ⟨t, inTokens, inside, covers⟩
    have inLexemes : t ∈ lexemes text := by
      rcases List.mem_append.1 inTokens with found | atEnd
      · exact found
      · rw [List.mem_singleton.1 atEnd] at inside
        rw [show (endToken text).kind.setting = .code from rfl, outside] at inside
        cases inside
    rcases setting_of_mem linear member with ⟨atStart, -⟩ | ⟨u, uInLexemes, uCovers, same⟩
    · exact absurd covers.1 (by omega)
    · have unique := (tiles_lexemes text).eq_of_inside inLexemes uInLexemes covers uCovers
      rw [same, unique]
      exact inside

end Agreement

/-- **The line scanner agrees with the lexer** on every text whose tokens can be followed line
by line. -/
theorem linesAgree_of_linear {text : Text}
    (linear : ∀ t ∈ tokenize text, isLinear t.kind t.text = true) : LinesAgree text where
  starts := ⟨length_lineStarts text, fun start line member => line_stands_at [] member⟩
  scans := length_scanLines _ _
  events := events_eq linear
  template := fun start scan member => by
    have agree := setting_iff linear Setting.inTemplate rfl member
    rw [show scan.startsInTemplate = scan.setting.inTemplate from rfl, agree]
    simp only [Kind.inTemplate_setting]
  comment := fun start scan member => by
    have agree := setting_iff linear Setting.inComment rfl member
    rw [show scan.startsInComment = scan.setting.inComment from rfl, agree]
    simp only [Kind.inComment_setting]
  doc := fun start scan member inComment => by
    have agree := setting_iff linear Setting.inDoc rfl member
    have inDoc : scan.setting.inDoc = scan.commentIsDoc := by
      rw [LineScan.setting, inComment, Bool.true_and]
    rw [← inDoc, agree]
    simp only [Kind.inDoc_setting]

/-- Nested groups, a doc comment with a brace, strings, a division and all three breaks, with a
template literal that is open at the end. -/
def tangledText : Text :=
  "f(\x60a\r\n$\x7bb\x7b[\r]\x7d\x7d\x60, \x22\\\x22(\x22) /** \x7b\n*/ \x7b x = a / b // )\n\x7d /*\r*/ [\x60\n".toList

theorem linesAgree_tangledText :
    (∀ t ∈ tokenize tangledText, isLinear t.kind t.text = true) ∧ LinesAgree tangledText := by
  have linear : ∀ t ∈ tokenize tangledText, isLinear t.kind t.text = true := by
    rw [show tangledText = _ from String.toList_ofList]
    decide +kernel
  exact ⟨linear, linesAgree_of_linear linear⟩

end UiFormat.Ets

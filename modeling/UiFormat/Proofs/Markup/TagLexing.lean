/-
# UiFormat.Proofs.Markup.TagLexing -- tags, read back

The tokens inside a tag: names, quoted strings, unquoted values and the marks that
open and close the tag.  Each is read back from its text, in front of the
characters the printer puts behind it.

An unquoted value is several tokens without a gap between them, so what ends it is
a question of places: `lexes_value` gives the tokens of a value together with the
law that tells how far they reach (`adjacentTokens`).
-/
import UiFormat.Proofs.Markup.DataLexing
import UiFormat.Proofs.Markup.ExprQuoting

namespace UiFormat.Markup

open UiFormat.Text
open UiFormat.Parse

set_option autoImplicit false

/-! ## Places -/

theorem offset_past (p : Position) (x : Text) : (p.past x).offset = p.offset + x.length := by
  induction x generalizing p with
  | nil => rfl
  | cons c x ih =>
      have one : (if c = '\n' then p.nextLine 1 else p.nextColumn).offset = p.offset + 1 := by
        split <;> rfl
      rw [Position.past, ih, one, List.length_cons]
      omega

/-- A token stands behind what was passed over in front of it. -/
theorem start_of_next? {k k' : Cursor} {t : Tok} (here : k.next? = some (t, k')) :
    t.start = k.place.offset + k.modes.current.gap k.rest := by
  obtain ⟨gap, c, rest, -, length, rfl, -⟩ := next?_eq_some here
  simp only [Token.at, offset_past, length]

theorem stop_of_next? {k k' : Cursor} {t : Tok} (here : k.next? = some (t, k')) :
    t.stop = k'.place.offset := by
  obtain ⟨gap, c, rest, -, -, rfl, -, place, -⟩ := next?_eq_some here
  rw [place]
  simp only [Token.at, offset_past]

/-! ## Names and marks -/

/-- The text is the name of a tag or an attribute. -/
def IsName (text : Text) : Prop :=
  ∃ c r, text = c :: r ∧ isNameStart c = true ∧ ∀ d ∈ r, isNameChar d = true

/-- A name starts with none of the characters that mean something in a tag. -/
theorem ne_of_isNameStart {c : Char} (isStart : isNameStart c = true) :
    isPlainBlank c = false ∧ c ≠ '/' ∧ c ≠ '>' ∧ c ≠ '{' ∧ c ≠ '=' ∧ c ≠ '\x22' ∧ c ≠ '\x27' ∧
      c ≠ '!' := by
  refine ⟨?_, ?_, ?_, ?_, ?_, ?_, ?_, ?_⟩
  · rw [Bool.eq_false_iff, Ne, isPlainBlank_iff]
    rintro (rfl | rfl | rfl | rfl) <;> revert isStart <;> decide
  all_goals
    rintro rfl
    revert isStart
    decide

section

variable {ms : Modes} {w : Text}

theorem gap_tag {c : Char} (notBlank : isPlainBlank c = false) (text : Text) :
    Mode.tag.gap (c :: text) = 0 := by
  simp [Mode.gap, runLength, notBlank]

/-- A token at the front of a tag without a gap. -/
theorem lexes_tag {c : Char} {r : Text} {kind : Kind} {shift : Shift}
    (notBlank : isPlainBlank c = false)
    (here : tagLexeme c (r ++ w) = { kind, extra := r.length, shift }) (notComment : kind ≠ .comment) :
    Lexes (.tag :: ms) (c :: r) w (Modes.apply (.tag :: ms) shift) (IsToken kind (c :: r)) := by
  have lexes := @lexes_token (.tag :: ms) c r w kind shift (gap_tag notBlank _) here
  have same : tokenText kind (c :: r) = c :: r := by
    cases kind <;> first | rfl | exact absurd rfl notComment
  rwa [same] at lexes

theorem lexes_name {x : Text} (isName : IsName x) (clear : Clear isNameChar w) :
    Lexes (.tag :: ms) x w (.tag :: ms) (IsToken .name x) := by
  obtain ⟨c, r, rfl, isStart, all⟩ := isName
  obtain ⟨notBlank, notSlash, notEnd, notBrace, notEquals, notDouble, notSingle, -⟩ :=
    ne_of_isNameStart isStart
  refine @lexes_tag ms w c r .name .stay notBlank ?_ (by decide)
  simp [tagLexeme, notSlash, notEnd, notBrace, notEquals, notDouble, notSingle, isStart,
    runLength_append all clear]

theorem lexes_equals : Lexes (.tag :: ms) ['='] w (.tag :: ms) (IsToken .equals ['=']) :=
  @lexes_tag ms w '=' [] .equals .stay (by decide) rfl (by decide)

theorem lexes_tagEnd : Lexes (.tag :: ms) ['>'] w ms (IsToken .tagEnd ['>']) :=
  @lexes_tag ms w '>' [] .tagEnd .leave (by decide) rfl (by decide)

theorem lexes_tagSelfClose : Lexes (.tag :: ms) ['/', '>'] w ms (IsToken .tagSelfClose ['/', '>']) :=
  @lexes_tag ms w '/' ['>'] .tagSelfClose .leave (by decide) rfl (by decide)

theorem lexes_quoted {quote : Char} {value : Text} (isQuote : IsQuote quote)
    (quotable : Quotable quote value) :
    Lexes (.tag :: ms) (between (some quote) value) w (.tag :: ms)
      (IsToken .string (between (some quote) value)) := by
  have marks : isPlainBlank quote = false ∧ quote ≠ '/' ∧ quote ≠ '>' ∧ quote ≠ '{' ∧
      quote ≠ '=' ∧ quote ≠ '\\' := by
    rcases isQuote with rfl | rfl <;> decide
  obtain ⟨notBlank, notSlash, notEnd, notBrace, notEquals, notBackslash⟩ := marks
  have extent : stringExtent quote (value ++ [quote] ++ w) = (value ++ [quote]).length := by
    rw [List.append_assoc, quotable, List.singleton_append, stringExtent_cons notBackslash,
      if_pos rfl, List.length_append, List.length_singleton]
  have isString : (quote = '\x22' || quote = '\x27') = true := by
    rcases isQuote with rfl | rfl <;> rfl
  refine @lexes_tag ms w quote (value ++ [quote]) .string .stay notBlank ?_ (by decide)
  rw [tagLexeme, if_neg (by simp [notSlash]), if_neg notEnd, if_neg (by simp [notBrace]),
    if_neg notEquals, if_pos isString, extent]

theorem lexes_tagOpen {c : Char} (isStart : isNameStart c = true) :
    Lexes [] ['<'] (c :: w) [.tag] (IsToken .tagOpen ['<']) := by
  obtain ⟨-, notSlash, -, -, -, -, -, notBang⟩ := ne_of_isNameStart isStart
  refine @lexes_token [] '<' [] (c :: w) .tagOpen (.enter .tag) rfl ?_
  have bang : startsWith (c :: w) "!--".toList = false := by
    simp [startsWith, List.isPrefixOf, Ne.symm notBang]
  have slash : startsWith (c :: w) ['/'] = false := by
    simp [startsWith, List.isPrefixOf, Ne.symm notSlash]
  show dataLexeme '<' (c :: w) = _
  rw [dataLexeme, bang, slash]
  rfl

theorem lexes_tagClose : Lexes [] ['<', '/'] w [.tag] (IsToken .tagClose ['<', '/']) :=
  @lexes_token [] '<' ['/'] w .tagClose (.enter .tag) rfl rfl

/-! ## Unquoted values -/

/-- A character of an unquoted value. -/
def isValueChar (c : Char) : Bool :=
  !(isPlainBlank c || c == '>' || c == '=' || c == '\x22' || c == '\x27')

/-- The text is made of names and single characters, and opens no interpolation. -/
def IsValue (text : Text) : Prop :=
  (∀ c ∈ text, isValueChar c = true) ∧ text.IsChain Apart

/-- What comes next ends the value: a blank, or the end of the tag unless the value
ends with the slash of another one. -/
def EndsValue (value next : Text) : Prop :=
  ∃ c ∈ next.head?, isPlainBlank c = true ∨ (c = '>' ∧ value.getLast? ≠ some '/')

theorem EndsValue.right {a b next : Text} (ends : EndsValue (a ++ b) next) : EndsValue b next := by
  obtain ⟨c, first, holds⟩ := ends
  refine ⟨c, first, holds.imp id (And.imp id fun last same => last ?_)⟩
  rw [List.getLast?_append, same]
  rfl

theorem isNameChar_of_plainBlank {c : Char} (blank : isPlainBlank c = true) :
    isNameChar c = false := by
  rcases isPlainBlank_iff.1 blank with rfl | rfl | rfl | rfl <;> decide

theorem EndsValue.clear {value next : Text} (ends : EndsValue value next) : Clear isNameChar next := by
  obtain ⟨c, first, holds⟩ := ends
  intro d same
  cases first.symm.trans same
  rcases holds with blank | ⟨rfl, -⟩
  · exact isNameChar_of_plainBlank blank
  · decide

theorem textOf_cons (t : Tok) (toks : List Tok) : textOf (t :: toks) = t.text ++ textOf toks :=
  List.flatMap_cons

/-- The tokens are those of a value that starts at an offset. -/
structure ValueTokens (value : Text) (start : Nat) (toks : List Tok) : Prop where
  text : textOf toks = value
  reach (rest : List Tok) :
    adjacentTokens start (toks ++ rest) = toks ++ adjacentTokens (start + value.length) rest

theorem ValueTokens.cons {t : Tok} {x value : Text} {start : Nat} {toks : List Tok}
    (isPart : isValuePart t = true) (text : t.text = x) (starts : t.start = start)
    (stops : t.stop = start + x.length) (later : ValueTokens value (start + x.length) toks) :
    ValueTokens (x ++ value) start (t :: toks) := by
  refine ⟨?_, fun rest => ?_⟩
  · rw [textOf_cons, later.text, text]
  · have adjacent : ((t.kind == .name || t.kind == .unquotedValue) && t.start == start) = true := by
      rw [starts, beq_self_eq_true, Bool.and_true]
      exact isPart
    rw [List.cons_append, adjacentTokens, if_pos adjacent, stops, later.reach rest,
      List.length_append, Nat.add_assoc]
    rfl

/-- The token at the front of an unquoted value, and what is left of the value. -/
theorem exists_value_lexeme {c : Char} {r : Text} (isValue : IsValue (c :: r))
    (ends : EndsValue (c :: r) w) :
    ∃ kind run left, r = run ++ left ∧ (kind = .name ∨ kind = .unquotedValue) ∧
      tagLexeme c (run ++ (left ++ w)) = { kind, extra := run.length } := by
  have here := isValue.1 c List.mem_cons_self
  simp only [isValueChar, Bool.not_eq_true', Bool.or_eq_false_iff, beq_eq_false_iff_ne] at here
  obtain ⟨⟨⟨⟨-, notEnd⟩, notEquals⟩, notDouble⟩, notSingle⟩ := here
  have chain := List.isChain_cons.1 isValue.2
  have notClose : (c = '/' && startsWith (r ++ w) ['>']) = false := by
    by_contra close
    simp only [Bool.not_eq_false, Bool.and_eq_true, decide_eq_true_eq] at close
    obtain ⟨rfl, close⟩ := close
    cases r with
    | nil =>
        obtain ⟨d, first, holds⟩ := ends
        cases w with
        | nil => cases first
        | cons e w =>
            cases first
            have isEnd : '>' = d := by simpa [startsWith, List.isPrefixOf] using close
            subst isEnd
            rcases holds with blank | ⟨-, last⟩
            · revert blank
              decide
            · exact last rfl
    | cons e r =>
        have isEnd : '>' = e := by simpa [startsWith, List.isPrefixOf] using close
        subst isEnd
        have inside := isValue.1 '>' (by simp)
        revert inside
        decide
  have notMark : (c = '{' && startsWith (r ++ w) ['{']) = false := by
    by_contra mark
    simp only [Bool.not_eq_false, Bool.and_eq_true, decide_eq_true_eq] at mark
    obtain ⟨rfl, mark⟩ := mark
    cases r with
    | nil =>
        obtain ⟨d, first, holds⟩ := ends
        cases w with
        | nil => cases first
        | cons e w =>
            cases first
            have isBrace : '{' = d := by simpa [startsWith, List.isPrefixOf] using mark
            subst isBrace
            rcases holds with blank | ⟨other, -⟩
            · revert blank
              decide
            · cases other
    | cons e r =>
        have isBrace : '{' = e := by simpa [startsWith, List.isPrefixOf] using mark
        subst isBrace
        exact chain.1 '{' rfl ⟨rfl, rfl⟩
  by_cases isStart : isNameStart c = true
  · have split : r.takeWhile isNameChar ++ r.dropWhile isNameChar = r :=
      List.takeWhile_append_dropWhile
    refine ⟨.name, r.takeWhile isNameChar, r.dropWhile isNameChar, split.symm, .inl rfl, ?_⟩
    have clear : Clear isNameChar (r.dropWhile isNameChar ++ w) := by
      refine clear_append ?_ ends.clear
      intro d first
      have stops := List.head?_dropWhile_not isNameChar r
      rw [first] at stops
      exact stops
    have length : runLength isNameChar (r.takeWhile isNameChar ++ (r.dropWhile isNameChar ++ w)) =
        (r.takeWhile isNameChar).length :=
      runLength_append (fun d => List.mem_takeWhile_imp) clear
    rw [← List.append_assoc, split] at length ⊢
    simp [tagLexeme, notClose, notEnd, notMark, notEquals, notDouble, notSingle, isStart, length]
  · refine ⟨.unquotedValue, [], r, rfl, .inr rfl, ?_⟩
    rw [List.nil_append]
    simp [tagLexeme, notClose, notEnd, notMark, notEquals, notDouble, notSingle, isStart]

/-- An unquoted value is read back. -/
theorem exists_steps_value {value : Text} (isValue : IsValue value) (ends : EndsValue value w)
    (place : Position) :
    ∃ toks, Steps { rest := value ++ w, place, modes := .tag :: ms } toks
        { rest := w, place := place.past value, modes := .tag :: ms } ∧
      ValueTokens value place.offset toks := by
  induction size : value.length using Nat.strongRecOn generalizing value place with
  | ind n ih =>
      cases value with
      | nil => exact ⟨[], .nil _, rfl, fun rest => rfl⟩
      | cons c r =>
          obtain ⟨kind, run, left, rfl, isPart, here⟩ := exists_value_lexeme isValue ends
          have notBlank : isPlainBlank c = false := by
            have inside := isValue.1 c List.mem_cons_self
            simp only [isValueChar, Bool.not_eq_true', Bool.or_eq_false_iff] at inside
            exact inside.1.1.1.1
          have next : Cursor.next? { rest := c :: (run ++ (left ++ w)), place, modes := .tag :: ms } =
              some (Token.at place kind (tokenText kind (c :: run)) (run.length + 1),
                { rest := left ++ w, place := place.past (c :: run), modes := .tag :: ms }) :=
            @next?_of_lexeme (.tag :: ms) c run (left ++ w) kind .stay place (gap_tag notBlank _) here
          have plain : tokenText kind (c :: run) = c :: run := by
            rcases isPart with rfl | rfl <;> rfl
          rw [← List.cons_append] at isValue ends
          have leftValue : IsValue left :=
            ⟨fun d member => isValue.1 d (List.mem_append_right _ member),
              (List.isChain_append.1 isValue.2).2.1⟩
          have shorter : left.length < n := by
            rw [← size, List.length_cons, List.length_append]
            omega
          obtain ⟨toks, steps, tokens⟩ :=
            ih left.length shorter leftValue ends.right (place.past (c :: run)) rfl
          rw [offset_past] at tokens
          have valuePart : isValuePart (Token.at place kind (tokenText kind (c :: run))
              (run.length + 1)) = true := by
            rcases isPart with rfl | rfl <;> rfl
          have whole : ValueTokens ((c :: run) ++ left) place.offset _ :=
            ValueTokens.cons valuePart plain rfl rfl tokens
          rw [← List.cons_append, past_append, List.append_assoc]
          exact ⟨_, .cons next steps, whole⟩

end

end UiFormat.Markup

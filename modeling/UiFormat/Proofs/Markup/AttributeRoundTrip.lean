/-
# UiFormat.Proofs.Markup.AttributeRoundTrip -- printed attributes read back

`SoundAttribute` says what is known of an attribute that was read from a source: a
quoted value does not close its quotes, an unquoted one has no blank and no end of
a tag in it, and expressions can be spelled.  Sound attributes are read back from
their printed form (`exists_steps_attributes`), up to what the printer changes by
design: expressions get parentheses, and their quotes and blanks are written anew
(`AttributeValue.reread`).

Three things can go wrong.  An expression may not survive printing; one that stood
without quotes gets double ones, which a string inside it can close
(`AttributeValue.survives`); and a slash at the end of the last value makes the end
of the tag that of an element without content (`trailing`).
-/
import UiFormat.Proofs.Markup.TagLexing

namespace UiFormat.Markup

open UiFormat.Text
open UiFormat.Parse

set_option autoImplicit false

/-! ## Attributes from a source -/

/-- What is known of an attribute value that was read. -/
inductive SoundValue : AttributeValue → Prop
  | absent : SoundValue .absent
  | quoted {quote : Char} {value : Text} (isQuote : IsQuote quote) (quotable : Quotable quote value)
      (noExpression : (loneInterpolation? value).bind fragment? = none) :
      SoundValue (.quoted (some quote) value)
  | expression {quote : Option Char} {value : Text} {tree : Expr}
      (spellable : Spellable (Spells expressionLimit) tree)
      (quotable : ∀ q ∈ quote, IsQuote q ∧ Quotable q (interpolated tree)) :
      SoundValue (.expression quote value tree)
  | unquoted {value : Text} (isValue : IsValue value) (some : value ≠ []) :
      SoundValue (.unquoted value)

/-- What is known of an attribute that was read. -/
structure SoundAttribute (a : Attribute) : Prop where
  name : IsName a.name
  value : SoundValue a.value

/-- The name of a tag or an attribute, where it was read. -/
theorem isName_of_next? {k k' : Cursor} {t : Tok} (here : k.next? = some (t, k'))
    (mode : k.modes.current = .tag) (kind : t.kind = .name) : IsName t.text := by
  obtain ⟨gap, c, rest, -, -, rfl, -, -, -⟩ := next?_eq_some here
  simp only [mode, Mode.lexeme, Token.at] at kind ⊢
  rw [kind]
  clear here
  revert kind
  fun_cases tagLexeme c rest with
  | case6 _ _ _ _ _ isStart =>
      intro _
      refine ⟨c, _, rfl, isStart, fun d member => ?_⟩
      rw [take_runLength] at member
      exact List.mem_takeWhile_imp member
  | _ => exact fun impossible => by cases impossible

/-- A string that something follows, where it was read. -/
theorem quotable_of_closed {quote : Char} {value : Text}
    (closed : ∀ w, stringExtent quote (value ++ [quote] ++ w) = value.length + 1) :
    Quotable quote value := by
  fun_induction staysOpen quote value with
  | case1 => exact fun w => (Nat.zero_add _).symm
  | case2 =>
      have impossible := closed [quote]
      have pos : 0 < stringExtent quote [quote] := stringExtent_pos (by simp)
      simp only [List.cons_append, List.nil_append, stringExtent_escape, List.length_singleton]
        at impossible
      omega
  | case3 c text ih =>
      have inner := ih fun w => by
        have here := closed w
        simp only [List.cons_append, stringExtent_escape, List.length_cons] at here
        omega
      intro w
      simp only [List.cons_append, stringExtent_escape, inner w, List.length_cons]
      omega
  | case4 c text notBackslash ih =>
      have other : c ≠ '\\' := by simpa using notBackslash
      by_cases same : c = quote
      · have impossible := closed []
        rw [List.append_nil, List.cons_append, stringExtent_cons other, if_pos same,
          List.length_cons] at impossible
        omega
      · have inner := ih fun w => by
          have here := closed w
          rw [List.cons_append, List.cons_append, stringExtent_cons other, if_neg same,
            List.length_cons] at here
          omega
        intro w
        rw [List.cons_append, stringExtent_cons other, if_neg same, inner w, List.length_cons]
        omega

theorem isString_of_next? {k k' : Cursor} {t : Tok} (here : k.next? = some (t, k'))
    (mode : k.modes.current = .tag) (kind : t.kind = .string) (more : k'.rest ≠ []) :
    ∃ quote value, t.text = between (some quote) value ∧ IsQuote quote ∧ Quotable quote value := by
  obtain ⟨gap, c, rest, -, -, rfl, left, -, -⟩ := next?_eq_some here
  rw [left] at more
  simp only [mode, Mode.lexeme, Token.at] at kind more ⊢
  rw [kind]
  clear here left
  revert kind more
  fun_cases tagLexeme c rest with
  | case5 _ _ _ _ isQuote =>
      intro _ more
      have closed : ∀ w, stringExtent c (rest.take (stringExtent c rest) ++ w) =
          (rest.take (stringExtent c rest)).length := by
        refine stringExtent_append ?_ more
        rw [List.take_append_drop, List.length_take, Nat.min_eq_left (stringExtent_le c rest)]
      generalize rest.take (stringExtent c rest) = inner at closed
      have last := getLast?_of_closed closed
      obtain ⟨value, rfl⟩ : ∃ value, inner = value ++ [c] := by
        obtain ⟨value, same⟩ := List.getLast?_eq_some_iff.1 last
        exact ⟨value, same⟩
      refine ⟨c, value, rfl, by simpa [IsQuote] using isQuote, quotable_of_closed fun w => ?_⟩
      rw [closed w, List.length_append]
      rfl
  | _ => exact fun impossible => by cases impossible

theorem isChain_of_noBrace {text : Text} (none : ∀ c ∈ text, c ≠ '{') : text.IsChain Apart := by
  induction text with
  | nil => exact .nil
  | cons c text ih =>
      refine List.isChain_cons.2 ⟨?_, ih fun d member => none d (List.mem_cons_of_mem _ member)⟩
      rintro d - ⟨same, -⟩
      exact none c List.mem_cons_self same

theorem isValueChar_of_isNameChar {c : Char} (isChar : isNameChar c = true) :
    isValueChar c = true ∧ c ≠ '{' := by
  constructor
  · by_contra other
    have other : ((((((c = ' ' ∨ c = '\t') ∨ c = '\r') ∨ c = '\n') ∨ c = '>') ∨ c = '=') ∨
        c = '\x22') ∨ c = '\x27' := by
      simpa [isValueChar, isPlainBlank, or_iff_not_imp_left] using other
    rcases other with ((((((rfl | rfl) | rfl) | rfl) | rfl) | rfl) | rfl) | rfl <;> revert isChar <;>
      decide
  · rintro rfl
    revert isChar
    decide

theorem isNameChar_of_isNameStart {c : Char} (isStart : isNameStart c = true) :
    isNameChar c = true := by
  simp only [isNameStart, isNameChar, Char.isAlphanum, Bool.or_eq_true] at isStart ⊢
  rcases isStart with ((alpha | under) | colon) | dash
  · exact .inl (.inl (.inl (.inl (.inl alpha))))
  · exact .inl (.inl (.inl (.inr under)))
  · exact .inl (.inl (.inr colon))
  · exact .inl (.inr dash)

/-- The parts of an unquoted value leave the modes alone. -/
theorem shift_of_isValuePart {t : Tok} (isPart : isValuePart t = true) : t.kind.shift = .stay := by
  have kinds : t.kind = .name ∨ t.kind = .unquotedValue := by
    simpa [isValuePart] using isPart
  rcases kinds with kind | kind <;> rw [kind] <;> rfl

/-- A token of an unquoted value, where it was read. -/
theorem valuePart_of_next? {k k' : Cursor} {t : Tok} (here : k.next? = some (t, k'))
    (mode : k.modes.current = .tag) (isPart : isValuePart t = true) :
    IsValue t.text ∧ t.text ≠ [] ∧ (t.text.getLast? = some '{' → k'.rest.head? ≠ some '{') ∧
      ∃ gap, k.rest = gap ++ (t.text ++ k'.rest) ∧ gap.length = k.modes.current.gap k.rest := by
  obtain ⟨gap, c, rest, split, length, rfl, left, -, -⟩ := next?_eq_some here
  have notBlank : isPlainBlank c = false := by
    rw [mode, split] at length
    have stops := List.head?_dropWhile_not isPlainBlank (gap ++ c :: rest)
    rw [← drop_runLength, show runLength isPlainBlank (gap ++ c :: rest) = gap.length from length.symm,
      List.drop_left] at stops
    simpa using stops
  have kinds : (k.modes.current.lexeme c rest).kind = .name ∨
      (k.modes.current.lexeme c rest).kind = .unquotedValue := by
    simpa [isValuePart, Token.at] using isPart
  have plain : tokenText (k.modes.current.lexeme c rest).kind
      (c :: rest.take (k.modes.current.lexeme c rest).extra) =
        c :: rest.take (k.modes.current.lexeme c rest).extra := by
    rcases kinds with kind | kind <;> rw [kind] <;> rfl
  have shape : (∀ d ∈ c :: rest.take (k.modes.current.lexeme c rest).extra, isNameChar d = true) ∨
      ((k.modes.current.lexeme c rest).extra = 0 ∧ isValueChar c = true ∧
        (c = '{' → rest.head? ≠ some '{')) := by
    simp only [mode, Mode.lexeme] at kinds ⊢
    clear here left plain isPart
    revert kinds
    fun_cases tagLexeme c rest with
    | case6 _ _ _ _ _ isStart =>
        intro _
        refine .inl (List.forall_mem_cons.2 ⟨isNameChar_of_isNameStart isStart, fun d member => ?_⟩)
        rw [take_runLength] at member
        exact List.mem_takeWhile_imp member
    | case7 _ notEnd notMark notEquals notQuote =>
        intro _
        have notQuote : c ≠ '\x22' ∧ c ≠ '\x27' := by simpa using notQuote
        refine .inr ⟨rfl, by simp [isValueChar, notBlank, notEnd, notEquals, notQuote], ?_⟩
        rintro rfl first
        cases rest with
        | nil => cases first
        | cons d rest =>
            cases first
            exact notMark (by simp [startsWith, List.isPrefixOf])
    | _ => exact fun impossible => by rcases impossible with same | same <;> cases same
  simp only [Token.at, plain]
  refine ⟨?_, by simp, ?_, gap, ?_, length⟩
  · rcases shape with all | ⟨single, isChar, -⟩
    · exact ⟨fun d member => (isValueChar_of_isNameChar (all d member)).1,
        isChain_of_noBrace fun d member => (isValueChar_of_isNameChar (all d member)).2⟩
    · rw [single, List.take_zero]
      exact ⟨by simpa using isChar, .singleton _⟩
  · intro last
    rcases shape with all | ⟨single, -, apart⟩
    · exact absurd rfl (isValueChar_of_isNameChar (all _ (List.mem_of_getLast? last))).2
    · rw [single, List.take_zero] at last
      rw [left, single, List.drop_zero]
      exact apart (by simpa using last)
  · rw [split, left, List.cons_append, List.take_append_drop]

/-- A value goes on with what is left of the source. -/
theorem IsValue.append {a b rest : Text} (first : IsValue a) (second : IsValue b)
    (apart : a.getLast? = some '{' → rest.head? ≠ some '{') (front : b <+: rest) :
    IsValue (a ++ b) := by
  refine ⟨List.forall_mem_append.2 ⟨first.1, second.1⟩,
    List.isChain_append.2 ⟨first.2, second.2, ?_⟩⟩
  rintro c last d head ⟨rfl, rfl⟩
  refine apart last ?_
  obtain ⟨tail, rfl⟩ := front
  rw [List.head?_append, head]
  rfl

/-- What is read of an unquoted value without a gap in front of it. -/
theorem isValue_adjacentTokens {k k' : Cursor} {toks : List Tok} (steps : Steps k toks k')
    (mode : k.modes.current = .tag) :
    IsValue (textOf (adjacentTokens k.place.offset toks)) ∧
      textOf (adjacentTokens k.place.offset toks) <+: k.rest := by
  induction steps with
  | nil k => exact ⟨⟨by simp [adjacentTokens, textOf], .nil⟩, List.nil_prefix⟩
  | @cons k between k' t toks here later ih =>
      rw [adjacentTokens]
      split
      · rename_i adjacent
        rw [Bool.and_eq_true, beq_iff_eq] at adjacent
        obtain ⟨isPart, starts⟩ := adjacent
        obtain ⟨isValue, -, apart, gap, split, length⟩ := valuePart_of_next? here mode isPart
        have noGap : gap = [] := by
          have place := start_of_next? here
          rw [starts, ← length] at place
          exact List.eq_nil_of_length_eq_zero (by omega)
        rw [noGap, List.nil_append] at split
        have stays : between.modes = k.modes := by
          rw [modes_of_next? here, shift_of_isValuePart isPart]
          rfl
        obtain ⟨laterValue, front⟩ := ih (by rw [stays, mode])
        rw [stop_of_next? here, textOf_cons]
        refine ⟨isValue.append laterValue apart front, ?_⟩
        rw [split]
        exact (List.prefix_append_right_inj _).2 front
      · exact ⟨⟨by simp [textOf], .nil⟩, List.nil_prefix⟩

theorem adjacentTokens_begins (stop : Nat) (toks : List Tok) : adjacentTokens stop toks <+: toks := by
  induction toks generalizing stop with
  | nil => exact List.prefix_rfl
  | cons t toks ih =>
      rw [adjacentTokens]
      split
      · exact List.cons_prefix_cons.2 ⟨rfl, ih t.stop⟩
      · exact List.nil_prefix

theorem isValuePart_of_mem {stop : Nat} {toks : List Tok} :
    ∀ t ∈ adjacentTokens stop toks, isValuePart t = true := by
  induction toks generalizing stop with
  | nil => simp [adjacentTokens]
  | cons t toks ih =>
      rw [adjacentTokens]
      split
      · rename_i adjacent
        rw [Bool.and_eq_true] at adjacent
        exact List.forall_mem_cons.2 ⟨adjacent.1, ih⟩
      · simp

/-- Tokens that leave the modes alone. -/
theorem Steps.modes {k k' : Cursor} {toks : List Tok} (steps : Steps k toks k')
    (stay : ∀ t ∈ toks, t.kind.shift = .stay) : k'.modes = k.modes := by
  induction steps with
  | nil k => rfl
  | @cons k between k' t toks here later ih =>
      rw [ih fun u member => stay u (List.mem_cons_of_mem _ member), modes_of_next? here,
        stay t List.mem_cons_self]
      rfl

theorem Steps.rest_ne_nil {k k' : Cursor} {t : Tok} {toks : List Tok}
    (steps : Steps k (t :: toks) k') : k.rest ≠ [] := by
  cases steps with
  | cons here later =>
      intro none
      have shorter := Cursor.next?_rest_lt here
      rw [none] at shorter
      exact absurd shorter (Nat.not_lt_zero _)

/-- Reading an interpolation comes back to the modes it was found in, and its
expression can be spelled. -/
theorem InterpolationRun.sound {ts rest : List Tok} {e : Expr} (run : InterpolationRun ts e rest)
    {k k' : Cursor} (steps : Steps k ts k') :
    Spellable (Spells expressionLimit) e ∧ ∃ between, Steps between rest k' ∧ between.modes = k.modes := by
  cases run with
  | @run opening closing toks rest _ opens spelled high closes =>
      cases steps with
      | @cons _ inside _ _ _ here later =>
          have entered : inside.modes = .interpolation :: k.modes := by
            rw [modes_of_next? here, opens]
            rfl
          obtain ⟨before, first, second⟩ := later.split
          have leaves := spelled.spelled later (by rw [entered]; rfl)
          have stays := first.modes fun t member => (spelled.belongs t member).1
          cases second with
          | @cons _ between _ _ _ ends rest =>
              refine ⟨⟨toks, spelled, leaves⟩, between, rest, ?_⟩
              rw [modes_of_next? ends, closes, stays, entered]
              rfl

theorem spellable_of_fragment? {inner : Text} {e : Expr} (parsed : fragment? inner = some e) :
    Spellable (Spells expressionLimit) e := by
  unfold fragment? at parsed
  split at parsed
  · rename_i read
    cases parsed
    obtain ⟨toks, -, -, spelled, leaves, -⟩ := exists_steps_of_parseFragment read
    exact ⟨toks, spelled, leaves⟩
  · cases parsed

theorem unquote_between (quote : Char) (value : Text) :
    unquote (between (some quote) value) = value := by
  have last : (value ++ [quote]).getLast? = some quote := List.getLast?_concat
  show (if (value ++ [quote]).getLast? = some quote then (value ++ [quote]).dropLast
    else value ++ [quote]) = value
  rw [if_pos last, List.dropLast_concat]

theorem quotedValue_between (reader : Text → Option Expr) (quote : Char) (value : Text) :
    quotedValue reader (between (some quote) value) =
      match (loneInterpolation? value).bind reader with
      | some tree => .expression (some quote) value tree
      | none => .quoted (some quote) value := by
  rw [quotedValue, unquote_between]
  rfl

theorem soundValue_between {quote : Char} {value : Text} (isQuote : IsQuote quote)
    (quotable : Quotable quote value) :
    SoundValue (quotedValue fragment? (between (some quote) value)) := by
  rw [quotedValue_between]
  split
  · rename_i tree found
    obtain ⟨inner, lone, parsed⟩ := Option.bind_eq_some_iff.1 found
    refine .expression (spellable_of_fragment? parsed) fun q same => ?_
    cases same
    exact ⟨isQuote, quotable_interpolated isQuote quotable.staysOpen lone parsed⟩
  · rename_i found
    exact .quoted isQuote quotable found

section

variable {closing : Tok} {k k' : Cursor} {ts rest : List Tok}

/-- A value is sound, and reading it stays inside the tag. -/
theorem ValueRun.sound {value : AttributeValue} (run : ValueRun fragment? ts value rest)
    (steps : Steps k ts k') (mode : k.modes.current = .tag) (more : rest ≠ []) :
    SoundValue value ∧ ∃ between, Steps between rest k' ∧ between.modes = k.modes := by
  cases run with
  | quoted kind =>
      cases steps with
      | @cons _ between _ _ _ here later =>
          have left : between.rest ≠ [] := by
            obtain ⟨u, rest, rfl⟩ := List.exists_cons_of_ne_nil more
            exact later.rest_ne_nil
          obtain ⟨quote, value, text, isQuote, quotable⟩ := isString_of_next? here mode kind left
          rw [text]
          refine ⟨soundValue_between isQuote quotable, between, later, ?_⟩
          rw [modes_of_next? here, kind]
          rfl
  | expression run =>
      obtain ⟨spellable, back⟩ := run.sound steps
      refine ⟨.expression spellable ?_, back⟩
      intro q impossible
      cases impossible
  | @unquoted t ts rest isPart left =>
      subst left
      have whole : adjacentTokens t.start (t :: ts) ++
          (t :: ts).drop (adjacentTokens t.start (t :: ts)).length = t :: ts :=
        List.prefix_iff_eq_append.1 (adjacentTokens_begins t.start (t :: ts))
      have apart := steps
      rw [← whole] at apart
      obtain ⟨between, first, second⟩ := apart.split
      have stays : between.modes = k.modes :=
        first.modes fun u member => shift_of_isValuePart (isValuePart_of_mem u member)
      refine ⟨?_, between, second, stays⟩
      cases steps with
      | @cons _ next _ _ _ here later =>
          obtain ⟨isValue, some, apart, -, -, -⟩ := valuePart_of_next? here mode isPart
          have nextMode : next.modes.current = .tag := by
            rw [modes_of_next? here, shift_of_isValuePart isPart]
            exact mode
          obtain ⟨laterValue, front⟩ := isValue_adjacentTokens later nextMode
          have adjacent : ((t.kind == .name || t.kind == .unquotedValue) && t.start == t.start) = true := by
            rw [beq_self_eq_true, Bool.and_true]
            exact isPart
          rw [adjacentTokens, if_pos adjacent, stop_of_next? here, textOf_cons]
          exact .unquoted (isValue.append laterValue apart front) (by simp [some])

theorem AttributesRun.sound {as : List Attribute} (run : AttributesRun closing fragment? ts as rest)
    (steps : Steps k ts k') (mode : k.modes.current = .tag) (more : rest ≠ []) :
    (∀ a ∈ as, SoundAttribute a) ∧ ∃ between, Steps between rest k' ∧ between.modes = k.modes := by
  have within : ∀ {ts rest : List Tok} {as : List Attribute},
      AttributesRun closing fragment? ts as rest → rest.length ≤ ts.length := by
    intro ts rest as run
    induction run with
    | done notName => exact Nat.le_refl _
    | absent isName noValue later ih => exact Nat.le_succ_of_le ih
    | valued isName isEquals here later ih =>
        exact Nat.le_succ_of_le (Nat.le_succ_of_le (Nat.le_trans ih here.length_le))
  induction run generalizing k with
  | done notName => exact ⟨by simp, k, steps, rfl⟩
  | @absent name ts rest as isName noValue later ih =>
      cases steps with
      | @cons _ next _ _ _ here following =>
          have stays : next.modes = k.modes := by
            rw [modes_of_next? here, isName]
            rfl
          obtain ⟨sound, between, ends, modes⟩ := ih following (by rw [stays, mode]) more
          exact ⟨List.forall_mem_cons.2 ⟨⟨isName_of_next? here mode isName, .absent⟩, sound⟩,
            between, ends, modes.trans stays⟩
  | @valued name equals ts middle rest value as isName isEquals here later ih =>
      cases steps with
      | @cons _ first _ _ _ atName following =>
          cases following with
          | @cons _ second _ _ _ atEquals following =>
              have stays : second.modes = k.modes := by
                rw [modes_of_next? atEquals, isEquals, modes_of_next? atName, isName]
                rfl
              have some : middle ≠ [] := by
                rintro rfl
                exact more (List.eq_nil_of_length_eq_zero (Nat.le_zero.1 (within later)))
              obtain ⟨sound, third, ends, modes⟩ :=
                here.sound following (by rw [stays, mode]) some
              obtain ⟨others, between, back, same⟩ := ih ends (by rw [modes, stays, mode]) more
              exact ⟨List.forall_mem_cons.2 ⟨⟨isName_of_next? atName mode isName, sound⟩, others⟩,
                between, back, same.trans (modes.trans stays)⟩

end

/-! ## Attributes, read back -/

/-- The printed value can be read back: its expression can, and it does not close
the double quotes it gets when it had none. -/
def AttributeValue.survives : AttributeValue → Bool
  | .expression quote _ tree =>
      tree.survives && (quote.isSome || staysOpen '\x22' (interpolated tree))
  | _ => true

/-- What is read back from a printed value. -/
def AttributeValue.reread : AttributeValue → AttributeValue
  | .expression quote _ tree =>
      .expression (some (quote.getD '\x22')) (interpolated tree) tree.parenthesized
  | value => value

/-- What is read back from a printed attribute. -/
def Attribute.reread (a : Attribute) : Attribute :=
  { a with value := a.value.reread }

/-- The unquoted value at the end of the attributes, or nothing. -/
def trailing (attributes : List Attribute) : Text :=
  match attributes.getLast?.map Attribute.value with
  | some (.unquoted value) => value
  | _ => []

/-- What comes next is not taken for part of an attribute that ends at `stop`: it
ends the tag, or it is a name further on. -/
def Separate (stop : Nat) (ts : List Tok) : Prop :=
  ∃ t ∈ ts.head?, t.kind = .tagEnd ∨ t.kind = .tagSelfClose ∨ (t.kind = .name ∧ stop < t.start)

theorem adjacentTokens_of_separate {stop : Nat} {ts : List Tok} (separate : Separate stop ts) :
    adjacentTokens stop ts = [] := by
  obtain ⟨t, first, holds⟩ := separate
  cases ts with
  | nil => cases first
  | cons u ts =>
      cases first
      rw [adjacentTokens, if_neg]
      rcases holds with kind | kind | ⟨-, far⟩
      · simp [kind]
      · simp [kind]
      · simp [Nat.ne_of_gt far]

theorem loneInterpolation?_interpolated (e : Expr) :
    loneInterpolation? (interpolated e) = some ([' '] ++ e.print ++ [' ']) := by
  have trimmed : trim (interpolated e) = interpolated e := by
    have last : (interpolated e).getLast? = some '}' := by
      have shape : interpolated e = (['{', '{', ' '] ++ e.print ++ [' ', '}']) ++ ['}'] := by
        simp [interpolated]
      rw [shape, List.getLast?_concat]
    rw [trim, trimStart_of_head? (c := '{') rfl (by decide), trimEnd_of_getLast? last (by decide)]
  have long : 4 ≤ (interpolated e).length := by
    simp [interpolated]
  have closes : endsWith (interpolated e) ['}', '}'] = true := by
    refine List.isSuffixOf_iff_suffix.2 ⟨['{', '{', ' '] ++ e.print ++ [' '], ?_⟩
    simp [interpolated]
  have shape : interpolated e =
      '{' :: (('{' :: (([' '] ++ e.print ++ [' ']) ++ ['}'])) ++ ['}']) := by
    simp [interpolated]
  rw [loneInterpolation?]
  simp only [trimmed]
  rw [if_pos, shape, withoutEnds_cons_concat, withoutEnds_cons_concat]
  simp only [closes, long, decide_true, Bool.and_true]
  rfl

/-- An expression between quotes is read as an expression. -/
theorem quotedValue_interpolated {e : Expr} (spellable : Spellable (Spells expressionLimit) e)
    (survives : e.survives = true) (quote : Char) :
    quotedValue fragment? (between (some quote) (interpolated e)) =
      .expression (some quote) (interpolated e) e.parenthesized := by
  rw [quotedValue_between, loneInterpolation?_interpolated, Option.bind_some,
    fragment?_spaced spellable survives]

theorem offset_le_start {k k' : Cursor} {t : Tok} {toks : List Tok} (steps : Steps k (t :: toks) k') :
    k.place.offset ≤ t.start := by
  cases steps with
  | cons here later =>
      rw [start_of_next? here]
      exact Nat.le_add_right _ _

section

variable {closing : Tok} {ms : Modes} {w : Text}

/-- A quoted value in front of further attributes. -/
theorem lexes_quotedValue {quote : Char} {value : Text} (isQuote : IsQuote quote)
    (quotable : Quotable quote value) :
    Lexes (.tag :: ms) (between (some quote) value) w (.tag :: ms) fun toks =>
      ∀ rest, ValueRun fragment? (toks ++ rest)
        (quotedValue fragment? (between (some quote) value)) rest := by
  refine (lexes_quoted isQuote quotable).mono ?_
  rintro _ ⟨t, rfl, kind, text⟩ rest
  rw [← text]
  exact .quoted kind

/-- What stands after the name of a printed attribute. -/
def AttributeValue.print : AttributeValue → Text
  | .absent => []
  | .quoted quote value => ['='] ++ between quote value
  | .expression quote _ tree => ['='] ++ between quote (interpolated tree)
  | .unquoted value => ['='] ++ value

theorem print_attribute (a : Attribute) : a.print = a.name ++ a.value.print := by
  obtain ⟨name, value⟩ := a
  cases value <;> simp [Attribute.print, AttributeValue.print]

variable (closing ms)

/-- A printed value is read back behind its equals sign, in front of something that
is not taken for part of it. -/
theorem exists_steps_attributeValue {value : AttributeValue} (sound : SoundValue value)
    (survives : value.survives = true)
    (ends : ∀ v, value = .unquoted v → EndsValue v w) (place : Position) :
    ∃ toks, Steps { rest := value.print ++ w, place, modes := .tag :: ms } toks
        { rest := w, place := place.past value.print, modes := .tag :: ms } ∧
      ∀ (name : Tok) (ts rest : List Tok) (as : List Attribute), name.kind = .name →
        Separate (place.past value.print).offset ts → AttributesRun closing fragment? ts as rest →
        AttributesRun closing fragment? (name :: (toks ++ ts))
          ({ name := name.text, value := value.reread } :: as) rest := by
  have valued : ∀ {x : Text} {value : AttributeValue},
      (Lexes (.tag :: ms) x w (.tag :: ms) fun toks => ∀ rest, ValueRun fragment? (toks ++ rest)
        value rest) →
      ∃ toks, Steps { rest := (['='] ++ x) ++ w, place, modes := .tag :: ms } toks
          { rest := w, place := place.past (['='] ++ x), modes := .tag :: ms } ∧
        ∀ (name : Tok) (ts rest : List Tok) (as : List Attribute), name.kind = .name →
          Separate (place.past (['='] ++ x)).offset ts → AttributesRun closing fragment? ts as rest →
          AttributesRun closing fragment? (name :: (toks ++ ts))
            ({ name := name.text, value } :: as) rest := by
    intro x value lexes
    have whole : Lexes (.tag :: ms) (['='] ++ x) w (.tag :: ms) fun toks =>
        ∃ equals inner, toks = equals :: inner ∧ equals.kind = .equals ∧
          ∀ rest, ValueRun fragment? (inner ++ rest) value rest := by
      refine lexes_equals.append lexes ?_
      rintro _ inner ⟨equals, rfl, kind, -⟩ run
      exact ⟨equals, inner, rfl, kind, run⟩
    obtain ⟨_, steps, equals, inner, rfl, isEquals, run⟩ := whole place
    refine ⟨equals :: inner, steps, ?_⟩
    intro name ts rest as isName _ later
    exact .valued isName isEquals (run ts) later
  cases sound with
  | absent =>
      refine ⟨[], .nil _, ?_⟩
      intro name ts rest as isName separate later
      refine .absent isName ?_ later
      obtain ⟨t, first, holds⟩ := separate
      cases ts with
      | nil => cases first
      | cons u ts =>
          cases first
          rw [List.nil_append, ahead_cons]
          rcases holds with kind | kind | ⟨kind, -⟩ <;> rw [kind] <;> decide
  | @quoted quote value isQuote quotable noExpression =>
      have lexes := @lexes_quotedValue ms w quote value isQuote quotable
      rw [quotedValue_between, noExpression] at lexes
      exact valued lexes
  | @expression quote value tree spellable quotable =>
      simp only [AttributeValue.survives, Bool.and_eq_true, Bool.or_eq_true] at survives
      have fits : IsQuote (quote.getD '\x22') ∧ Quotable (quote.getD '\x22') (interpolated tree) := by
        cases quote with
        | some q => exact quotable q rfl
        | none =>
            refine ⟨.inl rfl, ?_⟩
            have opened : staysOpen '\x22' (interpolated tree ++ []) = true := by
              simpa using survives.2
            refine (staysOpen_split opened ?_).1
            have shape : interpolated tree =
                (['{', '{', ' '] ++ tree.print ++ [' ', '}']) ++ ['}'] := by
              simp [interpolated]
            rw [shape, List.getLast?_concat]
            decide
      have lexes := @lexes_quotedValue ms w (quote.getD '\x22') (interpolated tree) fits.1 fits.2
      rw [quotedValue_interpolated spellable survives.1] at lexes
      exact valued lexes
  | @unquoted value isValue some =>
      have mark : Lexes (.tag :: ms) ['='] (value ++ w) (.tag :: ms) (IsToken .equals ['=']) :=
        lexes_equals
      obtain ⟨_, atEquals, equals, rfl, isEquals, -⟩ := mark place
      obtain ⟨toks, steps, tokens⟩ := exists_steps_value isValue (ends value rfl) (place.past ['='])
      refine ⟨[equals] ++ toks, ?_, ?_⟩
      · rw [AttributeValue.print, List.append_assoc, past_append]
        exact atEquals.append steps
      · intro name ts rest as isName separate later
        have stop : (place.past (['='] ++ value)).offset =
            (place.past ['=']).offset + value.length := by
          rw [past_append, offset_past]
        rw [AttributeValue.print, stop] at separate
        have reach := tokens.reach ts
        rw [adjacentTokens_of_separate separate, List.append_nil] at reach
        cases toks with
        | nil => exact absurd tokens.text.symm some
        | cons t toks =>
            -- The tokens of the value are adjacent, so the first begins where the value does.
            rw [List.cons_append, adjacentTokens] at reach
            split at reach
            · rename_i adjacent
              rw [Bool.and_eq_true, beq_iff_eq] at adjacent
              have whole : adjacentTokens t.start (t :: (toks ++ ts)) = t :: toks := by
                rw [adjacentTokens, if_pos, reach]
                rw [beq_self_eq_true, Bool.and_true]
                exact adjacent.1
              have run : ValueRun fragment? (t :: (toks ++ ts)) (.unquoted value) ts := by
                have here := @ValueRun.unquoted fragment? t (toks ++ ts) _ adjacent.1 rfl
                rw [whole, tokens.text, show (t :: (toks ++ ts)).drop (t :: toks).length = ts by
                  simp] at here
                exact here
              exact .valued isName isEquals run later
            · cases reach

/-- What comes behind the name of a printed attribute ends the name. -/
theorem clear_attributeValue {value : AttributeValue}
    (ends : EndsValue (trailing [{ name := [], value }]) w) : Clear isNameChar (value.print ++ w) := by
  have equals : ∀ text : Text, Clear isNameChar (('=' :: text) ++ w) := by
    intro text d same
    cases same
    decide
  cases value with
  | absent => exact ends.clear
  | quoted quote value => exact equals _
  | expression quote value tree => exact equals _
  | unquoted value => exact equals _

/-- Blanks and a printed attribute are read back. -/
theorem exists_steps_attribute {a : Attribute} (sound : SoundAttribute a)
    (survives : a.value.survives = true) (ends : EndsValue (trailing [a]) w) {sep : Text}
    (blank : Blanks sep) (some : sep ≠ []) (place : Position) :
    ∃ toks, Steps { rest := (sep ++ a.print) ++ w, place, modes := .tag :: ms } toks
        { rest := w, place := place.past (sep ++ a.print), modes := .tag :: ms } ∧
      ∀ (ts rest : List Tok) (as : List Attribute),
        Separate (place.past (sep ++ a.print)).offset ts → AttributesRun closing fragment? ts as rest →
        Separate place.offset (toks ++ ts) ∧
          AttributesRun closing fragment? (toks ++ ts) (a.reread :: as) rest := by
  obtain ⟨name, value⟩ := a
  have named : Lexes (.tag :: ms) name (value.print ++ w) (.tag :: ms) (IsToken .name name) :=
    lexes_name sound.name (clear_attributeValue ends)
  obtain ⟨_, first, t, rfl, isName, text⟩ := named (place.past sep)
  have ends' : ∀ v, value = .unquoted v → EndsValue v w := by
    rintro v rfl
    exact ends
  obtain ⟨toks, second, run⟩ := exists_steps_attributeValue closing ms sound.value
    survives ends' ((place.past sep).past name)
  have far : place.offset < t.start := by
    have behind := offset_le_start first
    have positive := List.length_pos_iff.2 some
    rw [offset_past] at behind
    omega
  refine ⟨t :: toks, ?_, ?_⟩
  · rw [print_attribute, past_append, past_append]
    have whole := first.append second
    cases whole with
    | cons here later =>
        refine .cons ?_ later
        rw [← here, List.append_assoc, List.append_assoc]
        exact next?_blanks (by simp [Modes.current]) blank _ _
  · intro ts rest as separate later
    refine ⟨⟨t, rfl, .inr (.inr ⟨isName, far⟩)⟩, ?_⟩
    rw [print_attribute, past_append, past_append] at separate
    have here := run t ts rest as isName separate later
    rw [text] at here
    exact here

theorem trailing_cons_cons (a b : Attribute) (as : List Attribute) :
    trailing (a :: b :: as) = trailing (b :: as) := by
  rw [trailing, List.getLast?_cons_cons, trailing]

/-- Printed attributes are read back, in front of the end of the tag. -/
theorem exists_steps_attributes {sep : Text} (blank : Blanks sep)
    (some : sep ≠ []) {as : List Attribute} (sound : ∀ a ∈ as, SoundAttribute a)
    (survive : ∀ a ∈ as, a.value.survives = true) (ends : EndsValue (trailing as) w)
    (place : Position) :
    ∃ toks, Steps { rest := (as.flatMap fun a => sep ++ a.print) ++ w, place, modes := .tag :: ms } toks
        { rest := w, place := place.past (as.flatMap fun a => sep ++ a.print), modes := .tag :: ms } ∧
      ∀ (stop : Tok) (rest : List Tok), stop.kind = .tagEnd ∨ stop.kind = .tagSelfClose →
        Separate place.offset (toks ++ stop :: rest) ∧
          AttributesRun closing fragment? (toks ++ stop :: rest) (as.map Attribute.reread)
            (stop :: rest) := by
  induction as generalizing place with
  | nil =>
      refine ⟨[], .nil _, ?_⟩
      intro stop rest kind
      refine ⟨⟨stop, rfl, kind.imp id .inl⟩, .done ?_⟩
      rw [List.nil_append, ahead_cons]
      rcases kind with kind | kind <;> rw [kind] <;> decide
  | cons a as ih =>
      have laterEnds : EndsValue (trailing as) w := by
        cases as with
        | nil =>
            obtain ⟨c, first, holds⟩ := ends
            exact ⟨c, first, holds.imp id (And.imp id fun _ => by simp [trailing])⟩
        | cons b as => rwa [trailing_cons_cons] at ends
      obtain ⟨toks, steps, run⟩ := ih (fun b member => sound b (List.mem_cons_of_mem _ member))
        (fun b member => survive b (List.mem_cons_of_mem _ member)) laterEnds
        (place.past (sep ++ a.print))
      have hereEnds : EndsValue (trailing [a]) ((as.flatMap fun a => sep ++ a.print) ++ w) := by
        cases as with
        | nil => exact ends
        | cons b as =>
            obtain ⟨c, sep, rfl⟩ := List.exists_cons_of_ne_nil some
            exact ⟨c, rfl, .inl (blank c List.mem_cons_self)⟩
      obtain ⟨front, first, runs⟩ := exists_steps_attribute closing ms
        (sound a List.mem_cons_self) (survive a List.mem_cons_self) hereEnds blank some place
      refine ⟨front ++ toks, ?_, ?_⟩
      · rw [List.flatMap_cons, past_append, List.append_assoc]
        exact first.append steps
      · intro stop rest kind
        obtain ⟨separate, later⟩ := run stop rest kind
        rw [List.append_assoc, List.map_cons]
        exact runs _ _ _ separate later

end

end UiFormat.Markup

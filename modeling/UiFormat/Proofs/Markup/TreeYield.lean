/-
# UiFormat.Proofs.Markup.TreeYield -- a document tree and the tokens it was read from

A document reads from left to right as the signs of its nodes (`Node.signs`), and these
are the canonical signs of its source (`canonical_of_spells`): of all its tokens only
commas behind the last item of a list and the way a tag that never has content ends are
not in the tree.

The proof follows the derivation of the document and the cursor together.  Names and
expressions keep their texts by themselves; marks do because the lexer spells each in one
way, and an unquoted value because a name in it reaches as far as it can.

Main statement: `parse_accepts_grammar`.
-/
import UiFormat.Proofs.Markup.DocumentGrammar
import UiFormat.Proofs.Markup.ExprYield

namespace UiFormat.Markup

open UiFormat.Text
open UiFormat.Parse

set_option autoImplicit false

/-! ## Signs of a document -/

/-- The signs of an interpolation. -/
def interpolationSigns (e : Expr) : List Sign :=
  (.interpStart, ['{', '{']) :: (e.signs ++ [(.interpEnd, ['}', '}'])])

/-- The signs of an unquoted value: names, and the characters between them. -/
def valueSigns (value : Text) : List Sign :=
  match value with
  | [] => []
  | c :: rest =>
      if isNameStart c then
        (.name, c :: rest.takeWhile isNameChar) :: valueSigns (rest.dropWhile isNameChar)
      else (.unquotedValue, [c]) :: valueSigns rest
termination_by value.length
decreasing_by
  · exact Nat.lt_succ_of_le (List.dropWhile_suffix isNameChar).length_le
  · exact Nat.lt_succ_self _

/-- The signs of what follows the name of an attribute. -/
def AttributeValue.signs : AttributeValue → List Sign
  | .absent => []
  | .quoted quote value => [(.equals, ['=']), (.string, between quote value)]
  | .expression (some quote) value _ => [(.equals, ['=']), (.string, between (some quote) value)]
  | .expression none _ tree => (.equals, ['=']) :: interpolationSigns tree
  | .unquoted value => (.equals, ['=']) :: valueSigns value

/-- The signs of an attribute. -/
def Attribute.signs (a : Attribute) : List Sign :=
  (.name, a.name) :: a.value.signs

mutual

/-- The signs of a node. -/
def Node.signs : Node → List Sign
  | .text value => [(.text, value)]
  | .comment value => [(.comment, value)]
  | .interpolation e => interpolationSigns e
  | .element tag attributes children selfClosing =>
      (.tagOpen, ['<']) :: (.name, tag) :: (attributes.flatMap Attribute.signs ++
        if selfClosing then [(.tagSelfClose, ['/', '>'])]
        else (.tagEnd, ['>']) :: (nodesSigns children ++
          [(.tagClose, ['<', '/']), (.name, tag), (.tagEnd, ['>'])]))
  | .strayAttribute stray => stray.signs

/-- The signs of several nodes. -/
def nodesSigns : List Node → List Sign
  | [] => []
  | n :: rest => n.signs ++ nodesSigns rest

end

/-! ## Marks and values of tags -/

/-- The text of a mark. -/
def Kind.markText? : Kind → Option Text
  | .tagOpen => some ['<']
  | .tagClose => some ['<', '/']
  | .tagEnd => some ['>']
  | .tagSelfClose => some ['/', '>']
  | .equals => some ['=']
  | .interpStart => some ['{', '{']
  | .interpEnd => some ['}', '}']
  | _ => none

theorem take_one_of_startsWith {d : Char} {rest : Text} (starts : startsWith rest [d] = true) :
    rest.take 1 = [d] := by
  obtain ⟨tail, rfl⟩ := List.isPrefixOf_iff_prefix.1 starts
  rfl

theorem markText?_wordKind (word : Text) : (wordKind word).markText? = none := by
  unfold wordKind
  repeat' split
  all_goals rfl

/-- A mark is spelled as its kind says. -/
theorem text_of_lexeme {mode : Mode} {c : Char} {rest text : Text}
    (isMark : (mode.lexeme c rest).kind.markText? = some text) :
    c :: rest.take (mode.lexeme c rest).extra = text := by
  have pair : ∀ {d e : Char}, (c = d && startsWith rest [e]) = true → c :: rest.take 1 = [d, e] := by
    intro d e both
    rw [Bool.and_eq_true, decide_eq_true_eq] at both
    rw [both.1, take_one_of_startsWith both.2]
  have single : ∀ {d : Char}, c = d → c :: rest.take 0 = [d] := by
    rintro d rfl
    rfl
  cases mode with
  | data =>
      simp only [Mode.lexeme] at isMark ⊢
      revert isMark
      fun_cases dataLexeme c rest with
      | case1 => exact fun impossible => by cases impossible
      | case2 _ both => exact fun isMark => (pair both).trans (Option.some.inj isMark)
      | case3 _ _ both => exact fun isMark => (pair both).trans (Option.some.inj isMark)
      | case4 _ _ _ same => exact fun isMark => (single same).trans (Option.some.inj isMark)
      | case5 => exact fun impossible => by cases impossible
  | tag =>
      simp only [Mode.lexeme] at isMark ⊢
      revert isMark
      fun_cases tagLexeme c rest with
      | case1 both => exact fun isMark => (pair both).trans (Option.some.inj isMark)
      | case2 _ same => exact fun isMark => (single same).trans (Option.some.inj isMark)
      | case3 _ _ both => exact fun isMark => (pair both).trans (Option.some.inj isMark)
      | case4 _ _ _ same => exact fun isMark => (single same).trans (Option.some.inj isMark)
      | _ => exact fun impossible => by cases impossible
  | interpolation =>
      simp only [Mode.lexeme] at isMark ⊢
      revert isMark
      fun_cases expressionLexeme c rest with
      | case1 both => exact fun isMark => (pair both).trans (Option.some.inj isMark)
      | case2 =>
          intro impossible
          rw [markText?_wordKind] at impossible
          cases impossible
      | _ => exact fun impossible => by cases impossible

theorem sign_of_next? {k k' : Cursor} {t : Tok} {kind : Kind} {text : Text}
    (here : k.next? = some (t, k')) (hasKind : t.kind = kind) (isMark : kind.markText? = some text) :
    sign t = (kind, text) := by
  obtain ⟨gap, c, rest, -, -, rfl, -, -, -⟩ := next?_eq_some here
  subst hasKind
  have spelled := text_of_lexeme isMark
  have plain : ∀ {kind : Kind} (source : Text), kind.markText? = some text →
      tokenText kind source = source := by
    intro kind source isMark
    cases kind <;> first | rfl | cases isMark
  exact congrArg (Prod.mk _) ((plain _ isMark).trans spelled)

/-- A part of an unquoted value is a whole name or a single other character. -/
theorem valuePart_cases {k k' : Cursor} {t : Tok} (here : k.next? = some (t, k'))
    (mode : k.modes.current = .tag) (isPart : isValuePart t = true) :
    ∃ c r, t.text = c :: r ∧
      ((t.kind = .name ∧ isNameStart c = true ∧ (∀ d ∈ r, isNameChar d = true) ∧
          Clear isNameChar k'.rest) ∨
        (t.kind = .unquotedValue ∧ isNameStart c = false ∧ r = [])) := by
  obtain ⟨gap, c, rest, -, -, rfl, left, -, -⟩ := next?_eq_some here
  rw [left]
  simp only [mode, Mode.lexeme, Token.at, isValuePart] at isPart ⊢
  clear here left
  revert isPart
  fun_cases tagLexeme c rest with
  | case6 _ _ _ _ _ isStart =>
      intro _
      refine ⟨c, rest.take (runLength isNameChar rest), rfl, .inl ⟨rfl, isStart, ?_, ?_⟩⟩
      · intro d member
        rw [take_runLength] at member
        exact List.mem_takeWhile_imp member
      · intro d first
        have stops := List.head?_dropWhile_not isNameChar rest
        rw [← drop_runLength, Option.mem_def.1 first] at stops
        simpa using stops
  | case7 _ _ _ _ _ notStart =>
      intro _
      exact ⟨c, [], rfl, .inr ⟨rfl, by simpa using notStart, rfl⟩⟩
  | _ => exact fun impossible => by cases impossible

/-- The text of an unquoted value tells its tokens: each starts where the one before it
stops, and a name stops where no further character of it follows. -/
theorem valueSigns_textOf {k k' : Cursor} {toks : List Tok} (steps : Steps k toks k')
    (mode : k.modes.current = .tag) (parts : ∀ t ∈ toks, isValuePart t = true)
    (chain : toks.IsChain fun t u => t.stop = u.start) :
    valueSigns (textOf toks) = toks.map sign ∧
      ((∀ t ∈ toks.head?, t.start = k.place.offset) → textOf toks <+: k.rest) := by
  induction steps with
  | nil k =>
      rw [textOf, List.flatMap_nil, valueSigns]
      exact ⟨rfl, fun _ => List.nil_prefix⟩
  | @cons k between k' t toks here later ih =>
      have isPart := parts t List.mem_cons_self
      have stays : between.modes = k.modes := by
        rw [modes_of_next? here, shift_of_isValuePart isPart]
        rfl
      obtain ⟨adjoins, chain⟩ := List.isChain_cons.1 chain
      obtain ⟨split, front⟩ := ih (by rw [stays, mode])
        (fun u member => parts u (List.mem_cons_of_mem t member)) chain
      have front : textOf toks <+: between.rest := by
        refine front fun u first => ?_
        rw [← adjoins u first, stop_of_next? here]
      rw [textOf_cons]
      constructor
      · obtain ⟨c, r, text, ⟨kind, isStart, all, clear⟩ | ⟨kind, notStart, rfl⟩⟩ :=
          valuePart_cases here mode isPart
        · have clear : Clear isNameChar (textOf toks) := by
            obtain ⟨tail, split⟩ := front
            intro d first
            refine clear d ?_
            rw [← split, List.head?_append, first]
            rfl
          rw [text, List.cons_append, valueSigns, if_pos isStart, ← take_runLength, ← drop_runLength,
            runLength_append all clear, List.take_left, List.drop_left, split, List.map_cons, sign,
            kind, text]
        · rw [text, List.singleton_append, valueSigns, if_neg (by simp [notStart]), split,
            List.map_cons, sign, kind, text]
      · intro starts
        obtain ⟨-, -, -, gap, rest, length⟩ := valuePart_of_next? here mode isPart
        have noGap : gap = [] := by
          have place := start_of_next? here
          rw [starts t rfl, ← length] at place
          exact List.eq_nil_of_length_eq_zero (by omega)
        rw [rest, noGap, List.nil_append]
        exact (List.prefix_append_right_inj _).2 front

/-! ## Parts of a document -/

section

variable {k k' : Cursor} {toks : List Tok}

/-- The law of an interpolation; reading it comes back to the modes it was found in. -/
theorem InterpolationSpells.steady {e : Expr} (spelled : InterpolationSpells toks e)
    (steps : Steps k toks k') :
    Steady (toks.map sign) (interpolationSigns e) ∧ k'.modes = k.modes := by
  have back : k'.modes = k.modes := by
    have run : InterpolationRun (toks ++ []) e [] := spelled.run
    rw [List.append_nil] at run
    obtain ⟨-, between, ends, modes⟩ := run.sound steps
    cases ends
    exact modes
  refine ⟨?_, back⟩
  cases spelled with
  | @marked opening last toks e opens spelled high closes =>
      cases steps with
      | @cons _ inside _ _ _ here later =>
          have mode : inside.modes.current = .interpolation := by
            rw [modes_of_next? here, opens]
            rfl
          have leaves := spelled.spelled later mode
          obtain ⟨before, first, second⟩ := later.split
          cases second with
          | cons ends done =>
              rw [List.map_cons, List.map_append, List.map_singleton, sign_of_next? here opens rfl,
                sign_of_next? ends closes rfl]
              refine .cons (by decide) (.append ?_ (.single ?_))
              · exact (yields_spells expressionLimit).steady spelled leaves
              · decide

/-- The law of a value behind its equals sign; reading it stays inside the tag. -/
theorem ValueSpells.steady {value : AttributeValue} (spelled : ValueSpells toks value)
    (steps : Steps k toks k') (mode : k.modes.current = .tag) (more : k'.rest ≠ []) :
    Steady ((.equals, ['=']) :: toks.map sign) value.signs ∧ k'.modes = k.modes := by
  have equals : IsPlainSign (.equals, ['=']) := by decide
  cases spelled with
  | @quoted t kind =>
      cases steps with
      | cons here later =>
          cases later
          obtain ⟨quote, value, text, -, -⟩ := isString_of_next? here mode kind more
          have kept : (quotedValue fragment? t.text).signs =
              [(.equals, ['=']), (.string, between (some quote) value)] := by
            rw [text, quotedValue_between]
            split <;> rfl
          rw [kept, List.map_singleton, sign, kind, text, modes_of_next? here, kind]
          exact ⟨.cons equals (.single (isPlainSign_of_kind (by simp) rfl)), rfl⟩
  | expression here =>
      obtain ⟨steady, modes⟩ := here.steady steps
      exact ⟨.cons equals steady, modes⟩
  | unquoted run =>
      obtain ⟨split, -⟩ := valueSigns_textOf steps mode run.parts run.chain
      rw [AttributeValue.signs, split]
      refine ⟨.cons equals (.all ?_), steps.modes fun t member => shift_of_isValuePart (run.parts t member)⟩
      intro s member
      obtain ⟨t, isToken, rfl⟩ := List.mem_map.1 member
      refine isPlainSign_of_kind ?_ (shift_of_isValuePart (run.parts t isToken))
      intro other
      have other : t.kind = .punctuator := other
      have isPart := run.parts t isToken
      simp [isValuePart, other] at isPart

theorem AttributesSpell.steady {rules : Rules} {as : List Attribute}
    (spelled : AttributesSpell rules toks as) (steps : Steps k toks k')
    (mode : k.modes.current = .tag) (more : k'.rest ≠ []) :
    Steady (toks.map sign) (as.flatMap Attribute.signs) ∧ k'.modes = k.modes := by
  have named : ∀ {name : Tok}, name.kind = .name → IsPlainSign (sign name) := by
    intro name isName
    refine isPlainSign_of_kind ?_ ?_
    all_goals simp [sign, isName, Kind.shift]
  induction spelled generalizing k with
  | nil =>
      cases steps
      exact ⟨.nil, rfl⟩
  | @absent name later as isName rest ih =>
      cases steps with
      | @cons _ next _ _ _ here following =>
          have stays : next.modes = k.modes := by
            rw [modes_of_next? here, isName]
            rfl
          obtain ⟨steady, modes⟩ := ih following (by rw [stays, mode])
          have first : sign name = (.name, name.text) := by rw [sign, isName]
          refine ⟨?_, modes.trans stays⟩
          rw [List.map_cons, List.flatMap_cons, Attribute.signs, AttributeValue.signs, ← first]
          exact .cons (named isName) steady
  | @valued name equals toks later value as isName isEquals here ends rest ih =>
      cases steps with
      | @cons _ first _ _ _ atName following =>
          cases following with
          | @cons _ second _ _ _ atEquals following =>
              have stays : second.modes = k.modes := by
                rw [modes_of_next? atEquals, isEquals, modes_of_next? atName, isName]
                rfl
              obtain ⟨third, inside, following⟩ := following.split
              have some : third.rest ≠ [] := following.some_left more
              obtain ⟨steady, modes⟩ := here.steady inside (by rw [stays, mode]) some
              have again : third.modes = k.modes := modes.trans stays
              obtain ⟨others, same⟩ := ih following (by rw [again, mode])
              refine ⟨?_, same.trans again⟩
              have nameSign : sign name = (.name, name.text) := by rw [sign, isName]
              rw [List.map_cons, List.map_cons, List.map_append, List.flatMap_cons, Attribute.signs,
                ← nameSign, sign_of_next? atEquals isEquals rfl]
              exact .cons (named isName) (steady.append others)

/-- The mark that ends an opening tag, as a tree tells it. -/
def headEnd (tag : Text) (stop : Tok) : Sign :=
  if stop.kind == .tagSelfClose || isVoid tag then (.tagSelfClose, ['/', '>']) else (.tagEnd, ['>'])

theorem canonical_tagOpen (void : Bool) (rest : List Sign) :
    canonical void ((.tagOpen, ['<']) :: rest) =
      (.tagOpen, ['<']) :: canonical (beginsVoid rest) rest :=
  rfl

theorem canonical_tagEnd (void : Bool) (rest : List Sign) :
    canonical void ((.tagEnd, ['>']) :: rest) =
      (if void then (.tagSelfClose, ['/', '>']) else (.tagEnd, ['>'])) :: canonical false rest :=
  rfl

theorem canonical_tagSelfClose (void : Bool) (rest : List Sign) :
    canonical void ((.tagSelfClose, ['/', '>']) :: rest) =
      (.tagSelfClose, ['/', '>']) :: canonical false rest :=
  rfl

/-- The law of an opening tag. -/
theorem HeadSpells.canonical_eq {rules : Rules} {tag : Text} {as : List Attribute} {stop : Tok}
    (spelled : HeadSpells rules toks tag as stop)
    (stops : stop.kind = .tagEnd ∨ stop.kind = .tagSelfClose) (steps : Steps k toks k')
    (mode : k.modes = []) (rest : List Sign) :
    canonical false (toks.map sign ++ rest) =
      (.tagOpen, ['<']) :: (.name, tag) :: (as.flatMap Attribute.signs ++
        headEnd tag stop :: canonical false rest) ∧ k'.modes = [] := by
  cases spelled with
  | @opened opening name _ toks _ opens isName attributes =>
      cases steps with
      | @cons _ first _ _ _ atOpening following =>
          cases following with
          | @cons _ second _ _ _ atName following =>
              obtain ⟨third, inside, following⟩ := following.split
              cases following with
              | cons atStop done =>
                  cases done
                  have entered : second.modes = [.tag] := by
                    rw [modes_of_next? atName, isName, modes_of_next? atOpening, opens, mode]
                    rfl
                  have some : third.rest ≠ [] := (Steps.cons atStop (.nil _)).rest_ne_nil
                  obtain ⟨steady, modes⟩ := attributes.steady inside (by rw [entered]; rfl) some
                  have left : k'.modes = [] := by
                    rw [modes_of_next? atStop, modes, entered]
                    rcases stops with kind | kind <;> rw [kind] <;> rfl
                  refine ⟨?_, left⟩
                  have named : Steady [(.name, name.text)] [(.name, name.text)] :=
                    .single (isPlainSign_of_kind (by simp) rfl)
                  have ended : canonical (isVoid name.text) (sign stop :: rest) =
                      headEnd name.text stop :: canonical false rest := by
                    rcases stops with kind | kind
                    · rw [sign_of_next? atStop kind rfl, canonical_tagEnd, headEnd, kind]
                      rfl
                    · rw [sign_of_next? atStop kind rfl, canonical_tagSelfClose, headEnd, kind]
                      rfl
                  have nameSign : sign name = (.name, name.text) := by rw [sign, isName]
                  have body := (named.append steady) (isVoid name.text) (sign stop :: rest)
                  rw [ended] at body
                  have split : (opening :: name :: (toks ++ [stop])).map sign ++ rest =
                      (.tagOpen, ['<']) :: ([(.name, name.text)] ++ toks.map sign ++ sign stop :: rest) := by
                    simp [sign_of_next? atOpening opens rfl, nameSign]
                  rw [split, canonical_tagOpen]
                  have void : beginsVoid ([(.name, name.text)] ++ toks.map sign ++ sign stop :: rest) =
                      isVoid name.text := by
                    simp [beginsVoid]
                  rw [void, body]
                  simp

/-- The law of a closing tag. -/
theorem CloseSpells.canonical_eq {tag : Text} (spelled : CloseSpells tag toks)
    (steps : Steps k toks k') (mode : k.modes = []) (rest : List Sign) :
    canonical false (toks.map sign ++ rest) =
      (.tagClose, ['<', '/']) :: (.name, tag) :: (.tagEnd, ['>']) :: canonical false rest ∧
      k'.modes = [] := by
  cases spelled with
  | @closed opening name stop opens isName same stops =>
      cases steps with
      | cons first later =>
          cases later with
          | cons second later =>
              cases later with
              | cons third later =>
                  cases later
                  have left : k'.modes = [] := by
                    rw [modes_of_next? third, modes_of_next? second, modes_of_next? first, mode, opens,
                      isName, stops]
                    rfl
                  refine ⟨?_, left⟩
                  have nameSign : sign name = (.name, tag) := by rw [sign, isName, same]
                  have front : Steady [(.tagClose, ['<', '/']), (.name, tag)]
                      [(.tagClose, ['<', '/']), (.name, tag)] :=
                    .cons (by decide) (.single (isPlainSign_of_kind (by simp) rfl))
                  have split : [opening, name, stop].map sign ++ rest =
                      [(.tagClose, ['<', '/']), (.name, tag)] ++ (.tagEnd, ['>']) :: rest := by
                    simp [sign_of_next? first opens rfl, nameSign, sign_of_next? third stops rfl]
                  rw [split, front, canonical_tagEnd]
                  rfl

/-- The law of a node that is a single token. -/
theorem canonical_leaf {t : Tok} (kinds : t.kind = .text ∨ t.kind = .comment)
    (steps : Steps k [t] k') (mode : k.modes = []) :
    (∀ rest, canonical false ([t].map sign ++ rest) = [sign t] ++ canonical false rest) ∧
      k'.modes = [] := by
  cases steps with
  | cons here later =>
      cases later
      have stays : t.kind.shift = .stay := by
        rcases kinds with kind | kind <;> rw [kind] <;> rfl
      refine ⟨Steady.single (isPlainSign_of_kind ?_ stays) false, ?_⟩
      · rcases kinds with kind | kind <;> simp [sign, kind]
      · rw [modes_of_next? here, stays, mode]
        rfl

/-- Wherever data is read, the node reads as its signs, and data is read again behind
it. -/
def YieldsNode (shape : List Tok → Node → Prop) : Prop :=
  ∀ {toks : List Tok} {n : Node} {k k' : Cursor}, shape toks n → Steps k toks k' → k.modes = [] →
    (∀ rest, canonical false (toks.map sign ++ rest) = n.signs ++ canonical false rest) ∧ k'.modes = []

theorem NodesSpell.canonical_eq {shape : List Tok → Node → Prop} (yields : YieldsNode shape)
    {ns : List Node} (spelled : NodesSpell shape toks ns) (steps : Steps k toks k')
    (mode : k.modes = []) :
    (∀ rest, canonical false (toks.map sign ++ rest) = nodesSigns ns ++ canonical false rest) ∧
      k'.modes = [] := by
  induction spelled generalizing k with
  | nil =>
      cases steps
      exact ⟨fun _ => rfl, mode⟩
  | cons here later ih =>
      obtain ⟨between, first, following⟩ := steps.split
      obtain ⟨node, modes⟩ := yields here first mode
      obtain ⟨others, left⟩ := ih following modes
      refine ⟨fun rest => ?_, left⟩
      rw [List.map_append, List.append_assoc, node, others, nodesSigns, List.append_assoc]

/-- One node, given the law of the content of elements. -/
theorem NodeShape.yieldsNode {rules : Rules} (narrow : ∀ tag, rules.closable tag = true → isVoid tag = false)
    {content : List Tok → List Node → Prop}
    (inner : ∀ {toks : List Tok} {ns : List Node} {k k' : Cursor}, content toks ns → Steps k toks k' →
      k.modes = [] →
        (∀ rest, canonical false (toks.map sign ++ rest) = nodesSigns ns ++ canonical false rest) ∧
          k'.modes = []) :
    YieldsNode (NodeShape rules content) := by
  intro toks n k k' shape steps mode
  cases shape with
  | @text t kind =>
      obtain ⟨alone, left⟩ := canonical_leaf (.inl kind) steps mode
      rw [Node.signs, ← kind]
      exact ⟨alone, left⟩
  | @comment t kind =>
      obtain ⟨alone, left⟩ := canonical_leaf (.inr kind) steps mode
      rw [Node.signs, ← kind]
      exact ⟨alone, left⟩
  | interpolation here =>
      obtain ⟨steady, modes⟩ := here.steady steps
      exact ⟨steady false, modes.trans mode⟩
  | @selfClosed _ tag as stop head stops =>
      obtain ⟨-, left⟩ := head.canonical_eq (.inr stops) steps mode []
      refine ⟨fun rest => ?_, left⟩
      rw [(head.canonical_eq (.inr stops) steps mode rest).1, headEnd, stops]
      simp [Node.signs]
  | @void _ tag as stop head stops empty =>
      obtain ⟨-, left⟩ := head.canonical_eq (.inl stops) steps mode []
      refine ⟨fun rest => ?_, left⟩
      rw [(head.canonical_eq (.inl stops) steps mode rest).1, headEnd, empty]
      simp [Node.signs]
  | @paired toks within close tag as stop children head stops allowed spelled closes =>
      obtain ⟨second, first, following⟩ := steps.split
      obtain ⟨third, middle, last⟩ := following.split
      obtain ⟨-, inside⟩ := head.canonical_eq (.inl stops) first mode []
      obtain ⟨children, again⟩ := inner spelled middle inside
      obtain ⟨-, left⟩ := closes.canonical_eq last again []
      refine ⟨fun rest => ?_, left⟩
      rw [List.map_append, List.map_append, List.append_assoc, List.append_assoc,
        (head.canonical_eq (.inl stops) first mode _).1, children,
        (closes.canonical_eq last again rest).1, headEnd, stops, narrow tag allowed]
      simp [Node.signs]

end

theorem yieldsNode_spells (levels : Nat) : YieldsNode (NodeSpells .narrow levels) := by
  have narrow : ∀ tag, Rules.narrow.closable tag = true → isVoid tag = false := by
    intro tag allowed
    simpa [Rules.narrow] using allowed
  induction levels with
  | zero => exact NodeShape.yieldsNode narrow fun impossible => impossible.elim
  | succ levels ih =>
      exact NodeShape.yieldsNode narrow fun inside steps mode => inside.canonical_eq ih steps mode

/-- A document reads as its signs. -/
theorem canonical_of_spells {source : Text} {ns : List Node}
    (spelled : DocumentSpells .narrow (lexemes source) ns) :
    canonical false ((lexemes source).map sign) = nodesSigns ns := by
  obtain ⟨k, steps, -⟩ := exists_steps_drain (Cursor.start source)
  have yields : YieldsNode (NodeSpells .narrow elementLimit) := yieldsNode_spells elementLimit
  have read := (NodesSpell.canonical_eq yields spelled steps rfl).1 []
  simpa [canonical] using read

/-- **The parser accepts its grammar and keeps every token.**  A source is parsed without
a report exactly when its tokens are a document.  They are then the document that the
tree says, and the tree, read from left to right, gives all of them back, but for commas
behind the last item of a list and the way a tag that never has content ends. -/
theorem parse_accepts_grammar (source : Text) :
    ((parse source).errors = [] ↔ ∃ ns, DocumentSpells .narrow (lexemes source) ns) ∧
    ((parse source).errors = [] →
      DocumentSpells .narrow (lexemes source) (parse source).children ∧
      canonical false ((lexemes source).map sign) = nodesSigns (parse source).children) := by
  have spelled : (parse source).errors = [] →
      DocumentSpells .narrow (lexemes source) (parse source).children := by
    intro silent
    refine parse_eq_iff_spells.1 ?_
    rw [← silent]
  refine ⟨⟨fun silent => ⟨_, spelled silent⟩, ?_⟩, ?_⟩
  · rintro ⟨ns, spells⟩
    rw [parse_eq_iff_spells.2 spells]
  · intro silent
    exact ⟨spelled silent, canonical_of_spells (spelled silent)⟩

/-- A document with a comma behind the last item of a list, tags that never have content
ended both ways, and values of all forms. -/
def variedDocument : Text :=
  "<div a='1' b=x/2 c={{ f(1, [2,],) }}>t<br><hr/>{{ x?y=1:2 }}<!--n--></div>".toList

theorem parse_accepts_grammar_varied :
    (parse variedDocument).errors = [] ∧
      DocumentSpells .narrow (lexemes variedDocument) (parse variedDocument).children ∧
      canonical false ((lexemes variedDocument).map sign) =
        nodesSigns (parse variedDocument).children := by
  have accepted : (parse variedDocument).errors.isEmpty = true := by
    rw [show variedDocument = _ from String.toList_ofList]
    decide +kernel
  have silent := List.isEmpty_iff.1 accepted
  exact ⟨silent, (parse_accepts_grammar variedDocument).2 silent⟩

/-- An element that never has content, with a closing tag. -/
def pairedVoid : Text :=
  "<br></br>".toList

/-- An unquoted value in front of an attribute that adjoins it. -/
def splitValue : Text :=
  "<a b=/c='x'></a>".toList

theorem NodeShape.document {rules : Rules} {toks : List Tok} {n : Node}
    (shape : NodeShape rules (NodesSpell (NodeSpells rules (elementLimit - 1))) toks n) :
    DocumentSpells rules toks [n] := by
  have one : NodesSpell (NodeSpells rules elementLimit) (toks ++ []) [n] := .cons shape .nil
  rwa [List.append_nil] at one

theorem spells_pairedVoid : ∃ ns, DocumentSpells .wide (lexemes pairedVoid) ns := by
  have tokens : (lexemes pairedVoid).map sign = [(.tagOpen, ['<']), (.name, "br".toList),
      (.tagEnd, ['>']), (.tagClose, ['<', '/']), (.name, "br".toList), (.tagEnd, ['>'])] := by
    decide +kernel
  simp only [List.map_eq_cons_iff, List.map_eq_nil_iff, sign, Prod.mk.injEq] at tokens
  obtain ⟨a, _, split, ⟨aKind, -⟩, b, _, rfl, ⟨bKind, bText⟩, c, _, rfl, ⟨cKind, -⟩,
    d, _, rfl, ⟨dKind, -⟩, e, _, rfl, ⟨eKind, eText⟩, f, _, rfl, ⟨fKind, -⟩, rfl⟩ := tokens
  rw [split]
  have head : HeadSpells .wide [a, b, c] b.text [] c := .opened aKind bKind .nil
  have close : CloseSpells b.text [d, e, f] := .closed dKind eKind (eText.trans bText.symm) fKind
  exact ⟨_, (NodeShape.paired head cKind rfl .nil close).document⟩

theorem spells_splitValue : ∃ ns, DocumentSpells .wide (lexemes splitValue) ns := by
  have tokens : (lexemes splitValue).map sign = [(.tagOpen, ['<']), (.name, ['a']), (.name, ['b']),
      (.equals, ['=']), (.unquotedValue, ['/']), (.name, ['c']), (.equals, ['=']),
      (.string, "'x'".toList), (.tagEnd, ['>']), (.tagClose, ['<', '/']), (.name, ['a']),
      (.tagEnd, ['>'])] := by
    decide +kernel
  simp only [List.map_eq_cons_iff, List.map_eq_nil_iff, sign, Prod.mk.injEq] at tokens
  obtain ⟨a, _, split, ⟨aKind, -⟩, b, _, rfl, ⟨bKind, bText⟩, c, _, rfl, ⟨cKind, -⟩,
    d, _, rfl, ⟨dKind, -⟩, e, _, rfl, ⟨eKind, -⟩, f, _, rfl, ⟨fKind, -⟩, g, _, rfl, ⟨gKind, -⟩,
    h, _, rfl, ⟨hKind, -⟩, i, _, rfl, ⟨iKind, -⟩, j, _, rfl, ⟨jKind, -⟩, l, _, rfl, ⟨lKind, lText⟩,
    m, _, rfl, ⟨mKind, -⟩, rfl⟩ := tokens
  rw [split]
  have run : Adjoins [e] := ⟨by simp, by simp [isValuePart, eKind], .singleton e⟩
  have second : AttributesSpell .wide [f, g, h] _ :=
    .valued fKind gKind (.quoted hKind) (.inl rfl) .nil
  have both : AttributesSpell .wide [c, d, e, f, g, h] _ :=
    .valued cKind dKind (.unquoted run) (.inl rfl) second
  have head : HeadSpells .wide [a, b, c, d, e, f, g, h, i] b.text _ i := .opened aKind bKind both
  have close : CloseSpells b.text [j, l, m] := .closed jKind lKind (lText.trans bText.symm) mKind
  exact ⟨_, (NodeShape.paired head iKind rfl .nil close).document⟩

/-- Without the two rules the grammar is too wide. -/
theorem parse_rejects_wide :
    ((∃ ns, DocumentSpells .wide (lexemes pairedVoid) ns) ∧ (parse pairedVoid).errors ≠ []) ∧
    ((∃ ns, DocumentSpells .wide (lexemes splitValue) ns) ∧ (parse splitValue).errors ≠ []) := by
  have reports : (parse pairedVoid).errors.isEmpty = false ∧
      (parse splitValue).errors.isEmpty = false := by
    rw [show pairedVoid = _ from String.toList_ofList,
      show splitValue = _ from String.toList_ofList]
    decide +kernel
  exact ⟨⟨spells_pairedVoid, List.isEmpty_eq_false_iff.1 reports.1⟩,
    ⟨spells_splitValue, List.isEmpty_eq_false_iff.1 reports.2⟩⟩

end UiFormat.Markup

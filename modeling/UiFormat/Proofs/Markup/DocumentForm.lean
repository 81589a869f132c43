/-
# UiFormat.Proofs.Markup.DocumentForm -- what a silent parse tells of a document

`Sound levels n` says what is known of a node that was read without a report, with
room for `levels` open elements: text is plain, comments end where they end, tags
and attributes are made of what the lexer finds in tags.  Of neighbours it says
that no text stands next to another and that no text ends with a brace in front of
an interpolation (`Node.MayPrecede`).

The proof follows the run of the parser and the cursor together: nodes begin and
end where the source is read as data, so the tokens in front of a node are those of
`dataLexeme`, and none of them is idle.
-/
import UiFormat.Proofs.Markup.AttributeRoundTrip

namespace UiFormat.Markup

open UiFormat.Text
open UiFormat.Parse

set_option autoImplicit false

/-! ## Sound nodes -/

/-- The second node can stand behind the first. -/
def Node.MayPrecede : Node → Node → Prop
  | .text _, .text _ => False
  | .text value, .interpolation _ => value.getLast? ≠ some '{'
  | _, _ => True

/-- Nodes of a kind that can stand next to each other. -/
structure SoundNodes (item : Node → Prop) (ns : List Node) : Prop where
  each : ∀ n ∈ ns, item n
  chain : ns.IsChain Node.MayPrecede

/-- A sound node whose children satisfy `content`. -/
inductive SoundStep (content : List Node → Prop) : Node → Prop
  | text {value : Text} (plain : Plain value) : SoundStep content (.text value)
  | comment {value : Text} (isBody : IsCommentBody value) : SoundStep content (.comment value)
  | interpolation {e : Expr} (spellable : Spellable (Spells expressionLimit) e) :
      SoundStep content (.interpolation e)
  | closed {tag : Text} {as : List Attribute} (isName : IsName tag)
      (sound : ∀ a ∈ as, SoundAttribute a) : SoundStep content (.element tag as [] true)
  | opened {tag : Text} {as : List Attribute} {children : List Node} (isName : IsName tag)
      (sound : ∀ a ∈ as, SoundAttribute a) (notVoid : isVoid tag = false)
      (inner : content children) : SoundStep content (.element tag as children false)

/-- What is known of a node inside which at most `levels` elements stand open. -/
def Sound : (levels : Nat) → Node → Prop
  | 0 => SoundStep fun _ => False
  | levels + 1 => SoundStep (SoundNodes (Sound levels))

/-! ## Tokens between tags -/

/-- The token in front of a cursor that reads data. -/
theorem next?_data {k k' : Cursor} {t : Tok} (here : k.next? = some (t, k')) (mode : k.modes = []) :
    ∃ c rest, k.rest = c :: rest ∧ t.kind = (dataLexeme c rest).kind ∧
      t.text = tokenText t.kind (c :: rest.take (dataLexeme c rest).extra) ∧
      k'.rest = rest.drop (dataLexeme c rest).extra := by
  obtain ⟨gap, c, rest, split, length, rfl, left, -, -⟩ := next?_eq_some here
  rw [mode] at length
  have noGap : gap = [] := List.eq_nil_of_length_eq_zero length
  rw [noGap, List.nil_append] at split
  rw [mode] at left
  refine ⟨c, rest, split, ?_, ?_, left⟩
  · rw [mode]
    rfl
  · rw [mode]
    rfl

/-- A token between tags starts a node or closes an element. -/
theorem not_isIdle {k k' : Cursor} {t : Tok} (here : k.next? = some (t, k')) (mode : k.modes = []) :
    isIdle t = false := by
  obtain ⟨c, rest, -, kind, -, -⟩ := next?_data here mode
  revert kind
  fun_cases dataLexeme c rest <;> intro kind <;> simp [isIdle, kind]

theorem plain_of_next? {k k' : Cursor} {t : Tok} (here : k.next? = some (t, k')) (mode : k.modes = [])
    (isText : t.kind = .text) :
    Plain t.text ∧ Meets t.text k'.rest ∧ textLength k.rest ≠ 0 := by
  obtain ⟨c, rest, split, kind, text, left⟩ := next?_data here mode
  have length : textLength (c :: rest) = (dataLexeme c rest).extra + 1 := by
    rw [isText] at kind
    revert kind
    fun_cases dataLexeme c rest with
    | case5 _ notMark _ notTag =>
        intro _
        rw [textLength, if_neg]
        simpa [notTag] using notMark
    | _ => exact fun impossible => by cases impossible
  obtain ⟨plain, meets⟩ := plain_take_textLength k.rest
  rw [split, length] at plain meets
  rw [isText] at text
  refine ⟨?_, ?_, ?_⟩
  · rw [text]
    exact plain
  · rw [text, left]
    exact meets
  · rw [split, length]
    exact Nat.succ_ne_zero _

theorem isCommentBody_of_next? {k k' : Cursor} {t : Tok} (here : k.next? = some (t, k'))
    (mode : k.modes = []) (isComment : t.kind = .comment) : IsCommentBody t.text := by
  obtain ⟨c, rest, -, kind, text, -⟩ := next?_data here mode
  rw [isComment] at kind text
  rw [text]
  revert kind
  fun_cases dataLexeme c rest with
  | case1 opens =>
      intro _
      rw [Bool.and_eq_true] at opens
      obtain ⟨body, rfl⟩ := List.isPrefixOf_iff_prefix.1 opens.2
      have inside : ("!--".toList ++ body).drop 3 = body := rfl
      have taken : ∀ n, (c :: ("!--".toList ++ body).take (n + 3)).drop 4 = body.take n := fun _ => rfl
      rw [inside, tokenText, taken]
      cases found : cut? "-->".toList body with
      | none =>
          rw [lengthThrough, found, List.take_length, found]
          exact isCommentBody_of_none found
      | some parts =>
          obtain ⟨before, after⟩ := parts
          have all : body.take (before.length + "-->".toList.length) = before ++ ("-->".toList ++ []) := by
            rw [cut?_eq_some found, ← List.append_assoc, ← List.length_append, List.take_left,
              List.append_nil]
          have again : cut? "-->".toList (before ++ ("-->".toList ++ [])) = some (before, []) :=
            isCommentBody_of_cut? found []
          rw [lengthThrough, found, all, again]
          exact isCommentBody_of_cut? found
  | _ => exact fun impossible => by cases impossible

theorem startsWith_of_interpStart {k k' : Cursor} {t : Tok} (here : k.next? = some (t, k'))
    (mode : k.modes = []) (opens : t.kind = .interpStart) :
    startsWith k.rest ['{', '{'] = true := by
  obtain ⟨c, rest, split, kind, -, -⟩ := next?_data here mode
  rw [opens] at kind
  rw [split]
  revert kind
  fun_cases dataLexeme c rest with
  | case2 _ isMark =>
      intro _
      rw [Bool.and_eq_true, decide_eq_true_eq] at isMark
      obtain ⟨rfl, brace⟩ := isMark
      simpa [startsWith, List.isPrefixOf] using brace
  | _ => exact fun impossible => by cases impossible

/-! ## Following the parser -/

/-- The cursor stands in front of the node. -/
structure Opens (n : Node) (k : Cursor) : Prop where
  text : ∀ value, n = .text value → textLength k.rest ≠ 0
  interpolation : ∀ e, n = .interpolation e → startsWith k.rest ['{', '{'] = true

/-- The cursor stands behind the node. -/
structure Leaves (n : Node) (k : Cursor) : Prop where
  modes : k.modes = []
  text : ∀ value, n = .text value → Meets value k.rest

theorem mayPrecede {m n : Node} {k : Cursor} (leaves : Leaves m k) (opens : Opens n k) :
    m.MayPrecede n := by
  cases m with
  | text value =>
      have meets := leaves.text value rfl
      cases n with
      | text other => exact opens.text other rfl (textLength_of_meets meets)
      | interpolation e =>
          have mark := opens.interpolation e rfl
          rcases meets with none | isTag | ⟨-, last⟩
          · rw [none] at mark
            cases mark
          · cases rest : k.rest with
            | nil =>
                rw [rest] at isTag
                cases isTag
            | cons c rest' =>
                rw [rest] at isTag mark
                cases isTag
                cases mark
          · exact last
      | _ => trivial
  | _ => trivial

/-- Runs of `item` give nodes that satisfy `known`, wherever data is read. -/
def SoundRuns (item : List Tok → Node → List Tok → Prop) (known : Node → Prop) : Prop :=
  ∀ {ts : List Tok} {n : Node} {rest : List Tok} {k k' : Cursor}, item ts n rest → Steps k ts k' →
    k.modes = [] → known n ∧ Opens n k ∧ ∃ between, Steps between rest k' ∧ Leaves n between

section

variable {closing : Tok} {item : List Tok → Node → List Tok → Prop} {known : Node → Prop}
  {k k' : Cursor} {ts rest : List Tok}

theorem CloseRun.sound {tag : Text} (run : CloseRun tag ts rest) (steps : Steps k ts k')
    (mode : k.modes = []) : ∃ between, Steps between rest k' ∧ between.modes = [] := by
  cases run with
  | run opens isName same stops =>
      cases steps with
      | cons first later =>
          cases later with
          | cons second later =>
              cases later with
              | @cons _ between _ _ _ third later =>
                  refine ⟨between, later, ?_⟩
                  rw [modes_of_next? third, modes_of_next? second, modes_of_next? first, mode, opens,
                    isName, stops]
                  rfl

theorem SoundNodes.cons {n : Node} {ns : List Node} (here : known n) (later : SoundNodes known ns)
    {between : Cursor} (leaves : Leaves n between) (opens : ∀ m ∈ ns.head?, Opens m between) :
    SoundNodes known (n :: ns) :=
  ⟨List.forall_mem_cons.2 ⟨here, later.each⟩,
    List.isChain_cons.2 ⟨fun m first => mayPrecede leaves (opens m first), later.chain⟩⟩

theorem ContentRun.sound (runs : SoundRuns item known) {tag : Text} {ns : List Node}
    (run : ContentRun item tag ts ns rest) (steps : Steps k ts k') (mode : k.modes = []) :
    SoundNodes known ns ∧ (∀ n ∈ ns.head?, Opens n k) ∧
      ∃ between, Steps between rest k' ∧ between.modes = [] := by
  induction run generalizing k with
  | stop closes => exact ⟨⟨by simp, .nil⟩, by simp, closes.sound steps mode⟩
  | next here later ih =>
      obtain ⟨first, opens, between, following, leaves⟩ := runs here steps mode
      obtain ⟨others, nextOpens, back⟩ := ih following leaves.modes
      refine ⟨others.cons first leaves nextOpens, ?_, back⟩
      intro m same
      cases same
      exact opens
  | skip idle later ih =>
      cases steps with
      | cons here following =>
          rw [not_isIdle here mode] at idle
          cases idle

theorem DocumentRun.sound (runs : SoundRuns item known) {ns : List Node}
    (run : DocumentRun item ts ns) (steps : Steps k ts k') (mode : k.modes = []) :
    SoundNodes known ns ∧ ∀ n ∈ ns.head?, Opens n k := by
  induction run generalizing k with
  | stop => exact ⟨⟨by simp, .nil⟩, by simp⟩
  | next here later ih =>
      obtain ⟨first, opens, between, following, leaves⟩ := runs here steps mode
      obtain ⟨others, nextOpens⟩ := ih following leaves.modes
      refine ⟨others.cons first leaves nextOpens, ?_⟩
      intro m same
      cases same
      exact opens
  | skip idle later ih =>
      cases steps with
      | cons here following =>
          rw [not_isIdle here mode] at idle
          cases idle

theorem HeadRun.sound {tag : Text} {as : List Attribute} {closed : Bool}
    (run : HeadRun closing fragment? ts tag as closed rest) (steps : Steps k ts k')
    (mode : k.modes = [.tag]) :
    IsName tag ∧ (∀ a ∈ as, SoundAttribute a) ∧ (closed = false → isVoid tag = false) ∧
      ∃ between, Steps between rest k' ∧ between.modes = [] := by
  have inside : k.modes.current = .tag := by
    rw [mode]
    rfl
  cases run with
  | @selfClosed name stop ts rest as isName attributes stops =>
      cases steps with
      | @cons _ next _ _ _ here following =>
          have stays : next.modes = k.modes := by
            rw [modes_of_next? here, isName]
            rfl
          obtain ⟨sound, between, later, modes⟩ :=
            attributes.sound following (by rw [stays, inside]) (by simp)
          cases later with
          | @cons _ after _ _ _ ends later =>
              refine ⟨isName_of_next? here inside isName, sound, by simp, after, later, ?_⟩
              rw [modes_of_next? ends, stops, modes, stays, mode]
              rfl
  | @ended name stop ts rest as isName attributes stops =>
      cases steps with
      | @cons _ next _ _ _ here following =>
          have stays : next.modes = k.modes := by
            rw [modes_of_next? here, isName]
            rfl
          obtain ⟨sound, between, later, modes⟩ :=
            attributes.sound following (by rw [stays, inside]) (by simp)
          cases later with
          | @cons _ after _ _ _ ends later =>
              refine ⟨isName_of_next? here inside isName, sound, id, after, later, ?_⟩
              rw [modes_of_next? ends, stops, modes, stays, mode]
              rfl

/-- One node, given what is known of the content of elements. -/
theorem NodeStep.sound {content : Text → List Tok → List Node → List Tok → Prop}
    {within : List Node → Prop}
    (inner : ∀ {tag : Text} {ts rest : List Tok} {ns : List Node} {k k' : Cursor},
      content tag ts ns rest → Steps k ts k' → k.modes = [] →
        within ns ∧ ∃ between, Steps between rest k' ∧ between.modes = []) :
    SoundRuns (NodeStep closing fragment? content) (SoundStep within) := by
  intro ts n rest k k' step steps mode
  have entered : ∀ {opening : Tok} {next : Cursor}, k.next? = some (opening, next) →
      opening.kind = .tagOpen → next.modes = [.tag] := by
    intro opening next here opens
    rw [modes_of_next? here, opens, mode]
    rfl
  cases step with
  | text kind =>
      cases steps with
      | @cons _ between _ _ _ here later =>
          obtain ⟨plain, meets, some⟩ := plain_of_next? here mode kind
          have modes : between.modes = [] := by
            rw [modes_of_next? here, kind, mode]
            rfl
          refine ⟨.text plain, ⟨fun _ _ => some, by simp⟩, between, later, modes, ?_⟩
          intro value same
          cases same
          exact meets
  | comment kind =>
      cases steps with
      | @cons _ between _ _ _ here later =>
          have modes : between.modes = [] := by
            rw [modes_of_next? here, kind, mode]
            rfl
          exact ⟨.comment (isCommentBody_of_next? here mode kind), ⟨by simp, by simp⟩, between, later,
            modes, by simp⟩
  | interpolation run =>
      obtain ⟨spellable, between, later, modes⟩ := run.sound steps
      have mark : startsWith k.rest ['{', '{'] = true := by
        cases run with
        | run opens spelled high closes =>
            cases steps with
            | cons here following => exact startsWith_of_interpStart here mode opens
      exact ⟨.interpolation spellable, ⟨by simp, fun _ _ => mark⟩, between, later,
        by rw [modes, mode], by simp⟩
  | closed opens head =>
      cases steps with
      | cons here later =>
          obtain ⟨isName, sound, -, between, back, modes⟩ := head.sound later (entered here opens)
          exact ⟨.closed isName sound, ⟨by simp, by simp⟩, between, back, modes, by simp⟩
  | opened opens head inside =>
      cases steps with
      | cons here later =>
          obtain ⟨isName, sound, notVoid, between, back, modes⟩ := head.sound later (entered here opens)
          obtain ⟨children, after, ends, again⟩ := inner inside back modes
          exact ⟨.opened isName sound (notVoid rfl) children, ⟨by simp, by simp⟩, after, ends, again,
            by simp⟩

end

/-- Nodes that were read are sound. -/
theorem soundRuns_nodeRun (closing : Tok) (levels : Nat) :
    SoundRuns (NodeRun closing fragment? levels) (Sound levels) := by
  induction levels with
  | zero => exact NodeStep.sound fun impossible => impossible.elim
  | succ levels ih =>
      refine NodeStep.sound fun inside steps mode => ?_
      obtain ⟨nodes, -, back⟩ := ContentRun.sound ih inside steps mode
      exact ⟨nodes, back⟩

/-- **A document that is parsed without errors is sound.** -/
theorem sound_of_parse {source : Text} {ns : List Node}
    (parsed : parse source = { children := ns, errors := [] }) :
    SoundNodes (Sound elementLimit) ns := by
  obtain ⟨k, steps, -⟩ := exists_steps_drain (Cursor.start source)
  have run := parseWith_eq_iff.1 parsed
  exact (DocumentRun.sound (soundRuns_nodeRun _ _) run steps rfl).1

end UiFormat.Markup

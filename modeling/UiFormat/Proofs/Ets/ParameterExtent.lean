/-
# UiFormat.Proofs.Ets.ParameterExtent -- parameters stay between their parentheses

A parameter list is read to its closing parenthesis first, counting round brackets only.
Then it is taken apart from its beginning, by readers that count other brackets too and do
not know where the list ends.  Here is when they stay inside it.

`Confined` says of a run that each of its moments, and the state it ends in, leaves a tail of
the tokens between the parentheses and then the closing one.  Readers that stay inside by
themselves do so in sequence, in choices and in loops, so what is left are the stretches:
each is as long as its count says, and BracketExtent bounds the counts.

The bounds need that what is opened between the parentheses is closed there (`Fence`).  Round
brackets always are.  A brace need not be, and the angle bracket of a type is not closed by
an operator that merely begins with one: then the readers go past the list
(`parameters_tightList`), and since the place is set back afterwards nobody notices.

Main statement: `parameters_between`.
-/
import UiFormat.Proofs.Ets.Advance
import UiFormat.Proofs.Ets.BracketExtent
import UiFormat.Proofs.Parse.Progress
import UiFormat.Proofs.Text.Trim

namespace UiFormat.Ets

open UiFormat.Text
open UiFormat.Parse

set_option autoImplicit false

variable {α β : Type}

/-! ## Runs in front of a fence -/

/-- What is left is a tail of `inner` and then the fence. -/
def Inside (inner fence : List Tok) (s : State Kind Problem) : Prop :=
  ∃ part, part <:+ inner ∧ s.rest = part ++ fence

/-- From `s` the reader stays inside and ends as `post` says. -/
structure Confined (inner fence : List Tok) (r : EtsRecorder α) (s : State Kind Problem)
    (post : α → State Kind Problem → Prop) : Prop where
  moments : ∀ t ∈ (r s).moments, Inside inner fence t
  final : Inside inner fence (r s).final
  result : post (r s).result (r s).final

section

variable {inner fence : List Tok} {s : State Kind Problem} {post : α → State Kind Problem → Prop}

theorem Confined.mono {post' : α → State Kind Problem → Prop} {r : EtsRecorder α}
    (confined : Confined inner fence r s post) (weaker : ∀ a t, post a t → post' a t) :
    Confined inner fence r s post' :=
  ⟨confined.moments, confined.final, weaker _ _ confined.result⟩

theorem Confined.pure {a : α} (inside : Inside inner fence s) (holds : post a s) :
    Confined inner fence (pure a) s post :=
  ⟨nofun, inside, holds⟩

theorem Confined.bind {mid : α → State Kind Problem → Prop} {r : EtsRecorder α}
    {g : α → EtsRecorder β} {post : β → State Kind Problem → Prop}
    (first : Confined inner fence r s mid)
    (later : ∀ a t, Inside inner fence t → mid a t → Confined inner fence (g a) t post) :
    Confined inner fence (r >>= g) s post := by
  obtain ⟨moments, final, result⟩ := later _ _ first.final first.result
  exact ⟨List.forall_mem_append.2 ⟨first.moments, moments⟩, final, result⟩

theorem Confined.map {r : EtsRecorder α} {f : α → β} {post : β → State Kind Problem → Prop}
    (first : Confined inner fence r s fun a t => post (f a) t) :
    Confined inner fence (f <$> r) s post :=
  first.bind fun _ _ inside holds => .pure inside holds

theorem Confined.ite {c : Prop} [Decidable c] {r u : EtsRecorder α}
    (yes : c → Confined inner fence r s post) (no : ¬ c → Confined inner fence u s post) :
    Confined inner fence (if c then r else u) s post := by
  split
  · rename_i holds
    exact yes holds
  · rename_i fails
    exact no fails

/-- A reader that only looks at the state goes on from there. -/
theorem Confined.look {r : EtsRecorder α} {a : α} {g : α → EtsRecorder β}
    {post : β → State Kind Problem → Prop} (inside : Inside inner fence s)
    (looks : r s = { result := a, final := s, moments := [s] })
    (later : Confined inner fence (g a) s post) : Confined inner fence (r >>= g) s post := by
  have stays : Confined inner fence r s fun b t => b = a ∧ t = s := by
    constructor
    · rw [looks]
      exact List.forall_mem_singleton.2 inside
    · rwa [looks]
    · rw [looks]
      exact ⟨rfl, rfl⟩
  refine stays.bind ?_
  rintro _ _ - ⟨rfl, rfl⟩
  exact later

/-- Readers only move forward. -/
theorem Confined.follow {r : EtsRecorder α} (confined : Confined inner fence r s post)
    (p : EtsParser α) [tracked : Tracked r p] :
    Confined inner fence r s fun a t => post a t ∧ t.rest <:+ s.rest := by
  refine ⟨confined.moments, confined.final, confined.result, ?_⟩
  rw [(tracked.tracks s).final_eq]
  exact (tracked.tracks s).follows.rest_suffix

/-- A step to another state inside. -/
theorem confined_modify {f : State Kind Problem → State Kind Problem}
    (inside : Inside inner fence s) (after : Inside inner fence (f s)) :
    Confined inner fence (modify f) s fun _ t => t = f s :=
  ⟨List.forall_mem_cons.2 ⟨inside, List.forall_mem_singleton.2 after⟩, after, rfl⟩

end

/-! ## Single tokens -/

/-- The conditions on what stands between a parenthesis and its partner `close`. -/
structure Fence (inner : List Tok) (close : Tok) : Prop where
  closes : isSymbol ")" close = true
  brackets : ClosesShapes inner
  types : closesTypes inner = true

section

variable {inner after : List Tok} {close : Tok} {s : State Kind Problem}

/-- What the parenthesis fails is passed by a token in front of it. -/
theorem Inside.exists_cons (inside : Inside inner (close :: after) s) {q : Tok → Bool}
    (fails : q close = false) (passes : q s.current = true) :
    ∃ t part, t :: part <:+ inner ∧ s.rest = t :: (part ++ close :: after) ∧ q t = true := by
  obtain ⟨part, suffix, split⟩ := inside
  cases part with
  | nil =>
      rw [State.current, split] at passes
      rw [show List.headD ([] ++ close :: after) s.closing = close from rfl, fails] at passes
      cases passes
  | cons t part =>
      rw [State.current, split] at passes
      exact ⟨t, part, suffix, split, passes⟩

theorem confined_take {fence : List Tok} {t : Tok} {part : List Tok} (suffix : t :: part <:+ inner)
    (split : s.rest = t :: (part ++ fence)) :
    Confined inner fence (advance : EtsRecorder Tok) s fun u v =>
      u = t ∧ v.rest = part ++ fence := by
  have inside : Inside inner fence s := ⟨t :: part, suffix, split⟩
  have isCurrent : s.current = t := by rw [State.current, split]; rfl
  have left : s.rest.tail = part ++ fence := by rw [split]; rfl
  refine Confined.look (a := s.current) inside rfl ?_
  refine (confined_modify inside ⟨part, (List.suffix_cons t part).trans suffix, left⟩).bind ?_
  rintro _ _ inside rfl
  exact .pure inside ⟨isCurrent, left⟩

/-- A token that is not the parenthesis is taken. -/
theorem confined_advance (inside : Inside inner (close :: after) s) {q : Tok → Bool}
    (fails : q close = false) (passes : q s.current = true) :
    Confined inner (close :: after) (advance : EtsRecorder Tok) s fun t u =>
      q t = true ∧ ∃ part, t :: part <:+ inner ∧ u.rest = part ++ close :: after := by
  obtain ⟨t, part, suffix, split, holds⟩ := inside.exists_cons fails passes
  refine (confined_take suffix split).mono ?_
  rintro _ u ⟨rfl, left⟩
  exact ⟨holds, part, suffix, left⟩

theorem dropWhile_before {q : Tok → Bool} (fails : q close = false) (part : List Tok) :
    (part ++ close :: after).dropWhile q = part.dropWhile q ++ close :: after := by
  induction part with
  | nil => exact List.dropWhile_cons_of_neg (by simp [fails])
  | cons t part ih =>
      cases holds : q t with
      | true => simpa only [List.cons_append, List.dropWhile_cons_of_pos holds] using ih
      | false =>
          have stops : ¬ q t = true := by simp [holds]
          simp only [List.cons_append, List.dropWhile_cons_of_neg stops]

theorem confined_report {fence : List Tok} (inside : Inside inner fence s) {cause : Problem} :
    Confined inner fence (report cause : EtsRecorder Unit) s fun _ t =>
      t.rest = s.rest ∧ t.current = s.current := by
  refine Confined.look (a := s.current) inside rfl ?_
  refine (confined_modify inside inside).mono ?_
  rintro _ _ rfl
  exact ⟨rfl, rfl⟩

/-- Reading over tokens ends at the parenthesis. -/
theorem confined_skipWhile (inside : Inside inner (close :: after) s) {q : Tok → Bool}
    (fails : q close = false) :
    Confined inner (close :: after) (skipWhile q : EtsRecorder Unit) s fun _ t =>
      t.rest = s.rest.dropWhile q := by
  obtain ⟨part, suffix, split⟩ := inside
  refine (confined_modify ⟨part, suffix, split⟩ ?_).mono fun _ _ left => by rw [left]
  refine ⟨part.dropWhile q, (List.dropWhile_suffix q).trans suffix, ?_⟩
  show s.rest.dropWhile q = _
  rw [split, dropWhile_before fails]

/-- Taking no more tokens than stand in front of the parenthesis. -/
theorem confined_takeTokens {part : List Tok} (suffix : part <:+ inner)
    (split : s.rest = part ++ close :: after) {count : Nat} (le : count ≤ part.length) :
    Confined inner (close :: after) (takeTokens count : EtsRecorder (List Tok)) s fun tokens t =>
      tokens <+: part ∧ t.rest = part.drop count ++ close :: after := by
  have left : s.rest.drop count = part.drop count ++ close :: after := by
    rw [split, List.drop_append_of_le_length le]
  refine Confined.look (a := s.rest) ⟨part, suffix, split⟩ rfl ?_
  refine (confined_modify ⟨part, suffix, split⟩
    ⟨part.drop count, (List.drop_suffix count part).trans suffix, left⟩).bind ?_
  rintro _ _ inside rfl
  refine .pure inside ⟨?_, left⟩
  rw [split, List.take_append_of_le_length le]
  exact List.take_prefix count part

end

/-! ## Texts from between the parentheses -/

theorem textOf_inside {part tokens : List Tok} (isPart : part <:+: tokens) :
    textOf part <:+: textOf tokens := by
  obtain ⟨front, back, rfl⟩ := isPart
  exact ⟨textOf front, textOf back, by simp only [textOf_append]⟩

theorem trimmedText_inside (tokens : List Tok) : trimmedText tokens <:+: textOf tokens :=
  textOf_inside (dropEndWhile_begins isSpaceToken tokens).isInfix

section

variable {inner after : List Tok} {close : Tok} {s : State Kind Problem}

theorem textOf_inside_of_front {part tokens : List Tok} (suffix : part <:+ inner)
    (front : tokens <+: part) : textOf tokens <:+: textOf inner :=
  textOf_inside (front.isInfix.trans suffix.isInfix)

/-- What depends on its kind only does not hold of the parenthesis. -/
theorem Fence.kind_fails (fence : Fence inner close) {q : Kind → Bool}
    (punctuator : q .punctuator = false) (operator : q .operator = false) :
    q close.kind = false := by
  obtain ⟨symbol, -⟩ := symbol_of_close fence.closes
  have kinds : close.kind = .punctuator ∨ close.kind = .operator := by
    simpa [isSymbolToken] using symbol
  rcases kinds with kind | kind
  · rw [kind, punctuator]
  · rw [kind, operator]

theorem Fence.not_isNameToken (fence : Fence inner close) : isNameToken close = false :=
  fence.kind_fails (q := fun kind => kind == .identifier || kind == .keyword) rfl rfl

theorem confined_skipSpace (fence : Fence inner close) (inside : Inside inner (close :: after) s) :
    Confined inner (close :: after) (skipSpace : EtsRecorder Unit) s fun _ _ => True :=
  (confined_skipWhile inside (fence.kind_fails (q := fun kind => !kind.isSignificant) rfl rfl)).mono
    fun _ _ _ => trivial

theorem confined_skipTrivia (fence : Fence inner close) (inside : Inside inner (close :: after) s) :
    Confined inner (close :: after) (skipTrivia : EtsRecorder Nat) s fun _ t =>
      t.rest = s.rest.dropWhile isTriviaToken := by
  refine Confined.look (a := s.rest) inside rfl ?_
  have stops : isTriviaToken close = false := fence.kind_fails (q := Kind.isTrivia) rfl rfl
  exact (confined_skipWhile inside stops).bind fun _ _ inside left => .pure inside left

/-- From an opening bracket the reader stops at its partner. -/
theorem confined_readBalanced (fence : Fence inner close) (inside : Inside inner (close :: after) s)
    {opening closing : Text} (member : (opening, closing) ∈ shapes) {symbol : String}
    (other : symbol.toList ≠ [')']) (stands : isSymbol symbol s.current = true) :
    Confined inner (close :: after) (readBalanced opening closing : EtsRecorder Text) s
      fun text _ => text <:+: textOf inner := by
  obtain ⟨t, part, suffix, split, -⟩ :=
    inside.exists_cons (isSymbol_of_close fence.closes other) stands
  have le : balancedCount opening closing 0 s.rest ≤ (t :: part).length := by
    rw [split]
    exact balancedCount_le (List.cons_ne_nil t part) (fence.brackets.suffix suffix _ member) _
  refine Confined.look (a := s.rest) inside rfl ?_
  refine (confined_takeTokens suffix split le).bind fun tokens _ inside front => .pure inside ?_
  exact textOf_inside_of_front suffix front.1

/-- An expression ends in front of the parenthesis. -/
theorem confined_readExpression (fence : Fence inner close)
    (inside : Inside inner (close :: after) s) (stopAtComma : Bool) :
    Confined inner (close :: after) (readExpression stopAtComma : EtsRecorder Text) s fun text _ =>
      text <:+: textOf inner := by
  refine (confined_skipTrivia fence inside).bind fun _ t inside _ => ?_
  refine Confined.look (a := t) inside rfl ?_
  obtain ⟨part, suffix, split⟩ := inside
  have le : expressionCount stopAtComma t.closing 0 none t.rest ≤ part.length := by
    rw [split]
    exact expressionCount_le fence.closes (Nat.zero_le _) (fence.brackets.suffix suffix).total_eq
  refine (confined_takeTokens suffix split le).bind fun tokens _ inside front => .pure inside ?_
  exact (trimmedText_inside tokens).trans (textOf_inside_of_front suffix front.1)

theorem openLevels_dropWhile (part : List Tok) :
    openLevels 0 (part.dropWhile isTriviaToken) = openLevels 0 part := by
  induction part with
  | nil => rfl
  | cons t part ih =>
      cases trivia : isTriviaToken t with
      | false => rw [List.dropWhile_cons_of_neg (by simp [trivia])]
      | true =>
          have kinds : t.kind = .whitespace ∨ t.kind = .newline := by
            cases kind : t.kind <;> simp [isTriviaToken, Kind.isTrivia, kind] at trivia ⊢
          rw [List.dropWhile_cons_of_pos trivia, ih, openLevels]
          rcases kinds with kind | kind <;> simp [endsAnyType, isSymbolOf, isSymbolToken, kind]

/-- A type that has no level open at the parenthesis ends in front of it. -/
theorem confined_readType? (fence : Fence inner close) {part : List Tok} (suffix : part <:+ inner)
    (split : s.rest = part ++ close :: after) (closed : openLevels 0 part = 0) :
    Confined inner (close :: after) (readType? : EtsRecorder (Option Text)) s fun text? _ =>
      ∀ text ∈ text?, text <:+: textOf inner := by
  have read : Confined inner (close :: after) (readType [] : EtsRecorder Text) s fun text _ =>
      text <:+: textOf inner := by
    refine (confined_skipTrivia fence ⟨part, suffix, split⟩).bind fun _ t inside left => ?_
    refine Confined.look (a := t) inside rfl ?_
    have stops : isTriviaToken close = false := fence.kind_fails (q := Kind.isTrivia) rfl rfl
    rw [split, dropWhile_before stops] at left
    have tail := (List.dropWhile_suffix isTriviaToken (l := part)).trans suffix
    have le : typeCount [] t.closing 0 none t.rest ≤ (part.dropWhile isTriviaToken).length := by
      rw [left]
      exact typeCount_le fence.closes (by rw [openLevels_dropWhile, closed])
    refine (confined_takeTokens tail left le).bind fun tokens _ inside front => .pure inside ?_
    exact (trimmedText_inside tokens).trans (textOf_inside_of_front tail front.1)
  refine read.bind fun text _ inside between => .pure inside ?_
  split
  · exact nofun
  · rintro _ ⟨⟩
    exact between

/-- A symbol that was taken stands in front of the parenthesis. -/
theorem confined_takeSymbol (fence : Fence inner close) (inside : Inside inner (close :: after) s)
    {symbol : String} (other : symbol.toList ≠ [')']) :
    Confined inner (close :: after) (takeSymbol symbol : EtsRecorder Bool) s fun taken t =>
      taken = true → ∃ own part, own :: part <:+ inner ∧ isSymbol symbol own = true ∧
        t.rest = part ++ close :: after := by
  refine Confined.look (a := isSymbol symbol s.current) inside rfl ?_
  refine .ite (fun stands => ?_) fun _ => ?_
  · refine (confined_advance inside (isSymbol_of_close fence.closes other) stands).bind ?_
    rintro own t inside ⟨here, part, suffix, left⟩
    exact .pure inside fun _ => ⟨own, part, suffix, here, left⟩
  · exact .pure inside fun impossible => by cases impossible

/-! ## Rounds -/

/-- The item of a round, if it gives one, is good. -/
def RoundGives (good : α → Prop) : Round α → Prop
  | .stop | .skip => True
  | .last item | .next item => good item

theorem confined_collectWithin {fence : List Tok} {round : EtsRecorder (Round α)} {good : α → Prop}
    (step : ∀ s, Inside inner fence s → Confined inner fence round s fun r _ => RoundGives good r)
    (fuel : Nat) (inside : Inside inner fence s) :
    Confined inner fence (collectWithin round fuel) s fun items _ => ∀ a ∈ items, good a := by
  induction fuel generalizing s with
  | zero => exact .pure inside nofun
  | succ fuel ih =>
      refine (step s inside).bind fun r t inside gives => ?_
      cases r with
      | stop => exact .pure inside nofun
      | last item => exact .pure inside (List.forall_mem_singleton.2 gives)
      | skip => exact ih inside
      | next item =>
          exact (ih inside).bind fun items _ inside all =>
            .pure inside (List.forall_mem_cons.2 ⟨gives, all⟩)

/-- Rounds that stay inside make a loop that does. -/
theorem confined_collect {fence : List Tok} {round : EtsRecorder (Round α)} {good : α → Prop}
    (step : ∀ s, Inside inner fence s → Confined inner fence round s fun r _ => RoundGives good r)
    (inside : Inside inner fence s) :
    Confined inner fence (collect round) s fun items _ => ∀ a ∈ items, good a :=
  Confined.look (a := s) inside rfl (confined_collectWithin step _ inside)

/-- The texts of a decorator. -/
def Decorator.texts (d : Decorator) : List Text :=
  d.name :: d.arguments.toList

/-- The texts of a parameter: its name, what decorates and modifies it, its type and its
default. -/
def Parameter.texts (p : Parameter) : List Text :=
  p.name :: (p.decorators.flatMap Decorator.texts ++ p.modifiers ++ p.typeAnnotation.toList ++
    p.default.toList)

theorem inside_of_mem {t : Tok} {part : List Tok} (suffix : t :: part <:+ inner) :
    t.text <:+: textOf inner := by
  obtain ⟨front, rfl⟩ := suffix
  exact ⟨textOf front, textOf part, by simp only [textOf_append, textOf_cons, List.append_assoc]⟩

theorem confined_decoratorRound (fence : Fence inner close)
    (inside : Inside inner (close :: after) s) :
    Confined inner (close :: after) (decoratorRound : EtsRecorder (Round Decorator)) s fun r _ =>
      RoundGives (fun d => ∀ text ∈ d.texts, text <:+: textOf inner) r := by
  refine Confined.look (a := s.current.kind == .decorator) inside rfl ?_
  refine .ite (fun stands => ?_) fun _ => .pure inside trivial
  have noDecorator : (close.kind == .decorator) = false :=
    fence.kind_fails (q := (· == .decorator)) rfl rfl
  refine (confined_advance (q := fun t => t.kind == .decorator) inside noDecorator stands).bind ?_
  rintro name t inside ⟨-, part, suffix, -⟩
  have named : name.text.drop 1 <:+: textOf inner :=
    (List.drop_suffix 1 name.text).isInfix.trans (inside_of_mem suffix)
  refine Confined.look (a := isSymbol "(" t.current) inside rfl ?_
  extract_lets ending
  have ends : ∀ arguments u, Inside inner (close :: after) u →
      (∀ text ∈ arguments, text <:+: textOf inner) →
      Confined inner (close :: after) (ending arguments) u fun r _ =>
        RoundGives (fun d => ∀ text ∈ d.texts, text <:+: textOf inner) r := by
    intro arguments u inside between
    refine (confined_skipSpace fence inside).bind fun _ v inside _ => .pure inside ?_
    refine List.forall_mem_cons.2 ⟨named, fun text member => ?_⟩
    exact between text (Option.mem_toList.1 member)
  refine .ite (fun opens => ?_) fun _ => ends none t inside nofun
  have read := confined_readBalanced fence inside (.head _) (by decide) opens
  refine .bind (.map (read.mono ?_)) ends
  rintro text _ between _ ⟨⟩
  exact between

theorem confined_modifierRound (fence : Fence inner close) (allowed : List String)
    (inside : Inside inner (close :: after) s) :
    Confined inner (close :: after) (modifierRound allowed : EtsRecorder (Round Text)) s fun r _ =>
      RoundGives (fun word => word <:+: textOf inner) r := by
  refine Confined.look (a := isWordOf allowed s.current) inside rfl ?_
  refine Confined.look (a := nextSignificant s.closing s.rest.tail) inside rfl ?_
  refine .ite (fun here => ?_) fun _ => .pure inside trivial
  have noWord : isWordOf allowed close = false := by
    rw [isWordOf, fence.not_isNameToken, Bool.false_and]
  refine (confined_advance inside noWord ((Bool.and_eq_true _ _).mp here).1).bind ?_
  rintro word t inside ⟨-, part, suffix, -⟩
  exact (confined_skipSpace fence inside).bind fun _ u inside _ =>
    .pure inside (inside_of_mem suffix)

/-- The name of a parameter: a word or a pattern in braces or square brackets. -/
theorem confined_parameterName (fence : Fence inner close)
    (inside : Inside inner (close :: after) s)
    {ending : Option Text → EtsRecorder β} {post : β → State Kind Problem → Prop}
    (ends : ∀ name? t, Inside inner (close :: after) t →
      (∀ name ∈ name?, name <:+: textOf inner) →
        Confined inner (close :: after) (ending name?) t post) :
    Confined inner (close :: after)
      (do
        let atName ← looking isNameToken
        let atBrace ← atSymbol "\x7b"
        let atBracket ← atSymbol "["
        if atName then do
          let name? ← (some ·.text) <$> advance
          ending name?
        else if atBrace then do
          let name? ← some <$> readBalanced ['{'] ['}']
          ending name?
        else if atBracket then do
          let name? ← some <$> readBalanced ['['] [']']
          ending name?
        else do
          let name? ← pure none
          ending name?) s post := by
  refine Confined.look (a := isNameToken s.current) inside rfl ?_
  refine Confined.look (a := isSymbol "\x7b" s.current) inside rfl ?_
  refine Confined.look (a := isSymbol "[" s.current) inside rfl ?_
  refine .ite (fun isName => ?_) fun _ => .ite (fun opens => ?_) fun _ =>
    .ite (fun opens => ?_) fun _ => ?_
  · refine .bind (.map ((confined_advance inside fence.not_isNameToken isName).mono ?_)) ends
    rintro t _ ⟨-, part, suffix, -⟩ _ ⟨⟩
    exact inside_of_mem suffix
  · refine .bind (.map ((confined_readBalanced fence inside ?_ (by decide) opens).mono ?_)) ends
    · exact .tail _ (.tail _ (.head _))
    · rintro text _ between _ ⟨⟩
      exact between
  · refine .bind (.map ((confined_readBalanced fence inside ?_ (by decide) opens).mono ?_)) ends
    · exact .tail _ (.head _)
    · rintro text _ between _ ⟨⟩
      exact between
  · exact ends none s inside nofun

/-- The type of a parameter. -/
theorem confined_annotation (fence : Fence inner close) (inside : Inside inner (close :: after) s)
    {ending : Option Text → EtsRecorder β} {post : β → State Kind Problem → Prop}
    (ends : ∀ annotation t, Inside inner (close :: after) t →
      (∀ text ∈ annotation, text <:+: textOf inner) →
        Confined inner (close :: after) (ending annotation) t post) :
    Confined inner (close :: after)
      (do
        if ← takeSymbol ":" then do
          let annotation ← readType?
          skipSpace
          let annotation ← pure annotation
          ending annotation
        else do
          let annotation ← pure none
          ending annotation) s post := by
  refine (confined_takeSymbol fence inside (by decide)).bind fun colon t inside taken => ?_
  refine .ite (fun isTaken => ?_) fun _ => ends none t inside nofun
  obtain ⟨own, part, suffix, isColon, left⟩ := taken isTaken
  have closed := openLevels_of_closesTypes fence.types suffix isColon
  refine (confined_readType? fence ((List.suffix_cons own part).trans suffix) left closed).bind
    fun annotation _ inside between => ?_
  exact (confined_skipSpace fence inside).bind fun _ u inside _ => ends annotation u inside between

/-- The default of a parameter. -/
theorem confined_default (fence : Fence inner close) (inside : Inside inner (close :: after) s)
    {ending : Option Text → EtsRecorder β} {post : β → State Kind Problem → Prop}
    (ends : ∀ default t, Inside inner (close :: after) t →
      (∀ text ∈ default, text <:+: textOf inner) →
        Confined inner (close :: after) (ending default) t post) :
    Confined inner (close :: after)
      (do
        if ← takeSymbol "=" then do
          let value ← readExpression true
          let default ← pure (if value.isEmpty then none else some value)
          ending default
        else do
          let default ← pure none
          ending default) s post := by
  refine (confined_takeSymbol fence inside (by decide)).bind fun equals t inside _ => ?_
  refine .ite (fun _ => ?_) fun _ => ends none t inside nofun
  refine (confined_readExpression fence inside true).bind fun value u inside between => ?_
  refine ends (if value.isEmpty then none else some value) u inside ?_
  split
  · exact nofun
  · rintro _ ⟨⟩
    exact between

theorem confined_parseParameter (fence : Fence inner close)
    (inside : Inside inner (close :: after) s) :
    Confined inner (close :: after) (parseParameter : EtsRecorder (Option Parameter)) s
      fun found _ => ∀ p ∈ found, ∀ text ∈ p.texts, text <:+: textOf inner := by
  refine (confined_collect (fun _ => confined_decoratorRound fence) inside).bind
    fun decorators _ inside decorated => ?_
  refine (confined_collect (fun _ => confined_modifierRound fence _) inside).bind
    fun modifiers _ inside modified => ?_
  refine (confined_takeSymbol fence inside (by decide)).bind fun isRest _ inside _ => ?_
  refine confined_parameterName fence inside fun name? _ inside named => ?_
  cases name? with
  | none => exact (confined_report inside).bind fun _ _ inside _ => .pure inside nofun
  | some name =>
      refine (confined_skipSpace fence inside).bind fun _ _ inside _ => ?_
      refine (confined_takeSymbol fence inside (by decide)).bind fun isOptional t inside _ => ?_
      extract_lets valued typed
      have behindMark : ∀ u t, Inside inner (close :: after) t →
          Confined inner (close :: after) (typed u) t fun found _ =>
            ∀ p ∈ found, ∀ text ∈ p.texts, text <:+: textOf inner := by
        intro u t inside
        refine confined_annotation fence inside fun annotation _ inside annotated => ?_
        refine confined_default fence inside fun default _ inside defaulted => .pure inside ?_
        rintro _ ⟨⟩
        refine List.forall_mem_cons.2 ⟨named name rfl, ?_⟩
        simp only [List.forall_mem_append, List.forall_mem_flatMap, Option.mem_toList]
        exact ⟨⟨⟨decorated, modified⟩, annotated⟩, defaulted⟩
      refine .ite (fun _ => ?_) fun _ => behindMark () t inside
      exact (confined_skipSpace fence inside).bind fun u v inside _ => behindMark u v inside

theorem confined_skipToDelimiter (fence : Fence inner close)
    (inside : Inside inner (close :: after) s) (before : isSymbol ")" s.current = false)
    {start : Nat} (le : s.rest.length ≤ start) :
    Confined inner (close :: after) (skipToDelimiter after.length start : EtsRecorder Unit) s
      fun _ _ => True := by
  obtain ⟨part, suffix, split⟩ := inside
  have sight : s.rest.take (s.rest.length - after.length) = part ++ [close] := by
    rw [split, List.append_cons]
    refine List.take_left' ?_
    simp only [List.length_append, List.length_cons, List.length_nil]
    omega
  let count := delimiterCount 0 (s.rest.take (s.rest.length - after.length))
  have short : count ≤ part.length := by
    show delimiterCount 0 (s.rest.take (s.rest.length - after.length)) ≤ part.length
    rw [sight]
    exact delimiterCount_le fence.closes (Nat.zero_le _) (fence.brackets.suffix suffix).total_eq
  have left : s.rest.drop count = part.drop count ++ close :: after := by
    rw [split, List.drop_append_of_le_length short]
  have later : part.drop count <:+ inner := (List.drop_suffix count part).trans suffix
  refine Confined.look (a := s.rest) ⟨part, suffix, split⟩ rfl ?_
  refine (confined_modify ⟨part, suffix, split⟩ ⟨_, later, left⟩).bind ?_
  rintro _ _ inside rfl
  refine Confined.look (a := s.rest.drop count) inside rfl ?_
  refine .ite (fun same => ?_) fun _ => .pure inside trivial
  -- Nothing has been read since the parameter started, so the next token is not the parenthesis.
  have none : s.rest.drop count = s.rest :=
    (List.drop_suffix count s.rest).eq_of_length_le (le.trans (Nat.le_of_eq same.symm))
  obtain ⟨t, others, behind, here, -⟩ : ∃ t others, t :: others <:+ inner ∧
      s.rest = t :: (others ++ close :: after) ∧ (!isSymbol ")" t) = true :=
    Inside.exists_cons (q := fun t => !isSymbol ")" t) ⟨part, suffix, split⟩
      (by simp [fence.closes]) (by simp [before])
  exact (confined_take (s := { s with rest := s.rest.drop count }) behind (none.trans here)).bind
    fun _ _ inside _ => .pure inside trivial

/-- What stands between a parameter and the comma behind it. -/
theorem confined_parameterEnd (fence : Fence inner close) (inside : Inside inner (close :: after) s)
    {start : Nat} (le : s.rest.length ≤ start) :
    Confined inner (close :: after) (parameterEnd after.length start : EtsRecorder Unit) s
      fun _ _ => True := by
  refine ((confined_skipSpace fence inside).follow skipSpace).bind fun _ t inside skipped => ?_
  refine ((confined_takeSymbol fence inside (by decide)).follow (takeSymbol ",")).bind
    fun taken u inside passed => .ite (fun _ => .pure inside trivial) fun _ => ?_
  refine Confined.look (a := isSymbol ")" u.current) inside rfl ?_
  refine Confined.look (a := decide (after.length < u.rest.length)) inside rfl ?_
  refine .ite (fun goesOn => ?_) fun _ => .pure inside trivial
  have before : isSymbol ")" u.current = false := by
    rw [Bool.and_eq_true, Bool.not_eq_true'] at goesOn
    exact goesOn.1
  refine (confined_report inside).bind fun _ v inside same => ?_
  refine confined_skipToDelimiter fence inside (by rw [same.2, before]) ?_
  rw [same.1]
  exact (passed.2.length_le.trans skipped.2.length_le).trans le

theorem confined_parameterRound (fence : Fence inner close)
    (inside : Inside inner (close :: after) s) :
    Confined inner (close :: after) (parameterRound after.length : EtsRecorder (Round Parameter)) s
      fun r _ => RoundGives (fun p => ∀ text ∈ p.texts, text <:+: textOf inner) r := by
  refine Confined.look (a := decide (after.length < s.rest.length)) inside rfl ?_
  refine .ite (fun _ => .pure inside trivial) fun _ => ?_
  refine (confined_skipSpace fence inside).bind fun _ t inside _ => ?_
  refine Confined.look (a := isSymbol ")" t.current) inside rfl ?_
  refine Confined.look (a := t.rest.isEmpty) inside rfl ?_
  refine .ite (fun _ => .pure inside trivial) fun _ => ?_
  refine Confined.look (a := t.rest) inside rfl ?_
  refine ((confined_parseParameter fence inside).follow parseParameter).bind
    fun found u inside read => ?_
  refine (confined_parameterEnd fence inside read.2.length_le).bind fun _ v inside _ => ?_
  cases found with
  | none => exact .pure inside trivial
  | some p => exact .pure inside (read.1 p rfl)

/-- Reading from the parenthesis to its partner, as the list does before it is taken apart. -/
theorem readBalanced_run {opening : Tok} (split : s.rest = opening :: (inner ++ close :: after))
    (opens : isSymbol "(" opening = true) (balanced : Balanced inner)
    (closes : isSymbol ")" close = true) :
    (readBalanced ['('] [')'] : EtsParser Text) s =
      (textOf (opening :: (inner ++ [close])), { s with rest := after }) := by
  have count := balanced.balancedCount_eq opens closes after
  rw [← split] at count
  have cut : s.rest = (opening :: (inner ++ [close])) ++ after := by
    rw [split, List.cons_append, List.append_assoc, List.singleton_append]
  have length : inner.length + 2 = (opening :: (inner ++ [close])).length := by simp
  show (textOf (s.rest.take (balancedCount ['('] [')'] 0 s.rest)),
    { s with rest := s.rest.drop (balancedCount ['('] [')'] 0 s.rest) }) = _
  rw [count, cut, length, List.take_left, List.drop_left]

theorem parseParameters_run {opening : Tok} (split : s.rest = opening :: (inner ++ close :: after))
    (opens : isSymbol "(" opening = true) (balanced : Balanced inner)
    (closes : isSymbol ")" close = true) :
    ((parseParameters : EtsParser ParameterList) s).1 =
      if inner.any isCommentToken then .source (textOf (opening :: (inner ++ [close])))
      else .items ((collect (parameterRound after.length) : EtsParser (List Parameter))
        { s with rest := inner ++ close :: after }).1 := by
  have read := readBalanced_run split opens balanced closes
  have closed : endsWith (textOf (opening :: (inner ++ [close]))) [')'] = true := by
    have last : textOf [close] = [')'] := by
      rw [textOf_cons, (symbol_of_close closes).2]
      rfl
    rw [← List.cons_append, textOf_append, last]
    exact List.isSuffixOf_iff_suffix.2 (List.suffix_append _ _)
  have own : s.rest.take (s.rest.length - after.length) = opening :: (inner ++ [close]) := by
    have cut : s.rest = (opening :: (inner ++ [close])) ++ after := by
      rw [split, List.cons_append, List.append_assoc, List.singleton_append]
    rw [cut, List.length_append, Nat.add_sub_cancel, List.take_left]
  have noComment {t : Tok} {symbol : String} (here : isSymbol symbol t = true) :
      isCommentToken t = false := by
    cases kind : t.kind <;>
      simp [isSymbol, isSymbolToken, isCommentToken, Kind.isComment, kind] at here ⊢
  have commented : (opening :: (inner ++ [close])).any isCommentToken =
      inner.any isCommentToken := by
    simp [noComment opens, noComment closes]
  have looked : (get : EtsParser (State Kind Problem)) s = (s, s) := rfl
  have remained (t : State Kind Problem) : (remaining : EtsParser (List Tok)) t = (t.rest, t) := rfl
  unfold parseParameters
  simp only [run_bind, looked, read, closed, Bool.not_true, Bool.false_eq_true, if_false, remained,
    own, commented]
  split
  · rfl
  · rw [split]
    rfl

end

/-- A text from between two tokens of a source is a slice of the source between them. -/
theorem exists_slice {source text : Text} {opening close : Tok} {inner after : List Tok}
    (place : opening :: (inner ++ close :: after) <:+ lexemes source)
    (between : text <:+: textOf inner) :
    ∃ i j, opening.stop ≤ i ∧ i ≤ j ∧ j ≤ close.start ∧ text = (source.take j).drop i := by
  obtain ⟨front, whole⟩ := place
  obtain ⟨left, right, inside⟩ := between
  have tiles := tiles_lexemes source
  have isSource : source = textOf (front ++ opening :: (inner ++ close :: after)) := by
    rw [whole, textOf_lexemes]
  rw [← whole] at tiles
  have starts := tiles.start_eq
  have stops := tiles.stop_eq
  have closeAt : close.start = opening.stop + (textOf inner).length := by
    have assoc : front ++ opening :: (inner ++ close :: after) =
        (front ++ opening :: inner) ++ close :: after := by simp
    rw [assoc] at tiles
    have there := tiles.start_eq
    simp only [textOf_append, textOf_cons, List.length_append] at there
    omega
  refine ⟨opening.stop + left.length, opening.stop + left.length + text.length, by omega,
    by omega, ?_, ?_⟩
  · rw [closeAt, ← inside]
    simp only [List.length_append]
    omega
  · have cut : source = ((textOf front ++ opening.text ++ left) ++ text) ++
        (right ++ close.text ++ textOf after) := by
      rw [isSource]
      simp only [textOf_append, textOf_cons, ← inside, List.append_assoc]
    have front : (textOf front ++ opening.text ++ left).length = opening.stop + left.length := by
      simp only [List.length_append]
      omega
    rw [cut, List.take_left' (by rw [List.length_append, front]), List.drop_left' front]

/-- **Parameters stay between their parentheses.**  Where the brackets of each shape that are
opened between a parenthesis and its partner are closed there, and every type has its angle
brackets closed there too, no moment of reading the parameters is past the partner, and all
that is read of them stands between the two. -/
theorem parameters_between {source : Text} {s : State Kind Problem} {opening close : Tok}
    {inner after : List Tok} (place : s.rest <:+ lexemes source)
    (split : s.rest = opening :: (inner ++ close :: after)) (opens : isSymbol "(" opening = true)
    (balanced : Balanced inner) (fence : Fence inner close) :
    let loop := (collect (parameterRound after.length) : EtsRecorder (List Parameter))
      { s with rest := inner ++ close :: after }
    (∀ t ∈ loop.moments, close :: after <:+ t.rest ∧ t.rest <:+ inner ++ close :: after) ∧
      ((parseParameters : EtsParser ParameterList) s).1 =
        (if inner.any isCommentToken then .source (textOf (opening :: (inner ++ [close])))
        else .items loop.result) ∧
      ∀ p ∈ loop.result, ∀ text ∈ p.texts, ∃ i j, opening.stop ≤ i ∧ i ≤ j ∧ j ≤ close.start ∧
        text = (source.take j).drop i := by
  intro loop
  have inside : Inside inner (close :: after) { s with rest := inner ++ close :: after } :=
    ⟨inner, List.suffix_rfl, rfl⟩
  have confined := confined_collect (fun _ => confined_parameterRound fence) inside
  refine ⟨fun t isMoment => ?_, ?_, fun p member text isText => ?_⟩
  · obtain ⟨part, ⟨front, whole⟩, left⟩ := confined.moments t isMoment
    rw [left]
    refine ⟨List.suffix_append _ _, front, ?_⟩
    rw [← List.append_assoc, whole]
  · rw [parseParameters_run split opens balanced fence.closes]
    have tracked : Tracked (collect (parameterRound after.length) : EtsRecorder (List Parameter))
        (collect (parameterRound after.length) : EtsParser (List Parameter)) := inferInstance
    rw [show loop.result = _ from (tracked.tracks _).result_eq]
  · exact exists_slice (split ▸ place) (confined.result p member text isText)

/-- A decorator, nested angle brackets that are closed by one token, a default with brackets
and a rest parameter. -/
def mixedList : Text :=
  "(@Param('x') a?: Map<K, Array<V>> = [(1)], ...b: T[]) \x7b\x7d".toList

/-- The tokens of a source behind its first one, up to a count. -/
def inList (source : Text) (count : Nat) : List Tok :=
  ((lexemes source).drop 1).take count

theorem parameters_mixedList :
    let inner := inList mixedList 35
    let after := (lexemes mixedList).drop 37
    let s : State Kind Problem := .start (lexemes mixedList) (endToken mixedList)
    let loop := (collect (parameterRound after.length) : EtsRecorder (List Parameter))
      { s with rest := inner ++ bracketAt 52 ')' :: after }
    Balanced inner ∧ Fence inner (bracketAt 52 ')') ∧
      s.rest = bracketAt 0 '(' :: (inner ++ bracketAt 52 ')' :: after) ∧
      loop.result.length = 2 ∧
      (∀ t ∈ loop.moments, bracketAt 52 ')' :: after <:+ t.rest) := by
  rw [show mixedList = _ from String.toList_ofList]
  intro inner after s loop
  obtain ⟨balanced, brackets, types, split, two⟩ : Balanced inner ∧ ClosesShapes inner ∧
      closesTypes inner = true ∧
      s.rest = bracketAt 0 '(' :: (inner ++ bracketAt 52 ')' :: after) ∧
      loop.result.length = 2 := by
    decide +kernel
  have fence : Fence inner (bracketAt 52 ')') := ⟨by decide, brackets, types⟩
  refine ⟨balanced, fence, split, two, fun t isMoment => ?_⟩
  exact ((parameters_between List.suffix_rfl split (by decide) balanced fence).1 t isMoment).1

/-- A default behind a type that ends in an angle bracket, written without a blank. -/
def tightList : Text :=
  "(a: Array<T>= []) \x7b\x7d".toList

/-- The lexer reads the angle bracket and the equals sign as one operator, which closes no
level: the type is then read past the parenthesis, and the parenthesis is part of it. -/
theorem parameters_tightList :
    let inner := inList tightList 10
    let after := (lexemes tightList).drop 12
    let s : State Kind Problem := .start (lexemes tightList) (endToken tightList)
    let loop := (collect (parameterRound after.length) : EtsRecorder (List Parameter))
      { s with rest := inner ++ bracketAt 16 ')' :: after }
    Balanced inner ∧ s.rest = bracketAt 0 '(' :: (inner ++ bracketAt 16 ')' :: after) ∧
      ((parseParameters : EtsParser ParameterList) s).1 = .items loop.result ∧
      (∃ t ∈ loop.moments, ¬ bracketAt 16 ')' :: after <:+ t.rest) ∧
      loop.result.map Parameter.typeAnnotation = [some "Array<T>= [])".toList] ∧
      ¬ "Array<T>= [])".toList <:+: textOf inner := by
  rw [show tightList = _ from String.toList_ofList]
  decide +kernel

end UiFormat.Ets

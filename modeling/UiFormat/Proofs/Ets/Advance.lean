/-
# UiFormat.Proofs.Ets.Advance -- the readers of ETS source move forward

Every reader stays behind the place where it started: each moment of its run has a tail of
the tokens it was given, the same closing token, and all errors reported before
(`Tracked`); so has the state it ends in (`Forward`).

Most readers are put together from steps that do, and inherit it.  The rest save a place
and go back to it, or go on at a place they computed: for those the state is followed
itself, from the place where the reader started (`Tracks`).

A reader stands for two programs here, the plain one and the one that records its moments.
Both are the same code, and are taken apart together.
-/
import UiFormat.Ets.Parser
import UiFormat.Proofs.Parse.Reading
import UiFormat.Proofs.Parse.Recording

namespace UiFormat.Ets

open UiFormat.Text
open UiFormat.Parse

set_option autoImplicit false

variable {α β : Type}

/-! ## States that follow each other -/

/-- The state `t` can be reached from `s` by moving forward. -/
structure Follows (s t : State Kind Problem) : Prop where
  rest_suffix : t.rest <:+ s.rest
  closing_eq : t.closing = s.closing
  errors_begin : s.errors <+: t.errors

theorem Follows.refl (s : State Kind Problem) : Follows s s :=
  ⟨List.suffix_rfl, rfl, List.prefix_rfl⟩

theorem Follows.trans {s t u : State Kind Problem} (first : Follows s t) (second : Follows t u) :
    Follows s u :=
  ⟨second.rest_suffix.trans first.rest_suffix, second.closing_eq.trans first.closing_eq,
    first.errors_begin.trans second.errors_begin⟩

theorem follows_run (p : EtsParser α) [forward : Forward p] (s : State Kind Problem) :
    Follows s (p s).2 :=
  ⟨forward.rest_suffix s, forward.closing_eq s, forward.errors_begin s⟩

theorem forward_of_follows {p : EtsParser α} (follows : ∀ s, Follows s (p s).2) : Forward p :=
  ⟨fun s => (follows s).rest_suffix, fun s => (follows s).closing_eq,
    fun s => (follows s).errors_begin⟩

/-- A sequence moves forward when its steps do. -/
theorem forward_then {p : EtsParser α} {f : α → EtsParser β} [Forward p]
    (later : ∀ a, Forward (f a)) : Forward (p >>= f) :=
  forward_bind p f

/-- A choice moves forward when the test and both branches do. -/
theorem forward_choice {p : EtsParser Bool} {yes no : EtsParser α} [Forward p] (found : Forward yes)
    (missing : Forward no) : Forward (do if ← p then yes else no) :=
  inferInstance

/-- Going on at any tail of the tokens of `s` keeps a state reachable from `s`. -/
theorem Follows.continueAt {s t : State Kind Problem} (follows : Follows s t) {rest : List Tok}
    (suffix : rest <:+ s.rest) : Follows s { t with rest } :=
  ⟨suffix, follows.closing_eq, follows.errors_begin⟩

/-! ## Runs -/

/-- A reader of ETS source that keeps its moments. -/
abbrev EtsRecorder := Recorder (State Kind Problem)

/-- A reader of ETS source as it is written, for any monad with the parser's state. -/
abbrev EtsReader (α : Type) :=
  ∀ {m : Type → Type} [Monad m] [MonadState (State Kind Problem) m], m α

/-- From `s` the reader `p` ends in a state that follows `origin`, and `recorder`, which
runs as `p` does, has moments that follow `origin` only. -/
structure Tracks (origin : State Kind Problem) (recorder : EtsRecorder α) (p : EtsParser α)
    (s : State Kind Problem) : Prop where
  result_eq : (recorder s).result = (p s).1
  final_eq : (recorder s).final = (p s).2
  follows : Follows origin (p s).2
  moments : ∀ t ∈ (recorder s).moments, Follows origin t

/-- The moments of `p` and the state it ends in are behind the place where it starts. -/
class Tracked (recorder : outParam (EtsRecorder α)) (p : EtsParser α) : Prop where
  tracks (s : State Kind Problem) : Tracks s recorder p s

/-- From `s` on the reader stays behind `origin`. -/
abbrev StaysFrom (origin : State Kind Problem) (p : EtsReader α) (s : State Kind Problem) : Prop :=
  Tracks origin (p : EtsRecorder α) (p : EtsParser α) s

/-- The reader stays behind the place where it starts. -/
abbrev StaysBehind (p : EtsReader α) : Prop :=
  Tracked (p : EtsRecorder α) (p : EtsParser α)

section

variable {origin s : State Kind Problem}

theorem Tracks.pure (follows : Follows origin s) (a : α) : StaysFrom origin (pure a) s :=
  ⟨rfl, rfl, follows, nofun⟩

theorem Tracks.get (follows : Follows origin s) : StaysFrom origin get s :=
  ⟨rfl, rfl, follows, List.forall_mem_singleton.2 follows⟩

theorem Tracks.set (follows : Follows origin s) {t : State Kind Problem}
    (after : Follows origin t) : StaysFrom origin (MonadState.set t) s :=
  ⟨rfl, rfl, after, List.forall_mem_cons.2 ⟨follows, List.forall_mem_singleton.2 after⟩⟩

theorem Tracks.modify (follows : Follows origin s) {f : State Kind Problem → State Kind Problem}
    (after : Follows origin (f s)) : StaysFrom origin (modify f) s :=
  ⟨rfl, rfl, after, List.forall_mem_cons.2 ⟨follows, List.forall_mem_singleton.2 after⟩⟩

/-- The moments of a sequence are those of its parts. -/
theorem Tracks.bind {r : EtsRecorder α} {g : α → EtsRecorder β} {p : EtsParser α}
    {f : α → EtsParser β} (here : Tracks origin r p s)
    (behind : Tracks origin (g (p s).1) (f (p s).1) (p s).2) :
    Tracks origin (r >>= g) (p >>= f) s := by
  have parts : (r >>= g) s =
      { g (p s).1 (p s).2 with moments := (r s).moments ++ (g (p s).1 (p s).2).moments } := by
    rw [← here.result_eq, ← here.final_eq]
    rfl
  constructor
  · rw [parts]
    exact behind.result_eq
  · rw [parts]
    exact behind.final_eq
  · exact behind.follows
  · rw [parts]
    exact List.forall_mem_append.2 ⟨here.moments, behind.moments⟩

theorem Tracks.ite {c : Prop} [Decidable c] {r u : EtsRecorder α} {p q : EtsParser α}
    (yes : c → Tracks origin r p s) (no : ¬ c → Tracks origin u q s) :
    Tracks origin (if c then r else u) (if c then p else q) s := by
  split
  · rename_i holds
    exact yes holds
  · rename_i fails
    exact no fails

/-- A reader that stays behind its own start stays behind an earlier one. -/
theorem Tracks.run (follows : Follows origin s) (p : EtsParser α) {r : EtsRecorder α}
    [tracked : Tracked r p] : Tracks origin r p s := by
  obtain ⟨sameResult, sameFinal, ends, moments⟩ := tracked.tracks s
  exact ⟨sameResult, sameFinal, follows.trans ends,
    fun t isMoment => follows.trans (moments t isMoment)⟩

end

theorem Tracked.forward {r : EtsRecorder α} {p : EtsParser α} (tracked : Tracked r p) : Forward p :=
  forward_of_follows fun s => (tracked.tracks s).follows

instance (priority := low) forward_of_tracked (p : EtsParser α) {r : EtsRecorder α}
    [tracked : Tracked r p] : Forward p :=
  tracked.forward

/-! ## Steps -/

section

variable {r u : EtsRecorder α} {p q : EtsParser α}

instance tracked_pure (a : α) : StaysBehind (pure a) :=
  ⟨fun s => .pure (.refl s) a⟩

instance tracked_get : StaysBehind get :=
  ⟨fun s => .get (.refl s)⟩

instance tracked_bind {g : α → EtsRecorder β} {f : α → EtsParser β} [first : Tracked r p]
    [second : ∀ a, Tracked (g a) (f a)] : Tracked (r >>= g) (p >>= f) :=
  ⟨fun s => (first.tracks s).bind (.run (first.tracks s).follows _)⟩

instance tracked_map (f : α → β) [Tracked r p] : Tracked (f <$> r) (f <$> p) :=
  tracked_bind (g := fun a => pure (f a)) (f := fun a => pure (f a))

instance tracked_ite (c : Prop) [Decidable c] [yes : Tracked r p] [no : Tracked u q] :
    Tracked (if c then r else u) (if c then p else q) :=
  ⟨fun s => .ite (fun _ => yes.tracks s) (fun _ => no.tracks s)⟩

/-- A sequence stays behind its start when its steps do. -/
theorem tracked_then {g : α → EtsRecorder β} {f : α → EtsParser β} [Tracked r p]
    (later : ∀ a, Tracked (g a) (f a)) : Tracked (r >>= g) (p >>= f) :=
  tracked_bind

/-- A choice stays behind its start when the test and both branches do. -/
theorem tracked_choice {rtest : EtsRecorder Bool} {test : EtsParser Bool} [Tracked rtest test]
    (found : Tracked r p) (missing : Tracked u q) :
    Tracked (do if ← rtest then r else u) (do if ← test then p else q) :=
  tracked_bind

end

instance tracked_current : StaysBehind current := by
  unfold current; infer_instance

instance tracked_remaining : StaysBehind remaining := by
  unfold remaining; infer_instance

instance tracked_atEnd : StaysBehind atEnd := by
  unfold atEnd; infer_instance

instance tracked_looking (q : Tok → Bool) : StaysBehind (looking q) := by
  unfold looking; infer_instance

instance tracked_advance : StaysBehind advance := by
  refine ⟨fun s => (Tracks.run (.refl s) current).bind ?_⟩
  have later := (Follows.refl s).continueAt (List.tail_suffix s.rest)
  exact Tracks.bind (.modify (.refl s) later) (.pure later _)

instance tracked_skipWhile (q : Tok → Bool) : StaysBehind (skipWhile q) :=
  ⟨fun s => .modify (.refl s) ((Follows.refl s).continueAt (List.dropWhile_suffix q))⟩

instance tracked_reportAt (token : Tok) (cause : Problem) :
    StaysBehind (reportAt token cause) :=
  ⟨fun s => .modify (.refl s) ⟨List.suffix_rfl, rfl, List.prefix_append s.errors _⟩⟩

instance tracked_report (cause : Problem) : StaysBehind (report cause) := by
  unfold report; infer_instance

/-- Going on at a place behind the origin. -/
theorem Tracks.continueAt {origin s : State Kind Problem} (follows : Follows origin s)
    {rest : List Tok} (suffix : rest <:+ origin.rest) :
    StaysFrom origin (continueAt rest) s :=
  .modify follows (follows.continueAt suffix)

instance tracked_takeTokens (count : Nat) : StaysBehind (takeTokens count) := by
  refine ⟨fun s => (Tracks.run (.refl s) remaining).bind ?_⟩
  have moved := Tracks.continueAt (.refl s) (List.drop_suffix count s.rest)
  exact moved.bind (.pure moved.follows _)

instance tracked_collectWithin {recorder : EtsRecorder (Round α)} {round : EtsParser (Round α)}
    [step : Tracked recorder round] (fuel : Nat) :
    Tracked (collectWithin recorder fuel) (collectWithin round fuel) := by
  induction fuel with
  | zero => exact tracked_pure []
  | succ fuel ih =>
      refine tracked_then fun r => ?_
      cases r <;> infer_instance

instance tracked_collect {recorder : EtsRecorder (Round α)} {round : EtsParser (Round α)}
    [step : Tracked recorder round] : Tracked (collect recorder) (collect round) :=
  tracked_then fun s => tracked_collectWithin (s.rest.length + 1)

instance tracked_refineWithin {recorder : α → EtsRecorder (Option α)}
    {round : α → EtsParser (Option α)} [step : ∀ a, Tracked (recorder a) (round a)] (fuel : Nat)
    (value : α) : Tracked (refineWithin recorder fuel value) (refineWithin round fuel value) := by
  induction fuel generalizing value with
  | zero => exact tracked_pure value
  | succ fuel ih =>
      refine tracked_then fun found => ?_
      cases found with
      | none => exact tracked_pure value
      | some better => exact ih better

instance tracked_refine {recorder : α → EtsRecorder (Option α)} {round : α → EtsParser (Option α)}
    [step : ∀ a, Tracked (recorder a) (round a)] (value : α) :
    Tracked (refine recorder value) (refine round value) :=
  tracked_then fun s => tracked_refineWithin (s.rest.length + 1) value

/-- The reader takes the next token and goes on from there. -/
def TakesFirst (p : EtsReader α) : Prop :=
  ∃ (g : Tok → EtsRecorder α) (f : Tok → EtsParser α),
    (p : EtsRecorder α) = advance >>= g ∧ (p : EtsParser α) = advance >>= f ∧
      ∀ t, Tracked (g t) (f t)

theorem TakesFirst.stays {p : EtsReader α} (takes : TakesFirst p) : StaysBehind p := by
  obtain ⟨g, f, recorded, plain, later⟩ := takes
  show Tracked p p
  have stays : Tracked (advance >>= g) (advance >>= f) := tracked_bind
  rwa [← recorded, ← plain] at stays

theorem TakesFirst.bind {p : EtsReader α} {f : α → EtsReader β} (takes : TakesFirst p)
    (later : ∀ a, StaysBehind (f a)) : TakesFirst (do let a ← p; f a) := by
  obtain ⟨first, second, recorded, plain, tracked⟩ := takes
  refine ⟨fun t => first t >>= fun a => f a, fun t => second t >>= fun a => f a, ?_, ?_, ?_⟩
  · exact congrArg (fun r : EtsRecorder α => r >>= fun a => f a) recorded
  · exact congrArg (fun q : EtsParser α => q >>= fun a => f a) plain
  · exact fun t => tracked_then later

/-- A reader that looks past some tokens and may go on after the first one it sees
there. -/
theorem tracked_after (skipped stops : Tok → Bool) (found : Tok → List Tok → α) (missing : α) :
    StaysBehind (do
      match (← remaining).dropWhile skipped with
      | [] => return missing
      | t :: rest =>
          if stops t then
            continueAt rest
            return found t rest
          else return missing) := by
  refine ⟨fun s => (Tracks.run (.refl s) remaining).bind ?_⟩
  have inside : s.rest.dropWhile skipped <:+ s.rest := List.dropWhile_suffix skipped
  show Tracks s (match s.rest.dropWhile skipped with | [] => _ | t :: rest => _)
    (match s.rest.dropWhile skipped with | [] => _ | t :: rest => _) s
  cases split : s.rest.dropWhile skipped with
  | nil => exact .pure (.refl s) missing
  | cons t rest =>
      rw [split] at inside
      have moved := Tracks.continueAt (.refl s) ((List.suffix_cons t rest).trans inside)
      exact .ite (fun _ => moved.bind (.pure moved.follows _)) fun _ => .pure (.refl s) missing

instance tracked_skipTrivia : StaysBehind skipTrivia := by
  unfold skipTrivia; infer_instance

instance tracked_skipSpace : StaysBehind skipSpace := by
  unfold skipSpace; infer_instance

instance tracked_skipInlineSpace : StaysBehind skipInlineSpace := by
  unfold skipInlineSpace; infer_instance

instance tracked_trailingComment? : StaysBehind trailingComment? :=
  tracked_after (·.kind == .whitespace) isTrailingComment (fun t _ => some t.text) none

instance tracked_optionalTerminator : StaysBehind optionalTerminator :=
  tracked_after (·.kind == .whitespace) (isSymbolOf [";", ","]) (fun _ _ => ()) ()

instance tracked_readBalanced (opening closing : Text) :
    StaysBehind (readBalanced opening closing) := by
  unfold readBalanced; infer_instance

instance tracked_readBody (what : Text) : StaysBehind (readBody what) := by
  unfold readBody; infer_instance

instance tracked_readExpression (stopAtComma : Bool) :
    StaysBehind (readExpression stopAtComma) := by
  unfold readExpression; infer_instance

instance tracked_readStatement : StaysBehind readStatement := by
  unfold readStatement
  refine tracked_then fun start => tracked_then fun text => ?_
  exact tracked_after (·.kind == .whitespace) (isSymbol ";")
    (fun _ rest => textOf (start.take (start.length - rest.length))) text

instance tracked_readType (stopWords : List Text) : StaysBehind (readType stopWords) := by
  unfold readType; infer_instance

instance tracked_readType? : StaysBehind readType? := by
  unfold readType?; infer_instance

instance tracked_atSymbol (symbol : String) : StaysBehind (atSymbol symbol) := by
  unfold atSymbol; infer_instance

instance tracked_atSymbolOf (symbols : List String) : StaysBehind (atSymbolOf symbols) := by
  unfold atSymbolOf; infer_instance

instance tracked_atWord (words : List String) : StaysBehind (atWord words) := by
  unfold atWord; infer_instance

instance tracked_following : StaysBehind following := by
  unfold following; infer_instance

instance tracked_takeSymbol (symbol : String) : StaysBehind (takeSymbol symbol) := by
  unfold takeSymbol; infer_instance

instance tracked_spanFrom (start : Tok) : StaysBehind (spanFrom start) := by
  unfold spanFrom; infer_instance

instance tracked_surrounded (start : Tok) (newlines : Nat) (n : Node) :
    StaysBehind (surrounded start newlines n) := by
  unfold surrounded; infer_instance

/-! ## Decorators, modifiers and types -/

instance tracked_decoratorRound : StaysBehind decoratorRound := by
  unfold decoratorRound; infer_instance

instance tracked_parseDecorators : StaysBehind parseDecorators := by
  unfold parseDecorators; infer_instance

instance tracked_modifierRound (allowed : List String) : StaysBehind (modifierRound allowed) := by
  unfold modifierRound; infer_instance

instance tracked_parseModifiers (allowed : List String) : StaysBehind (parseModifiers allowed) := by
  unfold parseModifiers; infer_instance

instance tracked_parseName (what : Text) : StaysBehind (parseName what) := by
  unfold parseName; infer_instance

instance tracked_parseTypeParams : StaysBehind parseTypeParams := by
  unfold parseTypeParams; infer_instance

instance tracked_typeListRound : StaysBehind typeListRound := by
  unfold typeListRound; infer_instance

instance tracked_readTypeList : StaysBehind readTypeList := by
  unfold readTypeList; infer_instance

instance tracked_heritageRound (found : Option Text × List Text) :
    StaysBehind (heritageRound found) := by
  unfold heritageRound; infer_instance

instance tracked_parseHeritage : StaysBehind parseHeritage := by
  unfold parseHeritage; infer_instance

/-- A reader that goes back to where it started unless it finds its mark. -/
theorem tracked_unless (p : EtsReader Bool) (found missing : EtsReader α) [StaysBehind p]
    [StaysBehind found] [StaysBehind missing] :
    StaysBehind (do
      let start ← remaining
      if ← p then found
      else
        continueAt start
        missing) := by
  refine ⟨fun s => (Tracks.run (.refl s) remaining).bind ?_⟩
  have looked := Tracks.run (.refl s) (p : EtsParser Bool)
  refine looked.bind (.ite (fun _ => .run looked.follows _) fun _ => ?_)
  have back := Tracks.continueAt looked.follows (List.suffix_refl s.rest)
  exact back.bind (.run back.follows _)

instance tracked_parseReturnType : StaysBehind parseReturnType :=
  tracked_unless (do let _ ← skipTrivia; takeSymbol ":") readType? (pure none)

/-! ## Parameters -/

instance tracked_parseParameter : StaysBehind parseParameter := by
  unfold parseParameter
  refine tracked_then fun decorators => tracked_then fun modifiers => tracked_then fun isRest => ?_
  refine tracked_then fun atName => tracked_then fun atBrace => tracked_then fun atBracket => ?_
  extract_lets recordedName afterName
  have named : ∀ name?, Tracked (recordedName name?) (afterName name?) := by
    intro name?
    cases name? with
    | none => exact tracked_then fun _ => tracked_pure none
    | some name =>
        refine tracked_then fun _ => tracked_then fun isOptional => ?_
        extract_lets recordedType recordedMark afterType afterMark
        have valued : ∀ annotation, Tracked (recordedType annotation) (afterType annotation) := by
          intro annotation
          refine tracked_then fun equals => ?_
          extract_lets recordedDefault afterDefault
          have ends : ∀ default, Tracked (recordedDefault default) (afterDefault default) :=
            fun default => tracked_pure _
          infer_instance
        have typed : ∀ u, Tracked (recordedMark u) (afterMark u) :=
          fun u => tracked_then fun colon => inferInstance
        infer_instance
  infer_instance

instance tracked_isBefore (stop : Nat) : StaysBehind (isBefore stop) := by
  unfold isBefore; infer_instance

instance tracked_skipToDelimiter (stop start : Nat) : StaysBehind (skipToDelimiter stop start) := by
  refine ⟨fun s => (Tracks.run (.refl s) remaining).bind ?_⟩
  have moved := Tracks.continueAt (.refl s)
    (List.drop_suffix (delimiterCount 0 (s.rest.take (s.rest.length - stop))) s.rest)
  exact moved.bind (.run moved.follows (do
    if (← remaining).length = start then
      let _ ← advance))

instance tracked_parameterEnd (stop start : Nat) : StaysBehind (parameterEnd stop start) := by
  unfold parameterEnd; infer_instance

instance tracked_parameterRound (stop : Nat) : StaysBehind (parameterRound stop) := by
  have counted : ∀ parameter : Option Parameter, StaysBehind (match parameter with
      | some p => pure (Round.next p)
      | none => pure .skip) := by
    intro parameter
    cases parameter <;> infer_instance
  unfold parameterRound
  infer_instance

/-- The parameters are read a second time, from inside the parentheses, and then the
place after the parentheses is taken up again. -/
theorem tracks_again {s t : State Kind Problem} (follows : Follows s t) (raw : Text) :
    StaysFrom s (do
      let after ← remaining
      if (s.rest.take (s.rest.length - after.length)).any isCommentToken then
        return .source raw
      continueAt s.rest.tail
      let items ← collect (parameterRound after.length)
      continueAt after
      return ParameterList.items items) t := by
  refine (Tracks.run follows remaining).bind (.ite (fun _ => .pure follows _) fun _ => ?_)
  have inside := Tracks.continueAt follows (List.tail_suffix s.rest)
  have read := Tracks.run inside.follows (collect (parameterRound t.rest.length))
  have behind := Tracks.continueAt read.follows follows.rest_suffix
  exact inside.bind (read.bind (behind.bind (.pure behind.follows _)))

instance tracked_parseParameters : StaysBehind parseParameters := by
  refine ⟨fun s => (Tracks.get (.refl s)).bind ?_⟩
  have read := Tracks.run (.refl s) (readBalanced ['('] [')'])
  refine read.bind (.ite (fun _ => ?_) fun _ => tracks_again read.follows _)
  have reported := Tracks.run read.follows (reportAt s.current .unterminatedParameters)
  exact reported.bind (tracks_again reported.follows _)

/-! ## Members -/

instance tracked_parseBody (isUi : Bool) : StaysBehind (parseBody isUi) :=
  tracked_unless (do let _ ← skipTrivia; atSymbol "\x7b")
    (do
      let source ← readBody "function".toList
      return some (Body.mk source (if isUi then componentTree? source else none)))
    (do
      optionalTerminator
      return none)

instance tracked_parseCallable (c : Callable) : StaysBehind (parseCallable c) := by
  unfold parseCallable; infer_instance

instance tracked_parseMethodRest (name : Text) (decorators : List Decorator) (modifiers : List Text)
    (isOptional : Bool) : StaysBehind (parseMethodRest name decorators modifiers isOptional) := by
  unfold parseMethodRest
  refine tracked_then fun generic => ?_
  extract_lets recordedParams afterParams
  have rest : ∀ typeParams, Tracked (recordedParams typeParams) (afterParams typeParams) := by
    intro typeParams
    exact tracked_then fun opens => inferInstance
  infer_instance

theorem takesFirst_buildBody? : TakesFirst buildBody? := by
  refine ⟨_, _, rfl, rfl, fun _ => tracked_then fun _ => tracked_then fun opens => ?_⟩
  infer_instance

instance tracked_buildBody? : StaysBehind buildBody? :=
  takesFirst_buildBody?.stays

instance tracked_parseBuild? (decorators : List Decorator) :
    StaysBehind (parseBuild? decorators) := by
  unfold parseBuild?
  refine tracked_then fun atBuild => ?_
  split_ifs
  · refine ⟨fun s => (Tracks.run (.refl s) remaining).bind ?_⟩
    have read := Tracks.run (.refl s) buildBody?
    refine read.bind ?_
    cases ((buildBody? : EtsParser (Option Body)) s).1 with
    | some body => exact .pure read.follows _
    | none =>
        have back := Tracks.continueAt read.follows (List.suffix_refl s.rest)
        exact back.bind (.pure back.follows none)
  · infer_instance

instance tracked_memberName? : StaysBehind memberName? := by
  unfold memberName?; infer_instance

instance tracked_parsePropertyRest (p : Property) : StaysBehind (parsePropertyRest p) := by
  unfold parsePropertyRest
  refine tracked_then fun colon => ?_
  extract_lets recordedType afterType
  have typed : ∀ annotation, Tracked (recordedType annotation) (afterType annotation) := by
    intro annotation
    refine tracked_then fun _ => tracked_then fun equals => ?_
    extract_lets recordedValue afterValue
    have ends : ∀ value, Tracked (recordedValue value) (afterValue value) :=
      fun value => tracked_then fun _ => inferInstance
    infer_instance
  infer_instance

instance tracked_parseMemberRest (name : Text) (decorators : List Decorator)
    (modifiers : List Text) : StaysBehind (parseMemberRest name decorators modifiers) := by
  refine tracked_then fun _ => tracked_then fun isOptional => ?_
  extract_lets recordedMark afterMark
  have rest : ∀ isDefinite, Tracked (recordedMark isDefinite) (afterMark isDefinite) := by
    intro isDefinite
    exact tracked_then fun _ => tracked_then fun opens => inferInstance
  infer_instance

instance tracked_parseNamedMember (decorators : List Decorator) :
    StaysBehind (parseNamedMember decorators) := by
  refine tracked_then fun modifiers => tracked_then fun name? => ?_
  cases name? <;> dsimp only <;> infer_instance

instance tracked_parseMember : StaysBehind parseMember := by
  unfold parseMember
  refine tracked_then fun decorators => tracked_then fun build? => ?_
  cases build? <;> infer_instance

instance tracked_memberAt (what : Text) (start : Tok) (newlines : Nat) :
    StaysBehind (memberAt what start newlines) := by
  unfold memberAt
  dsimp only
  refine tracked_then fun before => tracked_then fun member? => ?_
  cases member? <;> infer_instance

instance tracked_memberRound (what : Text) (brace : Tok) :
    StaysBehind (memberRound what brace) := by
  unfold memberRound; infer_instance

instance tracked_parseClassBody (what : Text) : StaysBehind (parseClassBody what) := by
  unfold parseClassBody; infer_instance

/-! ## Declarations -/

theorem takesFirst_parseTypeHead (what : Text) (decorators : List Decorator) :
    TakesFirst (parseTypeHead what decorators) := by
  refine ⟨_, _, rfl, rfl, fun _ => tracked_then fun name? => ?_⟩
  cases name? <;> infer_instance

instance tracked_parseTypeHead (what : Text) (decorators : List Decorator) :
    StaysBehind (parseTypeHead what decorators) :=
  (takesFirst_parseTypeHead what decorators).stays

theorem takesFirst_parseStruct (decorators : List Decorator) :
    TakesFirst (parseStruct decorators) := by
  refine (takesFirst_parseTypeHead _ decorators).bind fun head? => ?_
  cases head? <;> infer_instance

theorem takesFirst_parseClass (decorators : List Decorator) (isAbstract : Bool) :
    TakesFirst (parseClass decorators isAbstract) := by
  refine (takesFirst_parseTypeHead _ decorators).bind fun head? => ?_
  cases head? <;> infer_instance

instance tracked_parseStruct (decorators : List Decorator) : StaysBehind (parseStruct decorators) :=
  (takesFirst_parseStruct decorators).stays

instance tracked_parseClass (decorators : List Decorator) (isAbstract : Bool) :
    StaysBehind (parseClass decorators isAbstract) :=
  (takesFirst_parseClass decorators isAbstract).stays

instance tracked_tentatively {r : EtsRecorder α} {p : EtsParser α} [Tracked r p] :
    Tracked (tentatively r) (tentatively p) := by
  refine ⟨fun s => (Tracks.get (.refl s)).bind ?_⟩
  have read := Tracks.run (.refl s) p
  have back := Tracks.set read.follows (.refl s)
  exact read.bind (back.bind (.pure back.follows _))

theorem takesFirst_parseInterface : TakesFirst parseInterface := by
  refine ⟨_, _, rfl, rfl, fun _ => tracked_then fun name? => ?_⟩
  cases name? with
  | none => exact tracked_pure none
  | some name =>
      refine tracked_then fun typeParams => tracked_then fun _ => tracked_then fun extended => ?_
      extract_lets recordedParents afterParents
      have rest : ∀ parents, Tracked (recordedParents parents) (afterParents parents) := by
        intro parents
        refine tracked_then fun _ => tracked_then fun opens => ?_
        dsimp only
        infer_instance
      infer_instance

instance tracked_parseInterface : StaysBehind parseInterface :=
  takesFirst_parseInterface.stays

theorem takesFirst_parseFunction (decorators : List Decorator) (isAsync : Bool) :
    TakesFirst (parseFunction decorators isAsync) := by
  refine ⟨_, _, rfl, rfl, fun _ => tracked_then fun _ => tracked_then fun isGenerator => ?_⟩
  refine tracked_then fun name? => ?_
  cases name? <;> infer_instance

instance tracked_parseFunction (decorators : List Decorator) (isAsync : Bool) :
    StaysBehind (parseFunction decorators isAsync) :=
  (takesFirst_parseFunction decorators isAsync).stays

instance tracked_atWords (first second : String) : StaysBehind (atWords first second) := by
  unfold atWords; infer_instance

instance tracked_parseDeclaration (decorators : List Decorator) :
    StaysBehind (parseDeclaration decorators) := by
  unfold parseDeclaration
  refine tracked_choice (tracked_parseStruct decorators) ?_
  refine tracked_choice (tracked_parseClass decorators false) ?_
  refine tracked_choice (tracked_then fun _ => inferInstance) ?_
  refine tracked_choice tracked_parseInterface ?_
  refine tracked_choice (tracked_parseFunction decorators false) ?_
  refine tracked_choice (tracked_then fun _ => inferInstance) ?_
  infer_instance

instance tracked_parseImport : StaysBehind parseImport := by
  unfold parseImport; infer_instance

theorem takesFirst_parseExport (decorators : List Decorator) :
    TakesFirst (parseExport decorators) := by
  refine ⟨_, _, rfl, rfl, fun _ => tracked_then fun _ => tracked_then fun isDefault => ?_⟩
  extract_lets recordedText recordedDefault afterText afterDefault
  have declared : ∀ u, Tracked (recordedDefault u) (afterDefault u) := by
    intro u
    refine tracked_then fun more => tracked_then fun found => ?_
    cases found with
    | some declaration => exact tracked_pure _
    | none =>
        dsimp only
        infer_instance
  split_ifs
  · exact tracked_then fun _ => tracked_then declared
  · exact declared ()

instance tracked_parseExport (decorators : List Decorator) : StaysBehind (parseExport decorators) :=
  (takesFirst_parseExport decorators).stays

instance tracked_rejectTopLevel (decorators : List Decorator) :
    StaysBehind (rejectTopLevel decorators) := by
  unfold rejectTopLevel; infer_instance

/-- What follows the search for a declaration. -/
theorem tracked_declared (decorators : List Decorator) (before : List Tok) (found : Option Node) :
    StaysBehind (match found with
      | some n => return .node n
      | none => do
          if (← remaining).length = before.length then rejectTopLevel decorators
          else return .nothing) := by
  cases found <;> infer_instance

instance tracked_parseTopLevel : StaysBehind parseTopLevel := by
  have declared := tracked_declared
  unfold parseTopLevel
  refine tracked_then fun t => ?_
  split_ifs
  · infer_instance
  · refine tracked_choice (tracked_pure _) (tracked_then fun decorators => ?_)
    infer_instance

instance tracked_documentRound : StaysBehind documentRound := by
  unfold documentRound
  refine tracked_then fun newlines => tracked_choice (tracked_pure _) (tracked_then fun start => ?_)
  refine tracked_then fun found => ?_
  cases found <;> infer_instance

instance tracked_parseDocument : StaysBehind parseDocument := by
  unfold parseDocument; infer_instance

end UiFormat.Ets

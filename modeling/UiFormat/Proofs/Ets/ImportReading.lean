/-
# UiFormat.Proofs.Ets.ImportReading -- what the parser reads as an import

How an import is read does not depend on what was read before it: `importAhead` is the import
in front of a token list, and a round of the document loop that finds the word `import` next
gives it, with the comment that closes its line (`run_documentRound_import`).  No other reader
makes an import (`importless_parseDeclaration`), so each one of a document was read in this way,
in front of some tail of the tokens (`exists_importRead`).
-/
import UiFormat.Proofs.Ets.Totality
import UiFormat.Proofs.Ets.Decorators
import UiFormat.Proofs.Ets.ImportForms

namespace UiFormat.Ets

open UiFormat.Text
open UiFormat.Parse

set_option autoImplicit false

variable {s : State Kind Problem}

/-! ## One import -/

theorem raw_withClause (decl : Import) (clause : Text) : (withClause decl clause).raw = decl.raw := by
  unfold withClause
  repeat' split
  all_goals rfl

theorem raw_ofText (text : Text) : (Import.ofText text).raw = text := by
  unfold Import.ofText
  dsimp only
  repeat' split
  all_goals first | rfl | exact raw_withClause _ _

/-- The tokens of the import that comes next. -/
def importTokens (closing : Tok) (ts : List Tok) : List Tok :=
  ts.take (importCount closing 0 [] ts)

/-- The tokens behind it. -/
def behindImport (closing : Tok) (ts : List Tok) : List Tok :=
  ts.drop (importCount closing 0 [] ts)

/-- The import that comes next. -/
def importAhead (closing : Tok) (ts : List Tok) : Import :=
  let raw :=
    match dropEndWhile isTriviaToken (importTokens closing ts) with
    | [] => (ahead closing ts).text
    | kept => textOf kept
  if (importTokens closing ts).any isCommentToken then { raw } else Import.ofText raw

theorem run_parseImport (s : State Kind Problem) :
    (parseImport : EtsParser Node) s =
      (.importDecl {} (importAhead s.closing s.rest), { s with rest := behindImport s.closing s.rest }) :=
  rfl

/-- An import that is taken apart is made from its text. -/
theorem ofText_of_importAhead {closing : Tok} {ts : List Tok}
    (structured : (importAhead closing ts).structured = true) :
    Import.ofText (importAhead closing ts).raw = importAhead closing ts := by
  unfold importAhead at structured ⊢
  dsimp only at structured ⊢
  split at structured
  · cases structured
  · rename_i plain
    rw [if_neg plain, raw_ofText]

/-- The text of an import are its tokens but for the blanks at their end. -/
theorem exists_rawTokens {closing t : Tok} {left : List Tok} (isName : isNameToken t = true) :
    ∃ kept blanks, importTokens closing (t :: left) = kept ++ blanks ∧ kept ≠ [] ∧
      (importAhead closing (t :: left)).raw = textOf kept := by
  have visible : isTriviaToken t = false := by
    rcases kind_of_isNameToken isName with kind | kind <;> simp [isTriviaToken, Kind.isTrivia, kind]
  have opens : t ∈ importTokens closing (t :: left) := by
    have some : 0 < importCount closing 0 [] (t :: left) := importCount_pos isName
    obtain ⟨n, count⟩ := Nat.exists_eq_add_of_lt some
    rw [importTokens, count, Nat.zero_add, List.take_succ_cons]
    exact List.mem_cons_self
  obtain ⟨blanks, split, blank⟩ := exists_dropEndWhile_append isTriviaToken (importTokens closing (t :: left))
  have filled : dropEndWhile isTriviaToken (importTokens closing (t :: left)) ≠ [] := by
    intro empty
    rw [empty, List.nil_append] at split
    rw [split] at opens
    rw [blank t opens] at visible
    cases visible
  refine ⟨_, blanks, split, filled, ?_⟩
  obtain ⟨u, kept, whole⟩ := List.exists_cons_of_ne_nil filled
  rw [importAhead, whole]
  dsimp only
  split
  · rfl
  · exact raw_ofText _

/-- An import that is taken apart has one of the forms. -/
theorem form_of_importAhead {closing : Tok} {ts : List Tok}
    (structured : (importAhead closing ts).structured = true) :
    Form (trim (importAhead closing ts).raw) (importAhead closing ts) := by
  have made := ofText_of_importAhead structured
  have isForm := @form_of_structured (importAhead closing ts).raw (by rwa [made])
  rwa [made] at isForm

/-! ## The comment behind it -/

/-- The comment that closes the line, and what follows it. -/
def commentAhead (ts : List Tok) : Option (Tok × List Tok) :=
  match ts.dropWhile (·.kind == .whitespace) with
  | [] => none
  | t :: rest => if isTrailingComment t then some (t, rest) else none

theorem mem_of_commentAhead {ts rest : List Tok} {t : Tok} (found : commentAhead ts = some (t, rest)) :
    t ∈ ts ∧ isTrailingComment t = true := by
  rw [commentAhead] at found
  split at found
  · cases found
  · rename_i u later split
    split at found
    · rename_i trailing
      cases found
      exact ⟨(List.dropWhile_suffix _).subset (split ▸ List.mem_cons_self), trailing⟩
    · cases found

theorem run_trailingComment? (s : State Kind Problem) :
    (trailingComment? : EtsParser (Option Text)) s =
      ((commentAhead s.rest).map (·.1.text),
        { s with rest := (commentAhead s.rest).elim s.rest Prod.snd }) := by
  have left : (remaining : EtsParser (List Tok)) s = (s.rest, s) := rfl
  rw [trailingComment?, run_bind, left, commentAhead]
  dsimp only
  cases s.rest.dropWhile (·.kind == .whitespace) with
  | nil => rfl
  | cons t rest =>
      dsimp only
      split <;> rfl

/-! ## A round that finds one -/

theorem run_takeSymbol {symbol : String} (other : isSymbol symbol s.current = false) :
    (takeSymbol symbol : EtsParser Bool) s = (false, s) := by
  show (if isSymbol symbol s.current = true then _ else _ : EtsParser Bool) s = _
  rw [other]
  rfl

theorem run_parseDecorators (other : (s.current.kind == .decorator) = false) :
    (parseDecorators : EtsParser (List Decorator)) s = ([], s) := by
  have stops : (decoratorRound : EtsParser (Round Decorator)) s = (.stop, s) := by
    show (if (s.current.kind == .decorator) = true then _ else _ : EtsParser (Round Decorator)) s = _
    rw [other]
    rfl
  show collectWithin (decoratorRound : EtsParser _) (s.rest.length + 1) s = _
  rw [collectWithin_succ, stops]

theorem run_atWord {words : List String} (word : isWordOf words s.current = true) :
    (atWord words : EtsParser Bool) s = (true, s) := by
  show (isWordOf words s.current, s) = _
  rw [word]

/-- A word is no comment, no symbol and no decorator. -/
theorem other_of_isNameToken {t : Tok} (isName : isNameToken t = true) :
    isTriviaToken t = false ∧ isCommentToken t = false ∧ (∀ symbol, isSymbol symbol t = false) ∧
      (t.kind == .decorator) = false := by
  rcases kind_of_isNameToken isName with kind | kind <;>
    simp [isTriviaToken, Kind.isTrivia, isCommentToken, Kind.isComment, isSymbol, isSymbolToken, kind]

theorem run_parseTopLevel_import (word : isWordOf ["import"] s.current = true) :
    (parseTopLevel : EtsParser TopLevel) s =
      (.node (.importDecl {} (importAhead s.closing s.rest)),
        { s with rest := behindImport s.closing s.rest }) := by
  obtain ⟨-, noComment, noSymbol, noDecorator⟩ := other_of_isNameToken (isNameToken_of_isWordOf word)
  rw [parseTopLevel, run_bind]
  show (if isCommentToken s.current = true then _ else _ : EtsParser TopLevel) s = _
  rw [noComment, if_neg Bool.false_ne_true, run_bind, run_takeSymbol (noSymbol ";")]
  dsimp only
  rw [if_neg Bool.false_ne_true, run_bind, run_parseDecorators noDecorator]
  dsimp only
  rw [run_bind, run_atWord word]
  rfl

theorem run_skipTrivia {t : Tok} {left : List Tok} (next : s.rest = t :: left)
    (visible : isTriviaToken t = false) : (skipTrivia : EtsParser Nat) s = (0, s) := by
  show ((s.rest.takeWhile isTriviaToken).countP (·.kind == .newline),
    { s with rest := s.rest.dropWhile isTriviaToken }) = _
  rw [next, List.takeWhile_cons_of_neg (by simp [visible]), List.dropWhile_cons_of_neg (by simp [visible]),
    ← next]
  rfl

theorem run_surrounded (start : Tok) (newlines : Nat) (n : Node) (s : State Kind Problem) :
    ∃ span, (surrounded start newlines n : EtsParser Node) s =
      (n.withAround
        { blankBefore := 2 ≤ newlines, trailingComment := (commentAhead s.rest).map (·.1.text), span := some span },
        { s with rest := (commentAhead s.rest).elim s.rest Prod.snd }) := by
  rw [surrounded, run_bind, run_bind, run_trailingComment?]
  exact ⟨_, rfl⟩

/-- Where the word `import` comes next, a round of the document loop gives the import and the
comment behind it. -/
theorem run_documentRound_import {t : Tok} {left : List Tok} (next : s.rest = t :: left)
    (word : isWordOf ["import"] t = true) :
    let after := behindImport s.closing s.rest
    ∃ span, (documentRound : EtsParser (Round TopLevel)) s =
      (.next (.node (.importDecl
          { trailingComment := (commentAhead after).map (·.1.text), span := some span }
          (importAhead s.closing s.rest))),
        { s with rest := (commentAhead after).elim after Prod.snd }) := by
  intro after
  have here : s.current = t := by rw [State.current, next]; rfl
  rw [documentRound, run_bind, run_skipTrivia next (other_of_isNameToken (isNameToken_of_isWordOf word)).1]
  dsimp only
  rw [run_bind]
  show ∃ span, (if s.rest.isEmpty = true then _ else _ : EtsParser (Round TopLevel)) s = _
  rw [next, List.isEmpty_cons, if_neg Bool.false_ne_true, ← next, run_bind]
  show ∃ span, ((parseTopLevel : EtsParser TopLevel) >>= _) s = _
  rw [run_bind, run_parseTopLevel_import (here ▸ word)]
  obtain ⟨span, around⟩ := run_surrounded s.current 0 (.importDecl {} (importAhead s.closing s.rest))
    { s with rest := after }
  refine ⟨span, ?_⟩
  show ((surrounded s.current 0 _ : EtsParser Node) >>= _) { s with rest := after } = _
  rw [run_bind, around]
  rfl

/-- Where only blanks are left the document ends. -/
theorem run_documentRound_end (blank : ∀ t ∈ s.rest, isTriviaToken t = true) :
    (documentRound : EtsParser (Round TopLevel)) s = (.stop, { s with rest := [] }) := by
  have spaced : ((skipTrivia : EtsParser Nat) s).2 = { s with rest := [] } := by
    show { s with rest := s.rest.dropWhile isTriviaToken } = _
    rw [List.dropWhile_eq_nil_iff.2 blank]
  rw [documentRound, run_bind, spaced]
  rfl

/-- One item, and then the end. -/
theorem collect_single {α : Type} {round : EtsParser (Round α)} {t u : State Kind Problem} {item : α}
    (first : round s = (.next item, t)) (second : round t = (.stop, u)) (filled : s.rest ≠ []) :
    ((collect round : EtsParser (List α)) s).1 = [item] := by
  obtain ⟨head, left, next⟩ := List.exists_cons_of_ne_nil filled
  show (collectWithin round (s.rest.length + 1) s).1 = _
  rw [collectWithin_succ, first, next, List.length_cons]
  dsimp only
  rw [collectWithin_succ, second]

/-- A source that is one import, with blanks behind it, is read as one import. -/
theorem children_of_import {source : Text} {t : Tok} {left : List Tok}
    (next : lexemes source = t :: left) (word : isWordOf ["import"] t = true)
    (blank : let after := behindImport (endToken source) (lexemes source)
      ∀ t ∈ (commentAhead after).elim after Prod.snd, isTriviaToken t = true) :
    ∃ around, (parse source).1.children =
      [.importDecl around (importAhead (endToken source) (lexemes source))] := by
  obtain ⟨span, first⟩ := run_documentRound_import (s := startOf source) next word
  have found := collect_single first (run_documentRound_end blank) (by
    show lexemes source ≠ []
    rw [next]
    exact List.cons_ne_nil t left)
  have children : (parse source).1.children =
      openSequence (((collect documentRound : EtsParser (List TopLevel)) (startOf source)).1.filterMap
        TopLevel.node?) := rfl
  rw [children, found]
  exact ⟨_, rfl⟩

/-! ## No other reader gives an import -/

/-- An import is not among what was found. -/
def Importless (found : Option Node) : Prop :=
  ∀ around i, .importDecl around i ∉ found

theorem importless_none : Importless none := by
  intro around i isFound
  cases isFound

theorem importless_some {n : Node} (other : ∀ around i, n ≠ .importDecl around i) :
    Importless (some n) := by
  intro around i isFound
  exact other around i (Option.some.inj isFound)

section

variable (decorators : List Decorator)

theorem importless_parseStruct : Yields (parseStruct decorators) Importless := by
  refine yields_bind fun head => ?_
  cases head with
  | none => exact yields_pure importless_none
  | some head => exact yields_bind fun members => yields_pure (importless_some nofun)

theorem importless_parseClass (isAbstract : Bool) :
    Yields (parseClass decorators isAbstract) Importless := by
  refine yields_bind fun head => ?_
  cases head with
  | none => exact yields_pure importless_none
  | some head => exact yields_bind fun members => yields_pure (importless_some nofun)

theorem importless_parseInterface : Yields parseInterface Importless := by
  refine yields_bind fun _ => yields_bind fun name => ?_
  cases name with
  | none => exact yields_pure importless_none
  | some name =>
      refine yields_bind fun typeParams => yields_bind fun _ => yields_bind fun extended => ?_
      extract_lets withParents
      have found : ∀ parents, Yields (withParents parents) Importless := by
        intro parents
        refine yields_bind fun _ => yields_bind fun opened => ?_
        refine yields_ite (fun _ => yields_bind fun _ => yields_pure importless_none) fun _ => ?_
        refine yields_bind fun members => yields_bind fun body => ?_
        refine yields_ite ?_ ?_
        · exact fun _ => yields_bind fun _ => yields_pure (importless_some nofun)
        · exact fun _ => yields_pure (importless_some nofun)
      refine yields_ite ?_ ?_
      · exact fun _ => yields_bind fun _ => yields_bind found
      · exact fun _ => yields_bind found

theorem importless_parseFunction (isAsync : Bool) :
    Yields (parseFunction decorators isAsync) Importless := by
  refine yields_bind fun _ => yields_bind fun _ => yields_bind fun isGenerator => ?_
  refine yields_bind fun name => ?_
  cases name with
  | none => exact yields_pure importless_none
  | some name =>
      refine yields_bind fun typeParams => yields_bind fun _ => yields_bind fun opened => ?_
      refine yields_ite ?_ ?_
      · exact fun _ => yields_bind fun read => yields_pure (importless_some nofun)
      · exact fun _ => yields_bind fun _ => yields_pure (importless_some nofun)

theorem importless_parseDeclaration : Yields (parseDeclaration decorators) Importless := by
  refine yields_bind fun _ => yields_ite (fun _ => importless_parseStruct decorators) fun _ => ?_
  refine yields_bind fun _ => yields_ite (fun _ => importless_parseClass decorators false) fun _ => ?_
  refine yields_bind fun _ => yields_ite ?_ fun _ => ?_
  · exact fun _ => yields_bind fun _ => yields_bind fun _ => importless_parseClass decorators true
  refine yields_bind fun _ => yields_ite (fun _ => importless_parseInterface) fun _ => ?_
  refine yields_bind fun _ => yields_ite (fun _ => importless_parseFunction decorators false) fun _ => ?_
  refine yields_bind fun _ => yields_ite ?_ fun _ => ?_
  · exact fun _ => yields_bind fun _ => yields_bind fun _ => importless_parseFunction decorators true
  refine yields_bind fun _ => yields_ite ?_ fun _ => yields_pure importless_none
  exact fun _ => yields_bind fun _ => yields_pure (importless_some nofun)

/-- An export is no import, whatever it exports. -/
theorem importless_parseExport :
    Yields (parseExport decorators) fun n => ∀ around i, n ≠ .importDecl around i := by
  refine yields_bind fun _ => yields_bind fun _ => yields_bind fun isDefault => ?_
  extract_lets kept withDefault
  have found : ∀ u, Yields (withDefault u) fun n => ∀ around i, n ≠ .importDecl around i := by
    intro u
    refine yields_bind fun more => yields_bind fun declaration => ?_
    cases declaration with
    | some declaration => exact yields_pure nofun
    | none =>
        refine yields_ite ?_ ?_
        · exact fun _ => yields_bind fun _ => yields_bind fun text => yields_pure nofun
        · exact fun _ => yields_bind fun text => yields_pure nofun
  refine yields_ite ?_ ?_
  · exact fun _ => yields_bind fun _ => yields_bind fun _ => found ()
  · exact fun _ => found ()

end

/-! ## The imports of a document -/

/-- The result of a reader and the state it ends in are related. -/
def Ends {α : Type} (post : α → State Kind Problem → Prop) (p : EtsParser α)
    (s : State Kind Problem) : Prop :=
  post (p s).1 (p s).2

section

variable {α β : Type} {post : α → State Kind Problem → Prop}

theorem Ends.step {p : EtsParser β} {f : β → EtsParser α}
    (later : ∀ b t, p s = (b, t) → Ends post (f b) t) : Ends post (p >>= f) s :=
  later _ _ rfl

theorem Ends.ite {c : Prop} [Decidable c] {p q : EtsParser α} (yes : c → Ends post p s)
    (no : ¬ c → Ends post q s) : Ends post (if c then p else q) s := by
  split
  · rename_i holds
    exact yes holds
  · rename_i fails
    exact no fails

end

/-- The import comes next in `ts`, with `left` behind it. -/
structure ComesNext (closing : Tok) (ts : List Tok) (i : Import) (left : List Tok) : Prop where
  word : isWordOf ["import"] (ahead closing ts) = true
  import_eq : i = importAhead closing ts
  left_eq : left = behindImport closing ts

/-- If an import is found at the top level, it comes next behind what was passed over. -/
def FindsImport (s : State Kind Problem) (found : TopLevel) (t : State Kind Problem) : Prop :=
  ∀ around i, found = .node (.importDecl around i) →
    ∃ ts, ts <:+ s.rest ∧ ComesNext s.closing ts i t.rest

theorem findsImport_of_ne {found : TopLevel} {t : State Kind Problem}
    (other : ∀ around i, found ≠ .node (.importDecl around i)) : FindsImport s found t :=
  fun around i same => absurd same (other around i)

theorem findsImport_parseTopLevel (s : State Kind Problem) :
    FindsImport s ((parseTopLevel : EtsParser TopLevel) s).1 ((parseTopLevel : EtsParser TopLevel) s).2 := by
  show Ends (FindsImport s) parseTopLevel s
  refine .step fun t s' run => ?_
  obtain ⟨rfl, rfl⟩ := Prod.mk.inj run
  refine .ite (fun _ => .step fun _ t _ => findsImport_of_ne nofun) fun _ => ?_
  refine .step fun taken t run => .ite (fun _ => findsImport_of_ne nofun) fun _ => ?_
  have reached := follows_of_run run
  refine .step fun decorators u run => ?_
  replace reached := reached.trans (follows_of_run run)
  refine .step fun here v run => ?_
  obtain ⟨rfl, rfl⟩ := Prod.mk.inj run
  refine .ite (fun imports => ?_) fun _ => ?_
  · rintro around i same
    obtain ⟨-, word⟩ := Bool.and_eq_true_iff.1 imports
    cases same
    rw [← reached.closing_eq]
    exact ⟨u.rest, reached.rest_suffix, word, rfl, rfl⟩
  refine .step fun _ v _ => .ite (fun _ => .step fun n w read => ?_) fun _ => ?_
  · refine findsImport_of_ne fun around i same => ?_
    have other := importless_parseExport decorators v
    rw [read] at other
    exact other around i (TopLevel.node.inj same)
  refine .step fun before w _ => .step fun found x read => ?_
  cases found with
  | none =>
      refine .step fun _ y _ => .ite (fun _ => ?_) fun _ => findsImport_of_ne nofun
      refine .ite (fun _ => .step fun _ z _ => findsImport_of_ne nofun) fun _ => ?_
      exact .step fun _ z _ => findsImport_of_ne nofun
  | some n =>
      refine findsImport_of_ne fun around i same => ?_
      have other := importless_parseDeclaration decorators w
      rw [read] at other
      exact other around i (congrArg some (TopLevel.node.inj same))

/-- The import with the comment behind it was read in front of some of the tokens. -/
def ReadFrom (closing : Tok) (tokens : List Tok) (around : Surroundings) (i : Import) : Prop :=
  ∃ ts, ts <:+ tokens ∧ isWordOf ["import"] (ahead closing ts) = true ∧ i = importAhead closing ts ∧
    around.trailingComment = (commentAhead (behindImport closing ts)).map (·.1.text)

theorem ReadFrom.mono {closing : Tok} {ts tokens : List Tok} {around : Surroundings} {i : Import}
    (suffix : ts <:+ tokens) (read : ReadFrom closing ts around i) : ReadFrom closing tokens around i := by
  obtain ⟨inner, inside, rest⟩ := read
  exact ⟨inner, inside.trans suffix, rest⟩

theorem importDecl_of_withAround {n : Node} {a around : Surroundings} {i : Import}
    (same : n.withAround a = .importDecl around i) : a = around ∧ n = .importDecl n.around i := by
  cases n <;> cases same
  exact ⟨rfl, rfl⟩

/-- If a round gives an import, it was read. -/
def GivesRead (s : State Kind Problem) (found : Round TopLevel) (_ : State Kind Problem) : Prop :=
  ∀ around i, found = .next (.node (.importDecl around i)) ∨ found = .last (.node (.importDecl around i)) →
    ReadFrom s.closing s.rest around i

theorem givesRead_documentRound (s : State Kind Problem) :
    GivesRead s ((documentRound : EtsParser (Round TopLevel)) s).1
      ((documentRound : EtsParser (Round TopLevel)) s).2 := by
  have nothing : ∀ {found : Round TopLevel} {t : State Kind Problem},
      (∀ around i, found ≠ .next (.node (.importDecl around i))) →
        (∀ item, found ≠ .last item) → GivesRead s found t :=
    fun notNext notLast around i same =>
      same.elim (fun next => absurd next (notNext around i)) fun last => absurd last (notLast _)
  show Ends (GivesRead s) documentRound s
  refine .step fun newlines t run => ?_
  have reached := follows_of_run run
  refine .step fun ended u run => ?_
  obtain ⟨rfl, rfl⟩ := Prod.mk.inj run
  refine .ite (fun _ => nothing nofun nofun) fun _ => ?_
  refine .step fun _ u run => ?_
  obtain ⟨rfl, rfl⟩ := Prod.mk.inj run
  refine .step fun found u run => ?_
  cases found with
  | nothing => exact nothing nofun nofun
  | dropped token => exact nothing nofun nofun
  | node n =>
      refine .step fun m v surrounds => ?_
      rintro around i (same | same)
      · have finds := findsImport_parseTopLevel t
        rw [run] at finds
        obtain ⟨span, whole⟩ := run_surrounded t.current newlines n u
        rw [surrounds] at whole
        obtain ⟨isAround, made⟩ := importDecl_of_withAround
          ((congrArg Prod.fst whole).symm.trans (TopLevel.node.inj (Round.next.inj same)))
        obtain ⟨ts, suffix, ⟨word, isAhead, left⟩⟩ := finds _ i (congrArg TopLevel.node made)
        rw [reached.closing_eq] at word isAhead left
        exact ⟨ts, suffix.trans reached.rest_suffix, word, isAhead, by rw [← isAround, left]⟩
      · cases same

theorem exists_of_mem_openSequence {ns : List Node} {n : Node} (member : n ∈ openSequence ns) :
    ∃ m ∈ ns, ∃ blankBefore, n = m.withAround { m.around with blankBefore } := by
  cases ns with
  | nil => cases member
  | cons first ns =>
      rcases List.mem_cons.1 member with rfl | later
      · exact ⟨first, List.mem_cons_self, _, rfl⟩
      · exact ⟨n, List.mem_cons_of_mem _ later, n.around.blankBefore, by cases n <;> rfl⟩

/-- **Every import was read.**  Each import of a document is the one that came next in front of
some tokens of the source, and the comment behind it is the one that closes its line. -/
theorem exists_importRead {source : Text} {around : Surroundings} {i : Import}
    (member : .importDecl around i ∈ (parse source).1.children) :
    ReadFrom (endToken source) (lexemes source) around i := by
  have loop := (loopEnds_of_below below_documentRound).finishes 0 (startOf source) (isAt_start source)
  have all : ∀ item ∈ ((collect documentRound : EtsParser (List TopLevel)) (startOf source)).1,
      ∀ around i, item = .node (.importDecl around i) →
        ReadFrom (endToken source) (lexemes source) around i := by
    refine Finishes.forall_items loop (fun s (reached : Follows (startOf source) s) => ?_)
      (fun s reached item given around i same => ?_) (Follows.refl _)
    · exact reached.trans (follows_run _ s)
    · have read := givesRead_documentRound s around i (same ▸ given)
      rw [reached.closing_eq] at read
      exact read.mono reached.rest_suffix
  obtain ⟨n, isChild, blankBefore, same⟩ := exists_of_mem_openSequence member
  obtain ⟨item, isItem, isNode⟩ := List.mem_filterMap.1 isChild
  obtain ⟨isAround, made⟩ := importDecl_of_withAround same.symm
  have isImport : item = .node (.importDecl n.around i) := by
    cases item <;> cases isNode
    rw [← made]
  obtain ⟨ts, suffix, word, isAhead, trailing⟩ := all item isItem _ i isImport
  exact ⟨ts, suffix, word, isAhead, by rw [← isAround]; exact trailing⟩

end UiFormat.Ets

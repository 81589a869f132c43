/-
# UiFormat.Proofs.Ets.NodeLayout -- a silent parse lays out its source

A silent round of the two loops, over members (`step_memberRound`) and over the top
level (`step_documentRound`), skips blanks and then reads one piece of the layout, or
ends the loop (`Step`).  A loop of such rounds lays out the whole stretch it reads
(`laid_of_collect`).

Between the two loops stand the readers of declarations: they find one, with its
members laid out between its braces, or stay where they are (`reads_parseDeclaration`).

Main statement: `laid_of_silent`.
-/
import UiFormat.Proofs.Ets.SilentReading

namespace UiFormat.Ets

open UiFormat.Text
open UiFormat.Parse

set_option autoImplicit false

variable {α β : Type} {closing : Tok} {ts rest : List Tok}

/-! ## Rounds of a loop -/

/-- What a silent round of a loop reads: blanks, and then one piece or what ends the
loop. -/
inductive Step {ι : Type} (inside : Nat → List Tok → Node → Prop) (separators : List String)
    (node? : ι → Option Node) (dropped? : ι → Option Tok) (ends : List Tok → List Tok → Prop)
    (place : Nat) : List Tok → Round ι → List Tok → Prop
  | stop {blanks last rest : List Tok} (blank : ∀ t ∈ blanks, isTriviaToken t = true)
      (closes : ends last rest) :
      Step inside separators node? dropped? ends place (blanks ++ (last ++ rest)) .stop rest
  | skip {blanks own rest : List Tok} (blank : ∀ t ∈ blanks, isTriviaToken t = true)
      (here : Piece inside separators (place + (textOf blanks).length) own none none) :
      Step inside separators node? dropped? ends place (blanks ++ (own ++ rest)) .skip rest
  | next {blanks own rest : List Tok} {item : ι} (blank : ∀ t ∈ blanks, isTriviaToken t = true)
      (here : Piece inside separators (place + (textOf blanks).length) own (node? item)
        (dropped? item)) :
      Step inside separators node? dropped? ends place (blanks ++ (own ++ rest)) (.next item) rest

section

variable {ι : Type} {inside : Nat → List Tok → Node → Prop} {separators : List String}
  {node? : ι → Option Node} {dropped? : ι → Option Tok} {ends : List Tok → List Tok → Prop}
  {round : EtsParser (Round ι)} [Forward round]

theorem filterMap_cons_toList {γ : Type} (f : ι → Option γ) (item : ι) (items : List ι) :
    (item :: items).filterMap f = (f item).toList ++ items.filterMap f := by
  cases found : f item <;> simp [found]

/-- A loop of such rounds lays out what it reads, up to what ends it. -/
theorem laid_of_collectWithin
    (step : ∀ {place : Nat} {ts : List Tok} {r : Round ι} {rest : List Tok},
      Placed closing place ts → Reads closing round ts r rest →
        Step inside separators node? dropped? ends place ts r rest)
    {fuel place : Nat} {items : List ι} (enough : ts.length < fuel)
    (placed : Placed closing place ts)
    (reads : Reads closing (collectWithin round fuel) ts items rest) :
    ∃ body last, ts = body ++ (last ++ rest) ∧ ends last rest ∧
      Laid inside separators place body (items.filterMap node?) (items.filterMap dropped?) := by
  induction fuel generalizing place ts items with
  | zero => omega
  | succ fuel ih =>
      obtain ⟨r, between, here, later, -⟩ := reads_split reads fun r => by
        cases r <;> infer_instance
      cases step placed here with
      | @stop blanks last _ blank closes =>
          obtain ⟨rfl, rfl⟩ := reads_pure.1 later
          refine ⟨blanks, last, rfl, closes, ?_⟩
          have laid : Laid inside separators place (blanks ++ []) [] [] := Laid.blanks blank .done
          simpa using laid
      | @skip blanks own _ blank piece =>
          have shorter : between.length < fuel := by
            have some := List.length_pos_of_ne_nil piece.ne_nil
            simp only [List.length_append] at enough
            omega
          obtain ⟨body, last, rfl, closes, laid⟩ := ih shorter placed.right.right later
          exact ⟨blanks ++ (own ++ body), last, by simp, closes,
            Laid.blanks blank (.piece piece laid)⟩
      | @next blanks own _ item blank piece =>
          have shorter : between.length < fuel := by
            have some := List.length_pos_of_ne_nil piece.ne_nil
            simp only [List.length_append] at enough
            omega
          obtain ⟨items, left, later, done⟩ := reads_bind.1 later
          obtain ⟨rfl, rfl⟩ := reads_pure.1 done
          obtain ⟨body, last, rfl, closes, laid⟩ := ih shorter placed.right.right later
          refine ⟨blanks ++ (own ++ body), last, by simp, closes, ?_⟩
          rw [filterMap_cons_toList, filterMap_cons_toList]
          exact Laid.blanks blank (.piece piece laid)

theorem laid_of_collect
    (step : ∀ {place : Nat} {ts : List Tok} {r : Round ι} {rest : List Tok},
      Placed closing place ts → Reads closing round ts r rest →
        Step inside separators node? dropped? ends place ts r rest)
    {place : Nat} {items : List ι} (placed : Placed closing place ts)
    (reads : Reads closing (collect round) ts items rest) :
    ∃ body last, ts = body ++ (last ++ rest) ∧ ends last rest ∧
      Laid inside separators place body (items.filterMap node?) (items.filterMap dropped?) :=
  laid_of_collectWithin step (Nat.lt_succ_self _) placed reads

end

/-! ## Members in place -/

theorem not_reads_reportAt_bind {token : Tok} {cause : Problem} {f : Unit → EtsParser α}
    [∀ u, Forward (f u)] {a : α} : ¬ Reads closing (reportAt token cause >>= f) ts a rest := by
  intro reads
  obtain ⟨u, between, here, -⟩ := reads_bind.1 reads
  cases congrArg (fun r => r.2.errors) here

/-- Blanks are read over. -/
theorem exists_blanks {f : Nat → EtsParser α} {a : α}
    (reads : Reads closing (skipTrivia >>= f) ts a rest) :
    ∃ blanks more newlines, ts = blanks ++ more ∧ (∀ t ∈ blanks, isTriviaToken t = true) ∧
      Reads closing (f newlines) more a rest :=
  ⟨_, _, _, List.takeWhile_append_dropWhile.symm, fun _ => List.mem_takeWhile_imp,
    reads_skipTrivia_bind.1 reads⟩

/-- The node holds no members of its own. -/
def Plain (_place : Nat) (_own : List Tok) (n : Node) : Prop :=
  n.body? = none

theorem yields_parseMemberRest (name : Text) (decorators : List Decorator) (modifiers : List Text) :
    Yields (parseMemberRest name decorators modifiers) fun n => n.body? = none := by
  refine yields_bind fun _ => yields_bind fun isOptional => ?_
  extract_lets afterMark
  have named : ∀ isDefinite, Yields (afterMark isDefinite) fun n => n.body? = none := by
    refine fun isDefinite => yields_bind fun _ => yields_bind fun opens => yields_ite ?_ ?_
    · exact fun _ => yields_bind fun _ => yields_pure rfl
    · exact fun _ => yields_bind fun _ => yields_pure rfl
  exact yields_ite (fun _ => yields_bind named) (fun _ => yields_bind named)

theorem yields_parseBuild? (decorators : List Decorator) :
    Yields (parseBuild? decorators) fun found => ∀ n ∈ found, n.body? = none := by
  refine yields_bind fun _ => yields_ite (fun _ => ?_) fun _ => yields_pure (by simp)
  refine yields_bind fun start => yields_bind fun body? => ?_
  cases body? with
  | none => exact yields_bind fun _ => yields_pure (by simp)
  | some body => exact yields_pure (by simp [Node.body?, Node.declared])

theorem yields_parseNamedMember (decorators : List Decorator) :
    Yields (parseNamedMember decorators) fun found => ∀ n ∈ found, n.body? = none := by
  refine yields_bind fun modifiers => yields_bind fun name? => ?_
  cases name? with
  | none =>
      refine yields_ite ?_ ?_
      · exact fun _ => yields_bind fun _ => yields_pure (by simp)
      · exact fun _ => yields_pure (by simp)
  | some name =>
      intro s n found
      cases found
      exact yields_parseMemberRest name decorators modifiers s

theorem yields_parseMember : Yields parseMember fun found => ∀ n ∈ found, n.body? = none := by
  refine yields_bind fun decorators => (yields_parseBuild? decorators).bind fun build? plain => ?_
  cases build? with
  | none => exact yields_parseNamedMember decorators
  | some n => exact yields_pure plain

/-- A silent member stands for the tokens from its start on; where there is none, that
is reported. -/
theorem reads_memberAt (eof : closing.kind = .eof) {what : Text} {place newlines : Nat}
    {r : Round Node} (placed : Placed closing place ts)
    (reads : Reads closing (memberAt what (ahead closing ts) newlines) ts r rest) :
    ∃ m own trail, r = .next m ∧ ts = own ++ (trail ++ rest) ∧ Stands Plain place own trail m := by
  rw [memberAt, reads_remaining_bind] at reads
  obtain ⟨found, left, here, later, -⟩ := reads_split reads fun found => by
    cases found <;> infer_instance
  rcases reads_parseMember eof here with ⟨rfl, rfl⟩ | ⟨isSome, shorter⟩
  · rw [reads_remaining_bind, if_pos rfl] at later
    exact absurd later not_reads_report_bind
  · obtain ⟨n, rfl⟩ := Option.isSome_iff_exists.1 isSome
    obtain ⟨own, rfl⟩ := here.suffix
    obtain ⟨m, last, around, done⟩ := reads_bind.1 later
    obtain ⟨rfl, rfl⟩ := reads_pure.1 done
    have some : own ≠ [] := by
      rintro rfl
      simp at shorter
    have plain : n.body? = none := reads_yields here _ yields_parseMember n rfl
    have holds (a : Surroundings) : Plain place own (n.withAround a) := by
      rw [Plain, body?_withAround, plain]
    obtain ⟨trail, rfl, stands⟩ := stands_of_surrounded placed some around holds
    exact ⟨m, own, trail, rfl, rfl, stands⟩

/-- A body ends with its brace. -/
def ClosesBody (last _rest : List Tok) : Prop :=
  ∃ t, last = [t] ∧ isSymbol "\x7d" t = true

/-- A round over members reads one member, comment or separator, or the brace that
closes the body. -/
theorem step_memberRound (eof : closing.kind = .eof) {what : Text} {brace : Tok} {place : Nat}
    {r : Round Node} (placed : Placed closing place ts)
    (reads : Reads closing (memberRound what brace) ts r rest) :
    Step Plain [";", ","] some (fun _ => none) ClosesBody place ts r rest := by
  obtain ⟨blanks, more, newlines, rfl, blank, reads⟩ := exists_blanks reads
  rw [reads_atEnd_bind] at reads
  cases more with
  | nil => exact absurd reads not_reads_reportAt_bind
  | cons t left =>
      rcases reads_takeSymbol_bind eof reads with ⟨t', left', same, closes, reads⟩ | ⟨-, reads⟩
      · obtain ⟨rfl, rfl⟩ := reads_pure.1 reads
        cases same
        show Step _ _ _ _ _ _ (blanks ++ ([t] ++ rest)) _ _
        exact .stop blank ⟨t, rfl, closes⟩
      · rw [if_neg Bool.false_ne_true, reads_current_bind, ahead_cons] at reads
        split at reads
        · -- a comment is a member of its own
          rw [reads_advance_bind] at reads
          obtain ⟨m, last, around, done⟩ := reads_bind.1 reads
          obtain ⟨rfl, rfl⟩ := reads_pure.1 done
          have holds (a : Surroundings) :
            Plain (place + (textOf blanks).length) [t] ((commentNode t).withAround a) := rfl
          obtain ⟨trail, rfl, stands⟩ := stands_of_surrounded placed.right (List.cons_ne_nil t [])
            around holds
          show Step _ _ _ _ _ _ (blanks ++ (([t] ++ trail) ++ rest)) _ _
          exact .next blank (.node stands)
        · split at reads
          · rename_i separates
            rw [reads_advance_bind] at reads
            obtain ⟨rfl, rfl⟩ := reads_pure.1 reads
            show Step _ _ _ _ _ _ (blanks ++ ([t] ++ rest)) _ _
            exact .skip blank (.separator separates)
          · obtain ⟨m, own, trail, rfl, split, stands⟩ := reads_memberAt eof placed.right reads
            rw [split, ← List.append_assoc own]
            exact .next blank (.node stands)

/-- The members of a body: what stands between its braces, and the braces themselves
at the end of the tokens `own`. -/
def Encloses (place : Nat) (own : List Tok) (members : List Node) : Prop :=
  ∃ head opening body last, own = head ++ opening :: (body ++ [last]) ∧
    isSymbol "\x7b" opening = true ∧ isSymbol "\x7d" last = true ∧
    Laid Plain [";", ","] (place + (textOf (head ++ [opening])).length) body members []

theorem Encloses.prepend {place : Nat} {front own : List Tok} {members : List Node}
    (encloses : Encloses (place + (textOf front).length) own members) :
    Encloses place (front ++ own) members := by
  obtain ⟨head, opening, body, last, rfl, opens, closes, laid⟩ := encloses
  refine ⟨front ++ head, opening, body, last, by simp, opens, closes, ?_⟩
  rwa [List.append_assoc, textOf_append, List.length_append, ← Nat.add_assoc]

theorem gives_parseClassBody (eof : closing.kind = .eof) (what : Text) :
    Gives closing (parseClassBody what) Encloses := by
  refine ⟨inferInstance, ?_⟩
  intro place ts members rest placed reads
  rw [parseClassBody, skipSpace, reads_skipWhile_bind, reads_atSymbol_bind] at reads
  have split : ts = ts.takeWhile isSpaceToken ++ ts.dropWhile isSpaceToken :=
    List.takeWhile_append_dropWhile.symm
  generalize ts.takeWhile isSpaceToken = head at split
  generalize ts.dropWhile isSpaceToken = more at split reads
  subst split
  split at reads
  · rename_i opens
    obtain ⟨opening, left, rfl, isOpening⟩ := exists_cons_of_ahead eof isSymbol_of_eof opens
    rw [reads_advance_bind] at reads
    obtain ⟨found, after, loop, done⟩ := reads_bind.1 reads
    obtain ⟨rfl, rfl⟩ := reads_pure.1 done
    replace placed : Placed closing place ((head ++ [opening]) ++ left) := by simpa using placed
    obtain ⟨body, last, rfl, ⟨brace, rfl, closes⟩, laid⟩ :=
      laid_of_collect (step_memberRound eof) placed.right loop
    rw [List.filterMap_some, List.filterMap_none] at laid
    refine ⟨head ++ opening :: (body ++ [brace]), by simp, head, opening, body, brace, rfl, isOpening,
      closes, laid.openSequence fun _ _ n a plain => ?_⟩
    rwa [Plain, body?_withAround]
  · exact absurd reads not_reads_report_bind

/-! ## Declarations in place -/

/-- A struct or class has its members between braces at its end. -/
def Bodied (place : Nat) (own : List Tok) (n : Node) : Prop :=
  ∀ members, n.body? = some members → Encloses place own members

/-- There is a declaration, with its members in place. -/
def Declares (place : Nat) (own : List Tok) (found : Option Node) : Prop :=
  ∃ n, found = some n ∧ Bodied place own n

theorem prepends_bodied : Prepends Bodied :=
  fun bodied members found => (bodied members found).prepend

theorem prepends_declares : Prepends Declares := by
  rintro place front own found ⟨n, rfl, bodied⟩
  exact ⟨n, rfl, prepends_bodied bodied⟩

theorem bodied_of_plain {place : Nat} {own : List Tok} {n : Node} (plain : n.body? = none) :
    Bodied place own n := by
  intro members found
  rw [plain] at found
  cases found

theorem gives_parseName (what : Text) :
    Gives closing (parseName what) fun _ _ name? => name?.isSome = true := by
  refine .after id fun _ => .after id fun isName => gives_ite ?_ ?_
  · exact .after id fun _ => gives_pure fun _ => rfl
  · exact gives_report inferInstance

theorem gives_parseTypeHead (what : Text) (decorators : List Decorator) :
    Gives closing (parseTypeHead what decorators) fun _ _ head? => head?.isSome = true := by
  refine .after id fun _ => .found id (gives_parseName what) inferInstance fun name => ?_
  exact .after id fun typeParams => .after id fun heritage => gives_pure fun _ => rfl

/-- The members of a body make a declaration of it. -/
theorem gives_bodied (eof : closing.kind = .eof) {what : Text} {make : List Node → Node}
    (body : ∀ members, (make members).body? = some members) :
    Gives closing (do
      let members ← parseClassBody what
      return some (make members)) Declares := by
  refine (gives_parseClassBody eof what).bind (Q := fun members _ own found =>
    own = [] ∧ found = some (make members)) (fun members => gives_pure fun _ => ⟨rfl, rfl⟩) ?_
  rintro place own members more found encloses ⟨rfl, rfl⟩
  refine ⟨_, rfl, fun others same => ?_⟩
  rw [body members] at same
  cases same
  rwa [List.append_nil]

theorem gives_plain {n : Node} (plain : n.body? = none) :
    Gives closing (pure (some n)) Declares :=
  gives_pure fun _ => ⟨n, rfl, bodied_of_plain plain⟩

/-- A reader that is called at the word its construct begins with. -/
structure Begins (closing : Tok) (p : EtsParser α) (R : Nat → List Tok → α → Prop) : Prop where
  gives : Gives closing p R
  takes : Takes closing p

theorem begins_advance {R : Nat → List Tok → α → Prop} (prepends : Prepends R)
    {f : Tok → EtsParser α} (later : ∀ t, Gives closing (f t) R) :
    Begins closing (advance >>= f) R where
  gives := .after prepends later
  takes := takes_advance.bind fun t => (later t).forward

/-- The reader of a head is followed by the reader of a body. -/
theorem begins_typeHead (eof : closing.kind = .eof) {what : Text} {decorators : List Decorator}
    {f : Option TypeHead → EtsParser (Option Node)} (missing : f none = pure none)
    (make : TypeHead → List Node → Node) (body : ∀ head members, (make head members).body? = some members)
    (headed : ∀ head, f (some head) = (do
      let members ← parseClassBody what
      return some (make head members))) :
    Begins closing (parseTypeHead what decorators >>= f) Declares := by
  have later : ∀ head, Gives closing (f (some head)) Declares := by
    intro head
    rw [headed head]
    exact gives_bodied eof (body head)
  have stays : Forward (f none) := by
    rw [missing]
    infer_instance
  have takes : Takes closing (parseTypeHead what decorators) :=
    takes_advance.bind fun _ => forward_then fun name? => by cases name? <;> infer_instance
  refine ⟨.found prepends_declares (gives_parseTypeHead what decorators) stays later, takes.bind ?_⟩
  rintro (_ | head)
  · exact stays
  · exact (later head).forward

theorem begins_parseStruct (eof : closing.kind = .eof) (decorators : List Decorator) :
    Begins closing (parseStruct decorators) Declares :=
  begins_typeHead eof rfl (fun head members => .structDecl {} head members) (fun _ _ => rfl)
    fun _ => rfl

theorem begins_parseClass (eof : closing.kind = .eof) (decorators : List Decorator)
    (isAbstract : Bool) : Begins closing (parseClass decorators isAbstract) Declares :=
  begins_typeHead eof rfl (fun head members => .classDecl {} head isAbstract members)
    (fun _ _ => rfl) fun _ => rfl

theorem begins_parseInterface : Begins closing parseInterface Declares := by
  refine begins_advance prepends_declares fun _ => ?_
  refine .found prepends_declares (gives_parseName _) inferInstance fun name => ?_
  refine .after prepends_declares fun typeParams => .after prepends_declares fun _ => ?_
  refine .after prepends_declares fun extended => ?_
  extract_lets afterParents
  have found : ∀ parents, Gives closing (afterParents parents) Declares := by
    intro parents
    refine .after prepends_declares fun _ => .after prepends_declares fun opens => gives_ite ?_ ?_
    · exact gives_report inferInstance
    · refine .after prepends_declares fun members => .after prepends_declares fun body => ?_
      exact gives_ite (gives_report inferInstance) (gives_plain rfl)
  refine gives_ite ?_ (.after prepends_declares found)
  exact .after prepends_declares fun _ => .after prepends_declares found

theorem begins_parseFunction (decorators : List Decorator) (isAsync : Bool) :
    Begins closing (parseFunction decorators isAsync) Declares := by
  refine begins_advance prepends_declares fun _ => .after prepends_declares fun _ => ?_
  refine .after prepends_declares fun isGenerator => ?_
  refine .found prepends_declares (gives_parseName _) inferInstance fun name => ?_
  refine .after prepends_declares fun typeParams => .after prepends_declares fun _ => ?_
  refine .after prepends_declares fun opens => gives_ite ?_ (gives_report inferInstance)
  exact .after prepends_declares fun callable => gives_plain rfl

section

variable {t : Tok} {left : List Tok} (isName : isNameToken t = true)

include isName

theorem kind_of_isNameToken : t.kind = .identifier ∨ t.kind = .keyword := by
  simpa [isNameToken] using isName

/-- An expression that begins with a word takes it. -/
theorem expressionCount_pos (stopAtComma : Bool) :
    0 < expressionCount stopAtComma closing 0 none (t :: left) := by
  rcases kind_of_isNameToken isName with kind | kind <;>
    simp [expressionCount, endsBefore, isCommentToken, Kind.isComment, isSymbol, isSymbolOf,
      isSymbolToken, kind]

theorem importCount_pos : 0 < importCount closing 0 [] (t :: left) := by
  rcases kind_of_isNameToken isName with kind | kind <;>
    simp [importCount, isCommentToken, Kind.isComment, isSymbol, isSymbolToken, kind]

theorem shorter_of_readExpression {stopAtComma : Bool} {text : Text}
    (reads : Reads closing (readExpression stopAtComma) (t :: left) text rest) :
    rest.length < (t :: left).length := by
  have noTrivia : isTriviaToken t = false := by
    rcases kind_of_isNameToken isName with kind | kind <;> simp [isTriviaToken, Kind.isTrivia, kind]
  rw [readExpression, reads_skipTrivia_bind, List.dropWhile_cons_of_neg (by simp [noTrivia])] at reads
  obtain rfl : (t :: left).drop (expressionCount stopAtComma closing 0 none (t :: left)) = rest :=
    congrArg (fun r => r.2.rest) reads
  have some : 0 < expressionCount stopAtComma closing 0 none (t :: left) :=
    expressionCount_pos isName stopAtComma
  simp only [List.length_drop, List.length_cons]
  omega

theorem shorter_of_readStatement {text : Text}
    (reads : Reads closing readStatement (t :: left) text rest) :
    rest.length < (t :: left).length := by
  rw [readStatement, reads_remaining_bind] at reads
  obtain ⟨found, between, here, -, suffix⟩ := reads_split reads fun text =>
    (tracked_after (·.kind == .whitespace) (isSymbol ";") (fun _ rest => textOf _) text).forward
  exact Nat.lt_of_le_of_lt suffix.length_le (shorter_of_readExpression isName here)

theorem shorter_of_parseImport {n : Node} (reads : Reads closing parseImport (t :: left) n rest) :
    rest.length < (t :: left).length := by
  obtain rfl : (t :: left).drop (importCount closing 0 [] (t :: left)) = rest :=
    congrArg (fun r => r.2.rest) reads
  have some : 0 < importCount closing 0 [] (t :: left) := importCount_pos isName
  simp only [List.length_drop, List.length_cons]
  omega

end

theorem reads_atWords_bind {first second : String} {f : Bool → EtsParser α} {a : α} :
    Reads closing (atWords first second >>= f) ts a rest ↔
      Reads closing (f (isWordOf [first] (ahead closing ts) &&
        (nextSignificant closing ts.tail).text == second.toList)) ts a rest := by
  have run : (atWords first second : EtsParser Bool) { rest := ts, closing, errors := [] } =
      (isWordOf [first] (ahead closing ts) &&
        (nextSignificant closing ts.tail).text == second.toList,
        { rest := ts, closing, errors := [] }) := by
    show (if isWordOf [first] (ahead closing ts) = true then _ else _ : EtsParser Bool) _ = _
    split
    · rename_i word
      rw [word, Bool.true_and]
      rfl
    · rename_i word
      rw [Bool.eq_false_iff.2 word, Bool.false_and]
      rfl
  rw [Reads]
  show f ((atWords first second : EtsParser Bool) _).1
    ((atWords first second : EtsParser Bool) _).2 = _ ↔ _
  rw [run]
  exact Iff.rfl

theorem isNameToken_of_isWordOf {words : List String} {t : Tok} (word : isWordOf words t = true) :
    isNameToken t = true :=
  (Bool.and_eq_true_iff.1 word).1

/-- Tokens were taken for the node, and its members are in place. -/
def Built (place : Nat) (ts : List Tok) (n : Node) (rest : List Tok) : Prop :=
  ∃ own, own ≠ [] ∧ ts = own ++ rest ∧ Bodied place own n

theorem ne_nil_of_shorter {own : List Tok} (shorter : rest.length < (own ++ rest).length) :
    own ≠ [] := by
  rintro rfl
  exact absurd shorter (Nat.lt_irrefl _)

/-- A silent reader of declarations finds one, with its members in place, or stays
where it is. -/
theorem reads_parseDeclaration (eof : closing.kind = .eof) {decorators : List Decorator}
    {place : Nat} {found : Option Node} (placed : Placed closing place ts)
    (reads : Reads closing (parseDeclaration decorators) ts found rest) :
    (found = none ∧ rest = ts) ∨ ∃ n, found = some n ∧ Built place ts n rest := by
  have declared {p : EtsParser (Option Node)} {words : List String} (begins : Begins closing p Declares)
      (word : isWordOf words (ahead closing ts) = true) (reads : Reads closing p ts found rest) :
      ∃ n, found = some n ∧ Built place ts n rest := by
    obtain ⟨t, left, same, -⟩ := exists_cons_of_ahead eof isWordOf_of_eof word
    have shorter := begins.takes reads (by rw [same]; exact List.cons_ne_nil t left)
    obtain ⟨own, rfl, n, rfl, bodied⟩ := begins.gives.silent placed reads
    exact ⟨n, rfl, own, ne_nil_of_shorter shorter, rfl, bodied⟩
  rw [parseDeclaration, reads_atWord_bind] at reads
  split at reads
  · exact .inr (declared (begins_parseStruct eof decorators) ‹_› reads)
  rw [reads_atWord_bind] at reads
  split at reads
  · exact .inr (declared (begins_parseClass eof decorators false) ‹_› reads)
  rw [reads_atWords_bind] at reads
  split at reads
  · rename_i words
    refine .inr (declared (begins_advance prepends_declares fun _ => ?_) (Bool.and_eq_true_iff.1 words).1 reads)
    exact .after prepends_declares fun _ => (begins_parseClass eof decorators true).gives
  rw [reads_atWord_bind] at reads
  split at reads
  · exact .inr (declared begins_parseInterface ‹_› reads)
  rw [reads_atWord_bind] at reads
  split at reads
  · exact .inr (declared (begins_parseFunction decorators false) ‹_› reads)
  rw [reads_atWords_bind] at reads
  split at reads
  · rename_i words
    refine .inr (declared (begins_advance prepends_declares fun _ => ?_) (Bool.and_eq_true_iff.1 words).1 reads)
    exact .after prepends_declares fun _ => (begins_parseFunction decorators true).gives
  rw [reads_atWord_bind] at reads
  split at reads
  · rename_i words
    obtain ⟨t, left, rfl, word⟩ := exists_cons_of_ahead eof isWordOf_of_eof
      (Bool.and_eq_true_iff.1 words).1
    obtain ⟨text, between, here, done⟩ := reads_bind.1 reads
    obtain ⟨rfl, rfl⟩ := reads_pure.1 done
    have shorter := shorter_of_readStatement (isNameToken_of_isWordOf word) here
    obtain ⟨own, same⟩ := here.suffix
    rw [← same] at shorter
    exact .inr ⟨_, rfl, own, ne_nil_of_shorter shorter, same.symm, bodied_of_plain rfl⟩
  · exact .inl (reads_pure.1 reads)

theorem gives_parseDeclaration (eof : closing.kind = .eof) (decorators : List Decorator) :
    Gives closing (parseDeclaration decorators) fun place own found =>
      ∀ n ∈ found, Bodied place own n := by
  refine ⟨inferInstance, ?_⟩
  intro place ts found rest placed reads
  rcases reads_parseDeclaration eof placed reads with ⟨rfl, rfl⟩ | ⟨n, rfl, own, -, rfl, bodied⟩
  · exact ⟨[], rfl, nofun⟩
  · exact ⟨own, rfl, by rintro m ⟨⟩; exact bodied⟩

theorem bodied_exported {place : Nat} {own : List Tok} {n : Node} {a : Surroundings}
    {isDefault : Bool} (bodied : Bodied place own n) :
    Bodied place own (.exportDecl a isDefault (some n)) := by
  intro members found
  refine bodied members ?_
  cases n with
  | exportDecl => cases found
  | _ => exact found

/-! ## The top level -/

theorem begins_parseExport (eof : closing.kind = .eof) (decorators : List Decorator) :
    Begins closing (parseExport decorators) Bodied := by
  refine begins_advance prepends_bodied fun _ => .after prepends_bodied fun _ => ?_
  refine .after prepends_bodied fun isDefault => ?_
  extract_lets afterText afterDefault
  have declared : ∀ u, Gives closing (afterDefault u) Bodied := by
    intro u
    refine .after prepends_bodied fun more => ?_
    refine (gives_parseDeclaration eof (decorators ++ more)).bind (Q := fun found _ own n =>
      found.elim (n.body? = none) fun d => own = [] ∧ n = .exportDecl {} isDefault (some d)) ?_ ?_
    · rintro (_ | d)
      · have plain : ∀ u, Gives closing (afterText u) fun _ _ n => n.body? = none :=
          fun u => .after id fun text => gives_pure fun _ => rfl
        exact gives_ite (gives_report fun u => (plain u).forward) (plain ())
      · exact gives_pure fun _ => ⟨rfl, rfl⟩
    · rintro place own (_ | d) more n bodied exported
      · exact bodied_of_plain exported
      · obtain ⟨rfl, rfl⟩ := exported
        rw [List.append_nil]
        exact bodied_exported (bodied d rfl)
  refine gives_ite ?_ (declared ())
  exact .after prepends_bodied fun _ => .after prepends_bodied declared

/-- What was read at the top level in silence: a semicolon, a node with its tokens, or
a token that belongs to none. -/
def Tops (place : Nat) (ts : List Tok) (found : TopLevel) (rest : List Tok) : Prop :=
  match found with
  | .nothing => ∃ t, ts = t :: rest ∧ isSymbolOf [";"] t = true
  | .dropped t => ts = t :: rest ∧ isSymbolOf [";"] t = false
  | .node n => Built place ts n rest

theorem isSymbolOf_singleton (symbol : String) (t : Tok) :
    isSymbolOf [symbol] t = isSymbol symbol t := by
  simp only [isSymbolOf, isSymbol, isOneOf, List.any_cons, List.any_nil, Bool.or_false]
  rw [Bool.beq_comm]

theorem reads_parseTopLevel (eof : closing.kind = .eof) {place : Nat} {found : TopLevel}
    (placed : Placed closing place ts) (some : ts ≠ [])
    (reads : Reads closing parseTopLevel ts found rest) : Tops place ts found rest := by
  obtain ⟨t, left, rfl⟩ := List.exists_cons_of_ne_nil some
  rw [parseTopLevel, reads_current_bind, ahead_cons] at reads
  split at reads
  · -- a comment is a node of its own
    rw [reads_advance_bind] at reads
    obtain ⟨rfl, rfl⟩ := reads_pure.1 reads
    exact ⟨[t], List.cons_ne_nil t [], rfl, bodied_of_plain rfl⟩
  rcases reads_takeSymbol_bind eof reads with ⟨u, more, same, isSemicolon, reads⟩ | ⟨other, reads⟩
  · obtain ⟨rfl, rfl⟩ := reads_pure.1 reads
    cases same
    exact ⟨t, rfl, by rw [isSymbolOf_singleton, isSemicolon]⟩
  rw [if_neg Bool.false_ne_true] at reads
  obtain ⟨decorators, between, marks, reads, -⟩ := reads_split reads fun decorators => by
    refine forward_then fun isImport => ?_
    split_ifs
    · infer_instance
    · refine forward_choice inferInstance (forward_then fun before => forward_then fun found => ?_)
      cases found <;> infer_instance
  obtain ⟨front, same⟩ := marks.suffix
  rw [← same] at placed ⊢
  have built {n : Node} (here : Built (place + (textOf front).length) between n rest) :
      Built place (front ++ between) n rest := by
    obtain ⟨own, some, rfl, bodied⟩ := here
    exact ⟨front ++ own, List.append_ne_nil_of_right_ne_nil front some, by simp,
      prepends_bodied bodied⟩
  rw [reads_atWord_bind] at reads
  split at reads
  · rename_i imports
    obtain ⟨u, more, rfl, word⟩ := exists_cons_of_ahead eof isWordOf_of_eof
      (Bool.and_eq_true_iff.1 imports).2
    obtain ⟨n, after, here, done⟩ := reads_bind.1 reads
    obtain ⟨rfl, rfl⟩ := reads_pure.1 done
    have shorter := shorter_of_parseImport (isNameToken_of_isWordOf word) here
    have plain : n.body? = none :=
      reads_yields here (fun n => n.body? = none) (yields_bind fun _ => yields_bind fun _ =>
        yields_pure rfl)
    obtain ⟨own, split⟩ := here.suffix
    rw [← split] at shorter ⊢
    rw [← split] at built
    exact built ⟨own, ne_nil_of_shorter shorter, rfl, bodied_of_plain plain⟩
  rw [reads_atWord_bind] at reads
  split at reads
  · rename_i exports
    obtain ⟨u, more, rfl, -⟩ := exists_cons_of_ahead eof isWordOf_of_eof exports
    obtain ⟨n, after, here, done⟩ := reads_bind.1 reads
    obtain ⟨rfl, rfl⟩ := reads_pure.1 done
    have shorter := (begins_parseExport eof decorators).takes here (List.cons_ne_nil u more)
    obtain ⟨own, split, bodied⟩ := (begins_parseExport eof decorators).gives.silent placed.right here
    rw [split] at shorter
    exact built ⟨own, ne_nil_of_shorter shorter, split, bodied⟩
  rw [reads_remaining_bind] at reads
  obtain ⟨found?, after, here, later, -⟩ := reads_split reads fun found? => by
    cases found? <;> infer_instance
  rcases reads_parseDeclaration eof placed.right here with ⟨rfl, rfl⟩ | ⟨n, rfl, declared⟩
  · rw [reads_remaining_bind, if_pos rfl, rejectTopLevel] at later
    split at later
    · rename_i none
      rw [List.isEmpty_iff] at none
      subst none
      obtain rfl : after = t :: left := eq_of_reads_parseDecorators eof marks
      rw [reads_advance_bind] at later
      obtain ⟨rfl, rfl⟩ := reads_pure.1 later
      obtain rfl : front = [] := by simpa using same
      exact ⟨rfl, by rw [isSymbolOf_singleton]; exact other⟩
    · exact absurd later not_reads_report_bind
  · obtain ⟨rfl, rfl⟩ := reads_pure.1 later
    exact built declared

/-- The top level ends where the source does. -/
def ClosesSource (last rest : List Tok) : Prop :=
  last = [] ∧ rest = []

/-- A round over the top level reads one node, dropped token or semicolon, or the end
of the source. -/
theorem step_documentRound (eof : closing.kind = .eof) {place : Nat} {r : Round TopLevel}
    (placed : Placed closing place ts) (reads : Reads closing documentRound ts r rest) :
    Step Bodied [";"] TopLevel.node? TopLevel.dropped? ClosesSource place ts r rest := by
  obtain ⟨blanks, more, newlines, rfl, blank, reads⟩ := exists_blanks reads
  rw [reads_atEnd_bind] at reads
  split at reads
  · rename_i none
    obtain ⟨rfl, rfl⟩ := reads_pure.1 reads
    rw [List.isEmpty_iff] at none
    subst none
    show Step _ _ _ _ _ _ (blanks ++ ([] ++ [])) _ _
    exact .stop blank ⟨rfl, rfl⟩
  · rename_i some
    rw [List.isEmpty_iff] at some
    rw [reads_current_bind] at reads
    obtain ⟨found, between, here, reads, -⟩ := reads_split reads fun found => by
      cases found <;> infer_instance
    have tops := reads_parseTopLevel eof placed.right some here
    cases found with
    | nothing =>
        obtain ⟨rfl, rfl⟩ := reads_pure.1 reads
        obtain ⟨t, rfl, separates⟩ := tops
        show Step _ _ _ _ _ _ (blanks ++ ([t] ++ rest)) _ _
        exact .skip blank (.separator separates)
    | dropped t =>
        obtain ⟨rfl, rfl⟩ := reads_pure.1 reads
        obtain ⟨rfl, other⟩ := tops
        show Step _ _ _ _ _ _ (blanks ++ ([t] ++ rest)) _ _
        exact .next blank (.dropped other)
    | node n =>
        obtain ⟨own, taken, rfl, bodied⟩ := tops
        obtain ⟨m, last, around, done⟩ := reads_bind.1 reads
        obtain ⟨rfl, rfl⟩ := reads_pure.1 done
        have holds (a : Surroundings) :
            Bodied (place + (textOf blanks).length) own (n.withAround a) := by
          intro members found
          rw [body?_withAround] at found
          exact bodied members found
        obtain ⟨trail, rfl, stands⟩ := stands_of_surrounded placed.right taken around holds
        rw [← List.append_assoc own]
        exact .next blank (.node stands)

theorem reads_parseDocument {source : Text} (silent : (parse source).2 = []) :
    ∃ rest, Reads (endToken source) parseDocument (lexemes source) (parse source).1 rest := by
  obtain ⟨p, isReader⟩ : ∃ p : EtsParser Document, p = parseDocument := ⟨_, rfl⟩
  refine ⟨(p (startOf source)).2.rest, ?_⟩
  have kept : (p (startOf source)).2.closing = endToken source := by
    rw [isReader]
    exact Forward.closing_eq (p := parseDocument) (startOf source)
  have quiet : (p (startOf source)).2.errors = [] := by
    rw [isReader]
    exact silent
  rw [← isReader]
  show p (startOf source) = (_, _)
  rw [← kept, ← quiet, isReader]
  rfl

/-- **A silent parse lays out the source.**  Where nothing is reported, the tokens fall
into blanks, semicolons, dropped tokens and the tokens of the nodes. -/
theorem laid_of_silent {source : Text} (silent : (parse source).2 = []) :
    Laid Bodied [";"] 0 (lexemes source) (parse source).1.children (parse source).1.dropped := by
  obtain ⟨rest, reads⟩ := reads_parseDocument silent
  rw [parseDocument, reads_bind] at reads
  obtain ⟨found, after, loop, done⟩ := reads
  obtain ⟨same, rfl⟩ := reads_pure.1 done
  obtain ⟨body, last, split, ⟨rfl, rfl⟩, laid⟩ :=
    laid_of_collect (step_documentRound rfl) (placed_lexemes source) loop
  rw [List.append_nil, List.append_nil] at split
  rw [same, split]
  refine laid.openSequence fun _ _ n a bodied members found => ?_
  rw [body?_withAround] at found
  exact bodied members found

end UiFormat.Ets

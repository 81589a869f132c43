/-
# UiFormat.Proofs.Ets.ImportTokens -- a rebuilt import says what was written

An import that is taken apart is printed from its parts.  Its tokens are then the tokens it was
written with, semicolons and quotes apart, except that empty entries between the braces are
dropped (`Tidied`).  This holds of the imports that are written strictly (`Import.Strict`); the
recognisers take others apart too, and these four ways are the only ones in which a line that
is printed says something else:

* a comma in front of the braces is optional to them, and another may stand where nothing
  follows it (`import a {b} from 'x'`);
* they take more characters for blanks than the lexer does;
* a word boundary stands between a dollar sign and `from`;
* a path may end in a backslash, which takes the closing quote with it.

Main statement: `wording_print`.
-/
import UiFormat.Ets.Printer
import UiFormat.Proofs.Ets.ImportReading
import UiFormat.Proofs.Ets.Wording

namespace UiFormat.Ets

open UiFormat.Text
open UiFormat.Parse

set_option autoImplicit false

/-! ## What may change -/

def commaWord : Kind × Text := (.punctuator, [','])

def openWord : Kind × Text := (.punctuator, ['{'])

def closeWord : Kind × Text := (.punctuator, ['}'])

/-- The same words, except that empty entries between braces may be missing. -/
inductive Tidied : List (Kind × Text) → List (Kind × Text) → Prop
  | same (words : List (Kind × Text)) : Tidied words words
  | braces (front back : List (Kind × Text)) {entries : List (List (Kind × Text))}
      (plain : ∀ entry ∈ entries, commaWord ∉ entry ∧ openWord ∉ entry ∧ closeWord ∉ entry) :
      Tidied (front ++ openWord :: (List.intercalate [commaWord] entries ++ closeWord :: back))
        (front ++ openWord ::
          (List.intercalate [commaWord] (entries.filter (!·.isEmpty)) ++ closeWord :: back))

theorem Tidied.around {a b : List (Kind × Text)} (tidied : Tidied a b) (front back : List (Kind × Text)) :
    Tidied (front ++ (a ++ back)) (front ++ (b ++ back)) := by
  cases tidied with
  | same => exact .same _
  | braces inner outer plain =>
      have whole := Tidied.braces (front ++ inner) (outer ++ back) plain
      simpa using whole

/-- Where no brace opens nothing changes. -/
theorem Tidied.eq_of_not_mem {a b : List (Kind × Text)} (tidied : Tidied a b) (absent : openWord ∉ a) :
    a = b := by
  cases tidied with
  | same => rfl
  | braces front back plain => simp at absent

theorem length_intercalate_filter_le (p : List (Kind × Text) → Bool) (mark : Kind × Text)
    (entries : List (List (Kind × Text))) :
    (List.intercalate [mark] (entries.filter p)).length ≤ (List.intercalate [mark] entries).length := by
  induction entries with
  | nil => exact Nat.le_refl _
  | cons entry entries ih =>
      have longer : (List.intercalate [mark] entries).length ≤
          (List.intercalate [mark] (entry :: entries)).length := by
        cases entries with
        | nil => exact Nat.zero_le _
        | cons next entries =>
            simp only [List.intercalate_cons_cons, List.length_append]
            omega
      rw [List.filter_cons]
      split
      · cases entries with
        | nil => exact Nat.le_refl _
        | cons next entries =>
            cases kept : (next :: entries).filter p with
            | nil => simp [List.intercalate_cons_cons]
            | cons first others =>
                rw [kept] at ih
                simp only [List.intercalate_cons_cons, List.length_append]
                omega
      · exact Nat.le_trans ih longer

theorem Tidied.length_le {a b : List (Kind × Text)} (tidied : Tidied a b) : b.length ≤ a.length := by
  cases tidied with
  | same => exact Nat.le_refl _
  | @braces front back entries plain =>
      have shorter := length_intercalate_filter_le (!·.isEmpty) commaWord entries
      simp only [List.length_append, List.length_cons]
      omega

/-! ## Strict imports -/

/-- The character stands in front of the braces and of the path. -/
def isHeading (c : Char) : Bool :=
  c != '{' && !isPathQuote c

/-- The import is written without the four liberties that its recognisers allow. -/
structure Import.Strict (i : Import) : Prop where
  /-- In front of the braces and the path a comma stands just where it separates two things. -/
  comma : ',' ∈ i.raw.takeWhile isHeading ↔
    i.defaultName.isSome ∧ (i.names.isSome ∨ i.namespaceName.isSome)
  /-- The lexer knows the blanks in front of the path. -/
  blanks : KnownBlanks (i.raw.takeWhile (!isPathQuote ·))
  /-- The lexer knows the blanks behind the path. -/
  blanksBehind : KnownBlanks (i.raw.reverse.takeWhile (!isPathQuote ·))
  /-- The word `from` does not go on with a name. -/
  separated : endsWith (trimEnd (i.raw.takeWhile (!isPathQuote ·))) "$from".toList = false
  /-- The closing quote of the path closes it. -/
  closed : escapesEnd i.source = false

instance (text : Text) : Decidable (KnownBlanks text) :=
  decidable_of_iff (text.all (fun c => !isBlank c || isTokenBlank c) = true) (by
    simp [KnownBlanks, or_iff_not_imp_left])

instance (i : Import) : Decidable i.Strict :=
  decidable_of_iff ((',' ∈ i.raw.takeWhile isHeading ↔
      i.defaultName.isSome ∧ (i.names.isSome ∨ i.namespaceName.isSome)) ∧
      KnownBlanks (i.raw.takeWhile (!isPathQuote ·)) ∧
      KnownBlanks (i.raw.reverse.takeWhile (!isPathQuote ·)) ∧
      endsWith (trimEnd (i.raw.takeWhile (!isPathQuote ·))) "$from".toList = false ∧
      escapesEnd i.source = false)
    ⟨fun ⟨comma, blanks, behind, separated, closed⟩ => ⟨comma, blanks, behind, separated, closed⟩,
      fun strict => ⟨strict.comma, strict.blanks, strict.blanksBehind, strict.separated, strict.closed⟩⟩

/-! ## Parts -/

theorem loose_gap {gap : Text} (blank : Gap gap) (known : KnownBlanks gap) : Loose gap [] :=
  loose_blanks fun c member => known c member (blank c member)

theorem KnownBlanks.left {a b : Text} (known : KnownBlanks (a ++ b)) : KnownBlanks a :=
  (List.forall_mem_append.1 known).1

theorem KnownBlanks.right {a b : Text} (known : KnownBlanks (a ++ b)) : KnownBlanks b :=
  (List.forall_mem_append.1 known).2

theorem clear_continuesName_of_gap {gap : Text} (blank : Gap gap) (known : KnownBlanks gap) (filled : gap ≠ [])
    (rest : Text) : Clear continuesName (gap ++ rest) := by
  obtain ⟨c, gap, rfl⟩ := List.exists_cons_of_ne_nil filled
  intro d first
  cases first
  exact continuesName_of_isTokenBlank (known c List.mem_cons_self (blank c List.mem_cons_self))

theorem clear_gap_mark {gap rest : Text} {c : Char} (blank : Gap gap) (known : KnownBlanks gap)
    (stops : continuesName c = false) : Clear continuesName (gap ++ c :: rest) := by
  cases gap with
  | nil =>
      intro d first
      cases first
      exact stops
  | cons d gap => exact clear_continuesName_of_gap blank known (List.cons_ne_nil _ _) _

/-- What a default name in front of other parts says. -/
def leadWords : Option Text → List (Kind × Text)
  | none => []
  | some name => wordingFrom false name ++ [commaWord]

theorem loose_lead {lead : Text} {first : Option Text} (leads : Lead lead first first.isSome)
    (known : KnownBlanks lead) : Loose lead (leadWords first) := by
  cases first with
  | none =>
      cases leads
      exact loose_nil
  | some name =>
      cases leads with
      | @both _ gap after isName blank blankAfter =>
          have knownGap : KnownBlanks gap := known.right.left
          have knownAfter : KnownBlanks after := fun c member => known c (by simp [member])
          have comma : Loose [','] [commaWord] := loose_mark (isLone_of_mem (by simp))
          have behind := ((loose_gap blank knownGap).append comma).append (loose_gap blankAfter knownAfter)
          have regrouped : gap ++ ',' :: after = gap ++ [','] ++ after := by simp
          have opens : ∀ w, Clear continuesName ((gap ++ ',' :: after) ++ w) := fun w => by
            rw [List.append_assoc]
            exact clear_gap_mark blank knownGap (by decide)
          rw [regrouped] at opens ⊢
          exact (says_name isName.chars).append_loose opens behind

/-- What a star with a name says. -/
def starWords (name : Text) : List (Kind × Text) :=
  (.operator, ['*']) :: (wordingFrom false "as".toList ++ wordingFrom false name)

theorem says_of_star {name star : Text} (isStar : Star name star) (known : KnownBlanks star) :
    Says star (starWords name) := by
  obtain ⟨blank, blankAfter, filled, isName⟩ := isStar
  rename_i gap after
  have knownGap : KnownBlanks gap := fun c member => known c (by simp [member])
  have knownAfter : KnownBlanks after := fun c member => known c (by simp [member])
  have named : Says (after ++ name) ([] ++ wordingFrom false name) :=
    (loose_gap blankAfter knownAfter).append_piece (says_name isName.chars)
  have word : Says "as".toList (wordingFrom false "as".toList) :=
    says_name (forall_mem_of_all (by decide))
  have whole := (loose_gap blank knownGap).append_piece
    (word.append (clear_continuesName_of_gap blankAfter knownAfter filled name) named)
  refine says_star ?_ (by simp) whole
  refine clear_append (fun c first => ?_) ?_
  · have isGap := blank c (List.mem_of_mem_head? first)
    have notStar : c ≠ '*' := ne_of_isBlank isGap (by decide)
    have notEqual : c ≠ '=' := ne_of_isBlank isGap (by decide)
    simp [notStar, notEqual]
  · intro c first
    cases first
    rfl

/-! ## Entries -/

/-- An entry between the braces says what its specifier says, and nothing when there is none. -/
theorem says_piece {piece : Text} (inside : ∀ c ∈ piece, isSpecifierChar c = true)
    (known : KnownBlanks piece) :
    Says piece (wordingFrom false piece) ∧
      Says (collapseBlanks (trim piece)) (wordingFrom false piece) ∧
      (wordingFrom false piece = [] ↔ collapseBlanks (trim piece) = []) := by
  obtain ⟨left, right, split, blankLeft, blankRight⟩ := exists_trim_append piece
  rw [split] at known
  have knownLeft := known.left
  have knownRight := known.right.right
  have chars : ∀ c ∈ trim piece, isImportChar c = true ∨ isTokenBlank c = true := by
    intro c member
    have inPiece := inside c (mem_of_mem_trim member)
    rw [isSpecifierChar, Bool.or_eq_true] at inPiece
    exact inPiece.imp id (known.right.left c member)
  obtain ⟨words, phrase⟩ := phrase_of_chars chars
  have behind : Clear continuesName right := by
    cases right with
    | nil => exact fun c first => by cases first
    | cons c right =>
        have clear := clear_continuesName_of_gap blankRight knownRight (List.cons_ne_nil _ _) []
        rwa [List.append_nil] at clear
  have whole := (loose_gap blankLeft knownLeft).append_piece
    (phrase.toSays.append behind (loose_gap blankRight knownRight).toSays)
  rw [← split, List.nil_append, List.append_nil] at whole
  obtain rfl : wordingFrom false piece = words := whole.worded false
  refine ⟨whole, (phrase.squeeze false).toSays, fun silent => ?_, fun empty => ?_⟩
  · have blank := phrase.blank_of_silent silent
    have nothing : trim piece = [] := by
      have again := (trim_eq_nil_iff (trim piece)).2 blank
      rwa [trim_trim] at again
    rw [nothing]
    rfl
  · have nothing := squeeze_false_eq_nil empty
    have phrase' := phrase.squeeze false
    rw [show squeeze false (trim piece) = [] from empty] at phrase'
    exact phrase'.toSays.worded.wording_eq.symm.trans (wordingFrom_nil false)

/-- Between braces that hold specifiers each entry says something of its own. -/
theorem says_inner {inner : Text} (known : KnownBlanks inner)
    (all : ∀ name ∈ specifiers inner, isSpecifier name = true) :
    Says inner (List.intercalate [commaWord] ((pieces ',' inner).map (wordingFrom false))) ∧
      (∀ name ∈ specifiers inner, Says name (wordingFrom false name)) ∧
      (specifiers inner).map (wordingFrom false) =
        ((pieces ',' inner).map (wordingFrom false)).filter (!·.isEmpty) := by
  have told : ∀ piece ∈ pieces ',' inner, Says piece (wordingFrom false piece) ∧
      Says (collapseBlanks (trim piece)) (wordingFrom false piece) ∧
      (wordingFrom false piece = [] ↔ collapseBlanks (trim piece) = []) := by
    intro piece isPiece
    refine says_piece (fun c member => ?_) fun c member =>
      known c (mem_of_mem_pieces isPiece member).1
    obtain ⟨inInner, notComma⟩ := mem_of_mem_pieces isPiece member
    exact (isSpecifierChar_of_specifiers all c inInner).resolve_left notComma
  refine ⟨?_, fun name isName => ?_, ?_⟩
  · have comma : Loose [','] [commaWord] := loose_mark (isLone_of_mem (by simp))
    have opens : ∀ rest, Clear continuesName ([','] ++ rest) := by
      intro rest c first
      cases first
      decide
    have whole := says_join comma opens fun piece isPiece => (told piece isPiece).1
    rwa [join_pieces] at whole
  · obtain ⟨isEntry, -⟩ := List.mem_filter.1 isName
    obtain ⟨piece, isPiece, rfl⟩ := List.mem_map.1 isEntry
    have said := (told piece isPiece).2.1
    rwa [← said.worded false] at said
  · rw [specifiers, List.filter_map, List.map_map, List.filter_map]
    have kept : ∀ piece ∈ pieces ',' inner,
        (!(collapseBlanks (trim piece)).isEmpty) = !(wordingFrom false piece).isEmpty := by
      intro piece isPiece
      have same := (told piece isPiece).2.2
      rw [← List.isEmpty_iff, ← List.isEmpty_iff] at same
      rw [Bool.eq_iff_iff.2 same]
    refine (congrArg (List.map _) (List.filter_congr kept)).trans ?_
    refine List.map_congr_left fun piece isKept => ?_
    exact (told piece (List.mem_filter.1 isKept).1).2.1.worded false

/-! ## Clauses -/

/-- What braces say. -/
def braceWords (entries : List (List (Kind × Text))) : List (Kind × Text) :=
  openWord :: (List.intercalate [commaWord] entries ++ [closeWord])

theorem loose_open : Loose ['{'] [openWord] :=
  loose_mark (isLone_of_mem (by simp))

theorem loose_close : Loose ['}'] [closeWord] :=
  loose_mark (isLone_of_mem (by simp))

theorem loose_space : Loose [' '] [] :=
  loose_blanks (List.forall_mem_singleton.2 (by decide))

theorem loose_braces {inner : Text} (known : KnownBlanks inner)
    (all : ∀ name ∈ specifiers inner, isSpecifier name = true) :
    Loose ('{' :: (inner ++ ['}'])) (braceWords ((pieces ',' inner).map (wordingFrom false))) := by
  have closing : ∀ w, Clear continuesName (['}'] ++ w) := by
    intro w c first
    cases first
    decide
  exact loose_open.append ((says_inner known all).1.append_loose closing loose_close)

theorem says_bracedNames (spacing : Bool) {names : List Text}
    (told : ∀ name ∈ names, Says name (wordingFrom false name)) :
    Says (bracedNames spacing names) (braceWords (names.map (wordingFrom false))) := by
  have opens : ∀ {c : Char}, continuesName c = false → ∀ rest, Clear continuesName (c :: rest) := by
    intro c stops rest d first
    cases first
    exact stops
  have comma : Loose ", ".toList [commaWord] :=
    (loose_mark (c := ',') (isLone_of_mem (by simp))).append loose_space
  have joined := says_join comma (opens (by decide)) told
  rw [bracedNames]
  cases empty : names.isEmpty with
  | true =>
      rw [List.isEmpty_iff.1 empty]
      exact (loose_open.append loose_close).toSays
  | false =>
      cases spacing with
      | true =>
          have closing := (loose_space.append loose_close).toSays
          have whole := (loose_open.append loose_space).append_piece
            (joined.append (opens (by decide) _) closing)
          simpa [braceWords] using whole
      | false =>
          have whole := loose_open.append_piece (joined.append (opens (by decide) _) loose_close.toSays)
          simpa [braceWords] using whole

/-- A default name as it is printed in front of other parts. -/
def printedLead : Option Text → Text
  | none => []
  | some name => name ++ ", ".toList

theorem Lead.isName {lead name : Text} {comma : Bool} (leads : Lead lead (some name) comma) :
    ImportName name := by
  cases leads with
  | name isName blank => exact isName
  | both isName blank blankAfter => exact isName

theorem gap_space : Gap [' '] :=
  List.forall_mem_singleton.2 isBlank_space

/-- A name holds no blanks. -/
theorem knownBlanks_of_name {name : Text} (isName : ImportName name) : KnownBlanks name := by
  intro c member blank
  have continues := isName.chars c member
  rw [isImportChar_of_isBlank blank] at continues
  cases continues

theorem lead_printed {first : Option Text} (named : ∀ name ∈ first, ImportName name) :
    Lead (printedLead first) first first.isSome := by
  cases first with
  | none => exact .nothing
  | some name =>
      exact .both (named name rfl) gap_nil gap_space

theorem knownBlanks_printedLead {first : Option Text} (named : ∀ name ∈ first, ImportName name) :
    KnownBlanks (printedLead first) := by
  cases first with
  | none => exact fun c member => by cases member
  | some name =>
      have known := knownBlanks_of_name (named name rfl)
      exact List.forall_mem_append.2 ⟨known, forall_mem_of_all (by decide)⟩

theorem toList_filter_isEmpty {t : Option Text} (named : ∀ name ∈ t, ImportName name) :
    (t.filter (!·.isEmpty)).toList = t.toList := by
  cases t with
  | none => rfl
  | some name =>
      obtain ⟨c, rest, rfl, -⟩ := named name rfl
      rfl

theorem join_printedLead (first : Option Text) (part : Text) :
    join ", ".toList (first.toList ++ [part]) = printedLead first ++ part := by
  cases first <;> rfl

section

variable (o : Options) {raw path name : Text} {first : Option Text}

theorem importClauses_default (isName : ImportName name) :
    importClauses o (Import.ofParts raw path (some name) none none) = [name] := by
  rw [importClauses, Import.ofParts]
  simp only [toList_filter_isEmpty (t := some name) fun _ same => Option.some.inj same ▸ isName]
  rfl

theorem importClauses_named (named : ∀ name ∈ first, ImportName name) (names : List Text) :
    importClauses o (Import.ofParts raw path first (some names) none) =
      first.toList ++ [bracedNames o.bracketSpacing names] := by
  rw [importClauses, Import.ofParts]
  simp only [toList_filter_isEmpty named]
  exact congrArg (· ++ [_]) (List.append_nil _)

theorem importClauses_whole (named : ∀ name ∈ first, ImportName name) (isName : ImportName name) :
    importClauses o (Import.ofParts raw path first none (some name)) =
      first.toList ++ ["* as ".toList ++ name] := by
  rw [importClauses, Import.ofParts]
  simp only [toList_filter_isEmpty named,
    toList_filter_isEmpty (t := some name) fun _ same => Option.some.inj same ▸ isName]
  exact List.append_nil _

end

/-- A text that ends in a name ends in a character that can continue it. -/
theorem ImportName.getLast? {name : Text} (isName : ImportName name) (front : Text) :
    ∃ c ∈ (front ++ name).getLast?, isImportChar c = true := by
  have filled : name ≠ [] := by
    obtain ⟨c, rest, rfl, -⟩ := isName
    exact List.cons_ne_nil _ _
  refine ⟨name.getLast filled, ?_, isName.chars _ (List.getLast_mem filled)⟩
  rw [List.getLast?_append_of_ne_nil _ filled, List.getLast?_eq_some_getLast filled]
  rfl

theorem ImportName.trimEnd_append {name gap : Text} (isName : ImportName name) (blank : Gap gap) :
    trimEnd (name ++ gap) = name := by
  obtain ⟨c, last, continues⟩ := isName.getLast? []
  rw [List.nil_append] at last
  rw [trimEnd_append_blank _ _ blank, trimEnd_of_getLast? last (isBlank_of_isImportChar continues)]

/-- A clause in which commas stand where they belong says what its parts say when they are
printed, up to empty entries.  Behind a name only what does not continue it may stand. -/
theorem Clause.tidied (raw path : Text) {clause : Text} {comma : Bool} {first : Option Text}
    {names : Option (List Text)} {namespaceName : Option Text}
    (isClause : Clause clause comma first names namespaceName)
    (trimmed : trimEnd clause = clause) (known : KnownBlanks clause)
    (paired : comma = (first.isSome && (names.isSome || namespaceName.isSome))) (o : Options) :
    ∃ told printed, Tidied told printed ∧
      (Loose clause told ∨ Says clause told ∧ ∃ c ∈ clause.getLast?, isImportChar c = true) ∧
      importClauses o (Import.ofParts raw path first names namespaceName) ≠ [] ∧
      Says (join ", ".toList
        (importClauses o (Import.ofParts raw path first names namespaceName))) printed := by
  cases isClause with
  | @default lead name comma leads =>
      cases paired
      cases leads with
      | @name _ gap isName blank =>
          rw [importClauses_default o isName]
          have single : gap = [] := by
            rw [isName.trimEnd_append blank] at trimmed
            exact List.self_eq_append_right.1 trimmed
          have told := says_name isName.chars
          rw [single, List.append_nil]
          exact ⟨_, _, .same (wordingFrom false name), .inr ⟨told, isName.getLast? []⟩,
            List.cons_ne_nil _ _, told⟩
  | @named lead inner comma first leads plain all =>
      have named : ∀ name ∈ first, ImportName name := fun name same => by
        cases same
        exact leads.isName
      have isPaired : comma = first.isSome := by simpa using paired
      subst isPaired
      have front := loose_lead leads known.left
      have knownInner : KnownBlanks inner := fun c member => known c (by simp [member])
      obtain ⟨-, told, same⟩ := says_inner knownInner all
      have printed := (loose_lead (lead_printed named) (knownBlanks_printedLead named)).append_piece
        (says_bracedNames o.bracketSpacing told)
      rw [importClauses_named o named, join_printedLead]
      refine ⟨_, _, ?_, .inl (front.append (loose_braces knownInner all)), by simp, printed⟩
      · rw [same]
        have plainEntries : ∀ entry ∈ (pieces ',' inner).map (wordingFrom false),
            commaWord ∉ entry ∧ openWord ∉ entry ∧ closeWord ∉ entry := by
          intro entry isEntry
          obtain ⟨piece, isPiece, rfl⟩ := List.mem_map.1 isEntry
          have outside : ∀ {c : Char}, c ∉ piece → (Kind.punctuator, [c]) ∉ wordingFrom false piece :=
            fun absent inside => absent (mem_of_mem_wordingFrom inside _ List.mem_cons_self)
          have inInner := fun c (member : c ∈ piece) => mem_of_mem_pieces isPiece member
          exact ⟨outside fun inside => (inInner _ inside).2 rfl,
            outside fun inside => (plain _ (inInner _ inside).1).1 rfl,
            outside fun inside => (plain _ (inInner _ inside).1).2 rfl⟩
        simpa [braceWords] using Tidied.braces (leadWords first) [] plainEntries
  | @whole lead star name comma first leads isPaired isStar =>
      subst isPaired
      have named : ∀ name ∈ first, ImportName name := fun name same => by
        cases same
        exact leads.isName
      have isName : ImportName name := by
        cases isStar with
        | named blank blankAfter filled isName => exact isName
      have told := (loose_lead leads known.left).append_piece (says_of_star isStar known.right)
      have canonical : Star name ("* as ".toList ++ name) :=
        .named gap_space gap_space (List.cons_ne_nil _ _) isName
      have printed := (loose_lead (lead_printed named) (knownBlanks_printedLead named)).append_piece
        (says_of_star canonical (List.forall_mem_append.2
          ⟨forall_mem_of_all (by decide), knownBlanks_of_name isName⟩))
      rw [importClauses_whole o named isName, join_printedLead]
      refine ⟨_, _, .same _, .inr ⟨told, ?_⟩, by simp, printed⟩
      cases isStar with
      | @named gap after blank blankAfter filled isName =>
          simpa using isName.getLast? (lead ++ '*' :: (gap ++ ("as".toList ++ after)))

/-! ## Commas -/

/-- A stretch without commas in front of the braces is passed. -/
theorem comma_mem_append {a b : Text} (plain : ∀ c ∈ a, isSpecifierChar c = true) :
    ',' ∈ (a ++ b).takeWhile isHeading ↔ ',' ∈ b.takeWhile isHeading := by
  have heading : ∀ c ∈ a, isHeading c = true := by
    intro c member
    have inside := plain c member
    have notBrace : c ≠ '{' := by
      rintro rfl
      revert inside
      decide
    have noQuote := isPathQuote_of_isClauseChar (isClauseChar_of_isSpecifierChar inside)
    simp [isHeading, notBrace, noQuote]
  rw [List.takeWhile_append_of_pos heading, List.mem_append]
  refine or_iff_right fun member => ?_
  have inside := plain _ member
  revert inside
  decide

theorem comma_mem_cons (b : Text) : ',' ∈ (',' :: b).takeWhile isHeading := by
  rw [List.takeWhile_cons_of_pos (by decide)]
  exact List.mem_cons_self

theorem Lead.comma_mem {lead rest : Text} {first : Option Text} {comma : Bool}
    (leads : Lead lead first comma) (none : ',' ∉ rest.takeWhile isHeading) :
    ',' ∈ (lead ++ rest).takeWhile isHeading ↔ comma = true := by
  cases leads with
  | nothing => simpa using none
  | comma blank => exact iff_of_true (comma_mem_cons _) rfl
  | name isName blank =>
      rw [List.append_assoc, comma_mem_append (isSpecifierChar_of_name isName),
        comma_mem_append (isSpecifierChar_of_gap blank)]
      simpa using none
  | both isName blank blankAfter =>
      rw [List.append_assoc, List.append_assoc, comma_mem_append (isSpecifierChar_of_name isName),
        comma_mem_append (isSpecifierChar_of_gap blank)]
      exact iff_of_true (comma_mem_cons _) rfl

theorem Clause.comma_mem {clause rest : Text} {comma : Bool} {first : Option Text}
    {names : Option (List Text)} {namespaceName : Option Text}
    (isClause : Clause clause comma first names namespaceName)
    (none : ',' ∉ rest.takeWhile isHeading) :
    ',' ∈ (clause ++ rest).takeWhile isHeading ↔ comma = true := by
  cases isClause with
  | default leads => exact leads.comma_mem none
  | named leads plain all =>
      rw [List.append_assoc]
      refine leads.comma_mem ?_
      rw [List.cons_append, List.takeWhile_cons_of_neg (by decide)]
      exact List.not_mem_nil
  | whole leads paired isStar =>
      rw [List.append_assoc]
      refine leads.comma_mem ?_
      cases isStar with
      | @named gap after blank blankAfter filled isName =>
          have word : ∀ c ∈ "as".toList, isSpecifierChar c = true := forall_mem_of_all (by decide)
          rw [List.cons_append, List.takeWhile_cons_of_pos (by decide), List.mem_cons, not_or]
          refine ⟨by decide, ?_⟩
          rwa [List.append_assoc, comma_mem_append (isSpecifierChar_of_gap blank), List.append_assoc,
            comma_mem_append word, List.append_assoc, comma_mem_append (isSpecifierChar_of_gap blankAfter),
            comma_mem_append (isSpecifierChar_of_name isName)]

/-! ## Statements -/

/-- What may stand behind a path. -/
inductive Tail : Text → Prop
  | blank {gap : Text} (blank : Gap gap) : Tail gap
  | semicolon {gap after : Text} (blank : Gap gap) (blankAfter : Gap after) : Tail (gap ++ ';' :: after)

theorem loose_tail {tail : Text} (isTail : Tail tail) (known : KnownBlanks tail) : Loose tail [] := by
  cases isTail with
  | blank blank => exact loose_gap blank known
  | @semicolon gap after blank blankAfter =>
      have semicolon : Loose [';'] [] := loose_mark (isLone_of_mem (by simp))
      have knownAfter : KnownBlanks after := fun c member => known c (by simp [member])
      exact (loose_gap blank known.left).append (semicolon.append (loose_gap blankAfter knownAfter))

section

variable {left gap middle after tail path : Text} {quote : Char} {words : List (Kind × Text)}

/-- The path with the blanks in front of it. -/
theorem loose_path (blankAfter : Gap after) (knownAfter : KnownBlanks after)
    (isQuote : isPathQuote quote = true) (quotable : Quotable quote path) (behind : Loose tail []) :
    Loose (after ++ quote :: (path ++ quote :: tail)) [(.string, path)] ∧
      ∀ w, Clear continuesName ((after ++ quote :: (path ++ quote :: tail)) ++ w) := by
  have stops : continuesName quote = false := by
    rcases isPathQuote_iff.1 isQuote with rfl | rfl <;> decide
  refine ⟨?_, fun w => ?_⟩
  · have whole := (loose_gap blankAfter knownAfter).append ((loose_string isQuote quotable).append behind)
    simpa using whole
  · rw [List.append_assoc]
    exact clear_gap_mark blankAfter knownAfter stops

/-- What an import without a clause says. -/
theorem loose_bare (front : Loose left []) (blankAfter : Gap after) (knownAfter : KnownBlanks after)
    (isQuote : isPathQuote quote = true) (quotable : Quotable quote path) (behind : Loose tail []) :
    Loose (left ++ ("import".toList ++ (after ++ quote :: (path ++ quote :: tail))))
      (wordingFrom false "import".toList ++ [(.string, path)]) := by
  obtain ⟨ending, opens⟩ := loose_path blankAfter knownAfter isQuote quotable behind
  have word : Says "import".toList (wordingFrom false "import".toList) :=
    says_name (forall_mem_of_all (by decide))
  exact front.append (word.append_loose opens ending)

/-- What an import with a clause says. -/
theorem loose_clause (front : Loose left []) (blank : Gap gap) (known : KnownBlanks gap)
    (filled : gap ≠ []) (clause : Loose middle words) (blankAfter : Gap after)
    (knownAfter : KnownBlanks after) (isQuote : isPathQuote quote = true)
    (quotable : Quotable quote path) (behind : Loose tail []) :
    Loose (left ++ ("import".toList ++ (gap ++ (middle ++
        ("from".toList ++ (after ++ quote :: (path ++ quote :: tail)))))))
      (wordingFrom false "import".toList ++ (words ++
        (wordingFrom false "from".toList ++ [(.string, path)]))) := by
  obtain ⟨ending, opens⟩ := loose_path blankAfter knownAfter isQuote quotable behind
  have importing : Says "import".toList (wordingFrom false "import".toList) :=
    says_name (forall_mem_of_all (by decide))
  have leading : Says "from".toList (wordingFrom false "from".toList) :=
    says_name (forall_mem_of_all (by decide))
  refine front.append (importing.append_loose (fun w => ?_) ((loose_gap blank known).append
    (clause.append (leading.append_loose opens ending))))
  rw [List.append_assoc]
  exact clear_continuesName_of_gap blank known filled _

end

theorem Tail.append {tail right : Text} (isTail : Tail tail) (blank : Gap right) : Tail (tail ++ right) := by
  cases isTail with
  | blank first => exact .blank (List.forall_mem_append.2 ⟨first, blank⟩)
  | semicolon first second =>
      rw [List.append_assoc, List.cons_append]
      exact .semicolon first (List.forall_mem_append.2 ⟨second, blank⟩)

theorem PathEnd.exists_tail {path text : Text} (pathEnd : PathEnd path text) :
    ∃ quote tail, text = quote :: (path ++ quote :: tail) ∧ isPathQuote quote = true ∧
      (∀ c ∈ path, isPathChar c = true) ∧ Tail tail := by
  cases pathEnd with
  | @quoted quote tail isQuote inside ends =>
      refine ⟨quote, tail, rfl, isQuote, inside, ?_⟩
      obtain ⟨gap, split, blank, -⟩ := exists_gap tail
      rw [split]
      rcases ends with nothing | semicolon
      · rw [nothing, List.append_nil]
        exact .blank blank
      · rw [semicolon]
        exact .semicolon blank gap_nil

theorem ne_of_isPathChar {quote c : Char} (isQuote : isPathQuote quote = true)
    (inside : isPathChar c = true) : c ≠ quote := by
  rintro rfl
  rw [isPathChar_of_isPathQuote isQuote] at inside
  cases inside

/-- A path between its quotes is closed by the second one unless it ends in a backslash. -/
theorem quotable_of_isPathChar {quote : Char} {path : Text} (isQuote : isPathQuote quote = true)
    (inside : ∀ c ∈ path, isPathChar c = true) (closed : escapesEnd path = false) :
    Quotable quote path :=
  quotable_of_escapesEnd (fun c member => ne_of_isPathChar isQuote (inside c member)) closed

/-- The line of an import without a clause. -/
theorem Import.print_bare (s : Style) (level : Int) {i : Import} (structured : i.structured = true)
    (empty : importClauses s.options i = []) :
    i.print s level = [s.indent level ++ ("import".toList ++ ([' '] ++
      s.options.quote :: (i.source ++ s.options.quote :: s.terminator)))] := by
  simp [Import.print, structured, empty]

/-- The line of an import with a clause. -/
theorem Import.print_clauses (s : Style) (level : Int) {i : Import} (structured : i.structured = true)
    (filled : importClauses s.options i ≠ []) :
    i.print s level = [s.indent level ++ ("import".toList ++ ([' '] ++
      ((join ", ".toList (importClauses s.options i) ++ [' ']) ++ ("from".toList ++ ([' '] ++
        s.options.quote :: (i.source ++ s.options.quote :: s.terminator))))))] := by
  simp [Import.print, structured, filled]

theorem isPathQuote_quote (o : Options) : isPathQuote o.quote = true := by
  rw [Options.quote]
  cases o.singleQuote <;> rfl

theorem loose_indent (s : Style) (level : Int) : Loose (s.indent level) [] := by
  refine loose_blanks fun c member => ?_
  rcases isPlainBlank_iff.1 (blanks_indent s.options level c member) with rfl | rfl | rfl | rfl <;> rfl

theorem loose_terminator (s : Style) : Loose s.terminator [] := by
  rw [Style.terminator]
  cases s.terminated with
  | true => exact loose_mark (isLone_of_mem (by simp))
  | false => exact loose_nil

theorem takeWhile_unquoted {front rest : Text} {quote : Char} (isQuote : isPathQuote quote = true)
    (plain : ∀ c ∈ front, isPathQuote c = false) :
    (front ++ quote :: rest).takeWhile (!isPathQuote ·) = front := by
  refine takeWhile_stretch (fun c member => by rw [plain c member]; rfl) fun c first => ?_
  cases first
  rw [isQuote]
  rfl

theorem Tail.unquoted {tail : Text} (isTail : Tail tail) : ∀ c ∈ tail, isPathQuote c = false := by
  have ofGap : ∀ {gap : Text}, Gap gap → ∀ c ∈ gap, isPathQuote c = false := fun blank c member =>
    isPathQuote_of_isClauseChar (isClauseChar_of_isSpecifierChar (isSpecifierChar_of_gap blank c member))
  cases isTail with
  | blank blank => exact ofGap blank
  | semicolon first second =>
      exact List.forall_mem_append.2 ⟨ofGap first, List.forall_mem_cons.2 ⟨rfl, ofGap second⟩⟩

/-- A strict import has only blanks that the lexer knows, on both sides of its path. -/
theorem Import.Strict.known {i : Import} (strict : i.Strict) {front tail : Text} {quote : Char}
    (layout : i.raw = front ++ quote :: (i.source ++ quote :: tail)) (isQuote : isPathQuote quote = true)
    (plain : ∀ c ∈ front, isPathQuote c = false) (isTail : Tail tail) :
    KnownBlanks front ∧ KnownBlanks tail := by
  have before := strict.blanks
  have behind := strict.blanksBehind
  have reversed : (front ++ quote :: (i.source ++ quote :: tail)).reverse =
      tail.reverse ++ quote :: (i.source.reverse ++ quote :: front.reverse) := by simp
  rw [layout, takeWhile_unquoted isQuote plain] at before
  rw [layout, reversed, takeWhile_unquoted isQuote
    fun c member => isTail.unquoted c (List.mem_reverse.1 member)] at behind
  exact ⟨before, fun c member => behind c (List.mem_reverse.2 member)⟩

theorem unquoted_of_isSpecifierChar {text : Text} (plain : ∀ c ∈ text, isSpecifierChar c = true) :
    ∀ c ∈ text, isPathQuote c = false :=
  fun c member => isPathQuote_of_isClauseChar (isClauseChar_of_isSpecifierChar (plain c member))

section

variable (s : Style) (level : Int) {raw path left gap tail : Text} {quote : Char}

theorem tidied_bare (layout : raw = left ++ ("import".toList ++ (gap ++ quote :: (path ++ quote :: tail))))
    (blankLeft : Gap left) (blank : Gap gap) (isQuote : isPathQuote quote = true)
    (inside : ∀ c ∈ path, isPathChar c = true) (isTail : Tail tail)
    (strict : (Import.ofParts raw path none none none).Strict) :
    ∃ line, (Import.ofParts raw path none none none).print s level = [line] ∧
      Tidied (wording (lexemes raw)) (wording (lexemes line)) := by
  have isPrinted := isPathQuote_quote s.options
  have specifier : ∀ c ∈ left ++ ("import".toList ++ gap), isSpecifierChar c = true :=
    List.forall_mem_append.2 ⟨isSpecifierChar_of_gap blankLeft, List.forall_mem_append.2
      ⟨forall_mem_of_all (by decide), isSpecifierChar_of_gap blank⟩⟩
  have split : raw = (left ++ ("import".toList ++ gap)) ++ quote :: (path ++ quote :: tail) := by
    rw [layout, List.append_assoc, List.append_assoc]
  obtain ⟨known, knownTail⟩ := strict.known split isQuote (unquoted_of_isSpecifierChar specifier) isTail
  have told := loose_bare (loose_gap blankLeft known.left) blank known.right.right isQuote
    (quotable_of_isPathChar isQuote inside strict.closed) (loose_tail isTail knownTail)
  have printed := loose_bare (loose_indent s level) gap_space (forall_mem_of_all (by decide)) isPrinted
    (quotable_of_isPathChar isPrinted inside strict.closed) (loose_terminator s)
  refine ⟨_, Import.print_bare s level rfl rfl, ?_⟩
  rw [layout, told.toSays.worded.wording_eq]
  exact printed.toSays.worded.wording_eq ▸ .same _

theorem endsWith_dollar {front after : Text} (last : front.getLast? = some '$') (blank : Gap after) :
    endsWith (trimEnd (front ++ ("from".toList ++ after))) "$from".toList = true := by
  obtain ⟨front, rfl⟩ := List.getLast?_eq_some_iff.1 last
  have visible : ((front ++ ['$']) ++ "from".toList).getLast? = some 'm' := by simp
  rw [← List.append_assoc, trimEnd_append_blank _ _ blank, trimEnd_of_getLast? visible (by decide)]
  exact List.isSuffixOf_iff_suffix.2 ⟨front, by simp⟩

/-- Where the word `from` is set apart, the clause with the blanks behind it says something of
its own. -/
theorem loose_middle {clause before : Text} {words : List (Kind × Text)}
    (told : Loose clause words ∨ Says clause words ∧ ∃ c ∈ clause.getLast?, isImportChar c = true)
    (blank : Gap before) (known : KnownBlanks before)
    (noWord : endsInWord false (clause ++ before) = false)
    (noDollar : (clause ++ before).getLast? ≠ some '$') : Loose (clause ++ before) words := by
  have behind := loose_gap blank known
  rcases told with loose | ⟨told, c, last, continues⟩
  · simpa using loose.append behind
  · have filled : before ≠ [] := by
      rintro rfl
      rw [List.append_nil] at noWord noDollar
      rw [Option.mem_def] at last
      rw [endsInWord, last] at noWord
      have noLetter : isWord c = false := noWord
      rw [isImportChar, noLetter, Bool.false_or, beq_iff_eq] at continues
      exact noDollar (continues ▸ last)
    simpa using told.append_loose (clear_continuesName_of_gap blank known filled) behind

theorem tidied_clause {clause before after : Text} {comma : Bool} {first namespaceName : Option Text}
    {names : Option (List Text)}
    (layout : raw = left ++ ("import".toList ++ (gap ++ ((clause ++ before) ++ ("from".toList ++
      (after ++ quote :: (path ++ quote :: tail)))))))
    (blankLeft : Gap left) (blank : Gap gap) (filled : gap ≠ [])
    (isClause : Clause clause comma first names namespaceName) (trimmed : trimEnd clause = clause)
    (blankBefore : Gap before) (noWord : endsInWord false (clause ++ before) = false)
    (blankAfter : Gap after) (isQuote : isPathQuote quote = true)
    (inside : ∀ c ∈ path, isPathChar c = true) (isTail : Tail tail)
    (strict : (Import.ofParts raw path first names namespaceName).Strict) :
    ∃ line, (Import.ofParts raw path first names namespaceName).print s level = [line] ∧
      Tidied (wording (lexemes raw)) (wording (lexemes line)) := by
  have isPrinted := isPathQuote_quote s.options
  have importing : ∀ c ∈ "import".toList, isSpecifierChar c = true := forall_mem_of_all (by decide)
  have leading : ∀ c ∈ "from".toList, isSpecifierChar c = true := forall_mem_of_all (by decide)
  have plain : ∀ c ∈ left ++ ("import".toList ++ (gap ++ ((clause ++ before) ++ ("from".toList ++ after)))),
      isPathQuote c = false := by
    have ofGap : ∀ {g : Text}, Gap g → ∀ c ∈ g, isPathQuote c = false :=
      fun isGap => unquoted_of_isSpecifierChar (isSpecifierChar_of_gap isGap)
    have ofClause : ∀ c ∈ clause, isPathQuote c = false :=
      fun c member => isPathQuote_of_isClauseChar (isClause.chars c member)
    simp only [List.forall_mem_append]
    exact ⟨ofGap blankLeft, unquoted_of_isSpecifierChar importing, ofGap blank,
      ⟨ofClause, ofGap blankBefore⟩, unquoted_of_isSpecifierChar leading, ofGap blankAfter⟩
  have split : raw = (left ++ ("import".toList ++ (gap ++ ((clause ++ before) ++
      ("from".toList ++ after))))) ++ quote :: (path ++ quote :: tail) := by
    rw [layout]
    simp only [List.append_assoc]
  obtain ⟨known, knownTail⟩ := strict.known split isQuote plain isTail
  have knownClause := known.right.right.right.left
  have paired : comma = (first.isSome && (names.isSome || namespaceName.isSome)) := by
    have commas : ',' ∈ raw.takeWhile isHeading ↔
        first.isSome ∧ (names.isSome ∨ namespaceName.isSome) := strict.comma
    rw [layout,
      comma_mem_append (isSpecifierChar_of_gap blankLeft), comma_mem_append importing,
      comma_mem_append (isSpecifierChar_of_gap blank), List.append_assoc, isClause.comma_mem] at commas
    · rw [Bool.eq_iff_iff]
      simpa using commas
    · rw [comma_mem_append (isSpecifierChar_of_gap blankBefore), comma_mem_append leading,
        comma_mem_append (isSpecifierChar_of_gap blankAfter), List.takeWhile_cons_of_neg]
      · exact List.not_mem_nil
      · simp [isHeading, isQuote]
  have noDollar : (clause ++ before).getLast? ≠ some '$' := by
    intro last
    have separated : endsWith (trimEnd (raw.takeWhile (!isPathQuote ·))) "$from".toList = false :=
      strict.separated
    have regrouped : left ++ ("import".toList ++ (gap ++ ((clause ++ before) ++ ("from".toList ++ after)))) =
        (left ++ ("import".toList ++ (gap ++ (clause ++ before)))) ++ ("from".toList ++ after) := by
      simp only [List.append_assoc]
    have ends : (left ++ ("import".toList ++ (gap ++ (clause ++ before)))).getLast? = some '$' := by
      obtain ⟨kept, isLast⟩ := List.getLast?_eq_some_iff.1 last
      rw [isLast]
      exact List.getLast?_eq_some_iff.2 ⟨left ++ ("import".toList ++ (gap ++ kept)), by simp⟩
    rw [split, takeWhile_unquoted isQuote plain, regrouped, endsWith_dollar ends blankAfter] at separated
    cases separated
  obtain ⟨told, printed, tidied, saysClause, filledClauses, saysPrinted⟩ :=
    isClause.tidied raw path trimmed knownClause.left paired s.options
  have middle := loose_middle saysClause blankBefore knownClause.right noWord noDollar
  have printedMiddle : Loose (join ", ".toList (importClauses s.options
      (Import.ofParts raw path first names namespaceName)) ++ [' ']) printed := by
    have opens : ∀ w, Clear continuesName ([' '] ++ w) := fun w c isFirst => by
      cases isFirst
      decide
    simpa using saysPrinted.append_loose opens loose_space
  have whole := loose_clause (loose_gap blankLeft known.left) blank known.right.right.left filled middle
    blankAfter known.right.right.right.right.right isQuote
    (quotable_of_isPathChar isQuote inside strict.closed) (loose_tail isTail knownTail)
  have line := loose_clause (loose_indent s level) gap_space (forall_mem_of_all (by decide))
    (List.cons_ne_nil _ _) printedMiddle gap_space (forall_mem_of_all (by decide)) isPrinted
    (quotable_of_isPathChar isPrinted inside strict.closed) (loose_terminator s)
  refine ⟨_, Import.print_clauses s level rfl filledClauses, ?_⟩
  rw [layout, whole.toSays.worded.wording_eq]
  exact line.toSays.worded.wording_eq ▸ tidied.around _ _

end

/-- **A rebuilt import says what was written.**  Whatever the options, an import that the parser
takes apart is printed as one line.  If it is written strictly, the tokens of that line are those
of its own text, blanks, comments, semicolons and quotes apart, except that empty entries
between the braces may be missing. -/
theorem wording_print {s : State Kind Problem} {around : Surroundings} {i : Import}
    (read : ((parseImport : EtsParser Node) s).1 = .importDecl around i)
    (structured : i.structured = true) (strict : i.Strict) (style : Style) (level : Int) :
    ∃ line, i.print style level = [line] ∧
      Tidied (wording (lexemes i.raw)) (wording (lexemes line)) := by
  rw [run_parseImport] at read
  obtain rfl : importAhead s.closing s.rest = i := (Node.importDecl.inj read).2
  have form := form_of_importAhead structured
  obtain ⟨left, right, split, blankLeft, blankRight⟩ :=
    exists_trim_append (importAhead s.closing s.rest).raw
  generalize importAhead s.closing s.rest = i at form split strict
  generalize trim i.raw = text at form split
  cases form with
  | @bare raw path gap _ blank pathEnd =>
      obtain ⟨quote, tail, rfl, isQuote, inside, isTail⟩ := pathEnd.exists_tail
      have layout : raw = left ++ ("import".toList ++ (gap ++ quote :: (path ++ quote :: (tail ++ right)))) :=
        split.trans (by simp)
      exact tidied_bare style level layout blankLeft blank isQuote inside (isTail.append blankRight) strict
  | @clause raw path gap clause before after _ comma first names namespaceName blank filled isClause
      trimmed notType blankBefore noWord blankAfter pathEnd =>
      obtain ⟨quote, tail, rfl, isQuote, inside, isTail⟩ := pathEnd.exists_tail
      have layout : raw = left ++ ("import".toList ++ (gap ++ ((clause ++ before) ++ ("from".toList ++
          (after ++ quote :: (path ++ quote :: (tail ++ right))))))) := split.trans (by simp)
      exact tidied_clause style level layout blankLeft blank filled isClause trimmed blankBefore noWord
        blankAfter isQuote inside (isTail.append blankRight) strict

/-- A default name, a renamed one, entries without names, odd blanks and a path that holds a
keyword. -/
def mixedImport : Text :=
  "import a ,\x7b\n\t b  as\n c,, $d , \x7d \nfrom \x22./x from\x22 ;".toList

theorem wording_print_mixedImport :
    let s : State Kind Problem := .start (lexemes mixedImport) (endToken mixedImport)
    let i := Import.ofText mixedImport
    ((parseImport : EtsParser Node) s).1 = .importDecl {} i ∧ i.structured = true ∧ i.Strict ∧
      ∀ style level, ∃ line, i.print style level = [line] ∧
        Tidied (wording (lexemes i.raw)) (wording (lexemes line)) := by
  rw [show mixedImport = _ from String.toList_ofList]
  intro s i
  obtain ⟨ahead, structured, strict⟩ :
      importAhead s.closing s.rest = i ∧ i.structured = true ∧ i.Strict := by decide +kernel
  have read : ((parseImport : EtsParser Node) s).1 = .importDecl {} i := by rw [run_parseImport, ahead]
  exact ⟨read, structured, strict, fun style level => wording_print read structured strict style level⟩

/-- One import for each liberty. -/
def freeImports : List Text :=
  ["import a \x7bb\x7d from 'x'", "import a, from 'x'", "import\xa0a from 'x'", "import a$from 'x'",
    "import 'x\\'"].map String.toList

/-- All of them are taken apart, and none of them says the same when it is printed. -/
theorem wording_print_freeImports : freeImports.Forall fun text =>
    let s : State Kind Problem := .start (lexemes text) (endToken text)
    let i := Import.ofText text
    ((parseImport : EtsParser Node) s).1 = .importDecl {} i ∧ i.structured = true ∧
      ∀ line, i.print { options := {}, terminated := true } 0 = [line] →
        ¬ Tidied (wording (lexemes i.raw)) (wording (lexemes line)) := by
  have decided : ∀ text ∈ freeImports,
      let i := Import.ofText text
      let printed := wording (lexemes (i.print { options := {}, terminated := true } 0).flatten)
      (importAhead (endToken text) (lexemes text) = i ∧ i.structured = true) ∧
        (openWord ∈ wording (lexemes text) → (wording (lexemes text)).length < printed.length) ∧
        printed ≠ wording (lexemes text) := by
    decide +kernel
  refine List.forall_iff_forall_mem.2 fun text isFree => ?_
  intro s i
  obtain ⟨⟨ahead, structured⟩, grown, other⟩ := decided text isFree
  have read : ((parseImport : EtsParser Node) s).1 = .importDecl {} i := by
    rw [run_parseImport]
    exact congrArg (Node.importDecl {}) ahead
  refine ⟨read, structured, fun line printed tidied => ?_⟩
  rw [show i.raw = text from raw_ofText text] at tidied
  rw [show (Import.ofText text).print { options := {}, terminated := true } 0 = [line] from printed,
    List.flatten_singleton] at grown other
  by_cases braces : openWord ∈ wording (lexemes text)
  · exact absurd tidied.length_le (Nat.not_le.2 (grown braces))
  · exact other (tidied.eq_of_not_mem braces).symm

end UiFormat.Ets

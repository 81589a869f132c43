/-
# UiFormat.Proofs.Ets.ImportPrinting -- the line that an import is printed as

An import that is taken apart is printed from its parts, and the line has one of the forms
again: its clause is a `Clause` with the same parts (`Clause.printed`), because the names
between the braces come back one by one (`specifiers_join`).  So taking the line apart gives
the import that was printed, but for its text (`ofText_printed`).

The lexer has little to do with the characters in front of the path: they are names, spaces,
commas and stars, and at most one pair of braces (`Heading`).
-/
import UiFormat.Proofs.Ets.ImportTokens

namespace UiFormat.Text

set_option autoImplicit false

/-! ## Pieces -/

/-- Nothing but spaces. -/
def Spaces (text : Text) : Prop :=
  ∀ c ∈ text, c = ' '

theorem Spaces.gap {text : Text} (spaces : Spaces text) : Gap text :=
  fun c member => spaces c member ▸ isBlank_space

end UiFormat.Text

namespace UiFormat.Ets

open UiFormat.Text

set_option autoImplicit false

/-! ## Entries -/

theorem Specifier.getLast? {text : Text} (isSpec : Specifier text) :
    ∃ c ∈ text.getLast?, isImportChar c = true := by
  cases isSpec with
  | single isName => exact isName.getLast? []
  | @renamed name gap after other isName blank filled blankAfter filledAfter isOther =>
      simpa using isOther.getLast? (name ++ (gap ++ ("as".toList ++ after)))

theorem Specifier.clear {text : Text} (isSpec : Specifier text) {p : Char → Bool}
    (fails : ∀ c, isIdentStart c = true → p c = false) (rest : Text) : Clear p (text ++ rest) := by
  cases isSpec with
  | single isName => exact isName.clear fails rest
  | renamed isName blank filled blankAfter filledAfter isOther =>
      rw [List.append_assoc]
      exact isName.clear fails _

/-- A specifier as it stands in an import: its blanks are single spaces. -/
structure Entry (text : Text) : Prop where
  specifier : Specifier text
  collapsed : collapseBlanks text = text

theorem Entry.not_mem_comma {text : Text} (entry : Entry text) : ',' ∉ text := by
  intro member
  have inside := entry.specifier.chars ',' member
  revert inside
  decide

theorem Entry.trim_eq {text : Text} (entry : Entry text) : trim text = text := by
  obtain ⟨c, last, continues⟩ := entry.specifier.getLast?
  have clear := entry.specifier.clear (p := isBlank) (fun c => isBlank_of_isIdentStart) []
  rw [List.append_nil] at clear
  have start : trimStart text = text := trimStart_gap gap_nil clear
  rw [trim, start]
  exact trimEnd_of_getLast? last (isBlank_of_isImportChar continues)

theorem Entry.ne_nil {text : Text} (entry : Entry text) : text ≠ [] := by
  rintro rfl
  obtain ⟨c, last, -⟩ := entry.specifier.getLast?
  cases last

theorem entry_of_mem_specifiers {inner name : Text}
    (all : ∀ name ∈ specifiers inner, isSpecifier name = true) (member : name ∈ specifiers inner) :
    Entry name := by
  refine ⟨specifier_of_isSpecifier (all name member), ?_⟩
  obtain ⟨piece, -, rfl⟩ := List.mem_map.1 (List.mem_filter.1 member).1
  exact collapseBlanks_collapseBlanks _

theorem specifiers_append {text : Text} (absent : ',' ∉ text) (rest : Text) :
    specifiers (text ++ ',' :: rest) = specifiers text ++ specifiers rest := by
  rw [specifiers, specifiers, specifiers, pieces_append absent, pieces_of_not_mem absent,
    ← List.filter_append, ← List.map_append]
  rfl

theorem not_mem_comma_of_gap {gap : Text} (blank : Gap gap) : ',' ∉ gap :=
  fun member => absurd (blank ',' member) (by decide)

theorem specifiers_gap {gap : Text} (blank : Gap gap) : specifiers gap = [] := by
  have nothing : trim gap = [] := (trim_eq_nil_iff gap).2 blank
  rw [specifiers, pieces_of_not_mem (not_mem_comma_of_gap blank)]
  simp [nothing, collapseBlanks, squeeze]

theorem specifiers_entry {left name right : Text} (blankLeft : Gap left) (entry : Entry name)
    (blankRight : Gap right) : specifiers (left ++ (name ++ right)) = [name] := by
  have absent : ',' ∉ left ++ (name ++ right) := by
    simp only [List.mem_append, not_or]
    exact ⟨not_mem_comma_of_gap blankLeft, entry.not_mem_comma, not_mem_comma_of_gap blankRight⟩
  have trimmed : trim (left ++ (name ++ right)) = name := by
    rw [trim_blank_append _ blankLeft, trim_append_blank _ blankRight, entry.trim_eq]
  rw [specifiers, pieces_of_not_mem absent]
  simp [trimmed, entry.collapsed, entry.ne_nil]

/-- Entries that are printed with commas between them come back one by one. -/
theorem specifiers_join {names : List Text} (entries : ∀ name ∈ names, Entry name) {left right : Text}
    (blankLeft : Gap left) (blankRight : Gap right) :
    specifiers (left ++ (join ", ".toList names ++ right)) = names := by
  induction names generalizing left with
  | nil => exact specifiers_gap (List.forall_mem_append.2 ⟨blankLeft, blankRight⟩)
  | cons name names ih =>
      rw [List.forall_mem_cons] at entries
      cases names with
      | nil => exact specifiers_entry blankLeft entries.1 blankRight
      | cons next names =>
          have split : left ++ (join ", ".toList (name :: next :: names) ++ right) =
              (left ++ (name ++ [])) ++ ',' :: ([' '] ++ (join ", ".toList (next :: names) ++ right)) := by
            simp [join]
          have absent : ',' ∉ left ++ (name ++ []) := by
            rw [List.append_nil, List.mem_append, not_or]
            exact ⟨not_mem_comma_of_gap blankLeft, entries.1.not_mem_comma⟩
          rw [split, specifiers_append absent, specifiers_entry blankLeft entries.1 gap_nil,
            ih entries.2 gap_space]
          rfl

/-- Between the printed braces stand the names with commas, and perhaps spaces at both ends. -/
theorem exists_bracedNames (spacing : Bool) (names : List Text) :
    ∃ left right, Spaces left ∧ Spaces right ∧
      bracedNames spacing names = '{' :: ((left ++ (join ", ".toList names ++ right)) ++ ['}']) := by
  have none : Spaces [] := fun c member => by cases member
  have space : Spaces [' '] := fun c member => List.mem_singleton.1 member
  rw [bracedNames]
  cases empty : names.isEmpty with
  | true =>
      rw [List.isEmpty_iff.1 empty]
      exact ⟨[], [], none, none, rfl⟩
  | false =>
      cases spacing with
      | true => exact ⟨[' '], [' '], space, space, by simp⟩
      | false => exact ⟨[], [], none, none, by simp⟩

/-! ## What is printed in front of the path -/

/-- A character of the names, spaces and marks of a clause, braces apart. -/
def isPrintedChar (c : Char) : Bool :=
  isImportChar c || c == ' ' || c == ',' || c == '*'

/-- All characters of the text are such characters. -/
def Printed (text : Text) : Prop :=
  ∀ c ∈ text, isPrintedChar c = true

/-- What is printed in front of the path: no braces, or one pair of them. -/
inductive Heading : Text → Prop
  | plain {text : Text} (printed : Printed text) : Heading text
  | braced {before names behind : Text} (printed : Printed before) (inside : Printed names)
      (printedBehind : Printed behind) : Heading (before ++ '{' :: (names ++ '}' :: behind))

theorem printed_nil : Printed [] :=
  fun _ member => (List.not_mem_nil member).elim

theorem Printed.append {a b : Text} (first : Printed a) (second : Printed b) : Printed (a ++ b) :=
  List.forall_mem_append.2 ⟨first, second⟩

theorem Heading.around {text before behind : Text} (heading : Heading text) (front : Printed before)
    (back : Printed behind) : Heading (before ++ (text ++ behind)) := by
  cases heading with
  | plain printed => exact .plain (front.append (printed.append back))
  | @braced left names right printed inside printedBehind =>
      have whole := Heading.braced (front.append printed) inside (printedBehind.append back)
      simpa using whole

theorem printed_name {name : Text} (isName : ImportName name) : Printed name := by
  intro c member
  simp [isPrintedChar, isName.chars c member]

theorem printed_spaces {text : Text} (spaces : Spaces text) : Printed text :=
  fun c member => spaces c member ▸ by decide

theorem Entry.printed {name : Text} (entry : Entry name) : Printed name := by
  intro c member
  have inside := entry.specifier.chars c member
  rw [isSpecifierChar, Bool.or_eq_true] at inside
  rcases inside with continues | blank
  · simp [isPrintedChar, continues]
  · rw [← entry.collapsed] at member
    rw [eq_space_of_mem_squeeze member blank]
    decide

theorem printed_join {names : List Text} (entries : ∀ name ∈ names, Entry name) :
    Printed (join ", ".toList names) := by
  induction names with
  | nil => exact printed_nil
  | cons name names ih =>
      rw [List.forall_mem_cons] at entries
      cases names with
      | nil => exact entries.1.printed
      | cons next names =>
          have comma : Printed ", ".toList := forall_mem_of_all (by decide)
          rw [join, List.append_assoc]
          exact entries.1.printed.append (comma.append (ih entries.2))

theorem printed_lead {first : Option Text} (named : ∀ name ∈ first, ImportName name) :
    Printed (printedLead first) := by
  cases first with
  | none => exact printed_nil
  | some name => exact (printed_name (named name rfl)).append (forall_mem_of_all (by decide))

/-! ## Clauses -/

/-- The clause that is printed for some parts. -/
structure Reprinted (clause : Text) (first : Option Text) (names : Option (List Text))
    (namespaceName : Option Text) : Prop where
  isClause : ∃ comma, Clause clause comma first names namespaceName
  trimmed : trimEnd clause = clause
  /-- No space stands behind the word that it opens with. -/
  notSpaced : Clear (· == ' ') (clause.dropWhile isImportChar)
  heading : Heading clause

theorem Reprinted.notType {clause : Text} {first : Option Text} {names : Option (List Text)}
    {namespaceName : Option Text} (printed : Reprinted clause first names namespaceName) :
    startsWith clause "type ".toList = false := by
  cases isType : startsWith clause "type ".toList with
  | false => rfl
  | true =>
      obtain ⟨rest, split⟩ := List.isPrefixOf_iff_prefix.1 isType
      have word : ∀ c ∈ "type".toList, isImportChar c = true := forall_mem_of_all (by decide)
      have space : Clear isImportChar (' ' :: rest) := fun c first => by cases first; decide
      have behind : clause.dropWhile isImportChar = ' ' :: rest := by
        rw [← split]
        exact dropWhile_stretch word space
      have spaced := printed.notSpaced ' ' (by rw [behind]; rfl)
      cases spaced

/-- Behind the word that a clause opens with stands a comma, or its first mark. -/
theorem notSpaced_of_lead {first : Option Text} (named : ∀ name ∈ first, ImportName name) {mark : Char}
    (stops : isImportChar mark = false) (noSpace : (mark == ' ') = false) (rest : Text) :
    Clear (· == ' ') ((printedLead first ++ mark :: rest).dropWhile isImportChar) := by
  cases first with
  | none =>
      rw [printedLead, List.nil_append, List.dropWhile_cons_of_neg (by simp [stops])]
      intro c first
      cases first
      exact noSpace
  | some name =>
      have comma : Clear isImportChar (", ".toList ++ mark :: rest) := fun c first => by
        cases first
        decide
      rw [printedLead, List.append_assoc, dropWhile_stretch (named name rfl).chars comma]
      intro c first
      cases first
      rfl

/-- A clause is printed as a clause with the same parts. -/
theorem Clause.printed (o : Options) (raw path : Text) {clause : Text} {comma : Bool} {first : Option Text}
    {names : Option (List Text)} {namespaceName : Option Text}
    (isClause : Clause clause comma first names namespaceName) :
    importClauses o (Import.ofParts raw path first names namespaceName) ≠ [] ∧
      Reprinted (join ", ".toList (importClauses o (Import.ofParts raw path first names namespaceName)))
        first names namespaceName := by
  cases isClause with
  | @default lead name comma leads =>
      have isName := leads.isName
      rw [importClauses_default o isName]
      refine ⟨List.cons_ne_nil _ _, ⟨⟨false, ?_⟩, ?_, ?_, .plain (printed_name isName)⟩⟩
      · have single := Lead.name isName gap_nil
        rw [List.append_nil] at single
        exact .default single
      · have trimmed := isName.trimEnd_append gap_nil
        rwa [List.append_nil] at trimmed
      · show Clear _ (name.dropWhile isImportChar)
        rw [List.dropWhile_eq_nil_iff.2 isName.chars]
        exact fun c first => by cases first
  | @named lead inner comma first leads plain all =>
      have named : ∀ name ∈ first, ImportName name := fun name same => by
        cases same
        exact leads.isName
      have entries : ∀ name ∈ specifiers inner, Entry name :=
        fun name member => entry_of_mem_specifiers all member
      obtain ⟨left, right, spacesLeft, spacesRight, braces⟩ :=
        exists_bracedNames o.bracketSpacing (specifiers inner)
      have back := specifiers_join entries spacesLeft.gap spacesRight.gap
      have inside : Printed (left ++ (join ", ".toList (specifiers inner) ++ right)) :=
        (printed_spaces spacesLeft).append ((printed_join entries).append (printed_spaces spacesRight))
      rw [importClauses_named o named, join_printedLead, braces]
      refine ⟨by simp, ⟨⟨first.isSome, ?_⟩, ?_, ?_, ?_⟩⟩
      · have plainInside : ∀ c ∈ left ++ (join ", ".toList (specifiers inner) ++ right),
            c ≠ '{' ∧ c ≠ '}' := by
          intro c member
          have printed := inside c member
          refine ⟨?_, ?_⟩ <;>
          · rintro rfl
            revert printed
            decide
        have whole := Clause.named (lead_printed named) plainInside (back.symm ▸ all)
        rwa [back] at whole
      · refine trimEnd_of_getLast? (c := '}') ?_ (by decide)
        rw [List.getLast?_append_of_ne_nil _ (List.cons_ne_nil _ _), List.getLast?_cons]
        simp
      · exact notSpaced_of_lead named (by decide) rfl _
      · exact .braced (printed_lead named) inside printed_nil
  | @whole lead star name comma first leads isPaired isStar =>
      have named : ∀ name ∈ first, ImportName name := fun name same => by
        cases same
        exact leads.isName
      have isName : ImportName name := by
        cases isStar with
        | named blank blankAfter filled isName => exact isName
      have canonical : Star name ("* as ".toList ++ name) :=
        .named gap_space gap_space (List.cons_ne_nil _ _) isName
      rw [importClauses_whole o named isName, join_printedLead]
      refine ⟨by simp, ⟨⟨first.isSome, .whole (lead_printed named) rfl canonical⟩, ?_, ?_, ?_⟩⟩
      · rw [← List.append_assoc]
        obtain ⟨c, last, continues⟩ := isName.getLast? (printedLead first ++ "* as ".toList)
        exact trimEnd_of_getLast? last (isBlank_of_isImportChar continues)
      · exact notSpaced_of_lead named (by decide) rfl _
      · have star : Printed "* as ".toList := forall_mem_of_all (by decide)
        exact .plain ((printed_lead named).append (star.append (printed_name isName)))

/-! ## Lines -/

/-- The line of an import: what stands in front of the path, the path in quotes, and the
terminator. -/
def lineOf (s : Style) (heading path : Text) : Text :=
  heading ++ s.options.quote :: (path ++ s.options.quote :: s.terminator)

theorem trimStart_terminator (s : Style) : trimStart s.terminator = [] ∨ trimStart s.terminator = [';'] := by
  rw [Style.terminator]
  cases s.terminated with
  | true => exact .inr rfl
  | false => exact .inl rfl

/-- A printed line is not trimmed. -/
theorem trim_lineOf (s : Style) (rest path : Text) :
    trim (lineOf s ("import ".toList ++ rest) path) = lineOf s ("import ".toList ++ rest) path := by
  have start : trimStart (lineOf s ("import ".toList ++ rest) path) = lineOf s ("import ".toList ++ rest) path :=
    trimStart_of_head? rfl (by decide)
  rw [trim, start]
  have quoted : isBlank s.options.quote = false := by
    rcases isPathQuote_iff.1 (isPathQuote_quote s.options) with isQuote | isQuote <;> rw [isQuote] <;> decide
  cases terminated : s.terminated with
  | true =>
      have ends : lineOf s ("import ".toList ++ rest) path =
          ("import ".toList ++ rest ++ s.options.quote :: (path ++ [s.options.quote])) ++ [';'] := by
        simp [lineOf, Style.terminator, terminated]
      rw [ends]
      exact trimEnd_of_getLast? List.getLast?_concat (by decide)
  | false =>
      have ends : lineOf s ("import ".toList ++ rest) path =
          ("import ".toList ++ rest ++ s.options.quote :: path) ++ [s.options.quote] := by
        simp [lineOf, Style.terminator, terminated]
      rw [ends]
      exact trimEnd_of_getLast? List.getLast?_concat quoted

/-- **A printed import is taken apart as it was.**  The line of an import in one of the forms
opens with the word and a heading, and taking it apart gives the import back, but for its text. -/
theorem ofText_printed (s : Style) {text : Text} {i : Import} (form : Form text i) :
    ∃ rest, i.print s 0 = [lineOf s ("import ".toList ++ rest) i.source] ∧ Heading rest ∧
      ∀ gap, Gap gap → Import.ofText (lineOf s ("import ".toList ++ rest) i.source ++ gap) =
        { i with raw := lineOf s ("import ".toList ++ rest) i.source ++ gap } := by
  have isQuote := isPathQuote_quote s.options
  cases form with
  | @bare raw path gap text blank pathEnd =>
      obtain ⟨quote, tail, -, -, inside, -⟩ := pathEnd.exists_tail
      have closing : PathEnd path (s.options.quote :: (path ++ s.options.quote :: s.terminator)) :=
        .quoted isQuote inside (trimStart_terminator s)
      refine ⟨[], Import.print_bare s 0 rfl rfl, .plain printed_nil, fun behind blank => ?_⟩
      refine ofText_of_form ?_ rfl
      rw [trim_append_blank _ blank, trim_lineOf]
      exact .bare gap_space closing
  | @clause raw path gap clause before after text comma first names namespaceName blank filled isClause
      trimmed notType blankBefore noWord blankAfter pathEnd =>
      obtain ⟨quote, tail, -, -, inside, -⟩ := pathEnd.exists_tail
      have closing : PathEnd path (s.options.quote :: (path ++ s.options.quote :: s.terminator)) :=
        .quoted isQuote inside (trimStart_terminator s)
      obtain ⟨some, printed⟩ := isClause.printed s.options raw path
      generalize isClauses : join ", ".toList (importClauses s.options
        (Import.ofParts raw path first names namespaceName)) = again at printed
      obtain ⟨comma', isClause'⟩ := printed.isClause
      have space : Printed " from ".toList := forall_mem_of_all (by decide)
      have spelled : ∀ rest, ("import ".toList ++ (again ++ " from ".toList)) ++ rest =
          "import".toList ++ ([' '] ++ (again ++ ([' '] ++ ("from".toList ++ ([' '] ++ rest))))) := by
        intro rest
        simp
      refine ⟨again ++ " from ".toList, ?_, ?_, fun behind blankBehind => ?_⟩
      · rw [Import.print_clauses s 0 rfl some, isClauses, lineOf, spelled]
        simp [Style.indent, Options.indent, times, Import.ofParts]
      · exact printed.heading.around printed_nil space
      · refine ofText_of_form ?_ rfl
        rw [trim_append_blank _ blankBehind, trim_lineOf, lineOf, spelled]
        have noWord' : endsInWord false (again ++ [' ']) = false := by
          rw [endsInWord, List.getLast?_concat]
          decide
        exact .clause gap_space (List.cons_ne_nil _ _) isClause' printed.trimmed printed.notType gap_space
          noWord' gap_space closing

end UiFormat.Ets

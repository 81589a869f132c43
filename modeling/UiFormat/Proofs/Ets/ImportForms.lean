/-
# UiFormat.Proofs.Ets.ImportForms -- how an import is written that is taken apart

An import statement is taken apart when it has one of a few forms.  `Form text i` is their
grammar: the word `import`, blanks, perhaps a clause (`Clause`) and the word `from`, and a path
in quotes (`PathEnd`), with what stands for which part of the import `i`.  Each recogniser
accepts exactly the texts of its part of the grammar (`importName?_iff`, `closingPath?_iff`,
`braced?_iff`, ...), and so an import is taken apart if and only if it has a form
(`form_of_structured`, `ofText_of_form`).

The grammar is not tight, and so is what it accepts: a comma may stand behind the default name
or not, whatever follows, and no blank need stand in front of `from` where a name ends in a
dollar sign.
-/
import UiFormat.Ets.ImportClause
import UiFormat.Proofs.Text.Cut
import UiFormat.Proofs.Text.Literal
import UiFormat.Proofs.Text.Pieces
import UiFormat.Proofs.Text.Squash

namespace UiFormat.Text

set_option autoImplicit false

/-- Nothing but blanks. -/
def Gap (text : Text) : Prop :=
  ∀ c ∈ text, isBlank c = true

theorem gap_nil : Gap [] :=
  fun _ member => (List.not_mem_nil member).elim

theorem trimStart_gap {gap rest : Text} (blank : Gap gap) (clear : Clear isBlank rest) :
    trimStart (gap ++ rest) = rest :=
  dropWhile_stretch blank clear

/-- What is trimmed in front is a gap. -/
theorem exists_gap (text : Text) :
    ∃ gap, text = gap ++ trimStart text ∧ Gap gap ∧ Clear isBlank (trimStart text) :=
  ⟨text.takeWhile isBlank, List.takeWhile_append_dropWhile.symm, fun _ => List.mem_takeWhile_imp,
    clear_dropWhile _ _⟩

/-- A gap opens a text that opens with a blank. -/
theorem gap_ne_nil {gap rest : Text} (clear : Clear isBlank rest)
    (opens : (gap ++ rest).head?.any isBlank = true) : gap ≠ [] := by
  rintro rfl
  cases rest with
  | nil => cases opens
  | cons c rest =>
      have blank : isBlank c = true := opens
      rw [clear c rfl] at blank
      cases blank

theorem head?_any_gap {gap : Text} (blank : Gap gap) (some : gap ≠ []) (rest : Text) :
    (gap ++ rest).head?.any isBlank = true := by
  obtain ⟨c, gap, rfl⟩ := List.exists_cons_of_ne_nil some
  exact blank c List.mem_cons_self

end UiFormat.Text

namespace UiFormat.Ets

open UiFormat.Text

set_option autoImplicit false

/-! ## Characters -/

/-- A character in front of which a path starts or behind which it ends. -/
def isPathQuote (c : Char) : Bool :=
  c == '\x22' || c == '\x27'

/-- What holds of the first 128 characters holds of those that can open a name. -/
theorem of_isIdentStart {p : Char → Bool}
    (table : ∀ code ∈ List.range 128, isIdentStart (Char.ofNat code) = true → p (Char.ofNat code) = true)
    {c : Char} (starts : isIdentStart c = true) : p c = true := by
  have ascii : c.toNat < 128 := by
    have letters : c.isAlpha = (decide ('A'.val ≤ c.val ∧ c.val ≤ 'Z'.val) ||
        decide ('a'.val ≤ c.val) && decide (c.val ≤ 'z'.val)) := rfl
    simp only [isIdentStart, letters, Bool.or_eq_true, Bool.and_eq_true, decide_eq_true_eq,
      beq_iff_eq, UInt32.le_iff_toNat_le] at starts
    rcases starts with (letter | rfl) | rfl
    · have ends : c.toNat = c.val.toNat ∧ 'Z'.val.toNat = 90 ∧ 'z'.val.toNat = 122 := ⟨rfl, rfl, rfl⟩
      omega
    · decide
    · decide
  have here := table c.toNat (List.mem_range.2 ascii)
  rw [Char.ofNat_toNat] at here
  exact here starts

theorem isImportChar_of_isIdentStart {c : Char} (starts : isIdentStart c = true) :
    isImportChar c = true :=
  of_isIdentStart (p := isImportChar) (by decide +kernel) starts

theorem isImportChar_of_isBlank {c : Char} (blank : isBlank c = true) : isImportChar c = false := by
  have other : c ≠ '$' := ne_of_isBlank blank (by decide)
  simp [isImportChar, isWord_of_isBlank blank, other]

/-! ## Names -/

/-- A character that can open a name, and characters that can continue it. -/
def ImportName (text : Text) : Prop :=
  ∃ c rest, text = c :: rest ∧ isIdentStart c = true ∧ ∀ d ∈ rest, isImportChar d = true

theorem ImportName.chars {name : Text} (isName : ImportName name) :
    ∀ c ∈ name, isImportChar c = true := by
  obtain ⟨c, rest, rfl, starts, later⟩ := isName
  exact List.forall_mem_cons.2 ⟨isImportChar_of_isIdentStart starts, later⟩

/-- Whatever fails at each character that can open a name fails at the front of one. -/
theorem ImportName.clear {name : Text} (isName : ImportName name) {p : Char → Bool}
    (fails : ∀ c, isIdentStart c = true → p c = false) (rest : Text) : Clear p (name ++ rest) := by
  obtain ⟨c, tail, rfl, starts, -⟩ := isName
  intro d first
  cases first
  exact fails c starts

theorem isBlank_of_isIdentStart {c : Char} (starts : isIdentStart c = true) : isBlank c = false := by
  have visible := of_isIdentStart (p := fun c => !isBlank c) (by decide +kernel) starts
  simpa using visible

/-- A gap does not continue a name. -/
theorem clear_gap {gap rest : Text} (blank : Gap gap) (clear : Clear isImportChar rest) :
    Clear isImportChar (gap ++ rest) :=
  clear_append (fun c first => isImportChar_of_isBlank (blank c (List.mem_of_mem_head? first))) clear

theorem importName?_iff {text name rest : Text} :
    importName? text = some (name, rest) ↔
      text = name ++ rest ∧ ImportName name ∧ Clear isImportChar rest := by
  constructor
  · intro found
    cases text with
    | nil => cases found
    | cons c text =>
        rw [importName?] at found
        split at found
        · rename_i starts
          cases found
          refine ⟨?_, ⟨c, _, rfl, starts, fun d => List.mem_takeWhile_imp⟩, clear_dropWhile _ _⟩
          rw [List.cons_append, List.takeWhile_append_dropWhile]
        · cases found
  · rintro ⟨rfl, ⟨c, tail, rfl, starts, all⟩, clear⟩
    rw [List.cons_append, importName?, if_pos starts, takeWhile_stretch all clear,
      dropWhile_stretch all clear]

theorem importName?_eq_none {text : Text} (clear : Clear isIdentStart text) :
    importName? text = none := by
  cases text with
  | nil => rfl
  | cons c text => rw [importName?, if_neg (by simp [clear c rfl])]

theorem isImportName_iff {text : Text} : isImportName text = true ↔ ImportName text := by
  unfold isImportName
  constructor
  · intro whole
    split at whole
    · rename_i name rest found
      obtain ⟨rfl, isName, -⟩ := importName?_iff.1 found
      rw [List.isEmpty_iff.1 whole, List.append_nil]
      exact isName
    · cases whole
  · intro isName
    have found : importName? text = some (text, []) :=
      importName?_iff.2 ⟨(List.append_nil text).symm, isName, fun _ first => by cases first⟩
    rw [found]
    rfl

/-! ## Paths -/

/-- A path in quotes, with at most a semicolon after it. -/
inductive PathEnd (path : Text) : Text → Prop
  | quoted {quote : Char} {tail : Text} (isQuote : isPathQuote quote = true)
      (inside : ∀ c ∈ path, isPathChar c = true)
      (ends : trimStart tail = [] ∨ trimStart tail = [';']) :
      PathEnd path (quote :: (path ++ quote :: tail))

theorem isPathQuote_iff {c : Char} : isPathQuote c = true ↔ c = '\x22' ∨ c = '\x27' := by
  simp only [isPathQuote, Bool.or_eq_true, beq_iff_eq]

theorem isPathChar_of_isPathQuote {c : Char} (isQuote : isPathQuote c = true) :
    isPathChar c = false := by
  rcases isPathQuote_iff.1 isQuote with rfl | rfl <;> rfl

theorem closingPath?_iff {text path : Text} : closingPath? text = some path ↔ PathEnd path text := by
  constructor
  · intro found
    cases text with
    | nil => cases found
    | cons quote rest =>
        rw [closingPath?] at found
        split at found
        · rename_i isQuote
          cases behind : rest.dropWhile isPathChar with
          | nil =>
              rw [behind] at found
              cases found
          | cons c tail =>
              rw [behind] at found
              dsimp only at found
              split at found
              · rename_i closes
                cases found
                simp only [Bool.and_eq_true, Bool.or_eq_true, beq_iff_eq] at closes
                obtain ⟨rfl, ends⟩ := closes
                have split : rest.takeWhile isPathChar ++ c :: tail = rest := by
                  rw [← behind, List.takeWhile_append_dropWhile]
                have whole := PathEnd.quoted isQuote (fun d => List.mem_takeWhile_imp (l := rest)) ends
                rwa [split] at whole
              · cases found
        · cases found
  · rintro ⟨isQuote, inside, ends⟩
    rename_i quote tail
    have stops : Clear isPathChar (quote :: tail) := by
      intro c first
      cases first
      exact isPathChar_of_isPathQuote isQuote
    have closes : (quote == quote && (trimStart tail == [] || trimStart tail == [';'])) = true := by
      simpa using ends
    rw [closingPath?, dropWhile_stretch inside stops, takeWhile_stretch inside stops,
      if_pos (isPathQuote.eq_def quote ▸ isQuote)]
    exact if_pos closes

theorem closingPath?_eq_none {text : Text} (clear : Clear isPathQuote text) :
    closingPath? text = none := by
  cases text with
  | nil => rfl
  | cons c text =>
      have other : ¬ (c == '\x22' || c == '\x27') = true := by
        rw [← isPathQuote, clear c rfl]
        decide
      rw [closingPath?, if_neg other]

/-- A path in quotes opens with a quote, so not with a blank. -/
theorem PathEnd.clear {path text : Text} (pathEnd : PathEnd path text) : Clear isBlank text := by
  obtain ⟨isQuote, -, -⟩ := pathEnd
  intro c first
  cases first
  rcases isPathQuote_iff.1 isQuote with rfl | rfl <;> decide

/-! ## The word in front of the path -/

theorem fromPath?_iff {text path : Text} :
    fromPath? text = some path ↔
      ∃ gap rest, text = "from".toList ++ (gap ++ rest) ∧ Gap gap ∧ PathEnd path rest := by
  rw [fromPath?, Option.bind_eq_some_iff]
  constructor
  · rintro ⟨behind, here, found⟩
    obtain ⟨gap, split, blank, -⟩ := exists_gap behind
    exact ⟨gap, trimStart behind, by rw [after?_eq_some_iff.1 here, ← split], blank,
      closingPath?_iff.1 found⟩
  · rintro ⟨gap, rest, rfl, blank, pathEnd⟩
    refine ⟨gap ++ rest, after?_eq_some_iff.2 rfl, ?_⟩
    rw [trimStart_gap blank pathEnd.clear]
    exact closingPath?_iff.2 pathEnd

/-- The text, or what stands before it when it is empty, ends in a word character. -/
def endsInWord (wordBefore : Bool) (text : Text) : Bool :=
  (text.getLast?.map isWord).getD wordBefore

theorem endsInWord_cons (wordBefore : Bool) (c : Char) (text : Text) :
    endsInWord wordBefore (c :: text) = endsInWord (isWord c) text := by
  rw [endsInWord, endsInWord, List.getLast?_cons]
  cases text.getLast? <;> rfl

theorem splitFrom?_sound {wordBefore : Bool} {text clause path : Text}
    (found : splitFrom? wordBefore text = some (clause, path)) :
    ∃ rest, text = clause ++ rest ∧ fromPath? rest = some path ∧
      endsInWord wordBefore clause = false := by
  have here : ∀ {wordBefore : Bool} {text path : Text},
      (if wordBefore = true then none else fromPath? text) = some path →
        fromPath? text = some path ∧ wordBefore = false := by
    intro wordBefore text path found
    split at found
    · cases found
    · rename_i noWord
      exact ⟨found, by simpa using noWord⟩
  induction text generalizing wordBefore clause with
  | nil =>
      rw [splitFrom?] at found
      split at found
      · rename_i stands
        cases found
        obtain ⟨stands, noWord⟩ := here stands
        exact ⟨[], rfl, stands, noWord⟩
      · cases found
  | cons c text ih =>
      rw [splitFrom?] at found
      split at found
      · rename_i stands
        cases found
        obtain ⟨stands, noWord⟩ := here stands
        exact ⟨c :: text, rfl, stands, noWord⟩
      · obtain ⟨⟨later, behind⟩, there, same⟩ := Option.map_eq_some_iff.1 found
        cases same
        obtain ⟨rest, rfl, stands, noWord⟩ := ih there
        exact ⟨rest, rfl, stands, by rwa [endsInWord_cons]⟩

/-- Behind blanks stands what stands first among the rest. -/
theorem clear_trimStart {p : Char → Bool} {text rest : Text} {c : Char}
    (fails : ∀ d ∈ text, p d = false) (visible : isBlank c = false) (here : p c = false) :
    Clear p (trimStart (text ++ c :: rest)) := by
  induction text with
  | nil =>
      rw [List.nil_append, trimStart_of_head? rfl visible]
      intro d first
      cases first
      exact here
  | cons d text ih =>
      rw [List.forall_mem_cons] at fails
      cases blank : isBlank d with
      | true =>
          rw [List.cons_append, trimStart, List.dropWhile_cons_of_pos blank]
          exact ih fails.2
      | false =>
          rw [List.cons_append, trimStart_of_head? rfl blank]
          intro e first
          cases first
          exact fails.1

/-- The word `from` in front of the path is not found further left: between it and the quote
stand only blanks. -/
theorem fromPath?_unquoted {x rest path : Text} (filled : x ≠ [])
    (unquoted : ∀ c ∈ x, isPathQuote c = false) (found : fromPath? rest = some path) :
    fromPath? (x ++ rest) = none := by
  obtain ⟨gap, pathText, rfl, -⟩ := fromPath?_iff.1 found
  rw [fromPath?]
  cases here : after? "from".toList (x ++ ("from".toList ++ (gap ++ pathText))) with
  | none => rfl
  | some behind =>
      have long : 4 ≤ (x ++ ['f', 'r', 'o']).length := by
        have one := List.length_pos_of_ne_nil filled
        simp only [List.length_append, List.length_cons, List.length_nil]
        omega
      have shifted : behind = (x ++ ['f', 'r', 'o']).drop 4 ++ 'm' :: (gap ++ pathText) := by
        have whole := congrArg (List.drop 4) (after?_eq_some_iff.1 here)
        have regrouped : x ++ ("from".toList ++ (gap ++ pathText)) =
            (x ++ ['f', 'r', 'o']) ++ 'm' :: (gap ++ pathText) := by simp
        rw [regrouped, List.drop_append_of_le_length long] at whole
        exact whole.symm
      have plain : ∀ c ∈ (x ++ ['f', 'r', 'o']).drop 4, isPathQuote c = false := by
        intro c member
        rcases List.mem_append.1 (List.mem_of_mem_drop member) with inX | inWord
        · exact unquoted c inX
        · have letters : ∀ c ∈ ['f', 'r', 'o'], isPathQuote c = false := forall_mem_of_all (by decide)
          exact letters c inWord
      rw [Option.bind_some, shifted]
      exact closingPath?_eq_none (clear_trimStart plain (by decide) (by decide))

theorem splitFrom?_complete {wordBefore : Bool} {clause rest path : Text}
    (unquoted : ∀ c ∈ clause, isPathQuote c = false) (found : fromPath? rest = some path)
    (noWord : endsInWord wordBefore clause = false) :
    splitFrom? wordBefore (clause ++ rest) = some (clause, path) := by
  induction clause generalizing wordBefore with
  | nil =>
      have here : (if wordBefore = true then none else fromPath? rest) = some path := by
        rw [if_neg (by simpa [endsInWord] using noWord), found]
      rw [List.nil_append, splitFrom?.eq_def, here]
  | cons c clause ih =>
      have missing : (if wordBefore = true then none else fromPath? (c :: clause ++ rest)) = none := by
        rw [fromPath?_unquoted (List.cons_ne_nil c clause) unquoted found, ite_self]
      rw [endsInWord_cons] at noWord
      rw [List.cons_append] at missing ⊢
      rw [splitFrom?, missing]
      dsimp only
      rw [ih (List.forall_mem_cons.1 unquoted).2 noWord]
      rfl

/-! ## Clauses -/

/-- What stands in front of the names of a clause: perhaps a default name, and perhaps a
comma. -/
inductive Lead : Text → Option Text → Bool → Prop
  | nothing : Lead [] none false
  | comma {gap : Text} (blank : Gap gap) : Lead (',' :: gap) none true
  | name {name gap : Text} (isName : ImportName name) (blank : Gap gap) :
      Lead (name ++ gap) (some name) false
  | both {name gap after : Text} (isName : ImportName name) (blank : Gap gap)
      (blankAfter : Gap after) : Lead (name ++ (gap ++ ',' :: after)) (some name) true

/-- A star with a name for all that is imported. -/
inductive Star (name : Text) : Text → Prop
  | named {gap after : Text} (blank : Gap gap) (blankAfter : Gap after) (filled : after ≠ [])
      (isName : ImportName name) : Star name ('*' :: (gap ++ ("as".toList ++ (after ++ name))))

/-- Nothing, or what stands between two braces, which holds no others. -/
inductive Braces : Option Text → Text → Prop
  | absent : Braces none []
  | around {inner : Text} (plain : ∀ c ∈ inner, c ≠ '{' ∧ c ≠ '}') :
      Braces (some inner) ('{' :: (inner ++ ['}']))

/-- A word of letters does not open with a blank. -/
theorem clear_letters {word rest : Text} (letters : ∀ c ∈ word, isBlank c = false)
    (filled : word ≠ []) : Clear isBlank (word ++ rest) := by
  obtain ⟨c, word, rfl⟩ := List.exists_cons_of_ne_nil filled
  intro d first
  cases first
  exact letters c List.mem_cons_self

theorem namespaceName?_iff {text name : Text} : namespaceName? text = some name ↔ Star name text := by
  simp only [namespaceName?, Option.bind_eq_bind, Option.bind_eq_some_iff]
  constructor
  · rintro ⟨behind, star, later, word, named⟩
    split at named
    · rename_i both
      rw [Bool.and_eq_true] at both
      cases named
      obtain ⟨gap, split, blank, -⟩ := exists_gap behind
      obtain ⟨after, splitLater, blankAfter, clear⟩ := exists_gap later
      have filled : after ≠ [] := gap_ne_nil clear (splitLater ▸ both.1)
      have whole := Star.named blank blankAfter filled (isImportName_iff.1 both.2)
      rw [← splitLater, ← after?_eq_some_iff.1 word, ← split] at whole
      rw [after?_eq_some_iff.1 star]
      exact whole
    · cases named
  · rintro ⟨blank, blankAfter, filled, isName⟩
    rename_i gap after
    have letters : Clear isBlank ("as".toList ++ (after ++ name)) :=
      clear_letters (forall_mem_of_all (by decide)) (by decide)
    have visible : Clear isBlank name := by
      simpa using isName.clear (fun c => isBlank_of_isIdentStart) []
    refine ⟨gap ++ ("as".toList ++ (after ++ name)), after?_eq_some_iff.2 rfl, after ++ name, ?_, ?_⟩
    · rw [trimStart_gap blank letters]
      exact after?_eq_some_iff.2 rfl
    · rw [trimStart_gap blankAfter visible, head?_any_gap blankAfter filled,
        isImportName_iff.2 isName]
      rfl

theorem Star.clear {name star : Text} (isStar : Star name star) {p : Char → Bool}
    (fails : p '*' = false) : Clear p star := by
  obtain ⟨-, -, -, -⟩ := isStar
  intro c first
  cases first
  exact fails

theorem Braces.clear {names : Option Text} {braces : Text} (isBraces : Braces names braces)
    {p : Char → Bool} (fails : p '{' = false) : Clear p braces := by
  cases isBraces with
  | absent => exact fun c first => by cases first
  | around plain =>
      intro c first
      cases first
      exact fails

theorem leadingName?_iff {clause name rest : Text} :
    leadingName? clause = some (name, rest) ↔
      ∃ lead, clause = lead ++ rest ∧ Lead lead (some name) true ∧ Clear isBlank rest := by
  simp only [leadingName?, Option.bind_eq_bind, Option.bind_eq_some_iff]
  constructor
  · rintro ⟨⟨found, behind⟩, named, later, comma, same⟩
    cases same
    obtain ⟨rfl, isName, -⟩ := importName?_iff.1 named
    obtain ⟨gap, split, blank, -⟩ := exists_gap behind
    obtain ⟨after, splitLater, blankAfter, clear⟩ := exists_gap later
    refine ⟨found ++ (gap ++ ',' :: after), ?_, .both isName blank blankAfter, clear⟩
    have spelled : behind = gap ++ ',' :: (after ++ trimStart later) := by
      rw [← splitLater]
      exact split.trans (congrArg (gap ++ ·) (after?_eq_some_iff.1 comma))
    rw [spelled, List.append_assoc, List.append_assoc]
    rfl
  · rintro ⟨lead, rfl, leads, clear⟩
    cases leads with
    | both isName blank blankAfter =>
        rename_i gap after
        have ends : Clear isImportChar (gap ++ ',' :: (after ++ rest)) :=
          clear_gap blank fun c first => by cases first; decide
        have visible : Clear isBlank (',' :: (after ++ rest)) := fun c first => by cases first; decide
        refine ⟨(name, gap ++ ',' :: (after ++ rest)), importName?_iff.2 ⟨by simp, isName, ends⟩,
          after ++ rest, ?_, ?_⟩
        · rw [trimStart_gap blank visible]
          exact after?_eq_some_iff.2 rfl
        · rw [trimStart_gap blankAfter clear]
          rfl

theorem namespaceClause?_iff {clause name : Text} {first : Option Text} :
    namespaceClause? clause = some (first, name) ↔
      ∃ lead star, clause = lead ++ star ∧ Lead lead first first.isSome ∧ Star name star := by
  constructor
  · intro found
    rw [namespaceClause?] at found
    split at found
    · rename_i here
      cases found
      exact ⟨[], clause, rfl, .nothing, namespaceName?_iff.1 here⟩
    · simp only [Option.bind_eq_bind, Option.bind_eq_some_iff] at found
      obtain ⟨⟨before, rest⟩, leads, behind, star, same⟩ := found
      cases same
      obtain ⟨lead, rfl, isLead, -⟩ := leadingName?_iff.1 leads
      exact ⟨lead, rest, rfl, isLead, namespaceName?_iff.1 star⟩
  · rintro ⟨lead, star, rfl, leads, isStar⟩
    cases first with
    | none =>
        cases leads
        rw [List.nil_append, namespaceClause?, namespaceName?_iff.2 isStar]
    | some before =>
        have noStar : namespaceName? (lead ++ star) = none := by
          cases found : namespaceName? (lead ++ star) with
          | none => rfl
          | some other =>
              exfalso
              cases leads with
              | both isName blank blankAfter =>
                  have starts := (namespaceName?_iff.1 found).clear (p := fun c => c != '*') rfl
                  rw [List.append_assoc] at starts
                  obtain ⟨c, tail, rfl, isStart, -⟩ := isName
                  have stars : c = '*' := by simpa using starts c rfl
                  rw [stars] at isStart
                  cases isStart
        have leading := leadingName?_iff.2 ⟨lead, rfl, leads, isStar.clear (by decide)⟩
        rw [namespaceClause?, noStar]
        simp only [leading, Option.bind_eq_bind, Option.bind_some, namespaceName?_iff.2 isStar]
        rfl

/-- Neither of the two braces. -/
def isInner (c : Char) : Bool :=
  c != '{' && c != '}'

theorem braced?_iff {text inner : Text} :
    braced? text = some inner ↔ Braces (some inner) text := by
  have shape : ∀ rest : Text, braced? ('{' :: rest) =
      if (rest.dropWhile isInner == ['}']) = true then some (rest.takeWhile isInner) else none := by
    intro rest
    rw [← drop_runLength]
    rfl
  constructor
  · intro found
    cases text with
    | nil => cases found
    | cons c rest =>
        by_cases opens : c = '{'
        · subst opens
          rw [shape] at found
          split at found
          · rename_i ends
            cases found
            have plain : ∀ c ∈ rest.takeWhile isInner, c ≠ '{' ∧ c ≠ '}' := by
              intro c member
              simpa [isInner] using List.mem_takeWhile_imp member
            have whole := Braces.around plain
            rwa [← beq_iff_eq.1 ends, List.takeWhile_append_dropWhile] at whole
          · cases found
        · unfold braced? at found
          split at found
          · rename_i same
            cases same
            exact absurd rfl opens
          · cases found
  · intro isBraces
    cases isBraces with
    | around plain =>
        have all : ∀ c ∈ inner, isInner c = true := by
          intro c member
          simpa [isInner] using plain c member
        have stops : Clear isInner ['}'] := fun c first => by cases first; decide
        rw [shape, dropWhile_stretch all stops, takeWhile_stretch all stops]
        rfl

/-- What a clause is once its front is known: nothing more, or braces. -/
def closingBraces? (first : Option Text) (rest : Text) : Option (Option Text × Option Text) :=
  if rest.isEmpty then some (first, none) else (braced? rest).map fun names => (first, some names)

theorem closingBraces?_iff {first names : Option Text} {rest : Text} {found : Option Text} :
    closingBraces? first rest = some (found, names) ↔ found = first ∧ Braces names rest := by
  unfold closingBraces?
  constructor
  · intro closes
    split at closes
    · rename_i empty
      cases closes
      rw [List.isEmpty_iff.1 empty]
      exact ⟨rfl, .absent⟩
    · obtain ⟨inner, isBraces, same⟩ := Option.map_eq_some_iff.1 closes
      cases same
      exact ⟨rfl, braced?_iff.1 isBraces⟩
  · rintro ⟨rfl, isBraces⟩
    cases names with
    | none =>
        cases isBraces
        rfl
    | some inner =>
        have filled : rest.isEmpty = false := by
          cases isBraces
          rfl
        rw [filled, braced?_iff.2 isBraces]
        rfl

theorem namedClause?_eq (clause : Text) :
    namedClause? clause =
      (let opening := (importName? clause).elim (none, clause) fun found => (some found.1, found.2)
      let rest := trimStart opening.2
      closingBraces? opening.1 (trimStart ((after? [','] rest).getD rest))) := by
  unfold namedClause?
  cases importName? clause <;> rfl

theorem namedClause?_sound {clause : Text} {first names : Option Text} (clear : Clear isBlank clause)
    (found : namedClause? clause = some (first, names)) :
    ∃ lead comma braces, clause = lead ++ braces ∧ Lead lead first comma ∧ Braces names braces := by
  rw [namedClause?_eq] at found
  cases named : importName? clause with
  | none =>
      have visible : trimStart clause = clause := trimStart_gap gap_nil clear
      rw [named] at found
      simp only [Option.elim_none, visible] at found
      cases comma : after? [','] clause with
      | none =>
          rw [comma, Option.getD_none, visible] at found
          obtain ⟨rfl, isBraces⟩ := closingBraces?_iff.1 found
          exact ⟨[], false, clause, rfl, .nothing, isBraces⟩
      | some later =>
          rw [comma, Option.getD_some] at found
          obtain ⟨rfl, isBraces⟩ := closingBraces?_iff.1 found
          obtain ⟨gap, split, blank, -⟩ := exists_gap later
          refine ⟨',' :: gap, true, trimStart later, ?_, .comma blank, isBraces⟩
          exact (after?_eq_some_iff.1 comma).trans (congrArg (',' :: ·) split)
  | some pair =>
      obtain ⟨name, behind⟩ := pair
      obtain ⟨rfl, isName, -⟩ := importName?_iff.1 named
      obtain ⟨gap, split, blank, visible⟩ := exists_gap behind
      rw [named] at found
      simp only [Option.elim_some] at found
      cases comma : after? [','] (trimStart behind) with
      | none =>
          have again : trimStart (trimStart behind) = trimStart behind := trimStart_gap gap_nil visible
          rw [comma, Option.getD_none, again] at found
          obtain ⟨rfl, isBraces⟩ := closingBraces?_iff.1 found
          refine ⟨name ++ gap, false, trimStart behind, ?_, .name isName blank, isBraces⟩
          rw [List.append_assoc, ← split]
      | some later =>
          rw [comma, Option.getD_some] at found
          obtain ⟨rfl, isBraces⟩ := closingBraces?_iff.1 found
          obtain ⟨after, splitLater, blankAfter, -⟩ := exists_gap later
          refine ⟨name ++ (gap ++ ',' :: after), true, trimStart later, ?_,
            .both isName blank blankAfter, isBraces⟩
          have spelled : behind = gap ++ ',' :: (after ++ trimStart later) := by
            rw [← splitLater]
            exact split.trans (congrArg (gap ++ ·) (after?_eq_some_iff.1 comma))
          rw [spelled, List.append_assoc, List.append_assoc]
          rfl

theorem namedClause?_complete {lead braces : Text} {first names : Option Text} {comma : Bool}
    (leads : Lead lead first comma) (isBraces : Braces names braces) :
    namedClause? (lead ++ braces) = some (first, names) := by
  have closes : closingBraces? first braces = some (first, names) :=
    closingBraces?_iff.2 ⟨rfl, isBraces⟩
  have noComma : after? [','] braces = none := by
    cases isBraces <;> rfl
  have visible : trimStart braces = braces := trimStart_gap gap_nil (isBraces.clear (by decide))
  rw [namedClause?_eq]
  cases leads with
  | nothing =>
      rw [List.nil_append, importName?_eq_none (isBraces.clear (by decide))]
      simp only [Option.elim_none, visible, noComma, Option.getD_none, closes]
  | comma blank =>
      rename_i gap
      have front : trimStart (',' :: (gap ++ braces)) = ',' :: (gap ++ braces) :=
        trimStart_of_head? rfl (by decide)
      have behind : after? [','] (',' :: (gap ++ braces)) = some (gap ++ braces) :=
        after?_eq_some_iff.2 rfl
      rw [List.cons_append, importName?_eq_none fun c first => by cases first; decide]
      simp only [Option.elim_none, front, behind, Option.getD_some,
        trimStart_gap blank (isBraces.clear (by decide)), closes]
  | name isName blank =>
      rename_i name gap
      have named : importName? (name ++ gap ++ braces) = some (name, gap ++ braces) :=
        importName?_iff.2 ⟨List.append_assoc _ _ _, isName, clear_gap blank (isBraces.clear (by decide))⟩
      rw [named]
      simp only [Option.elim_some, trimStart_gap blank (isBraces.clear (by decide)), noComma,
        Option.getD_none, visible, closes]
  | both isName blank blankAfter =>
      rename_i name gap after
      have isComma : ∀ {p : Char → Bool}, p ',' = false → Clear p (',' :: (after ++ braces)) := by
        intro p fails c first
        cases first
        exact fails
      have named : importName? (name ++ (gap ++ ',' :: after) ++ braces) =
          some (name, gap ++ ',' :: (after ++ braces)) :=
        importName?_iff.2 ⟨by simp, isName, clear_gap blank (isComma (by decide))⟩
      have behind : after? [','] (',' :: (after ++ braces)) = some (after ++ braces) :=
        after?_eq_some_iff.2 rfl
      rw [named]
      simp only [Option.elim_some, trimStart_gap blank (isComma (by decide)), behind,
        Option.getD_some, trimStart_gap blankAfter (isBraces.clear (by decide)), closes]

/-- What stands between `import` and `from`, and what it says: whether there is a comma, the
default name, the names in braces and the name for all. -/
inductive Clause : Text → Bool → Option Text → Option (List Text) → Option Text → Prop
  | default {lead name : Text} {comma : Bool} (leads : Lead lead (some name) comma) :
      Clause lead comma (some name) none none
  | named {lead inner : Text} {comma : Bool} {first : Option Text} (leads : Lead lead first comma)
      (plain : ∀ c ∈ inner, c ≠ '{' ∧ c ≠ '}') (all : ∀ name ∈ specifiers inner, isSpecifier name = true) :
      Clause (lead ++ '{' :: (inner ++ ['}'])) comma first (some (specifiers inner)) none
  | whole {lead star name : Text} {comma : Bool} {first : Option Text}
      (leads : Lead lead first comma) (paired : comma = first.isSome) (isStar : Star name star) :
      Clause (lead ++ star) comma first none (some name)

/-- An import of which a clause and the path are known. -/
def Import.ofParts (raw path : Text) (first : Option Text) (names : Option (List Text))
    (namespaceName : Option Text) : Import :=
  { raw, source := path, defaultName := first, names, namespaceName, structured := true }

theorem withClause_sound {raw path clause : Text} (clear : Clear isBlank clause)
    (structured : (withClause { raw, source := path } clause).structured = true) :
    ∃ comma first names namespaceName, Clause clause comma first names namespaceName ∧
      withClause { raw, source := path } clause =
        Import.ofParts raw path first names namespaceName := by
  rw [withClause] at structured ⊢
  cases spaced : namespaceClause? clause with
  | some found =>
      obtain ⟨first, name⟩ := found
      obtain ⟨lead, star, rfl, leads, isStar⟩ := namespaceClause?_iff.1 spaced
      exact ⟨_, first, none, some name, .whole leads rfl isStar, rfl⟩
  | none =>
      rw [spaced] at structured
      cases named : namedClause? clause with
      | none =>
          rw [named] at structured
          cases structured
      | some found =>
          obtain ⟨first, names⟩ := found
          obtain ⟨lead, comma, braces, rfl, leads, isBraces⟩ := namedClause?_sound clear named
          rw [named] at structured
          cases isBraces with
          | absent =>
              rw [List.append_nil]
              cases first with
              | none => cases structured
              | some name => exact ⟨comma, some name, none, none, .default leads, rfl⟩
          | @around inner plain =>
              cases all : (specifiers inner).all isSpecifier with
              | true =>
                  refine ⟨comma, first, some (specifiers inner), none,
                    .named leads plain (List.all_eq_true.1 all), ?_⟩
                  simp only [all, if_true]
                  rfl
              | false =>
                  simp only [all, Bool.false_eq_true, if_false] at structured

/-- What fails at a comma, and at each character that can open a name, fails at the front of a
clause if it fails at the front of what stands behind its lead. -/
theorem Lead.clear {lead rest : Text} {first : Option Text} {comma : Bool}
    (leads : Lead lead first comma) {p : Char → Bool}
    (fails : ∀ c, isIdentStart c = true → p c = false) (failsComma : p ',' = false)
    (clear : Clear p rest) : Clear p (lead ++ rest) := by
  cases leads with
  | nothing => exact clear
  | comma blank =>
      intro c first
      cases first
      exact failsComma
  | name isName blank =>
      rw [List.append_assoc]
      exact isName.clear fails _
  | both isName blank blankAfter =>
      rw [List.append_assoc]
      exact isName.clear fails _

theorem ne_star_of_isIdentStart (c : Char) (starts : isIdentStart c = true) : (c == '*') = false := by
  have other := of_isIdentStart (p := fun c => c != '*') (by decide +kernel) starts
  simpa using other

/-- Only a default name with a comma behind it leads to something else. -/
theorem leadingName?_lead {lead braces : Text} {first names : Option Text} {comma : Bool}
    (leads : Lead lead first comma) (isBraces : Braces names braces) :
    leadingName? (lead ++ braces) = if comma then first.map fun name => (name, braces) else none := by
  have nameless : ∀ {text : Text}, Clear isIdentStart text → leadingName? text = none := by
    intro text clear
    rw [leadingName?, importName?_eq_none clear]
    rfl
  cases leads with
  | nothing => exact nameless (isBraces.clear (by decide))
  | comma blank => exact nameless fun c first => by cases first; decide
  | name isName blank =>
      rename_i name gap
      have named : importName? (name ++ gap ++ braces) = some (name, gap ++ braces) :=
        importName?_iff.2 ⟨List.append_assoc _ _ _, isName, clear_gap blank (isBraces.clear (by decide))⟩
      have noComma : after? [','] braces = none := by
        cases isBraces <;> rfl
      rw [leadingName?, named]
      simp [trimStart_gap blank (isBraces.clear (by decide)), noComma]
  | both isName blank blankAfter =>
      exact leadingName?_iff.2 ⟨_, rfl, .both isName blank blankAfter, isBraces.clear (by decide)⟩

/-- Nothing names all that is imported where braces stand, or nothing. -/
theorem namespaceClause?_eq_none {lead braces : Text} {first names : Option Text} {comma : Bool}
    (leads : Lead lead first comma) (isBraces : Braces names braces) :
    namespaceClause? (lead ++ braces) = none := by
  have noStar : ∀ {text : Text}, Clear (· == '*') text → namespaceName? text = none := by
    intro text clear
    cases found : namespaceName? text with
    | none => rfl
    | some name =>
        cases namespaceName?_iff.1 found with
        | named => cases clear '*' rfl
  have starless : Clear (· == '*') braces := isBraces.clear rfl
  rw [namespaceClause?, noStar (leads.clear ne_star_of_isIdentStart rfl starless),
    leadingName?_lead leads isBraces]
  cases comma with
  | false => rfl
  | true =>
      cases first with
      | none => rfl
      | some name => simp [noStar starless]

theorem withClause_complete {raw path clause : Text} {comma : Bool} {first : Option Text}
    {names : Option (List Text)} {namespaceName : Option Text}
    (isClause : Clause clause comma first names namespaceName) :
    withClause { raw, source := path } clause =
      Import.ofParts raw path first names namespaceName := by
  rw [withClause]
  cases isClause with
  | default leads =>
      have noStar := namespaceClause?_eq_none leads .absent
      have named := namedClause?_complete leads .absent
      rw [List.append_nil] at noStar named
      rw [noStar, named]
      rfl
  | named leads plain all =>
      rw [namespaceClause?_eq_none leads (.around plain), namedClause?_complete leads (.around plain)]
      simp only [List.all_eq_true.2 all, if_true]
      rfl
  | whole leads paired isStar =>
      rw [namespaceClause?_iff.2 ⟨_, _, rfl, paired ▸ leads, isStar⟩]
      rfl

/-! ## Statements -/

/-- The grammar of the import statements that are taken apart, blanks at their ends left out.
The test for a type import is made on the text. -/
inductive Form : Text → Import → Prop
  | bare {raw path gap text : Text} (blank : Gap gap) (pathEnd : PathEnd path text) :
      Form ("import".toList ++ (gap ++ text)) (Import.ofParts raw path none none none)
  | clause {raw path gap clause before after text : Text} {comma : Bool} {first : Option Text}
      {names : Option (List Text)} {namespaceName : Option Text} (blank : Gap gap) (filled : gap ≠ [])
      (isClause : Clause clause comma first names namespaceName)
      (trimmed : trimEnd clause = clause) (notType : startsWith clause "type ".toList = false)
      (blankBefore : Gap before) (noWord : endsInWord false (clause ++ before) = false)
      (blankAfter : Gap after) (pathEnd : PathEnd path text) :
      Form ("import".toList ++ (gap ++ (clause ++ (before ++ ("from".toList ++ (after ++ text))))))
        (Import.ofParts raw path first names namespaceName)

/-- What was taken apart has one of the forms. -/
theorem form_of_structured {raw : Text} (structured : (Import.ofText raw).structured = true) :
    Form (trim raw) (Import.ofText raw) := by
  rw [Import.ofText] at structured ⊢
  cases word : after? "import".toList (trim raw) with
  | none =>
      rw [word] at structured
      cases structured
  | some rest =>
      obtain ⟨gap, split, blank, clear⟩ := exists_gap rest
      have whole : trim raw = "import".toList ++ (gap ++ trimStart rest) := by
        rw [← split]
        exact after?_eq_some_iff.1 word
      rw [whole]
      cases bare : closingPath? (trimStart rest) with
      | some path =>
          simp only [bare]
          exact .bare blank (closingPath?_iff.1 bare)
      | none =>
          simp only [word, bare] at structured ⊢
          cases spaced : rest.head?.any isBlank with
          | false => simp [spaced] at structured
          | true =>
              simp only [spaced] at structured ⊢
              cases found : splitFrom? false (trimStart rest) with
              | none => simp [found] at structured
              | some pair =>
                  obtain ⟨clause, path⟩ := pair
                  simp only [found] at structured ⊢
                  cases isType : startsWith (trimEnd clause) "type ".toList with
                  | true =>
                      simp only [isType] at structured
                      cases structured
                  | false =>
                      simp only [isType] at structured ⊢
                      obtain ⟨before, ends, blankBefore⟩ := exists_dropEndWhile_append isBlank clause
                      obtain ⟨behind, clauseSplit, from?, noWord⟩ := splitFrom?_sound found
                      obtain ⟨after, text, rfl, blankAfter, pathEnd⟩ := fromPath?_iff.1 from?
                      change clause = trimEnd clause ++ before at ends
                      have visible : Clear isBlank (trimEnd clause) := by
                        intro c first
                        refine clear c ?_
                        rw [clauseSplit, ends, List.append_assoc]
                        exact List.mem_head?_append_of_mem_head? first
                      obtain ⟨comma, first, names, namespaceName, isClause, same⟩ :=
                        withClause_sound visible structured
                      have filled : gap ≠ [] := gap_ne_nil clear (split ▸ spaced)
                      rw [clauseSplit]
                      have form := @Form.clause raw _ _ _ _ _ _ _ _ _ _ blank filled isClause (trimEnd_trimEnd clause)
                        isType blankBefore (ends ▸ noWord) blankAfter pathEnd
                      rw [← List.append_assoc (trimEnd clause), ← ends] at form
                      simpa [same] using form

/-- How a clause opens: with a character that can open a name, or with one of three marks. -/
theorem Clause.clear {clause : Text} {comma : Bool} {first : Option Text} {names : Option (List Text)}
    {namespaceName : Option Text} (isClause : Clause clause comma first names namespaceName)
    {p : Char → Bool} (fails : ∀ c, isIdentStart c = true → p c = false)
    (others : ∀ c ∈ [',', '*', '{'], p c = false) (rest : Text) : Clear p (clause ++ rest) := by
  have failsComma : p ',' = false := others _ (by decide)
  cases isClause with
  | default leads =>
      cases leads with
      | name isName blank =>
          rw [List.append_assoc]
          exact isName.clear fails _
      | both isName blank blankAfter =>
          rw [List.append_assoc]
          exact isName.clear fails _
  | named leads plain all =>
      rw [List.append_assoc]
      exact leads.clear fails failsComma fun c first => by cases first; exact others _ (by decide)
  | whole leads paired isStar =>
      rw [List.append_assoc]
      refine leads.clear fails failsComma ?_
      cases isStar with
      | named => exact fun c first => by cases first; exact others _ (by decide)

theorem isPathQuote_of_isIdentStart (c : Char) (starts : isIdentStart c = true) :
    isPathQuote c = false := by
  have other := of_isIdentStart (p := fun c => !isPathQuote c) (by decide +kernel) starts
  simpa using other

/-- The characters of specifiers. -/
def isSpecifierChar (c : Char) : Bool :=
  isImportChar c || isBlank c

theorem isSpecifierChar_of_name {name : Text} (isName : ImportName name) :
    ∀ c ∈ name, isSpecifierChar c = true := by
  intro c member
  rw [isSpecifierChar, isName.chars c member, Bool.true_or]

theorem isSpecifierChar_of_gap {gap : Text} (blank : Gap gap) :
    ∀ c ∈ gap, isSpecifierChar c = true := by
  intro c member
  rw [isSpecifierChar, blank c member, Bool.or_true]

/-- A specifier is a name, or a name with another after `as`. -/
inductive Specifier : Text → Prop
  | single {name : Text} (isName : ImportName name) : Specifier name
  | renamed {name gap after other : Text} (isName : ImportName name) (blank : Gap gap) (filled : gap ≠ [])
      (blankAfter : Gap after) (filledAfter : after ≠ []) (isOther : ImportName other) :
      Specifier (name ++ (gap ++ ("as".toList ++ (after ++ other))))

theorem specifier_of_isSpecifier {text : Text} (accepted : isSpecifier text = true) :
    Specifier text := by
  rw [isSpecifier] at accepted
  cases named : importName? text with
  | none => simp [named] at accepted
  | some pair =>
      obtain ⟨name, rest⟩ := pair
      obtain ⟨rfl, isName, -⟩ := importName?_iff.1 named
      obtain ⟨gap, split, blank, clear⟩ := exists_gap rest
      simp only [named, Bool.or_eq_true] at accepted
      rcases accepted with empty | renamed
      · rw [List.isEmpty_iff.1 empty, List.append_nil]
        exact .single isName
      · cases word : after? "as".toList (trimStart rest) with
        | none => simp only [word] at renamed; cases renamed
        | some tail =>
            simp only [word, Bool.and_eq_true] at renamed
            obtain ⟨⟨spaced, spacedAfter⟩, isOther⟩ := renamed
            obtain ⟨after, splitAfter, blankAfter, clearAfter⟩ := exists_gap tail
            have whole := Specifier.renamed isName blank (gap_ne_nil clear (split ▸ spaced)) blankAfter
              (gap_ne_nil clearAfter (splitAfter ▸ spacedAfter)) (isImportName_iff.1 isOther)
            rwa [← splitAfter, ← after?_eq_some_iff.1 word, ← split] at whole

theorem Specifier.chars {text : Text} (isSpec : Specifier text) :
    ∀ c ∈ text, isSpecifierChar c = true := by
  cases isSpec with
  | single isName => exact isSpecifierChar_of_name isName
  | renamed isName blank filled blankAfter filledAfter isOther =>
      have word : ∀ c ∈ "as".toList, isSpecifierChar c = true := forall_mem_of_all (by decide)
      have other := List.forall_mem_append.2
        ⟨isSpecifierChar_of_gap blankAfter, isSpecifierChar_of_name isOther⟩
      have later := List.forall_mem_append.2
        ⟨isSpecifierChar_of_gap blank, List.forall_mem_append.2 ⟨word, other⟩⟩
      exact List.forall_mem_append.2 ⟨isSpecifierChar_of_name isName, later⟩

/-- Between braces that hold specifiers stand their characters and commas. -/
theorem isSpecifierChar_of_specifiers {inner : Text}
    (all : ∀ name ∈ specifiers inner, isSpecifier name = true) :
    ∀ c ∈ inner, c = ',' ∨ isSpecifierChar c = true := by
  intro c member
  rcases mem_pieces ',' member with isComma | ⟨piece, isPiece, inside⟩
  · exact .inl isComma
  refine .inr ?_
  cases blank : isBlank c with
  | true => rw [isSpecifierChar, blank, Bool.or_true]
  | false =>
      have inTrim : c ∈ trim piece := by
        obtain ⟨left, right, split, blankLeft, blankRight⟩ := exists_trim_append piece
        rw [split] at inside
        rcases List.mem_append.1 inside with inLeft | later
        · rw [blankLeft c inLeft] at blank
          cases blank
        · rcases List.mem_append.1 later with here | inRight
          · exact here
          · rw [blankRight c inRight] at blank
            cases blank
      have inName : c ∈ collapseBlanks (trim piece) := mem_squeeze inTrim blank false
      have isName : collapseBlanks (trim piece) ∈ specifiers inner := by
        refine List.mem_filter.2 ⟨List.mem_map.2 ⟨piece, isPiece, rfl⟩, ?_⟩
        simpa using List.ne_nil_of_mem inName
      exact (specifier_of_isSpecifier (all _ isName)).chars c inName

/-- The characters of clauses. -/
def isClauseChar (c : Char) : Bool :=
  isSpecifierChar c || [',', '*', '{', '}'].contains c

theorem isClauseChar_of_isSpecifierChar {c : Char} (inside : isSpecifierChar c = true) :
    isClauseChar c = true := by
  rw [isClauseChar, inside, Bool.true_or]

theorem Clause.chars {clause : Text} {comma : Bool} {first : Option Text} {names : Option (List Text)}
    {namespaceName : Option Text} (isClause : Clause clause comma first names namespaceName) :
    ∀ c ∈ clause, isClauseChar c = true := by
  have ofName : ∀ {name : Text}, ImportName name → ∀ c ∈ name, isClauseChar c = true :=
    fun isName c member => isClauseChar_of_isSpecifierChar (isSpecifierChar_of_name isName c member)
  have ofGap : ∀ {gap : Text}, Gap gap → ∀ c ∈ gap, isClauseChar c = true :=
    fun blank c member => isClauseChar_of_isSpecifierChar (isSpecifierChar_of_gap blank c member)
  have ofLead : ∀ {lead : Text} {first : Option Text} {comma : Bool}, Lead lead first comma →
      ∀ c ∈ lead, isClauseChar c = true := by
    intro lead first comma leads
    cases leads with
    | nothing => exact fun c member => by cases member
    | comma blank => exact List.forall_mem_cons.2 ⟨by decide, ofGap blank⟩
    | name isName blank => exact List.forall_mem_append.2 ⟨ofName isName, ofGap blank⟩
    | both isName blank blankAfter =>
        exact List.forall_mem_append.2 ⟨ofName isName, List.forall_mem_append.2
          ⟨ofGap blank, List.forall_mem_cons.2 ⟨by decide, ofGap blankAfter⟩⟩⟩
  cases isClause with
  | default leads => exact ofLead leads
  | named leads plain all =>
      have inside : ∀ c ∈ _, isClauseChar c = true := fun c member =>
        (isSpecifierChar_of_specifiers all c member).elim (fun isComma => isComma ▸ by decide)
          isClauseChar_of_isSpecifierChar
      have closing : ∀ c ∈ ['}'], isClauseChar c = true := forall_mem_of_all (by decide)
      exact List.forall_mem_append.2 ⟨ofLead leads, List.forall_mem_cons.2
        ⟨by decide, List.forall_mem_append.2 ⟨inside, closing⟩⟩⟩
  | whole leads paired isStar =>
      cases isStar with
      | named blank blankAfter filled isName =>
          have word : ∀ c ∈ "as".toList, isClauseChar c = true := forall_mem_of_all (by decide)
          exact List.forall_mem_append.2 ⟨ofLead leads, List.forall_mem_cons.2
            ⟨by decide, List.forall_mem_append.2 ⟨ofGap blank, List.forall_mem_append.2
              ⟨word, List.forall_mem_append.2 ⟨ofGap blankAfter, ofName isName⟩⟩⟩⟩⟩

/-- A test that quotes pass is failed by all characters of clauses. -/
theorem isPathQuote_of_isClauseChar {c : Char} (inside : isClauseChar c = true) :
    isPathQuote c = false := by
  cases isQuote : isPathQuote c with
  | false => rfl
  | true =>
      rcases isPathQuote_iff.1 isQuote with rfl | rfl
      · revert inside
        decide
      · revert inside
        decide

/-- A text of one of the forms is taken apart as the form says. -/
theorem ofText_of_form {raw : Text} {i : Import} (form : Form (trim raw) i) (kept : i.raw = raw) :
    Import.ofText raw = i := by
  generalize spelled : trim raw = text at form
  cases form with
  | bare blank pathEnd =>
      obtain rfl : _ = raw := kept
      rw [Import.ofText, after?_eq_some_iff.2 spelled]
      simp only [trimStart_gap blank pathEnd.clear, closingPath?_iff.2 pathEnd]
      rfl
  | @clause raw' path gap clause before after text comma first names namespaceName blank filled
      isClause trimmed notType blankBefore noWord blankAfter pathEnd =>
      obtain rfl : raw' = raw := kept
      have visible := isClause.clear (p := isBlank) (fun c => isBlank_of_isIdentStart)
        (forall_mem_of_all (by decide))
      have unquoted := isClause.clear (p := isPathQuote) isPathQuote_of_isIdentStart
        (forall_mem_of_all (by decide))
      have plain : ∀ c ∈ clause ++ before, isPathQuote c = false := by
        refine List.forall_mem_append.2 ⟨fun c member => isPathQuote_of_isClauseChar
          (isClause.chars c member), fun c member => isPathQuote_of_isClauseChar ?_⟩
        exact isClauseChar_of_isSpecifierChar (isSpecifierChar_of_gap blankBefore c member)
      have found : splitFrom? false (clause ++ (before ++ ("from".toList ++ (after ++ text)))) =
          some (clause ++ before, path) := by
        rw [← List.append_assoc]
        exact splitFrom?_complete plain (fromPath?_iff.2 ⟨after, text, rfl, blankAfter, pathEnd⟩) noWord
      have ends : trimEnd (clause ++ before) = clause := by
        rw [trimEnd_append_blank _ _ blankBefore, trimmed]
      rw [Import.ofText, after?_eq_some_iff.2 spelled]
      simp only [trimStart_gap blank (visible _), closingPath?_eq_none (unquoted _),
        head?_any_gap blank filled, found, ends, notType, withClause_complete isClause]
      rfl

end UiFormat.Ets

/-
# UiFormat.Proofs.Safety.ComplexSyntax -- complex syntax and the blanks around it

The constructs that the declaration parser does not cover are recognised by words with
blanks between them, however many.  So texts that differ in the length of their runs of
blanks only, and in the blanks at their ends, hold the same constructs
(`hasComplexSyntax_of_contents`).

`Alike` is that relation from the first visible character on.  Every reading of a text
that stops at a visible character takes texts that are alike to texts that are alike, and
the tests of `isComplexHead` are made of such readings.
-/
import UiFormat.Proofs.Text.Cut
import UiFormat.Proofs.Text.Lines
import UiFormat.Safety.ComplexSyntax

namespace UiFormat.Text

set_option autoImplicit false

/-! ## Texts up to runs of blanks -/

/-- The same visible characters, with blanks between them in the same places. -/
inductive Alike : Text → Text → Prop
  | ends {a b : Text} (left : ∀ c ∈ a, isBlank c = true) (right : ∀ c ∈ b, isBlank c = true) :
      Alike a b
  | visible {c : Char} {a b : Text} (shows : isBlank c = false) (later : Alike a b) :
      Alike (c :: a) (c :: b)
  | gap {x y a b : Text} (left : ∀ c ∈ x, isBlank c = true) (right : ∀ c ∈ y, isBlank c = true)
      (some : x ≠ [] ∧ y ≠ []) (later : Alike a b) : Alike (x ++ a) (y ++ b)

namespace Alike

variable {a b : Text}

theorem append_left (text : Text) (later : Alike a b) : Alike (text ++ a) (text ++ b) := by
  induction text with
  | nil => exact later
  | cons c text ih =>
      cases shows : isBlank c with
      | false => exact .visible shows ih
      | true =>
          have single : ∀ d ∈ [c], isBlank d = true := by simpa using shows
          have both : Alike ([c] ++ (text ++ a)) ([c] ++ (text ++ b)) :=
            .gap single single ⟨by simp, by simp⟩ ih
          exact both

theorem trimStart (alike : Alike a b) : Alike (a.trimStart) (b.trimStart) := by
  induction alike with
  | @ends a b left right =>
      have none : ∀ {text : Text}, (∀ c ∈ text, isBlank c = true) → text.trimStart = [] :=
        fun blank => List.dropWhile_eq_nil_iff.2 blank
      rw [none left, none right]
      exact .ends (by simp) (by simp)
  | visible shows later ih =>
      rw [trimStart_of_head? rfl shows, trimStart_of_head? rfl shows]
      exact .visible shows later
  | gap left right some later ih =>
      rw [trimStart_blank_append _ _ left, trimStart_blank_append _ _ right]
      exact ih

/-- What follows a visible character at the front. -/
theorem tail {c d : Char} (alike : Alike (c :: a) (d :: b)) (shows : isBlank c = false) :
    Alike a b := by
  have absurd : ∀ {x rest : Text}, x ++ rest = c :: a → (∀ e ∈ x, isBlank e = true) → x ≠ [] → False := by
    intro x rest same blank some
    obtain ⟨e, x, rfl⟩ := List.exists_cons_of_ne_nil some
    cases same
    exact ne_of_isBlank (blank c List.mem_cons_self) shows rfl
  generalize left : c :: a = u at alike
  generalize right : d :: b = v at alike
  cases alike with
  | ends blank _ =>
      subst left
      exact (ne_of_isBlank (blank c List.mem_cons_self) shows rfl).elim
  | visible _ later =>
      cases left
      cases right
      exact later
  | gap blank _ some _ => exact (absurd left.symm blank some.1).elim

/-- A test that no blank passes finds the same at the front. -/
theorem any_head (alike : Alike a b) {p : Char → Bool} (visible : ∀ c, isBlank c = true → p c = false) :
    a.head?.any p = b.head?.any p := by
  have none : ∀ {x : Text} (rest : Text), (∀ c ∈ x, isBlank c = true) → x ≠ [] →
      (x ++ rest).head?.any p = false := by
    intro x rest blank some
    obtain ⟨c, x, rfl⟩ := List.exists_cons_of_ne_nil some
    exact visible c (blank c List.mem_cons_self)
  have quiet : ∀ {x : Text}, (∀ c ∈ x, isBlank c = true) → x.head?.any p = false := by
    intro x blank
    cases x with
    | nil => rfl
    | cons c x => exact visible c (blank c List.mem_cons_self)
  cases alike with
  | ends left right => rw [quiet left, quiet right]
  | visible shows later => rfl
  | gap left right some later => rw [none _ left some.1, none _ right some.2]

theorem after? (alike : Alike a b) {word : Text} (visible : ∀ c ∈ word, isBlank c = false) :
    Option.Rel Alike (Text.after? word a) (Text.after? word b) := by
  induction word generalizing a b with
  | nil => exact .some alike
  | cons o word ih =>
      rw [List.forall_mem_cons] at visible
      have none : ∀ {x : Text} (rest : Text), (∀ c ∈ x, isBlank c = true) → x ≠ [] ∨ rest = [] →
          Text.after? (o :: word) (x ++ rest) = Option.none := by
        intro x rest blank some
        cases x with
        | nil =>
            rw [some.resolve_left (by simp)]
            rfl
        | cons c x =>
            have other : o ≠ c := (ne_of_isBlank (blank c List.mem_cons_self) visible.1).symm
            rw [List.cons_append, Text.after?, if_neg other]
      cases alike with
      | ends left right =>
          have first := none [] left (.inr rfl)
          have second := none [] right (.inr rfl)
          rw [List.append_nil] at first second
          rw [first, second]
          exact .none
      | @visible c a b shows later =>
          rw [Text.after?, Text.after?]
          split
          · exact ih later visible.2
          · exact .none
      | gap left right some later =>
          rw [none _ left (.inl some.1), none _ right (.inl some.2)]
          exact .none

/-- Dropping what no blank belongs to. -/
theorem dropWhile_word (alike : Alike a b) {p : Char → Bool}
    (visible : ∀ c, isBlank c = true → p c = false) : Alike (a.dropWhile p) (b.dropWhile p) := by
  induction alike with
  | ends left right =>
      exact .ends (fun c member => left c ((List.dropWhile_sublist p).mem member))
        fun c member => right c ((List.dropWhile_sublist p).mem member)
  | visible shows later ih =>
      rw [List.dropWhile_cons, List.dropWhile_cons]
      split
      · exact ih
      · exact .visible shows later
  | @gap x y a b left right some later ih =>
      have stays : ∀ {x : Text} (rest : Text), (∀ c ∈ x, isBlank c = true) → x ≠ [] →
          (x ++ rest).dropWhile p = x ++ rest := by
        intro x rest blank some
        obtain ⟨c, x, rfl⟩ := List.exists_cons_of_ne_nil some
        rw [List.cons_append, List.dropWhile_cons_of_neg]
        simp [visible c (blank c List.mem_cons_self)]
      rw [stays a left some.1, stays b right some.2]
      exact .gap left right some later

/-- Dropping everything up to a visible character. -/
theorem dropWhile_ne (alike : Alike a b) {mark : Char} (visible : isBlank mark = false) :
    Alike (a.dropWhile (· != mark)) (b.dropWhile (· != mark)) := by
  have gone : ∀ {x : Text}, (∀ c ∈ x, isBlank c = true) → ∀ c ∈ x, (c != mark) = true :=
    fun blank c member => bne_iff_ne.2 (ne_of_isBlank (blank c member) visible)
  induction alike with
  | ends left right =>
      rw [List.dropWhile_eq_nil_iff.2 (gone left), List.dropWhile_eq_nil_iff.2 (gone right)]
      exact .ends (by simp) (by simp)
  | visible shows later ih =>
      rw [List.dropWhile_cons, List.dropWhile_cons]
      split
      · exact ih
      · exact .visible shows later
  | gap left right some later ih =>
      rw [List.dropWhile_append_of_pos (gone left), List.dropWhile_append_of_pos (gone right)]
      exact ih

/-- Keeping everything up to a visible character. -/
theorem takeWhile_ne (alike : Alike a b) {mark : Char} (visible : isBlank mark = false) :
    Alike (a.takeWhile (· != mark)) (b.takeWhile (· != mark)) := by
  have kept : ∀ {x : Text}, (∀ c ∈ x, isBlank c = true) → ∀ c ∈ x, (c != mark) = true :=
    fun blank c member => bne_iff_ne.2 (ne_of_isBlank (blank c member) visible)
  induction alike with
  | ends left right =>
      exact .ends (fun c member => left c ((List.takeWhile_sublist _).mem member))
        fun c member => right c ((List.takeWhile_sublist _).mem member)
  | visible shows later ih =>
      rw [List.takeWhile_cons, List.takeWhile_cons]
      split
      · exact .visible shows ih
      · exact .ends (by simp) (by simp)
  | gap left right some later ih =>
      rw [List.takeWhile_append_of_pos (kept left), List.takeWhile_append_of_pos (kept right)]
      exact .gap left right some ih

end Alike

/-! ## Lines -/

/-- A text is one line, or a line, a break and what follows. -/
theorem lines_cases (text : Text) :
    lines text = [text] ∨ ∃ line gap rest, text = line ++ (gap ++ rest) ∧ rest.length < text.length ∧
      (∀ c ∈ gap, isBlank c = true) ∧ gap ≠ [] ∧ lines text = line :: lines rest := by
  have plain : BreakFree (text.takeWhile fun c => !isBreak c) := by
    intro c member
    simpa using List.mem_takeWhile_imp member
  have split : (text.takeWhile fun c => !isBreak c) ++ (text.dropWhile fun c => !isBreak c) = text :=
    List.takeWhile_append_dropWhile
  cases later : text.dropWhile fun c => !isBreak c with
  | nil =>
      rw [later, List.append_nil] at split
      rw [split] at plain
      exact .inl (lines_of_breakFree plain)
  | cons c tail =>
      rw [later] at split
      have isBreakChar : isBreak c = true := by
        have stops := List.head?_dropWhile_not (fun c => !isBreak c) text
        rw [later] at stops
        simpa using stops
      have broken : ∃ gap rest, c :: tail = gap ++ rest ∧ (∀ d ∈ gap, isBlank d = true) ∧ gap ≠ [] ∧
          lines (c :: tail) = [] :: lines rest := by
        have kinds : c = '\r' ∨ c = '\n' := by simpa [isBreak] using isBreakChar
        rcases kinds with rfl | rfl
        · by_cases pair : tail.head? = some '\n'
          · cases tail with
            | nil => cases pair
            | cons d tail =>
                cases pair
                exact ⟨['\r', '\n'], tail, rfl, forall_mem_of_all (by decide), by simp, rfl⟩
          · refine ⟨['\r'], tail, rfl, forall_mem_of_all (by decide), by simp, ?_⟩
            exact lines_terminator_append tail (.inr (.inr rfl)) fun _ => pair
        · exact ⟨['\n'], tail, rfl, forall_mem_of_all (by decide), by simp, rfl⟩
      obtain ⟨gap, rest, apart, blank, some, follow⟩ := broken
      refine .inr ⟨_, gap, rest, by rw [← apart, split], ?_, blank, some, ?_⟩
      · have short : gap.length + rest.length = tail.length + 1 := by
          rw [← List.length_append, ← apart, List.length_cons]
        have long := congrArg List.length split
        have positive := List.length_pos_iff.2 some
        rw [List.length_append, List.length_cons] at long
        omega
      · conv_lhs => rw [← split]
        rw [lines_append_of_breakFree _ _ plain]
        simp [follow]

theorem alike_trimEnd (text : Text) : Alike text (trimEnd text) := by
  obtain ⟨tail, split, blank⟩ := exists_dropEndWhile_append isBlank text
  have same : Alike (trimEnd text ++ tail) (trimEnd text ++ []) :=
    .append_left _ (.ends blank (by simp))
  rwa [List.append_nil, trimEnd, ← split] at same

theorem shown_singleton (line : Text) : shown [line] = if trim line = [] then [] else [trim line] := by
  by_cases empty : trim line = []
  · simp [shown, empty]
  · simp [shown, empty]

/-- A text is like its contents with single spaces between them. -/
theorem alike_contents (text : Text) : Alike (trimStart text) (join [' '] (contents text)) := by
  induction size : text.length using Nat.strong_induction_on generalizing text with
  | h size ih =>
      subst size
      rcases lines_cases text with single | ⟨line, gap, rest, split, shorter, blank, some, more⟩
      · have whole : join [' '] (contents text) = trim text := by
          rw [contents, single, shown_singleton]
          split
          · rename_i empty
            rw [empty]
            rfl
          · rfl
        rw [whole]
        exact alike_trimEnd (trimStart text)
      · have follow := ih rest.length shorter rest rfl
        have split' : rest.takeWhile isBlank ++ trimStart rest = rest := List.takeWhile_append_dropWhile
        have apart : contents text = shown [line] ++ contents rest := by
          rw [contents, more, shown_cons, contents]
        rw [apart, shown_singleton]
        by_cases empty : trim line = []
        · have blankLine := (trim_eq_nil_iff line).1 empty
          rw [if_pos empty, List.nil_append, split, trimStart_blank_append _ _ blankLine,
            trimStart_blank_append _ _ blank]
          exact follow
        · have filled : trimStart line ≠ [] := by
            intro none
            rw [trim, none] at empty
            exact empty rfl
          obtain ⟨tail, visible, blankTail⟩ := exists_dropEndWhile_append isBlank (trimStart line)
          -- Behind the visible part of the line stand blanks, then what follows.
          have front : trimStart text =
              trim line ++ ((tail ++ gap ++ rest.takeWhile isBlank) ++ trimStart rest) := by
            have kept : trimStart (line ++ (gap ++ rest)) = trimStart line ++ (gap ++ rest) := by
              rw [trimStart, List.dropWhile_append, if_neg]
              · rfl
              · rw [List.isEmpty_iff]
                exact filled
            rw [split, kept, trim, trimEnd, List.append_assoc, List.append_assoc, split',
              ← List.append_assoc (dropEndWhile _ _), ← visible]
          have between : ∀ c ∈ tail ++ gap ++ rest.takeWhile isBlank, isBlank c = true := by
            simp only [List.forall_mem_append]
            exact ⟨⟨blankTail, blank⟩, fun c => List.mem_takeWhile_imp⟩
          rw [front, if_neg empty, List.singleton_append]
          cases later : contents rest with
          | nil =>
              rw [later] at follow
              have nothing : ∀ c ∈ trimStart rest, isBlank c = true := by
                generalize trimStart rest = u at follow
                generalize ends : join [' '] [] = v at follow
                cases follow with
                | ends left right => exact left
                | visible shows later => cases ends
                | gap left right some later =>
                    have none : _ = [] := (List.append_eq_nil_iff.1 ends.symm).1
                    exact absurd none some.2
              have same : Alike (trim line ++ ((tail ++ gap ++ rest.takeWhile isBlank) ++ trimStart rest))
                  (trim line ++ []) :=
                .append_left _ (.ends (List.forall_mem_append.2 ⟨between, nothing⟩) (by simp))
              rwa [List.append_nil] at same
          | cons next others =>
              rw [later] at follow
              have joined : join [' '] (trim line :: next :: others) =
                  trim line ++ ([' '] ++ join [' '] (next :: others)) := by
                rw [join, List.append_assoc]
              rw [joined]
              have space : ∀ c ∈ [' '], isBlank c = true := forall_mem_of_all (by decide)
              refine .append_left _ (.gap between space ⟨?_, by simp⟩ follow)
              simp [some]

end UiFormat.Text

namespace UiFormat.Safety

open UiFormat.Text

/-! ## Constructs -/

theorem afterBlankWord?_alike {a b : Text} (alike : Alike a b) :
    Option.Rel Alike (afterBlankWord? a) (afterBlankWord? b) := by
  have words := alike.trimStart.any_head (p := isWord) fun c => isWord_of_isBlank
  have rests := alike.trimStart.dropWhile_word (p := isWord) fun c => isWord_of_isBlank
  have starts : ∀ {x : Text} (rest : Text), (∀ c ∈ x, isBlank c = true) → x ≠ [] →
      afterBlankWord? (x ++ rest) = if (x ++ rest).trimStart.head?.any isWord
        then some ((x ++ rest).trimStart.dropWhile isWord) else none := by
    intro x rest blank some
    obtain ⟨c, x, rfl⟩ := List.exists_cons_of_ne_nil some
    simp [afterBlankWord?, blank c List.mem_cons_self]
  have blanks : ∀ {x : Text}, (∀ c ∈ x, isBlank c = true) → afterBlankWord? x = none := by
    intro x blank
    have empty : x.trimStart = [] := List.dropWhile_eq_nil_iff.2 blank
    cases x with
    | nil => rfl
    | cons c x => simp [afterBlankWord?, empty]
  cases alike with
  | ends left right =>
      rw [blanks left, blanks right]
      exact .none
  | visible shows later =>
      simp only [afterBlankWord?, shows, Bool.false_and, Bool.false_eq_true, if_false]
      exact .none
  | gap left right some later =>
      rw [starts _ left some.1, starts _ right some.2, words]
      split
      · exact .some rests
      · exact .none

/-- A word with another behind it. -/
theorem wordPair_alike {a b : Text} (alike : Alike a b) (word : String)
    (visible : ∀ c ∈ word.toList, isBlank c = false) :
    Option.Rel Alike ((after? word.toList a).bind afterBlankWord?)
      ((after? word.toList b).bind afterBlankWord?) := by
  have rests := alike.after? visible
  revert rests
  generalize after? word.toList a = x
  generalize after? word.toList b = y
  intro rests
  cases rests with
  | none => exact .none
  | some rest => exact afterBlankWord?_alike rest

theorem isSome_of_alike {x y : Option Text} (alike : Option.Rel Alike x y) : x.isSome = y.isSome := by
  cases alike <;> rfl

theorem isAccessorHead_alike {a b : Text} (alike : Alike a b) (word : String)
    (visible : ∀ c ∈ word.toList, isBlank c = false) :
    isAccessorHead word a = isAccessorHead word b := by
  have rests := wordPair_alike alike word visible
  have tested : ∀ text : Text, startsWith text ['('] = text.head?.any (· == '(') := by
    intro text
    cases text with
    | nil => rfl
    | cons c text => simp [startsWith, List.isPrefixOf, BEq.comm]
  unfold isAccessorHead
  revert rests
  generalize (after? word.toList a).bind afterBlankWord? = x
  generalize (after? word.toList b).bind afterBlankWord? = y
  intro rests
  cases rests with
  | none => rfl
  | some rest =>
      simp only [tested]
      refine rest.trimStart.any_head fun c blank => ?_
      simpa using ne_of_isBlank blank (by decide : isBlank '(' = false)

theorem startsWithWord_alike {a b : Text} (alike : Alike a b) {word : Text}
    (visible : ∀ c ∈ word, isBlank c = false) : startsWithWord word a = startsWithWord word b := by
  have rests := alike.after? visible
  have tested : ∀ text : Text, atBoundary text = !text.head?.any isWord := by
    intro text
    cases text <;> rfl
  unfold startsWithWord
  revert rests
  generalize after? word a = x
  generalize after? word b = y
  intro rests
  cases rests with
  | none => rfl
  | some rest =>
      simp only [tested]
      rw [rest.any_head fun c => isWord_of_isBlank]

section

variable {test search : Bool → Text → Bool} (nil : ∀ inWord, search inWord [] = false)
  (cons : ∀ inWord c text,
    search inWord (c :: text) = (test inWord (c :: text) || search (isWord c) text))
  (quiet : ∀ inWord c text, isBlank c = true → test inWord (c :: text) = false)

include cons quiet

/-- A search from place to place that finds nothing at blanks. -/
theorem search_blank_append {blanks : Text} (blank : ∀ c ∈ blanks, isBlank c = true) (rest : Text)
    (inWord : Bool) (some : blanks ≠ []) : search inWord (blanks ++ rest) = search false rest := by
  induction blanks generalizing inWord with
  | nil => exact absurd rfl some
  | cons c blanks ih =>
      rw [List.forall_mem_cons] at blank
      rw [List.cons_append, cons, quiet _ _ _ blank.1, Bool.false_or, isWord_of_isBlank blank.1]
      cases blanks with
      | nil => rfl
      | cons d blanks => exact ih blank.2 false (by simp)

include nil

/-- Such a search finds the same in texts that are alike. -/
theorem search_alike (same : ∀ inWord a b, Alike a b → test inWord a = test inWord b) {a b : Text}
    (alike : Alike a b) (inWord : Bool) : search inWord a = search inWord b := by
  have passed : ∀ {x : Text} (rest : Text) (inWord : Bool), (∀ c ∈ x, isBlank c = true) → x ≠ [] →
      search inWord (x ++ rest) = search false rest :=
    fun rest inWord blank => search_blank_append cons quiet blank rest inWord
  have nothing : ∀ {x : Text} (inWord : Bool), (∀ c ∈ x, isBlank c = true) → search inWord x = false := by
    intro x inWord blank
    cases x with
    | nil => exact nil inWord
    | cons c x =>
        have all := passed [] inWord blank (by simp)
        rwa [List.append_nil, nil] at all
  induction alike generalizing inWord with
  | ends left right => rw [nothing inWord left, nothing inWord right]
  | visible shows later ih => rw [cons, cons, same inWord _ _ (.visible shows later), ih]
  | gap left right some later ih => rw [passed _ inWord left some.1, passed _ inWord right some.2, ih]

/-- What such a search finds is read off what the lines say. -/
theorem search_of_contents (same : ∀ inWord a b, Alike a b → test inWord a = test inWord b)
    {a b : Text} (lines : contents a = contents b) : search false a = search false b := by
  have read : ∀ text : Text, search false text = search false (join [' '] (contents text)) := by
    intro text
    have trimmed : search false text = search false (trimStart text) := by
      have split : text.takeWhile isBlank ++ trimStart text = text := List.takeWhile_append_dropWhile
      by_cases none : text.takeWhile isBlank = []
      · rw [none, List.nil_append] at split
        rw [split]
      · have passed := search_blank_append cons quiet (fun c => List.mem_takeWhile_imp)
          (trimStart text) false none
        rwa [split] at passed
    rw [trimmed]
    exact search_alike nil cons quiet same (alike_contents text) false
  rw [read a, read b, lines]

end

theorem after?_of_blank {word : Text} (visible : ∀ c ∈ word, isBlank c = false) (some : word ≠ [])
    {c : Char} (blank : isBlank c = true) (text : Text) : after? word (c :: text) = none := by
  obtain ⟨o, word, rfl⟩ := List.exists_cons_of_ne_nil some
  rw [after?, if_neg (ne_of_isBlank blank (visible o List.mem_cons_self)).symm]

theorem hasDeclarationWord_alike {a b : Text} (alike : Alike a b) (inWord : Bool) :
    hasDeclarationWord inWord a = hasDeclarationWord inWord b := by
  have words : ∀ word ∈ ["enum", "interface", "class", "function"],
      word.toList ≠ [] ∧ (word.toList.all fun c => decide (isBlank c = false)) = true := by decide
  refine @search_alike (fun inWord text => !inWord &&
      ["enum", "interface", "class", "function"].any fun word => startsWithWord word.toList text)
    hasDeclarationWord (fun _ => rfl) (fun _ _ _ => rfl) ?_ ?_ a b alike inWord
  · intro inWord c text blank
    rw [Bool.and_eq_false_iff]
    refine .inr (List.any_eq_false.2 fun word member => ?_)
    rw [startsWithWord, after?_of_blank (forall_mem_of_all (words word member).2) (words word member).1 blank]
    simp
  · intro inWord a b alike
    refine congrArg (!inWord && ·) ?_
    simp only [List.any_cons, List.any_nil]
    rw [startsWithWord_alike alike (forall_mem_of_all (by decide)),
      startsWithWord_alike alike (forall_mem_of_all (by decide)),
      startsWithWord_alike alike (forall_mem_of_all (by decide)),
      startsWithWord_alike alike (forall_mem_of_all (by decide))]

theorem isNestingStruct_alike {a b : Text} (alike : Alike a b) :
    isNestingStruct a = isNestingStruct b := by
  have rests := wordPair_alike alike "struct" (forall_mem_of_all (by decide))
  unfold isNestingStruct
  revert rests
  generalize (after? "struct".toList a).bind afterBlankWord? = x
  generalize (after? "struct".toList b).bind afterBlankWord? = y
  intro rests
  cases rests with
  | none => rfl
  | @some a b rest =>
      have blocks := rest.dropWhile_ne (by decide : isBlank '{' = false)
      have opens := blocks.any_head (p := (· == '{')) fun c blank => by
        simpa using ne_of_isBlank blank (by decide : isBlank '{' = false)
      have front : ∀ {text : Text} {c : Char} {body : Text}, text.dropWhile (· != '{') = c :: body → c = '{' := by
        intro text c body split
        have stops := List.head?_dropWhile_not (· != '{') text
        rw [split] at stops
        simpa using stops
      dsimp only
      cases left : a.dropWhile (· != '{') with
      | nil =>
          cases right : b.dropWhile (· != '{') with
          | nil => rfl
          | cons d other =>
              rw [left, right, front right] at opens
              simp at opens
      | cons c body =>
          cases right : b.dropWhile (· != '{') with
          | nil =>
              rw [left, right, front left] at opens
              simp at opens
          | cons d other =>
              rw [left, right, front left, front right] at blocks
              have inside := blocks.tail (by decide : isBlank '{' = false)
              exact hasDeclarationWord_alike (inside.takeWhile_ne (by decide : isBlank '}' = false)) false

/-! ## Each construct -/

/-- The constructs that the declaration parser does not cover. -/
inductive Construct where
  | namespaceName
  | getter
  | setter
  | nestingStruct
  deriving DecidableEq, Repr

namespace Construct

/-- All of them. -/
def all : List Construct :=
  [namespaceName, getter, setter, nestingStruct]

/-- The construct starts here; `inWord` tells that a word character precedes the text. -/
def startsAt (k : Construct) (inWord : Bool) (text : Text) : Bool :=
  match k with
  | namespaceName => !inWord && isNamespaceHead text
  | getter => !inWord && isAccessorHead "get" text
  | setter => !inWord && isAccessorHead "set" text
  | nestingStruct => isNestingStruct text

/-- The construct starts somewhere in the text. -/
def occurs (k : Construct) (inWord : Bool) : Text → Bool
  | [] => false
  | c :: text => k.startsAt inWord (c :: text) || k.occurs (isWord c) text

theorem startsAt_alike (k : Construct) {a b : Text} (alike : Alike a b) (inWord : Bool) :
    k.startsAt inWord a = k.startsAt inWord b := by
  cases k with
  | namespaceName =>
      have names : isNamespaceHead a = isNamespaceHead b :=
        isSome_of_alike (wordPair_alike alike "namespace" (forall_mem_of_all (by decide)))
      rw [startsAt, startsAt, names]
  | getter =>
      rw [startsAt, startsAt, isAccessorHead_alike alike "get" (forall_mem_of_all (by decide))]
  | setter =>
      rw [startsAt, startsAt, isAccessorHead_alike alike "set" (forall_mem_of_all (by decide))]
  | nestingStruct => rw [startsAt, startsAt, isNestingStruct_alike alike]

/-- No construct starts with a blank. -/
theorem startsAt_of_blank (k : Construct) {c : Char} (blank : isBlank c = true) (inWord : Bool)
    (text : Text) : k.startsAt inWord (c :: text) = false := by
  have none : ∀ word : String, word.toList ≠ [] →
      (word.toList.all fun c => decide (isBlank c = false)) = true →
        after? word.toList (c :: text) = Option.none := fun word some visible =>
    after?_of_blank (forall_mem_of_all visible) some blank text
  cases k with
  | namespaceName =>
      rw [startsAt, isNamespaceHead, none "namespace" (by decide) (by decide)]
      exact Bool.and_false _
  | getter =>
      rw [startsAt, isAccessorHead, none "get" (by decide) (by decide)]
      exact Bool.and_false _
  | setter =>
      rw [startsAt, isAccessorHead, none "set" (by decide) (by decide)]
      exact Bool.and_false _
  | nestingStruct =>
      rw [startsAt, isNestingStruct, none "struct" (by decide) (by decide)]
      rfl

/-- **Each construct is read off what the lines say.** -/
theorem occurs_of_contents (k : Construct) {a b : Text} (same : contents a = contents b) :
    k.occurs false a = k.occurs false b :=
  search_of_contents (fun _ => rfl) (fun _ _ _ => rfl)
    (fun inWord _ text blank => k.startsAt_of_blank blank inWord text)
    (fun inWord _ _ alike => k.startsAt_alike alike inWord) same

end Construct

theorem hasComplexHead_iff (inWord : Bool) (text : Text) :
    hasComplexHead inWord text = true ↔ ∃ k ∈ Construct.all, k.occurs inWord text = true := by
  induction text generalizing inWord with
  | nil => simp [hasComplexHead, Construct.occurs]
  | cons c text ih =>
      rw [hasComplexHead, Bool.or_eq_true, ih]
      simp only [isComplexHead, Construct.all, Construct.occurs, Construct.startsAt,
        Bool.or_eq_true, Bool.and_eq_true, List.mem_cons, List.not_mem_nil, or_false,
        exists_eq_or_imp, exists_eq_left]
      tauto

/-- **Complex syntax is read off what the lines say.**  Texts with the same contents hold
the same constructs. -/
theorem hasComplexSyntax_of_contents {a b : Text} (same : contents a = contents b) :
    hasComplexSyntax a = hasComplexSyntax b := by
  rw [Bool.eq_iff_iff, hasComplexSyntax, hasComplexSyntax, hasComplexHead_iff, hasComplexHead_iff]
  simp only [Construct.occurs_of_contents _ same]

end UiFormat.Safety

/-
# UiFormat.Proofs.Layout.LineBlanks -- a line is scanned without the blanks around it

What a line shows to the layout does not depend on blanks behind it
(`scan_append_blank`) nor on spaces and tabs in front of it (`scan_indent_append`),
whatever is open where the line starts.  Blanks in front other than spaces and tabs do
matter: they count as code, so that a closing bracket behind them leads no longer.

Blanks behind a line can change how far its last place reaches, when that is an
unterminated string or a lone backslash, but neither what it shows nor what is open
after it (`step_append_blank`).
-/
import UiFormat.Layout.LineScan
import UiFormat.Proofs.Text.Cut
import UiFormat.Proofs.Text.Literal
import UiFormat.Proofs.Text.Trim

namespace UiFormat.Text

set_option autoImplicit false

section

variable {right : Text} (blank : ∀ d ∈ right, isBlank d = true)

include blank

/-- Blanks behind a text make no opening of it. -/
theorem startsWith_append_blank {opening : Text} (visible : ∀ d ∈ opening, isBlank d = false)
    (text : Text) : startsWith (text ++ right) opening = startsWith text opening := by
  induction opening generalizing text with
  | nil => simp [startsWith]
  | cons o opening ih =>
      rw [List.forall_mem_cons] at visible
      cases text with
      | cons c text =>
          have later := ih visible.2 text
          simp only [startsWith, List.cons_append, List.isPrefixOf] at later ⊢
          rw [later]
      | nil =>
          cases right with
          | nil => rfl
          | cons d right =>
              have other : o ≠ d := fun same =>
                ne_of_isBlank (blank d List.mem_cons_self) visible.1 same.symm
              simp [startsWith, List.isPrefixOf, other]

theorem isSome_after?_append_blank {opening : Text} (visible : ∀ d ∈ opening, isBlank d = false)
    (text : Text) : (after? opening (text ++ right)).isSome = (after? opening text).isSome := by
  have tested : ∀ text : Text, (after? opening text).isSome = startsWith text opening := by
    intro text
    rw [Bool.eq_iff_iff, Option.isSome_iff_exists, startsWith, List.isPrefixOf_iff_prefix]
    exact exists_congr fun rest => after?_eq_some_iff.trans eq_comm
  rw [tested, tested, startsWith_append_blank blank visible]

/-- A mark that is not blank is found in front of blanks or not at all. -/
theorem includes_append_blank {m : Char} {mark : Text} (visible : ∀ d ∈ m :: mark, isBlank d = false)
    (text : Text) : includes (text ++ right) (m :: mark) = includes text (m :: mark) := by
  induction text with
  | nil =>
      rw [includes, includes, List.nil_append]
      cases found : cut? (m :: mark) right with
      | none => rfl
      | some parts =>
          have inside : m ∈ right := by
            rw [cut?_eq_some found]
            simp
          exact absurd rfl (ne_of_isBlank (blank m inside) (visible m List.mem_cons_self))
  | cons c text ih =>
      have here := isSome_after?_append_blank blank visible (c :: text)
      simp only [includes, List.cons_append, cut?] at ih here ⊢
      cases front : after? (m :: mark) (c :: text) with
      | none =>
          rw [front, Option.isSome_none, Option.isSome_eq_false_iff, Option.isNone_iff_eq_none] at here
          rw [here]
          simpa using ih
      | some rest =>
          rw [front, Option.isSome_some, Option.isSome_iff_exists] at here
          obtain ⟨longer, here⟩ := here
          rw [here]
          rfl

/-- Blanks close no string. -/
theorem stringExtent_blank {quote : Char} (visible : isBlank quote = false) :
    stringExtent quote right = right.length := by
  induction right with
  | nil => rfl
  | cons d right ih =>
      rw [List.forall_mem_cons] at blank
      rw [stringExtent_cons (ne_of_isBlank blank.1 (by decide)),
        if_neg (ne_of_isBlank blank.1 visible), ih blank.2, List.length_cons]

/-- A string in front of blanks ends where it ended, or takes all of them. -/
theorem stringExtent_append_blank {quote : Char} (visible : isBlank quote = false) (text : Text) :
    stringExtent quote (text ++ right) = stringExtent quote text ∨
      (stringExtent quote text = text.length ∧
        stringExtent quote (text ++ right) = (text ++ right).length) := by
  fun_induction stringExtent quote text with
  | case1 => exact .inr ⟨rfl, stringExtent_blank blank visible⟩
  | case2 =>
      refine .inr ⟨rfl, ?_⟩
      cases right with
      | nil => rfl
      | cons d right =>
          have rest := stringExtent_blank (List.forall_mem_cons.1 blank).2 visible
          rw [List.singleton_append, stringExtent_escape, rest]
          rfl
  | case3 c text ih =>
      simp only [List.cons_append, stringExtent_escape, List.length_cons]
      omega
  | case4 text notBackslash =>
      rw [List.cons_append, stringExtent_cons (by simpa using notBackslash), if_pos rfl]
      exact .inl rfl
  | case5 c text notBackslash notQuote ih =>
      rw [List.cons_append, stringExtent_cons (by simpa using notBackslash), if_neg notQuote]
      simp only [List.length_cons]
      omega

end

end UiFormat.Text

namespace UiFormat.Layout

open UiFormat.Text

/-! ## One place -/

/-- Spaces and tabs show nothing wherever they stand. -/
theorem step_indent {c : Char} (isIndent : c = ' ' ∨ c = '\t') (s : ScanState) (rest : Text) :
    step s c rest = some (.skip s 0) := by
  have notMark : after? "*/".toList (c :: rest) = none := by
    rcases isIndent with rfl | rfl <;> rfl
  unfold step
  split
  · rw [commentStep, notMark]
    rfl
  · split
    · rcases isIndent with rfl | rfl <;> rfl
    · rcases isIndent with rfl | rfl <;> rfl

/-- A blank changes nothing; at most it counts as code. -/
theorem step_blank {c : Char} (blank : isBlank c = true) (s : ScanState) (rest : Text) :
    step s c rest = some (.skip s 0) ∨ step s c rest = some (.shows s .code 0) := by
  have other : ∀ d : Char, isBlank d = false → c ≠ d := fun d => ne_of_isBlank blank
  have notMark : after? "*/".toList (c :: rest) = none := by
    have first : '*' ≠ c := (other '*' (by decide)).symm
    simp [after?, first]
  have plain : codeStep s c = .skip s 0 ∨ codeStep s c = .shows s .code 0 := by
    have opens : c ≠ '{' := other '{' (by decide)
    have closes : c ≠ '}' := other '}' (by decide)
    have noBracket : (isOpener c || isCloser c) = false := by
      simp [isOpener, isCloser, opens, closes, other '[' (by decide), other '(' (by decide),
        other ']' (by decide), other ')' (by decide)]
    unfold codeStep
    split
    · rw [if_neg opens, if_neg closes]
      exact .inl rfl
    · rw [noBracket]
      exact .inr rfl
  unfold step
  split
  · rw [commentStep, notMark]
    exact .inl rfl
  · split
    · rw [literalStep, if_neg (other '\\' (by decide)), if_neg (other '\x60' (by decide)), if_neg]
      · exact .inl rfl
      · simp [other '$' (by decide)]
    · simp only [other '/' (by decide), other '\x22' (by decide), other '\x27' (by decide),
        other '\x60' (by decide), decide_false, Bool.false_and, Bool.or_self, Bool.false_eq_true,
        if_false]
      split
      · exact .inl rfl
      · exact plain.imp (congrArg some) (congrArg some)

/-- Blanks behind a line do not change what a place of it does; only an unterminated
string takes them with it. -/
theorem step_append_blank {right : Text} (blank : ∀ d ∈ right, isBlank d = true) (s : ScanState)
    (c : Char) (rest : Text) :
    step s c (rest ++ right) = step s c rest ∨
      (step s c rest = some (.shows s .code rest.length) ∧
        step s c (rest ++ right) = some (.shows s .code (rest ++ right).length)) := by
  have starts : ∀ opening : Text, (opening.all fun d => !isBlank d) = true →
      startsWith (rest ++ right) opening = startsWith rest opening := by
    intro opening visible
    exact startsWith_append_blank blank (by simpa using visible) rest
  have mark : (after? "*/".toList (c :: (rest ++ right))).isSome =
      (after? "*/".toList (c :: rest)).isSome :=
    isSome_after?_append_blank blank (forall_mem_of_all (by decide)) (c :: rest)
  have comments : startsWith rest ['*'] = true → openComment s (rest ++ right) = openComment s rest := by
    intro opens
    obtain ⟨body, rfl⟩ := List.isPrefixOf_iff_prefix.1 opens
    have closes : includes ((['*'] ++ body ++ right).drop 1) "*/".toList =
        includes ((['*'] ++ body).drop 1) "*/".toList :=
      includes_append_blank blank (forall_mem_of_all (by decide)) body
    rw [openComment, openComment, starts "**".toList (by decide), starts "**/".toList (by decide),
      closes]
  unfold step
  rw [commentStep, commentStep, mark, starts ['/'] (by decide), starts ['*'] (by decide)]
  split
  · exact .inl rfl
  · split
    · rw [literalStep, literalStep, starts ['{'] (by decide)]
      exact .inl rfl
    · split
      · exact .inl rfl
      · split
        · exact .inl rfl
        · split
          · rename_i opens
            rw [comments (Bool.and_eq_true_iff.1 opens).2]
            exact .inl rfl
          · split
            · rename_i quotes
              have visible : isBlank c = false := by
                have quotes : c = '\x22' ∨ c = '\x27' := by simpa using quotes
                rcases quotes with rfl | rfl <;> decide
              rcases stringExtent_append_blank blank visible rest with same | ⟨short, long⟩
              · rw [same]
                exact .inl rfl
              · rw [short, long]
                exact .inr ⟨rfl, rfl⟩
            · exact .inl rfl

/-! ## A whole line -/

theorem walk_nil (s : ScanState) : walk s [] = { state := s, marks := [], code := [] } := by
  rw [walk]

theorem walk_of_none {s : ScanState} {c : Char} {rest : Text} (ends : step s c rest = none) :
    walk s (c :: rest) = { state := s, marks := [], code := [] } := by
  rw [walk, ends]

theorem walk_of_some {s : ScanState} {c : Char} {rest : Text} {here : Step}
    (goes : step s c rest = some here) :
    walk s (c :: rest) =
      { state := (walk here.state (rest.drop here.extra)).state
        marks := here.mark.toList ++ (walk here.state (rest.drop here.extra)).marks
        code := if here.endsCode then []
          else c :: rest.take here.extra ++ (walk here.state (rest.drop here.extra)).code } := by
  rw [walk, goes]

/-- Spaces and tabs in front of a line are its code and nothing else. -/
theorem walk_indent_append {left : Text} (indents : ∀ c ∈ left, c = ' ' ∨ c = '\t') (s : ScanState)
    (line : Text) :
    walk s (left ++ line) = { walk s line with code := left ++ (walk s line).code } := by
  induction left with
  | nil => rfl
  | cons c left ih =>
      rw [List.forall_mem_cons] at indents
      rw [List.cons_append, walk_of_some (step_indent indents.1 s (left ++ line))]
      simp only [Step.skip, List.drop_zero, List.take_zero, Option.toList_none, List.nil_append,
        Bool.false_eq_true, if_false, ih indents.2, List.cons_append]

/-- A blank line leaves everything open that was. -/
theorem exists_walk_blank {right : Text} (blank : ∀ d ∈ right, isBlank d = true) (s : ScanState) :
    ∃ n, walk s right = { state := s, marks := List.replicate n .code, code := right } := by
  induction right with
  | nil => exact ⟨0, walk_nil s⟩
  | cons d right ih =>
      rw [List.forall_mem_cons] at blank
      obtain ⟨n, later⟩ := ih blank.2
      rcases step_blank blank.1 s right with here | here
      · refine ⟨n, ?_⟩
        rw [walk_of_some here]
        simp [Step.skip, later]
      · refine ⟨n + 1, ?_⟩
        rw [walk_of_some here]
        simp [Step.shows, later, List.replicate_succ]

/-- Blanks behind a line can count as code behind all it shows, and stand behind its
code if they stand there at all. -/
theorem exists_walk_append_blank {right : Text} (blank : ∀ d ∈ right, isBlank d = true)
    (s : ScanState) (line : Text) :
    ∃ n blanks, (∀ d ∈ blanks, isBlank d = true) ∧
      walk s (line ++ right) =
        { state := (walk s line).state
          marks := (walk s line).marks ++ List.replicate n .code
          code := (walk s line).code ++ blanks } := by
  induction s, line using walk.induct with
  | case1 s =>
      obtain ⟨n, blanks⟩ := exists_walk_blank blank s
      exact ⟨n, right, blank, by simp [blanks, walk_nil]⟩
  | case2 s c rest ends =>
      have still : step s c (rest ++ right) = none := by
        rcases step_append_blank blank s c rest with same | ⟨impossible, -⟩
        · rw [same, ends]
        · rw [ends] at impossible
          cases impossible
      exact ⟨0, [], by simp, by simp [walk_of_none ends, walk_of_none still]⟩
  | case3 s c rest here goes ih =>
      rcases step_append_blank blank s c rest with same | ⟨short, long⟩
      · rw [goes] at same
        -- The place ends inside the line, or takes some of the blanks and leaves the others.
        have later : ∃ n mid blanks, (∀ d ∈ mid ++ blanks, isBlank d = true) ∧
            (rest ++ right).take here.extra = rest.take here.extra ++ mid ∧
            (mid = [] ∨ rest.drop here.extra = []) ∧
            walk here.state ((rest ++ right).drop here.extra) =
              { state := (walk here.state (rest.drop here.extra)).state
                marks := (walk here.state (rest.drop here.extra)).marks ++ List.replicate n .code
                code := (walk here.state (rest.drop here.extra)).code ++ blanks } := by
          by_cases within : here.extra ≤ rest.length
          · obtain ⟨n, blanks, allBlank, walked⟩ := ih
            refine ⟨n, [], blanks, allBlank, ?_, .inl rfl, ?_⟩
            · rw [List.take_append_of_le_length within, List.append_nil]
            · rw [List.drop_append_of_le_length within, walked]
          · have beyond : rest.drop here.extra = [] := List.drop_eq_nil_of_le (by omega)
            have suffix : ∀ d ∈ right.drop (here.extra - rest.length), isBlank d = true :=
              fun d member => blank d (List.mem_of_mem_drop member)
            obtain ⟨n, walked⟩ := exists_walk_blank suffix here.state
            refine ⟨n, right.take (here.extra - rest.length),
              right.drop (here.extra - rest.length), ?_, ?_, .inr beyond, ?_⟩
            · rwa [List.take_append_drop]
            · rw [List.take_append]
            · rw [List.drop_append, beyond, List.nil_append, walked, walk_nil]
              rfl
        obtain ⟨n, mid, blanks, allBlank, taken, apart, walked⟩ := later
        rw [List.cons_append, walk_of_some same, walk_of_some goes, walked, taken]
        cases ends : here.endsCode with
        | true => exact ⟨n, [], by simp, by simp⟩
        | false =>
            refine ⟨n, mid ++ blanks, allBlank, ?_⟩
            rcases apart with rfl | beyond
            · simp
            · simp [beyond, walk_nil]
      · rw [goes] at short
        cases short
        refine ⟨0, right, blank, ?_⟩
        rw [List.cons_append, walk_of_some long, walk_of_some goes]
        simp [Step.shows, walk_nil, List.take_of_length_le]

/-! ## What a line shows -/

/-- Code closes no bracket. -/
theorem takeWhile_closes_append (marks : List Mark) (n : Nat) :
    (marks ++ List.replicate n Mark.code).takeWhile Mark.closes = marks.takeWhile Mark.closes := by
  induction marks with
  | nil =>
      cases n with
      | zero => rfl
      | succ n => rw [List.replicate_succ]; rfl
  | cons mark marks ih => rw [List.cons_append, List.takeWhile_cons, List.takeWhile_cons, ih]

/-- Blanks behind a line do not matter to the scan. -/
theorem scan_append_blank {right : Text} (blank : ∀ d ∈ right, isBlank d = true) (s : ScanState)
    (line : Text) : s.scan (line ++ right) = s.scan line := by
  obtain ⟨n, blanks, allBlank, walked⟩ := exists_walk_append_blank blank s line
  have events : (List.replicate n Mark.code).filterMap Mark.bracket? = [] := by
    rw [List.filterMap_eq_nil_iff]
    intro mark member
    rw [List.eq_of_mem_replicate member]
    rfl
  simp only [ScanState.scan, walked, List.filterMap_append, events, List.append_nil,
    takeWhile_closes_append, trim_append_blank _ allBlank]

/-- Spaces and tabs in front of a line do not matter to the scan. -/
theorem scan_indent_append {left : Text} (indents : ∀ c ∈ left, c = ' ' ∨ c = '\t') (s : ScanState)
    (line : Text) : s.scan (left ++ line) = s.scan line := by
  have blank : ∀ c ∈ left, isBlank c = true := by
    intro c member
    rcases indents c member with rfl | rfl <;> decide
  simp only [ScanState.scan, walk_indent_append indents, trim_blank_append _ blank]

theorem scan_trimEnd (s : ScanState) (line : Text) : s.scan (trimEnd line) = s.scan line := by
  obtain ⟨tail, split, blank⟩ := exists_dropEndWhile_append isBlank line
  calc s.scan (trimEnd line) = s.scan (trimEnd line ++ tail) := (scan_append_blank blank s _).symm
    _ = s.scan line := by rw [trimEnd, ← split]

/-- The line begins with spaces and tabs only, if with blanks at all. -/
def PlainLead (line : Text) : Prop :=
  ∀ c ∈ line.takeWhile isBlank, c = ' ' ∨ c = '\t'

theorem scan_trim {line : Text} (plain : PlainLead line) (s : ScanState) :
    s.scan (trim line) = s.scan line := by
  calc s.scan (trim line) = s.scan (trimStart line) := scan_trimEnd s _
    _ = s.scan (line.takeWhile isBlank ++ trimStart line) := (scan_indent_append plain s _).symm
    _ = s.scan line := by rw [trimStart, List.takeWhile_append_dropWhile]

end UiFormat.Layout

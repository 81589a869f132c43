/-
# UiFormat.Proofs.Ets.ComponentText -- a component tree shows its source

A body that was understood as components is printed from them, and its source text is
thrown away.  Nothing is lost by that except plain blanks: the printed lines and the body
have the same characters in the same order (`ink_printComponents`).

A character that belongs to no component, a block without its brace and a nest too deep
make the reading incomplete.  Blanks of other kinds are the delicate case: a name is found
in front of its bracket whatever blanks stand between them, but the bracket is then read
as missing.  After an `else` this even shifts the reader into the following `if`, and what
saves it is that no bracket and no brace can stand where it then looks for one
(`branchWith_strayed`).
-/
import UiFormat.Proofs.Ets.BodyReading

namespace UiFormat.Ets

open UiFormat.Text
open UiFormat.Parse

set_option autoImplicit false

variable {s : BodyState}

/-! ## Printed components -/

/-- The components as text. -/
def shownComponents (components : List Component) : Text :=
  (printComponents components).flatten

theorem shownComponents_eq (components : List Component) :
    shownComponents components = components.flatMap fun c => c.print.flatten := by
  induction components with
  | nil => rfl
  | cons c rest ih =>
      rw [List.flatMap_cons, ← ih, shownComponents, printComponents, List.flatten_append]
      rfl

/-- A block as text. -/
def shownBlock : Option (List Component) → Text
  | none => []
  | some children => '{' :: (shownComponents children ++ ['}'])

/-- What an optional component shows. -/
def shownComponent : Option Component → Text
  | none => []
  | some c => c.print.flatten

/-- What a branch shows behind the brace that closes it. -/
def shownOtherwise : Otherwise → Text
  | .nothing => []
  | .block children => "else".toList ++ shownBlock (some children)
  | .chain branch => "else".toList ++ (branch.print []).flatten

theorem flatten_print_branch (lead : Text) (b : Branch) :
    (b.print lead).flatten = lead ++ (b.print []).flatten := by
  cases b
  simp [Branch.print]

/-- A branch is printed as its condition, its block and what follows that. -/
theorem ink_print_branch (condition : Text) (children : List Component) (otherwise : Otherwise) :
    ink ((Branch.mk (some condition) children otherwise).print []).flatten =
      ink ("if".toList ++ (condition ++ (shownBlock (some children) ++ shownOtherwise otherwise))) := by
  have closes : ink otherwise.print.flatten = '}' :: ink (shownOtherwise otherwise) := by
    cases otherwise with
    | nothing => rfl
    | block children =>
        show _ = '}' :: ink ("else".toList ++ shownBlock (some children))
        simp only [Otherwise.print, shownBlock, shownComponents, List.cons_append,
          List.flatten_cons, List.flatten_append, List.flatten_nil, List.append_nil, ink_append,
          ink_brace]
        rfl
    | chain branch =>
        show _ = '}' :: ink ("else".toList ++ (branch.print []).flatten)
        rw [Otherwise.print, flatten_print_branch, ink_append, ink_append]
        rfl
  simp only [Branch.print, shownBlock, shownComponents, Option.getD_some, List.nil_append,
    List.cons_append, List.flatten_cons, List.flatten_append, List.append_assoc, ink_append, ink_space,
    ink_brace, closes]
  rfl

theorem flatten_appendToLast (tail : Text) (lines : List Text) (some : lines ≠ []) :
    (appendToLast tail lines).flatten = lines.flatten ++ tail := by
  induction lines with
  | nil => exact absurd rfl some
  | cons line rest ih =>
      cases rest with
      | nil => simp [appendToLast]
      | cons next rest =>
          rw [appendToLast, List.flatten_cons, ih (List.cons_ne_nil _ _), ← List.append_assoc,
            ← List.flatten_cons]

/-- A plain component is printed as its call, its chained calls and its block. -/
theorem ink_print_plain (name arguments : Text) (calls : List Call)
    (block : Option (List Component)) (callsAfter : List Call) :
    ink (Component.plain name arguments calls block callsAfter).print.flatten =
      ink (name ++ (arguments ++ (calls.flatMap Call.print ++
        (shownBlock block ++ callsAfter.flatMap Call.print)))) := by
  have called : ∀ calls : List Call, (calls.map Call.print).flatten = calls.flatMap Call.print :=
    fun calls => (List.flatMap_def).symm
  match block with
  | none => simp [Component.print, shownBlock, called]
  | some [] =>
      rw [Component.print, List.flatten_append, flatten_appendToLast _ _ (List.cons_ne_nil _ _)]
      simp [shownBlock, shownComponents, printComponents, called, ink_space]
  | some (child :: children) =>
      simp only [Component.print, List.flatten_append,
        flatten_appendToLast _ _ (List.cons_ne_nil _ _)]
      simp [shownBlock, shownComponents, printComponents, called, ink_space, ink_brace]

/-! ## Blocks -/

/-- The components that `nested` understands show the text they were read from. -/
def Faithful (nested : Text → List Component × Bool) : Prop :=
  ∀ text, (nested text).2 = true → ink (shownComponents (nested text).1) = ink text

theorem balanced_brace_front {s : BodyState} (opens : startsWith s.rest ['{'] = true) :
    ∃ body, (balanced '{' '}' s).1 = '{' :: body := by
  cases left : s.rest with
  | nil =>
      rw [left] at opens
      cases opens
  | cons c rest =>
      obtain rfl : '{' = c := by
        rw [left] at opens
        simpa [startsWith, List.isPrefixOf] using opens
      refine ⟨rest.take (balancedLength '{' '}' 1 rest), ?_⟩
      rw [balanced_run, if_pos opens, left, balancedLength]
      simp

/-- A closed body is its braces and what stands between them. -/
theorem closed_body {body : Text} (closed : endsWith ('{' :: body) ['}'] = true) :
    '{' :: body = '{' :: (withoutEnds ('{' :: body) ++ ['}']) := by
  obtain ⟨front, split⟩ := List.isSuffixOf_iff_suffix.1 closed
  cases front with
  | nil => cases split
  | cons c front =>
      rw [List.cons_append] at split
      obtain ⟨rfl, rfl⟩ := List.cons.inj split
      rw [withoutEnds_cons_concat]

/-- What `nested` finds in a body, closed or not. -/
def childrenOf (nested : Text → List Component × Bool) (body : Text) : List Component × Bool :=
  nested (if endsWith body ['}'] then withoutEnds body else body.drop 1)

theorem childBlock_run (nested : Text → List Component × Bool) (s : BodyState) :
    childBlock nested s =
      if startsWith (skipGap s).2.rest ['{'] = true then
        let read := balanced '{' '}' (skipGap s).2
        let found := childrenOf nested read.1
        if (!(found.2 && endsWith read.1 ['}'])) = true then (some found.1, (giveUp read.2).2)
        else (some found.1, read.2)
      else (none, (resume s.rest (skipGap s).2).2) := by
  show (if startsWith (skipGap s).2.rest ['{'] = true then _ else _ :
    BodyParser (Option (List Component))) (skipGap s).2 = _
  rw [run_ite]
  congr 1
  exact run_ite _ _ _ _

/-- A block shows its braces and its children. -/
theorem spends_childBlock {nested : Text → List Component × Bool} (faithful : Faithful nested)
    (s : BodyState) : Spends s (shownBlock (childBlock nested s).1) (childBlock nested s).2 := by
  have gap := spends_skipGap s
  rw [childBlock_run]
  split
  · rename_i opens
    have read := spends_balanced '{' '}' (skipGap s).2
    obtain ⟨body, isBody⟩ := balanced_brace_front opens
    dsimp only
    rw [isBody] at read ⊢
    split
    · exact (gap.trans read).gaveUp _
    · rename_i understood
      rw [Bool.not_eq_true', Bool.not_eq_false, Bool.and_eq_true] at understood
      obtain ⟨whole, closed⟩ := understood
      rw [childrenOf, if_pos closed] at whole ⊢
      have inner := faithful _ whole
      refine (gap.trans read).congr ?_
      calc ink ([] ++ '{' :: body)
          = ink ('{' :: (withoutEnds ('{' :: body) ++ ['}'])) := by
            rw [← closed_body closed]
            rfl
        _ = ink ('{' :: (shownComponents (nested (withoutEnds ('{' :: body))).1 ++ ['}'])) := by
            rw [ink_brace, ink_brace, ink_append, ink_append, inner]
  · exact gap.back

theorem requiredBlock_run (nested : Text → List Component × Bool) (s : BodyState) :
    requiredBlock nested s = match (childBlock nested s).1 with
      | some children => (children, (childBlock nested s).2)
      | none => ([], (giveUp (childBlock nested s).2).2) := by
  show (match (childBlock nested s).1 with
    | some children => _
    | none => _ : BodyParser (List Component)) (childBlock nested s).2 = _
  cases (childBlock nested s).1 <;> rfl

theorem spends_requiredBlock {nested : Text → List Component × Bool} (faithful : Faithful nested)
    (s : BodyState) :
    Spends s (shownBlock (some (requiredBlock nested s).1)) (requiredBlock nested s).2 := by
  have block := spends_childBlock faithful s
  rw [requiredBlock_run]
  cases found : (childBlock nested s).1 with
  | none => exact block.gaveUp _
  | some children =>
      rw [found] at block
      exact block

/-! ## Branches -/

/-- Behind any blanks the text goes on with `ahead`. -/
def Facing (s : BodyState) (ahead : Text) : Prop :=
  ∃ rest, trimStart s.rest = ahead ++ rest

/-- A gap in front of something that is no comment holds blanks only. -/
theorem trimStart_afterGap {text rest : Text} {c : Char} (noComment : c ≠ '/')
    (ahead : trimStart text = c :: rest) :
    trimStart (text.drop (gapLength text).1) = c :: rest := by
  induction text with
  | nil => cases ahead
  | cons d text ih =>
      rw [gapLength]
      by_cases plain : isPlainBlank d = true
      · rw [if_pos plain]
        have blank := isBlank_of_isPlainBlank plain
        rw [trimStart, List.dropWhile_cons_of_pos blank] at ahead
        exact ih ahead
      · have other : d ≠ '/' := by
          rintro rfl
          rw [trimStart, List.dropWhile_cons_of_neg (by decide)] at ahead
          exact noComment (List.cons.inj ahead).1.symm
        rw [if_neg plain, if_neg (by simp [other]), if_neg (by simp [other])]
        exact ahead

theorem Facing.skipGap {c : Char} {ahead : Text} (facing : Facing s (c :: ahead))
    (noComment : c ≠ '/') : Facing (skipGap s).2 (c :: ahead) := by
  obtain ⟨rest, facing⟩ := facing
  exact ⟨rest, trimStart_afterGap noComment facing⟩

/-- No bracket stands where something else is ahead. -/
theorem Facing.not_startsWith {c bracket : Char} (facing : Facing s [c]) (other : c ≠ bracket)
    (visible : isBlank bracket = false) : startsWith s.rest [bracket] = false := by
  obtain ⟨rest, facing⟩ := facing
  cases left : s.rest with
  | nil => rfl
  | cons d text =>
      by_contra found
      obtain rfl : bracket = d := by simpa [startsWith, List.isPrefixOf] using found
      rw [left, trimStart, List.dropWhile_cons_of_neg (by simp [visible])] at facing
      exact other (List.cons.inj facing).1.symm

/-- Two characters of blanks and `if` that are not `if` leave a part of it. -/
theorem exists_trimStart_drop {text rest : Text} (facing : trimStart text = 'i' :: 'f' :: rest)
    (strayed : text ≠ 'i' :: 'f' :: rest) :
    ∃ c later, (c = 'i' ∨ c = 'f') ∧ trimStart (text.drop 2) = c :: later := by
  have reached : ∀ {x : Char} {tail : Text}, trimStart (x :: tail) = 'i' :: 'f' :: rest →
      trimStart tail = 'i' :: 'f' :: rest ∨ x :: tail = 'i' :: 'f' :: rest := by
    intro x tail facing
    by_cases blank : isBlank x = true
    · rw [trimStart, List.dropWhile_cons_of_pos blank] at facing
      exact .inl facing
    · rw [trimStart, List.dropWhile_cons_of_neg blank] at facing
      exact .inr facing
  cases text with
  | nil => cases facing
  | cons x text =>
      have later := (reached facing).resolve_right strayed
      cases text with
      | nil => cases later
      | cons y tail =>
          rcases reached later with beyond | here
          · exact ⟨'i', _, .inl rfl, beyond⟩
          · obtain ⟨rfl, rfl⟩ := List.cons.inj here
            exact ⟨'f', rest, .inr rfl, rfl⟩

theorem branchTail_run (nested : Text → List Component × Bool) (next : Option (BodyParser Branch))
    (s : BodyState) :
    branchTail nested next s =
      let here := (skipGap s).2
      let behind := (skipGap (resume (here.rest.drop "else".toList.length) here).2).2
      if isElseIf here.rest = true then
        match next with
        | none => (.nothing, (resume [] (giveUp here).2).2)
        | some next => (.chain (next behind).1, (next behind).2)
      else if wordThen "else" '{' here.rest = true then
        (.block (requiredBlock nested behind).1, (requiredBlock nested behind).2)
      else (.nothing, (resume s.rest here).2) := by
  show (if isElseIf (skipGap s).2.rest = true then _ else _ : BodyParser Otherwise)
    (skipGap s).2 = _
  rw [run_ite]
  congr 1
  · cases next <;> rfl
  · exact run_ite _ _ _ _

theorem component?_run (nested : Text → List Component × Bool) (s : BodyState) :
    component? nested s = match loopName? s.rest with
      | some name =>
          let read := balanced '(' ')' (skipGap (resume (s.rest.drop name.length) s).2).2
          (some (.loop name read.1), read.2)
      | none =>
          if wordThen "if" '(' s.rest = true then
            (some (.conditional (branch nested nestingLimit s).1),
              (branch nested nestingLimit s).2)
          else
            match componentName? s.rest with
            | some name =>
                (some (plainComponent nested name s).1, (plainComponent nested name s).2)
            | none => (none, s) := by
  show (match loopName? s.rest with
    | some name => _
    | none => if wordThen "if" '(' s.rest = true then _ else _ :
      BodyParser (Option Component)) s = _
  cases loopName? s.rest with
  | some name => rfl
  | none =>
      dsimp only
      rw [run_ite]
      congr 1
      show (match componentName? s.rest with
        | some name => _
        | none => _ : BodyParser (Option Component)) s = _
      cases componentName? s.rest <;> rfl

section

variable {nested : Text → List Component × Bool} (faithful : Faithful nested)

include faithful

section

variable {next : Option (BodyParser Branch)}
  (shows : ∀ p ∈ next, ∀ s, Facing s "if".toList → Spends s ((p s).1.print []).flatten (p s).2)

include shows

/-- What follows a block is shown, if a further branch shows what it reads. -/
theorem spends_branchTail (s : BodyState) :
    Spends s (shownOtherwise (branchTail nested next s).1) (branchTail nested next s).2 := by
  have gap := spends_skipGap s
  rw [branchTail_run]
  dsimp only
  split
  · rename_i elseIf
    obtain ⟨rest, front, later, ahead⟩ := isElseIf_front elseIf
    cases next with
    | none => exact spends_incomplete List.nil_suffix rfl _
    | some p =>
        have word := spends_length ⟨rest, front⟩
        have facing : Facing (resume ((skipGap s).2.rest.drop "else".toList.length)
            (skipGap s).2).2 "if".toList := by
          refine ⟨later, ?_⟩
          rw [← ahead]
          show trimStart ((skipGap s).2.rest.drop _) = trimStart rest
          rw [front, List.drop_left]
        have branch := shows p rfl _ (facing.skipGap (by decide))
        exact gap.trans (word.trans ((spends_skipGap _).trans branch))
  · split
    · rename_i plainElse
      have word := spends_length (wordThen_front plainElse)
      have block := spends_requiredBlock faithful
        (skipGap (resume ((skipGap s).2.rest.drop "else".toList.length) (skipGap s).2).2).2
      exact gap.trans (word.trans ((spends_skipGap _).trans block))
    · exact gap.back

/-- Behind its `if`, or what was taken for it, a branch shows its condition, its block and
what follows. -/
theorem exists_spends_branchWith (s : BodyState) :
    ∃ condition children otherwise,
      (branchWith nested next s).1 = .mk (some condition) children otherwise ∧
      Spends (resume (s.rest.drop 2) s).2
        (condition ++ (shownBlock (some children) ++ shownOtherwise otherwise))
        (branchWith nested next s).2 :=
  ⟨_, _, _, rfl, (spends_arguments _).trans
    ((spends_requiredBlock faithful _).trans (spends_branchTail faithful shows _))⟩

theorem branchWith_length_lt {s : BodyState} (filled : s.rest ≠ []) :
    (branchWith nested next s).2.rest.length < s.rest.length := by
  obtain ⟨_, _, _, -, body⟩ := exists_spends_branchWith faithful shows s
  exact body.length_lt Nat.two_pos filled

/-- **A strayed reader gives up.**  A reader that took blanks for the `if` of a further
branch finds neither the condition nor the block of that branch. -/
theorem branchWith_strayed {s : BodyState} (facing : Facing s "if".toList)
    (strayed : ¬ ∃ rest, s.rest = "if".toList ++ rest) :
    (branchWith nested next s).2.complete = false := by
  obtain ⟨rest, facing⟩ := facing
  obtain ⟨c, later, isPart, ahead⟩ :=
    exists_trimStart_drop facing fun here => strayed ⟨rest, here⟩
  have apart : c ≠ '/' ∧ c ≠ '(' ∧ c ≠ '{' := by
    rcases isPart with rfl | rfl <;> decide
  obtain ⟨behind, isBehind⟩ : ∃ behind, behind = (skipGap (resume (s.rest.drop 2) s).2).2 :=
    ⟨_, rfl⟩
  have gap : Facing behind [c] := by
    rw [isBehind]
    exact Facing.skipGap ⟨later, ahead⟩ apart.1
  have noCondition : balanced '(' ')' behind = ([], behind) := by
    rw [balanced_run, if_neg (by simp [gap.not_startsWith apart.2.1 (by decide)])]
  have noBlock : (requiredBlock nested behind).2.complete = false := by
    have closed := (gap.skipGap apart.1).not_startsWith apart.2.2 (by decide)
    rw [requiredBlock_run, childBlock_run, if_neg (by simp [closed])]
    rfl
  have run : (branchWith nested next s).2 =
      (branchTail nested next (requiredBlock nested (balanced '(' ')' behind).2).2).2 := by
    rw [isBehind]
    rfl
  by_contra understood
  rw [run, noCondition] at understood
  have kept := (spends_branchTail faithful shows _).complete (by simpa using understood)
  rw [noBlock] at kept
  cases kept

theorem spends_branchWith (s : BodyState) (facing : Facing s "if".toList) :
    Spends s ((branchWith nested next s).1.print []).flatten (branchWith nested next s).2 := by
  obtain ⟨condition, children, otherwise, isBranch, body⟩ :=
    exists_spends_branchWith faithful shows s
  by_cases stands : ∃ rest, s.rest = "if".toList ++ rest
  · rw [isBranch]
    exact ((spends_length stands).trans body).congr (ink_print_branch _ _ _).symm
  · have strayed := branchWith_strayed faithful shows facing stands
    exact spends_incomplete (body.rest_suffix.trans (List.drop_suffix 2 s.rest)) strayed _

end

theorem spends_branch (links : Nat) (s : BodyState) (facing : Facing s "if".toList) :
    Spends s ((branch nested links s).1.print []).flatten (branch nested links s).2 := by
  induction links generalizing s with
  | zero => exact spends_branchWith faithful (by simp) s facing
  | succ links ih =>
      refine spends_branchWith faithful (fun p isNext => ?_) s facing
      cases isNext
      exact ih

theorem branch_length_lt (links : Nat) {s : BodyState} (filled : s.rest ≠ []) :
    (branch nested links s).2.rest.length < s.rest.length := by
  cases links with
  | zero => exact branchWith_length_lt faithful (by simp) filled
  | succ links =>
      refine branchWith_length_lt faithful (fun p isNext => ?_) filled
      cases isNext
      exact spends_branch faithful links

/-! ## Components -/

/-- Behind its name, a component shows its arguments, its calls and its block. -/
theorem exists_spends_plainComponent (name : Text) (s : BodyState) :
    ∃ arguments calls block callsAfter,
      (plainComponent nested name s).1 = .plain name arguments calls block callsAfter ∧
      Spends (resume (s.rest.drop name.length) s).2
        (arguments ++ (calls.flatMap Call.print ++
          (shownBlock block ++ callsAfter.flatMap Call.print)))
        (plainComponent nested name s).2 := by
  obtain ⟨read, isRead⟩ : ∃ read, read =
      balanced '(' ')' (skipGap (resume (s.rest.drop name.length) s).2).2 := ⟨_, rfl⟩
  obtain ⟨calls, isCalls⟩ : ∃ calls, calls = chainedCalls read.2 := ⟨_, rfl⟩
  have arguments : Spends (resume (s.rest.drop name.length) s).2 read.1 read.2 := by
    rw [isRead]
    exact spends_arguments _
  have chained : Spends read.2 (calls.1.flatMap Call.print) calls.2 := by
    rw [isCalls]
    exact spends_chainedCalls read.2
  have block := spends_childBlock faithful calls.2
  have run : plainComponent nested name s = match (childBlock nested calls.2).1 with
      | none => (.plain name read.1 calls.1 none [], (childBlock nested calls.2).2)
      | some children =>
          (.plain name read.1 calls.1 (some children)
              (chainedCalls (childBlock nested calls.2).2).1,
            (chainedCalls (childBlock nested calls.2).2).2) := by
    have half : plainComponent nested name s = (match (childBlock nested calls.2).1 with
        | none => pure (.plain name read.1 calls.1 none [])
        | some children => do
            let callsAfter ← chainedCalls
            return .plain name read.1 calls.1 (some children) callsAfter :
          BodyParser Component) (childBlock nested calls.2).2 := by
      rw [isCalls, isRead]
      rfl
    rw [half]
    cases (childBlock nested calls.2).1 <;> rfl
  rw [run]
  cases found : (childBlock nested calls.2).1 with
  | none =>
      rw [found] at block
      exact ⟨_, _, _, _, rfl, arguments.trans (chained.trans (block.trans (.refl _)))⟩
  | some children =>
      rw [found] at block
      exact ⟨_, _, _, _, rfl, arguments.trans (chained.trans (block.trans (spends_chainedCalls _)))⟩

/-- A component shows its name and what is behind it. -/
theorem spends_plainComponent (name : Text) (s : BodyState) (stands : ∃ rest, s.rest = name ++ rest) :
    Spends s (plainComponent nested name s).1.print.flatten (plainComponent nested name s).2 := by
  obtain ⟨_, _, _, _, isComponent, body⟩ := exists_spends_plainComponent faithful name s
  rw [isComponent]
  exact ((spends_length stands).trans body).congr (ink_print_plain _ _ _ _ _).symm

/-- The component that stands here shows what it spends. -/
theorem spends_component? (s : BodyState) :
    Spends s (shownComponent (component? nested s).1) (component? nested s).2 := by
  rw [component?_run]
  cases loop : loopName? s.rest with
  | some name =>
      have word := spends_length (loopName?_front loop).2
      refine (word.trans (spends_arguments _)).congr ?_
      simp [shownComponent, Component.print]
  | none =>
      dsimp only
      split
      · rename_i condition
        obtain ⟨rest, front⟩ := wordThen_front condition
        have facing : Facing s "if".toList := ⟨rest, by rw [front]; rfl⟩
        exact spends_branch faithful nestingLimit s facing
      · cases named : componentName? s.rest with
        | some name => exact spends_plainComponent faithful name s (componentName?_front named).2
        | none => exact .refl s

/-- A component is never empty. -/
theorem component?_length_lt {s : BodyState} (found : (component? nested s).1.isSome = true)
    (filled : s.rest ≠ []) : (component? nested s).2.rest.length < s.rest.length := by
  rw [component?_run] at found ⊢
  cases loop : loopName? s.rest with
  | some name =>
      have some := List.length_pos_iff.2 (loopName?_front loop).1
      exact (spends_arguments _).length_lt some filled
  | none =>
      rw [loop] at found
      dsimp only at found ⊢
      split
      · exact branch_length_lt faithful nestingLimit filled
      · rename_i noBranch
        rw [if_neg noBranch] at found
        cases named : componentName? s.rest with
        | some name =>
            have some := List.length_pos_iff.2 (componentName?_front named).1
            obtain ⟨_, _, _, _, -, body⟩ := exists_spends_plainComponent faithful name s
            exact body.length_lt some filled
        | none =>
            rw [named] at found
            cases found

end

/-! ## Bodies -/

theorem componentRound_run (nested : Text → List Component × Bool) (s : BodyState) :
    componentRound nested s =
      if (skipGap s).2.rest.isEmpty = true then (.stop, (skipGap s).2)
      else
        let found := component? nested (skipGap s).2
        match found.1 with
        | some c => (.next c, found.2)
        | none => (.skip, (resume (found.2.rest.drop 1) (giveUp found.2).2).2) := by
  show (if (skipGap s).2.rest.isEmpty = true then _ else _ : BodyParser (Round Component))
    (skipGap s).2 = _
  rw [run_ite]
  congr 1
  show (match (component? nested (skipGap s).2).1 with
    | some c => _
    | none => _ : BodyParser (Round Component)) (component? nested (skipGap s).2).2 = _
  dsimp only
  cases (component? nested (skipGap s).2).1 <;> rfl

/-- The loop ends at the end of the body. -/
theorem rest_of_finishes {nested : Text → List Component × Bool} {s t : BodyState}
    {components : List Component} (run : Finishes (componentRound nested) s components t) :
    t.rest = [] := by
  induction run with
  | @stop s here =>
      rw [componentRound_run] at here ⊢
      split at here
      · rename_i empty
        rw [if_pos empty]
        exact List.isEmpty_iff.1 empty
      · dsimp only at here
        split at here <;> cases here
  | @last s c here =>
      rw [componentRound_run] at here
      split at here
      · cases here
      · dsimp only at here
        split at here <;> cases here
  | skip _ _ ih => exact ih
  | next _ _ ih => exact ih

section

variable {nested : Text → List Component × Bool} (faithful : Faithful nested)

include faithful

/-- A round shows its component, or it gives up. -/
theorem spends_componentRound (s : BodyState) :
    Spends s (shownBy (fun c : Component => c.print.flatten) (componentRound nested s).1)
      (componentRound nested s).2 := by
  have gap := spends_skipGap s
  have read := spends_component? faithful (skipGap s).2
  rw [componentRound_run]
  split
  · exact gap
  · dsimp only
    cases found : (component? nested (skipGap s).2).1 with
    | some c =>
        rw [found] at read
        exact gap.trans read
    | none =>
        have behind := (List.drop_suffix 1 _).trans (gap.trans read).rest_suffix
        exact spends_incomplete behind rfl _

/-- A round that goes on takes a component or a character. -/
theorem shrinks_componentRound :
    Shrinks (fun _ => True) (fun s : BodyState => s.rest.length) (componentRound nested) := by
  intro s _ goes
  refine ⟨trivial, ?_⟩
  have gap := (spends_skipGap s).rest_suffix.length_le
  have read := (spends_component? faithful (skipGap s).2).rest_suffix.length_le
  rw [componentRound_run] at goes ⊢
  split
  · rename_i empty
    rw [if_pos empty] at goes
    cases goes
  · rename_i filled
    rw [List.isEmpty_iff] at filled
    dsimp only
    cases found : (component? nested (skipGap s).2).1 with
    | some c =>
        have less := component?_length_lt faithful (by rw [found]; rfl) filled
        exact Nat.lt_of_lt_of_le less gap
    | none =>
        have some := List.length_pos_iff.2 filled
        show ((component? nested (skipGap s).2).2.rest.drop 1).length < s.rest.length
        rw [List.length_drop]
        omega

/-- The components of a body show the body, unless something was passed over. -/
theorem ink_componentList {text : Text}
    (understood : (componentList nested { rest := text, complete := true }).2.complete = true) :
    ink (shownComponents (componentList nested { rest := text, complete := true }).1) = ink text := by
  have run := finishes_collectBy (shrinks_componentRound faithful)
    { rest := text, complete := true } trivial
  have spent := (spends_of_finishes (spends_componentRound faithful) run).ink_eq understood
  rw [rest_of_finishes run, ink_nil, List.append_nil] at spent
  rw [shownComponents_eq]
  exact spent.symm

end

/-- Blocks that are not read are not understood. -/
theorem faithful_unread : Faithful fun _ => ([], false) := by
  intro text understood
  cases understood

/-- However deep blocks may be nested, the components found show the text. -/
theorem faithful_componentsAt (levels : Nat) : Faithful (componentsAt levels) := by
  induction levels with
  | zero =>
      intro text understood
      exact ink_componentList faithful_unread understood
  | succ levels ih =>
      intro text understood
      exact ink_componentList ih understood

/-- **A component tree shows its source.**  A body that was understood is printed with the
characters it had, plain blanks apart. -/
theorem ink_printComponents {text : Text} (understood : (parseComponents text).2 = true) :
    ink (join ['\n'] (printComponents (parseComponents text).1)) = ink text := by
  rw [ink_join (by decide)]
  exact faithful_componentsAt nestingLimit text understood

/-- Nested components with chained calls around a block, a chain of conditions, and a loop
that is not closed. -/
def nestedBody : Text :=
  "Column ( \x7b space: 5 \x7d )\n .width('100%') \x7b Row() \x7b\x7d .onClick(() => \x7b\x7d)\n".toList
    ++ " if (a) \x7b Text(\x60x $\x7by\x7d\x60)\r\n\x7d else  if(b)\x7b\x7d else \x7b Image(r) \x7d".toList
    ++ " \x7d\t.height( 1 )\nForEach (items, (i".toList

theorem ink_nestedBody :
    (parseComponents nestedBody).2 = true ∧
      ink (join ['\n'] (printComponents (parseComponents nestedBody).1)) = ink nestedBody := by
  have understood : (parseComponents nestedBody).2 = true := by
    rw [show nestedBody = _ from congrArg₂ _
      (congrArg₂ _ String.toList_ofList String.toList_ofList) String.toList_ofList]
    decide +kernel
  exact ⟨understood, ink_printComponents understood⟩

end UiFormat.Ets

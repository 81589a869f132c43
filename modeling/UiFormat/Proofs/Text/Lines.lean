/-
# UiFormat.Proofs.Text.Lines -- lines that are joined come apart again

The lines of a text hold no line break.  Conversely, lines without breaks that
are joined with a terminator, and perhaps followed by one more, are the lines of
the result (`lines_join`, `lines_join_terminated`).  The terminator may be a line
feed, a carriage return or both (`IsTerminator`).

`contents` is what a reader sees of a text that is laid out line by line: its
lines without the blanks around them, blank lines left out.
-/
import UiFormat.Text.Line
import UiFormat.Proofs.Text.Trim

namespace UiFormat.Text

set_option autoImplicit false

/-- The three ways to end a line. -/
def IsTerminator (eol : Text) : Prop :=
  eol = ['\n'] ∨ eol = ['\r', '\n'] ∨ eol = ['\r']

/-- The line holds no line break. -/
def BreakFree (line : Text) : Prop :=
  ∀ c ∈ line, isBreak c = false

instance (line : Text) : Decidable (BreakFree line) :=
  decidable_of_iff (line.all (!isBreak ·) = true) (by simp [BreakFree])

/-- The trimmed lines that are not blank, in order. -/
def shown (lines : List Text) : List Text :=
  (lines.map trim).filter fun line => !line.isEmpty

theorem shown_append (front back : List Text) :
    shown (front ++ back) = shown front ++ shown back := by
  simp [shown]

theorem shown_cons (line : Text) (rest : List Text) :
    shown (line :: rest) = shown [line] ++ shown rest :=
  shown_append [line] rest

/-- What the lines of a text say. -/
def contents (text : Text) : List Text :=
  shown (lines text)

theorem consLine_ne_nil (c : Char) (rest : List Text) : consLine c rest ≠ [] := by
  cases rest <;> simp [consLine]

theorem lines_ne_nil (text : Text) : lines text ≠ [] := by
  fun_cases lines text <;> simp [consLine_ne_nil]

theorem lines_cons_of_not_break {c : Char} (text : Text) (plain : isBreak c = false) :
    lines (c :: text) = consLine c (lines text) := by
  have notReturn : c ≠ '\r' := by rintro rfl; simp [isBreak] at plain
  have notFeed : c ≠ '\n' := by rintro rfl; simp [isBreak] at plain
  rw [lines] <;> simp_all

theorem breakFree_of_mem_lines (text : Text) : ∀ line ∈ lines text, BreakFree line := by
  fun_induction lines text with
  | case1 => simp [BreakFree]
  | case2 text ih => simpa [BreakFree] using ih
  | case3 text _ ih => simpa [BreakFree] using ih
  | case4 text ih => simpa [BreakFree] using ih
  | case5 c text notReturn notFeed _ ih =>
      have plain : isBreak c = false := by simp_all [isBreak]
      intro line member
      rcases split : lines text with _ | ⟨first, rest⟩
      · exact absurd split (lines_ne_nil text)
      · rw [split] at member ih
        rcases List.mem_cons.1 member with rfl | inRest
        · intro d inLine
          rcases List.mem_cons.1 inLine with rfl | inFirst
          · exact plain
          · exact ih first (by simp) d inFirst
        · exact ih line (by simp [inRest])

/-- The lines of a text hold no character that the text does not hold. -/
theorem mem_of_mem_lines (text : Text) : ∀ line ∈ lines text, ∀ c ∈ line, c ∈ text := by
  fun_induction lines text with
  | case1 => simp
  | case2 text ih =>
      exact List.forall_mem_cons.2 ⟨by simp, fun line member c inLine =>
        List.mem_cons_of_mem _ (List.mem_cons_of_mem _ (ih line member c inLine))⟩
  | case3 text _ ih =>
      exact List.forall_mem_cons.2 ⟨by simp, fun line member c inLine =>
        List.mem_cons_of_mem _ (ih line member c inLine)⟩
  | case4 text ih =>
      exact List.forall_mem_cons.2 ⟨by simp, fun line member c inLine =>
        List.mem_cons_of_mem _ (ih line member c inLine)⟩
  | case5 d text _ _ _ ih =>
      rcases split : lines text with _ | ⟨first, rest⟩
      · exact absurd split (lines_ne_nil text)
      · rw [split, List.forall_mem_cons] at ih
        refine List.forall_mem_cons.2 ⟨fun c inLine => ?_, fun line member c inLine => ?_⟩
        · rcases List.mem_cons.1 inLine with rfl | inFirst
          · exact List.mem_cons_self
          · exact List.mem_cons_of_mem d (ih.1 c inFirst)
        · exact List.mem_cons_of_mem d (ih.2 line member c inLine)

/-- A line without breaks goes in front of the first line that follows it. -/
theorem lines_append_of_breakFree (line text : Text) (plain : BreakFree line) :
    lines (line ++ text) = (line ++ (lines text).head (lines_ne_nil text)) :: (lines text).tail := by
  induction line with
  | nil => simp
  | cons c line ih =>
      have here : isBreak c = false := plain c (by simp)
      rw [List.cons_append, lines_cons_of_not_break _ here,
        ih fun d member => plain d (by simp [member])]
      rfl

theorem lines_of_breakFree {line : Text} (plain : BreakFree line) : lines line = [line] := by
  simpa [lines] using lines_append_of_breakFree line [] plain

/-- A terminator ends a line, unless a line feed joins its lone carriage
return. -/
theorem lines_terminator_append {eol : Text} (text : Text) (terminator : IsTerminator eol)
    (apart : eol = ['\r'] → text.head? ≠ some '\n') : lines (eol ++ text) = [] :: lines text := by
  rcases terminator with rfl | rfl | rfl
  · rfl
  · rfl
  · cases text with
    | nil => rfl
    | cons c text =>
        have notFeed : c ≠ '\n' := by simpa using apart rfl
        simp only [List.singleton_append]
        rw [lines]
        simpa using notFeed

theorem head?_ne_feed_of_breakFree {line : Text} (plain : BreakFree line) :
    line.head? ≠ some '\n' := by
  intro starts
  have feed : isBreak '\n' = false := plain '\n' (List.mem_of_mem_head? starts)
  simp [isBreak] at feed

/-- Lines without breaks that are joined with a carriage return never start with
a line feed. -/
theorem head?_join_ne_feed (parts : List Text) (plain : ∀ part ∈ parts, BreakFree part) :
    (join ['\r'] parts).head? ≠ some '\n' := by
  match parts with
  | [] => simp [join]
  | [part] => exact head?_ne_feed_of_breakFree (plain part (by simp))
  | [] :: next :: parts => simp [join]
  | (c :: part) :: next :: parts =>
      have first : (c :: part).head? ≠ some '\n' :=
        head?_ne_feed_of_breakFree (plain (c :: part) (by simp))
      simpa [join] using first

/-- Lines without breaks, joined with a terminator, are the lines of the
result. -/
theorem lines_join {eol : Text} (terminator : IsTerminator eol) :
    ∀ parts : List Text, parts ≠ [] → (∀ part ∈ parts, BreakFree part) →
      lines (join eol parts) = parts
  | [], nonempty, _ => absurd rfl nonempty
  | [part], _, plain => lines_of_breakFree (plain part (by simp))
  | part :: next :: parts, _, plain => by
      have rest := lines_join terminator (next :: parts) (by simp)
        fun p member => plain p (List.mem_cons_of_mem part member)
      have apart : eol = ['\r'] → (join eol (next :: parts)).head? ≠ some '\n' := by
        rintro rfl
        exact head?_join_ne_feed _ fun p member => plain p (List.mem_cons_of_mem part member)
      rw [join, List.append_assoc, lines_append_of_breakFree _ _ (plain part (by simp))]
      simp [lines_terminator_append _ terminator apart, rest]

/-- A terminator after the last line is an empty line after it. -/
theorem join_append_terminator (eol : Text) :
    ∀ parts : List Text, parts ≠ [] → join eol parts ++ eol = join eol (parts ++ [[]])
  | [], nonempty => absurd rfl nonempty
  | [part], _ => by simp [join]
  | part :: next :: parts, _ => by
      have rest := join_append_terminator eol (next :: parts) (by simp)
      simp only [List.cons_append] at rest ⊢
      rw [join, join, ← rest]
      simp

theorem lines_join_terminated {eol : Text} (terminator : IsTerminator eol) (parts : List Text)
    (nonempty : parts ≠ []) (plain : ∀ part ∈ parts, BreakFree part) :
    lines (join eol parts ++ eol) = parts ++ [[]] := by
  rw [join_append_terminator eol parts nonempty]
  refine lines_join terminator _ (by simp) fun part member => ?_
  rcases List.mem_append.1 member with inParts | isEmpty
  · exact plain part inParts
  · simp [List.mem_singleton.1 isEmpty, BreakFree]

end UiFormat.Text

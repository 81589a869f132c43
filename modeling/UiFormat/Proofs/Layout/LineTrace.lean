/-
# UiFormat.Proofs.Layout.LineTrace -- a scan of lines as one pass over the text

Lines are scanned one by one, with a state carried from each to the next (`scanLines`).
What the scan shows of a text is a list of items: where each line starts and what it starts
inside of, and the brackets in between.  `trace` gives the same items in one pass over the
whole text, breaks included (`line_trace_eq`), so that a stretch of text that holds
breaks is followed like any other.
-/
import UiFormat.Proofs.Layout.LineBlanks
import UiFormat.Proofs.Text.Lines

namespace UiFormat.Layout

open UiFormat.Text

set_option autoImplicit false

/-! ## Lines and their items -/

/-- Scans lines in order, each from the state that the one before it leaves. -/
def scanLines (s : ScanState) : List Text → List LineScan
  | [] => []
  | line :: rest => (s.scan line).1 :: scanLines (s.scan line).2 rest

/-- The offsets behind the breaks of a text that starts at `place`. -/
def breakEnds (place : Nat) : Text → List Nat
  | [] => []
  | '\r' :: '\n' :: text => (place + 2) :: breakEnds (place + 2) text
  | '\r' :: text => (place + 1) :: breakEnds (place + 1) text
  | '\n' :: text => (place + 1) :: breakEnds (place + 1) text
  | _ :: text => breakEnds (place + 1) text

/-- The offset of the first character of each line. -/
def lineStarts (text : Text) : List Nat :=
  0 :: breakEnds 0 text

/-- What a line starts inside of. -/
structure Setting where
  inTemplate : Bool
  inComment : Bool
  inDoc : Bool
  deriving DecidableEq, Repr

/-- A line that starts outside every literal and comment. -/
def Setting.code : Setting :=
  ⟨false, false, false⟩

/-- What a line starts inside of when it is scanned from this state. -/
def ScanState.setting (s : ScanState) : Setting :=
  ⟨!s.templates.isEmpty, s.inComment, s.inComment && s.docComment⟩

/-- What a scanned line started inside of. -/
def LineScan.setting (scan : LineScan) : Setting :=
  ⟨scan.startsInTemplate, scan.startsInComment, scan.startsInComment && scan.commentIsDoc⟩

/-- What a scan shows: the start of a line, or a bracket. -/
inductive Item where
  | line (start : Nat) (setting : Setting)
  | bracket (c : Char)
  deriving DecidableEq, Repr

/-- The bracket of an item. -/
def Item.bracket? : Item → Option Char
  | .line _ _ => none
  | .bracket c => some c

/-- The line start of an item. -/
def Item.line? : Item → Option (Nat × Setting)
  | .line start setting => some (start, setting)
  | .bracket _ => none

/-- The items of a scanned line. -/
def LineScan.items (start : Nat) (scan : LineScan) : List Item :=
  .line start scan.setting :: scan.events.map .bracket

/-- The items of marks. -/
def bracketItems (marks : List Mark) : List Item :=
  (marks.filterMap Mark.bracket?).map .bracket

theorem bracketItems_append (a b : List Mark) :
    bracketItems (a ++ b) = bracketItems a ++ bracketItems b := by
  simp only [bracketItems, List.filterMap_append, List.map_append]

/-- The items of a text that starts at `place`, in one pass: a break starts a line, and a
step sees no further than its line. -/
def trace (s : ScanState) (place : Nat) : Text → List Item
  | [] => []
  | '\r' :: '\n' :: text => .line (place + 2) s.setting :: trace s (place + 2) text
  | c :: text =>
      if isBreak c then .line (place + 1) s.setting :: trace s (place + 1) text
      else
        let line := text.takeWhile (!isBreak ·)
        match step s c line with
        | none => trace s (place + (line.length + 1)) (text.drop line.length)
        | some here =>
            let extra := min here.extra line.length
            bracketItems here.mark.toList ++
              trace here.state (place + (extra + 1)) (text.drop extra)
termination_by text => text.length
decreasing_by all_goals simp only [List.length_drop, List.length_cons]; omega

/-! ## Breaks -/

/-- A text is empty, or begins with a character of a line, or with a break. -/
theorem break_cases (text : Text) :
    text = [] ∨ (∃ c rest, text = c :: rest ∧ isBreak c = false) ∨
      ∃ eol rest, IsTerminator eol ∧ (eol = ['\r'] → rest.head? ≠ some '\n') ∧ text = eol ++ rest := by
  cases text with
  | nil => exact .inl rfl
  | cons c rest =>
      refine .inr ?_
      cases breaks : isBreak c with
      | false => exact .inl ⟨c, rest, rfl, breaks⟩
      | true =>
          have kinds : c = '\r' ∨ c = '\n' := by simpa [isBreak] using breaks
          rcases kinds with rfl | rfl
          · by_cases pair : rest.head? = some '\n'
            · obtain ⟨later, rfl⟩ : ∃ later, rest = '\n' :: later := by
                rw [List.head?_eq_some_iff] at pair
                exact pair
              exact .inr ⟨['\r', '\n'], later, .inr (.inl rfl), by simp, rfl⟩
            · exact .inr ⟨['\r'], rest, .inr (.inr rfl), fun _ => pair, rfl⟩
          · exact .inr ⟨['\n'], rest, .inl rfl, by simp, rfl⟩

theorem length_pos_of_terminator {eol : Text} (terminator : IsTerminator eol) : 0 < eol.length := by
  rcases terminator with rfl | rfl | rfl <;> decide

/-- Induction along a text that takes each break as a whole. -/
theorem break_induction {P : Text → Prop} (nil : P [])
    (char : ∀ c rest, isBreak c = false → (∀ later : Text, later.length ≤ rest.length → P later) →
      P (c :: rest))
    (terminator : ∀ eol rest, IsTerminator eol → (eol = ['\r'] → rest.head? ≠ some '\n') → P rest →
      P (eol ++ rest)) (text : Text) : P text := by
  induction size : text.length using Nat.strong_induction_on generalizing text with
  | _ n ih =>
      rcases break_cases text with rfl | ⟨c, rest, rfl, plain⟩ | ⟨eol, rest, isEol, apart, rfl⟩
      · exact nil
      · rw [List.length_cons] at size
        exact char c rest plain fun later short => ih _ (by omega) later rfl
      · have some := length_pos_of_terminator isEol
        rw [List.length_append] at size
        exact terminator eol rest isEol apart (ih _ (by omega) rest rfl)

theorem ne_pair {c : Char} {text : Text} (plain : isBreak c = false ∨ text.head? ≠ some '\n') :
    ∀ later, c = '\r' → text = '\n' :: later → False := by
  rintro later rfl rfl
  rcases plain with plain | apart
  · cases plain
  · exact apart rfl

theorem breakEnds_terminator_append {eol : Text} (terminator : IsTerminator eol) {text : Text}
    (apart : eol = ['\r'] → text.head? ≠ some '\n') (place : Nat) :
    breakEnds place (eol ++ text) =
      (place + eol.length) :: breakEnds (place + eol.length) text := by
  rcases terminator with rfl | rfl | rfl
  · rfl
  · rfl
  · rw [List.singleton_append, breakEnds]
    · rfl
    · exact fun later same => ne_pair (.inr (apart rfl)) later rfl same

theorem breakEnds_cons {c : Char} (plain : isBreak c = false) (place : Nat) (text : Text) :
    breakEnds place (c :: text) = breakEnds (place + 1) text := by
  have other : c ≠ '\r' ∧ c ≠ '\n' := by simpa [isBreak] using plain
  rw [breakEnds]
  · exact fun later isReturn _ => other.1 isReturn
  · exact other.1
  · exact other.2

theorem trace_nil (s : ScanState) (place : Nat) : trace s place [] = [] := by
  rw [trace]

theorem trace_terminator_append {eol : Text} (terminator : IsTerminator eol) {text : Text}
    (apart : eol = ['\r'] → text.head? ≠ some '\n') (s : ScanState) (place : Nat) :
    trace s place (eol ++ text) =
      .line (place + eol.length) s.setting :: trace s (place + eol.length) text := by
  rcases terminator with rfl | rfl | rfl
  · rw [List.singleton_append, trace, if_pos (by decide)]
    · rfl
    · simp
  · exact trace.eq_2 s place text
  · rw [List.singleton_append, trace, if_pos (by decide)]
    · rfl
    · exact ne_pair (.inr (apart rfl))

theorem trace_of_none {s : ScanState} {c : Char} {text : Text} (plain : isBreak c = false)
    (ends : step s c (text.takeWhile (!isBreak ·)) = none) (place : Nat) :
    trace s place (c :: text) =
      trace s (place + ((text.takeWhile (!isBreak ·)).length + 1))
        (text.drop (text.takeWhile (!isBreak ·)).length) := by
  rw [trace, if_neg (by simp [plain])]
  · simp only [ends]
  · exact ne_pair (.inl plain)

theorem trace_of_some {s : ScanState} {c : Char} {text : Text} {here : Step}
    (plain : isBreak c = false) (goes : step s c (text.takeWhile (!isBreak ·)) = some here)
    (place : Nat) :
    trace s place (c :: text) = bracketItems here.mark.toList ++
      trace here.state (place + (min here.extra (text.takeWhile (!isBreak ·)).length + 1))
        (text.drop (min here.extra (text.takeWhile (!isBreak ·)).length)) := by
  rw [trace, if_neg (by simp [plain])]
  · simp only [goes]
  · exact ne_pair (.inl plain)

/-! ## Lines as one text -/

theorem breakFree_takeWhile (text : Text) : BreakFree (text.takeWhile (!isBreak ·)) := by
  intro c member
  simpa using List.mem_takeWhile_imp member

/-- What stands behind a line begins with an empty line. -/
theorem lines_dropWhile (text : Text) :
    ∃ rest, lines (text.dropWhile (!isBreak ·)) = [] :: rest := by
  rcases break_cases (text.dropWhile (!isBreak ·)) with
    ends | ⟨c, rest, same, plain⟩ | ⟨eol, rest, terminator, apart, same⟩
  · exact ⟨[], by rw [ends, lines]⟩
  · have stops := List.head?_dropWhile_not (!isBreak ·) text
    rw [same] at stops
    simp [plain] at stops
  · exact ⟨lines rest, by rw [same, lines_terminator_append rest terminator apart]⟩

theorem lines_append_dropWhile {text line : Text} {rest : List Text}
    (split : lines text = line :: rest) :
    line = text.takeWhile (!isBreak ·) ∧ ∀ front, BreakFree front →
      lines (front ++ text.dropWhile (!isBreak ·)) = front :: rest := by
  obtain ⟨others, behind⟩ := lines_dropWhile text
  have front : ∀ front, BreakFree front →
      lines (front ++ text.dropWhile (!isBreak ·)) = front :: others := by
    intro front plain
    rw [lines_append_of_breakFree _ _ plain]
    simp [behind]
  have whole := front _ (breakFree_takeWhile text)
  rw [List.takeWhile_append_dropWhile, split] at whole
  obtain ⟨rfl, rfl⟩ := List.cons.inj whole
  exact ⟨rfl, front⟩

/-- Further on in the first line, the lines behind it are the same. -/
theorem lines_drop {text line : Text} {rest : List Text} (split : lines text = line :: rest) {n : Nat}
    (short : n ≤ line.length) : lines (text.drop n) = line.drop n :: rest := by
  obtain ⟨rfl, behind⟩ := lines_append_dropWhile split
  have cut : text.drop n = (text.takeWhile (!isBreak ·)).drop n ++ text.dropWhile (!isBreak ·) := by
    conv_lhs => rw [← List.takeWhile_append_dropWhile (p := (!isBreak ·)) (l := text)]
    exact List.drop_append_of_le_length short
  rw [cut]
  exact behind _ fun c member => breakFree_takeWhile text c (List.mem_of_mem_drop member)

theorem breakEnds_drop {text : Text} {n : Nat} (short : n ≤ (text.takeWhile (!isBreak ·)).length)
    (place : Nat) : breakEnds place text = breakEnds (place + n) (text.drop n) := by
  induction n generalizing text place with
  | zero => rfl
  | succ n ih =>
      cases text with
      | nil => cases short
      | cons c text =>
          cases breaks : isBreak c with
          | true => simp [breaks] at short
          | false =>
              rw [List.takeWhile_cons_of_pos (by simp [breaks]), List.length_cons] at short
              rw [breakEnds_cons breaks, ih (Nat.le_of_succ_le_succ short), List.drop_succ_cons,
                Nat.add_right_comm, Nat.add_assoc]

/-- The items of scanned lines that start at the given offsets. -/
def lineItems (starts : List Nat) (scans : List LineScan) : List Item :=
  (starts.zip scans).flatMap fun (start, scan) => scan.items start

theorem lineItems_cons (start : Nat) (starts : List Nat) (s : ScanState) (line : Text)
    (rest : List Text) :
    lineItems (start :: starts) (scanLines s (line :: rest)) =
      .line start s.setting :: (bracketItems (walk s line).marks ++
        lineItems starts (scanLines (walk s line).state rest)) :=
  rfl

/-- The rest of a line and the lines behind it. -/
theorem trace_eq {text line : Text} {rest : List Text} (split : lines text = line :: rest)
    (s : ScanState) (place : Nat) :
    trace s place text = bracketItems (walk s line).marks ++
      lineItems (breakEnds place text) (scanLines (walk s line).state rest) := by
  induction text using break_induction generalizing line rest s place with
  | nil =>
      obtain ⟨rfl, rfl⟩ := List.cons.inj split
      rw [trace_nil, walk_nil]
      rfl
  | char c text plain ih =>
      cases later : lines text with
      | nil => exact absurd later (lines_ne_nil text)
      | cons row others =>
          rw [lines_cons_of_not_break text plain, later, consLine] at split
          obtain ⟨rfl, rfl⟩ := List.cons.inj split
          have first := (lines_append_dropWhile later).1
          -- The line goes on `m` characters behind this one.
          have onward : ∀ m, m ≤ row.length → ∀ s,
              trace s (place + (m + 1)) (text.drop m) = bracketItems (walk s (row.drop m)).marks ++
                lineItems (breakEnds place (c :: text)) (scanLines (walk s (row.drop m)).state others) := by
            intro m short s
            rw [breakEnds_cons plain, breakEnds_drop (first ▸ short), Nat.add_assoc, Nat.add_comm 1]
            exact ih _ (by rw [List.length_drop]; omega) (lines_drop later short) s _
          cases goes : step s c row with
          | none =>
              have again := onward row.length (Nat.le_refl _) s
              rw [List.drop_length, walk_nil] at again
              rw [walk_of_none goes]
              rw [first] at goes
              rw [trace_of_none plain goes, ← first]
              exact again
          | some here =>
              have again := onward _ (Nat.min_le_right here.extra row.length) here.state
              have same : row.drop (min here.extra row.length) = row.drop here.extra := by
                rw [List.drop_eq_drop_iff, Nat.min_assoc, Nat.min_self]
              rw [walk_of_some goes]
              rw [first] at goes
              rw [trace_of_some plain goes, ← first, again, same, bracketItems_append,
                List.append_assoc]
  | terminator eol text isEol apart ih =>
      cases later : lines text with
      | nil => exact absurd later (lines_ne_nil text)
      | cons row others =>
          rw [lines_terminator_append text isEol apart, later] at split
          obtain ⟨rfl, rfl⟩ := List.cons.inj split
          rw [trace_terminator_append isEol apart, breakEnds_terminator_append isEol apart, walk_nil,
            lineItems_cons, ih later]
          rfl

/-- A scan of lines shows what one pass over the text shows, behind the start of the first
line. -/
theorem lineItems_lines (s : ScanState) (text : Text) :
    lineItems (lineStarts text) (scanLines s (lines text)) = .line 0 s.setting :: trace s 0 text := by
  cases split : lines text with
  | nil => exact absurd split (lines_ne_nil text)
  | cons line rest => rw [lineStarts, lineItems_cons, trace_eq split]

theorem length_breakEnds (place : Nat) (text : Text) :
    (breakEnds place text).length + 1 = (lines text).length := by
  induction text using break_induction generalizing place with
  | nil => rfl
  | char c text plain ih =>
      rw [breakEnds_cons plain, lines_cons_of_not_break text plain, ih text (Nat.le_refl _)]
      cases later : lines text with
      | nil => exact absurd later (lines_ne_nil text)
      | cons row rest => rfl
  | terminator eol text isEol apart ih =>
      rw [breakEnds_terminator_append isEol apart, lines_terminator_append text isEol apart,
        List.length_cons, List.length_cons, ih]

theorem length_lineStarts (text : Text) : (lineStarts text).length = (lines text).length :=
  length_breakEnds 0 text

/-- A line stands where it is said to start. -/
theorem line_stands_at (front : Text) {text : Text} {start : Nat} {line : Text}
    (member : (start, line) ∈ (front.length :: breakEnds front.length text).zip (lines text)) :
    line <+: (front ++ text).drop start := by
  induction text using break_induction generalizing front with
  | nil =>
      obtain ⟨rfl, rfl⟩ : start = front.length ∧ line = [] := by simpa [breakEnds, lines] using member
      exact List.nil_prefix
  | char c text plain ih =>
      have inner : (front ++ [c]).length = front.length + 1 := by simp
      have whole : front ++ c :: text = (front ++ [c]) ++ text := List.append_cons front c text
      cases later : lines text with
      | nil => exact absurd later (lines_ne_nil text)
      | cons row others =>
          rw [breakEnds_cons plain, lines_cons_of_not_break text plain, later, consLine,
            List.zip_cons_cons, List.mem_cons] at member
          rcases member with here | further
          · obtain ⟨rfl, rfl⟩ := Prod.mk.inj here
            have stands : row <+: text := by
              rw [(lines_append_dropWhile later).1]
              exact List.takeWhile_prefix _
            rw [List.drop_left]
            exact (List.prefix_cons_inj c).2 stands
          · rw [whole]
            refine ih text (Nat.le_refl _) (front ++ [c]) ?_
            rw [inner, later, List.zip_cons_cons]
            exact List.mem_cons_of_mem _ further
  | terminator eol text isEol apart ih =>
      rw [breakEnds_terminator_append isEol apart, lines_terminator_append text isEol apart,
        List.zip_cons_cons, List.mem_cons] at member
      rcases member with here | further
      · obtain ⟨-, rfl⟩ := Prod.mk.inj here
        exact List.nil_prefix
      · rw [← List.append_assoc]
        refine ih (front ++ eol) ?_
        rwa [List.length_append]

theorem length_scanLines (s : ScanState) (rows : List Text) :
    (scanLines s rows).length = rows.length := by
  induction rows generalizing s with
  | nil => rfl
  | cons row rows ih => rw [scanLines, List.length_cons, List.length_cons, ih]

theorem mem_breakEnds {place start : Nat} {text : Text} (member : start ∈ breakEnds place text) :
    place < start ∧ start ≤ place + text.length := by
  induction text using break_induction generalizing place with
  | nil => cases member
  | char c text plain ih =>
      rw [breakEnds_cons plain] at member
      have bounds := ih text (Nat.le_refl _) member
      rw [List.length_cons]
      omega
  | terminator eol text isEol apart ih =>
      have some := length_pos_of_terminator isEol
      rw [breakEnds_terminator_append isEol apart] at member
      rw [List.length_append]
      rcases List.mem_cons.1 member with rfl | later
      · omega
      · have bounds := ih later
        omega

/-! ## The two views of the items -/

theorem filterMap_bracket?_lineItems {starts : List Nat} {scans : List LineScan}
    (lengths : starts.length = scans.length) :
    (lineItems starts scans).filterMap Item.bracket? = scans.flatMap (·.events) := by
  have own : ∀ start (scan : LineScan), (scan.items start).filterMap Item.bracket? = scan.events := by
    intro start scan
    rw [LineScan.items, List.filterMap_cons_none rfl, List.filterMap_map]
    exact List.filterMap_some
  rw [lineItems, List.filterMap_flatMap]
  simp only [own]
  conv_rhs => rw [← List.map_snd_zip (Nat.le_of_eq lengths.symm)]
  rw [List.flatMap_map]

theorem filterMap_line?_lineItems (starts : List Nat) (scans : List LineScan) :
    (lineItems starts scans).filterMap Item.line? =
      (starts.zip scans).map fun (start, scan) => (start, scan.setting) := by
  have own : ∀ start (scan : LineScan),
      (scan.items start).filterMap Item.line? = [(start, scan.setting)] := by
    intro start scan
    have silent : (scan.events.map Item.bracket).filterMap Item.line? = [] := by simp [Item.line?]
    rw [LineScan.items, List.filterMap_cons, silent]
    rfl
  rw [lineItems, List.filterMap_flatMap]
  simp only [own]
  exact List.flatMap_pure_eq_map _ _

end UiFormat.Layout

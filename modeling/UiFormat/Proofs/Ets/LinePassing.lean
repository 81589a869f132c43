/-
# UiFormat.Proofs.Ets.LinePassing -- comments and literals in a scan by lines

A scan by lines carries what is open from one line to the next.  `Passes s setting n t text`
says that from the state `s` on, the first `n` characters of a text show nothing but the
starts of the lines inside them, and leave the state `t`; it is built up character by
character (`Passes.cons`), break by break (`Passes.terminator`), or with a step that takes
several characters (`Passes.jump`).

Outside literals and comments plain characters are passed over (`passes_inert`).  Inside a
block comment the scan waits for the closing mark (`passes_comment`); inside a template
literal its open parts mirror the depth the lexer counts (`passes_template`), as long as the
literal holds no quote, slash or backslash.
-/
import UiFormat.Proofs.Ets.Spelling
import UiFormat.Proofs.Layout.LineTrace
import UiFormat.Proofs.Text.Cut

namespace UiFormat.Ets

open UiFormat.Text
open UiFormat.Parse
open UiFormat.Layout

set_option autoImplicit false

/-! ## What a token shows -/

/-- What a line that starts inside a token starts inside of. -/
def Kind.setting : Kind → Setting
  | .template => ⟨true, false, false⟩
  | .blockComment => ⟨false, true, false⟩
  | .docComment => ⟨false, true, true⟩
  | _ => .code

theorem Kind.inTemplate_setting (kind : Kind) :
    kind.setting.inTemplate = true ↔ kind = .template := by
  cases kind <;> simp [Kind.setting, Setting.code]

theorem Kind.inComment_setting (kind : Kind) :
    kind.setting.inComment = true ↔ kind = .blockComment ∨ kind = .docComment := by
  cases kind <;> simp [Kind.setting, Setting.code]

theorem Kind.inDoc_setting (kind : Kind) : kind.setting.inDoc = true ↔ kind = .docComment := by
  cases kind <;> simp [Kind.setting, Setting.code]

/-- The bracket that a token is. -/
def bracket? (kind : Kind) (text : Text) : Option Char :=
  match kind, text with
  | .punctuator, [c] => if isOpener c || isCloser c then some c else none
  | _, _ => none

/-- The starts of the lines inside a stretch of text. -/
def crossings (setting : Setting) (place : Nat) (text : Text) : List Item :=
  (breakEnds place text).map (.line · setting)

/-- What a token of this text shows to a scan by lines. -/
def tokenItems (kind : Kind) (place : Nat) (text : Text) : List Item :=
  (bracket? kind text).toList.map .bracket ++ crossings kind.setting place text

/-- The text without a back quote at its end. -/
def unclosed (text : Text) : Text :=
  if text.getLast? = some '\x60' then text.dropLast else text

/-- The text of a template literal between its back quotes. -/
def interior (text : Text) : Text :=
  unclosed (text.drop 1)

/-- The characters that would stop a scan by lines inside a template literal. -/
def isSnag (c : Char) : Bool :=
  c == '\x27' || c == '\x22' || c == '\x60' || c == '/' || c == '\\'

/-- A scan by lines can follow a token of this text. -/
def isLinear (kind : Kind) (text : Text) : Bool :=
  match kind with
  | .regexp => false
  | .string => !text.any isBreak
  | .template => !(interior text).any isSnag
  | _ => true

/-- Nothing is open; `doc` tells of the block comment opened last. -/
def idle (doc : Bool) : ScanState :=
  { templates := [], inComment := false, docComment := doc }

theorem breakEnds_append_of_breakFree {front : Text} (plain : BreakFree front) (place : Nat)
    (text : Text) : breakEnds place (front ++ text) = breakEnds (place + front.length) text := by
  induction front generalizing place with
  | nil => rfl
  | cons c front ih =>
      rw [List.cons_append, breakEnds_cons (plain c List.mem_cons_self),
        ih fun d member => plain d (List.mem_cons_of_mem c member), List.length_cons, Nat.add_assoc,
        Nat.add_comm 1]

theorem crossings_of_breakFree {text : Text} (plain : BreakFree text) (setting : Setting)
    (place : Nat) : crossings setting place text = [] := by
  have none := breakEnds_append_of_breakFree plain place []
  rw [List.append_nil] at none
  rw [crossings, none]
  rfl

theorem crossings_append_of_breakFree {front : Text} (plain : BreakFree front) (setting : Setting)
    (place : Nat) (text : Text) :
    crossings setting place (front ++ text) = crossings setting (place + front.length) text := by
  rw [crossings, breakEnds_append_of_breakFree plain, crossings]

theorem crossings_terminator_append {eol : Text} (isEol : IsTerminator eol) {text : Text}
    (apart : eol = ['\r'] → text.head? ≠ some '\n') (setting : Setting) (place : Nat) :
    crossings setting place (eol ++ text) =
      .line (place + eol.length) setting :: crossings setting (place + eol.length) text := by
  rw [crossings, breakEnds_terminator_append isEol apart, List.map_cons, crossings]

/-- From `s` on, the first `n` characters of a text show nothing but the starts of their
lines, all in `setting`, and leave the state `t`. -/
def Passes (s : ScanState) (setting : Setting) (n : Nat) (t : ScanState) (text : Text) : Prop :=
  ∀ place, trace s place text = crossings setting place (text.take n) ++
    trace t (place + (text.take n).length) (text.drop n)

namespace Passes

variable {s t u : ScanState} {setting : Setting} {n : Nat} {c : Char} {text : Text}

/-- At the end of the text the state does not matter. -/
theorem ends : Passes s setting n t [] := by
  intro place
  rw [List.take_nil, List.drop_nil, trace_nil, trace_nil]
  rfl

theorem none : Passes s setting 0 s text :=
  fun _ => rfl

/-- A step that takes `m` further characters of its line. -/
theorem jump {here : Step} {m : Nat} (later : Passes here.state setting n t (text.drop m))
    (plain : BreakFree (c :: text.take m)) (goes : step s c (text.takeWhile (!isBreak ·)) = some here)
    (reach : min here.extra (text.takeWhile (!isBreak ·)).length = m)
    (silent : bracketItems here.mark.toList = []) : Passes s setting (m + 1 + n) t (c :: text) := by
  intro place
  have front : (c :: text).take (m + 1 + n) = (c :: text.take m) ++ (text.drop m).take n := by
    rw [List.take_add]
    rfl
  have back : (c :: text).drop (m + 1 + n) = (text.drop m).drop n := by
    rw [← List.drop_drop]
    rfl
  have length : (c :: text.take m).length = m + 1 := by
    rw [List.length_cons, List.length_take, ← reach]
    have short := (List.takeWhile_sublist (!isBreak ·) (l := text)).length_le
    omega
  rw [trace_of_some (plain c List.mem_cons_self) goes, silent, reach, later, front, back,
    crossings_append_of_breakFree plain, List.length_append, length, List.nil_append, Nat.add_assoc]

/-- A step that takes one character. -/
theorem cons {here : Step} (later : Passes here.state setting n t text) (plain : isBreak c = false)
    (goes : step s c (text.takeWhile (!isBreak ·)) = some here) (alone : here.extra = 0)
    (silent : bracketItems here.mark.toList = []) : Passes s setting (n + 1) t (c :: text) := by
  rw [Nat.add_comm]
  refine jump (m := 0) later ?_ goes ?_ silent
  · simpa [BreakFree] using plain
  · rw [alone, Nat.zero_min]

/-- A step that takes two characters. -/
theorem cons_cons {here : Step} {d : Char} (later : Passes here.state setting n t text)
    (plain : isBreak c = false) (plainNext : isBreak d = false)
    (goes : step s c ((d :: text).takeWhile (!isBreak ·)) = some here) (both : here.extra = 1)
    (silent : bracketItems here.mark.toList = []) : Passes s setting (n + 2) t (c :: d :: text) := by
  rw [Nat.add_comm]
  refine jump (m := 1) later ?_ goes ?_ silent
  · simpa [BreakFree] using ⟨plain, plainNext⟩
  · rw [both, List.takeWhile_cons_of_pos (by simp [plainNext]), List.length_cons]
    omega

theorem terminator {eol : Text} (later : Passes s setting n t text) (isEol : IsTerminator eol)
    (apart : eol = ['\r'] → text.head? ≠ some '\n') (here : s.setting = setting) :
    Passes s setting (eol.length + n) t (eol ++ text) := by
  have apartFront : eol = ['\r'] → (text.take n).head? ≠ some '\n' := by
    intro isReturn first
    refine apart isReturn ?_
    rw [List.head?_take] at first
    split at first
    · cases first
    · exact first
  intro place
  rw [trace_terminator_append isEol apart, later, List.take_length_add_append,
    List.drop_length_add_append, crossings_terminator_append isEol apartFront, List.length_append,
    here, List.cons_append, Nat.add_assoc]

end Passes

/-! ## Plain characters -/

/-- Outside literals and comments, nothing happens on such a character. -/
def isInert (c : Char) : Bool :=
  isPlain c || isInlineBlank c

theorem ne_of_isInert {c d : Char} (inert : isInert c = true)
    (stops : d ∈ "\r\n/\x22\x27\x60\x7b\x7d[]()".toList) : c ≠ d := by
  rintro rfl
  have table : ∀ d ∈ "\r\n/\x22\x27\x60\x7b\x7d[]()".toList, isInert d = false :=
    forall_mem_of_all (by decide)
  rw [table c stops] at inert
  cases inert

theorem isBreak_of_isInert {c : Char} (inert : isInert c = true) : isBreak c = false := by
  have isReturn := ne_of_isInert inert (d := '\r') (by decide)
  have isFeed := ne_of_isInert inert (d := '\n') (by decide)
  simp [isBreak, isReturn, isFeed]

theorem isBracket_of_isInert {c : Char} (inert : isInert c = true) :
    isOpener c = false ∧ isCloser c = false := by
  have other : ∀ d ∈ ['{', '[', '(', '}', ']', ')'], c ≠ d := fun d member =>
    ne_of_isInert inert ((by decide : ['{', '[', '(', '}', ']', ')'] ⊆ _) member)
  constructor
  · simp [isOpener, other '{', other '[', other '(']
  · simp [isCloser, other '}', other ']', other ')']

/-- Outside literals and comments, what opens none of them is a bracket or shows nothing. -/
theorem step_idle (doc : Bool) {c : Char} (line : Text)
    (noSlash : c = '/' → startsWith line ['/'] = false ∧ startsWith line ['*'] = false)
    (noQuote : c ≠ '\x22' ∧ c ≠ '\x27' ∧ c ≠ '\x60') :
    ∃ mark, step (idle doc) c line = some ⟨idle doc, mark, 0, false⟩ ∧
      bracketItems mark.toList = if isOpener c || isCloser c then [.bracket c] else [] := by
  have noLine : ¬ ((decide (c = '/') && startsWith line ['/']) = true) := by
    simpa using fun isSlash => (noSlash isSlash).1
  have noBlock : ¬ ((decide (c = '/') && startsWith line ['*']) = true) := by
    simpa using fun isSlash => (noSlash isSlash).2
  simp only [step, idle, Bool.false_eq_true, if_false]
  by_cases blank : (decide (c = ' ') || decide (c = '\t')) = true
  · have blanks : c = ' ' ∨ c = '\t' := by simpa using blank
    rw [if_pos blank]
    refine ⟨none, rfl, ?_⟩
    rcases blanks with rfl | rfl <;> rfl
  · rw [if_neg blank, if_neg noLine, if_neg noBlock, if_neg (by simp [noQuote]),
      if_neg noQuote.2.2]
    simp only [codeStep]
    split
    · exact ⟨_, rfl, rfl⟩
    · exact ⟨_, rfl, rfl⟩

theorem passes_inert (doc : Bool) (setting : Setting) {n : Nat} {text : Text}
    (inert : ∀ c ∈ text.take n, isInert c = true) : Passes (idle doc) setting n (idle doc) text := by
  induction text generalizing n with
  | nil => exact .ends
  | cons c text ih =>
      cases n with
      | zero => exact .none
      | succ n =>
          rw [List.take_succ_cons, List.forall_mem_cons] at inert
          obtain ⟨mark, goes, shows⟩ := step_idle doc (text.takeWhile (!isBreak ·))
            (fun isSlash => absurd isSlash (ne_of_isInert inert.1 (by decide)))
            ⟨ne_of_isInert inert.1 (by decide), ne_of_isInert inert.1 (by decide),
              ne_of_isInert inert.1 (by decide)⟩
          obtain ⟨notOpener, notCloser⟩ := isBracket_of_isInert inert.1
          rw [notOpener, notCloser] at shows
          exact (ih inert.2).cons (isBreak_of_isInert inert.1) goes rfl shows

/-! ## Block comments -/

/-- A mark without breaks stands at the front of a text where it stands at the front of its
first line. -/
theorem startsWith_takeWhile {mark : Text} (plain : BreakFree mark) (text : Text) :
    startsWith (text.takeWhile (!isBreak ·)) mark = startsWith text mark := by
  induction mark generalizing text with
  | nil => simp [startsWith]
  | cons d mark ih =>
      cases text with
      | nil => rfl
      | cons c text =>
          have later := ih (fun e member => plain e (List.mem_cons_of_mem d member)) text
          simp only [startsWith] at later ⊢
          cases breaks : isBreak c with
          | true =>
              have other : (d == c) = false := by
                rw [beq_eq_false_iff_ne]
                rintro rfl
                rw [plain d List.mem_cons_self] at breaks
                cases breaks
              simp [breaks, List.isPrefixOf, other]
          | false => simp [breaks, List.isPrefixOf, later]

theorem isSome_after? (mark text : Text) : (after? mark text).isSome = startsWith text mark := by
  fun_induction after? mark text with
  | case1 text => simp [startsWith]
  | case2 o mark => rfl
  | case3 mark c text ih => simpa [startsWith, List.isPrefixOf] using ih
  | case4 o mark c text other => simp [startsWith, List.isPrefixOf, other]

theorem lengthThrough_cons (c : Char) (text : Text) :
    lengthThrough "*/".toList (c :: text) =
      if startsWith (c :: text) "*/".toList then 2 else lengthThrough "*/".toList text + 1 := by
  rw [← isSome_after?, lengthThrough, cut?, lengthThrough]
  cases here : after? "*/".toList (c :: text) with
  | some rest => rfl
  | none =>
      cases later : cut? "*/".toList text with
      | none => rfl
      | some found =>
          simp only [Option.map_some, Option.isSome_none, Bool.false_eq_true, if_false,
            List.length_cons]
          omega

theorem lengthThrough_append {front : Text} (absent : '*' ∉ front) (text : Text) :
    lengthThrough "*/".toList (front ++ text) =
      front.length + lengthThrough "*/".toList text := by
  induction front with
  | nil => rw [List.nil_append, List.length_nil, Nat.zero_add]
  | cons c front ih =>
      rw [List.mem_cons, not_or] at absent
      rw [List.cons_append, lengthThrough_cons, if_neg, ih absent.2, List.length_cons]
      · omega
      · simp [startsWith, List.isPrefixOf, absent.1]

theorem breakFree_closing : BreakFree "*/".toList := by
  intro c member
  have kinds : c = '*' ∨ c = '/' := by simpa using member
  rcases kinds with rfl | rfl <;> rfl

/-- Inside a block comment everything up to its closing mark is passed over. -/
theorem passes_comment {s : ScanState} (inside : s.inComment = true) (text : Text) :
    Passes s s.setting (lengthThrough "*/".toList text) { s with inComment := false } text := by
  induction text using break_induction with
  | nil => exact .ends
  | char c text plain ih =>
      have sees := startsWith_takeWhile breakFree_closing (c :: text)
      rw [List.takeWhile_cons_of_pos (by simp [plain])] at sees
      have goes : step s c (text.takeWhile (!isBreak ·)) =
          some (commentStep s c (text.takeWhile (!isBreak ·))) := by
        rw [step, if_pos inside]
      rw [commentStep, isSome_after?, sees] at goes
      rw [lengthThrough_cons]
      cases closes : startsWith (c :: text) "*/".toList with
      | true =>
          obtain ⟨rest, whole⟩ := List.isPrefixOf_iff_prefix.1 closes
          obtain ⟨rfl, rfl⟩ := List.cons.inj whole
          rw [closes, if_pos rfl] at goes
          rw [if_pos rfl]
          exact Passes.none.cons_cons plain (by decide) goes rfl rfl
      | false =>
          rw [closes, if_neg (by simp)] at goes
          rw [if_neg (by simp)]
          exact (ih text (Nat.le_refl _)).cons plain goes rfl rfl
  | terminator eol text isEol apart ih =>
      have absent : '*' ∉ eol := by rcases isEol with rfl | rfl | rfl <;> decide
      rw [lengthThrough_append absent]
      exact ih.terminator isEol apart rfl

/-! ## Template literals -/

/-- The open parts of a template literal inside of which `depth` braces are open. -/
def partsAt : Nat → List TemplatePart
  | 0 => [.literal]
  | depth + 1 => [.group depth, .literal]

/-- The state inside a template literal. -/
def inTemplate (depth : Nat) (doc : Bool) : ScanState :=
  { templates := partsAt depth, inComment := false, docComment := doc }

theorem unclosed_cons (c : Char) {text : Text} (some : text ≠ []) :
    unclosed (c :: text) = c :: unclosed text := by
  obtain ⟨d, text, rfl⟩ := List.exists_cons_of_ne_nil some
  simp only [unclosed, List.getLast?_cons_cons, List.dropLast_cons_cons]
  split
  · rfl
  · rfl

theorem setting_inTemplate (depth : Nat) (doc : Bool) :
    (inTemplate depth doc).setting = Kind.template.setting := by
  cases depth <;> rfl

/-- The depth behind a character of a template literal. -/
def templateDepth (depth : Nat) (c : Char) : Nat :=
  if c = '{' then (if depth = 0 then 0 else depth + 1)
  else if c = '}' then depth - 1
  else depth

theorem ne_of_isSnag {c : Char} (smooth : isSnag c = false) :
    c ≠ '\x27' ∧ c ≠ '\x22' ∧ c ≠ '\x60' ∧ c ≠ '/' ∧ c ≠ '\\' := by
  simpa only [isSnag, Bool.or_eq_false_iff, beq_eq_false_iff_ne, and_assoc] using smooth

theorem templateExtent_smooth (depth : Nat) {c : Char} {text : Text} (smooth : isSnag c = false)
    (noGroup : c = '$' → startsWith text ['{'] = false) :
    templateExtent depth (c :: text) = templateExtent (templateDepth depth c) text + 1 := by
  obtain ⟨-, -, notClosing, -, notBackslash⟩ := ne_of_isSnag smooth
  rw [templateExtent_cons notBackslash noGroup, templateDepth]
  split
  · rfl
  · split
    · rfl
    · rw [if_neg (by simp [notClosing])]

/-- One character of the literal that neither closes it nor opens a group in its text. -/
theorem step_inTemplate {depth : Nat} {c : Char} {line : Text} (smooth : isSnag c = false)
    (noGroup : c = '$' → depth = 0 → startsWith line ['{'] = false) (doc : Bool) :
    step (inTemplate depth doc) c line =
      some ⟨inTemplate (templateDepth depth c) doc, none, 0, false⟩ := by
  obtain ⟨notSingle, notDouble, notBack, notSlash, notBackslash⟩ := ne_of_isSnag smooth
  cases depth with
  | zero =>
      have same : templateDepth 0 c = 0 := by
        rw [templateDepth]
        split
        · rfl
        · split
          · rfl
          · rfl
      have closed : ¬ ((decide (c = '$') && startsWith line ['{']) = true) := by
        simpa using fun isGroup => noGroup isGroup rfl
      rw [same]
      simp only [step, inTemplate, partsAt, Bool.false_eq_true, if_false, literalStep]
      rw [if_neg notBackslash, if_neg notBack, if_neg closed]
      rfl
  | succ depth =>
      simp only [step, inTemplate, partsAt, Bool.false_eq_true, if_false, codeStep, notSlash, notSingle,
        notDouble, notBack, decide_false, Bool.false_and, Bool.or_self]
      split
      · rename_i blank
        have other : c ≠ '{' ∧ c ≠ '}' := by
          have blanks : c = ' ' ∨ c = '\t' := by simpa using blank
          rcases blanks with rfl | rfl <;> decide
        rw [templateDepth, if_neg other.1, if_neg other.2]
        rfl
      · rw [templateDepth]
        split
        · rfl
        · split
          · cases depth with
            | zero => rfl
            | succ depth => rfl
          · rfl

/-- What is left of a literal is as smooth as the whole. -/
theorem smooth_tail {c : Char} {text : Text} {n : Nat}
    (smooth : ∀ d ∈ unclosed ((c :: text).take (n + 1)), isSnag d = false) :
    ∀ d ∈ unclosed (text.take n), isSnag d = false := by
  rw [List.take_succ_cons] at smooth
  by_cases none : text.take n = []
  · rw [none]
    exact fun d member => by cases member
  · rw [unclosed_cons c none] at smooth
    exact (List.forall_mem_cons.1 smooth).2

theorem smooth_breaks_append {eol text : Text} {n : Nat}
    (smooth : ∀ d ∈ unclosed ((eol ++ text).take (eol.length + n)), isSnag d = false) :
    ∀ d ∈ unclosed (text.take n), isSnag d = false := by
  induction eol with
  | nil => simpa using smooth
  | cons c eol ih =>
      rw [List.length_cons, Nat.add_right_comm] at smooth
      exact ih (smooth_tail smooth)

theorem templateExtent_breaks_append {eol : Text} (breaks : ∀ c ∈ eol, c = '\r' ∨ c = '\n')
    (depth : Nat) (text : Text) :
    templateExtent depth (eol ++ text) = eol.length + templateExtent depth text := by
  induction eol with
  | nil => rw [List.nil_append, List.length_nil, Nat.zero_add]
  | cons c eol ih =>
      rw [List.forall_mem_cons] at breaks
      have further : templateExtent depth (c :: (eol ++ text)) = templateExtent depth (eol ++ text) + 1 := by
        rcases breaks.1 with rfl | rfl
        · exact templateExtent_smooth depth (by decide) (by simp)
        · exact templateExtent_smooth depth (by decide) (by simp)
      rw [List.cons_append, further, ih breaks.2, List.length_cons]
      omega

theorem smooth_head {c : Char} {text : Text} {n : Nat}
    (smooth : ∀ d ∈ unclosed ((c :: text).take (n + 1)), isSnag d = false)
    (inside : c ≠ '\x60' ∨ text.take n ≠ []) : isSnag c = false := by
  rw [List.take_succ_cons] at smooth
  by_cases none : text.take n = []
  · have notBack := inside.resolve_right (not_not_intro none)
    rw [none, unclosed, if_neg (by simpa using notBack)] at smooth
    exact smooth c List.mem_cons_self
  · rw [unclosed_cons c none] at smooth
    exact smooth c List.mem_cons_self

/-- Inside a template literal the open parts follow the depth of its braces. -/
theorem passes_template (depth : Nat) (doc : Bool) (text : Text)
    (smooth : ∀ c ∈ unclosed (text.take (templateExtent depth text)), isSnag c = false) :
    Passes (inTemplate depth doc) Kind.template.setting (templateExtent depth text) (idle doc) text := by
  induction text using break_induction generalizing depth with
  | nil => exact .ends
  | char c text plain ih =>
      by_cases closing : c = '\x60'
      · subst closing
        cases depth with
        | zero =>
            have one : templateExtent 0 ('\x60' :: text) = 1 := by
              rw [templateExtent_cons (by decide) fun isDollar => absurd isDollar (by decide)]
              rfl
            have closes : step (inTemplate 0 doc) '\x60' (text.takeWhile (!isBreak ·)) =
                some (.skip (idle doc) 0) := rfl
            rw [one]
            exact Passes.none.cons plain closes rfl rfl
        | succ depth =>
            have more : templateExtent (depth + 1) ('\x60' :: text) = templateExtent (depth + 1) text + 1 := by
              rw [templateExtent_cons (by decide) fun isDollar => absurd isDollar (by decide)]
              rfl
            -- A back quote inside a group is the end of the text.
            have last : text = [] := by
              by_contra some
              rw [more] at smooth
              have taken : text.take (templateExtent (depth + 1) text) ≠ [] := by
                have positive := templateExtent_pos (depth + 1) some
                simp only [ne_eq, List.take_eq_nil_iff, some, or_false]
                omega
              cases smooth_head smooth (.inr taken)
            subst last
            rw [more]
            exact Passes.ends.cons plain rfl rfl rfl
      · by_cases opens : c = '$' ∧ startsWith text ['{'] = true
        · obtain ⟨rfl, brace⟩ := opens
          obtain ⟨text, rfl⟩ := List.isPrefixOf_iff_prefix.1 brace
          rw [List.singleton_append] at ih smooth ⊢
          have deeper : templateExtent depth ('$' :: '{' :: text) = templateExtent (depth + 1) text + 2 := by
            rw [templateExtent]
          rw [deeper] at smooth ⊢
          have later := ih text (Nat.le_succ _) (depth + 1) (smooth_tail (smooth_tail smooth))
          cases depth with
          | zero => exact later.cons_cons plain (by decide) rfl rfl rfl
          | succ depth =>
              -- Inside a group the brace alone counts.
              have brace : Passes (inTemplate (depth + 1) doc) Kind.template.setting
                  (templateExtent (depth + 1 + 1) text + 1) _ ('{' :: text) :=
                later.cons (by decide) (step_inTemplate (by decide) (by simp) doc) rfl rfl
              exact brace.cons plain (step_inTemplate (by decide) (by simp) doc) rfl rfl
        · have noGroup : c = '$' → startsWith text ['{'] = false := by simpa using opens
          have isSmooth : isSnag c = false := by
            have positive := templateExtent_pos depth (List.cons_ne_nil c text)
            obtain ⟨n, more⟩ := Nat.exists_eq_succ_of_ne_zero (Nat.ne_of_gt positive)
            rw [more] at smooth
            exact smooth_head smooth (.inl closing)
          have more := templateExtent_smooth depth isSmooth noGroup
          rw [more] at smooth ⊢
          have later := ih text (Nat.le_refl _) _ (smooth_tail smooth)
          refine later.cons plain (step_inTemplate isSmooth (fun isDollar _ => ?_) doc) rfl rfl
          rw [startsWith_takeWhile (by simp [BreakFree, isBreak])]
          exact noGroup isDollar
  | terminator eol text isEol apart ih =>
      have breaks : ∀ c ∈ eol, c = '\r' ∨ c = '\n' := by
        rcases isEol with rfl | rfl | rfl <;> simp
      rw [templateExtent_breaks_append breaks] at smooth ⊢
      exact (ih depth (smooth_breaks_append smooth)).terminator isEol apart (setting_inTemplate depth doc)

end UiFormat.Ets

/-
# UiFormat.Proofs.Ets.Routing -- complex syntax takes the same way every time

The basic rules rewrite the blanks around every line and drop blank lines, so what stands
between two words of a construct changes: a space becomes a line break and an indentation, a
run of blanks becomes another.  No construct is lost or made by that, whichever of them it is,
since each is read off what the lines say (`Construct.occurs_of_contents`).

So a source that is formatted by the basic rules because of complex syntax is formatted by them
for that reason again, however often it is formatted and with whatever options
(`hasComplexSyntax_formatRuns`), and a source that came to them for another reason does not
come back for this one.

Main statement: `format_routes_again`.
-/
import UiFormat.Proofs.Ets.Idempotence

namespace UiFormat.Ets

open UiFormat.Text
open UiFormat.Safety

set_option autoImplicit false

/-! ## One run -/

/-- The reason is complex syntax exactly where the source holds it. -/
theorem reason_eq_complexSyntax_iff (o : Options) (source : Text) :
    (format o source).reason = some .complexSyntax ↔ hasComplexSyntax source = true := by
  constructor
  · intro stated
    by_contra plain
    unfold format formatStructure at stated
    rw [if_neg plain] at stated
    dsimp only at stated
    by_cases faulty : (!(parse source).2.isEmpty) = true
    · rw [if_pos faulty] at stated
      cases stated
    · rw [if_neg faulty] at stated
      by_cases dropped : (!(parse source).1.dropped.isEmpty) = true
      · rw [if_pos dropped] at stated
        cases stated
      · rw [if_neg dropped] at stated
        cases printed : formatDocument o source (parse source).1.children with
        | error misplaced =>
            rw [printed] at stated
            cases stated
        | ok text =>
            rw [printed] at stated
            dsimp only at stated
            by_cases issues : hasIssues source text = true
            · rw [if_pos issues] at stated
              cases stated
            · rw [if_neg issues] at stated
              cases stated
  · intro complex
    unfold format formatStructure
    rw [if_pos complex]

/-- A run by the basic rules keeps complex syntax. -/
theorem hasComplexSyntax_text {o : Options} {source : Text} (terminator : IsTerminator o.eol)
    (fallback : (format o source).usedFallback = true) :
    hasComplexSyntax (format o source).text = hasComplexSyntax source := by
  rw [text_of_usedFallback fallback]
  exact hasComplexSyntax_formatBasic source terminator (isIndentUnit_indentUnit o)

/-! ## Any number of runs -/

/-- The text after a run with each of the options, one after the other. -/
def formatRuns (runs : List Options) (source : Text) : Text :=
  runs.foldl (fun text o => (format o text).text) source

/-- Complex syntax outlasts any runs, since every one of them is by the basic rules. -/
theorem hasComplexSyntax_formatRuns {runs : List Options}
    (terminators : ∀ o ∈ runs, IsTerminator o.eol) {source : Text}
    (complex : hasComplexSyntax source = true) :
    hasComplexSyntax (formatRuns runs source) = true := by
  induction runs generalizing source with
  | nil => exact complex
  | cons o runs ih =>
      obtain ⟨here, later⟩ := List.forall_mem_cons.1 terminators
      have fallback := usedFallback_of_hasComplexSyntax o complex
      have kept : hasComplexSyntax (format o source).text = true := by
        rw [hasComplexSyntax_text here fallback, complex]
      exact ih later kept

/-- **Complex syntax takes the same way every time.**  What the basic rules write, with any
terminator and any unit of spaces and tabs, holds the constructs of the source, each of them, and
no other, and so has complex syntax exactly where the source has.  After a run by the basic
rules the next run states complex syntax exactly where the first did; and a source with complex
syntax is sent to the basic rules for it after any number of runs with any options. -/
theorem format_routes_again {eol unit : Text} (terminator : IsTerminator eol)
    (indents : IsIndentUnit unit) (source : Text) :
    hasComplexSyntax (formatBasic eol unit source) = hasComplexSyntax source ∧
      (∀ k : Construct, k.occurs false (formatBasic eol unit source) = k.occurs false source) ∧
      (∀ o next : Options, IsTerminator o.eol → (format o source).usedFallback = true →
        ((format next (format o source).text).reason = some .complexSyntax ↔
          (format o source).reason = some .complexSyntax)) ∧
      ∀ (runs : List Options) (o : Options), (∀ earlier ∈ runs, IsTerminator earlier.eol) →
        (format o source).reason = some .complexSyntax →
          (format o (formatRuns runs source)).usedFallback = true ∧
            (format o (formatRuns runs source)).reason = some .complexSyntax := by
  refine ⟨hasComplexSyntax_formatBasic source terminator indents, ?_, ?_, ?_⟩
  · intro k
    apply k.occurs_of_contents
    exact contents_formatBasic source terminator indents
  · intro o next ends fallback
    rw [reason_eq_complexSyntax_iff, reason_eq_complexSyntax_iff, hasComplexSyntax_text ends fallback]
  · intro runs o ends stated
    have complex := (reason_eq_complexSyntax_iff o source).1 stated
    have lasting := hasComplexSyntax_formatRuns ends complex
    exact ⟨usedFallback_of_hasComplexSyntax o lasting, (reason_eq_complexSyntax_iff o _).2 lasting⟩

/-- A getter and a struct with a class in it, each over several lines, and what comes close to
a namespace and to a setter. -/
def scatteredHeads : Text :=
  "get\x0b\n\n \t a\r(\nstruct\nS x \x7b y\n\n\x0c  class\n\x7d\nanamespace b set\n  c;(".toList

theorem format_routes_again_scattered :
    IsTerminator ['\r', '\n'] ∧ IsIndentUnit [' ', '\t'] ∧
      Construct.all.filter (·.occurs false scatteredHeads) = [.getter, .nestingStruct] ∧
      formatBasic ['\r', '\n'] [' ', '\t'] scatteredHeads =
        ("get\r\n\r\na\r\n(\r\n \tstruct\r\n \tS x \x7b y\r\n\r\n \t \tclass\r\n \t\x7d\r\n" ++
          " \tanamespace b set\r\n \tc;(").toList ∧
      hasComplexSyntax (formatBasic ['\r', '\n'] [' ', '\t'] scatteredHeads) = true ∧
      ∀ k : Construct, k.occurs false (formatBasic ['\r', '\n'] [' ', '\t'] scatteredHeads) =
        k.occurs false scatteredHeads := by
  have terminator : IsTerminator ['\r', '\n'] := .inr (.inl rfl)
  have indents : IsIndentUnit [' ', '\t'] := by
    intro c member
    simpa using member
  have kept := format_routes_again terminator indents scatteredHeads
  have decided : Construct.all.filter (·.occurs false scatteredHeads) = [.getter, .nestingStruct] ∧
      formatBasic ['\r', '\n'] [' ', '\t'] scatteredHeads =
        ("get\r\n\r\na\r\n(\r\n \tstruct\r\n \tS x \x7b y\r\n\r\n \t \tclass\r\n \t\x7d\r\n" ++
          " \tanamespace b set\r\n \tc;(").toList ∧
      hasComplexSyntax scatteredHeads = true := by
    rw [show scatteredHeads = _ from String.toList_ofList]
    decide +kernel
  exact ⟨terminator, indents, decided.1, decided.2.1, kept.1.trans decided.2.2, kept.2.1⟩

end UiFormat.Ets

/-
# UiFormat.Proofs.Ets.SignatureWidth -- how long the line of a signature is

A parameter list stays on the line of its signature when the line fits: the width of the
line is taken with two characters more, which is what ` {` takes.  The line is then written
by the reindenter at its level (`signatureBlock_line`), so with an open brace or a terminator
behind it the header fits.  The braces of an empty body take one character more than that:
such a header can be one character too long (`header_fits`), and is so at the limit
(`header_overruns`).
-/
import UiFormat.Ets.Printer
import UiFormat.Proofs.Layout.Contents

namespace UiFormat.Ets

open UiFormat.Text
open UiFormat.Layout

set_option autoImplicit false

/-! ## Heads -/

/-- What stands in front of the type parameters of a function. -/
def Function.head (lead : Text) (f : Function) : Text :=
  lead ++ (if f.isAsync then "async ".toList else []) ++ "function".toList
    ++ (if f.isGenerator then "* ".toList else [' ']) ++ f.callable.name

/-- What stands in front of the type parameters of a method. -/
def Method.head (m : Method) : Text :=
  spaced m.modifiers ++ m.callable.name ++ if m.isOptional then ['?'] else []

variable {s : Style} {level : Int}

theorem print_function (lead : Text) (f : Function) :
    f.print s level lead = f.callable.print s level (f.head lead) := rfl

theorem print_method (m : Method) : m.print s level = m.callable.print s level m.head := rfl

/-- The lines of the signature of a callable. -/
def Callable.signature (s : Style) (level : Int) (head : Text) (c : Callable) : List Text :=
  signatureLines s level (head ++ c.typeParams.getD []) c.parameters
    (optionally ": ".toList c.returnType)

theorem Callable.print_eq (head : Text) (c : Callable) :
    c.print s level head = decoratorLines s level c.decorators
      ++ printCallable s level (c.signature s level head) c.body (isBuilder c.decorators) := rfl

/-- A signature with parameters and without line breaks, of which the layout with all of it
on one line was chosen. -/
structure OneLine (s : Style) (level : Int) (head : Text) (c : Callable) : Prop where
  parameters : ∃ ps, c.parameters = .items ps ∧ ps ≠ [] ∧ ∀ p ∈ ps, BreakFree p.print
  lead : BreakFree (head ++ c.typeParams.getD [])
  returnType : BreakFree (c.returnType.getD [])
  chosen : (c.signature s level head).length = 1

/-- Behind the decorators of the printed callable stands a header that fits, or one of an
empty body that is one character too long. -/
def HeaderFits (s : Style) (level : Int) (c : Callable) (printed : List Text) : Prop :=
  ∃ header rest, printed = decoratorLines s level c.decorators ++ header :: rest ∧
    ((header.length : Int) ≤ s.options.maxLineLength ∨
      (header.length : Int) = s.options.maxLineLength + 1 ∧ c.body.isSome ∧ rest = [] ∧
        endsWith header [' ', '{', '}'])

/-! ## The line of a signature -/

theorem breakFree_append {a b : Text} (first : BreakFree a) (second : BreakFree b) :
    BreakFree (a ++ b) :=
  List.forall_mem_append.2 ⟨first, second⟩

theorem breakFree_optionally {lead : Text} (plainLead : BreakFree lead) {text : Option Text}
    (plain : BreakFree (text.getD [])) : BreakFree (optionally lead text) := by
  fun_cases optionally lead text with
  | case1 => exact fun c member => by simp at member
  | case2 => exact fun c member => by simp at member
  | case3 text => exact breakFree_append plainLead plain

theorem breakFree_join {separator : Text} (plainSeparator : BreakFree separator)
    {parts : List Text} (plain : ∀ part ∈ parts, BreakFree part) :
    BreakFree (join separator parts) := by
  fun_induction join separator parts with
  | case1 => exact fun c member => by simp at member
  | case2 part => exact plain part List.mem_cons_self
  | case3 part next parts ih =>
      rw [List.forall_mem_cons] at plain
      exact breakFree_append (breakFree_append plain.1 plainSeparator) (ih plain.2)

/-- The only line of a signature, which shows a parenthesis, leaves two characters for what
comes behind it. -/
theorem OneLine.exists_line {head : Text} {c : Callable} (oneLine : OneLine s level head c) :
    ∃ line, c.signature s level head = [line] ∧ BreakFree line ∧ '(' ∈ line ∧
      ((s.indent level).length + line.length + 2 : Int) ≤ s.options.maxLineLength := by
  obtain ⟨ps, taken, nonempty, plain⟩ := oneLine.parameters
  have chosen := oneLine.chosen
  simp only [Callable.signature, taken, signatureLines] at chosen ⊢
  split at chosen
  · rename_i fits
    rw [if_pos fits]
    refine ⟨_, rfl, ?_, by simp, ?_⟩
    · have texts : ∀ text ∈ ps.map Parameter.print, BreakFree text := by
        simpa using plain
      have comma : BreakFree ", ".toList := by decide
      have colon : BreakFree ": ".toList := by decide
      have opening : BreakFree ['('] := by decide
      have closing : BreakFree [')'] := by decide
      have list := breakFree_append (breakFree_append oneLine.lead opening) (breakFree_join comma texts)
      exact breakFree_append (breakFree_append list closing)
        (breakFree_optionally colon oneLine.returnType)
    · have noBreak : (ps.map Parameter.print).any (·.contains '\n') = false := by
        rw [List.any_eq_false]
        intro text member feed
        obtain ⟨p, inList, rfl⟩ := List.mem_map.1 member
        have broken := plain p inList '\n' (List.contains_iff_mem.1 feed)
        revert broken
        decide
      have some : (ps.map Parameter.print).isEmpty = false := by simpa using nonempty
      rw [noBreak, some, Bool.or_false, Bool.or_false, decide_eq_true_iff] at fits
      push_cast at fits
      exact fits
  · exfalso
    simp at chosen

/-- The reindenter writes a signature of one line as one line at its level. -/
theorem signatureBlock_line {line ending : Text} (plain : BreakFree line) (shows : '(' ∈ line)
    (plainEnding : BreakFree ending) :
    signatureBlock s level [line] ending = [s.indent level ++ trim (line ++ ending)] := by
  refine reindentLines_line level s.options.indentUnit true (breakFree_append plain plainEnding) ?_
  intro nothing
  have blank := (trim_eq_nil_iff _).1 nothing '(' (List.mem_append_left _ shows)
  revert blank
  decide

theorem length_trim_le (text : Text) : (trim text).length ≤ text.length :=
  ((dropEndWhile_begins isBlank _).sublist.trans (List.dropWhile_sublist isBlank)).length_le

/-- Trimming a line that shows a parenthesis leaves what comes behind it, if that ends
visibly. -/
theorem trim_line_append {line ending : Text} (shows : '(' ∈ line) {c : Char}
    (last : ending.getLast? = some c) (visible : isBlank c = false) :
    ∃ front, trim (line ++ ending) = front ++ ending := by
  obtain ⟨a, b, rfl⟩ := List.append_of_mem shows
  refine ⟨trimStart a ++ '(' :: b, ?_⟩
  have starts : trimStart (a ++ '(' :: b ++ ending) = trimStart a ++ '(' :: b ++ ending := by
    rw [List.append_assoc, trimStart_append, List.append_assoc]
    exact fun d first => by cases first; decide
  rw [trim, starts]
  refine trimEnd_of_getLast? (c := c) ?_ visible
  rw [List.getLast?_append, last]
  rfl

/-- The header of a callable whose signature is one line. -/
theorem headerFits {head : Text} {c : Callable} (oneLine : OneLine s level head c) :
    HeaderFits s level c (c.print s level head) := by
  obtain ⟨line, signature, plain, shows, fits⟩ := oneLine.exists_line
  have bound (ending : Text) :
      ((s.indent level ++ trim (line ++ ending)).length : Int) ≤
        s.options.maxLineLength - 2 + ending.length := by
    have short := length_trim_le (line ++ ending)
    rw [List.length_append] at short ⊢
    omega
  have terminator : BreakFree s.terminator ∧ s.terminator.length ≤ 1 := by
    unfold Style.terminator
    split
    · exact ⟨by decide, by decide⟩
    · exact ⟨fun c member => (List.not_mem_nil member).elim, by decide⟩
  have opening : BreakFree [' ', '{'] := by decide
  have braces : BreakFree [' ', '{', '}'] := by decide
  rw [Callable.print_eq, signature]
  cases body : c.body with
  | none =>
      refine ⟨_, [], congrArg _ (signatureBlock_line plain shows terminator.1), .inl ?_⟩
      have within := bound s.terminator
      omega
  | some own =>
      unfold printCallable
      dsimp only
      split
      · refine ⟨_, [], congrArg _ (signatureBlock_line plain shows braces), ?_⟩
        have within := bound [' ', '{', '}']
        rw [show (([' ', '{', '}'] : Text).length : Int) = 3 from rfl] at within
        by_cases short : ((s.indent level ++ trim (line ++ [' ', '{', '}'])).length : Int) ≤
            s.options.maxLineLength
        · exact .inl short
        · obtain ⟨front, trimmed⟩ : ∃ front, trim (line ++ [' ', '{', '}']) = front ++ [' ', '{', '}'] :=
            trim_line_append shows rfl (by decide)
          refine .inr ⟨by omega, by rw [body]; rfl, rfl, ?_⟩
          rw [trimmed, ← List.append_assoc]
          exact List.isSuffixOf_iff_suffix.2 (List.suffix_append _ _)
      · rename_i first rest inner
        refine ⟨s.indent level ++ trim (line ++ [' ', '{']),
          (first :: rest) ++ [s.indent level ++ ['}']], ?_, .inl ?_⟩
        · rw [signatureBlock_line plain shows opening]
          rfl
        · have within := bound [' ', '{']
          rw [show (([' ', '{'] : Text).length : Int) = 2 from rfl] at within
          omega

/-- **Signatures on one line fit.**  When the parameters of a function or method are left on
one line, its header, with the brace or terminator behind it, is no longer than a line may
be; the header of an empty body, which closes its brace on the same line, can be longer by
exactly that brace. -/
theorem header_fits (s : Style) (level : Int) :
    (∀ (lead : Text) (f : Function), OneLine s level (f.head lead) f.callable →
      HeaderFits s level f.callable (f.print s level lead)) ∧
    ∀ m : Method, OneLine s level m.head m.callable → HeaderFits s level m.callable (m.print s level) :=
  ⟨fun _ _ => headerFits, fun _ => headerFits⟩

/-- A function with an empty body, whose header takes sixteen characters. -/
def emptyFunction : Function :=
  { callable :=
      { name := ['f']
        parameters := .items [{ name := ['a'] }]
        body := some { source := [] } } }

/-- A method whose header inside a class takes twenty-six characters. -/
def echoMethod : Method :=
  { callable :=
      { name := "echo".toList
        parameters := .items [{ name := ['a'], typeAnnotation := some "T".toList }]
        returnType := some "T[]".toList
        body := some { source := "return [a]".toList } }
    modifiers := ["static".toList] }

/-- Lines of at most `limit` characters. -/
def narrowStyle (limit : Int) : Style :=
  { options := { maxLineLength := limit }, terminated := false }

theorem header_fits_atLimit :
    (OneLine (narrowStyle 15) 0 (emptyFunction.head []) emptyFunction.callable ∧
      HeaderFits (narrowStyle 15) 0 emptyFunction.callable (emptyFunction.print (narrowStyle 15) 0 [])) ∧
    OneLine (narrowStyle 26) 1 echoMethod.head echoMethod.callable ∧
      HeaderFits (narrowStyle 26) 1 echoMethod.callable (echoMethod.print (narrowStyle 26) 1) := by
  have emptyLine : OneLine (narrowStyle 15) 0 (emptyFunction.head []) emptyFunction.callable :=
    { parameters := ⟨_, rfl, by decide, by decide⟩
      lead := by decide
      returnType := by decide
      chosen := rfl }
  have echoLine : OneLine (narrowStyle 26) 1 echoMethod.head echoMethod.callable :=
    { parameters := ⟨_, rfl, by decide, by decide⟩
      lead := by decide
      returnType := by decide
      chosen := rfl }
  exact ⟨⟨emptyLine, (header_fits (narrowStyle 15) 0).1 [] emptyFunction emptyLine⟩,
    echoLine, (header_fits (narrowStyle 26) 1).2 echoMethod echoLine⟩

/-- The header of an empty body at the limit: its parameter stays on the line, and the line
is too long. -/
theorem header_overruns :
    OneLine (narrowStyle 15) 0 (emptyFunction.head []) emptyFunction.callable ∧
      emptyFunction.print (narrowStyle 15) 0 [] = ["function f(a) {}".toList] ∧
      ¬ (("function f(a) {}".toList.length : Int) ≤ (narrowStyle 15).options.maxLineLength) :=
  ⟨{ parameters := ⟨_, rfl, by decide, by decide⟩
     lead := by decide
     returnType := by decide
     chosen := rfl }, by rfl, by decide⟩

end UiFormat.Ets

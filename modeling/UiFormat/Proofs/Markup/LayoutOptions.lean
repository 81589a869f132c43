/-
# UiFormat.Proofs.Markup.LayoutOptions -- layout options move blanks only

Indentation, line ends and the line length decide where a document is broken into lines.
They decide nothing else: `plains` is the document with no layout at all, and with blanks
left out a laid out document is that text under any options (`bare_printDocument`).

What the options change is local to three places.  Attributes stand behind a space or on
lines of their own (`bare_printAttributes`); a child on a line of its own is indented and its
line is left out when it is blank (`bare_printBlock`); an element within a line starts at
level 0 and the line is trimmed (`bare_printInline`).  Whether an element is laid out within
a line or as a block depends on the document alone, so two layouts never part there.

Main statement: `bare_printDocument_eq`.
-/
import UiFormat.Markup.Printer
import UiFormat.Proofs.Text.Squash

namespace UiFormat.Markup

open UiFormat.Text

set_option autoImplicit false

/-! ## Documents without layout -/

mutual

/-- A node written without layout: its parts one behind the other, its text as it is. -/
def Node.plain : Node → Text
  | .element tag attributes children selfClosing =>
      let head := ['<'] ++ tag ++ attributes.flatMap Attribute.print
      if selfClosing || isVoid tag then head ++ "/>".toList
      else head ++ ['>'] ++ plains children ++ "</".toList ++ tag ++ ['>']
  | .text value => value
  | .interpolation e => interpolated e
  | .comment value => printComment value
  | .strayAttribute _ => []

/-- Nodes written without layout. -/
def plains : List Node → Text
  | [] => []
  | n :: rest => n.plain ++ plains rest

end

/-! ## What a layout adds -/

theorem bare_indent (o : Options) (level : Int) : bare (o.indent level) = [] :=
  bare_of_blank (blanks_indent o level).isBlank

/-- Blank lines that are left out show nothing. -/
theorem bare_visible (parts : List Text) : bare (visible parts).flatten = bare parts.flatten := by
  induction parts with
  | nil => rfl
  | cons part parts ih =>
      rw [List.flatten_cons, bare_append, ← ih]
      cases blank : isBlankText part with
      | true =>
          have left : visible (part :: parts) = visible parts :=
            List.filter_cons_of_neg (by simp [blank])
          rw [left, bare_of_isBlankText blank, List.nil_append]
      | false =>
          have kept : visible (part :: parts) = part :: visible parts :=
            List.filter_cons_of_pos (by simp [blank])
          rw [kept, List.flatten_cons, bare_append]

variable {o : Options}

/-- Attributes show the same in one line and on lines of their own. -/
theorem bare_printAttributes (eolBlank : ∀ c ∈ o.eol, isBlank c = true) (level : Int)
    (attributes : List Attribute) :
    bare (printAttributes o level attributes) = bare (attributes.flatMap Attribute.print) := by
  have wrapped (parts : List Text) :
      bare (parts.flatMap fun part => o.eol ++ o.indent (level + 1) ++ part) =
        bare parts.flatten := by
    induction parts with
    | nil => rfl
    | cons part parts ih =>
        simp only [List.flatMap_cons, List.flatten_cons, bare_append, ih, bare_indent,
          bare_of_blank eolBlank, List.nil_append]
  have single (parts : List Text) : bare ([' '] ++ join [' '] parts) = bare parts.flatten := by
    rw [bare_append, bare_join (List.forall_mem_singleton.2 isBlank_space)]
    rfl
  unfold printAttributes
  rw [List.flatMap_def]
  split
  · rename_i none
    rw [List.isEmpty_iff.1 none]
    rfl
  · dsimp only
    split
    · exact single _
    · exact wrapped _

/-! ## Nodes -/

mutual

/-- A node shows the same at every level, under all options. -/
theorem bare_print (eolBlank : ∀ c ∈ o.eol, isBlank c = true) (level : Int) :
    (n : Node) → bare (n.print o level) = bare n.plain
  | .element tag attributes children selfClosing => by
      have shown := bare_printAttributes eolBlank level attributes
      rw [Node.print, Node.plain]
      split
      · simp only [bare_append, bare_indent, shown, List.nil_append]
        rfl
      · split
        · -- within a line: the content is trimmed
          simp only [bare_append, bare_indent, shown, bare_trim, bare_printInline eolBlank children,
            List.nil_append, List.append_assoc]
        · -- a block: every line is indented, blank ones are left out
          rw [bare_join eolBlank]
          simp only [List.flatten_append, List.flatten_cons, List.flatten_nil, List.append_nil,
            bare_append, bare_indent, shown, bare_visible,
            bare_printBlock eolBlank (level + 1) children, List.nil_append, List.append_assoc]
  | .text value => by
      have kept : bare (trim (collapseBlanks value)) = bare value := by
        rw [bare_trim, bare_collapseBlanks]
      rw [Node.print, Node.plain]
      split
      · rename_i none
        rw [← kept, List.isEmpty_iff.1 none]
      · rw [bare_append, bare_indent, kept, List.nil_append]
  | .interpolation e => by
      rw [Node.print, Node.plain, bare_append, bare_indent, List.nil_append]
  | .comment value => by
      rw [Node.print, Node.plain, bare_append, bare_indent, List.nil_append]
  | .strayAttribute _ => rfl

/-- Nodes on lines of their own. -/
theorem bare_printBlock (eolBlank : ∀ c ∈ o.eol, isBlank c = true) (level : Int) :
    (ns : List Node) → bare (printBlock o level ns).flatten = bare (plains ns)
  | [] => rfl
  | n :: rest => by
      rw [printBlock, plains, List.flatten_cons, bare_append, bare_append,
        bare_print eolBlank level n, bare_printBlock eolBlank level rest]

/-- Nodes within a line. -/
theorem bare_printInline (eolBlank : ∀ c ∈ o.eol, isBlank c = true) :
    (ns : List Node) → bare (printInline o ns).flatten = bare (plains ns)
  | [] => rfl
  | n :: rest => by
      have later := bare_printInline eolBlank rest
      cases n with
      | text value =>
          rw [printInline, plains, List.flatten_cons, bare_append, bare_append,
            bare_collapseBlanks, later, Node.plain]
      | interpolation e =>
          rw [printInline, plains, List.flatten_cons, bare_append, bare_append, later, Node.plain]
      | comment value =>
          rw [printInline, plains, List.flatten_cons, bare_append, bare_append, later, Node.plain]
      | element tag attributes children selfClosing =>
          have child := bare_print eolBlank 0 (.element tag attributes children selfClosing)
          simp only [printInline, plains, List.flatten_cons, bare_append, child, later]
      | strayAttribute stray =>
          have child := bare_print eolBlank 0 (.strayAttribute stray)
          simp only [printInline, plains, List.flatten_cons, bare_append, child, later]

end

/-! ## Documents -/

/-- Without its blanks a document is what it is without layout. -/
theorem bare_printDocument (eolBlank : ∀ c ∈ o.eol, isBlank c = true) (children : List Node) :
    bare (printDocument o children) = bare (plains children) := by
  have lines : bare (visible (printBlock o 0 children)).flatten = bare (plains children) := by
    rw [bare_visible, bare_printBlock eolBlank]
  unfold printDocument
  split
  · rename_i none
    rw [none] at lines
    exact lines
  · rename_i some
    rw [some] at lines
    rw [bare_append, bare_join eolBlank, lines, bare_of_blank eolBlank, List.append_nil]

/-- **Layout options move blanks only.**  Two layouts of a document are equal without their
blanks, whatever the indent, the line end and the line length of each.  A level of indentation
is always blank (`blanks_indent`); of the line end it has to be said. -/
theorem bare_printDocument_eq {other : Options} (eolBlank : ∀ c ∈ o.eol, isBlank c = true)
    (otherBlank : ∀ c ∈ other.eol, isBlank c = true) (children : List Node) :
    bare (printDocument o children) = bare (printDocument other children) :=
  (bare_printDocument eolBlank children).trans (bare_printDocument otherBlank children).symm

/-- A block with attributes, a text, a comment and an element within a line. -/
def greeting : List Node := [
  .element "div".toList
    [⟨"id".toList, .quoted none "main".toList⟩, ⟨"hidden".toList, .absent⟩]
    [.text "  hello  ".toList,
     .comment " later ".toList,
     .element "b".toList [] [.text " all ".toList] false]
    false]

/-- Narrow lines, indented with tabs. -/
def narrow : Options :=
  { Options.markup with maxLineLength := 10, insertSpaces := false, eol := ['\r', '\n'] }

/-- Narrow lines wrap the attributes, tabs and other line ends replace the spaces and breaks:
the texts differ, by blanks alone. -/
theorem bare_printDocument_greeting :
    (∀ c ∈ Options.markup.eol, isBlank c = true) ∧ (∀ c ∈ narrow.eol, isBlank c = true) ∧
      printDocument .markup greeting ≠ printDocument narrow greeting ∧
      bare (printDocument .markup greeting) = bare (printDocument narrow greeting) :=
  have eolBlank : Blanks Options.markup.eol := by decide
  have otherBlank : Blanks narrow.eol := by decide
  ⟨eolBlank.isBlank, otherBlank.isBlank, by decide +kernel,
    bare_printDocument_eq eolBlank.isBlank otherBlank.isBlank greeting⟩

end UiFormat.Markup

/-
# UiFormat.Proofs.Markup.DocumentLayout -- the layout of nodes, read back

The printer moves nodes to lines of their own or keeps them within a line; either
way it only adds and removes blanks between them.  `normals` is the document up to
what the printer changes by design: blanks in text, parentheses of expressions, and
how the expression of an attribute was written down.

`Content lead text ns` describes a laid out list of nodes: some text in front, then
nodes that can be read wherever they stand (`Solid`), each followed by text again.
Such a list is read back node by node (`lexes_content`), blanks at its ends can go
(`Content.trim`), and both layouts have this form (`exists_content_inline`,
`exists_content_block`).

What is read back is also laid out as before: `Alike view` says of two lists of nodes
that they are the same up to layout and that the view of a layout, the text of a line
or the lines of a block, does not tell them apart.
-/
import UiFormat.Proofs.Markup.DocumentForm

namespace UiFormat.Markup

open UiFormat.Text
open UiFormat.Parse

set_option autoImplicit false

/-! ## Documents up to layout -/

/-- The text as nodes: none when it is empty. -/
def textNodes (text : Text) : List Node :=
  if text = [] then [] else [.text text]

/-- The value without the parentheses of its expression, and without the quote and
the text the expression was read from. -/
def AttributeValue.normal : AttributeValue → AttributeValue
  | .expression _ _ tree => .expression none [] tree.ungrouped
  | value => value

/-- The attribute up to how its expression was written down. -/
def Attribute.normal (a : Attribute) : Attribute :=
  { a with value := a.value.normal }

mutual

/-- The node up to layout; nothing when it is blank text. -/
def Node.normal : Node → List Node
  | .element tag attributes children selfClosing =>
      [.element tag (attributes.map Attribute.normal) (normals children) selfClosing]
  | .text value => textNodes (squash value)
  | .comment value => [.comment value]
  | .interpolation e => [.interpolation e.ungrouped]
  | .strayAttribute stray => [.strayAttribute stray.normal]

/-- The nodes up to layout. -/
def normals : List Node → List Node
  | [] => []
  | n :: rest => n.normal ++ normals rest

end

theorem normals_append (ms ns : List Node) : normals (ms ++ ns) = normals ms ++ normals ns := by
  induction ms with
  | nil => rfl
  | cons m ms ih => rw [List.cons_append, normals, normals, ih, List.append_assoc]

/-- Only what a text is squashed to counts. -/
theorem normals_textNodes (text : Text) : normals (textNodes text) = textNodes (squash text) := by
  by_cases empty : text = []
  · rw [empty]
    rfl
  · rw [textNodes, if_neg empty]
    exact List.append_nil _

/-- What is read back from a printed attribute is the attribute, up to how its
expression was written down. -/
theorem normal_reread (a : Attribute) : a.reread.normal = a.normal := by
  obtain ⟨name, value⟩ := a
  cases value with
  | expression quote value tree =>
      simp only [Attribute.reread, AttributeValue.reread, Attribute.normal, AttributeValue.normal,
        ungrouped_parenthesized]
  | _ => rfl

/-- What is read back from a printed attribute prints as the attribute. -/
theorem print_reread (a : Attribute) : a.reread.print = a.print := by
  obtain ⟨name, value⟩ := a
  cases value with
  | expression quote value tree =>
      simp only [Attribute.reread, AttributeValue.reread, Attribute.print, between, interpolated,
        print_parenthesized, Option.getD_some]
  | _ => rfl

/-! ## Nodes that are laid out alike -/

/-- Nodes within a line, as one text. -/
def inlineText (o : Options) (ns : List Node) : Text :=
  (printInline o ns).flatten

/-- Nodes on lines of their own, without blank lines. -/
def blockLines (o : Options) (level : Int) (ns : List Node) : List Text :=
  visible (printBlock o level ns)

theorem inlineText_append (o : Options) (ms ns : List Node) :
    inlineText o (ms ++ ns) = inlineText o ms ++ inlineText o ns := by
  induction ms with
  | nil => rfl
  | cons m ms ih =>
      rw [inlineText, inlineText] at ih
      cases m <;>
        simp only [inlineText, List.cons_append, printInline, List.flatten_cons, List.append_assoc, ih]

theorem blockLines_cons (o : Options) (level : Int) (n : Node) (ns : List Node) :
    blockLines o level (n :: ns) = visible [n.print o level] ++ blockLines o level ns := by
  rw [blockLines, printBlock, ← List.singleton_append, visible, List.filter_append]
  rfl

theorem blockLines_append (o : Options) (level : Int) (ms ns : List Node) :
    blockLines o level (ms ++ ns) = blockLines o level ms ++ blockLines o level ns := by
  induction ms with
  | nil => rfl
  | cons m ms ih => rw [List.cons_append, blockLines_cons, blockLines_cons, ih, List.append_assoc]

/-- The nodes are the same up to layout, run on within a line alike, and show the same
in `view`. -/
structure Alike {β : Type} (view : List Node → β) (ms ns : List Node) : Prop where
  same : normals ms = normals ns
  running : ms.all Node.isRunning = ns.all Node.isRunning
  shown : view ms = view ns

namespace Alike

variable {β γ : Type} {view : List Node → β} {ks ls ms ns : List Node}

theorem refl (view : List Node → β) (ns : List Node) : Alike view ns ns :=
  ⟨rfl, rfl, rfl⟩

theorem symm (alike : Alike view ms ns) : Alike view ns ms :=
  ⟨alike.same.symm, alike.running.symm, alike.shown.symm⟩

theorem trans (first : Alike view ks ms) (second : Alike view ms ns) : Alike view ks ns :=
  ⟨first.same.trans second.same, first.running.trans second.running, first.shown.trans second.shown⟩

/-- A view that shows less does not tell the nodes apart either. -/
theorem coarsen {other : List Node → γ} (alike : Alike view ms ns)
    (less : view ms = view ns → other ms = other ns) : Alike other ms ns :=
  ⟨alike.same, alike.running, less alike.shown⟩

/-- Where a view shows nodes one behind the other, parts can be exchanged. -/
theorem append {view : List Node → List γ} (additive : ∀ ms ns, view (ms ++ ns) = view ms ++ view ns)
    (front : Alike view ks ls) (back : Alike view ms ns) : Alike view (ks ++ ms) (ls ++ ns) := by
  refine ⟨?_, ?_, ?_⟩
  · rw [normals_append, normals_append, front.same, back.same]
  · rw [List.all_append, List.all_append, front.running, back.running]
  · rw [additive, additive, front.shown, back.shown]

end Alike

section

variable {o : Options} {level : Int}

theorem all_isRunning_textNodes (text : Text) : (textNodes text).all Node.isRunning = true := by
  by_cases empty : text = [] <;> simp [textNodes, empty, Node.isRunning]

theorem inlineText_textNodes (text : Text) : inlineText o (textNodes text) = collapseBlanks text := by
  by_cases empty : text = []
  · rw [empty]
    rfl
  · rw [textNodes, if_neg empty]
    exact List.append_nil _

/-- Lines show of a text what it is squashed to. -/
theorem blockLines_text (value : Text) :
    blockLines o level [.text value] =
      if squash value = [] then [] else [o.indent level ++ squash value] := by
  have printed : (Node.text value).print o level =
      if squash value = [] then [] else o.indent level ++ squash value := by
    rw [Node.print, squash]
    by_cases empty : trim (collapseBlanks value) = [] <;> simp [empty]
  rw [blockLines_cons, printed]
  by_cases empty : squash value = []
  · rw [if_pos empty, if_pos empty]
    rfl
  · have shown : isBlankText (o.indent level ++ squash value) = false := by
      rw [isBlankText, List.all_append, ← isBlankText, ← isBlankText, not_isBlankText_squash empty,
        Bool.and_false]
    rw [if_neg empty, if_neg empty, visible, List.filter_cons_of_pos (by rw [shown]; rfl)]
    rfl

theorem blockLines_textNodes (text : Text) :
    blockLines o level (textNodes text) = blockLines o level [.text text] := by
  by_cases empty : text = []
  · rw [empty]
    rfl
  · rw [textNodes, if_neg empty]

/-- On lines of their own texts are alike that are squashed to the same. -/
theorem alike_lines_text {a value : Text} (same : squash a = squash value) :
    Alike (blockLines o level) (textNodes a) [.text value] := by
  refine ⟨?_, all_isRunning_textNodes a, ?_⟩
  · rw [normals_textNodes, same]
    exact (List.append_nil _).symm
  · rw [blockLines_textNodes, blockLines_text, blockLines_text, same]

theorem alike_lines_textNodes {a b : Text} (same : squash a = squash b) :
    Alike (blockLines o level) (textNodes a) (textNodes b) :=
  (alike_lines_text same).trans (alike_lines_text rfl).symm

theorem alike_lines_blanks {blanks : Text} (blank : Blanks blanks) :
    Alike (blockLines o level) (textNodes blanks) [] :=
  @alike_lines_textNodes o level blanks [] (squash_of_blank blank.isBlank)

/-- Within a line a text is like the one that is written for it. -/
theorem alike_line_text (value : Text) :
    Alike (inlineText o) (textNodes (collapseBlanks value)) [.text value] := by
  refine ⟨?_, all_isRunning_textNodes _, ?_⟩
  · rw [normals_textNodes, squash_collapseBlanks]
    exact (List.append_nil _).symm
  · rw [inlineText_textNodes, collapseBlanks_collapseBlanks]
    exact (List.append_nil _).symm

end

/-! ## Reading a list of nodes -/

/-- Nodes that are read one after the other. -/
inductive ItemsRun (item : List Tok → Node → List Tok → Prop) :
    List Tok → List Node → List Tok → Prop
  | done {ts : List Tok} : ItemsRun item ts [] ts
  | next {ts between rest : List Tok} {n : Node} {ns : List Node} (here : item ts n between)
      (later : ItemsRun item between ns rest) : ItemsRun item ts (n :: ns) rest

section

variable {item : List Tok → Node → List Tok → Prop} {ts between rest : List Tok} {ns : List Node}

theorem ItemsRun.append {ms : List Node} (first : ItemsRun item ts ns between)
    (second : ItemsRun item between ms rest) : ItemsRun item ts (ns ++ ms) rest := by
  induction first with
  | done => exact second
  | next here later ih => exact .next here (ih second)

theorem ItemsRun.content {tag : Text} (run : ItemsRun item ts ns between)
    (closes : CloseRun tag between rest) : ContentRun item tag ts ns rest := by
  induction run with
  | done => exact .stop closes
  | next here later ih => exact .next here (ih closes)

theorem ItemsRun.document (run : ItemsRun item ts ns []) : DocumentRun item ts ns := by
  generalize none : ([] : List Tok) = rest at run
  induction run with
  | done =>
      subst none
      exact .stop
  | next here later ih => exact .next here (ih none)

end

/-! ## Laid out nodes -/

/-- The text is read as the node wherever it stands, and it opens and ends so that
text around it is not taken for part of it. -/
structure Solid (item : List Tok → Node → List Tok → Prop) (x : Text) (n : Node) : Prop where
  reads (w : Text) : Lexes [] x w [] fun toks => ∀ rest, item (toks ++ rest) n rest
  opens : x.head? = some '<' ∨ startsWith x ['{', '{'] = true
  ends : ∃ c ∈ x.getLast?, isBlank c = false

/-- Nodes with text `lead` in front of them and text between them. -/
inductive Content (item : List Tok → Node → List Tok → Prop) : Text → Text → List Node → Prop
  | done {lead : Text} (plain : Plain lead) : Content item lead [] []
  | more {lead x later text : Text} {n : Node} {ns : List Node} (plain : Plain lead)
      (apart : lead.getLast? = some '{' → x.head? ≠ some '{') (solid : Solid item x n)
      (content : Content item later text ns) :
      Content item lead (x ++ (later ++ text)) (n :: (textNodes later ++ ns))

theorem head?_append_of_some {x y : Text} {c : Char} (first : x.head? = some c) :
    (x ++ y).head? = some c := by
  rw [List.head?_append, first]
  rfl

section

variable {item : List Tok → Node → List Tok → Prop} {lead text : Text} {ns : List Node}

theorem Solid.head? {x : Text} {n : Node} (solid : Solid item x n) :
    ∃ c, x.head? = some c ∧ isBlank c = false := by
  rcases solid.opens with isTag | isMark
  · exact ⟨'<', isTag, by decide⟩
  · cases x with
    | nil => cases isMark
    | cons c x =>
        simp only [startsWith, List.isPrefixOf, Bool.and_eq_true, beq_iff_eq] at isMark
        exact ⟨c, rfl, by rw [← isMark.1]; decide⟩

/-- The text in front can be another one. -/
theorem Content.withLead (content : Content item lead text ns) {other : Text} (plain : Plain other)
    (apart : other.getLast? = some '{' → text.head? ≠ some '{') : Content item other text ns := by
  cases content with
  | done _ => exact .done plain
  | @more _ x later text n ns _ _ solid content =>
      refine .more plain ?_ solid content
      obtain ⟨c, first, -⟩ := solid.head?
      intro last
      have front := apart last
      rwa [head?_append_of_some first, ← first] at front

/-- Laid out nodes are read one after the other. -/
theorem lexes_content (readsText : ∀ {t : Tok} {rest : List Tok}, t.kind = .text →
      item (t :: rest) (.text t.text) rest)
    (content : Content item lead text ns) {w : Text} (ends : w = [] ∨ w.head? = some '<') :
    Lexes [] (lead ++ text) w [] fun toks =>
      ∀ rest, ItemsRun item (toks ++ rest) (textNodes lead ++ ns) rest := by
  have front : ∀ {lead w : Text}, Plain lead → (lead ≠ [] → Meets lead w) →
      Lexes [] lead w [] fun toks => ∀ rest, ItemsRun item (toks ++ rest) (textNodes lead) rest := by
    intro lead w plain meets place
    by_cases empty : lead = []
    · subst empty
      exact ⟨[], .nil _, fun rest => .done⟩
    · obtain ⟨_, steps, t, rfl, kind, text⟩ := lexes_text plain empty (meets empty) place
      refine ⟨[t], steps, fun rest => ?_⟩
      rw [textNodes, if_neg empty, ← text]
      exact .next (readsText kind) .done
  induction content with
  | @done lead plain =>
      rw [List.append_nil, List.append_nil]
      exact front plain fun _ => ends.imp id .inl
  | @more lead x later text n ns plain apart solid content ih =>
      have meets : Meets lead (x ++ (later ++ text) ++ w) := by
        refine .inr ?_
        rw [List.append_assoc]
        rcases solid.opens with isTag | isMark
        · exact .inl (head?_append_of_some isTag)
        · refine .inr ⟨?_, fun last => ?_⟩
          · obtain ⟨rest, rfl⟩ := List.isPrefixOf_iff_prefix.1 isMark
            rfl
          · obtain ⟨rest, rfl⟩ := List.isPrefixOf_iff_prefix.1 isMark
            exact apart last rfl
      have here : Lexes [] (x ++ (later ++ text)) w [] fun toks =>
          ∀ rest, ItemsRun item (toks ++ rest) (n :: (textNodes later ++ ns)) rest := by
        refine (solid.reads _).append ih ?_
        intro a b first second rest
        rw [List.append_assoc]
        exact .next (first _) (second rest)
      refine (front plain fun _ => meets).append here ?_
      intro a b first second rest
      rw [List.append_assoc]
      exact (first _).append (second rest)

/-- Blanks at the front of laid out nodes can go. -/
theorem Content.trimStart (o : Options) (content : Content item lead text ns) :
    Text.trimStart (lead ++ text) = Text.trimStart lead ++ text ∧
      Content item (Text.trimStart lead) text ns ∧
      Alike (fun ns => Text.trimStart (inlineText o ns)) (textNodes (Text.trimStart lead) ++ ns)
        (textNodes lead ++ ns) := by
  have visible : ∀ c ∈ text.head?, isBlank c = false := by
    intro c first
    cases content with
    | done plain => cases first
    | more plain apart solid content =>
        obtain ⟨d, front, visible⟩ := solid.head?
        rw [head?_append_of_some front] at first
        cases first
        exact visible
  refine ⟨trimStart_append visible, ?_, ?_, ?_, ?_⟩
  · cases content with
    | done plain => exact .done (plain_trimStart plain)
    | more plain apart solid content =>
        refine .more (plain_trimStart plain) (fun last => apart ?_) solid content
        have split : lead.takeWhile isBlank ++ Text.trimStart lead = lead :=
          List.takeWhile_append_dropWhile
        rw [← split, List.getLast?_append, last]
        rfl
  · rw [normals_append, normals_append, normals_textNodes, normals_textNodes, squash_trimStart]
  · rw [List.all_append, List.all_append, all_isRunning_textNodes, all_isRunning_textNodes]
  · simp only [inlineText_append, inlineText_textNodes, collapseBlanks, ← trimStart_squeeze false]
    exact trimStart_trimStart_append _ _

/-- Blanks at the end of laid out nodes can go. -/
theorem Content.trimEnd (o : Options) (content : Content item lead text ns) :
    ∃ lead' text' ns', Text.trimEnd (lead ++ text) = lead' ++ text' ∧ Content item lead' text' ns' ∧
      Alike (fun ns => Text.trimEnd (inlineText o ns)) (textNodes lead' ++ ns')
        (textNodes lead ++ ns) := by
  induction content with
  | @done lead plain =>
      refine ⟨Text.trimEnd lead, [], [], by simp, .done (plain_trimEnd plain), ?_, ?_, ?_⟩
      · simp only [List.append_nil, normals_textNodes, squash_trimEnd]
      · simp only [List.append_nil, all_isRunning_textNodes]
      · simp only [List.append_nil, inlineText_textNodes]
        exact trimEnd_collapseBlanks_trimEnd lead
  | @more lead x later text n ns plain apart solid content ih =>
      obtain ⟨later', text', ns', split, content', alike⟩ := ih
      refine ⟨lead, x ++ (later' ++ text'), n :: (textNodes later' ++ ns'), ?_,
        .more plain apart solid content', ?_, ?_, ?_⟩
      · have visible : ∃ c ∈ (lead ++ x).getLast?, isBlank c = false := by
          obtain ⟨c, last, visible⟩ := solid.ends
          refine ⟨c, ?_, visible⟩
          rw [List.getLast?_append, last]
          rfl
        rw [← List.append_assoc, trimEnd_append visible, split, List.append_assoc]
      · rw [normals_append, normals_append, normals, normals, alike.same]
      · rw [List.all_append, List.all_append, List.all_cons, List.all_cons, alike.running]
      · have apart : ∀ ks, inlineText o (textNodes lead ++ n :: ks) =
            inlineText o (textNodes lead ++ [n]) ++ inlineText o ks := by
          intro ks
          rw [← inlineText_append, List.append_assoc, List.singleton_append]
        show Text.trimEnd (inlineText o _) = Text.trimEnd (inlineText o _)
        rw [apart (textNodes later' ++ ns'), apart (textNodes later ++ ns), ← trimEnd_append_trimEnd,
          alike.shown, trimEnd_append_trimEnd]

/-- Blanks at both ends of laid out nodes can go. -/
theorem Content.trim (o : Options) (content : Content item lead text ns) :
    ∃ lead' text' ns', Text.trim (lead ++ text) = lead' ++ text' ∧ Content item lead' text' ns' ∧
      Alike (fun ns => Text.trim (inlineText o ns)) (textNodes lead' ++ ns')
        (textNodes lead ++ ns) := by
  obtain ⟨front, content', first⟩ := content.trimStart o
  obtain ⟨lead', text', ns', split, trimmed, second⟩ := content'.trimEnd o
  refine ⟨lead', text', ns', ?_, trimmed, ?_⟩
  · rw [Text.trim, front, split]
  · refine (second.coarsen fun shown => ?_).trans (first.coarsen fun shown => ?_)
    · rw [← trim_trimEnd, shown, trim_trimEnd]
    · rw [← trim_trimStart, shown, trim_trimStart]

end

theorem indent_zero (o : Options) : o.indent 0 = [] := rfl

/-! ## The two layouts -/

/-- The second node is the first up to layout, and it is laid out as the first is. -/
structure Node.StandsFor (o : Options) (level : Int) (n' n : Node) : Prop where
  notText : ∀ value, n' ≠ .text value
  same : n'.normal = n.normal
  running : n'.isRunning = n.isRunning
  print : n'.print o level = n.print o level

/-- At every level the printed node, behind its indentation, is read back as the
node up to layout. -/
structure Prints (item : List Tok → Node → List Tok → Prop) (o : Options) (n : Node) : Prop where
  notText : ∀ value, n ≠ .text value
  back (level : Int) : ∃ x n', n.print o level = o.indent level ++ x ∧ Solid item x n' ∧
    n'.StandsFor o level n ∧ (x.head? = some '{' → ∃ e, n = .interpolation e)

/-- The node can be laid out: it is plain text or prints back. -/
inductive Laid (item : List Tok → Node → List Tok → Prop) (o : Options) : Node → Prop
  | text {value : Text} (plain : Plain value) : Laid item o (.text value)
  | solid {n : Node} (prints : Prints item o n) : Laid item o n

section

variable {item : List Tok → Node → List Tok → Prop} {o : Options} {ns : List Node}

theorem SoundNodes.tail {known : Node → Prop} {n : Node} (sound : SoundNodes known (n :: ns)) :
    SoundNodes known ns :=
  ⟨(List.forall_mem_cons.1 sound.each).2, (List.isChain_cons.1 sound.chain).2⟩

theorem inlineText_solid {n : Node} (notText : ∀ value, n ≠ .text value) :
    inlineText o [n] = n.print o 0 := by
  cases n with
  | text value => exact absurd rfl (notText value)
  | _ =>
      simp only [inlineText, printInline, Node.print, indent_zero, List.nil_append, List.flatten_cons,
        List.flatten_nil, List.append_nil]

theorem Node.StandsFor.line {n' n : Node} (stands : n'.StandsFor o 0 n)
    (notText : ∀ value, n ≠ .text value) : Alike (inlineText o) [n'] [n] := by
  refine ⟨?_, ?_, ?_⟩
  · simp only [normals, stands.same]
  · rw [List.all_cons, List.all_cons, stands.running]
  · rw [inlineText_solid stands.notText, inlineText_solid notText, stands.print]

theorem Node.StandsFor.lines {n' n : Node} {level : Int} (stands : n'.StandsFor o level n) :
    Alike (blockLines o level) [n'] [n] := by
  refine ⟨?_, ?_, ?_⟩
  · simp only [normals, stands.same]
  · rw [List.all_cons, List.all_cons, stands.running]
  · rw [blockLines_cons, blockLines_cons, stands.print]

/-- Nodes within a line.  Where text may stand in front of them, they open with none
of their own. -/
theorem exists_content_inline (sound : SoundNodes (Laid item o) ns) :
    ∃ lead text ns', inlineText o ns = lead ++ text ∧ Content item lead text ns' ∧
      Alike (inlineText o) (textNodes lead ++ ns') ns ∧
      ∀ value, (∀ n ∈ ns.head?, (Node.text value).MayPrecede n) →
        lead = [] ∧ (value.getLast? = some '{' → text.head? ≠ some '{') := by
  induction ns with
  | nil => exact ⟨[], [], [], rfl, .done ⟨by simp, .nil⟩, .refl _ _, fun _ _ => ⟨rfl, by simp⟩⟩
  | cons n ns ih =>
      obtain ⟨lead, text, ns', split, content, alike, front⟩ := ih sound.tail
      have first : inlineText o (n :: ns) = inlineText o [n] ++ (lead ++ text) := by
        rw [← List.singleton_append, inlineText_append, split]
      cases sound.each n List.mem_cons_self with
      | @text value plain =>
          obtain ⟨rfl, apart⟩ := front value (List.isChain_cons.1 sound.chain).1
          refine ⟨collapseBlanks value, text, ns', ?_, ?_, ?_, ?_⟩
          · rw [first, ← (alike_line_text value).shown, inlineText_textNodes,
              collapseBlanks_collapseBlanks, List.nil_append]
          · exact content.withLead (plain_collapseBlanks plain) fun last =>
              apart (getLast?_squeeze last (by decide))
          · exact (alike_line_text value).append (inlineText_append o) alike
          · intro other follows
            exact (follows _ rfl).elim
      | solid prints =>
          obtain ⟨x, n', printed, solid, stands, brace⟩ := prints.back 0
          rw [indent_zero, List.nil_append] at printed
          refine ⟨[], x ++ (lead ++ text), n' :: (textNodes lead ++ ns'), ?_, ?_, ?_, ?_⟩
          · rw [first, inlineText_solid prints.notText, printed, List.nil_append]
          · exact .more ⟨by simp, .nil⟩ (by simp) solid content
          · exact (stands.line prints.notText).append (inlineText_append o) alike
          · intro value follows
            refine ⟨rfl, fun last first => ?_⟩
            obtain ⟨c, head, -⟩ := solid.head?
            rw [head?_append_of_some head, ← head] at first
            obtain ⟨e, rfl⟩ := brace first
            exact follows _ rfl last

/-- Blanks can be written in front of laid out nodes. -/
theorem Content.indented {lead text blanks : Text} (content : Content item lead text ns)
    (areBlanks : Blanks blanks) : Content item (blanks ++ lead) text ns := by
  cases content with
  | done plain => exact .done (plain_blanks_append areBlanks plain)
  | more plain apart solid content =>
      refine .more (plain_blanks_append areBlanks plain) (fun last => apart ?_) solid content
      rw [List.getLast?_append] at last
      cases ends : lead.getLast? with
      | none =>
          rw [ends] at last
          exact absurd last (areBlanks.getLast?_ne (by decide))
      | some c =>
          rw [ends] at last
          exact last

theorem blockLines_solid {n : Node} {level : Int} {c : Char} (member : c ∈ n.print o level)
    (isVisible : isBlank c = false) : blockLines o level [n] = [n.print o level] := by
  rw [blockLines_cons, visible, List.filter_cons_of_pos]
  · rfl
  · rw [Bool.not_eq_true', isBlankText, List.all_eq_false]
    exact ⟨c, member, by simp [isVisible]⟩

/-- Nodes on lines of their own, behind a line break and in front of a last one.
Where text may stand in front of them, they open with blanks. -/
theorem exists_content_block (eolBlank : Blanks o.eol) (eolSome : o.eol ≠ []) (level : Int)
    {tail : Text} (tailBlank : Blanks tail) (sound : SoundNodes (Laid item o) ns) :
    ∃ lead text ns', (blockLines o level ns).flatMap (o.eol ++ ·) ++ (o.eol ++ tail) =
        o.eol ++ (lead ++ text) ∧ Content item lead text ns' ∧
      Alike (blockLines o level) (textNodes lead ++ ns') ns ∧
      ∀ value, (∀ n ∈ ns.head?, (Node.text value).MayPrecede n) → Blanks lead := by
  have additive := blockLines_append o level
  induction ns with
  | nil =>
      refine ⟨tail, [], [], by simp [blockLines, printBlock, visible], .done (plain_blanks tailBlank),
        ?_, fun _ _ => tailBlank⟩
      rw [List.append_nil]
      exact alike_lines_blanks tailBlank
  | cons n ns ih =>
      obtain ⟨lead, text, ns', split, content, alike, front⟩ := ih sound.tail
      have first : (blockLines o level (n :: ns)).flatMap (o.eol ++ ·) ++ (o.eol ++ tail) =
          (blockLines o level [n]).flatMap (o.eol ++ ·) ++ (o.eol ++ (lead ++ text)) := by
        rw [← List.singleton_append, additive, List.flatMap_append, List.append_assoc, split]
      cases sound.each n List.mem_cons_self with
      | @text value plain =>
          have leadBlank := front value (List.isChain_cons.1 sound.chain).1
          have vacuous : ∀ other, (∀ n ∈ (Node.text value :: ns).head?,
              (Node.text other).MayPrecede n) → ∀ lead : Text, Blanks lead :=
            fun other follows => (follows _ rfl).elim
          by_cases empty : squash value = []
          · refine ⟨lead, text, ns', ?_, content, ?_, fun other follows => vacuous other follows _⟩
            · rw [first, blockLines_text, if_pos empty]
              rfl
            · have gone : Alike (blockLines o level) [] [.text value] :=
                @alike_lines_text o level [] value empty.symm
              exact gone.append additive alike
          · have ends : Blanks (o.eol ++ lead) := eolBlank.append leadBlank
            refine ⟨o.indent level ++ (squash value ++ (o.eol ++ lead)), text, ns', ?_, ?_, ?_,
              fun other follows => vacuous other follows _⟩
            · rw [first, blockLines_text, if_neg empty, List.flatMap_singleton]
              simp only [List.append_assoc]
            · refine content.withLead (plain_blanks_append (blanks_indent o level)
                (plain_append_blanks (plain_squash plain) ends)) fun last => absurd last ?_
              -- A line break follows the text, so no brace stands at its end.
              rw [List.getLast?_append, List.getLast?_append]
              cases last : (o.eol ++ lead).getLast? with
              | none => simp [eolSome] at last
              | some d =>
                  intro same
                  cases same
                  exact ends.getLast?_ne (by decide) last
            · have squashed : squash (o.indent level ++ (squash value ++ (o.eol ++ lead))) =
                  squash value := by
                rw [squash_blank_append _ (blanks_indent o level).isBlank,
                  squash_append_blank _ ends.isBlank, squash_squash]
              have later : Alike (blockLines o level) ns' ns :=
                ((alike_lines_blanks leadBlank).symm.append additive (.refl _ ns')).trans alike
              exact (alike_lines_text squashed).append additive later
      | solid prints =>
          obtain ⟨x, n', printed, solid, stands, brace⟩ := prints.back level
          refine ⟨o.indent level, x ++ ((o.eol ++ lead) ++ text),
            n' :: (textNodes (o.eol ++ lead) ++ ns'), ?_, ?_, ?_, fun _ _ => blanks_indent o level⟩
          · obtain ⟨c, head, isVisible⟩ := solid.head?
            have member : c ∈ n.print o level := by
              rw [printed]
              exact List.mem_append_right _ (List.mem_of_mem_head? head)
            rw [first, blockLines_solid member isVisible, List.flatMap_singleton, printed]
            simp only [List.append_assoc]
          · exact .more (plain_blanks (blanks_indent o level))
              (fun last => absurd last ((blanks_indent o level).getLast?_ne (by decide))) solid
              (content.indented eolBlank)
          · have later : Alike (blockLines o level) (textNodes (o.eol ++ lead) ++ ns') ns :=
              ((alike_lines_textNodes (squash_blank_append _ eolBlank.isBlank)).append additive
                (.refl _ ns')).trans alike
            exact (alike_lines_blanks (blanks_indent o level)).append additive
              (stands.lines.append additive later)

end

end UiFormat.Markup

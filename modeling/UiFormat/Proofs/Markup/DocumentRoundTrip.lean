/-
# UiFormat.Proofs.Markup.DocumentRoundTrip -- formatting keeps the document

A document that was parsed without errors is printed as a text that is parsed
without errors again, to the same document up to layout (`normals_parse_format`),
provided that its nodes survive printing (`Node.survives`): no number runs on into
the point of a member, parentheses that are added stay below the limits, no bare
interpolation has a double quote in it, and no opening tag ends with the slash of an
unquoted value.

The proof goes up the levels of open elements: the children of an element can be
laid out, so the element prints back, so it can be laid out itself.
-/
import UiFormat.Proofs.Markup.DocumentLayout
import UiFormat.Format

namespace UiFormat.Markup

open UiFormat.Text
open UiFormat.Parse

set_option autoImplicit false

/-! ## Tags -/

theorem join_cons (separator part : Text) (parts : List Text) :
    join separator (part :: parts) = part ++ parts.flatMap (separator ++ ·) := by
  induction parts generalizing part with
  | nil => rw [join, List.flatMap_nil, List.append_nil]
  | cons next parts ih => rw [join, ih next, List.flatMap_cons, List.append_assoc, List.append_assoc]

/-- Attributes stand behind the same blanks each. -/
theorem exists_printAttributes_eq {o : Options} (eolBlank : Blanks o.eol) (eolSome : o.eol ≠ [])
    (level : Int) (as : List Attribute) :
    ∃ sep, Blanks sep ∧ sep ≠ [] ∧
      printAttributes o level as = as.flatMap fun a => sep ++ a.print := by
  cases as with
  | nil => exact ⟨[' '], (by decide), by simp, rfl⟩
  | cons a as =>
      simp only [printAttributes, List.isEmpty_cons, Bool.false_eq_true, if_false]
      split
      · refine ⟨[' '], (by decide), by simp, ?_⟩
        rw [List.map_cons, join_cons, List.flatMap_cons, List.flatMap_map, List.append_assoc]
      · refine ⟨o.eol ++ o.indent (level + 1), eolBlank.append (blanks_indent o _), by simp [eolSome],
          ?_⟩
        rw [List.flatMap_map]

section

variable (closing : Tok) {tag w sep : Text} {as : List Attribute}

/-- An opening tag is read back up to its end. -/
theorem lexes_head (isName : IsName tag) (sound : ∀ a ∈ as, SoundAttribute a)
    (survive : ∀ a ∈ as, a.value.survives = true) (sepBlank : Blanks sep) (sepSome : sep ≠ [])
    {stop : Text} {kind : Kind} (isEnd : kind = .tagEnd ∨ kind = .tagSelfClose)
    (stops : Lexes [.tag] stop w [] fun toks => ∃ t : Tok, toks = [t] ∧ t.kind = kind)
    (ends : EndsValue (trailing as) (stop ++ w)) :
    Lexes [] (['<'] ++ (tag ++ ((as.flatMap fun a => sep ++ a.print) ++ stop))) w [] fun toks =>
      ∃ opening name t : Tok, ∃ ts, toks = opening :: name :: (ts ++ [t]) ∧ opening.kind = .tagOpen ∧
        name.kind = .name ∧ name.text = tag ∧ t.kind = kind ∧
        ∀ rest, AttributesRun closing fragment? (ts ++ t :: rest) (as.map Attribute.reread)
          (t :: rest) := by
  have attributes : Lexes [.tag] ((as.flatMap fun a => sep ++ a.print) ++ stop) w [] fun toks =>
      ∃ t : Tok, ∃ ts, toks = ts ++ [t] ∧ t.kind = kind ∧
        ∀ rest, AttributesRun closing fragment? (ts ++ t :: rest) (as.map Attribute.reread)
          (t :: rest) := by
    have printed : Lexes [.tag] (as.flatMap fun a => sep ++ a.print) (stop ++ w) [.tag] fun toks =>
        ∀ (t : Tok) (rest : List Tok), t.kind = .tagEnd ∨ t.kind = .tagSelfClose →
          AttributesRun closing fragment? (toks ++ t :: rest) (as.map Attribute.reread)
            (t :: rest) := by
      intro place
      obtain ⟨toks, steps, run⟩ :=
        exists_steps_attributes closing [] sepBlank sepSome sound survive ends place
      exact ⟨toks, steps, fun t rest kind => (run t rest kind).2⟩
    refine printed.append stops ?_
    rintro ts _ run ⟨t, rfl, isKind⟩
    refine ⟨t, ts, rfl, isKind, fun rest => run t rest ?_⟩
    rwa [isKind]
  have clear : Clear isNameChar (((as.flatMap fun a => sep ++ a.print) ++ stop) ++ w) := by
    rw [List.append_assoc]
    refine clear_append ?_ ends.clear
    intro c first
    cases as with
    | nil => cases first
    | cons a as =>
        obtain ⟨d, sep, rfl⟩ := List.exists_cons_of_ne_nil sepSome
        cases first
        exact isNameChar_of_plainBlank (sepBlank _ List.mem_cons_self)
  have named : Lexes [.tag] (tag ++ ((as.flatMap fun a => sep ++ a.print) ++ stop)) w [] fun toks =>
      ∃ name t : Tok, ∃ ts, toks = name :: (ts ++ [t]) ∧ name.kind = .name ∧ name.text = tag ∧
        t.kind = kind ∧ ∀ rest, AttributesRun closing fragment? (ts ++ t :: rest)
          (as.map Attribute.reread) (t :: rest) := by
    refine (lexes_name isName clear).append attributes ?_
    rintro _ _ ⟨name, rfl, isName, text⟩ ⟨t, ts, rfl, isKind, run⟩
    exact ⟨name, t, ts, rfl, isName, text, isKind, run⟩
  obtain ⟨c, r, rfl, isStart, -⟩ := isName
  refine (lexes_tagOpen isStart).append named ?_
  rintro _ _ ⟨opening, rfl, opens, -⟩ ⟨name, t, ts, rfl, isName, text, isKind, run⟩
  exact ⟨opening, name, t, ts, rfl, opens, isName, text, isKind, run⟩

/-- A closing tag is read back. -/
theorem lexes_close (isName : IsName tag) :
    Lexes [] (['<', '/'] ++ (tag ++ ['>'])) w [] fun toks =>
      ∀ rest, CloseRun tag (toks ++ rest) rest := by
  have clear : Clear isNameChar (['>'] ++ w) := by
    intro c first
    cases first
    decide
  have named : Lexes [.tag] (tag ++ ['>']) w [] fun toks =>
      ∃ name stop : Tok, toks = [name, stop] ∧ name.kind = .name ∧ name.text = tag ∧
        stop.kind = .tagEnd := by
    refine (lexes_name isName clear).append lexes_tagEnd ?_
    rintro _ _ ⟨name, rfl, isName, text⟩ ⟨stop, rfl, stops, -⟩
    exact ⟨name, stop, rfl, isName, text, stops⟩
  refine lexes_tagClose.append named ?_
  rintro _ _ ⟨opening, rfl, opens, -⟩ ⟨name, stop, rfl, isName, text, stops⟩ rest
  exact .run opens isName text stops

end

/-! ## Nodes -/

mutual

/-- The printed node can be read back: its expressions and attributes can, and the
end of its opening tag is not taken for that of an element without content. -/
def Node.survives : Node → Bool
  | .element _ attributes children selfClosing =>
      attributes.all (fun a => a.value.survives)
        && (selfClosing || (trailing attributes).getLast? != some '/') && allSurvive children
  | .interpolation e => e.survives
  | _ => true

/-- All of the printed nodes can be read back. -/
def allSurvive : List Node → Bool
  | [] => true
  | n :: rest => n.survives && allSurvive rest

end

theorem survives_of_mem {ns : List Node} (all : allSurvive ns = true) {n : Node} (member : n ∈ ns) :
    n.survives = true := by
  induction ns with
  | nil => cases member
  | cons m ns ih =>
      rw [allSurvive, Bool.and_eq_true] at all
      rcases List.mem_cons.1 member with rfl | later
      · exact all.1
      · exact ih all.2 later

theorem map_normal_reread (as : List Attribute) :
    (as.map Attribute.reread).map Attribute.normal = as.map Attribute.normal := by
  rw [List.map_map]
  exact List.map_congr_left fun a _ => normal_reread a

/-- What is read back of attributes is printed as they were. -/
theorem printAttributes_reread (o : Options) (level : Int) (as : List Attribute) :
    printAttributes o level (as.map Attribute.reread) = printAttributes o level as := by
  have parts : (as.map Attribute.reread).map Attribute.print = as.map Attribute.print := by
    rw [List.map_map]
    exact List.map_congr_left fun a _ => print_reread a
  simp only [printAttributes, parts, List.isEmpty_map]

section

variable {o : Options} {level : Int} {tag : Text} {as : List Attribute}

/-- An element without content, with its attributes read back. -/
theorem standsFor_closed :
    (Node.element tag (as.map Attribute.reread) [] true).StandsFor o level (.element tag as [] true) := by
  refine ⟨by simp, ?_, rfl, ?_⟩
  · rw [Node.normal, Node.normal, map_normal_reread]
  · simp only [Node.print, printAttributes_reread]

variable {ms ns : List Node}

/-- An element whose content is written within a line, with its parts read back. -/
theorem standsFor_inline (layout : isInline tag ns = true)
    (alike : Alike (fun ns => trim (inlineText o ns)) ms ns) :
    (Node.element tag (as.map Attribute.reread) ms false).StandsFor o level (.element tag as ns false) := by
  have again : isInline tag ms = true := by rwa [isInline, alike.running]
  refine ⟨by simp, ?_, rfl, ?_⟩
  · rw [Node.normal, Node.normal, map_normal_reread, alike.same]
  · have shown : trim (printInline o ms).flatten = trim (printInline o ns).flatten := alike.shown
    simp only [Node.print, printAttributes_reread, layout, again, shown, if_true]

/-- An element whose content is written on lines of its own, with its parts read
back. -/
theorem standsFor_block (layout : isInline tag ns = false)
    (alike : Alike (blockLines o (level + 1)) ms ns) :
    (Node.element tag (as.map Attribute.reread) ms false).StandsFor o level (.element tag as ns false) := by
  have again : isInline tag ms = false := by rwa [isInline, alike.running]
  refine ⟨by simp, ?_, rfl, ?_⟩
  · rw [Node.normal, Node.normal, map_normal_reread, alike.same]
  · have shown : visible (printBlock o (level + 1) ms) = visible (printBlock o (level + 1) ns) :=
      alike.shown
    simp only [Node.print, printAttributes_reread, layout, again, shown, Bool.false_eq_true, if_false]

end

section

variable {closing : Tok} {content : Text → List Tok → List Node → List Tok → Prop} {o : Options}

theorem prints_comment {value : Text} (isBody : IsCommentBody value) :
    Prints (NodeStep closing fragment? content) o (.comment value) := by
  refine ⟨by simp, fun level => ⟨printComment value, .comment value, rfl, ⟨?_, .inl rfl, ?_⟩,
    ⟨by simp, rfl, rfl, rfl⟩, ?_⟩⟩
  · intro w
    refine (lexes_comment isBody).mono ?_
    rintro _ ⟨t, rfl, kind, text⟩ rest
    rw [← text]
    exact .comment kind
  · have shape : printComment value = ("<!--".toList ++ value ++ ['-', '-']) ++ ['>'] := by
      simp [printComment]
    exact ⟨'>', by rw [shape, List.getLast?_concat]; rfl, by decide⟩
  · intro impossible
    cases impossible

theorem prints_interpolation {e : Expr} (spellable : Spellable (Spells expressionLimit) e)
    (survives : e.survives = true) :
    Prints (NodeStep closing fragment? content) o (.interpolation e) := by
  refine ⟨by simp, fun level =>
    ⟨interpolated e, .interpolation e.parenthesized, rfl, ⟨?_, .inr rfl, ?_⟩, ?_, fun _ => ⟨e, rfl⟩⟩⟩
  · intro w
    exact (lexes_interpolated spellable survives (by decide)).mono fun toks run rest =>
      .interpolation (run rest)
  · have shape : interpolated e = (['{', '{', ' '] ++ e.print ++ [' ', '}']) ++ ['}'] := by
      simp [interpolated]
    exact ⟨'}', by rw [shape, List.getLast?_concat]; rfl, by decide⟩
  · refine ⟨by simp, ?_, rfl, ?_⟩
    · rw [Node.normal, Node.normal, ungrouped_parenthesized]
    · rw [Node.print, Node.print, interpolated, interpolated, print_parenthesized]

section

variable {tag : Text} {as : List Attribute} (isName : IsName tag)
  (sound : ∀ a ∈ as, SoundAttribute a) (survive : ∀ a ∈ as, a.value.survives = true)

include isName sound survive

theorem prints_closed (eolBlank : Blanks o.eol) (eolSome : o.eol ≠ []) :
    Prints (NodeStep closing fragment? content) o (.element tag as [] true) := by
  refine ⟨by simp, fun level => ?_⟩
  obtain ⟨sep, sepBlank, sepSome, printed⟩ := exists_printAttributes_eq eolBlank eolSome level as
  refine ⟨['<'] ++ (tag ++ ((as.flatMap fun a => sep ++ a.print) ++ [' ', '/', '>'])),
    .element tag (as.map Attribute.reread) [] true, ?_, ⟨?_, .inl rfl, ?_⟩, standsFor_closed, ?_⟩
  · simp [Node.print, printed]
  · intro w
    have stops : Lexes [.tag] [' ', '/', '>'] w [] fun toks =>
        ∃ t : Tok, toks = [t] ∧ t.kind = .tagSelfClose := by
      have mark : Lexes [.tag] ['/', '>'] w [] fun toks =>
          ∃ t : Tok, toks = [t] ∧ t.kind = .tagSelfClose := by
        refine lexes_tagSelfClose.mono ?_
        rintro _ ⟨t, rfl, kind, -⟩
        exact ⟨t, rfl, kind⟩
      exact mark.blanks (by decide) (by simp) (by decide : Blanks [' '])
    have ends : EndsValue (trailing as) ([' ', '/', '>'] ++ w) := ⟨' ', rfl, .inl (by decide)⟩
    refine (lexes_head closing isName sound survive sepBlank sepSome (.inr rfl) stops ends).mono ?_
    rintro _ ⟨opening, name, t, ts, rfl, opens, named, rfl, kind, run⟩ rest
    simp only [List.cons_append, List.append_assoc, List.nil_append]
    exact .closed opens (.selfClosed named (run rest) kind)
  · have shape : ['<'] ++ (tag ++ ((as.flatMap fun a => sep ++ a.print) ++ [' ', '/', '>'])) =
        (['<'] ++ (tag ++ ((as.flatMap fun a => sep ++ a.print) ++ [' ', '/']))) ++ ['>'] := by simp
    exact ⟨'>', by rw [shape, List.getLast?_concat]; rfl, by decide⟩
  · intro impossible
    cases impossible

/-- Laid out children between the tags of their element. -/
theorem solid_opened {sep : Text} (sepBlank : Blanks sep) (sepSome : sep ≠ [])
    (notVoid : isVoid tag = false) (noSlash : (trailing as).getLast? ≠ some '/')
    {item : List Tok → Node → List Tok → Prop}
    (readsText : ∀ {t : Tok} {rest : List Tok}, t.kind = .text → item (t :: rest) (.text t.text) rest)
    {lead text : Text} {ns : List Node} (inner : Content item lead text ns) :
    Solid (NodeStep closing fragment? (ContentRun item))
      (['<'] ++ (tag ++ ((as.flatMap fun a => sep ++ a.print) ++ ['>'])) ++
        ((lead ++ text) ++ (['<', '/'] ++ (tag ++ ['>']))))
      (.element tag (as.map Attribute.reread) (textNodes lead ++ ns) false) := by
  refine ⟨?_, .inl rfl, ?_⟩
  · intro w
    have body : Lexes [] ((lead ++ text) ++ (['<', '/'] ++ (tag ++ ['>']))) w [] fun toks =>
        ∀ rest, ContentRun item tag (toks ++ rest) (textNodes lead ++ ns) rest := by
      refine (lexes_content readsText inner (.inr rfl)).append (lexes_close isName) ?_
      intro a b items close rest
      rw [List.append_assoc]
      exact (items _).content (close rest)
    have stops : ∀ w, Lexes [.tag] ['>'] w [] fun toks => ∃ t : Tok, toks = [t] ∧ t.kind = .tagEnd := by
      intro w
      refine lexes_tagEnd.mono ?_
      rintro _ ⟨t, rfl, kind, -⟩
      exact ⟨t, rfl, kind⟩
    have ends : ∀ w, EndsValue (trailing as) (['>'] ++ w) := fun w => ⟨'>', rfl, .inr ⟨rfl, noSlash⟩⟩
    refine (lexes_head closing isName sound survive sepBlank sepSome (.inl rfl) (stops _)
      (ends _)).append body ?_
    rintro _ b ⟨opening, name, t, ts, rfl, opens, named, rfl, kind, run⟩ later rest
    have head : HeadRun closing fragment? (name :: (ts ++ t :: (b ++ rest))) name.text
        (as.map Attribute.reread) false (b ++ rest) := by
      have ended := HeadRun.ended named (run (b ++ rest)) kind
      rwa [notVoid] at ended
    simp only [List.cons_append, List.append_assoc, List.nil_append]
    exact .opened opens head (later rest)
  · refine ⟨'>', ?_, by decide⟩
    rw [← List.append_assoc, ← List.append_assoc, ← List.append_assoc, List.getLast?_concat]
    rfl

theorem prints_opened (eolBlank : Blanks o.eol) (eolSome : o.eol ≠ [])
    (notVoid : isVoid tag = false)
    (noSlash : (trailing as).getLast? ≠ some '/') {item : List Tok → Node → List Tok → Prop}
    (readsText : ∀ {t : Tok} {rest : List Tok}, t.kind = .text → item (t :: rest) (.text t.text) rest)
    {children : List Node} (laid : SoundNodes (Laid item o) children) :
    Prints (NodeStep closing fragment? (ContentRun item)) o (.element tag as children false) := by
  refine ⟨by simp, fun level => ?_⟩
  obtain ⟨sep, sepBlank, sepSome, printed⟩ := exists_printAttributes_eq eolBlank eolSome level as
  obtain ⟨lead, text, ns, body, inner, stands⟩ : ∃ lead text ns,
      (Node.element tag as children false).print o level = o.indent level ++
        (['<'] ++ (tag ++ ((as.flatMap fun a => sep ++ a.print) ++ ['>'])) ++
          ((lead ++ text) ++ (['<', '/'] ++ (tag ++ ['>'])))) ∧
      Content item lead text ns ∧
      (Node.element tag (as.map Attribute.reread) (textNodes lead ++ ns) false).StandsFor o level
        (.element tag as children false) := by
    cases layout : isInline tag children with
    | true =>
        obtain ⟨lead, text, ns, split, inner, alike, -⟩ := exists_content_inline laid
        obtain ⟨lead', text', ns', trimmed, inner', alike'⟩ := inner.trim o
        refine ⟨lead', text', ns', ?_, inner', standsFor_inline layout (alike'.trans ?_)⟩
        · rw [inlineText] at split
          simp [Node.print, printed, notVoid, layout, split, trimmed]
        · exact alike.coarsen (congrArg trim)
    | false =>
        obtain ⟨lead, text, ns, split, inner, alike, -⟩ := exists_content_block eolBlank eolSome
          (level + 1) (blanks_indent o level) laid
        refine ⟨o.eol ++ lead, text, ns, ?_, inner.indented eolBlank,
          standsFor_block layout (.trans ?_ alike)⟩
        · have lines : (visible (printBlock o (level + 1) children)).flatMap (o.eol ++ ·) ++
              (o.eol ++ (o.indent level ++ (['<', '/'] ++ (tag ++ ['>'])))) =
                (o.eol ++ (lead ++ text)) ++ (['<', '/'] ++ (tag ++ ['>'])) := by
            rw [← split, blockLines]
            simp only [List.append_assoc]
          have parts : ∀ (head close : Text) (inside : List Text),
              join o.eol ([head] ++ inside ++ [close]) =
                head ++ (inside.flatMap (o.eol ++ ·) ++ (o.eol ++ close)) := by
            intro head close inside
            rw [List.append_assoc, List.singleton_append, join_cons, List.flatMap_append,
              List.flatMap_singleton]
          simp only [Node.print, notVoid, layout, Bool.or_false, Bool.false_eq_true, if_false, printed,
            parts]
          simpa using lines
        · exact (alike_lines_textNodes (squash_blank_append _ eolBlank.isBlank)).append
            (blockLines_append o _) (.refl _ ns)
  refine ⟨_, _, body, solid_opened isName sound survive sepBlank sepSome notVoid noSlash readsText
    inner, stands, ?_⟩
  intro impossible
  cases impossible

end

end

/-! ## Documents -/

theorem nodeRun_text {closing : Tok} {levels : Nat} {t : Tok} {rest : List Tok}
    (kind : t.kind = .text) : NodeRun closing fragment? levels (t :: rest) (.text t.text) rest := by
  cases levels with
  | zero => exact .text kind
  | succ levels => exact .text kind

section

variable {closing : Tok} {o : Options} (eolBlank : Blanks o.eol) (eolSome : o.eol ≠ [])

include eolBlank eolSome

/-- One node, given that the children of elements can be laid out. -/
theorem laid_step {content : Text → List Tok → List Node → List Tok → Prop}
    {within : List Node → Prop}
    (opened : ∀ {tag : Text} {as : List Attribute} {children : List Node}, IsName tag →
      (∀ a ∈ as, SoundAttribute a) → (∀ a ∈ as, a.value.survives = true) → isVoid tag = false →
      (trailing as).getLast? ≠ some '/' → within children → allSurvive children = true →
        Prints (NodeStep closing fragment? content) o (.element tag as children false))
    {n : Node} (sound : SoundStep within n) (survives : n.survives = true) :
    Laid (NodeStep closing fragment? content) o n := by
  cases sound with
  | text plain => exact .text plain
  | comment isBody => exact .solid (prints_comment isBody)
  | interpolation spellable =>
      rw [Node.survives] at survives
      exact .solid (prints_interpolation spellable survives)
  | closed isName sound =>
      simp only [Node.survives, Bool.and_eq_true, List.all_eq_true] at survives
      exact .solid (prints_closed isName sound survives.1.1 eolBlank eolSome)
  | opened isName sound notVoid inner =>
      simp only [Node.survives, Bool.and_eq_true, List.all_eq_true, Bool.false_or, bne_iff_ne]
        at survives
      exact .solid (opened isName sound survives.1.1 notVoid survives.1.2 inner survives.2)

/-- A sound node that survives can be laid out. -/
theorem laid_of_sound (levels : Nat) {n : Node} (sound : Sound levels n)
    (survives : n.survives = true) : Laid (NodeRun closing fragment? levels) o n := by
  induction levels generalizing n with
  | zero =>
      exact laid_step eolBlank eolSome (fun _ _ _ _ _ impossible _ => impossible.elim) sound survives
  | succ levels ih =>
      refine laid_step eolBlank eolSome ?_ sound survives
      intro tag as children isName sound survive notVoid noSlash inner all
      refine prints_opened isName sound survive eolBlank eolSome notVoid noSlash nodeRun_text ?_
      exact ⟨fun n member => ih (inner.each n member) (survives_of_mem all member), inner.chain⟩

/-- The printed document is laid out. -/
theorem exists_content_document {ns : List Node} (sound : SoundNodes (Sound elementLimit) ns)
    (survive : allSurvive ns = true) :
    ∃ lead text ns', printDocument o ns = lead ++ text ∧
      Content (NodeRun closing fragment? elementLimit) lead text ns' ∧
      Alike (blockLines o 0) (textNodes lead ++ ns') ns := by
  have laid : SoundNodes (Laid (NodeRun closing fragment? elementLimit) o) ns :=
    ⟨fun n member => laid_of_sound eolBlank eolSome _ (sound.each n member)
      (survives_of_mem survive member), sound.chain⟩
  obtain ⟨lead, text, ns', split, content, alike, -⟩ :=
    exists_content_block eolBlank eolSome 0 (by decide : Blanks []) laid
  refine ⟨lead, text, ns', ?_, content, alike⟩
  rw [blockLines] at split
  rw [printDocument]
  cases parts : visible (printBlock o 0 ns) with
  | nil =>
      rw [parts, List.flatMap_nil, List.nil_append] at split
      exact List.append_cancel_left split
  | cons first rest =>
      rw [parts, List.flatMap_cons, List.append_nil, List.append_assoc, List.append_assoc] at split
      show join o.eol (first :: rest) ++ o.eol = _
      rw [join_cons, List.append_assoc]
      exact List.append_cancel_left split

end

theorem text_format_of_silent {source : Text} (o : Options) (silent : (parse source).errors = []) :
    (format o source).text = printDocument o (parse source).children := by
  simp only [format, silent, List.isEmpty_nil, if_true]

/-- A formatted text is parsed without errors, to nodes that are laid out as those of
the source. -/
theorem exists_parse_format {source : Text} {o : Options}
    (eol : o.eol = ['\n'] ∨ o.eol = ['\r', '\n']) (silent : (parse source).errors = [])
    (survive : allSurvive (parse source).children = true) :
    ∃ ns, parse (format o source).text = { children := ns, errors := [] } ∧
      Alike (blockLines o 0) ns (parse source).children := by
  have eolBlank : Blanks o.eol := by
    rcases eol with same | same <;> rw [same] <;> decide
  have eolSome : o.eol ≠ [] := by
    rcases eol with same | same <;> rw [same] <;> simp
  have parsed : parse source = { children := (parse source).children, errors := [] } := by
    rw [← silent]
  rw [text_format_of_silent o silent]
  obtain ⟨lead, text, ns, printed, content, alike⟩ :=
    @exists_content_document (endToken (printDocument o (parse source).children)) o eolBlank eolSome _
      (sound_of_parse parsed) survive
  have run := (lexes_content nodeRun_text content (.inl rfl)).lexemes []
  rw [List.append_nil, ← printed] at run
  exact ⟨textNodes lead ++ ns, parseWith_eq_iff.2 run.document, alike⟩

/-- **Formatting keeps the document.**  A source that is parsed without errors, and
whose nodes survive printing, is formatted to a text that is parsed without errors,
to the same document up to layout. -/
theorem normals_parse_format {source : Text} {o : Options}
    (eol : o.eol = ['\n'] ∨ o.eol = ['\r', '\n']) (silent : (parse source).errors = [])
    (survive : allSurvive (parse source).children = true) :
    (parse (format o source).text).errors = [] ∧
      normals (parse (format o source).text).children = normals (parse source).children := by
  obtain ⟨ns, again, alike⟩ := exists_parse_format eol silent survive
  rw [again]
  exact ⟨rfl, alike.same⟩

/-- Attributes of every kind, text next to an interpolation, and elements within a
line. -/
def mixedDocument : Text :=
  ("<div class='a' if=\x22\x7b\x7ba&&(b)\x7d\x7d\x22 on=go/x hidden><!-- c --> Hi\n" ++
    "\x7b\x7bn+1\x7d\x7d <b>bold </b><img src=p /></div>").toList

theorem normals_parse_format_mixed :
    (parse mixedDocument).errors = [] ∧ (parse (format .markup mixedDocument).text).errors = [] ∧
      normals (parse (format .markup mixedDocument).text).children =
        normals (parse mixedDocument).children := by
  have decided : (parse mixedDocument).errors.isEmpty = true ∧
      allSurvive (parse mixedDocument).children = true := by
    rw [show mixedDocument = _ from toList_append_ofList]
    decide +kernel
  have silent := List.isEmpty_iff.1 decided.1
  exact ⟨silent, normals_parse_format (.inl rfl) silent decided.2⟩

/-- Documents with one node each that does not survive: a double quote in a bare
interpolation, a slash at the end of a tag, a member of a number, and assignments
that are nested as deep as they may be without parentheses. -/
def fragileDocuments : List Text := [
  "<div a=\x7b\x7b \x22x\x22 \x7d\x7d></div>".toList,
  "<a b=/ ></a>".toList,
  "\x7b\x7b 1 .a \x7d\x7d".toList,
  "\x7b\x7b ".toList ++ times "x?y=".toList 9 ++ ['z'] ++ times ":w".toList 9 ++ " \x7d\x7d".toList
]

/-- Formatting can turn a document that is accepted into one that is rejected. -/
theorem format_rejects_fragile :
    (fragileDocuments.all fun source => (parse source).errors.isEmpty &&
      !(parse (format .markup source).text).errors.isEmpty) = true := by
  rw [fragileDocuments, String.toList_ofList, String.toList_ofList, String.toList_ofList]
  decide +kernel

end UiFormat.Markup

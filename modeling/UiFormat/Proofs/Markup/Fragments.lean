/-
# UiFormat.Proofs.Markup.Fragments -- quoted expressions inside quoted expressions

A quoted attribute value that is one interpolation is parsed as a document of its own
(`fragmentWith`), and that document can hold elements with quoted values again.  Reading
them all is a recursion of the parser on itself, and it ends: a fragment with its marks is
shorter than the source it was found in, because the tag, the name and the equals sign
stand in front of it.  So a parse depends on its reader only below the length of the
source (`parseWith_congr`).

What the inner readings find makes no difference.  A fragment counts as an expression only
if it is nothing but one interpolation, and inside that no quoted value is read
(`fragmentWith_eq`).  Together: whatever solves the recursion below the length of the
source parses the source as `parse` does (`parseWith_eq_parse`).
-/
import UiFormat.Proofs.Markup.Progress
import UiFormat.Proofs.Markup.AttributeRoundTrip

namespace UiFormat.Markup

open UiFormat.Text
open UiFormat.Parse

set_option autoImplicit false

variable {α β : Type}

/-! ## Fragments -/

/-- The text of an interpolation between its marks. -/
def marked (inner : Text) : Text :=
  ['{', '{', ' '] ++ inner ++ [' ', '}', '}']

/-- The expression of a fragment without problems, in which quoted values are read by
`reader`. -/
def fragmentWith (reader : Text → Option Expr) (inner : Text) : Option Expr :=
  match parseWith reader (marked inner) with
  | { children := [.interpolation e], errors := [] } => some e
  | _ => none

theorem fragmentWith_eq_some {reader : Text → Option Expr} {inner : Text} {e : Expr} :
    fragmentWith reader inner = some e ↔
      parseWith reader (marked inner) = { children := [.interpolation e], errors := [] } := by
  rw [fragmentWith]
  generalize parseWith reader (marked inner) = parsed
  constructor
  · intro found
    split at found
    · cases found
      rfl
    · cases found
  · rintro rfl
    rfl

theorem fragment?_eq_some {inner : Text} {e : Expr} :
    fragment? inner = some e ↔ fragmentWith (fun _ => none) inner = some e := by
  rw [fragmentWith_eq_some]
  refine Iff.trans ?_ parseFragment_eq_iff
  rw [fragment?]
  constructor
  · intro found
    split at found
    · rename_i parsed
      cases found
      exact parsed
    · cases found
  · intro parsed
    rw [parsed]

/-- A run of interpolations is one for every reader. -/
theorem DocumentRun.of_interpolations {closing : Tok} {reader other : Text → Option Expr}
    {levels : Nat} {ts : List Tok} {ns : List Node}
    (run : DocumentRun (NodeRun closing reader levels) ts ns)
    (all : ∀ n ∈ ns, ∃ e, n = .interpolation e) :
    DocumentRun (NodeRun closing other levels) ts ns := by
  induction run with
  | stop => exact .stop
  | next here later ih =>
      obtain ⟨⟨e, rfl⟩, others⟩ := List.forall_mem_cons.1 all
      exact .next (nodeRun_of_interpolationRun (interpolationRun_of_nodeRun here)) (ih others)
  | skip idle later ih => exact .skip idle (ih all)

/-- Inside a fragment it makes no difference how quoted values are read. -/
theorem fragmentWith_eq (reader : Text → Option Expr) : fragmentWith reader = fragment? := by
  have only : ∀ e : Expr, ∀ n ∈ [Node.interpolation e], ∃ e, n = .interpolation e :=
    fun e n member => ⟨e, List.mem_singleton.1 member⟩
  funext inner
  refine Option.ext fun e => ?_
  rw [fragment?_eq_some, fragmentWith_eq_some, fragmentWith_eq_some, parseWith_eq_iff,
    parseWith_eq_iff]
  exact ⟨fun run => run.of_interpolations (only e), fun run => run.of_interpolations (only e)⟩

/-! ## Runs that agree -/

/-- At least `count` of the tokens have been read. -/
structure Past (toks : List Tok) (count : Nat) (s : State Kind Problem) : Prop where
  eof : s.closing.kind = .eof
  read : ∃ front, count ≤ front.length ∧ front ++ s.rest = toks

/-- The readers do the same wherever `count` tokens have been read. -/
def Agree (toks : List Tok) (count : Nat) (p q : MarkupParser α) : Prop :=
  ∀ s, Past toks count s → p s = q s

section

variable {toks : List Tok} {count : Nat} {s : State Kind Problem}

theorem Past.run (past : Past toks count s) (p : MarkupParser α) [forward : Forward p] :
    Past toks count (p s).2 := by
  obtain ⟨front, enough, split⟩ := past.read
  obtain ⟨more, rest⟩ := forward.rest_suffix s
  refine ⟨by rw [forward.closing_eq s, past.eof], front ++ more, ?_, ?_⟩
  · rw [List.length_append]
    omega
  · rw [List.append_assoc, rest, split]

theorem Past.next (past : Past toks count s) (filled : s.rest ≠ []) :
    Past toks (count + 1) ((advance : MarkupParser Tok) s).2 := by
  obtain ⟨front, enough, split⟩ := past.read
  obtain ⟨t, rest, shape⟩ := List.exists_cons_of_ne_nil filled
  refine ⟨past.eof, front ++ [t], ?_, ?_⟩
  · rw [List.length_append, List.length_singleton]
    omega
  · show front ++ [t] ++ s.rest.tail = toks
    rw [shape] at split ⊢
    simpa using split

theorem Past.filled (past : Past toks count s) {kind : Kind} (notEof : kind ≠ .eof)
    (isKind : (s.current.kind == kind) = true) : s.rest ≠ [] := by
  refine filled_of_test (q := fun t => t.kind == kind) ?_ isKind
  rw [past.eof, beq_eq_false_iff_ne]
  exact notEof.symm

variable {p q : MarkupParser α} {f g : α → MarkupParser β}

theorem bind_congr_run (first : p s = q s)
    (later : f (p s).1 (p s).2 = g (p s).1 (p s).2) : (p >>= f) s = (q >>= g) s := by
  show f (p s).1 (p s).2 = g (q s).1 (q s).2
  rw [← first]
  exact later

theorem Agree.refl (p : MarkupParser α) : Agree toks count p p :=
  fun _ _ => rfl

theorem Agree.bind [Forward p] (first : Agree toks count p q)
    (later : ∀ a, Agree toks count (f a) (g a)) : Agree toks count (p >>= f) (q >>= g) :=
  fun s past => bind_congr_run (first s past) (later _ _ (past.run p))

theorem Agree.ite {c : Prop} [Decidable c] {p' q' : MarkupParser α}
    (yes : Agree toks count p q) (no : Agree toks count p' q') :
    Agree toks count (if c then p else p') (if c then q else q') := by
  split
  · exact yes
  · exact no

theorem agree_collect {round other : MarkupParser (Round α)} [Forward round]
    (rounds : Agree toks count round other) : Agree toks count (collect round) (collect other) := by
  have within : ∀ fuel, Agree toks count (collectWithin round fuel) (collectWithin other fuel) := by
    intro fuel
    induction fuel with
    | zero => exact .refl _
    | succ fuel ih =>
        refine Agree.bind rounds fun r => ?_
        cases r with
        | stop => exact .refl _
        | last item => exact .refl _
        | skip => exact ih
        | next item => exact ih.bind fun items => .refl _
  exact fun s past => within (s.rest.length + 1) s past

end

/-! ## Two readers of quoted values -/

section

variable {toks : List Tok} {reader other : Text → Option Expr}

/-- The readers find the same in each string that three tokens stand in front of. -/
def SameStrings (toks : List Tok) (reader other : Text → Option Expr) : Prop :=
  ∀ front t rest, front ++ t :: rest = toks → 3 ≤ front.length → t.kind = .string →
    quotedValue reader t.text = quotedValue other t.text

variable (same : SameStrings toks reader other) (embedded : MarkupParser Expr)

include same

theorem agree_attributeValue :
    Agree toks 3 (attributeValue embedded reader) (attributeValue embedded other) := by
  intro s past
  have string : s.current.kind = .string →
      quotedValue reader s.current.text = quotedValue other s.current.text := by
    intro kind
    obtain ⟨front, enough, split⟩ := past.read
    obtain ⟨t, rest, shape⟩ := List.exists_cons_of_ne_nil
      (past.filled (by decide) (beq_iff_eq.2 kind))
    have isNext : s.current = t := by rw [State.current, shape]; rfl
    rw [shape] at split
    rw [isNext] at kind ⊢
    exact same front t rest split enough kind
  unfold attributeValue
  refine bind_congr_run rfl ?_
  rw [show (current : MarkupParser Tok) s = (s.current, s) from rfl]
  simp only
  cases kind : s.current.kind with
  | string => rw [string kind]
  | _ => rfl

theorem agree_tagAttribute {s : State Kind Problem} (past : Past toks 1 s) (filled : s.rest ≠ []) :
    tagAttribute embedded reader s = tagAttribute embedded other s := by
  refine bind_congr_run rfl ?_
  have named := past.next filled
  generalize ((advance : MarkupParser Tok) s).2 = t at named
  refine bind_congr_run rfl ?_
  show (if (t.current.kind == .equals) = true then _ else _ : MarkupParser Attribute) t =
    (if (t.current.kind == .equals) = true then _ else _ : MarkupParser Attribute) t
  split
  · rename_i isEquals
    refine bind_congr_run rfl (bind_congr_run ?_ rfl)
    exact agree_attributeValue same embedded _ (named.next (named.filled (by decide) isEquals))
  · rfl

theorem agree_attributeRound :
    Agree toks 1 (attributeRound embedded reader) (attributeRound embedded other) := by
  intro s past
  refine bind_congr_run rfl ?_
  show (if (s.current.kind == .name) = true then _ else _ : MarkupParser (Round Attribute)) s =
    (if (s.current.kind == .name) = true then _ else _ : MarkupParser (Round Attribute)) s
  split
  · rename_i isName
    exact bind_congr_run
      (agree_tagAttribute same embedded past (past.filled (by decide) isName)) rfl
  · rfl

variable [Forward embedded]

theorem agree_elementHead {s : State Kind Problem} (past : Past toks 0 s) (filled : s.rest ≠ []) :
    elementHead embedded reader s = elementHead embedded other s := by
  refine bind_congr_run rfl ?_
  have inside : ∀ tag, Agree toks 1
      (do
        let attributes ← collect (attributeRound embedded reader)
        if ← lookingAt .tagSelfClose then
          let _ ← advance
          return { tag, attributes, closed := true }
        expectTagEnd .missingTagEnd
        return { tag, attributes, closed := isVoid tag } : MarkupParser ElementHead)
      (do
        let attributes ← collect (attributeRound embedded other)
        if ← lookingAt .tagSelfClose then
          let _ ← advance
          return { tag, attributes, closed := true }
        expectTagEnd .missingTagEnd
        return { tag, attributes, closed := isVoid tag }) :=
    fun tag => (agree_collect (agree_attributeRound same embedded)).bind fun _ => .refl _
  exact (Agree.refl _).bind inside _ (past.next filled)

section

variable {content content' : Text → MarkupParser (List Node)} [∀ tag, Forward (content tag)]
  (contents : ∀ tag, Agree toks 0 (content tag) (content' tag))

include contents

theorem agree_element {s : State Kind Problem} (past : Past toks 0 s) (filled : s.rest ≠ []) :
    element embedded reader content s = element embedded other content' s := by
  refine bind_congr_run (agree_elementHead same embedded past filled) ?_
  refine Agree.ite (.refl _) ?_ _ (past.run (elementHead embedded reader))
  exact (contents _).bind fun children => .refl _

theorem agree_nodeWith :
    Agree toks 0 (nodeWith embedded (element embedded reader content))
      (nodeWith embedded (element embedded other content')) := by
  intro s past
  refine bind_congr_run rfl ?_
  rw [show (current : MarkupParser Tok) s = (s.current, s) from rfl]
  simp only
  cases kind : s.current.kind with
  | tagOpen =>
      have opened := agree_element same embedded contents past
        (past.filled (by decide) (beq_iff_eq.2 kind))
      exact congrArg (fun r => (some r.1, r.2)) opened
  | _ => rfl

end

omit same in
theorem agree_nodeRound {node node' : MarkupParser (Option Node)} [Forward node]
    (nodes : Agree toks 0 node node') : Agree toks 0 (nodeRound node) (nodeRound node') :=
  nodes.bind fun _ => .refl _

theorem agree_node (levels : Nat) (openTags : List Text) :
    Agree toks 0 (node embedded reader levels openTags) (node embedded other levels openTags) := by
  induction levels generalizing openTags with
  | zero => exact agree_nodeWith same embedded fun tag => .refl _
  | succ levels ih =>
      refine agree_nodeWith same embedded fun tag => agree_collect ?_
      exact (Agree.refl _).bind fun _ => .ite (.refl _) <| (Agree.refl _).bind fun _ =>
        .ite (.refl _) (agree_nodeRound (ih (tag :: openTags)))

theorem agree_document : Agree toks 0 (document reader) (document other) :=
  agree_collect <| (Agree.refl _).bind fun _ =>
    .ite (.refl _) (agree_nodeRound (agree_node same expression elementLimit []))

end

/-! ## Fragments are shorter -/

/-- A quote at least stands around the content of a string. -/
theorem length_unquote_lt {raw : Text} (some : raw ≠ []) : (unquote raw).length < raw.length := by
  obtain ⟨quote, rest, rfl⟩ := List.exists_cons_of_ne_nil some
  rw [unquote, List.length_cons]
  split
  · rw [List.length_dropLast]
    omega
  · omega

/-- The marks around an interpolation take four characters of the value. -/
theorem length_of_loneInterpolation? {value inner : Text}
    (lone : loneInterpolation? value = some inner) : inner.length + 4 ≤ value.length := by
  obtain ⟨left, right, split, -, -⟩ := exists_trim_append value
  have trimmed := congrArg List.length split
  rw [List.length_append, List.length_append] at trimmed
  simp only [loneInterpolation?] at lone
  split at lone
  · rename_i shape
    have four : 4 ≤ (trim value).length := of_decide_eq_true (Bool.and_eq_true_iff.1 shape).2
    obtain rfl := Option.some.inj lone
    simp only [withoutEnds, List.length_dropLast, List.length_drop]
    omega
  · cases lone

/-- Each token has a character of the source to itself. -/
theorem Steps.length_add_le {k k' : Cursor} {toks : List Tok} (steps : Steps k toks k') :
    toks.length + k'.rest.length ≤ k.rest.length := by
  induction steps with
  | nil => simp
  | cons here later ih =>
      have shorter := Cursor.next?_rest_lt here
      rw [List.length_cons]
      omega

/-- The text of a string is what the source has there. -/
theorem length_string_le {k k' : Cursor} {t : Tok} (here : k.next? = some (t, k'))
    (kind : t.kind = .string) : t.text.length ≤ k.rest.length := by
  obtain ⟨gap, c, rest, split, -, rfl, -⟩ := next?_eq_some here
  have isString : (k.modes.current.lexeme c rest).kind = .string := kind
  show (tokenText _ _).length ≤ _
  rw [isString, split]
  show (c :: rest.take _).length ≤ _
  simp only [List.length_append, List.length_cons, List.length_take]
  omega

/-- What is between the marks in a string of the source is shorter than the source by
those marks, the quote and the tokens in front of it. -/
theorem length_of_string {source inner : Text} {front rest : List Tok} {t : Tok}
    (split : front ++ t :: rest = lexemes source) (kind : t.kind = .string)
    (lone : loneInterpolation? (unquote t.text) = some inner) :
    front.length + inner.length + 5 ≤ source.length := by
  have between := length_of_loneInterpolation? lone
  have quoted : (unquote t.text).length < t.text.length := by
    refine length_unquote_lt fun none => ?_
    rw [none] at between
    exact absurd between (by simp [unquote])
  obtain ⟨k, steps, -⟩ := exists_steps_drain (Cursor.start source)
  rw [show (Cursor.start source).drain.1 = front ++ t :: rest from split.symm] at steps
  obtain ⟨k', before, later⟩ := steps.split
  cases later with
  | cons here _ =>
      have passed := before.length_add_le
      have inside := length_string_le here kind
      have whole : (Cursor.start source).rest = source := rfl
      rw [whole] at passed
      omega

section

variable {source : Text} {reader other : Text → Option Expr}

/-- A parse reads only fragments that are shorter than the source, marks included. -/
theorem parseWith_congr
    (same : ∀ inner, (marked inner).length < source.length → reader inner = other inner) :
    parseWith reader source = parseWith other source := by
  have strings : SameStrings (lexemes source) reader other := by
    intro front t rest split enough kind
    have bound : (loneInterpolation? (unquote t.text)).bind reader =
        (loneInterpolation? (unquote t.text)).bind other := by
      cases lone : loneInterpolation? (unquote t.text) with
      | none => rfl
      | some inner =>
          refine same inner ?_
          have shorter := length_of_string split kind lone
          rw [marked, List.length_append, List.length_append]
          show 3 + inner.length + 3 < source.length
          omega
    rw [quotedValue, bound, quotedValue]
  have runs : readWith reader source = readWith other source :=
    agree_document strings _ ⟨kind_endToken source, [], Nat.le_refl 0, rfl⟩
  rw [parseWith_eq, parseWith_eq, runs]

/-- **Reading fragments ends.**  A reader that reads the fragments shorter than the source
by parsing them with itself parses the source as `parse` does. -/
theorem parseWith_eq_parse
    (solves : ∀ inner, (marked inner).length < source.length →
      reader inner = fragmentWith reader inner) :
    parseWith reader source = parse source := by
  refine parseWith_congr fun inner shorter => ?_
  rw [solves inner shorter, fragmentWith_eq]

end

end UiFormat.Markup

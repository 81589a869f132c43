/-
# UiFormat.Proofs.Markup.DocumentReading -- silent runs of the document parser

What the document parser reads without a report, as relations between the tokens
in front of it, what it gives and the tokens it leaves: `ValueRun` and
`AttributesRun` for attributes, `HeadRun` and `CloseRun` for tags, `NodeRun`,
`ContentRun` and `DocumentRun` for nodes.  Nothing broken has a silent run, so
these relations know neither the repairs of the parser nor the open ancestors.

A token that starts no node is passed over without a report.  The relations keep
that step (`isIdle`); it is the lexer that never puts such a token there.
-/
import UiFormat.Markup.Parser
import UiFormat.Proofs.Markup.ExprReading

namespace UiFormat.Markup

open UiFormat.Text
open UiFormat.Parse

set_option autoImplicit false

/-! ## The parsers move forward -/

instance forward_lookingAt (kind : Kind) : Forward (lookingAt kind) := by
  unfold lookingAt; infer_instance

instance forward_skipTagRest : Forward skipTagRest := by
  unfold skipTagRest; infer_instance

instance forward_expectTagEnd (problem : Problem) : Forward (expectTagEnd problem) := by
  unfold expectTagEnd; infer_instance

/-- Going on some tokens further is moving forward. -/
instance forward_continueAt_drop {α : Type} (count : List Tok → Nat) (result : List Tok → α) :
    Forward (do
      let rest ← remaining
      continueAt (rest.drop (count rest))
      return result rest : MarkupParser α) :=
  ⟨fun s => List.drop_suffix (count s.rest) s.rest, fun _ => rfl, fun _ => List.prefix_rfl⟩

section

variable (embedded : MarkupParser Expr) [Forward embedded] (reader : Text → Option Expr)

instance forward_attributeValue : Forward (attributeValue embedded reader) := by
  unfold attributeValue
  refine @forward_bind _ _ _ _ _ _ _ fun t => ?_
  split
  · infer_instance
  · infer_instance
  · exact forward_continueAt_drop (fun rest => (adjacentTokens t.start rest).length)
      fun rest => AttributeValue.unquoted (textOf (adjacentTokens t.start rest))
  · exact forward_continueAt_drop (fun rest => (adjacentTokens t.start rest).length)
      fun rest => AttributeValue.unquoted (textOf (adjacentTokens t.start rest))
  · infer_instance

instance forward_tagAttribute : Forward (tagAttribute embedded reader) := by
  unfold tagAttribute; infer_instance

instance forward_nameOr (instead : Text) (problem : Problem) : Forward (nameOr instead problem) := by
  unfold nameOr; infer_instance

instance forward_attributeRound : Forward (attributeRound embedded reader) := by
  unfold attributeRound; infer_instance

instance forward_elementHead : Forward (elementHead embedded reader) := by
  unfold elementHead; infer_instance

instance forward_closingName? : Forward closingName? := by
  unfold closingName?
  refine @forward_bind _ _ _ _ _ _ _ fun rest => ?_
  split <;> infer_instance

instance forward_closingTag (tag : Text) : Forward (closingTag tag) := by
  unfold closingTag; infer_instance

instance forward_closesAncestor (tag : Text) (openTags : List Text) :
    Forward (closesAncestor tag openTags) := by
  unfold closesAncestor
  refine @forward_bind _ _ _ _ _ _ _ fun name => ?_
  split <;> infer_instance

instance forward_interpolation : Forward (interpolation embedded) := by
  unfold interpolation; infer_instance

section

variable (node : MarkupParser (Option Node)) [Forward node]

instance forward_nodeRound : Forward (nodeRound node) := by
  unfold nodeRound
  refine @forward_bind _ _ _ _ _ _ _ fun n => ?_
  split <;> infer_instance

instance forward_documentRound : Forward (documentRound node) := by
  unfold documentRound; infer_instance

instance forward_childRound (tag : Text) (openTags : List Text) :
    Forward (childRound node tag openTags) := by
  unfold childRound; infer_instance

instance forward_children (tag : Text) (openTags : List Text) :
    Forward (children node tag openTags) := by
  unfold children; infer_instance

end

instance forward_element (content : Text → MarkupParser (List Node)) [∀ tag, Forward (content tag)] :
    Forward (element embedded reader content) := by
  unfold element; infer_instance

instance forward_nodeWith (element : MarkupParser Node) [Forward element] :
    Forward (nodeWith embedded element) := by
  unfold nodeWith
  refine @forward_bind _ _ _ _ _ _ _ fun t => ?_
  split <;> infer_instance

instance forward_node (levels : Nat) (openTags : List Text) :
    Forward (node embedded reader levels openTags) := by
  induction levels generalizing openTags with
  | zero => unfold node; infer_instance
  | succ levels ih => unfold node; infer_instance

instance forward_document : Forward (document reader) := by
  unfold document; infer_instance

end

/-! ## Attributes -/

/-- A token of an unquoted value. -/
def isValuePart (t : Tok) : Bool :=
  t.kind == .name || t.kind == .unquotedValue

/-- The tokens of an interpolation and its expression. -/
inductive InterpolationRun : List Tok → Expr → List Tok → Prop
  | run {opening closing : Tok} {toks rest : List Tok} {e : Expr}
      (opens : opening.kind = .interpStart) (spelled : Spells expressionLimit toks e)
      (high : e.height ≤ heightLimit) (closes : closing.kind = .interpEnd) :
      InterpolationRun (opening :: (toks ++ closing :: rest)) e rest

/-- What stands after an equals sign. -/
inductive ValueRun (reader : Text → Option Expr) : List Tok → AttributeValue → List Tok → Prop
  | quoted {t : Tok} {rest : List Tok} (kind : t.kind = .string) :
      ValueRun reader (t :: rest) (quotedValue reader t.text) rest
  | expression {ts rest : List Tok} {e : Expr} (here : InterpolationRun ts e rest) :
      ValueRun reader ts (.expression none [] e) rest
  | unquoted {t : Tok} {ts rest : List Tok} (isPart : isValuePart t = true)
      (left : rest = (t :: ts).drop (adjacentTokens t.start (t :: ts)).length) :
      ValueRun reader (t :: ts) (.unquoted (textOf (adjacentTokens t.start (t :: ts)))) rest

/-- The attributes of a tag, up to a token that is no name. -/
inductive AttributesRun (closing : Tok) (reader : Text → Option Expr) :
    List Tok → List Attribute → List Tok → Prop
  | done {rest : List Tok} (notName : (ahead closing rest).kind ≠ .name) :
      AttributesRun closing reader rest [] rest
  | absent {name : Tok} {ts rest : List Tok} {as : List Attribute} (isName : name.kind = .name)
      (noValue : (ahead closing ts).kind ≠ .equals)
      (later : AttributesRun closing reader ts as rest) :
      AttributesRun closing reader (name :: ts) ({ name := name.text, value := .absent } :: as) rest
  | valued {name equals : Tok} {ts between rest : List Tok} {value : AttributeValue}
      {as : List Attribute} (isName : name.kind = .name) (isEquals : equals.kind = .equals)
      (here : ValueRun reader ts value between)
      (later : AttributesRun closing reader between as rest) :
      AttributesRun closing reader (name :: equals :: ts) ({ name := name.text, value } :: as) rest

variable {closing : Tok} {ts rest : List Tok} {reader : Text → Option Expr}

/-- The token that comes next, when it is of a kind the closing one is not. -/
theorem exists_cons_of_kind (eof : closing.kind = .eof) {kind : Kind} (notEof : kind ≠ .eof)
    (isKind : (ahead closing ts).kind = kind) : ∃ t, ts = t :: ts.tail ∧ t.kind = kind := by
  cases ts with
  | nil => exact absurd (isKind.symm.trans eof) notEof
  | cons t ts => exact ⟨t, rfl, isKind⟩

theorem reads_lookingAt_bind {α : Type} {kind : Kind} {g : Bool → MarkupParser α} {a : α} :
    Reads closing (lookingAt kind >>= g) ts a rest ↔
      Reads closing (g ((ahead closing ts).kind == kind)) ts a rest :=
  Iff.rfl

theorem stops_of_interpEnd {t : Tok} (kind : t.kind = .interpEnd) : Stops closing 1 (t :: rest) := by
  rw [Stops, ahead_cons, continuation_of_other (by simp [kind]) (by simp [kind])]
  decide

/-- An expression and the mark that ends it, after the mark that opens it. -/
theorem reads_expression_close (eof : closing.kind = .eof) {α : Type} {problem : Problem}
    (build : Expr → α) {x : α} :
    Reads closing (do
      let tree ← expression
      if ← lookingAt .interpEnd then
        let _ ← advance
      else report problem
      return build tree) ts x rest ↔
      ∃ toks e closes, ts = toks ++ closes :: rest ∧ Spells expressionLimit toks e ∧
        e.height ≤ heightLimit ∧ closes.kind = .interpEnd ∧ x = build e := by
  rw [reads_bind]
  simp only [reads_expression eof, reads_lookingAt_bind]
  constructor
  · rintro ⟨e, between, ⟨toks, rfl, spelled, -, high⟩, reads⟩
    split at reads
    · rename_i isEnd
      obtain ⟨t, split, kind⟩ := exists_cons_of_kind eof (by decide) (beq_iff_eq.1 isEnd)
      rw [reads_advance_bind, reads_pure] at reads
      obtain ⟨rfl, rfl⟩ := reads
      exact ⟨toks, e, t, by rw [← split], spelled, high, kind, rfl⟩
    · exact absurd reads not_reads_report_bind
  · rintro ⟨toks, e, t, rfl, spelled, high, kind, rfl⟩
    refine ⟨e, t :: rest, ⟨toks, rfl, spelled, stops_of_interpEnd kind, high⟩, ?_⟩
    rw [ahead_cons, if_pos (beq_iff_eq.2 kind)]
    exact reads_pure.2 ⟨rfl, rfl⟩

theorem reads_attributeValue (eof : closing.kind = .eof) {value : AttributeValue} :
    Reads closing (attributeValue expression reader) ts value rest ↔ ValueRun reader ts value rest := by
  rw [attributeValue, reads_current_bind]
  constructor
  · intro reads
    cases ts with
    | nil =>
        simp only [ahead_nil, eof] at reads
        exact absurd reads not_reads_report_bind
    | cons t ts =>
        simp only [ahead_cons] at reads
        split at reads
        · rename_i kind
          obtain ⟨rfl, rfl⟩ := reads_pure.1 reads
          exact .quoted kind
        · rename_i kind
          rw [reads_advance_bind, List.tail_cons, reads_expression_close eof] at reads
          obtain ⟨toks, e, closes, rfl, spelled, high, isEnd, rfl⟩ := reads
          exact .expression (.run kind spelled high isEnd)
        · rename_i kind
          obtain ⟨rfl, rfl⟩ := reads_pure.1 reads
          exact .unquoted (by simp [isValuePart, kind]) rfl
        · rename_i kind
          obtain ⟨rfl, rfl⟩ := reads_pure.1 reads
          exact .unquoted (by simp [isValuePart, kind]) rfl
        · exact absurd reads not_reads_report_bind
  · intro run
    cases run with
    | quoted kind =>
        simp only [ahead_cons, kind]
        exact reads_pure.2 ⟨rfl, rfl⟩
    | expression here =>
        cases here with
        | run opens spelled high closes =>
            simp only [ahead_cons, opens]
            rw [reads_advance_bind, List.tail_cons]
            exact (reads_expression_close eof (AttributeValue.expression none [])).2
              ⟨_, _, _, rfl, spelled, high, closes, rfl⟩
    | @unquoted t ts rest isPart left =>
        subst left
        have kinds : t.kind = .name ∨ t.kind = .unquotedValue := by
          simpa [isValuePart] using isPart
        rcases kinds with kind | kind
        · simp only [ahead_cons, kind]
          exact reads_pure.2 ⟨rfl, rfl⟩
        · simp only [ahead_cons, kind]
          exact reads_pure.2 ⟨rfl, rfl⟩

theorem reads_tagAttribute (eof : closing.kind = .eof) {name : Tok} {a : Attribute} :
    Reads closing (tagAttribute expression reader) (name :: ts) a rest ↔
      ((ahead closing ts).kind ≠ .equals ∧ rest = ts ∧
          a = { name := name.text, value := .absent }) ∨
        ∃ equals after value, ts = equals :: after ∧ equals.kind = .equals ∧
          ValueRun reader after value rest ∧ a = { name := name.text, value } := by
  rw [tagAttribute, reads_advance_bind, List.tail_cons, reads_lookingAt_bind]
  constructor
  · intro reads
    split at reads
    · rename_i isEquals
      obtain ⟨equals, tail, isEquals⟩ := exists_cons_of_kind eof (by decide) (beq_iff_eq.1 isEquals)
      rw [reads_advance_bind, reads_bind] at reads
      obtain ⟨value, between, read, ends⟩ := reads
      obtain ⟨rfl, rfl⟩ := reads_pure.1 ends
      exact .inr ⟨equals, _, value, tail, isEquals, (reads_attributeValue eof).1 read, rfl⟩
    · rename_i notEquals
      obtain ⟨rfl, rfl⟩ := reads_pure.1 reads
      exact .inl ⟨by simpa using notEquals, rfl, rfl⟩
  · rintro (⟨notEquals, rfl, rfl⟩ | ⟨equals, after, value, rfl, isEquals, run, rfl⟩)
    · rw [if_neg (by simpa using notEquals)]
      exact reads_pure.2 ⟨rfl, rfl⟩
    · rw [ahead_cons, if_pos (beq_iff_eq.2 isEquals), reads_advance_bind, reads_bind]
      exact ⟨value, rest, (reads_attributeValue eof).2 run, reads_pure.2 ⟨rfl, rfl⟩⟩

theorem reads_attributeRound (eof : closing.kind = .eof) {r : Round Attribute} :
    Reads closing (attributeRound expression reader) ts r rest ↔
      ((ahead closing ts).kind ≠ .name ∧ rest = ts ∧ r = .stop) ∨
        ∃ name left a, ts = name :: left ∧ name.kind = .name ∧
          Reads closing (tagAttribute expression reader) (name :: left) a rest ∧ r = .next a := by
  rw [attributeRound, reads_lookingAt_bind]
  constructor
  · intro reads
    split at reads
    · rename_i isName
      obtain ⟨name, split, kind⟩ := exists_cons_of_kind eof (by decide) (beq_iff_eq.1 isName)
      obtain ⟨a, between, read, ends⟩ := reads_bind.1 reads
      obtain ⟨rfl, rfl⟩ := reads_pure.1 ends
      rw [split] at read
      exact .inr ⟨name, ts.tail, a, split, kind, read, rfl⟩
    · rename_i notName
      obtain ⟨rfl, rfl⟩ := reads_pure.1 reads
      exact .inl ⟨by simpa using notName, rfl, rfl⟩
  · rintro (⟨notName, rfl, rfl⟩ | ⟨name, left, a, rfl, kind, read, rfl⟩)
    · rw [if_neg (by simpa using notName)]
      exact reads_pure.2 ⟨rfl, rfl⟩
    · rw [ahead_cons, if_pos (beq_iff_eq.2 kind)]
      exact reads_bind.2 ⟨a, rest, read, reads_pure.2 ⟨rfl, rfl⟩⟩

theorem InterpolationRun.length_lt {e : Expr} (run : InterpolationRun ts e rest) :
    rest.length < ts.length := by
  cases run
  simp only [List.length_cons, List.length_append]
  omega

theorem ValueRun.length_le {value : AttributeValue} (run : ValueRun reader ts value rest) :
    rest.length ≤ ts.length := by
  cases run with
  | quoted kind => exact Nat.le_succ _
  | expression here => exact Nat.le_of_lt here.length_lt
  | unquoted isPart left =>
      subst left
      rw [List.length_drop]
      omega

theorem consumes_attributeRound (eof : closing.kind = .eof) :
    Consumes closing (attributeRound expression reader) := by
  intro ts r rest reads goesOn
  rcases (reads_attributeRound eof).1 reads with ⟨-, -, rfl⟩ | ⟨name, left, a, rfl, -, read, -⟩
  · cases goesOn
  · rcases (reads_tagAttribute eof).1 read with ⟨-, rfl, -⟩ | ⟨equals, after, value, rfl, -, run, -⟩
    · exact Nat.lt_succ_self _
    · have shorter := run.length_le
      simp only [List.length_cons]
      omega

theorem reads_attributes (eof : closing.kind = .eof) {as : List Attribute} :
    Reads closing (collect (attributeRound expression reader)) ts as rest ↔
      AttributesRun closing reader ts as rest := by
  rw [reads_collect (consumes_attributeRound eof)]
  constructor
  · intro rounds
    induction rounds with
    | stop here =>
        rcases (reads_attributeRound eof).1 here with ⟨notName, rfl, -⟩ | ⟨_, _, _, _, _, _, impossible⟩
        · exact .done notName
        · cases impossible
    | last here =>
        rcases (reads_attributeRound eof).1 here with ⟨_, _, impossible⟩ | ⟨_, _, _, _, _, _, impossible⟩
        · cases impossible
        · cases impossible
    | skip here =>
        rcases (reads_attributeRound eof).1 here with ⟨_, _, impossible⟩ | ⟨_, _, _, _, _, _, impossible⟩
        · cases impossible
        · cases impossible
    | next here later ih =>
        rcases (reads_attributeRound eof).1 here with ⟨_, _, impossible⟩ | ⟨name, left, a, rfl, kind, read, same⟩
        · cases impossible
        · cases same
          rcases (reads_tagAttribute eof).1 read with ⟨noValue, rfl, rfl⟩ |
            ⟨equals, after, value, rfl, isEquals, run, rfl⟩
          · exact .absent kind noValue ih
          · exact .valued kind isEquals run ih
  · intro run
    induction run with
    | done notName => exact .stop ((reads_attributeRound eof).2 (.inl ⟨notName, rfl, rfl⟩))
    | @absent name ts rest as isName noValue later ih =>
        refine .next ((reads_attributeRound eof).2 (.inr ⟨name, ts, _, rfl, isName, ?_, rfl⟩)) ih
        exact (reads_tagAttribute eof).2 (.inl ⟨noValue, rfl, rfl⟩)
    | @valued name equals ts between rest value as isName isEquals here later ih =>
        refine .next ((reads_attributeRound eof).2 (.inr ⟨name, _, _, rfl, isName, ?_, rfl⟩)) ih
        exact (reads_tagAttribute eof).2 (.inr ⟨equals, ts, value, rfl, isEquals, here, rfl⟩)

/-! ## Tags -/

/-- An opening tag after its first mark, and whether the element is closed with
it. -/
inductive HeadRun (closing : Tok) (reader : Text → Option Expr) :
    List Tok → Text → List Attribute → Bool → List Tok → Prop
  | selfClosed {name stop : Tok} {ts rest : List Tok} {as : List Attribute}
      (isName : name.kind = .name) (attributes : AttributesRun closing reader ts as (stop :: rest))
      (stops : stop.kind = .tagSelfClose) :
      HeadRun closing reader (name :: ts) name.text as true rest
  | ended {name stop : Tok} {ts rest : List Tok} {as : List Attribute}
      (isName : name.kind = .name) (attributes : AttributesRun closing reader ts as (stop :: rest))
      (stops : stop.kind = .tagEnd) :
      HeadRun closing reader (name :: ts) name.text as (isVoid name.text) rest

/-- The closing tag of an element. -/
inductive CloseRun (tag : Text) : List Tok → List Tok → Prop
  | run {opening name stop : Tok} {rest : List Tok} (opens : opening.kind = .tagClose)
      (isName : name.kind = .name) (same : name.text = tag) (stops : stop.kind = .tagEnd) :
      CloseRun tag (opening :: name :: stop :: rest) rest

theorem reads_nameOr (eof : closing.kind = .eof) {instead : Text} {problem : Problem} {tag : Text} :
    Reads closing (nameOr instead problem) ts tag rest ↔
      ∃ name, ts = name :: rest ∧ name.kind = .name ∧ tag = name.text := by
  rw [nameOr, reads_current_bind]
  constructor
  · intro reads
    split at reads
    · rename_i isName
      cases ts with
      | nil => simp [eof] at isName
      | cons name ts =>
          obtain ⟨rfl, rfl⟩ := reads_pure.1 reads
          exact ⟨name, rfl, beq_iff_eq.1 isName, rfl⟩
    · exact absurd reads not_reads_report_bind
  · rintro ⟨name, rfl, kind, rfl⟩
    rw [ahead_cons, if_pos (beq_iff_eq.2 kind)]
    exact reads_pure.2 ⟨rfl, rfl⟩

theorem reads_expectTagEnd (eof : closing.kind = .eof) {problem : Problem} {u : Unit} :
    Reads closing (expectTagEnd problem) ts u rest ↔
      ∃ stop, ts = stop :: rest ∧ stop.kind = .tagEnd := by
  rw [expectTagEnd, reads_lookingAt_bind]
  constructor
  · intro reads
    split at reads
    · rename_i isEnd
      obtain ⟨stop, split, kind⟩ := exists_cons_of_kind eof (by decide) (beq_iff_eq.1 isEnd)
      obtain ⟨-, rfl⟩ := reads_pure.1 reads
      exact ⟨stop, split, kind⟩
    · exact absurd reads not_reads_report_bind
  · rintro ⟨stop, rfl, kind⟩
    rw [ahead_cons, if_pos (beq_iff_eq.2 kind)]
    exact reads_pure.2 ⟨rfl, rfl⟩

theorem reads_elementHead (eof : closing.kind = .eof) {opening : Tok} {head : ElementHead} :
    Reads closing (elementHead expression reader) (opening :: ts) head rest ↔
      HeadRun closing reader ts head.tag head.attributes head.closed rest := by
  rw [elementHead, reads_advance_bind, List.tail_cons, reads_bind]
  simp only [reads_nameOr eof]
  constructor
  · rintro ⟨tag, left, ⟨name, rfl, isName, rfl⟩, reads⟩
    obtain ⟨as, between, read, reads⟩ := reads_bind.1 reads
    have attributes := (reads_attributes eof).1 read
    rw [reads_lookingAt_bind] at reads
    split at reads
    · rename_i isStop
      obtain ⟨stop, split, kind⟩ := exists_cons_of_kind eof (by decide) (beq_iff_eq.1 isStop)
      rw [reads_advance_bind, reads_pure] at reads
      obtain ⟨rfl, rfl⟩ := reads
      rw [split] at attributes
      exact .selfClosed isName attributes kind
    · obtain ⟨u, after, read, ends⟩ := reads_bind.1 reads
      obtain ⟨rfl, rfl⟩ := reads_pure.1 ends
      obtain ⟨stop, rfl, kind⟩ := (reads_expectTagEnd eof).1 read
      exact .ended isName attributes kind
  · intro run
    obtain ⟨tag, as, closed⟩ := head
    simp only at run
    cases run with
    | @selfClosed name stop ts rest as isName attributes stops =>
        refine ⟨name.text, ts, ⟨name, rfl, isName, rfl⟩, ?_⟩
        refine reads_bind.2 ⟨as, stop :: rest, (reads_attributes eof).2 attributes, ?_⟩
        rw [reads_lookingAt_bind, ahead_cons, if_pos (beq_iff_eq.2 stops)]
        exact reads_pure.2 ⟨rfl, rfl⟩
    | @ended name stop ts rest as isName attributes stops =>
        refine ⟨name.text, ts, ⟨name, rfl, isName, rfl⟩, ?_⟩
        refine reads_bind.2 ⟨as, stop :: rest, (reads_attributes eof).2 attributes, ?_⟩
        rw [reads_lookingAt_bind, ahead_cons, if_neg (by simp [stops])]
        exact reads_bind.2 ⟨(), rest, (reads_expectTagEnd eof).2 ⟨stop, rfl, stops⟩,
          reads_pure.2 ⟨rfl, rfl⟩⟩

theorem reads_closingTag (eof : closing.kind = .eof) {opening : Tok} {tag : Text} {b : Bool}
    (opens : opening.kind = .tagClose) :
    Reads closing (closingTag tag) (opening :: ts) b rest ↔
      b = true ∧ CloseRun tag (opening :: ts) rest := by
  rw [closingTag, reads_advance_bind, List.tail_cons, reads_bind]
  simp only [reads_nameOr eof]
  constructor
  · rintro ⟨other, left, ⟨name, rfl, isName, rfl⟩, reads⟩
    obtain ⟨u, between, read, after⟩ := reads_bind.1 reads
    clear reads
    obtain ⟨stop, rfl, kind⟩ := (reads_expectTagEnd eof).1 read
    split at after
    · rename_i same
      obtain ⟨rfl, rfl⟩ := reads_pure.1 after
      exact ⟨rfl, .run opens isName (beq_iff_eq.1 same) kind⟩
    · exact absurd after not_reads_report_bind
  · rintro ⟨rfl, run⟩
    cases run with
    | @run _ name stop rest opens isName same stops =>
        refine ⟨name.text, stop :: rest, ⟨name, rfl, isName, rfl⟩, ?_⟩
        refine reads_bind.2 ⟨(), rest, (reads_expectTagEnd eof).2 ⟨stop, rfl, stops⟩, ?_⟩
        rw [if_pos (beq_iff_eq.2 same)]
        exact reads_pure.2 ⟨rfl, rfl⟩

/-! ## Nodes -/

/-- The token starts no node and ends no element. -/
def isIdle (t : Tok) : Bool :=
  !(t.kind == .text || t.kind == .comment || t.kind == .tagOpen || t.kind == .interpStart
    || t.kind == .tagClose)

/-- A node whose children `content` reads, given the tag. -/
inductive NodeStep (closing : Tok) (reader : Text → Option Expr)
    (content : Text → List Tok → List Node → List Tok → Prop) : List Tok → Node → List Tok → Prop
  | text {t : Tok} {rest : List Tok} (kind : t.kind = .text) :
      NodeStep closing reader content (t :: rest) (.text t.text) rest
  | comment {t : Tok} {rest : List Tok} (kind : t.kind = .comment) :
      NodeStep closing reader content (t :: rest) (.comment t.text) rest
  | interpolation {ts rest : List Tok} {e : Expr} (here : InterpolationRun ts e rest) :
      NodeStep closing reader content ts (.interpolation e) rest
  | closed {opening : Tok} {ts rest : List Tok} {tag : Text} {as : List Attribute}
      (opens : opening.kind = .tagOpen) (head : HeadRun closing reader ts tag as true rest) :
      NodeStep closing reader content (opening :: ts) (.element tag as [] true) rest
  | opened {opening : Tok} {ts between rest : List Tok} {tag : Text} {as : List Attribute}
      {children : List Node} (opens : opening.kind = .tagOpen)
      (head : HeadRun closing reader ts tag as false between)
      (inner : content tag between children rest) :
      NodeStep closing reader content (opening :: ts) (.element tag as children false) rest

/-- The children of an element and its closing tag. -/
inductive ContentRun (item : List Tok → Node → List Tok → Prop) (tag : Text) :
    List Tok → List Node → List Tok → Prop
  | stop {ts rest : List Tok} (closes : CloseRun tag ts rest) : ContentRun item tag ts [] rest
  | next {ts between rest : List Tok} {n : Node} {ns : List Node} (here : item ts n between)
      (later : ContentRun item tag between ns rest) : ContentRun item tag ts (n :: ns) rest
  | skip {t : Tok} {ts rest : List Tok} {ns : List Node} (idle : isIdle t = true)
      (later : ContentRun item tag ts ns rest) : ContentRun item tag (t :: ts) ns rest

/-- A node inside which at most `levels` elements stand open. -/
def NodeRun (closing : Tok) (reader : Text → Option Expr) :
    (levels : Nat) → List Tok → Node → List Tok → Prop
  | 0 => NodeStep closing reader fun _ _ _ _ => False
  | levels + 1 => NodeStep closing reader (ContentRun (NodeRun closing reader levels))

/-- All nodes of a document. -/
inductive DocumentRun (item : List Tok → Node → List Tok → Prop) : List Tok → List Node → Prop
  | stop : DocumentRun item [] []
  | next {ts between : List Tok} {n : Node} {ns : List Node} (here : item ts n between)
      (later : DocumentRun item between ns) : DocumentRun item ts (n :: ns)
  | skip {t : Tok} {ts : List Tok} {ns : List Node} (idle : isIdle t = true)
      (later : DocumentRun item ts ns) : DocumentRun item (t :: ts) ns

theorem reads_interpolation (eof : closing.kind = .eof) {n : Node}
    (opens : (ahead closing ts).kind = .interpStart) :
    Reads closing (interpolation expression) ts n rest ↔
      ∃ e, InterpolationRun ts e rest ∧ n = .interpolation e := by
  obtain ⟨opening, split, kind⟩ := exists_cons_of_kind eof (by decide) opens
  rw [interpolation, reads_advance_bind, reads_expression_close eof]
  constructor
  · rintro ⟨toks, e, closes, tail, spelled, high, isEnd, rfl⟩
    rw [split, tail]
    exact ⟨e, .run kind spelled high isEnd, rfl⟩
  · rintro ⟨e, run, rfl⟩
    cases run with
    | @run opening closes toks rest e opens spelled high isEnd =>
        exact ⟨toks, e, closes, rfl, spelled, high, isEnd, rfl⟩

theorem reads_element (eof : closing.kind = .eof) {content : Text → MarkupParser (List Node)}
    [∀ tag, Forward (content tag)] {opening : Tok} {n : Node} :
    Reads closing (element expression reader content) (opening :: ts) n rest ↔
      (∃ tag as, HeadRun closing reader ts tag as true rest ∧ n = .element tag as [] true) ∨
        ∃ tag as between children, HeadRun closing reader ts tag as false between ∧
          Reads closing (content tag) between children rest ∧
          n = .element tag as children false := by
  rw [element, reads_bind]
  simp only [reads_elementHead eof]
  constructor
  · rintro ⟨⟨tag, as, closed⟩, between, head, reads⟩
    cases closed with
    | true =>
        obtain ⟨rfl, rfl⟩ := reads_pure.1 reads
        exact .inl ⟨tag, as, head, rfl⟩
    | false =>
        obtain ⟨children, after, read, ends⟩ := reads_bind.1 reads
        obtain ⟨rfl, rfl⟩ := reads_pure.1 ends
        exact .inr ⟨tag, as, between, children, head, read, rfl⟩
  · rintro (⟨tag, as, head, rfl⟩ | ⟨tag, as, between, children, head, read, rfl⟩)
    · exact ⟨⟨tag, as, true⟩, rest, head, reads_pure.2 ⟨rfl, rfl⟩⟩
    · exact ⟨⟨tag, as, false⟩, between, head, reads_bind.2 ⟨children, rest, read,
        reads_pure.2 ⟨rfl, rfl⟩⟩⟩

theorem reads_nodeWith (eof : closing.kind = .eof) {parser : Text → MarkupParser (List Node)}
    [∀ tag, Forward (parser tag)] {content : Text → List Tok → List Node → List Tok → Prop}
    (spec : ∀ tag ts ns rest, Reads closing (parser tag) ts ns rest ↔ content tag ts ns rest)
    {r : Option Node} :
    Reads closing (nodeWith expression (element expression reader parser)) ts r rest ↔
      (∃ n, NodeStep closing reader content ts n rest ∧ r = some n) ∨
        (isIdle (ahead closing ts) = true ∧ rest = ts.tail ∧ r = none) := by
  rw [nodeWith, reads_current_bind]
  constructor
  · intro reads
    split at reads
    · rename_i kind
      cases ts with
      | nil => simp [eof] at kind
      | cons t ts =>
          obtain ⟨rfl, rfl⟩ := reads_pure.1 reads
          exact .inl ⟨_, .text kind, rfl⟩
    · rename_i kind
      cases ts with
      | nil => simp [eof] at kind
      | cons t ts =>
          obtain ⟨rfl, rfl⟩ := reads_pure.1 reads
          exact .inl ⟨_, .comment kind, rfl⟩
    · rename_i kind
      obtain ⟨n, read, rfl⟩ := reads_map.1 reads
      cases ts with
      | nil => simp [eof] at kind
      | cons opening ts =>
          rcases (reads_element eof).1 read with ⟨tag, as, head, rfl⟩ |
            ⟨tag, as, between, children, head, inner, rfl⟩
          · exact .inl ⟨_, .closed kind head, rfl⟩
          · exact .inl ⟨_, .opened kind head ((spec _ _ _ _).1 inner), rfl⟩
    · rename_i kind
      obtain ⟨n, read, rfl⟩ := reads_map.1 reads
      obtain ⟨e, run, rfl⟩ := (reads_interpolation eof kind).1 read
      exact .inl ⟨_, .interpolation run, rfl⟩
    · exact absurd reads not_reads_report_bind
    · rename_i notText notComment notOpen notInterp notClose
      obtain ⟨rfl, rfl⟩ := reads_pure.1 reads
      refine .inr ⟨?_, rfl, rfl⟩
      simp only [isIdle, Bool.not_eq_true', Bool.or_eq_false_iff, beq_eq_false_iff_ne]
      exact ⟨⟨⟨⟨notText, notComment⟩, notOpen⟩, notInterp⟩, notClose⟩
  · rintro (⟨n, step, rfl⟩ | ⟨idle, rfl, rfl⟩)
    · cases step with
      | text kind =>
          simp only [ahead_cons, kind]
          exact reads_pure.2 ⟨rfl, rfl⟩
      | comment kind =>
          simp only [ahead_cons, kind]
          exact reads_pure.2 ⟨rfl, rfl⟩
      | interpolation here =>
          have opens : (ahead closing ts).kind = .interpStart := by
            cases here
            assumption
          simp only [opens]
          exact reads_map.2 ⟨_, (reads_interpolation eof opens).2 ⟨_, here, rfl⟩, rfl⟩
      | closed opens head =>
          simp only [ahead_cons, opens]
          exact reads_map.2 ⟨_, (reads_element eof).2 (.inl ⟨_, _, head, rfl⟩), rfl⟩
      | opened opens head inner =>
          simp only [ahead_cons, opens]
          exact reads_map.2 ⟨_, (reads_element eof).2 (.inr ⟨_, _, _, _, head,
            (spec _ _ _ _).2 inner, rfl⟩), rfl⟩
    · simp only [isIdle, Bool.not_eq_true', Bool.or_eq_false_iff, beq_eq_false_iff_ne] at idle
      obtain ⟨⟨⟨⟨notText, notComment⟩, notOpen⟩, notInterp⟩, notClose⟩ := idle
      split <;> try contradiction
      exact reads_pure.2 ⟨rfl, rfl⟩

theorem HeadRun.length_lt {tag : Text} {as : List Attribute} {closed : Bool}
    (run : HeadRun closing reader ts tag as closed rest) : rest.length < ts.length := by
  have attributes : ∀ {ts between : List Tok} {as : List Attribute},
      AttributesRun closing reader ts as between → between.length ≤ ts.length := by
    intro ts between as run
    induction run with
    | done notName => exact Nat.le_refl _
    | absent isName noValue later ih => exact Nat.le_succ_of_le ih
    | valued isName isEquals here later ih =>
        exact Nat.le_succ_of_le (Nat.le_succ_of_le (Nat.le_trans ih here.length_le))
  cases run with
  | selfClosed isName run stops => exact Nat.lt_succ_of_lt (attributes run)
  | ended isName run stops => exact Nat.lt_succ_of_lt (attributes run)

theorem NodeStep.length_lt {content : Text → List Tok → List Node → List Tok → Prop} {n : Node}
    (shorter : ∀ tag ts ns rest, content tag ts ns rest → rest.length ≤ ts.length)
    (step : NodeStep closing reader content ts n rest) : rest.length < ts.length := by
  cases step with
  | text kind => exact Nat.lt_succ_self _
  | comment kind => exact Nat.lt_succ_self _
  | interpolation here => exact here.length_lt
  | closed opens head => exact Nat.lt_succ_of_lt head.length_lt
  | opened opens head inner =>
      have inside := shorter _ _ _ _ inner
      have front := head.length_lt
      simp only [List.length_cons]
      omega

theorem ContentRun.length_le {item : List Tok → Node → List Tok → Prop} {tag : Text} {ns : List Node}
    (shorter : ∀ ts n rest, item ts n rest → rest.length < ts.length)
    (run : ContentRun item tag ts ns rest) : rest.length ≤ ts.length := by
  induction run with
  | stop closes =>
      cases closes
      simp only [List.length_cons]
      omega
  | next here later ih => exact Nat.le_trans ih (Nat.le_of_lt (shorter _ _ _ here))
  | skip idle later ih => exact Nat.le_succ_of_le ih

theorem NodeRun.length_lt {levels : Nat} {n : Node} (run : NodeRun closing reader levels ts n rest) :
    rest.length < ts.length := by
  induction levels generalizing ts n rest with
  | zero => exact NodeStep.length_lt (fun _ _ _ _ impossible => impossible.elim) run
  | succ levels ih =>
      exact NodeStep.length_lt (fun _ _ _ _ inner => inner.length_le fun _ _ _ here => ih here) run

section

variable {item : List Tok → Node → List Tok → Prop} {parser : MarkupParser (Option Node)}
  [Forward parser]

/-- The parser reads the nodes of `item` and passes over idle tokens. -/
structure ReadsNodes (closing : Tok) (parser : MarkupParser (Option Node))
    (item : List Tok → Node → List Tok → Prop) : Prop where
  reads_iff (ts : List Tok) (r : Option Node) (rest : List Tok) :
    Reads closing parser ts r rest ↔ (∃ n, item ts n rest ∧ r = some n) ∨
      (isIdle (ahead closing ts) = true ∧ rest = ts.tail ∧ r = none)
  shorter {ts : List Tok} {n : Node} {rest : List Tok} (here : item ts n rest) :
    rest.length < ts.length
  starts {t : Tok} {ts : List Tok} {n : Node} {rest : List Tok} (here : item (t :: ts) n rest) :
    t.kind ≠ .tagClose

theorem forward_roundOf (found : Option Node) : Forward (match found with
    | some n => pure (.next n)
    | none => pure .skip : MarkupParser (Round Node)) := by
  cases found <;> infer_instance

theorem reads_nodeRound (spec : ReadsNodes closing parser item) {r : Round Node} :
    Reads closing (nodeRound parser) ts r rest ↔ (∃ n, item ts n rest ∧ r = .next n) ∨
      (isIdle (ahead closing ts) = true ∧ rest = ts.tail ∧ r = .skip) := by
  have after := forward_roundOf
  rw [nodeRound, reads_bind]
  simp only [spec.reads_iff]
  constructor
  · rintro ⟨found, between, ⟨n, here, rfl⟩ | ⟨idle, rfl, rfl⟩, ends⟩
    · obtain ⟨rfl, rfl⟩ := reads_pure.1 ends
      exact .inl ⟨n, here, rfl⟩
    · obtain ⟨rfl, rfl⟩ := reads_pure.1 ends
      exact .inr ⟨idle, rfl, rfl⟩
  · rintro (⟨n, here, rfl⟩ | ⟨idle, rfl, rfl⟩)
    · exact ⟨some n, rest, .inl ⟨n, here, rfl⟩, reads_pure.2 ⟨rfl, rfl⟩⟩
    · exact ⟨none, ts.tail, .inr ⟨idle, rfl, rfl⟩, reads_pure.2 ⟨rfl, rfl⟩⟩

/-- The name of the closing tag that comes next. -/
def nameAhead? (ts : List Tok) : Option Text :=
  ts.tail.head?.bind fun t => if t.kind == .name then some t.text else none

theorem reads_closingName? (ts : List Tok) : Reads closing closingName? ts (nameAhead? ts) ts := by
  match ts with
  | [] => rfl
  | [_] => rfl
  | _ :: _ :: _ => rfl

/-- Only a name other than the element's own can be that of an ancestor. -/
theorem forward_isAncestor (tag : Text) (openTags : List Text) (found : Option Text) :
    Forward (match found with
      | some name => pure (name != tag && openTags.contains name)
      | none => pure false : MarkupParser Bool) := by
  cases found <;> infer_instance

theorem reads_closesAncestor (tag : Text) (openTags : List Text) (ts : List Tok) :
    Reads closing (closesAncestor tag openTags) ts
      ((nameAhead? ts).any fun name => name != tag && openTags.contains name) ts := by
  have after := forward_isAncestor tag openTags
  rw [closesAncestor, reads_bind]
  refine ⟨nameAhead? ts, ts, reads_closingName? ts, ?_⟩
  cases nameAhead? ts with
  | none => exact reads_pure.2 ⟨rfl, rfl⟩
  | some name => exact reads_pure.2 ⟨rfl, rfl⟩

theorem reads_childRound (eof : closing.kind = .eof) (spec : ReadsNodes closing parser item)
    {tag : Text} {openTags : List Text} {r : Round Node} :
    Reads closing (childRound parser tag openTags) ts r rest ↔
      (CloseRun tag ts rest ∧ r = .stop) ∨ (∃ n, item ts n rest ∧ r = .next n) ∨
        ∃ t, ts = t :: rest ∧ isIdle t = true ∧ r = .skip := by
  rw [childRound, reads_atEnd_bind]
  cases ts with
  | nil =>
      refine iff_of_false not_reads_report_bind ?_
      rintro (⟨closes, -⟩ | ⟨n, here, -⟩ | ⟨t, split, -⟩)
      · cases closes
      · exact absurd (spec.shorter here) (Nat.not_lt_zero _)
      · cases split
  | cons t ts =>
      simp only [List.isEmpty_cons, Bool.false_eq_true, if_false]
      rw [reads_lookingAt_bind]
      by_cases isClose : t.kind = .tagClose
      · rw [ahead_cons, if_pos (beq_iff_eq.2 isClose), reads_bind]
        constructor
        · rintro ⟨b, between, looks, reads⟩
          obtain ⟨rfl, rfl⟩ := looks.unique (reads_closesAncestor tag openTags (t :: ts))
          split at reads
          · exact absurd reads not_reads_report_bind
          · obtain ⟨b, between, read, ends⟩ := reads_bind.1 reads
            obtain ⟨rfl, closes⟩ := (reads_closingTag eof isClose).1 read
            obtain ⟨rfl, rfl⟩ := reads_pure.1 ends
            exact .inl ⟨closes, rfl⟩
        · rintro (⟨closes, rfl⟩ | ⟨n, here, -⟩ | ⟨u, split, idle, -⟩)
          · refine ⟨_, _, reads_closesAncestor tag openTags (t :: ts), ?_⟩
            have notAncestor : (nameAhead? (t :: ts)).any
                (fun name => name != tag && openTags.contains name) = false := by
              cases closes with
              | run opens isName same stops => simp [nameAhead?, isName, same]
            rw [notAncestor]
            exact reads_bind.2 ⟨true, rest, (reads_closingTag eof isClose).2 ⟨rfl, closes⟩,
              reads_pure.2 ⟨rfl, rfl⟩⟩
          · exact absurd isClose (spec.starts here)
          · cases split
            simp [isIdle, isClose] at idle
      · rw [ahead_cons, if_neg (by simpa using isClose), reads_nodeRound spec]
        constructor
        · rintro (found | ⟨idle, rfl, rfl⟩)
          · exact .inr (.inl found)
          · exact .inr (.inr ⟨t, rfl, idle, rfl⟩)
        · rintro (⟨closes, -⟩ | found | ⟨u, split, idle, rfl⟩)
          · cases closes
            contradiction
          · exact .inl found
          · cases split
            exact .inr ⟨idle, rfl, rfl⟩

theorem consumes_childRound (eof : closing.kind = .eof) (spec : ReadsNodes closing parser item)
    (tag : Text) (openTags : List Text) : Consumes closing (childRound parser tag openTags) := by
  intro ts r rest reads goesOn
  rcases (reads_childRound eof spec).1 reads with ⟨-, rfl⟩ | ⟨n, here, -⟩ | ⟨t, rfl, -, -⟩
  · cases goesOn
  · exact spec.shorter here
  · exact Nat.lt_succ_self _

theorem reads_children (eof : closing.kind = .eof) (spec : ReadsNodes closing parser item)
    {tag : Text} {openTags : List Text} {ns : List Node} :
    Reads closing (children parser tag openTags) ts ns rest ↔ ContentRun item tag ts ns rest := by
  rw [children, reads_collect (consumes_childRound eof spec tag openTags)]
  constructor
  · intro rounds
    induction rounds with
    | stop here =>
        rcases (reads_childRound eof spec).1 here with ⟨closes, -⟩ | ⟨_, _, impossible⟩ |
          ⟨_, _, _, impossible⟩
        · exact .stop closes
        · cases impossible
        · cases impossible
    | last here =>
        rcases (reads_childRound eof spec).1 here with ⟨_, impossible⟩ | ⟨_, _, impossible⟩ |
          ⟨_, _, _, impossible⟩ <;> cases impossible
    | skip here later ih =>
        rcases (reads_childRound eof spec).1 here with ⟨_, impossible⟩ | ⟨_, _, impossible⟩ |
          ⟨t, rfl, idle, -⟩
        · cases impossible
        · cases impossible
        · exact .skip idle ih
    | next here later ih =>
        rcases (reads_childRound eof spec).1 here with ⟨_, impossible⟩ | ⟨n, found, same⟩ |
          ⟨_, _, _, impossible⟩
        · cases impossible
        · cases same
          exact .next found ih
        · cases impossible
  · intro run
    induction run with
    | stop closes => exact .stop ((reads_childRound eof spec).2 (.inl ⟨closes, rfl⟩))
    | next here later ih =>
        exact .next ((reads_childRound eof spec).2 (.inr (.inl ⟨_, here, rfl⟩))) ih
    | skip idle later ih =>
        exact .skip ((reads_childRound eof spec).2 (.inr (.inr ⟨_, rfl, idle, rfl⟩))) ih

end

theorem readsNodes_node (eof : closing.kind = .eof) (levels : Nat) (openTags : List Text) :
    ReadsNodes closing (node expression reader levels openTags) (NodeRun closing reader levels) := by
  have starts : ∀ {content : Text → List Tok → List Node → List Tok → Prop} {t : Tok}
      {ts : List Tok} {n : Node} {rest : List Tok},
      NodeStep closing reader content (t :: ts) n rest → t.kind ≠ .tagClose := by
    intro content t ts n rest step
    cases step with
    | text kind => simp [kind]
    | comment kind => simp [kind]
    | interpolation here =>
        cases here with
        | run opens => simp [opens]
    | closed opens head => simp [opens]
    | opened opens head inner => simp [opens]
  induction levels generalizing openTags with
  | zero =>
      refine ⟨fun ts r rest => ?_, NodeRun.length_lt, starts⟩
      rw [node]
      exact reads_nodeWith eof fun tag ts ns rest => iff_of_false not_reads_report_bind id
  | succ levels ih =>
      refine ⟨fun ts r rest => ?_, NodeRun.length_lt, starts⟩
      rw [node]
      exact reads_nodeWith eof fun tag ts ns rest => reads_children eof (ih (tag :: openTags))

theorem reads_documentRound (eof : closing.kind = .eof) {r : Round Node} :
    Reads closing (documentRound (node expression reader elementLimit [])) ts r rest ↔
      (ts = [] ∧ rest = [] ∧ r = .stop) ∨
      (∃ n, NodeRun closing reader elementLimit ts n rest ∧ r = .next n) ∨
        ∃ t, ts = t :: rest ∧ isIdle t = true ∧ r = .skip := by
  have spec : ReadsNodes closing (node expression reader elementLimit [])
      (NodeRun closing reader elementLimit) := readsNodes_node eof elementLimit []
  rw [documentRound, reads_atEnd_bind]
  cases ts with
  | nil =>
      rw [if_pos List.isEmpty_nil, reads_pure]
      constructor
      · rintro ⟨rfl, rfl⟩
        exact .inl ⟨rfl, rfl, rfl⟩
      · rintro (⟨-, rfl, rfl⟩ | ⟨n, here, -⟩ | ⟨t, split, -⟩)
        · exact ⟨rfl, rfl⟩
        · exact absurd (spec.shorter here) (Nat.not_lt_zero _)
        · cases split
  | cons t ts =>
      rw [if_neg (by simp), reads_nodeRound spec]
      constructor
      · rintro (found | ⟨idle, rfl, rfl⟩)
        · exact .inr (.inl found)
        · exact .inr (.inr ⟨t, rfl, idle, rfl⟩)
      · rintro (⟨split, -⟩ | found | ⟨u, split, idle, rfl⟩)
        · cases split
        · exact .inl found
        · cases split
          exact .inr ⟨idle, rfl, rfl⟩

/-- A document is read without a report exactly when it is a run of nodes. -/
theorem reads_document (eof : closing.kind = .eof) {ns : List Node} :
    Reads closing (document reader) ts ns rest ↔
      rest = [] ∧ DocumentRun (NodeRun closing reader elementLimit) ts ns := by
  have consumes : Consumes closing (documentRound (node expression reader elementLimit [])) := by
    intro ts r rest reads goesOn
    rcases (reads_documentRound eof).1 reads with ⟨-, -, rfl⟩ | ⟨n, here, -⟩ | ⟨t, rfl, -, -⟩
    · cases goesOn
    · exact here.length_lt
    · exact Nat.lt_succ_self _
  rw [document, reads_collect consumes]
  constructor
  · intro rounds
    induction rounds with
    | stop here =>
        rcases (reads_documentRound eof).1 here with ⟨rfl, rfl, -⟩ | ⟨_, _, impossible⟩ |
          ⟨_, _, _, impossible⟩
        · exact ⟨rfl, .stop⟩
        · cases impossible
        · cases impossible
    | last here =>
        rcases (reads_documentRound eof).1 here with ⟨_, _, impossible⟩ | ⟨_, _, impossible⟩ |
          ⟨_, _, _, impossible⟩ <;> cases impossible
    | skip here later ih =>
        rcases (reads_documentRound eof).1 here with ⟨_, _, impossible⟩ | ⟨_, _, impossible⟩ |
          ⟨t, rfl, idle, -⟩
        · cases impossible
        · cases impossible
        · exact ⟨ih.1, .skip idle ih.2⟩
    | next here later ih =>
        rcases (reads_documentRound eof).1 here with ⟨_, _, impossible⟩ | ⟨n, found, same⟩ |
          ⟨_, _, _, impossible⟩
        · cases impossible
        · cases same
          exact ⟨ih.1, .next found ih.2⟩
        · cases impossible
  · rintro ⟨rfl, run⟩
    induction run with
    | stop => exact .stop ((reads_documentRound eof).2 (.inl ⟨rfl, rfl, rfl⟩))
    | next here later ih =>
        exact .next ((reads_documentRound eof).2 (.inr (.inl ⟨_, here, rfl⟩))) ih
    | skip idle later ih =>
        exact .skip ((reads_documentRound eof).2 (.inr (.inr ⟨_, rfl, idle, rfl⟩))) ih

end UiFormat.Markup

/-
# UiFormat.Proofs.Markup.Nesting -- the open elements and the depth of expressions

The parser is told how many more elements and expressions it may open inside each other,
and which elements are open.  The same can be kept in two counters: the open tags, with a
tag put on before the children of an element are read and taken off behind them, and the
number of expressions the parser is inside of, raised before an expression and lowered
behind it.  `countedExpression`, `countedElement` and `countedNode` are the readers that
go by such counters.  They know no limit but the one that a counter has reached, so their
calls inside each other are bounded by fuel.

What holds the counters may hold more than them, such as a record of what they were
(`Counters`).  `watchedExpression`, `watchedElement` and `watchedNode` are the same readers
with any such holder; with the counters alone they are the counted ones.

With more fuel than the limits leave room for, they do what the plain readers do, and
leave the counters as they found them, whether or not anything was reported
(`shadows_watchedExpression`, `shadows_watchedElement`, `shadows_watchedNode`).  The fuel
is never used up: the calls end at the limits.  What is asked of the holder for that is
asked only where the limits leave room (`Counts`).
-/
import UiFormat.Markup.Parser
import UiFormat.Proofs.Parse.Keeping

namespace UiFormat.Markup

open UiFormat.Text
open UiFormat.Parse

set_option autoImplicit false

/-! ## Counters -/

/-- The open tags, innermost first, and how many expressions the parser is inside of. -/
structure Nesting where
  openTags : List Text
  depth : Nat

/-- Nothing is open. -/
def Nesting.outermost : Nesting := { openTags := [], depth := 0 }

def Nesting.open (tag : Text) (here : Nesting) : Nesting :=
  { here with openTags := tag :: here.openTags }

def Nesting.close (here : Nesting) : Nesting :=
  { here with openTags := here.openTags.tail }

def Nesting.deepen (here : Nesting) : Nesting :=
  { here with depth := here.depth + 1 }

def Nesting.surface (here : Nesting) : Nesting :=
  { here with depth := here.depth - 1 }

/-- A parser with counters. -/
abbrev Counting := Keeper Nesting (State Kind Problem)

/-- A complete expression inside which others are read by `nested`.  The height of its
tree is tested outside all others. -/
def countedLevel (nested : Counting Expr) : Counting Expr := do
  if ← looking endsExpression then
    report .expectedExpression
    return .hole
  else
    let here ← kept
    if expressionLimit ≤ here.depth then
      report .expressionTooDeep
      skipWhile (·.kind != .interpEnd)
      return .hole
    else
      keep Nesting.deepen
      let e ← assignment nested
      keep Nesting.surface
      let behind ← kept
      if behind.depth = 0 ∧ heightLimit < e.height then report .treeTooHigh
      return e

/-- A complete expression. -/
def countedExpression : (fuel : Nat) → Counting Expr
  | 0 => pure .hole
  | fuel + 1 => countedLevel (countedExpression fuel)

/-- The children of the element `tag`, unless too many elements are open. -/
def countedContent (node : Counting (Option Node)) (tag : Text) : Counting (List Node) := do
  let here ← kept
  if elementLimit ≤ here.openTags.length then
    report .elementsTooDeep
    skipWhile fun _ => true
    return []
  else
    keep (Nesting.open tag)
    let found ← collect do
      let inside ← kept
      childRound node tag inside.openTags
    keep Nesting.close
    return found

/-- An element whose children are read by `node`. -/
def countedElement (embedded : Counting Expr) (reader : Text → Option Expr)
    (node : Counting (Option Node)) : Counting Node :=
  element embedded reader (countedContent node)

/-- The node that comes next. -/
def countedNode (embedded : Counting Expr) (reader : Text → Option Expr) :
    (fuel : Nat) → Counting (Option Node)
  | 0 => pure none
  | fuel + 1 => nodeWith embedded (countedElement embedded reader (countedNode embedded reader fuel))

/-- All nodes of a source. -/
def countedDocument (reader : Text → Option Expr) (fuel : Nat) : Counting (List Node) :=
  collect (documentRound (countedNode (countedExpression fuel) reader fuel))

/-! ## Counters inside something else -/

/-- Values that hold the counters, and maybe more. -/
class Counters (ν : Type) where
  nesting : ν → Nesting
  change : (Nesting → Nesting) → ν → ν

instance : Counters Nesting where
  nesting here := here
  change f := f

/-- A parser with a value that holds counters. -/
abbrev Watching (ν : Type) := Keeper ν (State Kind Problem)

section

variable {ν : Type} [Counters ν]

/-- The counters. -/
def counters : Watching ν Nesting := fun s v => (Counters.nesting v, s, v)

/-- Changes the counters. -/
def recount (f : Nesting → Nesting) : Watching ν Unit :=
  keep (Counters.change f)

/-- A complete expression inside which others are read by `nested`. -/
def watchedLevel (nested : Watching ν Expr) : Watching ν Expr := do
  if ← looking endsExpression then
    report .expectedExpression
    return .hole
  else
    let here ← counters
    if expressionLimit ≤ here.depth then
      report .expressionTooDeep
      skipWhile (·.kind != .interpEnd)
      return .hole
    else
      recount Nesting.deepen
      let e ← assignment nested
      recount Nesting.surface
      let behind ← counters
      if behind.depth = 0 ∧ heightLimit < e.height then report .treeTooHigh
      return e

/-- A complete expression. -/
def watchedExpression : (fuel : Nat) → Watching ν Expr
  | 0 => pure .hole
  | fuel + 1 => watchedLevel (watchedExpression fuel)

/-- The children of the element `tag`, unless too many elements are open. -/
def watchedContent (node : Watching ν (Option Node)) (tag : Text) : Watching ν (List Node) := do
  let here ← counters
  if elementLimit ≤ here.openTags.length then
    report .elementsTooDeep
    skipWhile fun _ => true
    return []
  else
    recount (Nesting.open tag)
    let found ← collect do
      let inside ← counters
      childRound node tag inside.openTags
    recount Nesting.close
    return found

/-- An element whose children are read by `node`. -/
def watchedElement (embedded : Watching ν Expr) (reader : Text → Option Expr)
    (node : Watching ν (Option Node)) : Watching ν Node :=
  element embedded reader (watchedContent node)

/-- The node that comes next. -/
def watchedNode (embedded : Watching ν Expr) (reader : Text → Option Expr) :
    (fuel : Nat) → Watching ν (Option Node)
  | 0 => pure none
  | fuel + 1 => nodeWith embedded (watchedElement embedded reader (watchedNode embedded reader fuel))

/-- All nodes of a source. -/
def watchedDocument (reader : Text → Option Expr) (fuel : Nat) : Watching ν (List Node) :=
  collect (documentRound (watchedNode (watchedExpression fuel) reader fuel))

end

/-! With the counters alone, these are the readers that count. -/

theorem counters_eq : (counters : Counting Nesting) = kept := rfl

theorem recount_eq (f : Nesting → Nesting) : (recount f : Counting Unit) = keep f := rfl

theorem watchedExpression_eq (fuel : Nat) :
    watchedExpression fuel = (countedExpression fuel : Counting Expr) := by
  induction fuel with
  | zero => rfl
  | succ fuel ih =>
      rw [watchedExpression, countedExpression, ih, watchedLevel, countedLevel]
      simp only [counters_eq, recount_eq]

theorem watchedNode_eq (embedded : Counting Expr) (reader : Text → Option Expr) (fuel : Nat) :
    watchedNode embedded reader fuel = countedNode embedded reader fuel := by
  have contents : ∀ (node : Counting (Option Node)) (tag : Text),
      watchedContent node tag = countedContent node tag := by
    intro node tag
    rw [watchedContent, countedContent]
    simp only [counters_eq, recount_eq]
  induction fuel with
  | zero => rfl
  | succ fuel ih =>
      rw [watchedNode, countedNode, ih, watchedElement, countedElement]
      simp only [funext (contents _)]

/-- `ok here` holds of values whose counters stand at `here`.  It is kept where the counters
are raised, as long as the limits leave room, and where they are lowered again. -/
structure Counts {ν : Type} [Counters ν] (ok : Nesting → ν → Prop) : Prop where
  stands {here : Nesting} {v : ν} (fine : ok here v) : Counters.nesting v = here
  deepens {here : Nesting} (room : here.depth < expressionLimit) {v : ν} (fine : ok here v) :
    ok here.deepen (Counters.change Nesting.deepen v)
  surfaces {here : Nesting} {v : ν} (fine : ok here.deepen v) :
    ok here (Counters.change Nesting.surface v)
  opens {here : Nesting} (tag : Text) (room : here.openTags.length < elementLimit) {v : ν}
    (fine : ok here v) : ok (here.open tag) (Counters.change (Nesting.open tag) v)
  closes {here : Nesting} {tag : Text} {v : ν} (fine : ok (here.open tag) v) :
    ok here (Counters.change Nesting.close v)

/-- Counters alone. -/
theorem counts_nesting : Counts fun here v : Nesting => v = here where
  stands fine := fine
  deepens _ _ fine := by rw [fine]; rfl
  surfaces fine := by rw [fine]; rfl
  opens _ _ _ fine := by rw [fine]; rfl
  closes fine := by rw [fine]; rfl

theorem shadows_counters {ν α : Type} [Counters ν] {ok : Nesting → ν → Prop} (counts : Counts ok)
    {here : Nesting} {f : Nesting → Watching ν α} {p : MarkupParser α}
    (later : Shadows (ok here) (f here) p) : Shadows (ok here) (counters >>= f) p where
  run_eq s v fine := by
    show ∃ w, ok here w ∧ f (Counters.nesting v) s v = _
    rw [counts.stands fine]
    exact later.run_eq s fine

/-- Counters that are changed and changed back. -/
theorem shadows_recounted {ν α β : Type} [Counters ν] {ok within : ν → Prop}
    {change restore : Nesting → Nesting} {inside : Watching ν β} {r : MarkupParser β}
    {f : β → Watching ν α} {g : β → MarkupParser α}
    (enter : ∀ v, ok v → within (Counters.change change v))
    (leave : ∀ v, within v → ok (Counters.change restore v))
    [Shadows within inside r] [∀ b, Shadows ok (f b) (g b)] :
    Shadows ok (do recount change; let b ← inside; recount restore; f b) (r >>= g) :=
  shadows_between enter leave

/-! ## Readers of expressions -/

section

variable {ν : Type} {ok : ν → Prop}

instance shadows_expectPunctuator (c : Char) :
    Shadows ok (expectPunctuator c : Watching ν Unit) (expectPunctuator c) := by
  unfold expectPunctuator; infer_instance

instance shadows_expectOperator (c : Char) :
    Shadows ok (expectOperator c : Watching ν Unit) (expectOperator c) := by
  unfold expectOperator; infer_instance

instance shadows_rejectToken (problem : Problem) :
    Shadows ok (rejectToken problem : Watching ν Unit) (rejectToken problem) := by
  unfold rejectToken; infer_instance

section

variable {α : Type} {item : Watching ν α} {plain : MarkupParser α} [Shadows ok item plain]

instance shadows_listRound (closing : Char) (what : String) :
    Shadows ok (listRound closing what item) (listRound closing what plain) := by
  unfold listRound; infer_instance

instance shadows_listBetween (opening closing : Char) (what : String) :
    Shadows ok (listBetween opening closing what item) (listBetween opening closing what plain) := by
  unfold listBetween; infer_instance

end

section

variable {nested : Watching ν Expr} {plain : MarkupParser Expr} [Shadows ok nested plain]

instance shadows_objectKey : Shadows ok (objectKey nested) (objectKey plain) := by
  unfold objectKey
  refine @shadows_bind _ _ _ _ _ _ _ _ _ _ fun t => ?_
  generalize t.kind = kind
  cases kind <;> infer_instance

instance shadows_objectEntry : Shadows ok (objectEntry nested) (objectEntry plain) := by
  unfold objectEntry; infer_instance

instance shadows_primary : Shadows ok (primary nested) (primary plain) := by
  unfold primary
  refine @shadows_bind _ _ _ _ _ _ _ _ _ _ fun t => ?_
  cases literalKind? t.kind <;> infer_instance

instance shadows_postfixRound (value : Expr) :
    Shadows ok (postfixRound nested value) (postfixRound plain value) := by
  unfold postfixRound; infer_instance

instance shadows_postfixed : Shadows ok (postfixed nested) (postfixed plain) := by
  unfold postfixed; infer_instance

instance shadows_unary : Shadows ok (unary nested) (unary plain) := by
  unfold unary; infer_instance

instance shadows_binaryRound (build : Expr → Text → Expr → Expr) (ops : List String) (left : Expr) :
    Shadows ok (binaryRound build ops nested left) (binaryRound build ops plain left) := by
  unfold binaryRound; infer_instance

instance shadows_leftAssociative (build : Expr → Text → Expr → Expr) (ops : List String) :
    Shadows ok (leftAssociative build ops nested) (leftAssociative build ops plain) := by
  unfold leftAssociative; infer_instance

instance shadows_logicalOr : Shadows ok (logicalOr nested) (logicalOr plain) := by
  unfold logicalOr logicalAnd equality relational additive multiplicative; infer_instance

instance shadows_assignment : Shadows ok (assignment nested) (assignment plain) := by
  unfold assignment conditional; infer_instance

end

end

/-! ## Expressions -/

/-- A complete expression where `depth` others are open. -/
def expressionInside (depth : Nat) : MarkupParser Expr :=
  if depth = 0 then expression else expressionAt (expressionLimit - depth)

/-- The plain readers of expressions, with the number of open ones put in. -/
theorem expressionInside_eq (depth : Nat) : expressionInside depth = do
    if ← looking endsExpression then
      report .expectedExpression
      return .hole
    else
      if expressionLimit ≤ depth then
        report .expressionTooDeep
        skipWhile (·.kind != .interpEnd)
        return .hole
      else
        let e ← assignment (expressionInside (depth + 1))
        if depth = 0 ∧ heightLimit < e.height then report .treeTooHigh
        return e := by
  have inner : expressionInside (depth + 1) = expressionAt (expressionLimit - (depth + 1)) :=
    if_neg (Nat.succ_ne_zero depth)
  rw [inner]
  funext s
  have look : ∀ f : Bool → MarkupParser Expr,
      (looking endsExpression >>= f) s = f (endsExpression s.current) s := fun _ => rfl
  by_cases deep : expressionLimit ≤ depth
  · have some : depth ≠ 0 := by
      rintro rfl
      exact absurd deep (by decide)
    rw [expressionInside, if_neg some, Nat.sub_eq_zero_of_le deep, expressionAt, look, look,
      if_pos deep]
  · obtain ⟨levels, room, less⟩ : ∃ levels, expressionLimit - depth = levels + 1 ∧
        expressionLimit - (depth + 1) = levels := ⟨expressionLimit - (depth + 1), by omega, rfl⟩
    rw [look, if_neg deep, less]
    by_cases outer : depth = 0
    · rw [expressionInside, if_pos outer, expression]
      rw [outer, Nat.sub_zero] at room
      rw [room, expressionAt, bind_assoc, look]
      cases endsExpression s.current with
      | true => rfl
      | false => simp [outer]
    · rw [expressionInside, if_neg outer, room, expressionAt, look]
      cases endsExpression s.current with
      | true => rw [if_pos rfl, if_pos rfl]
      | false => simp [outer]

section

variable {ν : Type} [Counters ν] {ok : Nesting → ν → Prop} (counts : Counts ok)

include counts

/-- **The depth of expressions is counted back.**  From any counters, an expression that
is read with them is the plain one, and it leaves them as they were. -/
theorem shadows_watchedExpression {here : Nesting} {fuel : Nat}
    (enough : expressionLimit - here.depth < fuel) :
    Shadows (ok here) (watchedExpression fuel) (expressionInside here.depth) := by
  induction fuel generalizing here with
  | zero => omega
  | succ fuel ih =>
      rw [watchedExpression, watchedLevel, expressionInside_eq]
      refine @shadows_bind _ _ _ _ _ _ _ _ _ _ fun ended =>
        .ite (fun _ => inferInstance) fun _ => shadows_counters counts (.ite (fun _ => inferInstance) ?_)
      intro shallow
      have nested : Shadows (ok here.deepen) (watchedExpression fuel)
          (expressionInside (here.depth + 1)) := by
        refine @ih here.deepen ?_
        show expressionLimit - (here.depth + 1) < fuel
        omega
      have behind : ∀ e : Expr, Shadows (ok here)
          (do
            let behind ← counters
            if behind.depth = 0 ∧ heightLimit < e.height then report .treeTooHigh
            return e : Watching ν Expr)
          (do
            if here.depth = 0 ∧ heightLimit < e.height then report .treeTooHigh
            return e) :=
        fun e => shadows_counters counts inferInstance
      exact shadows_recounted (fun _ => counts.deepens (Nat.lt_of_not_le shallow))
        fun _ => counts.surfaces

end

/-- From any counters, an expression that is counted is the plain one, and the counters are
back behind it. -/
theorem mirrors_countedExpression {here : Nesting} {fuel : Nat}
    (enough : expressionLimit - here.depth < fuel) :
    Mirrors here (countedExpression fuel) (expressionInside here.depth) := by
  rw [← watchedExpression_eq]
  exact .of_shadows (shadows_watchedExpression counts_nesting enough)

/-! ## Elements -/

section

variable {ν : Type} {ok : ν → Prop}

instance shadows_lookingAt (kind : Kind) :
    Shadows ok (lookingAt kind : Watching ν Bool) (lookingAt kind) := by
  unfold lookingAt; infer_instance

instance shadows_expectTagEnd (problem : Problem) :
    Shadows ok (expectTagEnd problem : Watching ν Unit) (expectTagEnd problem) := by
  unfold expectTagEnd skipTagRest; infer_instance

instance shadows_nameOr (instead : Text) (problem : Problem) :
    Shadows ok (nameOr instead problem : Watching ν Text) (nameOr instead problem) := by
  unfold nameOr; infer_instance

instance shadows_closesAncestor (tag : Text) (openTags : List Text) :
    Shadows ok (closesAncestor tag openTags : Watching ν Bool) (closesAncestor tag openTags) := by
  unfold closesAncestor closingName?
  refine @shadows_bind _ _ _ _ _ _ _ _ _ (@shadows_bind _ _ _ _ _ _ _ _ _ _ fun rest => ?_) fun name => ?_
  · cases rest.tail.head? <;> infer_instance
  · cases name <;> infer_instance

instance shadows_closingTag (tag : Text) :
    Shadows ok (closingTag tag : Watching ν Bool) (closingTag tag) := by
  unfold closingTag; infer_instance

section

variable {node : Watching ν (Option Node)} {plain : MarkupParser (Option Node)}
  [Shadows ok node plain]

instance shadows_nodeRound : Shadows ok (nodeRound node) (nodeRound plain) := by
  unfold nodeRound
  refine @shadows_bind _ _ _ _ _ _ _ _ _ _ fun found => ?_
  cases found <;> infer_instance

instance shadows_childRound (tag : Text) (openTags : List Text) :
    Shadows ok (childRound node tag openTags) (childRound plain tag openTags) := by
  unfold childRound; infer_instance

instance shadows_documentRound : Shadows ok (documentRound node) (documentRound plain) := by
  unfold documentRound; infer_instance

end

variable {embedded : Watching ν Expr} {plain : MarkupParser Expr} [Shadows ok embedded plain]

instance shadows_attributeValue (reader : Text → Option Expr) :
    Shadows ok (attributeValue embedded reader) (attributeValue plain reader) := by
  unfold attributeValue
  refine @shadows_bind _ _ _ _ _ _ _ _ _ _ fun t => ?_
  generalize t.kind = kind
  cases kind <;> infer_instance

instance shadows_attributeRound (reader : Text → Option Expr) :
    Shadows ok (attributeRound embedded reader) (attributeRound plain reader) := by
  unfold attributeRound tagAttribute; infer_instance

instance shadows_elementHead (reader : Text → Option Expr) :
    Shadows ok (elementHead embedded reader) (elementHead plain reader) := by
  unfold elementHead; infer_instance

instance shadows_element (reader : Text → Option Expr) {content : Text → Watching ν (List Node)}
    {inner : Text → MarkupParser (List Node)} [∀ tag, Shadows ok (content tag) (inner tag)] :
    Shadows ok (element embedded reader content) (element plain reader inner) := by
  unfold element; infer_instance

instance shadows_interpolation : Shadows ok (interpolation embedded) (interpolation plain) := by
  unfold interpolation; infer_instance

instance shadows_nodeWith {element : Watching ν Node} {inner : MarkupParser Node}
    [Shadows ok element inner] : Shadows ok (nodeWith embedded element) (nodeWith plain inner) := by
  unfold nodeWith skipTagRest
  refine @shadows_bind _ _ _ _ _ _ _ _ _ _ fun t => ?_
  generalize t.kind = kind
  cases kind <;> infer_instance

end

/-- The children of the element `tag` where `openTags` are open around it. -/
def contentInside (embedded : MarkupParser Expr) (reader : Text → Option Expr)
    (openTags : List Text) (tag : Text) : MarkupParser (List Node) :=
  if elementLimit ≤ openTags.length then do
    report .elementsTooDeep
    skipWhile fun _ => true
    return []
  else
    children (node embedded reader (elementLimit - (openTags.length + 1)) (tag :: openTags)) tag
      (tag :: openTags)

/-- The plain reader of nodes, with the number of open elements put in. -/
theorem node_eq (embedded : MarkupParser Expr) (reader : Text → Option Expr)
    (openTags : List Text) :
    node embedded reader (elementLimit - openTags.length) openTags =
      nodeWith embedded (element embedded reader (contentInside embedded reader openTags)) := by
  by_cases deep : elementLimit ≤ openTags.length
  · have content : contentInside embedded reader openTags = fun _ => do
        report .elementsTooDeep
        skipWhile fun _ => true
        return [] := funext fun _ => if_pos deep
    rw [Nat.sub_eq_zero_of_le deep, node, content]
  · have room : elementLimit - openTags.length = elementLimit - (openTags.length + 1) + 1 := by
      omega
    have content : contentInside embedded reader openTags = fun tag =>
        children (node embedded reader (elementLimit - (openTags.length + 1)) (tag :: openTags)) tag
          (tag :: openTags) := funext fun _ => if_neg deep
    rw [room, node, content]

section

variable {ν : Type} [Counters ν] {ok : Nesting → ν → Prop} (counts : Counts ok) {here : Nesting}
  {reader : Text → Option Expr}

include counts

/-- The children of an element are counted back, if the nodes among them are. -/
theorem shadows_content_step {watched : Watching ν (Option Node)} {embedded : MarkupParser Expr}
    {tag : Text}
    (inner : here.openTags.length < elementLimit → Shadows (ok (here.open tag)) watched
      (node embedded reader (elementLimit - (here.openTags.length + 1)) (tag :: here.openTags))) :
    Shadows (ok here) (watchedContent watched tag)
      (contentInside embedded reader here.openTags tag) := by
  rw [watchedContent, contentInside, children]
  refine shadows_counters counts (.ite (fun _ => inferInstance) fun shallow => ?_)
  have room := Nat.lt_of_not_le shallow
  have shadowed := inner room
  generalize node embedded reader _ _ = plain at shadowed ⊢
  have round : Shadows (ok (here.open tag))
      (do
        let inside ← counters
        childRound watched tag inside.openTags)
      (childRound plain tag (tag :: here.openTags)) :=
    shadows_counters counts (shadows_childRound tag (tag :: here.openTags))
  have between : Shadows (ok here)
      (do
        recount (Nesting.open tag)
        let found ← collect do
          let inside ← counters
          childRound watched tag inside.openTags
        recount Nesting.close
        return found)
      (collect (childRound plain tag (tag :: here.openTags)) >>= pure) :=
    shadows_recounted (fun _ => counts.opens tag room) fun _ => counts.closes
  rwa [bind_pure] at between

variable {deep : Nat} (enough : expressionLimit - here.depth < deep)

include enough

theorem shadows_watchedContent {fuel : Nat} (room : elementLimit - here.openTags.length ≤ fuel)
    (tag : Text) :
    Shadows (ok here) (watchedContent (watchedNode (watchedExpression deep) reader fuel) tag)
      (contentInside (expressionInside here.depth) reader here.openTags tag) := by
  have embeds : ∀ {here : Nesting}, expressionLimit - here.depth < deep →
      Shadows (ok here) (watchedExpression deep) (expressionInside here.depth) :=
    shadows_watchedExpression counts
  induction fuel generalizing here tag with
  | zero => exact shadows_content_step counts fun shallow => by omega
  | succ fuel ih =>
      refine shadows_content_step counts fun shallow => ?_
      have embedded : Shadows (ok (here.open tag)) (watchedExpression deep)
          (expressionInside here.depth) := @embeds (here.open tag) enough
      have content : ∀ inner, Shadows (ok (here.open tag))
          (watchedContent (watchedNode (watchedExpression deep) reader fuel) inner)
          (contentInside (expressionInside here.depth) reader (tag :: here.openTags) inner) := by
        refine fun inner => @ih (here.open tag) enough ?_ inner
        show elementLimit - (here.openTags.length + 1) ≤ fuel
        omega
      rw [watchedNode, watchedElement]
      have plain := node_eq (expressionInside here.depth) reader (tag :: here.openTags)
      rw [List.length_cons] at plain
      rw [plain]
      exact shadows_nodeWith

/-- **Open tags are counted back.**  From any counters, an element that is read with them
is the plain one, and it leaves them as they were. -/
theorem shadows_watchedElement {fuel : Nat} (room : elementLimit - here.openTags.length ≤ fuel) :
    Shadows (ok here)
      (watchedElement (watchedExpression deep) reader (watchedNode (watchedExpression deep) reader fuel))
      (element (expressionInside here.depth) reader
        (contentInside (expressionInside here.depth) reader here.openTags)) := by
  have embedded := shadows_watchedExpression counts enough
  have content := fun tag =>
    @shadows_watchedContent ν _ ok counts here reader deep enough fuel room tag
  exact shadows_element reader

/-- From any counters, a node that is read with them is the plain one, and it leaves them
as they were. -/
theorem shadows_watchedNode {fuel : Nat} (room : elementLimit - here.openTags.length < fuel) :
    Shadows (ok here) (watchedNode (watchedExpression deep) reader fuel)
      (node (expressionInside here.depth) reader (elementLimit - here.openTags.length)
        here.openTags) := by
  obtain ⟨fuel, rfl⟩ : ∃ less, fuel = less + 1 := ⟨fuel - 1, by omega⟩
  have embedded := shadows_watchedExpression counts enough
  have inside := @shadows_watchedElement ν _ ok counts here reader deep enough fuel
    (Nat.le_of_lt_succ room)
  rw [watchedNode, node_eq]
  exact shadows_nodeWith

end

/-- The whole document, read with counters, is the plain one, and they are at their start
behind it. -/
theorem shadows_watchedDocument {ν : Type} [Counters ν] {ok : Nesting → ν → Prop}
    (counts : Counts ok) (reader : Text → Option Expr) {fuel : Nat}
    (enough : expressionLimit < fuel) (room : elementLimit < fuel) :
    Shadows (ok Nesting.outermost) (watchedDocument reader fuel) (document reader) := by
  have shadowed : Shadows (ok Nesting.outermost) (watchedNode (watchedExpression fuel) reader fuel)
      (node expression reader elementLimit []) :=
    @shadows_watchedNode ν _ ok counts Nesting.outermost reader fuel enough fuel room
  unfold watchedDocument document
  infer_instance

/-- From any counters, an element that is counted is the plain one, and the counters are back
behind it. -/
theorem mirrors_countedElement {here : Nesting} {reader : Text → Option Expr} {deep fuel : Nat}
    (enough : expressionLimit - here.depth < deep)
    (room : elementLimit - here.openTags.length ≤ fuel) :
    Mirrors here
      (countedElement (countedExpression deep) reader (countedNode (countedExpression deep) reader fuel))
      (element (expressionInside here.depth) reader
        (contentInside (expressionInside here.depth) reader here.openTags)) := by
  rw [← watchedExpression_eq, ← watchedNode_eq]
  exact .of_shadows (shadows_watchedElement counts_nesting enough room)

/-- The whole document, counted, is the plain one, and nothing is open behind it. -/
theorem mirrors_countedDocument (reader : Text → Option Expr) {fuel : Nat}
    (enough : expressionLimit < fuel) (room : elementLimit < fuel) :
    Mirrors Nesting.outermost (countedDocument reader fuel) (document reader) := by
  rw [countedDocument, ← watchedExpression_eq, ← watchedNode_eq]
  exact .of_shadows (shadows_watchedDocument counts_nesting reader enough room)

end UiFormat.Markup

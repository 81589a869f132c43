/-
# UiFormat.Proofs.Markup.DepthLimits -- how deep markup goes

Three limits keep markup shallow, and each is tested in a place of its own.  An element is
not opened inside `elementLimit` open ones, so one that closes itself can stand one deeper
than any other.  A complete expression is not read inside `expressionLimit` others.  And
since chains of operators grow trees without nesting anything, the tree of a whole expression
is measured against `heightLimit` where no expression is open around it.

* The tree is measured with a stack of nodes yet to be seen: what that gives is the height,
  said by recursion (`depth_eq_height`, `height_tree`).
* A source without problems spells its document by the grammar, and the grammar has the
  limits in it (`limited_of_nodeSpells`).  A quoted value that reads as an expression was
  measured when it was parsed as a source of its own (`height_of_fragment?`).
* The counters of open tags and open expressions are watched with everything they ever were
  (`Watch`).  They are raised only where a limit leaves room, so no limit is ever passed,
  whatever problems the source has (`counts_watch`).

Main statement: `depthBounded_parse`.
-/
import UiFormat.Markup.Tree
import UiFormat.Proofs.Markup.AttributeRoundTrip
import UiFormat.Proofs.Markup.DocumentGrammar
import UiFormat.Proofs.Markup.Nesting

namespace UiFormat.Markup

open UiFormat.Text
open UiFormat.Parse

set_option autoImplicit false

/-! ## Heights of trees -/

mutual

/-- The number of nodes on the longest way from the root; tokens do not count. -/
def Tree.height : Tree → Nat
  | .token _ _ => 0
  | .node _ children => highest children + 1

/-- The greatest height of several trees. -/
def highest : List Tree → Nat
  | [] => 0
  | t :: rest => Nat.max t.height (highest rest)

end

/-- The deepest level of a tree whose root stands at `level`. -/
def Tree.reach (level : Nat) : Tree → Nat
  | .token _ _ => 0
  | .node _ children => level + highest children

/-- The deepest level of a stack. -/
def reachOf : List (Tree × Nat) → Nat
  | [] => 0
  | (t, level) :: stack => max (t.reach level) (reachOf stack)

theorem reachOf_append (a b : List (Tree × Nat)) : reachOf (a ++ b) = max (reachOf a) (reachOf b) := by
  induction a with
  | nil => exact (Nat.zero_max _).symm
  | cons entry a ih => rw [List.cons_append, reachOf, reachOf, ih, Nat.max_assoc]

/-- One child below a node at `level`. -/
theorem max_reach (level : Nat) (t : Tree) : max level (t.reach (level + 1)) = level + t.height := by
  cases t with
  | token kind text => exact Nat.max_eq_left (Nat.zero_le level)
  | node label children =>
      show max level (level + 1 + highest children) = level + (highest children + 1)
      omega

/-- All children of a node at `level`: the order in which they are put on the stack does not
matter. -/
theorem max_reachOf_below (level : Nat) (children : List Tree) :
    max level (reachOf (below level children)) = level + highest children := by
  induction children with
  | nil => exact Nat.max_eq_left (Nat.zero_le level)
  | cons t children ih =>
      have split : below level (t :: children) = below level children ++ [(t, level + 1)] := by
        simp [below]
      have single : reachOf [(t, level + 1)] = t.reach (level + 1) := Nat.max_zero _
      have first := max_reach level t
      rw [split, reachOf_append, single]
      show max level _ = level + max t.height (highest children)
      omega

/-- The walk over the stack finds the deepest level there is. -/
theorem deepestOf_eq (deepest : Nat) (stack : List (Tree × Nat)) :
    deepestOf deepest stack = max deepest (reachOf stack) := by
  fun_induction deepestOf deepest stack with
  | case1 => exact (Nat.max_zero _).symm
  | case2 deepest kind text level stack ih =>
      rw [ih, reachOf, Tree.reach, Nat.zero_max]
  | case3 deepest label children level stack ih =>
      have children_reach := max_reachOf_below level children
      rw [ih, reachOf_append, reachOf, Tree.reach]
      omega

/-- **The depth of a tree is its height.** -/
theorem depth_eq_height (t : Tree) : t.depth = t.height := by
  rw [Tree.depth, deepestOf_eq, Nat.zero_max, reachOf, reachOf, Nat.max_zero]
  cases t with
  | token kind text => rfl
  | node label children => exact Nat.add_comm 1 _

mutual

/-- The tree of an expression is as high as the expression. -/
theorem height_tree : ∀ e : Expr, e.tree.height = e.height
  | .identifier name => rfl
  | .literal kind raw => rfl
  | .unary op operand => by
      simp [Expr.tree, Expr.height, Tree.height, highest, operatorToken, height_tree operand]
  | .binary left op right => by
      simp [Expr.tree, Expr.height, Tree.height, highest, operatorToken, height_tree left,
        height_tree right]
  | .logical left op right => by
      simp [Expr.tree, Expr.height, Tree.height, highest, operatorToken, height_tree left,
        height_tree right]
  | .conditional test consequent alternate => by
      simp [Expr.tree, Expr.height, Tree.height, highest, height_tree test,
        height_tree consequent, height_tree alternate]
  | .assignment target op value => by
      simp [Expr.tree, Expr.height, Tree.height, highest, operatorToken, height_tree target,
        height_tree value]
  | .member object name => by
      simp [Expr.tree, Expr.height, Tree.height, highest, nameTree, height_tree object]
  | .computedMember object index => by
      simp [Expr.tree, Expr.height, Tree.height, highest, height_tree object, height_tree index]
  | .call callee arguments => by
      simp [Expr.tree, Expr.height, Tree.height, highest, height_tree callee,
        highest_treesOf arguments]
  | .array items => by
      simp [Expr.tree, Expr.height, Tree.height, highest_treesOf items]
  | .object entries => by
      simp [Expr.tree, Expr.height, Tree.height, highest_entryTrees entries]
  | .grouping body => by
      simp [Expr.tree, Expr.height, Tree.height, highest, height_tree body]

theorem highest_treesOf : ∀ es : List Expr, highest (treesOf es) = maxHeight es
  | [] => rfl
  | e :: rest => by
      simp [treesOf, highest, maxHeight, height_tree e, highest_treesOf rest]

theorem height_entryTree : ∀ entry : Entry, entry.tree.height = entry.height
  | .shorthand key => by
      simp [Entry.tree, Entry.height, Tree.height, highest, height_keyTree key]
  | .pair key value => by
      simp [Entry.tree, Entry.height, Tree.height, highest, height_keyTree key, height_tree value]

theorem highest_entryTrees : ∀ es : List Entry, highest (entryTrees es) = maxEntryHeight es
  | [] => rfl
  | entry :: rest => by
      simp [entryTrees, highest, maxEntryHeight, height_entryTree entry, highest_entryTrees rest]

theorem height_keyTree : ∀ key : Key, key.tree.height = key.height
  | .name name => rfl
  | .literal kind raw => rfl
  | .computed body => by
      simp [Key.tree, Key.height, Tree.height, highest, height_tree body]

end

/-! ## Documents -/

mutual

/-- How many elements that pass the test stand inside each other, the test being of whether
an element closes itself. -/
def Node.depth (counts : Bool → Bool) : Node → Nat
  | .element _ _ children selfClosing =>
      depthOf counts children + if counts selfClosing then 1 else 0
  | _ => 0

/-- The greatest depth of several nodes. -/
def depthOf (counts : Bool → Bool) : List Node → Nat
  | [] => 0
  | n :: rest => max (n.depth counts) (depthOf counts rest)

end

/-- The expression that an attribute holds. -/
def AttributeValue.exprs : AttributeValue → List Expr
  | .expression _ _ tree => [tree]
  | _ => []

mutual

/-- The expressions in a node: interpolations and the values of attributes. -/
def Node.exprs : Node → List Expr
  | .element _ attributes children _ =>
      attributes.flatMap (fun a => a.value.exprs) ++ exprsOf children
  | .interpolation e => [e]
  | .strayAttribute a => a.value.exprs
  | _ => []

/-- The expressions in several nodes. -/
def exprsOf : List Node → List Expr
  | [] => []
  | n :: rest => n.exprs ++ exprsOf rest

end

/-- The node is as shallow as the limits ask where `levels` more elements may be opened: an
element that closes itself may stand inside them. -/
structure Limited (levels : Nat) (n : Node) : Prop where
  opened : n.depth (fun selfClosing => !selfClosing) ≤ levels
  any : n.depth (fun _ => true) ≤ levels + 1
  low : ∀ e ∈ n.exprs, e.height ≤ heightLimit

theorem depthOf_le {counts : Bool → Bool} {ns : List Node} {bound : Nat}
    (each : ∀ n ∈ ns, n.depth counts ≤ bound) : depthOf counts ns ≤ bound := by
  induction ns with
  | nil => exact Nat.zero_le bound
  | cons n ns ih =>
      obtain ⟨here, later⟩ := List.forall_mem_cons.1 each
      exact Nat.max_le.2 ⟨here, ih later⟩

theorem mem_exprsOf {ns : List Node} {e : Expr} (member : e ∈ exprsOf ns) :
    ∃ n ∈ ns, e ∈ n.exprs := by
  induction ns with
  | nil => cases member
  | cons n ns ih =>
      rcases List.mem_append.1 member with here | later
      · exact ⟨n, List.mem_cons_self, here⟩
      · obtain ⟨inner, isIn, holds⟩ := ih later
        exact ⟨inner, List.mem_cons_of_mem n isIn, holds⟩

/-! ## Expressions that were read -/

/-- What a fragment reads was measured when the fragment was parsed. -/
theorem height_of_fragment? {inner : Text} {e : Expr} (parsed : fragment? inner = some e) :
    e.height ≤ heightLimit := by
  unfold fragment? at parsed
  split at parsed
  · rename_i read
    cases parsed
    obtain ⟨toks, -, -, -, -, low⟩ := exists_steps_of_parseFragment read
    exact low
  · cases parsed

theorem InterpolationSpells.low {toks : List Tok} {e : Expr} (spelled : InterpolationSpells toks e) :
    e.height ≤ heightLimit := by
  cases spelled with
  | marked opens spelled low closes => exact low

theorem ValueSpells.low {toks : List Tok} {value : AttributeValue} (spelled : ValueSpells toks value) :
    ∀ e ∈ value.exprs, e.height ≤ heightLimit := by
  cases spelled with
  | @quoted t kind =>
      intro e member
      unfold quotedValue at member
      dsimp only at member
      split at member
      · rename_i tree read
        obtain ⟨inner, -, parsed⟩ := Option.bind_eq_some_iff.1 read
        rw [List.mem_singleton.1 member]
        exact height_of_fragment? parsed
      · cases member
  | expression here =>
      intro e member
      rw [List.mem_singleton.1 member]
      exact here.low
  | unquoted run => exact fun _ impossible => by cases impossible

theorem AttributesSpell.low {rules : Rules} {toks : List Tok} {as : List Attribute}
    (spelled : AttributesSpell rules toks as) :
    ∀ e ∈ as.flatMap (fun a => a.value.exprs), e.height ≤ heightLimit := by
  induction spelled with
  | nil => exact fun _ impossible => by cases impossible
  | absent isName rest ih => exact ih
  | valued isName isEquals here ends rest ih =>
      intro e member
      rcases List.mem_append.1 member with first | later
      · exact here.low e first
      · exact ih e later

theorem HeadSpells.low {rules : Rules} {toks : List Tok} {tag : Text} {as : List Attribute}
    {stop : Tok} (spelled : HeadSpells rules toks tag as stop) :
    ∀ e ∈ as.flatMap (fun a => a.value.exprs), e.height ≤ heightLimit := by
  cases spelled with
  | opened opens isName attributes => exact attributes.low

/-! ## The grammar keeps to the limits -/

/-- An element that closes itself opens nothing. -/
theorem limited_selfClosing {tag : Text} {as : List Attribute}
    (low : ∀ e ∈ as.flatMap (fun a => a.value.exprs), e.height ≤ heightLimit) (levels : Nat) :
    Limited levels (.element tag as [] true) where
  opened := Nat.zero_le levels
  any := Nat.le_add_left 1 levels
  low := by
    intro e member
    rw [Node.exprs, exprsOf, List.append_nil] at member
    exact low e member

/-- An element around children takes one level. -/
theorem limited_paired {tag : Text} {as : List Attribute} {children : List Node} {levels : Nat}
    (low : ∀ e ∈ as.flatMap (fun a => a.value.exprs), e.height ≤ heightLimit)
    (inner : ∀ n ∈ children, Limited levels n) :
    Limited (levels + 1) (.element tag as children false) where
  opened := Nat.succ_le_succ (depthOf_le fun n member => (inner n member).opened)
  any := Nat.succ_le_succ (depthOf_le fun n member => (inner n member).any)
  low := by
    intro e member
    rcases List.mem_append.1 member with own | inside
    · exact low e own
    · obtain ⟨n, isIn, holds⟩ := mem_exprsOf inside
      exact (inner n isIn).low e holds

theorem NodesSpell.forall_mem {item : List Tok → Node → Prop} {toks : List Tok} {ns : List Node}
    (spelled : NodesSpell item toks ns) {P : Node → Prop} (each : ∀ toks n, item toks n → P n) :
    ∀ n ∈ ns, P n := by
  induction spelled with
  | nil => exact fun _ impossible => by cases impossible
  | cons here rest ih => exact List.forall_mem_cons.2 ⟨each _ _ here, ih⟩

/-- One node, by the shape of it. -/
theorem NodeShape.limited {rules : Rules} {content : List Tok → List Node → Prop} {levels : Nat}
    {toks : List Tok} {n : Node} (shape : NodeShape rules content toks n)
    (inner : ∀ {toks : List Tok} {ns : List Node}, content toks ns →
      ∃ fewer, levels = fewer + 1 ∧ ∀ n ∈ ns, Limited fewer n) : Limited levels n := by
  cases shape with
  | text kind => exact ⟨Nat.zero_le _, Nat.zero_le _, fun _ impossible => by cases impossible⟩
  | comment kind => exact ⟨Nat.zero_le _, Nat.zero_le _, fun _ impossible => by cases impossible⟩
  | interpolation here =>
      refine ⟨Nat.zero_le _, Nat.zero_le _, ?_⟩
      intro e member
      rw [List.mem_singleton.1 member]
      exact here.low
  | selfClosed head stops => exact limited_selfClosing head.low levels
  | void head stops empty => exact limited_selfClosing head.low levels
  | paired head stops allowed within closes =>
      obtain ⟨fewer, rfl, each⟩ := inner within
      exact limited_paired head.low each

/-- **The grammar keeps to the limits.** -/
theorem limited_of_nodeSpells {rules : Rules} {levels : Nat} {toks : List Tok} {n : Node}
    (spelled : NodeSpells rules levels toks n) : Limited levels n := by
  induction levels generalizing toks n with
  | zero => exact NodeShape.limited spelled fun impossible => impossible.elim
  | succ levels ih =>
      refine NodeShape.limited spelled fun within => ⟨levels, rfl, ?_⟩
      exact within.forall_mem fun _ _ => ih

/-- A source without problems keeps to the limits. -/
theorem limited_of_parse {source : Text} (accepted : (parse source).errors = []) :
    ∀ n ∈ (parse source).children, Limited elementLimit n := by
  have parsed : parse source = { children := (parse source).children, errors := [] } := by
    rw [← accepted]
  exact (parse_eq_iff_spells.1 parsed).forall_mem fun _ _ => limited_of_nodeSpells

/-! ## The counters at every moment -/

/-- The counters, and what they were before, latest first. -/
structure Watch where
  now : Nesting
  earlier : List Nesting

/-- Nothing is open, and nothing was. -/
def Watch.start : Watch := { now := .outermost, earlier := [] }

/-- All that the counters have been. -/
def Watch.moments (w : Watch) : List Nesting := w.now :: w.earlier

instance : Counters Watch where
  nesting := Watch.now
  change f w := { now := f w.now, earlier := w.now :: w.earlier }

/-- A source, read with its counters watched. -/
def watchWith (reader : Text → Option Expr) (fuel : Nat) (source : Text) :
    List Node × State Kind Problem × Watch :=
  watchedDocument reader fuel (State.start (lexemes source) (endToken source)) Watch.start

/-- The counters are not beyond their limits. -/
structure Nesting.Within (here : Nesting) : Prop where
  tags : here.openTags.length ≤ elementLimit
  depth : here.depth ≤ expressionLimit

/-- The counters stand at `here`, and neither there nor at any moment before were they beyond
their limits. -/
structure Watched (here : Nesting) (w : Watch) : Prop where
  stands : w.now = here
  within : ∀ moment ∈ w.moments, moment.Within

theorem Watched.now {here : Nesting} {w : Watch} (watched : Watched here w) : here.Within := by
  have now := watched.within w.now List.mem_cons_self
  rwa [watched.stands] at now

/-- A change to counters within the limits. -/
theorem Watched.change {here : Nesting} {w : Watch} (watched : Watched here w)
    {f : Nesting → Nesting} {there : Nesting} (moves : f here = there) (within : there.Within) :
    Watched there (Counters.change f w) where
  stands := by
    show f w.now = there
    rw [watched.stands, moves]
  within := by
    have next : (Counters.change f w : Watch).moments = f w.now :: w.moments := rfl
    rw [next, watched.stands, moves]
    exact List.forall_mem_cons.2 ⟨within, watched.within⟩

/-- **The counters stay within their limits.**  They are raised only where there is room. -/
theorem counts_watch : Counts Watched where
  stands watched := watched.stands
  deepens room _ watched := watched.change rfl ⟨watched.now.tags, room⟩
  surfaces watched := watched.change rfl ⟨watched.now.tags, Nat.le_of_succ_le watched.now.depth⟩
  opens _ room _ watched := watched.change rfl ⟨room, watched.now.depth⟩
  closes watched := watched.change rfl ⟨Nat.le_of_succ_le watched.now.tags, watched.now.depth⟩

theorem watched_start : Watched Nesting.outermost Watch.start where
  stands := rfl
  within := by
    intro moment member
    rw [List.mem_singleton.1 member]
    exact ⟨Nat.zero_le _, Nat.zero_le _⟩

/-! ## All limits -/

/-- No source goes deep.

In one without problems, elements that do not close themselves are nested at most
`elementLimit` deep and any element one deeper, and no tree of an expression, be it of an
interpolation or of the value of an attribute, quoted or not, is higher than `heightLimit`.
The height that the parser tests is what the walk over the tree with a stack gives, as it is
for any tree.  And in any source, read with any reader of quoted values, the counters are
within their limits at every moment of the run that gives the parse. -/
structure DepthBounded (source : Text) : Prop where
  limits : elementLimit = 100 ∧ expressionLimit = 25 ∧ heightLimit = 200
  opened (accepted : (parse source).errors = []) :
    depthOf (fun selfClosing => !selfClosing) (parse source).children ≤ elementLimit
  elements (accepted : (parse source).errors = []) :
    depthOf (fun _ => true) (parse source).children ≤ elementLimit + 1
  trees (accepted : (parse source).errors = []) :
    ∀ e ∈ exprsOf (parse source).children, e.tree.height ≤ heightLimit
  measured (t : Tree) : t.depth = t.height
  tested (e : Expr) : e.height = e.tree.depth
  counters (reader : Text → Option Expr) (fuel : Nat) (enough : expressionLimit < fuel)
    (room : elementLimit < fuel) :
    let run := watchWith reader fuel source
    run.1 = (parseWith reader source).children ∧
      run.2.1.errors = (parseWith reader source).errors ∧ run.2.2.now = .outermost ∧
      ∀ moment ∈ run.2.2.moments,
        moment.openTags.length ≤ elementLimit ∧ moment.depth ≤ expressionLimit

/-- **Markup has bounded depth.** -/
theorem depthBounded_parse (source : Text) : DepthBounded source where
  limits := ⟨rfl, rfl, rfl⟩
  opened accepted := depthOf_le fun n member => (limited_of_parse accepted n member).opened
  elements accepted := depthOf_le fun n member => (limited_of_parse accepted n member).any
  trees accepted := by
    intro e member
    obtain ⟨n, isIn, holds⟩ := mem_exprsOf member
    rw [height_tree]
    exact (limited_of_parse accepted n isIn).low e holds
  measured := depth_eq_height
  tested e := by rw [depth_eq_height, height_tree]
  counters reader fuel enough room := by
    have shadows := shadows_watchedDocument counts_watch reader enough room
    obtain ⟨w, watched, ran⟩ :=
      shadows.run_eq (State.start (lexemes source) (endToken source)) watched_start
    intro run
    have same : run = ((readWith reader source).1, (readWith reader source).2, w) := ran
    rw [same, parseWith_eq]
    refine ⟨rfl, rfl, watched.stands, ?_⟩
    intro moment member
    exact ⟨(watched.within moment member).tags, (watched.within moment member).depth⟩

/-- How many problems a parse found, how deep its elements go, those that do not close
themselves and all of them, and how high its expressions are. -/
def Parsed.depths (parsed : Parsed) : Nat × Nat × Nat × List Nat :=
  (parsed.errors.length, depthOf (fun selfClosing => !selfClosing) parsed.children,
    depthOf (fun _ => true) parsed.children, (exprsOf parsed.children).map Expr.height)

theorem Parsed.accepted {parsed : Parsed} (none : parsed.depths.1 = 0) : parsed.errors = [] :=
  List.eq_nil_of_length_eq_zero none

/-- Elements inside each other, around one that closes itself and an expression that is as
high as may be. -/
def deepSource : Text :=
  (List.replicate 3 "<a>".toList).flatten ++
    ("<b c=\x22\x7b\x7b d \x7d\x7d\x22 />\x7b\x7b ".toList ++ List.replicate 199 '!' ++
      "e \x7d\x7d".toList) ++
    (List.replicate 3 "</a>".toList).flatten

/-- The element that closes itself is one deeper than the others, and the height of the
second expression is the limit. -/
theorem depthBounded_parse_deepSource :
    (parse deepSource).depths = (0, 3, 4, [1, heightLimit]) ∧ (parse deepSource).errors = [] ∧
      depthOf (fun _ => true) (parse deepSource).children ≤ elementLimit + 1 ∧
      ∀ moment ∈ (watchWith fragment? 101 deepSource).2.2.moments,
        moment.openTags.length ≤ elementLimit ∧ moment.depth ≤ expressionLimit := by
  have depths : (parse deepSource).depths = (0, 3, 4, [1, heightLimit]) := by
    decide +kernel
  have accepted : (parse deepSource).errors = [] := Parsed.accepted (by rw [depths])
  have bounded := depthBounded_parse deepSource
  have counters := bounded.counters fragment? 101 (by decide) (by decide)
  exact ⟨depths, accepted, bounded.elements accepted, counters.2.2.2⟩

end UiFormat.Markup

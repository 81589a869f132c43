/-
# UiFormat.Proofs.Markup.DocumentGrammar -- the grammar of documents

`DocumentSpells` says which token lists are documents, by concatenation alone: the
tokens of a node are those of its parts one behind the other.  The parser decides two
things by looking further, and the grammar says them as conditions (`Rules`): an
unquoted value goes on as long as its next part adjoins it, and a tag that never has
content never has a closing tag.

A silent run of the parser reads exactly such a document (`parse_eq_iff_spells`).  From
a run to the grammar the lexer is needed: where a node can begin, it hands out no token
that begins none, so nothing is passed over.
-/
import UiFormat.Proofs.Markup.DocumentForm

namespace UiFormat.Markup

open UiFormat.Text
open UiFormat.Parse

set_option autoImplicit false

/-! ## Grammar -/

/-- What can be asked of a document beyond the order of its tokens: which tags can be
closed by a tag of their own, and whether an unquoted value may end where a further part
of it adjoins. -/
structure Rules where
  closable : Text → Bool
  splittable : Bool

/-- The rules of the parser. -/
def Rules.narrow : Rules :=
  { closable := fun tag => !isVoid tag, splittable := false }

/-- No rules at all. -/
def Rules.wide : Rules :=
  { closable := fun _ => true, splittable := true }

/-- The tokens of an interpolation. -/
inductive InterpolationSpells : List Tok → Expr → Prop
  | marked {opening last : Tok} {toks : List Tok} {e : Expr} (opens : opening.kind = .interpStart)
      (spelled : Spells expressionLimit toks e) (high : e.height ≤ heightLimit)
      (closes : last.kind = .interpEnd) : InterpolationSpells (opening :: (toks ++ [last])) e

/-- Parts of an unquoted value, each adjoining the one before it. -/
structure Adjoins (toks : List Tok) : Prop where
  some : toks ≠ []
  parts : ∀ t ∈ toks, isValuePart t = true
  chain : toks.IsChain fun t u => t.stop = u.start

/-- The tokens of a value. -/
inductive ValueSpells : List Tok → AttributeValue → Prop
  | quoted {t : Tok} (kind : t.kind = .string) : ValueSpells [t] (quotedValue fragment? t.text)
  | expression {toks : List Tok} {e : Expr} (here : InterpolationSpells toks e) :
      ValueSpells toks (.expression none [] e)
  | unquoted {toks : List Tok} (run : Adjoins toks) : ValueSpells toks (.unquoted (textOf toks))

/-- What comes next is no further part of an unquoted value. -/
def Breaks (toks later : List Tok) : Prop :=
  ∀ last ∈ toks.getLast?, ∀ t ∈ later.head?, isValuePart last = true → isValuePart t = true →
    last.stop ≠ t.start

/-- The tokens of the attributes of a tag. -/
inductive AttributesSpell (rules : Rules) : List Tok → List Attribute → Prop
  | nil : AttributesSpell rules [] []
  | absent {name : Tok} {later : List Tok} {as : List Attribute} (isName : name.kind = .name)
      (rest : AttributesSpell rules later as) :
      AttributesSpell rules (name :: later) ({ name := name.text, value := .absent } :: as)
  | valued {name equals : Tok} {toks later : List Tok} {value : AttributeValue}
      {as : List Attribute} (isName : name.kind = .name) (isEquals : equals.kind = .equals)
      (here : ValueSpells toks value) (ends : rules.splittable = true ∨ Breaks toks later)
      (rest : AttributesSpell rules later as) :
      AttributesSpell rules (name :: equals :: (toks ++ later)) ({ name := name.text, value } :: as)

/-- The tokens of an opening tag, with the token that ends it. -/
inductive HeadSpells (rules : Rules) : List Tok → Text → List Attribute → Tok → Prop
  | opened {opening name stop : Tok} {toks : List Tok} {as : List Attribute}
      (opens : opening.kind = .tagOpen) (isName : name.kind = .name)
      (attributes : AttributesSpell rules toks as) :
      HeadSpells rules (opening :: name :: (toks ++ [stop])) name.text as stop

/-- The tokens of a closing tag. -/
inductive CloseSpells (tag : Text) : List Tok → Prop
  | closed {opening name stop : Tok} (opens : opening.kind = .tagClose)
      (isName : name.kind = .name) (same : name.text = tag) (stops : stop.kind = .tagEnd) :
      CloseSpells tag [opening, name, stop]

/-- The tokens of a node whose children `content` spells. -/
inductive NodeShape (rules : Rules) (content : List Tok → List Node → Prop) :
    List Tok → Node → Prop
  | text {t : Tok} (kind : t.kind = .text) : NodeShape rules content [t] (.text t.text)
  | comment {t : Tok} (kind : t.kind = .comment) : NodeShape rules content [t] (.comment t.text)
  | interpolation {toks : List Tok} {e : Expr} (here : InterpolationSpells toks e) :
      NodeShape rules content toks (.interpolation e)
  | selfClosed {toks : List Tok} {tag : Text} {as : List Attribute} {stop : Tok}
      (head : HeadSpells rules toks tag as stop) (stops : stop.kind = .tagSelfClose) :
      NodeShape rules content toks (.element tag as [] true)
  | void {toks : List Tok} {tag : Text} {as : List Attribute} {stop : Tok}
      (head : HeadSpells rules toks tag as stop) (stops : stop.kind = .tagEnd)
      (empty : isVoid tag = true) : NodeShape rules content toks (.element tag as [] true)
  | paired {toks inner close : List Tok} {tag : Text} {as : List Attribute} {stop : Tok}
      {children : List Node} (head : HeadSpells rules toks tag as stop) (stops : stop.kind = .tagEnd)
      (allowed : rules.closable tag = true) (within : content inner children)
      (closes : CloseSpells tag close) :
      NodeShape rules content (toks ++ (inner ++ close)) (.element tag as children false)

/-- The tokens of nodes, one behind the other. -/
inductive NodesSpell (item : List Tok → Node → Prop) : List Tok → List Node → Prop
  | nil : NodesSpell item [] []
  | cons {toks later : List Tok} {n : Node} {ns : List Node} (here : item toks n)
      (rest : NodesSpell item later ns) : NodesSpell item (toks ++ later) (n :: ns)

/-- The tokens of a node in which at most `levels` elements stand open inside each
other. -/
def NodeSpells (rules : Rules) : (levels : Nat) → List Tok → Node → Prop
  | 0 => NodeShape rules fun _ _ => False
  | levels + 1 => NodeShape rules (NodesSpell (NodeSpells rules levels))

/-- The tokens of a document. -/
def DocumentSpells (rules : Rules) : List Tok → List Node → Prop :=
  NodesSpell (NodeSpells rules elementLimit)

/-! ## Rules only narrow -/

/-- Attributes that obey rules are attributes without them. -/
theorem AttributesSpell.widen {rules : Rules} {toks : List Tok} {as : List Attribute}
    (spelled : AttributesSpell rules toks as) : AttributesSpell .wide toks as := by
  induction spelled with
  | nil => exact .nil
  | absent isName rest ih => exact .absent isName ih
  | valued isName isEquals here ends rest ih => exact .valued isName isEquals here (.inl rfl) ih

theorem HeadSpells.widen {rules : Rules} {toks : List Tok} {tag : Text} {as : List Attribute}
    {stop : Tok} (spelled : HeadSpells rules toks tag as stop) : HeadSpells .wide toks tag as stop := by
  cases spelled with
  | opened opens isName attributes => exact .opened opens isName attributes.widen

theorem NodeShape.widen {rules : Rules} {content content' : List Tok → List Node → Prop}
    (inner : ∀ {toks : List Tok} {ns : List Node}, content toks ns → content' toks ns)
    {toks : List Tok} {n : Node} (shape : NodeShape rules content toks n) :
    NodeShape .wide content' toks n := by
  cases shape with
  | text kind => exact .text kind
  | comment kind => exact .comment kind
  | interpolation here => exact .interpolation here
  | selfClosed head stops => exact .selfClosed head.widen stops
  | void head stops empty => exact .void head.widen stops empty
  | paired head stops allowed within closes => exact .paired head.widen stops rfl (inner within) closes

theorem NodesSpell.mono {item item' : List Tok → Node → Prop}
    (each : ∀ {toks : List Tok} {n : Node}, item toks n → item' toks n) {toks : List Tok}
    {ns : List Node} (spelled : NodesSpell item toks ns) : NodesSpell item' toks ns := by
  induction spelled with
  | nil => exact .nil
  | cons here rest ih => exact .cons (each here) ih

theorem NodeSpells.widen {rules : Rules} {levels : Nat} {toks : List Tok} {n : Node}
    (spelled : NodeSpells rules levels toks n) : NodeSpells .wide levels toks n := by
  induction levels generalizing toks n with
  | zero => exact NodeShape.widen id spelled
  | succ levels ih => exact NodeShape.widen (fun inside => inside.mono ih) spelled

/-- **Rules only narrow the grammar.**  A document that obeys them is one without them,
with the same tree. -/
theorem DocumentSpells.widen {rules : Rules} {toks : List Tok} {ns : List Node}
    (spelled : DocumentSpells rules toks ns) : DocumentSpells .wide toks ns :=
  NodesSpell.mono NodeSpells.widen spelled

/-! ## From the grammar to runs -/

section

variable {closing : Tok} {toks later rest : List Tok}

theorem InterpolationSpells.run {e : Expr} (spelled : InterpolationSpells toks e) :
    InterpolationRun (toks ++ rest) e rest := by
  cases spelled with
  | marked opens spelled high closes =>
      simpa using InterpolationRun.run opens spelled high closes

/-- An unquoted value reaches as far as its parts adjoin. -/
theorem adjacentTokens_eq {t : Tok} {ts : List Tok} (run : Adjoins (t :: ts))
    (breaks : Breaks (t :: ts) later) :
    adjacentTokens t.start (t :: (ts ++ later)) = t :: ts := by
  have isPart : (t.kind == .name || t.kind == .unquotedValue) = true :=
    run.parts t List.mem_cons_self
  rw [adjacentTokens, isPart, beq_self_eq_true, Bool.and_true, if_pos rfl]
  congr 1
  induction ts generalizing t with
  | nil =>
      cases later with
      | nil => rfl
      | cons u later =>
          rw [List.nil_append, adjacentTokens, if_neg]
          rw [Bool.and_eq_true, beq_iff_eq]
          rintro ⟨uPart, starts⟩
          exact breaks t rfl u rfl isPart uPart starts.symm
  | cons u ts ih =>
      have uPart : (u.kind == .name || u.kind == .unquotedValue) = true :=
        run.parts u (by simp)
      obtain ⟨starts, chain⟩ := List.isChain_cons_cons.1 run.chain
      rw [List.cons_append, adjacentTokens, uPart, starts, beq_self_eq_true, Bool.and_true,
        if_pos rfl]
      congr 1
      refine ih ⟨List.cons_ne_nil u ts, ?_, chain⟩ ?_ uPart
      · exact fun v member => run.parts v (List.mem_cons_of_mem t member)
      · intro last same
        exact breaks last (by simpa using same)

theorem ValueSpells.run {value : AttributeValue} (spelled : ValueSpells toks value)
    (breaks : Breaks toks rest) : ValueRun fragment? (toks ++ rest) value rest := by
  cases spelled with
  | quoted kind => exact .quoted kind
  | expression here => exact .expression here.run
  | unquoted run =>
      obtain ⟨t, ts, rfl⟩ := List.exists_cons_of_ne_nil run.some
      have reach := adjacentTokens_eq run breaks
      have read : ValueRun fragment? (t :: (ts ++ rest))
          (.unquoted (textOf (adjacentTokens t.start (t :: (ts ++ rest))))) rest := by
        refine .unquoted (run.parts t List.mem_cons_self) ?_
        rw [reach, ← List.cons_append, List.drop_left]
      rwa [reach] at read

theorem AttributesSpell.starts {rules : Rules} {as : List Attribute}
    (spelled : AttributesSpell rules toks as) : ∀ t ∈ toks.head?, t.kind = .name := by
  cases spelled with
  | nil => simp
  | absent isName rest => simpa using isName
  | valued isName isEquals here ends rest => simpa using isName

theorem AttributesSpell.run {as : List Attribute} (spelled : AttributesSpell .narrow toks as)
    {stop : Tok} (stops : stop.kind = .tagEnd ∨ stop.kind = .tagSelfClose) :
    AttributesRun closing fragment? (toks ++ stop :: rest) as (stop :: rest) := by
  induction spelled with
  | nil =>
      refine .done ?_
      rcases stops with kind | kind <;> simp [kind]
  | @absent name later as isName spelled ih =>
      refine .absent isName ?_ ih
      cases later with
      | nil => rcases stops with kind | kind <;> simp [kind]
      | cons t later =>
          have kind := spelled.starts t rfl
          simp [kind]
  | @valued name equals toks later value as isName isEquals here ends spelled ih =>
      have breaks : Breaks toks (later ++ stop :: rest) := by
        intro last isLast t next lastPart part
        cases later with
        | nil =>
            cases next
            rcases stops with kind | kind <;> simp [isValuePart, kind] at part
        | cons u later =>
            have inside := ends.resolve_left (by simp [Rules.narrow])
            exact inside last isLast t next lastPart part
      have read := here.run breaks
      rw [List.cons_append, List.cons_append, List.append_assoc]
      exact .valued isName isEquals read ih

theorem HeadSpells.run {tag : Text} {as : List Attribute} {stop : Tok}
    (spelled : HeadSpells .narrow toks tag as stop) (closing : Tok) (rest : List Tok) :
    ∃ opening ts, toks ++ rest = opening :: ts ∧ opening.kind = .tagOpen ∧
      (stop.kind = .tagSelfClose → HeadRun closing fragment? ts tag as true rest) ∧
      (stop.kind = .tagEnd → HeadRun closing fragment? ts tag as (isVoid tag) rest) := by
  cases spelled with
  | @opened opening name _ toks _ opens isName attributes =>
      refine ⟨opening, name :: (toks ++ stop :: rest), by simp, opens, ?_, ?_⟩
      · intro kind
        exact .selfClosed isName (attributes.run (.inr kind)) kind
      · intro kind
        exact .ended isName (attributes.run (.inl kind)) kind

theorem CloseSpells.run {tag : Text} (spelled : CloseSpells tag toks) :
    CloseRun tag (toks ++ rest) rest := by
  cases spelled with
  | closed opens isName same stops => exact .run opens isName same stops

theorem NodeShape.run {content : List Tok → List Node → Prop}
    {reads : Text → List Tok → List Node → List Tok → Prop}
    (inner : ∀ {tag : Text} {toks close rest : List Tok} {ns : List Node}, content toks ns →
      CloseSpells tag close → reads tag (toks ++ (close ++ rest)) ns rest)
    {n : Node} (shape : NodeShape .narrow content toks n) :
    NodeStep closing fragment? reads (toks ++ rest) n rest := by
  cases shape with
  | text kind => exact .text kind
  | comment kind => exact .comment kind
  | interpolation here => exact .interpolation here.run
  | selfClosed head stops =>
      obtain ⟨opening, ts, split, opens, closed, -⟩ := head.run closing rest
      rw [split]
      exact .closed opens (closed stops)
  | void head stops empty =>
      obtain ⟨opening, ts, split, opens, -, ended⟩ := head.run closing rest
      rw [split]
      have run := ended stops
      rw [empty] at run
      exact .closed opens run
  | @paired toks within close tag as stop children head stops allowed spelled closes =>
      obtain ⟨opening, ts, split, opens, -, ended⟩ :=
        head.run closing (within ++ (close ++ rest))
      have run := ended stops
      have solid : isVoid tag = false := by simpa [Rules.narrow] using allowed
      rw [solid] at run
      have apart : toks ++ (within ++ close) ++ rest = opening :: ts := by simpa using split
      rw [apart]
      exact .opened opens run (inner spelled closes)

theorem NodesSpell.contentRun {item : List Tok → Node → Prop} {reads : List Tok → Node → List Tok → Prop}
    (each : ∀ {toks rest : List Tok} {n : Node}, item toks n → reads (toks ++ rest) n rest)
    {tag : Text} {close : List Tok} {ns : List Node} (spelled : NodesSpell item toks ns)
    (closes : CloseSpells tag close) : ContentRun reads tag (toks ++ (close ++ rest)) ns rest := by
  induction spelled with
  | nil => exact .stop closes.run
  | cons here spelled ih =>
      rw [List.append_assoc]
      exact .next (each here) ih

theorem NodesSpell.documentRun {item : List Tok → Node → Prop}
    {reads : List Tok → Node → List Tok → Prop}
    (each : ∀ {toks rest : List Tok} {n : Node}, item toks n → reads (toks ++ rest) n rest)
    {ns : List Node} (spelled : NodesSpell item toks ns) : DocumentRun reads toks ns := by
  induction spelled with
  | nil => exact .stop
  | cons here spelled ih => exact .next (each here) ih

theorem NodeSpells.run {levels : Nat} {n : Node} (spelled : NodeSpells .narrow levels toks n) :
    NodeRun closing fragment? levels (toks ++ rest) n rest := by
  induction levels generalizing toks n rest with
  | zero => exact NodeShape.run (fun impossible => impossible.elim) spelled
  | succ levels ih => exact NodeShape.run (fun inner closes => inner.contentRun ih closes) spelled

end

/-! ## From runs to the grammar -/

section

variable {closing : Tok} {ts rest : List Tok}

theorem InterpolationRun.spells {e : Expr} (run : InterpolationRun ts e rest) :
    ∃ toks, ts = toks ++ rest ∧ InterpolationSpells toks e := by
  cases run with
  | @run opening last toks rest e opens spelled high closes =>
      exact ⟨opening :: (toks ++ [last]), by simp, .marked opens spelled high closes⟩

/-- The tokens of an unquoted value adjoin, and the first one stands where it
starts. -/
theorem adjacentTokens_chain (stop : Nat) (ts : List Tok) :
    (adjacentTokens stop ts).IsChain (fun t u => t.stop = u.start) ∧
      ∀ t ∈ (adjacentTokens stop ts).head?, t.start = stop := by
  induction ts generalizing stop with
  | nil => exact ⟨.nil, by simp [adjacentTokens]⟩
  | cons t ts ih =>
      rw [adjacentTokens]
      split
      · rename_i adjacent
        rw [Bool.and_eq_true, beq_iff_eq] at adjacent
        obtain ⟨chain, first⟩ := ih t.stop
        refine ⟨List.isChain_cons.2 ⟨fun u next => (first u next).symm, chain⟩, ?_⟩
        simpa using adjacent.2
      · exact ⟨.nil, by simp⟩

/-- What comes behind an unquoted value does not adjoin it. -/
theorem adjacentTokens_breaks (stop : Nat) (ts : List Tok) :
    ∀ t ∈ (ts.drop (adjacentTokens stop ts).length).head?, isValuePart t = true →
      ((adjacentTokens stop ts).getLast?.map Token.stop).getD stop ≠ t.start := by
  induction ts generalizing stop with
  | nil => simp
  | cons u ts ih =>
      rw [adjacentTokens]
      split
      · intro t next isPart
        have breaks := ih u.stop t next isPart
        cases later : adjacentTokens u.stop ts with
        | nil => simpa [later] using breaks
        | cons v vs =>
            rw [later, List.getLast?_eq_some_getLast (List.cons_ne_nil v vs)] at breaks
            rwa [List.getLast?_cons_cons, List.getLast?_eq_some_getLast (List.cons_ne_nil v vs)]
      · rename_i apart
        intro t next isPart starts
        have first : u = t := by simpa using next
        subst first
        refine apart ?_
        rw [Bool.and_eq_true, beq_iff_eq]
        exact ⟨isPart, starts.symm⟩

theorem ValueRun.spells {value : AttributeValue} (run : ValueRun fragment? ts value rest) :
    ∃ toks, ts = toks ++ rest ∧ ValueSpells toks value ∧ Breaks toks rest := by
  cases run with
  | @quoted t rest kind =>
      refine ⟨[t], rfl, .quoted kind, ?_⟩
      intro last isLast u next isPart
      cases isLast
      simp [isValuePart, kind] at isPart
  | expression here =>
      obtain ⟨toks, rfl, spelled⟩ := here.spells
      refine ⟨toks, rfl, .expression spelled, ?_⟩
      intro last isLast u next isPart
      cases spelled with
      | @marked opening ends inner e opens spelled high closes =>
          have same : ends = last := by
            rw [← List.cons_append, List.getLast?_concat] at isLast
            simpa using isLast
          subst same
          simp [isValuePart, closes] at isPart
  | @unquoted t ts rest isPart left =>
      have whole : adjacentTokens t.start (t :: ts) ++ rest = t :: ts := by
        rw [left]
        exact List.prefix_iff_eq_append.1 (adjacentTokens_begins t.start (t :: ts))
      have some : adjacentTokens t.start (t :: ts) ≠ [] := by
        rw [adjacentTokens, if_pos]
        · exact List.cons_ne_nil _ _
        · rw [beq_self_eq_true, Bool.and_true]
          exact isPart
      refine ⟨_, whole.symm, .unquoted ⟨some, isValuePart_of_mem, (adjacentTokens_chain _ _).1⟩, ?_⟩
      intro last isLast u next lastPart uPart
      rw [left] at next
      have breaks := adjacentTokens_breaks t.start (t :: ts) u next uPart
      rwa [isLast] at breaks

theorem AttributesRun.spells {as : List Attribute}
    (run : AttributesRun closing fragment? ts as rest) :
    ∃ toks, ts = toks ++ rest ∧ AttributesSpell .narrow toks as := by
  induction run with
  | done notName => exact ⟨[], rfl, .nil⟩
  | @absent name ts rest as isName noValue later ih =>
      obtain ⟨toks, rfl, spelled⟩ := ih
      exact ⟨name :: toks, rfl, .absent isName spelled⟩
  | @valued name equals ts between rest value as isName isEquals here later ih =>
      obtain ⟨toks, rfl, spelled, breaks⟩ := here.spells
      obtain ⟨more, rfl, others⟩ := ih
      refine ⟨name :: equals :: (toks ++ more), by simp,
        .valued isName isEquals spelled (.inr fun last isLast t next => ?_) others⟩
      refine breaks last isLast t ?_
      rw [List.head?_append, next]
      rfl

theorem HeadRun.spells {tag : Text} {as : List Attribute} {closed : Bool} {opening : Tok}
    (opens : opening.kind = .tagOpen) (run : HeadRun closing fragment? ts tag as closed rest) :
    ∃ toks stop, opening :: ts = toks ++ rest ∧ HeadSpells .narrow toks tag as stop ∧
      ((stop.kind = .tagSelfClose ∧ closed = true) ∨
        (stop.kind = .tagEnd ∧ closed = isVoid tag)) := by
  cases run with
  | @selfClosed name stop ts rest as isName attributes stops =>
      obtain ⟨toks, rfl, spelled⟩ := attributes.spells
      exact ⟨opening :: name :: (toks ++ [stop]), stop, by simp, .opened opens isName spelled,
        .inl ⟨stops, rfl⟩⟩
  | @ended name stop ts rest as isName attributes stops =>
      obtain ⟨toks, rfl, spelled⟩ := attributes.spells
      exact ⟨opening :: name :: (toks ++ [stop]), stop, by simp, .opened opens isName spelled,
        .inr ⟨stops, rfl⟩⟩

theorem CloseRun.spells {tag : Text} (run : CloseRun tag ts rest) :
    ∃ toks, ts = toks ++ rest ∧ CloseSpells tag toks := by
  cases run with
  | @run opening name stop rest opens isName same stops =>
      exact ⟨[opening, name, stop], rfl, .closed opens isName same stops⟩

/-- Runs of `item` over tokens from the lexer read what `shape` says, wherever data is
read. -/
def SpelledRuns (item : List Tok → Node → List Tok → Prop) (shape : List Tok → Node → Prop) : Prop :=
  ∀ {ts : List Tok} {n : Node} {rest : List Tok} {k k' : Cursor}, item ts n rest → Steps k ts k' →
    k.modes = [] → ∃ toks, ts = toks ++ rest ∧ shape toks n

variable {item : List Tok → Node → List Tok → Prop} {shape : List Tok → Node → Prop}
  {known : Node → Prop} {k k' : Cursor}

theorem ContentRun.spells {tag : Text} {ns : List Node} (run : ContentRun item tag ts ns rest)
    (sound : SoundRuns item known) (runs : SpelledRuns item shape) (steps : Steps k ts k')
    (mode : k.modes = []) :
    ∃ toks close, ts = toks ++ (close ++ rest) ∧ NodesSpell shape toks ns ∧
      CloseSpells tag close := by
  induction run generalizing k with
  | stop closes =>
      obtain ⟨close, rfl, spelled⟩ := closes.spells
      exact ⟨[], close, rfl, .nil, spelled⟩
  | next here later ih =>
      obtain ⟨-, -, between, following, leaves⟩ := sound here steps mode
      obtain ⟨toks, rfl, spelled⟩ := runs here steps mode
      obtain ⟨more, close, rfl, others, closes⟩ := ih following leaves.modes
      exact ⟨toks ++ more, close, by simp, .cons spelled others, closes⟩
  | skip idle later ih =>
      cases steps with
      | cons here following =>
          rw [not_isIdle here mode] at idle
          cases idle

theorem DocumentRun.spells {ns : List Node} (run : DocumentRun item ts ns)
    (sound : SoundRuns item known) (runs : SpelledRuns item shape) (steps : Steps k ts k')
    (mode : k.modes = []) :
    NodesSpell shape ts ns := by
  induction run generalizing k with
  | stop => exact .nil
  | next here later ih =>
      obtain ⟨-, -, between, following, leaves⟩ := sound here steps mode
      obtain ⟨toks, rfl, spelled⟩ := runs here steps mode
      exact .cons spelled (ih following leaves.modes)
  | skip idle later ih =>
      cases steps with
      | cons here following =>
          rw [not_isIdle here mode] at idle
          cases idle

theorem NodeStep.spells {content : Text → List Tok → List Node → List Tok → Prop}
    {within : List Tok → List Node → Prop}
    (inner : ∀ {tag : Text} {ts rest : List Tok} {ns : List Node} {k k' : Cursor},
      content tag ts ns rest → Steps k ts k' → k.modes = [] →
        ∃ toks close, ts = toks ++ (close ++ rest) ∧ within toks ns ∧ CloseSpells tag close) :
    SpelledRuns (NodeStep closing fragment? content) (NodeShape .narrow within) := by
  intro ts n rest k k' step steps mode
  cases step with
  | @text t rest kind => exact ⟨[t], rfl, .text kind⟩
  | @comment t rest kind => exact ⟨[t], rfl, .comment kind⟩
  | interpolation here =>
      obtain ⟨toks, rfl, spelled⟩ := here.spells
      exact ⟨toks, rfl, .interpolation spelled⟩
  | closed opens head =>
      obtain ⟨toks, stop, split, spelled, ends⟩ := head.spells opens
      refine ⟨toks, split, ?_⟩
      rcases ends with ⟨stops, -⟩ | ⟨stops, empty⟩
      · exact .selfClosed spelled stops
      · exact .void spelled stops empty.symm
  | @opened opening ts between rest tag as children opens head inside =>
      obtain ⟨toks, stop, split, spelled, ends⟩ := head.spells opens
      cases steps with
      | cons here later =>
          have entered := modes_of_next? here
          rw [opens, mode] at entered
          obtain ⟨-, -, -, after, back, modes⟩ := head.sound later entered
          obtain ⟨more, close, rfl, nodes, closes⟩ := inner inside back modes
          rcases ends with ⟨-, impossible⟩ | ⟨stops, solid⟩
          · cases impossible
          · refine ⟨toks ++ (more ++ close), by simp [split], .paired spelled stops ?_ nodes closes⟩
            simp [Rules.narrow, ← solid]

end

theorem spelledRuns_nodeRun (closing : Tok) (levels : Nat) :
    SpelledRuns (NodeRun closing fragment? levels) (NodeSpells .narrow levels) := by
  induction levels with
  | zero => exact NodeStep.spells fun impossible => impossible.elim
  | succ levels ih =>
      refine NodeStep.spells fun inside steps mode => ?_
      have sound : SoundRuns (NodeRun closing fragment? levels) (Sound levels) :=
        soundRuns_nodeRun closing levels
      exact ContentRun.spells inside sound ih steps mode

/-- **The parser reads its grammar.**  A source is parsed to the nodes without a report
exactly when its tokens spell them. -/
theorem parse_eq_iff_spells {source : Text} {ns : List Node} :
    parse source = { children := ns, errors := [] } ↔ DocumentSpells .narrow (lexemes source) ns := by
  rw [parse, parseWith_eq_iff]
  constructor
  · intro run
    obtain ⟨k, steps, -⟩ := exists_steps_drain (Cursor.start source)
    have sound : SoundRuns (NodeRun (endToken source) fragment? elementLimit) (Sound elementLimit) :=
      soundRuns_nodeRun _ _
    have runs : SpelledRuns (NodeRun (endToken source) fragment? elementLimit)
        (NodeSpells .narrow elementLimit) := spelledRuns_nodeRun _ _
    exact DocumentRun.spells run sound runs steps rfl
  · intro spelled
    exact spelled.documentRun NodeSpells.run

end UiFormat.Markup

/-
# UiFormat.Proofs.Markup.ExprParentheses -- the parentheses the printer adds

`Expr.parenthesized` makes a grouping of every part the printer parenthesises, so
both expressions print alike and differ in groupings only (`ungrouped`).  What is
read back from a printed expression is the parenthesized one.

Among the expressions that are read from a source only the branches of a
conditional get parentheses, when they are assignments.  The parentheses nest
expressions deeper and make trees higher, and both have a limit:
`Expr.survives` says that the printed expression stays below the two, and that no
number runs on into the point of a member access.
-/
import UiFormat.Proofs.Markup.ExprRoundTrip

namespace UiFormat.Markup

open UiFormat.Text
open UiFormat.Parse

set_option autoImplicit false

/-! ## Groupings -/

/-- The expression where `required` is needed, with the parentheses of the
printer. -/
def Expr.grouped (required : Nat) (e : Expr) : Expr :=
  if e.level < required then .grouping e else e

mutual

/-- The expression with a grouping for all parentheses that are printed. -/
def Expr.parenthesized : Expr → Expr
  | .identifier name => .identifier name
  | .literal kind raw => .literal kind raw
  | .unary op operand => .unary op (operand.parenthesized.grouped unaryLevel)
  | .binary left op right =>
      .binary (left.parenthesized.grouped (binaryLevel op)) op
        (right.parenthesized.grouped (binaryLevel op + 1))
  | .logical left op right =>
      .logical (left.parenthesized.grouped (binaryLevel op)) op
        (right.parenthesized.grouped (binaryLevel op + 1))
  | .conditional test consequent alternate =>
      .conditional (test.parenthesized.grouped 2) (consequent.parenthesized.grouped 2)
        (alternate.parenthesized.grouped 2)
  | .assignment target op value =>
      .assignment (target.parenthesized.grouped 1) op (value.parenthesized.grouped 1)
  | .member object name => .member (object.parenthesized.grouped postfixLevel) name
  | .computedMember object index =>
      .computedMember (object.parenthesized.grouped postfixLevel) index.parenthesized
  | .call callee arguments =>
      .call (callee.parenthesized.grouped postfixLevel) (allParenthesized arguments)
  | .array items => .array (allParenthesized items)
  | .object entries => .object (entriesParenthesized entries)
  | .grouping body => .grouping body.parenthesized

/-- Several expressions with their groupings. -/
def allParenthesized : List Expr → List Expr
  | [] => []
  | e :: rest => e.parenthesized :: allParenthesized rest

/-- Several object entries with their groupings. -/
def entriesParenthesized : List Entry → List Entry
  | [] => []
  | entry :: rest => entry.parenthesized :: entriesParenthesized rest

/-- An object entry with its groupings. -/
def Entry.parenthesized : Entry → Entry
  | .shorthand key => .shorthand key.parenthesized
  | .pair key value => .pair key.parenthesized value.parenthesized

/-- A key with its groupings. -/
def Key.parenthesized : Key → Key
  | .name name => .name name
  | .literal kind raw => .literal kind raw
  | .computed body => .computed body.parenthesized

end

mutual

/-- The expression without its groupings. -/
def Expr.ungrouped : Expr → Expr
  | .identifier name => .identifier name
  | .literal kind raw => .literal kind raw
  | .unary op operand => .unary op operand.ungrouped
  | .binary left op right => .binary left.ungrouped op right.ungrouped
  | .logical left op right => .logical left.ungrouped op right.ungrouped
  | .conditional test consequent alternate =>
      .conditional test.ungrouped consequent.ungrouped alternate.ungrouped
  | .assignment target op value => .assignment target.ungrouped op value.ungrouped
  | .member object name => .member object.ungrouped name
  | .computedMember object index => .computedMember object.ungrouped index.ungrouped
  | .call callee arguments => .call callee.ungrouped (allUngrouped arguments)
  | .array items => .array (allUngrouped items)
  | .object entries => .object (entriesUngrouped entries)
  | .grouping body => body.ungrouped

/-- Several expressions without their groupings. -/
def allUngrouped : List Expr → List Expr
  | [] => []
  | e :: rest => e.ungrouped :: allUngrouped rest

/-- Several object entries without their groupings. -/
def entriesUngrouped : List Entry → List Entry
  | [] => []
  | entry :: rest => entry.ungrouped :: entriesUngrouped rest

/-- An object entry without its groupings. -/
def Entry.ungrouped : Entry → Entry
  | .shorthand key => .shorthand key.ungrouped
  | .pair key value => .pair key.ungrouped value.ungrouped

/-- A key without its groupings. -/
def Key.ungrouped : Key → Key
  | .name name => .name name
  | .literal kind raw => .literal kind raw
  | .computed body => .computed body.ungrouped

end

theorem level_parenthesized (e : Expr) : e.parenthesized.level = e.level := by
  cases e <;> rfl

theorem grouped_eq {required : Nat} {e : Expr} (tight : required ≤ e.level) :
    e.grouped required = e :=
  if_neg (Nat.not_lt_of_le tight)

theorem ungrouped_grouped (required : Nat) (e : Expr) :
    (e.grouped required).ungrouped = e.ungrouped := by
  unfold Expr.grouped
  split <;> rfl

theorem binaryLevel_le (op : Text) : binaryLevel op ≤ unaryLevel := by
  unfold binaryLevel
  split
  · rename_i level ops found
    have table : ∀ group ∈ binaryLevels, group.1 ≤ unaryLevel := by decide
    exact table _ (List.mem_of_find?_eq_some found)
  · exact Nat.le_refl _

/-- A grouped part is printed in its place like the part itself. -/
theorem print_grouped {required : Nat} (place : required ≤ atomLevel) (e : Expr) :
    parenthesize required (e.grouped required).level (e.grouped required).print =
      parenthesize required e.level e.print := by
  unfold Expr.grouped
  split
  · rename_i loose
    rw [parenthesize, parenthesize, if_pos loose]
    exact if_neg (Nat.not_lt_of_le place)
  · rfl

mutual

/-- The groupings are the parentheses that are printed anyway. -/
theorem print_parenthesized : ∀ e : Expr, e.parenthesized.print = e.print
  | .identifier name => rfl
  | .literal kind raw => rfl
  | .unary op operand => by
      simp only [Expr.parenthesized, Expr.print, print_grouped (by decide : unaryLevel ≤ atomLevel),
        level_parenthesized, print_parenthesized operand]
  | .binary left op right => by
      have place : binaryLevel op + 1 ≤ atomLevel :=
        Nat.le_succ_of_le (Nat.succ_le_succ (binaryLevel_le op))
      simp only [Expr.parenthesized, Expr.print, print_grouped place,
        print_grouped (Nat.le_of_succ_le place), level_parenthesized, print_parenthesized left,
        print_parenthesized right]
  | .logical left op right => by
      have place : binaryLevel op + 1 ≤ atomLevel :=
        Nat.le_succ_of_le (Nat.succ_le_succ (binaryLevel_le op))
      simp only [Expr.parenthesized, Expr.print, print_grouped place,
        print_grouped (Nat.le_of_succ_le place), level_parenthesized, print_parenthesized left,
        print_parenthesized right]
  | .conditional test consequent alternate => by
      simp only [Expr.parenthesized, Expr.print, print_grouped (by decide : 2 ≤ atomLevel),
        level_parenthesized, print_parenthesized test, print_parenthesized consequent,
        print_parenthesized alternate]
  | .assignment target op value => by
      simp only [Expr.parenthesized, Expr.print, print_grouped (by decide : 1 ≤ atomLevel),
        level_parenthesized, print_parenthesized target, print_parenthesized value]
  | .member object name => by
      simp only [Expr.parenthesized, Expr.print,
        print_grouped (by decide : postfixLevel ≤ atomLevel), level_parenthesized,
        print_parenthesized object]
  | .computedMember object index => by
      simp only [Expr.parenthesized, Expr.print,
        print_grouped (by decide : postfixLevel ≤ atomLevel), level_parenthesized,
        print_parenthesized object, print_parenthesized index]
  | .call callee arguments => by
      simp only [Expr.parenthesized, Expr.print,
        print_grouped (by decide : postfixLevel ≤ atomLevel), level_parenthesized,
        print_parenthesized callee, printAll_parenthesized arguments]
  | .array items => by
      simp only [Expr.parenthesized, Expr.print, printAll_parenthesized items]
  | .object entries => by
      simp only [Expr.parenthesized, Expr.print, printEntries_parenthesized entries]
  | .grouping body => by
      simp only [Expr.parenthesized, Expr.print, print_parenthesized body]

theorem printAll_parenthesized : ∀ es : List Expr, printAll (allParenthesized es) = printAll es
  | [] => rfl
  | e :: rest => by
      simp only [allParenthesized, printAll, print_parenthesized e, printAll_parenthesized rest]

theorem printEntries_parenthesized :
    ∀ es : List Entry, printEntries (entriesParenthesized es) = printEntries es
  | [] => rfl
  | .shorthand key :: rest => by
      simp only [entriesParenthesized, printEntries, Entry.parenthesized, Entry.print,
        printKey_parenthesized key, printEntries_parenthesized rest]
  | .pair key value :: rest => by
      simp only [entriesParenthesized, printEntries, Entry.parenthesized, Entry.print,
        printKey_parenthesized key, print_parenthesized value, printEntries_parenthesized rest]

theorem printKey_parenthesized : ∀ key : Key, key.parenthesized.print = key.print
  | .name name => rfl
  | .literal kind raw => rfl
  | .computed body => by
      simp only [Key.parenthesized, Key.print, print_parenthesized body]

end

mutual

/-- The expression and the parenthesized one differ in groupings only. -/
theorem ungrouped_parenthesized : ∀ e : Expr, e.parenthesized.ungrouped = e.ungrouped
  | .identifier name => rfl
  | .literal kind raw => rfl
  | .unary op operand => by
      simp only [Expr.parenthesized, Expr.ungrouped, ungrouped_grouped,
        ungrouped_parenthesized operand]
  | .binary left op right => by
      simp only [Expr.parenthesized, Expr.ungrouped, ungrouped_grouped,
        ungrouped_parenthesized left, ungrouped_parenthesized right]
  | .logical left op right => by
      simp only [Expr.parenthesized, Expr.ungrouped, ungrouped_grouped,
        ungrouped_parenthesized left, ungrouped_parenthesized right]
  | .conditional test consequent alternate => by
      simp only [Expr.parenthesized, Expr.ungrouped, ungrouped_grouped,
        ungrouped_parenthesized test, ungrouped_parenthesized consequent,
        ungrouped_parenthesized alternate]
  | .assignment target op value => by
      simp only [Expr.parenthesized, Expr.ungrouped, ungrouped_grouped,
        ungrouped_parenthesized target, ungrouped_parenthesized value]
  | .member object name => by
      simp only [Expr.parenthesized, Expr.ungrouped, ungrouped_grouped,
        ungrouped_parenthesized object]
  | .computedMember object index => by
      simp only [Expr.parenthesized, Expr.ungrouped, ungrouped_grouped,
        ungrouped_parenthesized object, ungrouped_parenthesized index]
  | .call callee arguments => by
      simp only [Expr.parenthesized, Expr.ungrouped, ungrouped_grouped,
        ungrouped_parenthesized callee, allUngrouped_parenthesized arguments]
  | .array items => by
      simp only [Expr.parenthesized, Expr.ungrouped, allUngrouped_parenthesized items]
  | .object entries => by
      simp only [Expr.parenthesized, Expr.ungrouped, entriesUngrouped_parenthesized entries]
  | .grouping body => by
      simp only [Expr.parenthesized, Expr.ungrouped, ungrouped_parenthesized body]

theorem allUngrouped_parenthesized :
    ∀ es : List Expr, allUngrouped (allParenthesized es) = allUngrouped es
  | [] => rfl
  | e :: rest => by
      simp only [allParenthesized, allUngrouped, ungrouped_parenthesized e,
        allUngrouped_parenthesized rest]

theorem entriesUngrouped_parenthesized :
    ∀ es : List Entry, entriesUngrouped (entriesParenthesized es) = entriesUngrouped es
  | [] => rfl
  | .shorthand key :: rest => by
      simp only [entriesParenthesized, entriesUngrouped, Entry.parenthesized, Entry.ungrouped,
        keyUngrouped_parenthesized key, entriesUngrouped_parenthesized rest]
  | .pair key value :: rest => by
      simp only [entriesParenthesized, entriesUngrouped, Entry.parenthesized, Entry.ungrouped,
        keyUngrouped_parenthesized key, ungrouped_parenthesized value,
        entriesUngrouped_parenthesized rest]

theorem keyUngrouped_parenthesized : ∀ key : Key, key.parenthesized.ungrouped = key.ungrouped
  | .name name => rfl
  | .literal kind raw => rfl
  | .computed body => by
      simp only [Key.parenthesized, Key.ungrouped, ungrouped_parenthesized body]

end

/-! ## Nesting -/

mutual

/-- How many complete expressions stand inside each other within the expression,
not counting itself. -/
def Expr.nesting : Expr → Nat
  | .identifier _ => 0
  | .literal _ _ => 0
  | .unary _ operand => operand.nesting
  | .binary left _ right => Nat.max left.nesting right.nesting
  | .logical left _ right => Nat.max left.nesting right.nesting
  | .conditional test consequent alternate =>
      Nat.max test.nesting (Nat.max (consequent.nesting + 1) (alternate.nesting + 1))
  | .assignment target _ value => Nat.max target.nesting (value.nesting + 1)
  | .member object _ => object.nesting
  | .computedMember object index => Nat.max object.nesting (index.nesting + 1)
  | .call callee arguments => Nat.max callee.nesting (nestingOf arguments)
  | .array items => nestingOf items
  | .object entries => nestingOfEntries entries
  | .grouping body => body.nesting + 1

/-- The nesting of several complete expressions, themselves counted. -/
def nestingOf : List Expr → Nat
  | [] => 0
  | e :: rest => Nat.max (e.nesting + 1) (nestingOf rest)

/-- The nesting of several object entries. -/
def nestingOfEntries : List Entry → Nat
  | [] => 0
  | entry :: rest => Nat.max entry.nesting (nestingOfEntries rest)

/-- The nesting of an object entry. -/
def Entry.nesting : Entry → Nat
  | .shorthand key => key.nesting
  | .pair key value => Nat.max key.nesting (value.nesting + 1)

/-- The nesting of a key. -/
def Key.nesting : Key → Nat
  | .name _ => 0
  | .literal _ _ => 0
  | .computed body => body.nesting + 1

end

theorem nesting_buildAt (level : Nat) (x : Expr) (op : Text) (y : Expr) :
    (buildAt level x op y).nesting = Nat.max x.nesting y.nesting := by
  unfold buildAt
  split <;> rfl

section

variable {spells spells' : List Tok → Expr → Prop} {m : Nat}

theorem Items.nesting_le (nested : ∀ toks e, spells toks e → e.nesting < m) {toks : List Tok}
    {es : List Expr} (items : Items spells toks es) : nestingOf es ≤ m := by
  induction items with
  | nil => exact Nat.zero_le m
  | last here => exact Nat.max_le.2 ⟨nested _ _ here, Nat.zero_le m⟩
  | more here isComma rest ih => exact Nat.max_le.2 ⟨nested _ _ here, ih⟩

theorem KeySpells.nesting_le (nested : ∀ toks e, spells toks e → e.nesting < m) {toks : List Tok}
    {key : Key} (spelled : KeySpells spells toks key) : key.nesting ≤ m := by
  cases spelled with
  | name isName => exact Nat.zero_le m
  | literal isLiteral => exact Nat.zero_le m
  | computed opens body closes => exact nested _ _ body

theorem EntrySpells.nesting_le (nested : ∀ toks e, spells toks e → e.nesting < m) {toks : List Tok}
    {entry : Entry} (spelled : EntrySpells spells toks entry) : entry.nesting ≤ m := by
  cases spelled with
  | shorthand here => exact here.nesting_le nested
  | pair here isColon rest => exact Nat.max_le.2 ⟨here.nesting_le nested, nested _ _ rest⟩

theorem Items.entries_nesting_le (nested : ∀ toks e, spells toks e → e.nesting < m)
    {toks : List Tok} {es : List Entry} (items : Items (EntrySpells spells) toks es) :
    nestingOfEntries es ≤ m := by
  induction items with
  | nil => exact Nat.zero_le m
  | last here => exact Nat.max_le.2 ⟨here.nesting_le nested, Nat.zero_le m⟩
  | more here isComma rest ih => exact Nat.max_le.2 ⟨here.nesting_le nested, ih⟩

theorem Derives.nesting_le (nested : ∀ toks e, spells toks e → e.nesting < m) {level : Nat}
    {toks : List Tok} {e : Expr} (derived : Derives spells level toks e) : e.nesting ≤ m := by
  induction derived with
  | name isName => exact Nat.zero_le m
  | literal isLiteral => exact Nat.zero_le m
  | grouping opens body closes => exact nested _ _ body
  | array opens items closes => exact items.nesting_le nested
  | object opens entries closes => exact entries.entries_nesting_le nested
  | member here isPoint isName ih => exact ih
  | index here opens body closes ih => exact Nat.max_le.2 ⟨ih, nested _ _ body⟩
  | call here opens items closes ih => exact Nat.max_le.2 ⟨ih, items.nesting_le nested⟩
  | unary isSign here ih => exact ih
  | binary first isOp second ihFirst ihSecond =>
      rw [nesting_buildAt]
      exact Nat.max_le.2 ⟨ihFirst, ihSecond⟩
  | conditional test asks yes splits no ih =>
      exact Nat.max_le.2 ⟨ih, Nat.max_le.2 ⟨nested _ _ yes, nested _ _ no⟩⟩
  | assignment target assigns value ih => exact Nat.max_le.2 ⟨ih, nested _ _ value⟩
  | tighter here ih => exact ih

/-- Items are spelled by every relation that spells the expressions in them. -/
theorem Items.imp {α : Type} {item item' : List Tok → α → Prop} {toks : List Tok} {xs : List α}
    (items : Items item toks xs) (each : ∀ toks, ∀ x ∈ xs, item toks x → item' toks x) :
    Items item' toks xs := by
  induction items with
  | nil => exact .nil
  | last here => exact .last (each _ _ List.mem_cons_self here)
  | more here isComma rest ih =>
      exact .more (each _ _ List.mem_cons_self here) isComma
        (ih fun toks x member => each toks x (List.mem_cons_of_mem _ member))

theorem nesting_lt_of_mem {es : List Expr} {e : Expr} (member : e ∈ es) :
    e.nesting < nestingOf es := by
  induction es with
  | nil => cases member
  | cons x es ih =>
      rcases List.mem_cons.1 member with rfl | member
      · exact Nat.le_max_left _ _
      · exact Nat.lt_of_lt_of_le (ih member) (Nat.le_max_right _ _)

theorem nesting_le_of_mem {es : List Entry} {entry : Entry} (member : entry ∈ es) :
    entry.nesting ≤ nestingOfEntries es := by
  induction es with
  | nil => cases member
  | cons x es ih =>
      rcases List.mem_cons.1 member with rfl | member
      · exact Nat.le_max_left _ _
      · exact Nat.le_trans (ih member) (Nat.le_max_right _ _)

theorem KeySpells.within (nested : ∀ toks e, spells toks e → e.nesting < m → spells' toks e)
    {toks : List Tok} {key : Key} (spelled : KeySpells spells toks key) (small : key.nesting ≤ m) :
    KeySpells spells' toks key := by
  cases spelled with
  | name isName => exact .name isName
  | literal isLiteral => exact .literal isLiteral
  | computed opens body closes => exact .computed opens (nested _ _ body small) closes

theorem EntrySpells.within (nested : ∀ toks e, spells toks e → e.nesting < m → spells' toks e)
    {toks : List Tok} {entry : Entry} (spelled : EntrySpells spells toks entry)
    (small : entry.nesting ≤ m) : EntrySpells spells' toks entry := by
  cases spelled with
  | shorthand here => exact .shorthand (here.within nested small)
  | pair here isColon rest =>
      obtain ⟨key, value⟩ := Nat.max_le.1 small
      exact .pair (here.within nested key) isColon (nested _ _ rest value)

/-- A derivation needs only the complete expressions that stand in it. -/
theorem Derives.within (nested : ∀ toks e, spells toks e → e.nesting < m → spells' toks e)
    {level : Nat} {toks : List Tok} {e : Expr} (derived : Derives spells level toks e)
    (small : e.nesting ≤ m) : Derives spells' level toks e := by
  have list : ∀ {toks : List Tok} {es : List Expr}, Items spells toks es → nestingOf es ≤ m →
      Items spells' toks es := fun items small => items.imp fun toks e member here =>
    nested toks e here (Nat.lt_of_lt_of_le (nesting_lt_of_mem member) small)
  induction derived with
  | name isName => exact .name isName
  | literal isLiteral => exact .literal isLiteral
  | grouping opens body closes => exact .grouping opens (nested _ _ body small) closes
  | array opens items closes => exact .array opens (list items small) closes
  | object opens entries closes =>
      exact .object opens (entries.imp fun toks entry member here =>
        here.within nested (Nat.le_trans (nesting_le_of_mem member) small)) closes
  | member here isPoint isName ih => exact .member (ih small) isPoint isName
  | index here opens body closes ih =>
      obtain ⟨value, index⟩ := Nat.max_le.1 small
      exact .index (ih value) opens (nested _ _ body index) closes
  | call here opens items closes ih =>
      obtain ⟨callee, arguments⟩ := Nat.max_le.1 small
      exact .call (ih callee) opens (list items arguments) closes
  | unary isSign here ih => exact .unary isSign (ih small)
  | binary first isOp second ihFirst ihSecond =>
      rw [nesting_buildAt] at small
      obtain ⟨left, right⟩ := Nat.max_le.1 small
      exact .binary (ihFirst left) isOp (ihSecond right)
  | conditional test asks yes splits no ih =>
      obtain ⟨first, branches⟩ := Nat.max_le.1 small
      obtain ⟨second, third⟩ := Nat.max_le.1 branches
      exact .conditional (ih first) asks (nested _ _ yes second) splits (nested _ _ no third)
  | assignment target assigns value ih =>
      obtain ⟨left, right⟩ := Nat.max_le.1 small
      exact .assignment (ih left) assigns (nested _ _ value right)
  | tighter here ih => exact .tighter (ih small)

end

/-- The nesting is what the limit on complete expressions counts. -/
theorem Spells.nesting_lt {n : Nat} {toks : List Tok} {e : Expr} (spelled : Spells n toks e) :
    e.nesting < n := by
  induction n generalizing toks e with
  | zero => exact spelled.elim
  | succ n ih => exact Nat.lt_succ_of_le (Derives.nesting_le (fun _ _ inner => ih inner) spelled)

theorem Spells.within {n m : Nat} {toks : List Tok} {e : Expr} (spelled : Spells n toks e)
    (small : e.nesting < m) : Spells m toks e := by
  induction n generalizing m toks e with
  | zero => exact spelled.elim
  | succ n ih =>
      cases m with
      | zero => exact absurd small (Nat.not_lt_zero _)
      | succ m =>
          exact Derives.within (fun _ _ inner less => ih inner less) spelled (Nat.le_of_lt_succ small)

/-! ## Spelling the parentheses -/

theorem Derives.looser {spells : List Tok → Expr → Prop} {level looser : Nat} {toks : List Tok}
    {e : Expr} (derived : Derives spells level toks e) (le : looser ≤ level) :
    Derives spells looser toks e := by
  induction level with
  | zero =>
      obtain rfl := Nat.le_zero.1 le
      exact derived
  | succ level ih =>
      rcases Nat.lt_or_eq_of_le le with less | rfl
      · exact ih (.tighter derived) (Nat.le_of_lt_succ less)
      · exact derived

/-- The expression is spelled by tokens that can be read. -/
def Spellable (spells : List Tok → Expr → Prop) (e : Expr) : Prop :=
  ∃ toks, spells toks e ∧ ∀ t ∈ toks, Spelled t

/-- Complete expressions can be spelled wherever they get parentheses. -/
def Regroups (spells spells' : List Tok → Expr → Prop) : Prop :=
  ∀ required toks e, spells toks e → (∀ t ∈ toks, Spelled t) →
    Spellable spells' (e.parenthesized.grouped required)

theorem grouped_zero (e : Expr) : e.grouped 0 = e :=
  grouped_eq (Nat.zero_le _)

section

variable {spells spells' : List Tok → Expr → Prop}

theorem Regroups.parenthesized (nested : Regroups spells spells') {toks : List Tok} {e : Expr}
    (here : spells toks e) (leaves : ∀ t ∈ toks, Spelled t) : Spellable spells' e.parenthesized := by
  have plain := nested 0 toks e here leaves
  rwa [grouped_zero] at plain

/-- Tokens of a part, between or behind others. -/
theorem leaves_append {a b : List Tok} (first : ∀ t ∈ a, Spelled t) (second : ∀ t ∈ b, Spelled t) :
    ∀ t ∈ a ++ b, Spelled t := by
  intro t member
  exact (List.mem_append.1 member).elim (first t) (second t)

theorem leaves_bracketed {opening closing : Tok} {toks inner : List Tok}
    (leaves : ∀ t ∈ opening :: (toks ++ [closing]), Spelled t) (inside : ∀ t ∈ inner, Spelled t) :
    ∀ t ∈ opening :: (inner ++ [closing]), Spelled t := by
  intro t member
  simp only [List.mem_cons, List.mem_append, List.not_mem_nil, or_false] at member
  rcases member with rfl | member | rfl
  · exact leaves _ (by simp)
  · exact inside t member
  · exact leaves _ (by simp)

theorem leaves_inside {opening closing : Tok} {toks : List Tok}
    (leaves : ∀ t ∈ opening :: (toks ++ [closing]), Spelled t) : ∀ t ∈ toks, Spelled t :=
  fun t member => leaves t (by simp [member])

theorem Items.parenthesized {α : Type} {item item' : List Tok → α → Prop} {f : α → α}
    (each : ∀ toks x, item toks x → (∀ t ∈ toks, Spelled t) →
      ∃ toks', item' toks' (f x) ∧ ∀ t ∈ toks', Spelled t)
    {toks : List Tok} {xs : List α} (items : Items item toks xs) (leaves : ∀ t ∈ toks, Spelled t) :
    ∃ toks', Items item' toks' (xs.map f) ∧ ∀ t ∈ toks', Spelled t := by
  induction items with
  | nil => exact ⟨[], .nil, leaves⟩
  | last here =>
      obtain ⟨toks', again, leaves'⟩ := each _ _ here leaves
      exact ⟨toks', .last again, leaves'⟩
  | @more toks later comma x xs here isComma rest ih =>
      obtain ⟨first, again, firstLeaves⟩ := each _ _ here fun t member => leaves t (by simp [member])
      obtain ⟨second, others, secondLeaves⟩ := ih fun t member => leaves t (by simp [member])
      have commaSpelled : Spelled comma := leaves comma (by simp)
      exact ⟨first ++ comma :: second, .more again isComma others,
        leaves_append firstLeaves (List.forall_mem_cons.2 ⟨commaSpelled, secondLeaves⟩)⟩

theorem allParenthesized_eq (es : List Expr) :
    allParenthesized es = es.map Expr.parenthesized := by
  induction es with
  | nil => rfl
  | cons e es ih => rw [allParenthesized, ih, List.map_cons]

theorem entriesParenthesized_eq (es : List Entry) :
    entriesParenthesized es = es.map Entry.parenthesized := by
  induction es with
  | nil => rfl
  | cons e es ih => rw [entriesParenthesized, ih, List.map_cons]

theorem KeySpells.parenthesized (nested : Regroups spells spells') {toks : List Tok} {key : Key}
    (spelled : KeySpells spells toks key) (leaves : ∀ t ∈ toks, Spelled t) :
    ∃ toks', KeySpells spells' toks' key.parenthesized ∧ ∀ t ∈ toks', Spelled t := by
  cases spelled with
  | name isName => exact ⟨_, .name isName, leaves⟩
  | literal isLiteral => exact ⟨_, .literal isLiteral, leaves⟩
  | computed opens body closes =>
      obtain ⟨inner, again, inside⟩ := nested.parenthesized body (leaves_inside leaves)
      exact ⟨_, .computed opens again closes, leaves_bracketed leaves inside⟩

theorem EntrySpells.parenthesized (nested : Regroups spells spells') {toks : List Tok}
    {entry : Entry} (spelled : EntrySpells spells toks entry) (leaves : ∀ t ∈ toks, Spelled t) :
    ∃ toks', EntrySpells spells' toks' entry.parenthesized ∧ ∀ t ∈ toks', Spelled t := by
  cases spelled with
  | shorthand here =>
      obtain ⟨toks', again, leaves'⟩ := here.parenthesized nested leaves
      exact ⟨toks', .shorthand again, leaves'⟩
  | @pair toks later colon key value here isColon rest =>
      have colonSpelled : Spelled colon := leaves colon (by simp)
      obtain ⟨first, again, firstLeaves⟩ :=
        here.parenthesized nested fun t member => leaves t (by simp [member])
      obtain ⟨second, body, secondLeaves⟩ :=
        nested.parenthesized rest fun t member => leaves t (by simp [member])
      exact ⟨_, .pair again isColon body,
        leaves_append firstLeaves (List.forall_mem_cons.2 ⟨colonSpelled, secondLeaves⟩)⟩

theorem parenthesized_buildAt {level : Nat} {op : Tok}
    (isOp : isOperatorOf (operatorsAt level) op = true) {x y : Expr} (left : level ≤ x.level)
    (right : level + 1 ≤ y.level) :
    (buildAt level x op.text y).parenthesized =
      buildAt level x.parenthesized op.text y.parenthesized := by
  have first : x.parenthesized.grouped level = x.parenthesized :=
    grouped_eq (by rwa [level_parenthesized])
  have second : y.parenthesized.grouped (level + 1) = y.parenthesized :=
    grouped_eq (by rwa [level_parenthesized])
  unfold buildAt
  split <;> rw [Expr.parenthesized, binaryLevel_of_operator isOp, first, second]

/-- A derivation of an expression gives one of the parenthesized expression. -/
theorem Derives.parenthesized (nested : Regroups spells spells') {level : Nat} {toks : List Tok}
    {e : Expr} (derived : Derives spells level toks e) (leaves : ∀ t ∈ toks, Spelled t) :
    Spellable (Derives spells' level) e.parenthesized := by
  have tight : ∀ {required level : Nat} {toks : List Tok} {e : Expr}, Derives spells level toks e →
      required ≤ level → e.parenthesized.grouped required = e.parenthesized := by
    intro required level toks e here le
    exact grouped_eq (by rw [level_parenthesized]; exact Nat.le_trans le here.le_level)
  have list : ∀ {toks : List Tok} {es : List Expr}, Items spells toks es →
      (∀ t ∈ toks, Spelled t) →
      ∃ toks', Items spells' toks' (allParenthesized es) ∧ ∀ t ∈ toks', Spelled t := by
    intro toks es items leaves
    rw [allParenthesized_eq]
    exact items.parenthesized (fun toks e here inside => nested.parenthesized here inside) leaves
  induction derived with
  | name isName => exact ⟨_, .name isName, leaves⟩
  | literal isLiteral => exact ⟨_, .literal isLiteral, leaves⟩
  | grouping opens body closes =>
      obtain ⟨inner, again, inside⟩ := nested.parenthesized body (leaves_inside leaves)
      exact ⟨_, .grouping opens again closes, leaves_bracketed leaves inside⟩
  | array opens items closes =>
      obtain ⟨inner, again, inside⟩ := list items (leaves_inside leaves)
      exact ⟨_, .array opens again closes, leaves_bracketed leaves inside⟩
  | object opens entries closes =>
      obtain ⟨inner, again, inside⟩ := entries.parenthesized
        (fun toks entry here inside => here.parenthesized nested inside) (leaves_inside leaves)
      rw [← entriesParenthesized_eq] at again
      exact ⟨_, .object opens again closes, leaves_bracketed leaves inside⟩
  | member here isPoint isName ih =>
      obtain ⟨inner, again, inside⟩ := ih fun t member => leaves t (by simp [member])
      rw [Expr.parenthesized, tight here (by decide : postfixLevel ≤ 10)]
      exact ⟨_, .member again isPoint isName,
        leaves_append inside fun t member => leaves t (List.mem_append_right _ member)⟩
  | index here opens body closes ih =>
      obtain ⟨first, again, firstLeaves⟩ := ih fun t member => leaves t (by simp [member])
      have brackets := fun t member => leaves t (List.mem_append_right _ member)
      obtain ⟨second, index, secondLeaves⟩ := nested.parenthesized body (leaves_inside brackets)
      rw [Expr.parenthesized, tight here (by decide : postfixLevel ≤ 10)]
      exact ⟨_, .index again opens index closes,
        leaves_append firstLeaves (leaves_bracketed brackets secondLeaves)⟩
  | call here opens items closes ih =>
      obtain ⟨first, again, firstLeaves⟩ := ih fun t member => leaves t (by simp [member])
      have brackets := fun t member => leaves t (List.mem_append_right _ member)
      obtain ⟨second, arguments, secondLeaves⟩ := list items (leaves_inside brackets)
      rw [Expr.parenthesized, tight here (by decide : postfixLevel ≤ 10)]
      exact ⟨_, .call again opens arguments closes,
        leaves_append firstLeaves (leaves_bracketed brackets secondLeaves)⟩
  | unary isSign here ih =>
      obtain ⟨inner, again, inside⟩ := ih fun t member => leaves t (by simp [member])
      rw [Expr.parenthesized, tight here (by decide : unaryLevel ≤ 9)]
      exact ⟨_, .unary isSign again,
        List.forall_mem_cons.2 ⟨leaves _ List.mem_cons_self, inside⟩⟩
  | @binary level left right op x y first isOp second ihFirst ihSecond =>
      obtain ⟨a, again, firstLeaves⟩ := ihFirst fun t member => leaves t (by simp [member])
      obtain ⟨b, others, secondLeaves⟩ := ihSecond fun t member => leaves t (by simp [member])
      have opSpelled : Spelled op := leaves op (by simp)
      rw [parenthesized_buildAt isOp first.le_level second.le_level]
      exact ⟨_, .binary again isOp others,
        leaves_append firstLeaves (List.forall_mem_cons.2 ⟨opSpelled, secondLeaves⟩)⟩
  | @conditional a b c question colon x y z test asks yes splits no ih =>
      obtain ⟨a', again, firstLeaves⟩ := ih fun t member => leaves t (by simp [member])
      obtain ⟨b', second, secondLeaves⟩ :=
        nested 2 _ _ yes fun t member => leaves t (by simp [member])
      obtain ⟨c', third, thirdLeaves⟩ :=
        nested 2 _ _ no fun t member => leaves t (by simp [member])
      have questionSpelled : Spelled question := leaves question (by simp)
      have colonSpelled : Spelled colon := leaves colon (by simp)
      rw [Expr.parenthesized, tight test (by decide)]
      exact ⟨_, .conditional again asks second splits third,
        leaves_append firstLeaves (List.forall_mem_cons.2 ⟨questionSpelled,
          leaves_append secondLeaves (List.forall_mem_cons.2 ⟨colonSpelled, thirdLeaves⟩)⟩)⟩
  | @assignment a b op x y target assigns value ih =>
      obtain ⟨a', again, firstLeaves⟩ := ih fun t member => leaves t (by simp [member])
      obtain ⟨b', second, secondLeaves⟩ :=
        nested 1 _ _ value fun t member => leaves t (by simp [member])
      have opSpelled : Spelled op := leaves op (by simp)
      rw [Expr.parenthesized, tight target (by decide)]
      exact ⟨_, .assignment again assigns second,
        leaves_append firstLeaves (List.forall_mem_cons.2 ⟨opSpelled, secondLeaves⟩)⟩
  | tighter here ih =>
      obtain ⟨toks', again, inside⟩ := ih leaves
      exact ⟨toks', .tighter again, inside⟩

end

/-- What can be spelled at a level can be spelled at every looser one. -/
theorem Spellable.looser {spells : List Tok → Expr → Prop} {level looser : Nat} {e : Expr}
    (part : Spellable (Derives spells level) e) (le : looser ≤ level) :
    Spellable (Derives spells looser) e := by
  obtain ⟨toks, derived, leaves⟩ := part
  exact ⟨toks, derived.looser le, leaves⟩

/-- The tokens of a part between two brackets. -/
theorem leaves_between {bra ket : Char} {toks : List Tok} (leaves : ∀ t ∈ toks, Spelled t) :
    ∀ t ∈ bareToken .punctuator [bra] :: (toks ++ [bareToken .punctuator [ket]]), Spelled t := by
  intro t member
  simp only [List.mem_cons, List.mem_append, List.not_mem_nil, or_false] at member
  rcases member with rfl | member | rfl
  · trivial
  · exact leaves t member
  · trivial

/-- Parentheses around an expression. -/
theorem spellable_enclosed {spells : List Tok → Expr → Prop} {e : Expr}
    (body : Spellable spells e) : Spellable (Derives spells 11) (.grouping e) := by
  obtain ⟨toks, spelled, leaves⟩ := body
  have derived : Derives spells 11
      (bareToken .punctuator ['('] :: (toks ++ [bareToken .punctuator [')']])) (.grouping e) :=
    .grouping rfl spelled rfl
  exact ⟨_, derived, leaves_between leaves⟩

/-- Parentheses around a complete expression. -/
theorem spellable_grouping {n : Nat} {e : Expr} (body : Spellable (Spells n) e) :
    Spellable (Spells (n + 1)) (.grouping e) :=
  (spellable_enclosed body).looser (by decide)

/-- An expression that is spelled can be spelled with its parentheses, which nest
it at most twice as deep. -/
theorem spellable_parenthesized {n : Nat} {toks : List Tok} {e : Expr} (spelled : Spells n toks e)
    (leaves : ∀ t ∈ toks, Spelled t) : Spellable (Spells (2 * n)) e.parenthesized := by
  induction n generalizing toks e with
  | zero => exact spelled.elim
  | succ n ih =>
      have nested : Regroups (Spells n) (Spells (2 * n + 1)) := by
        intro required toks e here leaves
        have again := ih here leaves
        by_cases loose : e.parenthesized.level < required
        · rw [Expr.grouped, if_pos loose]
          exact spellable_grouping again
        · obtain ⟨toks', body, inside⟩ := again
          rw [Expr.grouped, if_neg loose]
          exact ⟨toks', body.within (Nat.lt_succ_of_lt body.nesting_lt), inside⟩
      exact Derives.parenthesized nested spelled leaves

/-! ## Reading back -/

/-- No number written with digits alone has a member, at this node. -/
def Expr.keepsPoint : Expr → Bool
  | .member value _ => !value.isPlainNumber
  | _ => true

theorem isPlainNumber_grouped {required : Nat} (place : required ≤ atomLevel) (e : Expr) :
    (e.parenthesized.grouped required).isPlainNumber = e.isPlainNumber := by
  unfold Expr.grouped
  split
  · rename_i loose
    cases e with
    | literal kind raw => exact absurd loose (Nat.not_lt_of_le place)
    | _ => rfl
  · cases e <;> rfl

theorem every_grouped (required : Nat) {e : Expr} (passes : e.every Expr.printsBack = true) :
    (e.grouped required).every Expr.printsBack = true := by
  unfold Expr.grouped
  split
  · rw [Expr.every, passes]
    rfl
  · exact passes

theorem isAssignment_grouped (e : Expr) : (e.grouped 2).isAssignment = false := by
  unfold Expr.grouped
  split
  · rfl
  · rename_i tight
    cases e with
    | assignment target op value => exact absurd (by decide : 1 < 2) tight
    | _ => rfl

mutual

theorem every_parenthesized : ∀ e : Expr, e.every Expr.keepsPoint = true →
    e.parenthesized.every Expr.printsBack = true
  | .identifier name, _ => rfl
  | .literal kind raw, _ => rfl
  | .unary op operand, keeps => by
      simp only [Expr.every, Bool.and_eq_true] at keeps
      simp only [Expr.parenthesized, Expr.every, Bool.and_eq_true]
      exact ⟨rfl, every_grouped _ (every_parenthesized operand keeps.2)⟩
  | .binary left op right, keeps => by
      simp only [Expr.every, Bool.and_eq_true] at keeps
      simp only [Expr.parenthesized, Expr.every, Bool.and_eq_true]
      exact ⟨⟨rfl, every_grouped _ (every_parenthesized left keeps.1.2)⟩,
        every_grouped _ (every_parenthesized right keeps.2)⟩
  | .logical left op right, keeps => by
      simp only [Expr.every, Bool.and_eq_true] at keeps
      simp only [Expr.parenthesized, Expr.every, Bool.and_eq_true]
      exact ⟨⟨rfl, every_grouped _ (every_parenthesized left keeps.1.2)⟩,
        every_grouped _ (every_parenthesized right keeps.2)⟩
  | .conditional test consequent alternate, keeps => by
      simp only [Expr.every, Bool.and_eq_true] at keeps
      simp only [Expr.parenthesized, Expr.every, Bool.and_eq_true, Expr.printsBack,
        isAssignment_grouped]
      exact ⟨⟨⟨⟨rfl, rfl⟩, every_grouped _ (every_parenthesized test keeps.1.1.2)⟩,
        every_grouped _ (every_parenthesized consequent keeps.1.2)⟩,
        every_grouped _ (every_parenthesized alternate keeps.2)⟩
  | .assignment target op value, keeps => by
      simp only [Expr.every, Bool.and_eq_true] at keeps
      simp only [Expr.parenthesized, Expr.every, Bool.and_eq_true]
      exact ⟨⟨rfl, every_grouped _ (every_parenthesized target keeps.1.2)⟩,
        every_grouped _ (every_parenthesized value keeps.2)⟩
  | .member object name, keeps => by
      simp only [Expr.every, Bool.and_eq_true, Expr.keepsPoint] at keeps
      simp only [Expr.parenthesized, Expr.every, Bool.and_eq_true, Expr.printsBack,
        isPlainNumber_grouped (by decide : postfixLevel ≤ atomLevel)]
      exact ⟨keeps.1, every_grouped _ (every_parenthesized object keeps.2)⟩
  | .computedMember object index, keeps => by
      simp only [Expr.every, Bool.and_eq_true] at keeps
      simp only [Expr.parenthesized, Expr.every, Bool.and_eq_true]
      exact ⟨⟨rfl, every_grouped _ (every_parenthesized object keeps.1.2)⟩,
        every_parenthesized index keeps.2⟩
  | .call callee arguments, keeps => by
      simp only [Expr.every, Bool.and_eq_true] at keeps
      simp only [Expr.parenthesized, Expr.every, Bool.and_eq_true]
      exact ⟨⟨rfl, every_grouped _ (every_parenthesized callee keeps.1.2)⟩,
        everyOf_parenthesized arguments keeps.2⟩
  | .array items, keeps => by
      simp only [Expr.every, Bool.and_eq_true] at keeps
      simp only [Expr.parenthesized, Expr.every, Bool.and_eq_true]
      exact ⟨rfl, everyOf_parenthesized items keeps.2⟩
  | .object entries, keeps => by
      simp only [Expr.every, Bool.and_eq_true] at keeps
      simp only [Expr.parenthesized, Expr.every, Bool.and_eq_true]
      exact ⟨rfl, everyOfEntries_parenthesized entries keeps.2⟩
  | .grouping body, keeps => by
      simp only [Expr.every, Bool.and_eq_true] at keeps
      simp only [Expr.parenthesized, Expr.every, Bool.and_eq_true]
      exact ⟨rfl, every_parenthesized body keeps.2⟩

theorem everyOf_parenthesized : ∀ es : List Expr, everyOf Expr.keepsPoint es = true →
    everyOf Expr.printsBack (allParenthesized es) = true
  | [], _ => rfl
  | e :: rest, keeps => by
      simp only [everyOf, Bool.and_eq_true] at keeps
      simp only [allParenthesized, everyOf, Bool.and_eq_true]
      exact ⟨every_parenthesized e keeps.1, everyOf_parenthesized rest keeps.2⟩

theorem everyOfEntries_parenthesized : ∀ es : List Entry,
    everyOfEntries Expr.keepsPoint es = true →
    everyOfEntries Expr.printsBack (entriesParenthesized es) = true
  | [], _ => rfl
  | .shorthand key :: rest, keeps => by
      simp only [everyOfEntries, Entry.every, Bool.and_eq_true] at keeps
      simp only [entriesParenthesized, everyOfEntries, Entry.parenthesized, Entry.every,
        Bool.and_eq_true]
      exact ⟨everyKey_parenthesized key keeps.1, everyOfEntries_parenthesized rest keeps.2⟩
  | .pair key value :: rest, keeps => by
      simp only [everyOfEntries, Entry.every, Bool.and_eq_true] at keeps
      simp only [entriesParenthesized, everyOfEntries, Entry.parenthesized, Entry.every,
        Bool.and_eq_true]
      exact ⟨⟨everyKey_parenthesized key keeps.1.1, every_parenthesized value keeps.1.2⟩,
        everyOfEntries_parenthesized rest keeps.2⟩

theorem everyKey_parenthesized : ∀ key : Key, key.every Expr.keepsPoint = true →
    key.parenthesized.every Expr.printsBack = true
  | .name _, _ => rfl
  | .literal _ _, _ => rfl
  | .computed body, keeps => every_parenthesized body keeps

end

/-- The printed expression can be read back: no number runs on into a point, and
with its parentheses the expression stays below the two limits. -/
def Expr.survives (e : Expr) : Bool :=
  e.every Expr.keepsPoint && decide (e.parenthesized.nesting < expressionLimit)
    && decide (e.parenthesized.height ≤ heightLimit)

/-- What is read back from a printed expression between the marks of an
interpolation is the parenthesized expression. -/
theorem lexes_parenthesized {e : Expr} (spellable : Spellable (Spells expressionLimit) e)
    (survives : e.survives = true) {ms : Modes} {w : Text} (outside : ms.current ≠ .interpolation)
    {left right : Text} (leftBlank : Blanks left)
    (rightBlank : Blanks right) :
    Lexes ms (['{', '{'] ++ (left ++ e.print) ++ ((' ' :: right) ++ ['}', '}'])) w ms
      fun toks => ∀ rest, InterpolationRun (toks ++ rest) e.parenthesized rest := by
  simp only [Expr.survives, Bool.and_eq_true, decide_eq_true_eq] at survives
  obtain ⟨⟨keeps, shallow⟩, high⟩ := survives
  obtain ⟨toks, spelled, leaves⟩ := spellable
  obtain ⟨again, spelled', leaves'⟩ := spellable_parenthesized spelled leaves
  rw [← print_parenthesized]
  exact lexes_padded (fun _ => id) (spelled'.within shallow) leaves' (every_parenthesized e keeps)
    high outside leftBlank rightBlank

theorem lexes_interpolated {e : Expr} (spellable : Spellable (Spells expressionLimit) e)
    (survives : e.survives = true) {ms : Modes} {w : Text} (outside : ms.current ≠ .interpolation) :
    Lexes ms (interpolated e) w ms
      fun toks => ∀ rest, InterpolationRun (toks ++ rest) e.parenthesized rest := by
  have padded : Lexes ms (['{', '{'] ++ ([' '] ++ e.print) ++ ([' '] ++ ['}', '}'])) w ms
      fun toks => ∀ rest, InterpolationRun (toks ++ rest) e.parenthesized rest :=
    lexes_parenthesized spellable survives outside (by decide) (by decide)
  have same : ['{', '{'] ++ ([' '] ++ e.print) ++ ([' '] ++ ['}', '}']) = interpolated e := by
    simp [interpolated]
  rwa [same] at padded

/-- The text between the marks of a printed interpolation is a fragment of the
parenthesized expression. -/
theorem fragment?_spaced {e : Expr} (spellable : Spellable (Spells expressionLimit) e)
    (survives : e.survives = true) : fragment? ([' '] ++ e.print ++ [' ']) = some e.parenthesized := by
  have padded : Lexes [] (['{', '{'] ++ ([' ', ' '] ++ e.print) ++ ([' ', ' '] ++ ['}', '}'])) [] []
      fun toks => ∀ rest, InterpolationRun (toks ++ rest) e.parenthesized rest :=
    lexes_parenthesized spellable survives (by decide) (by decide) (by decide)
  have same : ['{', '{'] ++ ([' ', ' '] ++ e.print) ++ ([' ', ' '] ++ ['}', '}']) =
      ['{', '{', ' '] ++ ([' '] ++ e.print ++ [' ']) ++ [' ', '}', '}'] := by simp
  rw [same] at padded
  rw [fragment?, parseFragment_of_lexes padded]

end UiFormat.Markup

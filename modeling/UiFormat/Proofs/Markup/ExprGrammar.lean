/-
# UiFormat.Proofs.Markup.ExprGrammar -- the grammar of expressions

`Derives nested level toks e` says that the tokens `toks` spell the expression
`e`, whose outermost operator binds at `level` or tighter; `nested` spells the
complete expressions inside it.  The levels are those of the printer: assignment
(1), conditional (2), the six groups of binary operators (3 to 8), unary
operators (9), postfix forms (10) and atoms (11).  `Spells n` ties the knot: at
most `n` complete expressions stand inside each other, the outermost included.

The target of an assignment is a disjunction and not a conditional, because the
last branch of a conditional takes an assignment with it.

An expression reaches as far as it can: `Stops level` says of the token that
comes next that no expression at `level` goes on with it.
-/
import UiFormat.Markup.ExprParser
import UiFormat.Markup.ExprPrinter
import UiFormat.Proofs.Parse.Reading
import Mathlib.Tactic.ByContra

namespace UiFormat.Markup

open UiFormat.Text
open UiFormat.Parse

set_option autoImplicit false

/-! ## Derivations -/

/-- Items with commas between them and perhaps one after the last. -/
inductive Items {α : Type} (item : List Tok → α → Prop) : List Tok → List α → Prop
  | nil : Items item [] []
  | last {toks : List Tok} {x : α} (here : item toks x) : Items item toks [x]
  | more {toks later : List Tok} {comma : Tok} {x : α} {xs : List α} (here : item toks x)
      (isComma : isPunctuator ',' comma = true) (rest : Items item later xs) :
      Items item (toks ++ comma :: later) (x :: xs)

/-- The keys of object entries that are one token. -/
def keyLiteral? : Kind → Option LiteralKind
  | .string => some .string
  | .number => some .number
  | .boolean => some .boolean
  | _ => none

/-- The tokens of a key. -/
inductive KeySpells (nested : List Tok → Expr → Prop) : List Tok → Key → Prop
  | name {t : Tok} (isName : isNameToken t = true) : KeySpells nested [t] (.name t.text)
  | literal {t : Tok} {kind : LiteralKind} (isLiteral : keyLiteral? t.kind = some kind) :
      KeySpells nested [t] (.literal kind t.text)
  | computed {opening closing : Tok} {toks : List Tok} {e : Expr}
      (opens : isPunctuator '[' opening = true) (body : nested toks e)
      (closes : isPunctuator ']' closing = true) :
      KeySpells nested (opening :: (toks ++ [closing])) (.computed e)

/-- The tokens of an object entry. -/
inductive EntrySpells (nested : List Tok → Expr → Prop) : List Tok → Entry → Prop
  | shorthand {toks : List Tok} {key : Key} (here : KeySpells nested toks key) :
      EntrySpells nested toks (.shorthand key)
  | pair {toks later : List Tok} {colon : Tok} {key : Key} {value : Expr}
      (here : KeySpells nested toks key) (isColon : isOperator ":" colon = true)
      (rest : nested later value) : EntrySpells nested (toks ++ colon :: later) (.pair key value)

/-- The unary operators. -/
def unaryOperators : List String := ["+", "-", "!", "~"]

/-- The assignment operators. -/
def assignmentOperators : List String := ["=", "+=", "-=", "*=", "/=", "%="]

/-- The binary operators of a level. -/
def operatorsAt : (level : Nat) → List String
  | 3 => ["||"]
  | 4 => ["&&"]
  | 5 => ["==", "!=", "===", "!=="]
  | 6 => ["<", ">", "<=", ">="]
  | 7 => ["+", "-"]
  | 8 => ["*", "/", "%"]
  | _ => []

/-- The node a binary operator of a level builds. -/
def buildAt (level : Nat) : Expr → Text → Expr → Expr :=
  if level ≤ 4 then .logical else .binary

/-- The tokens of an expression that binds at `level` or tighter. -/
inductive Derives (nested : List Tok → Expr → Prop) : Nat → List Tok → Expr → Prop
  | name {t : Tok} (isName : isNameToken t = true) : Derives nested 11 [t] (.identifier t.text)
  | literal {t : Tok} {kind : LiteralKind} (isLiteral : literalKind? t.kind = some kind) :
      Derives nested 11 [t] (.literal kind t.text)
  | grouping {opening closing : Tok} {toks : List Tok} {e : Expr}
      (opens : isPunctuator '(' opening = true) (body : nested toks e)
      (closes : isPunctuator ')' closing = true) :
      Derives nested 11 (opening :: (toks ++ [closing])) (.grouping e)
  | array {opening closing : Tok} {toks : List Tok} {es : List Expr}
      (opens : isPunctuator '[' opening = true) (items : Items nested toks es)
      (closes : isPunctuator ']' closing = true) :
      Derives nested 11 (opening :: (toks ++ [closing])) (.array es)
  | object {opening closing : Tok} {toks : List Tok} {es : List Entry}
      (opens : isPunctuator '{' opening = true) (entries : Items (EntrySpells nested) toks es)
      (closes : isPunctuator '}' closing = true) :
      Derives nested 11 (opening :: (toks ++ [closing])) (.object es)
  | member {toks : List Tok} {point name : Tok} {e : Expr} (here : Derives nested 10 toks e)
      (isPoint : isOperator "." point = true) (isName : isMemberName name = true) :
      Derives nested 10 (toks ++ [point, name]) (.member e name.text)
  | index {toks inner : List Tok} {opening closing : Tok} {e i : Expr}
      (here : Derives nested 10 toks e) (opens : isPunctuator '[' opening = true)
      (body : nested inner i) (closes : isPunctuator ']' closing = true) :
      Derives nested 10 (toks ++ opening :: (inner ++ [closing])) (.computedMember e i)
  | call {toks inner : List Tok} {opening closing : Tok} {e : Expr} {es : List Expr}
      (here : Derives nested 10 toks e) (opens : isPunctuator '(' opening = true)
      (items : Items nested inner es) (closes : isPunctuator ')' closing = true) :
      Derives nested 10 (toks ++ opening :: (inner ++ [closing])) (.call e es)
  | unary {sign : Tok} {toks : List Tok} {e : Expr}
      (isSign : isOperatorOf unaryOperators sign = true) (here : Derives nested 9 toks e) :
      Derives nested 9 (sign :: toks) (.unary sign.text e)
  | binary {level : Nat} {left right : List Tok} {op : Tok} {x y : Expr}
      (first : Derives nested level left x)
      (isOp : isOperatorOf (operatorsAt level) op = true)
      (second : Derives nested (level + 1) right y) :
      Derives nested level (left ++ op :: right) (buildAt level x op.text y)
  | conditional {a b c : List Tok} {question colon : Tok} {x y z : Expr}
      (test : Derives nested 3 a x) (asks : isOperator "?" question = true) (yes : nested b y)
      (splits : isOperator ":" colon = true) (no : nested c z) :
      Derives nested 2 (a ++ question :: (b ++ colon :: c)) (.conditional x y z)
  | assignment {a b : List Tok} {op : Tok} {x y : Expr} (target : Derives nested 3 a x)
      (assigns : isOperatorOf assignmentOperators op = true) (value : nested b y) :
      Derives nested 1 (a ++ op :: b) (.assignment x op.text y)
  | tighter {level : Nat} {toks : List Tok} {e : Expr} (here : Derives nested (level + 1) toks e) :
      Derives nested level toks e

/-- The tokens of a complete expression in which at most `n` complete ones stand
inside each other. -/
def Spells : (n : Nat) → List Tok → Expr → Prop
  | 0 => fun _ _ => False
  | n + 1 => Derives (Spells n) 1

theorem isOperator_iff {op : String} {t : Tok} :
    isOperator op t = true ↔ t.kind = .operator ∧ t.text = op.toList := by
  simp [isOperator]

theorem isOperatorOf_iff {ops : List String} {t : Tok} :
    isOperatorOf ops t = true ↔ t.kind = .operator ∧ ∃ op ∈ ops, op.toList = t.text := by
  simp [isOperatorOf]

theorem isPunctuator_iff {c : Char} {t : Tok} :
    isPunctuator c t = true ↔ t.kind = .punctuator ∧ t.text = [c] := by
  simp [isPunctuator]

/-- The levels that have binary operators. -/
theorem mem_levels_of_operator {level : Nat} {op : String} (member : op ∈ operatorsAt level) :
    level ∈ [3, 4, 5, 6, 7, 8] := by
  match level, member with
  | 3, _ | 4, _ | 5, _ | 6, _ | 7, _ | 8, _ => decide

/-- The printer's table agrees with the grammar's. -/
theorem binaryLevel_of_operator {level : Nat} {t : Tok}
    (isOp : isOperatorOf (operatorsAt level) t = true) : binaryLevel t.text = level := by
  obtain ⟨-, op, member, text⟩ := isOperatorOf_iff.1 isOp
  rw [← text]
  have table : ∀ level ∈ [3, 4, 5, 6, 7, 8], ∀ op ∈ operatorsAt level,
      binaryLevel op.toList = level := by decide
  exact table level (mem_levels_of_operator member) op member

theorem level_buildAt (level : Nat) (x : Expr) (op : Text) (y : Expr) :
    (buildAt level x op y).level = binaryLevel op := by
  unfold buildAt
  split <;> rfl

/-- What is derived at a level binds at that level or tighter. -/
theorem Derives.le_level {nested : List Tok → Expr → Prop} {level : Nat} {toks : List Tok}
    {e : Expr} (derived : Derives nested level toks e) : level ≤ e.level := by
  induction derived with
  | binary first isOp second => rw [level_buildAt, binaryLevel_of_operator isOp]
  | tighter here ih => exact Nat.le_of_succ_le ih
  | _ => exact Nat.le_refl _

/-! ## Where an expression ends -/

/-- The level of expressions that go on with this token; 0 when none does. -/
def continuation (t : Tok) : Nat :=
  if isOperator "." t || isPunctuator '[' t || isPunctuator '(' t then 10
  else if isOperatorOf (operatorsAt 8) t then 8
  else if isOperatorOf (operatorsAt 7) t then 7
  else if isOperatorOf (operatorsAt 6) t then 6
  else if isOperatorOf (operatorsAt 5) t then 5
  else if isOperatorOf (operatorsAt 4) t then 4
  else if isOperatorOf (operatorsAt 3) t then 3
  else if isOperator "?" t then 2
  else if isOperatorOf assignmentOperators t then 1
  else 0

/-- No expression at `level` goes on with the token that comes next. -/
def Stops (closing : Tok) (level : Nat) (rest : List Tok) : Prop :=
  continuation (ahead closing rest) < level

/-- The level depends on the kind and the text of a token alone. -/
theorem continuation_congr {t u : Tok} (kind : t.kind = u.kind) (text : t.text = u.text) :
    continuation t = continuation u := by
  obtain ⟨_, _, _, _, _, _⟩ := t
  obtain ⟨_, _, _, _, _, _⟩ := u
  simp only at kind text
  subst kind text
  rfl

/-- A token without a place. -/
def bareToken (kind : Kind) (text : Text) : Tok :=
  { kind, text, start := 0, stop := 0, line := 0, column := 0 }

theorem continuation_eq {t : Tok} {kind : Kind} {text : Text} (hasKind : t.kind = kind)
    (hasText : t.text = text) : continuation t = continuation (bareToken kind text) :=
  continuation_congr hasKind hasText

theorem continuation_of_operator {level : Nat} {t : Tok}
    (isOp : isOperatorOf (operatorsAt level) t = true) : continuation t = level := by
  obtain ⟨kind, op, member, text⟩ := isOperatorOf_iff.1 isOp
  rw [continuation_eq kind text.symm]
  have table : ∀ level ∈ [3, 4, 5, 6, 7, 8], ∀ op ∈ operatorsAt level,
      continuation (bareToken .operator op.toList) = level := by decide
  exact table level (mem_levels_of_operator member) op member

theorem continuation_of_assignment {t : Tok} (assigns : isOperatorOf assignmentOperators t = true) :
    continuation t = 1 := by
  obtain ⟨kind, op, member, text⟩ := isOperatorOf_iff.1 assigns
  rw [continuation_eq kind text.symm]
  have table : ∀ op ∈ assignmentOperators,
      continuation (bareToken .operator op.toList) = 1 := by decide
  exact table op member

theorem continuation_of_question {t : Tok} (asks : isOperator "?" t = true) :
    continuation t = 2 := by
  obtain ⟨kind, text⟩ := isOperator_iff.1 asks
  rw [continuation_eq kind text]
  decide

theorem continuation_of_colon {t : Tok} (splits : isOperator ":" t = true) :
    continuation t = 0 := by
  obtain ⟨kind, text⟩ := isOperator_iff.1 splits
  rw [continuation_eq kind text]
  decide

/-- A token that is neither operator nor punctuator continues nothing. -/
theorem continuation_of_other {t : Tok} (notOperator : t.kind ≠ .operator)
    (notPunctuator : t.kind ≠ .punctuator) : continuation t = 0 := by
  simp [continuation, isOperator, isOperatorOf, isPunctuator, notOperator, notPunctuator]

theorem continuation_of_punctuator {c : Char} {t : Tok} (isMark : isPunctuator c t = true)
    (notOpening : c ≠ '[' ∧ c ≠ '(') : continuation t = 0 := by
  obtain ⟨kind, text⟩ := isPunctuator_iff.1 isMark
  simp [continuation, isOperator, isOperatorOf, isPunctuator, kind, text, notOpening.1,
    notOpening.2]

/-- What a token that an expression goes on with can be. -/
theorem continuation_cases (t : Tok) :
    (continuation t = 10 ∧
      (isOperator "." t = true ∨ isPunctuator '[' t = true ∨ isPunctuator '(' t = true)) ∨
    (∃ level, 3 ≤ level ∧ level ≤ 8 ∧ continuation t = level ∧
      isOperatorOf (operatorsAt level) t = true) ∨
    (continuation t = 2 ∧ isOperator "?" t = true) ∨
    (continuation t = 1 ∧ isOperatorOf assignmentOperators t = true) ∨ continuation t = 0 := by
  have binary : ∀ {n : Nat} (level : Nat), n = level → isOperatorOf (operatorsAt level) t = true →
      3 ≤ level → level ≤ 8 →
        ∃ level, 3 ≤ level ∧ level ≤ 8 ∧ n = level ∧ isOperatorOf (operatorsAt level) t = true :=
    fun level same isOp low high => ⟨level, low, high, same, isOp⟩
  fun_cases continuation t with
  | case1 opens => exact .inl ⟨rfl, by simpa only [Bool.or_eq_true, or_assoc] using opens⟩
  | case2 _ isOp => exact .inr (.inl (binary 8 rfl isOp (by decide) (by decide)))
  | case3 _ _ isOp => exact .inr (.inl (binary 7 rfl isOp (by decide) (by decide)))
  | case4 _ _ _ isOp => exact .inr (.inl (binary 6 rfl isOp (by decide) (by decide)))
  | case5 _ _ _ _ isOp => exact .inr (.inl (binary 5 rfl isOp (by decide) (by decide)))
  | case6 _ _ _ _ _ isOp => exact .inr (.inl (binary 4 rfl isOp (by decide) (by decide)))
  | case7 _ _ _ _ _ _ isOp => exact .inr (.inl (binary 3 rfl isOp (by decide) (by decide)))
  | case8 _ _ _ _ _ _ _ asks => exact .inr (.inr (.inl ⟨rfl, asks⟩))
  | case9 _ _ _ _ _ _ _ _ assigns => exact .inr (.inr (.inr (.inl ⟨rfl, assigns⟩)))
  | case10 => exact .inr (.inr (.inr (.inr rfl)))

theorem isOperatorOf_of_continuation {level : Nat} {t : Tok} (low : 3 ≤ level) (high : level ≤ 8)
    (goesOn : continuation t = level) : isOperatorOf (operatorsAt level) t = true := by
  obtain ⟨ten, -⟩ | ⟨n, -, -, same, isOp⟩ | ⟨two, -⟩ | ⟨one, -⟩ | zero := continuation_cases t
  · omega
  · rwa [← same, goesOn] at isOp
  · omega
  · omega
  · omega

theorem asks_of_continuation {t : Tok} (goesOn : continuation t = 2) :
    isOperator "?" t = true := by
  obtain ⟨ten, -⟩ | ⟨n, low, -, same, -⟩ | ⟨-, asks⟩ | ⟨one, -⟩ | zero := continuation_cases t
  · omega
  · omega
  · exact asks
  · omega
  · omega

theorem assigns_of_continuation {t : Tok} (goesOn : continuation t = 1) :
    isOperatorOf assignmentOperators t = true := by
  obtain ⟨ten, -⟩ | ⟨n, low, -, same, -⟩ | ⟨two, -⟩ | ⟨-, assigns⟩ | zero := continuation_cases t
  · omega
  · omega
  · omega
  · exact assigns
  · omega

/-- The tokens that open a postfix form. -/
theorem continuation_eq_ten_iff {t : Tok} :
    continuation t = 10 ↔
      isOperator "." t = true ∨ isPunctuator '[' t = true ∨ isPunctuator '(' t = true := by
  constructor
  · intro goesOn
    obtain ⟨-, opens⟩ | ⟨n, -, high, same, -⟩ | ⟨two, -⟩ | ⟨one, -⟩ | zero := continuation_cases t
    · exact opens
    · omega
    · omega
    · omega
    · omega
  · intro opens
    unfold continuation
    rw [if_pos (by simpa only [Bool.or_eq_true, or_assoc] using opens)]

theorem continuation_le (t : Tok) : continuation t ≤ 10 := by
  obtain ⟨ten, -⟩ | ⟨n, -, high, same, -⟩ | ⟨two, -⟩ | ⟨one, -⟩ | zero := continuation_cases t <;> omega

theorem continuation_ne_nine (t : Tok) : continuation t ≠ 9 := by
  obtain ⟨ten, -⟩ | ⟨n, -, high, same, -⟩ | ⟨two, -⟩ | ⟨one, -⟩ | zero := continuation_cases t <;> omega

theorem Stops.mono {closing : Tok} {level higher : Nat} {rest : List Tok}
    (stops : Stops closing level rest) (le : level ≤ higher) : Stops closing higher rest :=
  Nat.lt_of_lt_of_le stops le

theorem stops_atom (closing : Tok) (rest : List Tok) : Stops closing 11 rest :=
  Nat.lt_succ_of_le (continuation_le _)

/-! ## Where an expression begins -/

/-- The token can be the first of an expression. -/
def startsExpression (t : Tok) : Bool :=
  isNameToken t || (literalKind? t.kind).isSome || isPunctuator '(' t || isPunctuator '[' t
    || isPunctuator '{' t || isOperatorOf unaryOperators t

theorem isOperatorOf_eq_false {ops : List String} {t : Tok} (notOperator : t.kind ≠ .operator) :
    isOperatorOf ops t = false := by
  simp [isOperatorOf, notOperator]

theorem kind_of_isNameToken {t : Tok} (isName : isNameToken t = true) :
    t.kind = .identifier ∨ t.kind = .name := by
  simpa [isNameToken] using isName

theorem endsExpression_of_starts {t : Tok} (starts : startsExpression t = true) :
    endsExpression t = false := by
  by_contra ends
  have kind : t.kind = .interpEnd ∨ t.kind = .eof := by
    simpa [endsExpression, or_iff_not_imp_left] using ends
  rcases kind with kind | kind <;>
    simp [startsExpression, isNameToken, isPunctuator, isOperatorOf, kind, literalKind?] at starts

theorem isPunctuator_of_starts {t : Tok} {c : Char} (starts : startsExpression t = true)
    (notOpening : c ≠ '(' ∧ c ≠ '[' ∧ c ≠ '{') : isPunctuator c t = false := by
  by_contra isMark
  obtain ⟨kind, text⟩ := isPunctuator_iff.1 (by simpa using isMark)
  simp [startsExpression, isNameToken, isPunctuator, isOperatorOf, kind, text, literalKind?,
    notOpening] at starts

/-- An expression begins with a token that can begin one, and only one at the
unary level or looser begins with a sign. -/
theorem Derives.starts {nested : List Tok → Expr → Prop} {level : Nat} {toks : List Tok} {e : Expr}
    (derived : Derives nested level toks e) :
    ∃ t more, toks = t :: more ∧ startsExpression t = true ∧
      (10 ≤ level → isOperatorOf unaryOperators t = false) := by
  induction derived with
  | @name t isName =>
      refine ⟨t, [], rfl, by simp [startsExpression, isName], fun _ => ?_⟩
      rcases kind_of_isNameToken isName with kind | kind <;>
        exact isOperatorOf_eq_false (by simp [kind])
  | @literal t kind isLiteral =>
      refine ⟨t, [], rfl, by simp [startsExpression, isLiteral], fun _ => isOperatorOf_eq_false ?_⟩
      intro isOperator
      simp [isOperator, literalKind?] at isLiteral
  | @grouping opening closing toks e opens body closes =>
      refine ⟨opening, _, rfl, by simp [startsExpression, opens], fun _ => ?_⟩
      exact isOperatorOf_eq_false (by simp [(isPunctuator_iff.1 opens).1])
  | @array opening closing toks es opens items closes =>
      refine ⟨opening, _, rfl, by simp [startsExpression, opens], fun _ => ?_⟩
      exact isOperatorOf_eq_false (by simp [(isPunctuator_iff.1 opens).1])
  | @object opening closing toks es opens entries closes =>
      refine ⟨opening, _, rfl, by simp [startsExpression, opens], fun _ => ?_⟩
      exact isOperatorOf_eq_false (by simp [(isPunctuator_iff.1 opens).1])
  | member here isPoint isName ih =>
      obtain ⟨t, more, rfl, starts, unsigned⟩ := ih
      exact ⟨t, _, rfl, starts, unsigned⟩
  | index here opens body closes ih =>
      obtain ⟨t, more, rfl, starts, unsigned⟩ := ih
      exact ⟨t, _, rfl, starts, unsigned⟩
  | call here opens items closes ih =>
      obtain ⟨t, more, rfl, starts, unsigned⟩ := ih
      exact ⟨t, _, rfl, starts, unsigned⟩
  | @unary sign toks e isSign here ih =>
      exact ⟨sign, _, rfl, by simp [startsExpression, isSign], fun high => absurd high (by decide)⟩
  | binary first isOp second ihFirst ihSecond =>
      obtain ⟨t, more, rfl, starts, unsigned⟩ := ihFirst
      exact ⟨t, _, rfl, starts, unsigned⟩
  | conditional test asks yes splits no ih =>
      obtain ⟨t, more, rfl, starts, unsigned⟩ := ih
      exact ⟨t, _, rfl, starts, fun high => absurd high (by decide)⟩
  | assignment target assigns value ih =>
      obtain ⟨t, more, rfl, starts, unsigned⟩ := ih
      exact ⟨t, _, rfl, starts, fun high => absurd high (by decide)⟩
  | tighter here ih =>
      obtain ⟨t, more, rfl, starts, unsigned⟩ := ih
      exact ⟨t, more, rfl, starts, fun high => unsigned (by omega)⟩

theorem Spells.starts {n : Nat} {toks : List Tok} {e : Expr} (spelled : Spells n toks e) :
    ∃ t more, toks = t :: more ∧ startsExpression t = true := by
  cases n with
  | zero => exact absurd spelled id
  | succ n =>
      obtain ⟨t, more, split, starts, -⟩ := Derives.starts spelled
      exact ⟨t, more, split, starts⟩

end UiFormat.Markup

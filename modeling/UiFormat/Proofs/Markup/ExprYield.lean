/-
# UiFormat.Proofs.Markup.ExprYield -- an expression and the tokens it was read from

A tree is read from left to right as signs, tokens without their places (`Expr.signs`).
The signs of a source agree with those of its tree but for two things a tree does not
keep: a comma in front of a closing bracket, and how the tag of an element that never
has content ends.  `canonical` drops such commas and ends such tags with a slash.

That no other sign is lost goes by induction over the derivation of an expression
(`Derives.steady`).  The law of each part is stated in front of every list of signs that
can follow (`Steady`), so that parts compose by append.
-/
import UiFormat.Proofs.Markup.ExprLexing
import UiFormat.Proofs.Markup.ExprParentheses

namespace UiFormat.Markup

open UiFormat.Text
open UiFormat.Parse

set_option autoImplicit false

/-! ## Signs -/

/-- A token without its place. -/
abbrev Sign := Kind × Text

/-- The sign of a token. -/
def sign (t : Tok) : Sign :=
  (t.kind, t.text)

/-- A bracket or comma. -/
def mark (c : Char) : Sign :=
  (.punctuator, [c])

/-- An operator. -/
def operatorSign (op : Text) : Sign :=
  (.operator, op)

/-- A word of an expression. -/
def wordSign (word : Text) : Sign :=
  (wordKind word, word)

/-- The kind of the token of a literal. -/
def LiteralKind.kind : LiteralKind → Kind
  | .number => .number
  | .string => .string
  | .boolean => .boolean
  | .null => .null
  | .undefined => .undefined

/-- Lists of signs with commas between them. -/
def separated : List (List Sign) → List Sign
  | [] => []
  | [item] => item
  | item :: rest => item ++ mark ',' :: separated rest

mutual

/-- The signs of an expression. -/
def Expr.signs : Expr → List Sign
  | .identifier name => [wordSign name]
  | .literal kind raw => [(kind.kind, raw)]
  | .unary op operand => operatorSign op :: operand.signs
  | .binary left op right => left.signs ++ operatorSign op :: right.signs
  | .logical left op right => left.signs ++ operatorSign op :: right.signs
  | .conditional test consequent alternate =>
      test.signs ++ operatorSign ['?'] :: (consequent.signs ++ operatorSign [':'] :: alternate.signs)
  | .assignment target op value => target.signs ++ operatorSign op :: value.signs
  | .member object name => object.signs ++ [operatorSign ['.'], wordSign name]
  | .computedMember object index => object.signs ++ mark '[' :: (index.signs ++ [mark ']'])
  | .call callee arguments =>
      callee.signs ++ mark '(' :: (separated (signsOf arguments) ++ [mark ')'])
  | .array items => mark '[' :: (separated (signsOf items) ++ [mark ']'])
  | .object entries => mark '{' :: (separated (entrySigns entries) ++ [mark '}'])
  | .grouping body => mark '(' :: (body.signs ++ [mark ')'])

/-- The signs of several expressions, one by one. -/
def signsOf : List Expr → List (List Sign)
  | [] => []
  | e :: rest => e.signs :: signsOf rest

/-- The signs of an object entry. -/
def Entry.signs : Entry → List Sign
  | .shorthand key => key.signs
  | .pair key value => key.signs ++ operatorSign [':'] :: value.signs

/-- The signs of several entries, one by one. -/
def entrySigns : List Entry → List (List Sign)
  | [] => []
  | entry :: rest => entry.signs :: entrySigns rest

/-- The signs of a key. -/
def Key.signs : Key → List Sign
  | .name name => [wordSign name]
  | .literal kind raw => [(kind.kind, raw)]
  | .computed body => mark '[' :: (body.signs ++ [mark ']'])

end

/-! ## What a tree does not keep -/

/-- The sign closes a bracket. -/
def isClosing (s : Sign) : Bool :=
  s == mark ')' || s == mark ']' || s == mark '}'

/-- The sign is a comma behind the last item of a list. -/
def isTrailingComma (s : Sign) (rest : List Sign) : Bool :=
  s == mark ',' && rest.head?.any isClosing

/-- The tag that begins here never has content. -/
def beginsVoid (rest : List Sign) : Bool :=
  rest.head?.any fun s => s.1 == .name && isVoid s.2

/-- The signs without trailing commas, the tags of elements that never have content
ended with a slash; `void` tells whether such a tag is open. -/
def canonical (void : Bool) : List Sign → List Sign
  | [] => []
  | s :: rest =>
      if isTrailingComma s rest then canonical void rest
      else
        match s.1 with
        | .tagOpen => s :: canonical (beginsVoid rest) rest
        | .tagEnd =>
            (if void then (.tagSelfClose, ['/', '>']) else s) :: canonical false rest
        | .tagSelfClose => s :: canonical false rest
        | _ => s :: canonical void rest

/-- Whatever follows, the signs read canonically are `out`, and no tag begins or ends
among them. -/
def Steady (ss out : List Sign) : Prop :=
  ∀ void rest, canonical void (ss ++ rest) = out ++ canonical void rest

theorem Steady.nil : Steady [] [] :=
  fun _ _ => rfl

theorem Steady.append {a b x y : List Sign} (first : Steady a x) (second : Steady b y) :
    Steady (a ++ b) (x ++ y) := by
  intro void rest
  rw [List.append_assoc, first, second, List.append_assoc]

/-- The sign is no comma and belongs inside a tag or an interpolation. -/
def IsPlainSign (s : Sign) : Prop :=
  s ≠ mark ',' ∧ s.1 ≠ .tagOpen ∧ s.1 ≠ .tagEnd ∧ s.1 ≠ .tagSelfClose

instance (s : Sign) : Decidable (IsPlainSign s) :=
  inferInstanceAs (Decidable (_ ∧ _))

theorem Steady.cons {s : Sign} {ss out : List Sign} (plain : IsPlainSign s) (later : Steady ss out) :
    Steady (s :: ss) (s :: out) := by
  intro void rest
  obtain ⟨noComma, noOpen, noEnd, noSlash⟩ := plain
  have kept : isTrailingComma s (ss ++ rest) = false := by
    simp [isTrailingComma, noComma]
  rw [List.cons_append, canonical, kept, if_neg Bool.false_ne_true]
  split
  · exact absurd ‹_› noOpen
  · exact absurd ‹_› noEnd
  · exact absurd ‹_› noSlash
  · rw [later, List.cons_append]

theorem Steady.single {s : Sign} (plain : IsPlainSign s) : Steady [s] [s] :=
  .cons plain .nil

theorem Steady.all {ss : List Sign} (plain : ∀ s ∈ ss, IsPlainSign s) : Steady ss ss := by
  induction ss with
  | nil => exact .nil
  | cons s ss ih =>
      rw [List.forall_mem_cons] at plain
      exact .cons plain.1 (ih plain.2)

/-- A comma stays in front of what closes no bracket. -/
theorem Steady.comma {s : Sign} {ss out : List Sign} (opens : isClosing s = false)
    (later : Steady (s :: ss) out) : Steady (mark ',' :: s :: ss) (mark ',' :: out) := by
  intro void rest
  have kept : isTrailingComma (mark ',') (s :: ss ++ rest) = false := by
    simp [isTrailingComma, opens]
  rw [List.cons_append, canonical, kept, if_neg Bool.false_ne_true]
  exact congrArg (mark ',' :: ·) (later void rest)

/-- A comma goes in front of what closes a bracket. -/
theorem Steady.trailing {s : Sign} (closes : isClosing s = true) (plain : IsPlainSign s) :
    Steady [mark ',', s] [s] := by
  intro void rest
  have dropped : isTrailingComma (mark ',') (s :: rest) = true := by
    simp [isTrailingComma, closes]
  rw [List.cons_append, List.singleton_append, canonical, dropped, if_pos rfl]
  exact Steady.single plain void rest

theorem isPlainSign_of_kind {s : Sign} (notPunctuator : s.1 ≠ .punctuator)
    (stays : s.1.shift = .stay) : IsPlainSign s := by
  refine ⟨?_, ?_, ?_, ?_⟩
  · rintro rfl
    exact notPunctuator rfl
  all_goals
    intro kind
    rw [kind] at stays
    cases stays

theorem isPlainSign_mark {c : Char} (notComma : c ≠ ',') : IsPlainSign (mark c) :=
  ⟨by simp [mark, notComma], by simp [mark], by simp [mark], by simp [mark]⟩

theorem isPlainSign_operator (op : Text) : IsPlainSign (operatorSign op) :=
  isPlainSign_of_kind (by simp [operatorSign]) rfl

theorem isPlainSign_word (word : Text) : IsPlainSign (wordSign word) := by
  refine isPlainSign_of_kind ?_ (shift_wordKind word)
  unfold wordSign wordKind
  repeat' split
  all_goals simp

theorem isPlainSign_literal (kind : LiteralKind) (raw : Text) : IsPlainSign (kind.kind, raw) := by
  cases kind <;> exact isPlainSign_of_kind (by simp [LiteralKind.kind]) rfl

/-! ## Tokens of expressions -/

theorem sign_of_isPunctuator {c : Char} {t : Tok} (isMark : isPunctuator c t = true) :
    sign t = mark c := by
  obtain ⟨kind, text⟩ := isPunctuator_iff.1 isMark
  rw [sign, kind, text]
  rfl

theorem sign_of_isOperator {op : String} {t : Tok} (isOp : isOperator op t = true) :
    sign t = operatorSign op.toList := by
  obtain ⟨kind, text⟩ := isOperator_iff.1 isOp
  rw [sign, kind, text]
  rfl

theorem sign_of_isOperatorOf {ops : List String} {t : Tok} (isOp : isOperatorOf ops t = true) :
    sign t = operatorSign t.text := by
  rw [sign, (isOperatorOf_iff.1 isOp).1]
  rfl

theorem sign_of_memberName {t : Tok} (isName : isMemberName t = true) (spelled : Spelled t) :
    sign t = wordSign t.text := by
  have kind : wordKind t.text = t.kind := by
    unfold Spelled at spelled
    unfold isMemberName isNameToken at isName
    cases kind : t.kind <;> simp [kind] at isName spelled <;> exact spelled.2
  rw [sign, wordSign, kind]

theorem sign_of_name {t : Tok} (isName : isNameToken t = true) (spelled : Spelled t) :
    sign t = wordSign t.text :=
  sign_of_memberName (by simp [isMemberName, isName]) spelled

theorem sign_of_literal {t : Tok} {kind : LiteralKind} (isLiteral : literalKind? t.kind = some kind) :
    sign t = (kind.kind, t.text) := by
  cases same : t.kind <;> simp [same, literalKind?] at isLiteral <;> subst isLiteral <;>
    simp [sign, same, LiteralKind.kind]

theorem sign_of_keyLiteral {t : Tok} {kind : LiteralKind}
    (isLiteral : keyLiteral? t.kind = some kind) : sign t = (kind.kind, t.text) := by
  cases same : t.kind <;> simp [same, keyLiteral?] at isLiteral <;> subst isLiteral <;>
    simp [sign, same, LiteralKind.kind]

theorem isClosing_of_kind {s : Sign} (other : s.1 ≠ .punctuator) : isClosing s = false := by
  obtain ⟨kind, text⟩ := s
  simp only [ne_eq] at other
  simp [isClosing, mark, other]

theorem isClosing_of_starts {t : Tok} (starts : startsExpression t = true) :
    isClosing (sign t) = false := by
  by_cases kind : t.kind = .punctuator
  · have texts : (t.text = ['('] ∨ t.text = ['[']) ∨ t.text = ['{'] := by
      simpa [startsExpression, isNameToken, isPunctuator, isOperatorOf, kind, literalKind?] using starts
    rcases texts with (text | text) | text <;> rw [sign, kind, text] <;> decide
  · exact isClosing_of_kind kind

/-! ## Expressions -/

/-- Every item reads as its signs, and begins with a sign that closes no bracket. -/
structure Yields {α : Type} (item : List Tok → α → Prop) (signs : α → List Sign) : Prop where
  steady {toks : List Tok} {x : α} (here : item toks x) (leaves : ∀ t ∈ toks, Spelled t) :
    Steady (toks.map sign) (signs x)
  opens {toks : List Tok} {x : α} (here : item toks x) :
    ∃ t more, toks = t :: more ∧ isClosing (sign t) = false

theorem steady_bracketed {bra ket : Char} {opening closing : Tok} {toks : List Tok}
    {out : List Sign} (opens : isPunctuator bra opening = true)
    (inner : Steady (toks.map sign ++ [mark ket]) (out ++ [mark ket]))
    (closes : isPunctuator ket closing = true) (notComma : bra ≠ ',') :
    Steady ((opening :: (toks ++ [closing])).map sign) (mark bra :: (out ++ [mark ket])) := by
  rw [List.map_cons, List.map_append, List.map_singleton, sign_of_isPunctuator opens,
    sign_of_isPunctuator closes]
  exact .cons (isPlainSign_mark notComma) inner

/-- A list in front of the bracket that closes it: a comma behind its last item goes. -/
theorem Items.steady {α : Type} {item : List Tok → α → Prop} {signs : α → List Sign}
    (yields : Yields item signs) {toks : List Tok} {xs : List α} (items : Items item toks xs)
    (leaves : ∀ t ∈ toks, Spelled t) {ket : Char} (closes : isClosing (mark ket) = true)
    (notComma : ket ≠ ',') :
    Steady (toks.map sign ++ [mark ket]) (separated (xs.map signs) ++ [mark ket]) := by
  have last : Steady [mark ket] [mark ket] := .single (isPlainSign_mark notComma)
  induction items with
  | nil => exact last
  | last here => exact (yields.steady here leaves).append last
  | @more toks later comma x xs here isComma rest ih =>
      rw [List.forall_mem_append, List.forall_mem_cons] at leaves
      obtain ⟨firstLeaves, -, laterLeaves⟩ := leaves
      have first := yields.steady here firstLeaves
      have others := ih laterLeaves
      rw [List.map_append, List.map_cons, sign_of_isPunctuator isComma, List.append_assoc,
        List.cons_append]
      have follows : (later = [] ∧ xs = []) ∨
          (∃ t more y ys, later = t :: more ∧ xs = y :: ys ∧ isClosing (sign t) = false) := by
        cases rest with
        | nil => exact .inl ⟨rfl, rfl⟩
        | @last _ y next =>
            obtain ⟨t, more, rfl, opens⟩ := yields.opens next
            exact .inr ⟨t, more, y, [], rfl, rfl, opens⟩
        | @more _ _ _ y ys next _ _ =>
            obtain ⟨t, more, rfl, opens⟩ := yields.opens next
            exact .inr ⟨t, _, y, ys, rfl, rfl, opens⟩
      rcases follows with ⟨rfl, rfl⟩ | ⟨t, more, y, ys, rfl, rfl, opens⟩
      · exact first.append (.trailing closes (isPlainSign_mark notComma))
      · have joined : separated ((x :: y :: ys).map signs) =
            signs x ++ mark ',' :: separated ((y :: ys).map signs) := rfl
        rw [joined, List.append_assoc, List.cons_append]
        exact first.append (.comma opens others)

theorem signsOf_eq (es : List Expr) : signsOf es = es.map Expr.signs := by
  induction es with
  | nil => rfl
  | cons e es ih => rw [signsOf, ih, List.map_cons]

theorem entrySigns_eq (es : List Entry) : entrySigns es = es.map Entry.signs := by
  induction es with
  | nil => rfl
  | cons e es ih => rw [entrySigns, ih, List.map_cons]

section

variable {spells : List Tok → Expr → Prop} (nested : Yields spells Expr.signs)

include nested

/-- An expression between brackets. -/
theorem Yields.bracketed {bra ket : Char} {opening closing : Tok} {toks : List Tok} {e : Expr}
    (opens : isPunctuator bra opening = true) (body : spells toks e)
    (closes : isPunctuator ket closing = true) (notCommas : bra ≠ ',' ∧ ket ≠ ',')
    (leaves : ∀ t ∈ opening :: (toks ++ [closing]), Spelled t) :
    Steady ((opening :: (toks ++ [closing])).map sign) (mark bra :: (e.signs ++ [mark ket])) := by
  have inside := nested.steady body (leaves_inside leaves)
  exact steady_bracketed opens (inside.append (.single (isPlainSign_mark notCommas.2))) closes
    notCommas.1

theorem Yields.keys : Yields (KeySpells spells) Key.signs where
  steady := by
    intro toks key here leaves
    cases here with
    | @name t isName =>
        rw [List.map_singleton, sign_of_name isName (leaves t List.mem_cons_self)]
        exact .single (isPlainSign_word t.text)
    | literal isLiteral =>
        rw [List.map_singleton, sign_of_keyLiteral isLiteral]
        exact .single (isPlainSign_literal _ _)
    | computed opens body closes =>
        exact nested.bracketed opens body closes (by decide) leaves
  opens := by
    intro toks key here
    cases here with
    | @name t isName =>
        exact ⟨t, [], rfl, isClosing_of_starts (by simp [startsExpression, isName])⟩
    | @literal t kind isLiteral =>
        refine ⟨t, [], rfl, isClosing_of_kind fun other => ?_⟩
        have other : t.kind = .punctuator := other
        rw [other] at isLiteral
        cases isLiteral
    | @computed opening closing toks e opens body closes =>
        refine ⟨opening, _, rfl, ?_⟩
        rw [sign_of_isPunctuator opens]
        decide

theorem Yields.entries : Yields (EntrySpells spells) Entry.signs where
  steady := by
    intro toks entry here leaves
    cases here with
    | shorthand here => exact nested.keys.steady here leaves
    | pair here isColon rest =>
        rw [List.forall_mem_append, List.forall_mem_cons] at leaves
        rw [List.map_append, List.map_cons, sign_of_isOperator isColon]
        exact (nested.keys.steady here leaves.1).append
          (.cons (isPlainSign_operator _) (nested.steady rest leaves.2.2))
  opens := by
    intro toks entry here
    cases here with
    | shorthand here => exact nested.keys.opens here
    | pair here isColon rest =>
        obtain ⟨t, more, rfl, opens⟩ := nested.keys.opens here
        exact ⟨t, _, rfl, opens⟩

theorem Derives.steady {level : Nat} {toks : List Tok} {e : Expr}
    (derived : Derives spells level toks e) (leaves : ∀ t ∈ toks, Spelled t) :
    Steady (toks.map sign) e.signs := by
  induction derived with
  | @name t isName =>
      rw [List.map_singleton, sign_of_name isName (leaves t List.mem_cons_self)]
      exact .single (isPlainSign_word t.text)
  | literal isLiteral =>
      rw [List.map_singleton, sign_of_literal isLiteral]
      exact .single (isPlainSign_literal _ _)
  | grouping opens body closes => exact nested.bracketed opens body closes (by decide) leaves
  | array opens items closes =>
      have inside := items.steady nested (leaves_inside leaves) (by decide : isClosing (mark ']') = true)
        (by decide)
      rw [Expr.signs, signsOf_eq]
      exact steady_bracketed opens inside closes (by decide)
  | object opens entries closes =>
      have inside := entries.steady nested.entries (leaves_inside leaves)
        (by decide : isClosing (mark '}') = true) (by decide)
      rw [Expr.signs, entrySigns_eq]
      exact steady_bracketed opens inside closes (by decide)
  | @member toks point name e here isPoint isName ih =>
      rw [List.forall_mem_append] at leaves
      have named := sign_of_memberName isName (leaves.2 name (by simp))
      rw [List.map_append, List.map_cons, List.map_singleton, sign_of_isOperator isPoint, named]
      exact (ih leaves.1).append
        (.cons (isPlainSign_operator _) (.single (isPlainSign_word name.text)))
  | index here opens body closes ih =>
      rw [List.forall_mem_append] at leaves
      rw [List.map_append]
      exact (ih leaves.1).append (nested.bracketed opens body closes (by decide) leaves.2)
  | call here opens items closes ih =>
      rw [List.forall_mem_append] at leaves
      have inside := items.steady nested (leaves_inside leaves.2)
        (by decide : isClosing (mark ')') = true) (by decide)
      rw [List.map_append, Expr.signs, signsOf_eq]
      exact (ih leaves.1).append (steady_bracketed opens inside closes (by decide))
  | unary isSign here ih =>
      rw [List.forall_mem_cons] at leaves
      rw [List.map_cons, sign_of_isOperatorOf isSign]
      exact .cons (isPlainSign_operator _) (ih leaves.2)
  | @binary level left right op x y first isOp second ihFirst ihSecond =>
      rw [List.forall_mem_append, List.forall_mem_cons] at leaves
      have built : (buildAt level x op.text y).signs = x.signs ++ operatorSign op.text :: y.signs := by
        unfold buildAt
        split <;> rfl
      rw [List.map_append, List.map_cons, sign_of_isOperatorOf isOp, built]
      exact (ihFirst leaves.1).append (.cons (isPlainSign_operator _) (ihSecond leaves.2.2))
  | conditional test asks yes splits no ih =>
      simp only [List.forall_mem_append, List.forall_mem_cons] at leaves
      obtain ⟨testLeaves, -, yesLeaves, -, noLeaves⟩ := leaves
      rw [List.map_append, List.map_cons, List.map_append, List.map_cons, sign_of_isOperator asks,
        sign_of_isOperator splits]
      exact (ih testLeaves).append (.cons (isPlainSign_operator _)
        ((nested.steady yes yesLeaves).append
          (.cons (isPlainSign_operator _) (nested.steady no noLeaves))))
  | assignment target assigns value ih =>
      rw [List.forall_mem_append, List.forall_mem_cons] at leaves
      rw [List.map_append, List.map_cons, sign_of_isOperatorOf assigns]
      exact (ih leaves.1).append (.cons (isPlainSign_operator _) (nested.steady value leaves.2.2))
  | tighter here ih => exact ih leaves

end

theorem yields_spells (n : Nat) : Yields (Spells n) Expr.signs := by
  induction n with
  | zero => exact ⟨fun impossible => impossible.elim, fun impossible => impossible.elim⟩
  | succ n ih =>
      refine ⟨fun here leaves => Derives.steady ih here leaves, fun here => ?_⟩
      obtain ⟨t, more, split, starts⟩ := Spells.starts here
      exact ⟨t, more, split, isClosing_of_starts starts⟩

end UiFormat.Markup

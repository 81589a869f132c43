/-
# UiFormat.Proofs.Markup.ExprRoundTrip -- printed expressions read back

An expression that was read from a source is printed so that the same expression
is read from the printed text.  The argument goes over the derivation of the
expression from its tokens: the printed text of each part is read as tokens that
spell the part again (`lexes_derives`), in front of every text that can stand
behind it (`Follows`).  The parts bind as tightly as their places demand, because
the grammar and the printer use one table of levels, so no parentheses are added.
-/
import UiFormat.Proofs.Markup.ExprLexing
import UiFormat.Proofs.Markup.ExprParts
import UiFormat.Proofs.Markup.DocumentReading

namespace UiFormat.Markup

open UiFormat.Text
open UiFormat.Parse

set_option autoImplicit false

/-! ## What can stand behind an expression -/

/-- The text can stand behind the expression: it ends a leaf, and a point comes
only after a postfix form or an atom that is no plain number. -/
def Follows (e : Expr) (w : Text) : Prop :=
  Delimited w ∧ (w.head? = some '.' → postfixLevel ≤ e.level ∧ e.isPlainNumber = false)

theorem follows_cons {e : Expr} {d : Char} {w : Text} (member : d ∈ delimiters)
    (notPoint : d ≠ '.') : Follows e (d :: w) := by
  refine ⟨⟨d, member, rfl⟩, fun point => ?_⟩
  cases point
  exact absurd rfl notPoint

/-- Behind a looser expression there is no point, so its last part may be
anything. -/
theorem Follows.loose {e part : Expr} {w : Text} (follows : Follows e w)
    (loose : e.level < postfixLevel) : Follows part w :=
  ⟨follows.1, fun point => absurd (follows.2 point).1 (Nat.not_le_of_lt loose)⟩

theorem parenthesize_eq {required level : Nat} (tight : required ≤ level) (text : Text) :
    parenthesize required level text = text :=
  if_neg (Nat.not_lt_of_le tight)

/-! ## Pieces of printed text -/

section

variable {ms : Modes} {w : Text}

/-- Tokens between two brackets. -/
def Bracketed (bra ket : Char) (P : List Tok → Prop) (toks : List Tok) : Prop :=
  ∃ opening inner closing, toks = opening :: (inner ++ [closing]) ∧
    isPunctuator bra opening = true ∧ P inner ∧ isPunctuator ket closing = true

theorem lexes_bracketed {bra ket : Char} {x y : Text} {P : List Tok → Prop}
    (opens : bra ∈ "()[]\x7b,".toList)
    (body : Lexes (.interpolation :: ms) x (y ++ w) (.interpolation :: ms) P)
    (closes : Lexes (.interpolation :: ms) y w (.interpolation :: ms) (IsToken .punctuator [ket])) :
    Lexes (.interpolation :: ms) ([bra] ++ (x ++ y)) w (.interpolation :: ms)
      (Bracketed bra ket P) := by
  have inside : Lexes (.interpolation :: ms) (x ++ y) w (.interpolation :: ms)
      fun toks => ∃ inner closing, toks = inner ++ [closing] ∧ P inner ∧
        isPunctuator ket closing = true := by
    refine body.append closes ?_
    rintro inner _ holds ⟨closing, rfl, kind, text⟩
    exact ⟨inner, closing, rfl, holds, isPunctuator_iff.2 ⟨kind, text⟩⟩
  refine (lexes_mark opens).append inside ?_
  rintro _ _ ⟨opening, rfl, kind, text⟩ ⟨inner, closing, rfl, holds, closes⟩
  exact ⟨opening, inner, closing, rfl, isPunctuator_iff.2 ⟨kind, text⟩, holds, closes⟩

theorem lexes_between {bra ket : Char} {x : Text} {P : List Tok → Prop}
    (opens : bra ∈ "()[]\x7b,".toList) (closes : ket ∈ "()[]\x7b,".toList)
    (body : Lexes (.interpolation :: ms) x (ket :: w) (.interpolation :: ms) P) :
    Lexes (.interpolation :: ms) ([bra] ++ x ++ [ket]) w (.interpolation :: ms)
      (Bracketed bra ket P) := by
  rw [List.append_assoc]
  exact lexes_bracketed opens body (lexes_mark closes)

/-- Tokens on the two sides of an operator. -/
def Infixed (op : Text) (P Q : List Tok → Prop) (toks : List Tok) : Prop :=
  ∃ a t b, toks = a ++ t :: b ∧ P a ∧ t.kind = .operator ∧ t.text = op ∧ Q b

/-- A space is passed over inside an interpolation. -/
theorem Lexes.spaced {x : Text} {P : List Tok → Prop}
    (lexes : Lexes (.interpolation :: ms) x w (.interpolation :: ms) P) (some : ¬ P []) :
    Lexes (.interpolation :: ms) ([' '] ++ x) w (.interpolation :: ms) P := by
  have areBlanks : Blanks [' '] := by decide
  exact lexes.blanks (by simp [Modes.current]) some areBlanks

theorem lexes_around {op x y : Text} {P Q : List Tok → Prop} {name : String}
    (member : name ∈ spacedOperators) (isName : name.toList = op)
    (first : Lexes (.interpolation :: ms) x (' ' :: (op ++ ' ' :: (y ++ w))) (.interpolation :: ms) P)
    (second : Lexes (.interpolation :: ms) y w (.interpolation :: ms) Q) (some : ¬ Q []) :
    Lexes (.interpolation :: ms) (x ++ [' '] ++ op ++ [' '] ++ y) w (.interpolation :: ms)
      (Infixed op P Q) := by
  have middle : Lexes (.interpolation :: ms) ((' ' :: op) ++ ([' '] ++ y)) w (.interpolation :: ms)
      fun toks => ∃ t b, toks = t :: b ∧ t.kind = .operator ∧ t.text = op ∧ Q b := by
    subst isName
    refine (lexes_spaced member).append (second.spaced some) ?_
    rintro _ b ⟨t, rfl, kind, text⟩ holds
    exact ⟨t, b, rfl, kind, text, holds⟩
  have whole : x ++ [' '] ++ op ++ [' '] ++ y = x ++ ((' ' :: op) ++ ([' '] ++ y)) := by simp
  rw [whole]
  refine Lexes.append (by simpa using first) middle ?_
  rintro a _ holds ⟨t, b, rfl, kind, text, right⟩
  exact ⟨a, t, b, rfl, holds, kind, text, right⟩

theorem Items.nonempty {α : Type} {item : List Tok → α → Prop} (some : ∀ x, ¬ item [] x) {x : α}
    {xs : List α} : ¬ Items item [] (x :: xs) := by
  intro items
  generalize none : ([] : List Tok) = toks at items
  cases items with
  | last here => exact some x (none ▸ here)
  | more here isComma rest => simp at none

/-- Several texts with commas between them. -/
theorem lexes_items {α : Type} {item : List Tok → α → Prop} {print : α → Text} {xs : List α}
    (some : ∀ x, ¬ item [] x)
    (each : ∀ x ∈ xs, ∀ rest, Lexes (.interpolation :: ms) (print x) (',' :: rest)
      (.interpolation :: ms) (item · x))
    (final : ∀ x ∈ xs, Lexes (.interpolation :: ms) (print x) w (.interpolation :: ms) (item · x)) :
    Lexes (.interpolation :: ms) (join ", ".toList (xs.map print)) w (.interpolation :: ms)
      (Items item · xs) := by
  induction xs with
  | nil => exact fun place => ⟨[], .nil _, .nil⟩
  | cons x xs ih =>
      cases xs with
      | nil => exact (final x List.mem_cons_self).mono fun toks holds => .last holds
      | cons y xs =>
          have later := ih (fun z member => each z (List.mem_cons_of_mem _ member))
            fun z member => final z (List.mem_cons_of_mem _ member)
          have tail := later.spaced (Items.nonempty some)
          have comma : Lexes (.interpolation :: ms)
              ([','] ++ ([' '] ++ join ", ".toList ((y :: xs).map print))) w
              (.interpolation :: ms) fun toks => ∃ t b, toks = t :: b ∧
                isPunctuator ',' t = true ∧ Items item b (y :: xs) := by
            refine (lexes_mark (by decide)).append tail ?_
            rintro _ b ⟨t, rfl, kind, text⟩ holds
            exact ⟨t, b, rfl, isPunctuator_iff.2 ⟨kind, text⟩, holds⟩
          have whole : join ", ".toList ((x :: y :: xs).map print) =
              print x ++ ([','] ++ ([' '] ++ join ", ".toList ((y :: xs).map print))) := by
            simp [join]
          rw [whole]
          refine (each x List.mem_cons_self _).append comma ?_
          rintro a _ holds ⟨t, b, rfl, isComma, items⟩
          exact .more holds isComma items

/-! ## Expressions -/

/-- Printed expressions that pass the test `p` everywhere are read as `spells`
derives them. -/
structure Respells (ms : Modes) (p : Expr → Bool) (spells : List Tok → Expr → Prop) : Prop where
  some (e : Expr) : ¬ spells [] e
  lexes {toks : List Tok} {e : Expr} (spelled : spells toks e) (leaves : ∀ t ∈ toks, Spelled t)
    (passes : e.every p = true) {w : Text} (follows : Follows e w) :
    Lexes (.interpolation :: ms) e.print w (.interpolation :: ms) (spells · e)

theorem printAll_eq (es : List Expr) : printAll es = es.map Expr.print := by
  induction es with
  | nil => rfl
  | cons e es ih => rw [printAll, ih, List.map_cons]

theorem printEntries_eq (es : List Entry) : printEntries es = es.map Entry.print := by
  induction es with
  | nil => rfl
  | cons e es ih => rw [printEntries, ih, List.map_cons]

theorem print_buildAt (level : Nat) (x : Expr) (op : Text) (y : Expr) :
    (buildAt level x op y).print =
      parenthesize (binaryLevel op) x.level x.print ++ [' '] ++ op ++ [' ']
        ++ parenthesize (binaryLevel op + 1) y.level y.print := by
  unfold buildAt
  split <;> rfl

/-- Every item of a list has its own tokens among those of the list. -/
theorem Items.exists_of_mem {α : Type} {item : List Tok → α → Prop} {toks : List Tok} {xs : List α}
    (items : Items item toks xs) {x : α} (member : x ∈ xs) :
    ∃ part, (∀ t ∈ part, t ∈ toks) ∧ item part x := by
  induction items with
  | nil => cases member
  | @last toks y here =>
      cases List.mem_singleton.1 member
      exact ⟨toks, fun t => id, here⟩
  | @more toks later comma y ys here isComma rest ih =>
      rcases List.mem_cons.1 member with rfl | member
      · exact ⟨toks, fun t => List.mem_append_left _, here⟩
      · obtain ⟨part, subset, spelled⟩ := ih member
        refine ⟨part, fun t inside => ?_, spelled⟩
        exact List.mem_append_right _ (List.mem_cons_of_mem _ (subset t inside))

variable {p : Expr → Bool} {spells : List Tok → Expr → Prop}

theorem lexes_list (nested : Respells ms p spells) {toks : List Tok} {es : List Expr}
    (items : Items spells toks es) (leaves : ∀ t ∈ toks, Spelled t) (passes : everyOf p es = true)
    {ket : Char} (closes : ket ∈ " )],[(:".toList) :
    Lexes (.interpolation :: ms) (join ", ".toList (printAll es)) (ket :: w) (.interpolation :: ms)
      (Items spells · es) := by
  rw [printAll_eq]
  rw [everyOf_eq, List.all_eq_true] at passes
  have one : ∀ e ∈ es, ∀ {d : Char} {rest : Text}, d ∈ " )],[(:".toList →
      Lexes (.interpolation :: ms) e.print (d :: rest) (.interpolation :: ms) (spells · e) := by
    intro e member d rest mark
    have table : ∀ d ∈ " )],[(:".toList, d ∈ delimiters ∧ d ≠ '.' :=
      forall_mem_of_all (by decide)
    obtain ⟨part, subset, spelled⟩ := items.exists_of_mem member
    exact nested.lexes spelled (fun t inside => leaves t (subset t inside)) (passes e member)
      (follows_cons (table d mark).1 (table d mark).2)
  exact lexes_items nested.some (fun e member rest => one e member (by decide))
    fun e member => one e member closes

/-- A leaf is a token of the same kind and text wherever it is read. -/
theorem lexes_leaf_as {t : Tok} {P : List Tok → Prop} (spelled : Spelled t)
    (notOperator : t.kind ≠ .operator) (notPunctuator : t.kind ≠ .punctuator) (ends : Delimited w)
    (noPoint : w.head? = some '.' → t.kind = .number → t.text.all isDigit = false)
    (holds : ∀ u : Tok, u.kind = t.kind → u.text = t.text → P [u]) :
    Lexes (.interpolation :: ms) t.text w (.interpolation :: ms) P := by
  refine (lexes_leaf spelled notOperator notPunctuator ends noPoint).mono ?_
  rintro _ ⟨u, rfl, kind, text⟩
  exact holds u kind text

theorem delimited_cons {d : Char} (member : d ∈ delimiters) : Delimited (d :: w) :=
  ⟨d, member, rfl⟩

theorem lexes_key (nested : Respells ms p spells) {toks : List Tok} {key : Key}
    (spelled : KeySpells spells toks key) (leaves : ∀ t ∈ toks, Spelled t)
    (passes : key.every p = true) {d : Char} (ends : d ∈ " ,:".toList) :
    Lexes (.interpolation :: ms) key.print (d :: w) (.interpolation :: ms)
      (KeySpells spells · key) := by
  have table : ∀ d ∈ " ,:".toList, d ∈ delimiters ∧ d ≠ '.' :=
      forall_mem_of_all (by decide)
  have noPoint : (d :: w).head? ≠ Option.some '.' := by
    intro point
    cases point
    exact absurd rfl (table '.' ends).2
  cases spelled with
  | @name t isName =>
      have spelling := leaves t (List.mem_singleton.2 rfl)
      have kind : t.kind ≠ .operator ∧ t.kind ≠ .punctuator := by
        rcases kind_of_isNameToken isName with kind | kind <;> simp [kind]
      refine lexes_leaf_as spelling kind.1 kind.2 (delimited_cons (table d ends).1)
        (fun point => absurd point noPoint) fun u kind text => ?_
      rw [← text]
      exact .name (by rw [isNameToken, kind]; exact isName)
  | @literal t kind isLiteral =>
      have spelling := leaves t (List.mem_singleton.2 rfl)
      have kinds : t.kind ≠ .operator ∧ t.kind ≠ .punctuator := by
        constructor <;> intro other <;> simp [other, keyLiteral?] at isLiteral
      refine lexes_leaf_as spelling kinds.1 kinds.2 (delimited_cons (table d ends).1)
        (fun point => absurd point noPoint) fun u same text => ?_
      rw [← text]
      exact .literal (by rw [same, isLiteral])
  | @computed opening closing toks e opens body closes =>
      have inside : ∀ t ∈ toks, Spelled t := fun t member => leaves t (by simp [member])
      refine (lexes_between (by decide) (by decide)
        (nested.lexes body inside passes (follows_cons (by decide) (by decide)))).mono ?_
      rintro _ ⟨bra, inner, ket, rfl, opens, holds, closes⟩
      exact .computed opens holds closes

theorem lexes_entry (nested : Respells ms p spells) {toks : List Tok} {entry : Entry}
    (spelled : EntrySpells spells toks entry) (leaves : ∀ t ∈ toks, Spelled t)
    (passes : entry.every p = true) {d : Char} (ends : d ∈ " ,".toList) :
    Lexes (.interpolation :: ms) entry.print (d :: w) (.interpolation :: ms)
      (EntrySpells spells · entry) := by
  have table : ∀ d ∈ " ,".toList, d ∈ " ,:".toList ∧ d ∈ delimiters ∧ d ≠ '.' :=
      forall_mem_of_all (by decide)
  cases spelled with
  | shorthand here =>
      exact (lexes_key nested here leaves passes (table d ends).1).mono fun toks => .shorthand
  | @pair toks later colon key value here isColon body =>
      simp only [Entry.every, Bool.and_eq_true] at passes
      have keyLeaves : ∀ t ∈ toks, Spelled t := fun t member => leaves t (by simp [member])
      have valueLeaves : ∀ t ∈ later, Spelled t := fun t member => leaves t (by simp [member])
      have right : Lexes (.interpolation :: ms) ([' '] ++ value.print) (d :: w)
          (.interpolation :: ms) (spells · value) :=
        (nested.lexes body valueLeaves passes.2
          (follows_cons (table d ends).2.1 (table d ends).2.2)).spaced (nested.some value)
      have middle : Lexes (.interpolation :: ms) (":".toList ++ ([' '] ++ value.print)) (d :: w)
          (.interpolation :: ms) fun toks => ∃ t b, toks = t :: b ∧ isOperator ":" t = true ∧
            spells b value := by
        refine (lexes_operator (by decide)).append right ?_
        rintro _ b ⟨t, rfl, kind, text⟩ holds
        exact ⟨t, b, rfl, isOperator_iff.2 ⟨kind, text⟩, holds⟩
      have whole : (Entry.pair key value).print =
          key.print ++ (":".toList ++ ([' '] ++ value.print)) := by
        simp [Entry.print]
      rw [whole]
      refine (lexes_key nested here keyLeaves passes.1 (by decide)).append middle ?_
      rintro a _ holds ⟨t, b, rfl, isColon, body⟩
      exact .pair holds isColon body

theorem EntrySpells.nonempty {entry : Entry} : ¬ EntrySpells spells [] entry := by
  intro spelled
  obtain ⟨t, more, split, -⟩ := spelled.starts
  cases split

theorem lexes_entries (nested : Respells ms p spells) {toks : List Tok} {es : List Entry}
    (items : Items (EntrySpells spells) toks es) (leaves : ∀ t ∈ toks, Spelled t)
    (passes : everyOfEntries p es = true) :
    Lexes (.interpolation :: ms) (join ", ".toList (printEntries es)) (' ' :: w)
      (.interpolation :: ms) (Items (EntrySpells spells) · es) := by
  rw [printEntries_eq]
  rw [everyOfEntries_eq, List.all_eq_true] at passes
  have one : ∀ entry ∈ es, ∀ {d : Char} {rest : Text}, d ∈ " ,".toList →
      Lexes (.interpolation :: ms) entry.print (d :: rest) (.interpolation :: ms)
        (EntrySpells spells · entry) := by
    intro entry member d rest mark
    obtain ⟨part, subset, spelled⟩ := items.exists_of_mem member
    exact lexes_entry nested spelled (fun t inside => leaves t (subset t inside))
      (passes entry member) mark
  exact lexes_items (fun entry => EntrySpells.nonempty)
    (fun entry member rest => one entry member (by decide))
    fun entry member => one entry member (by decide)

/-- A printed expression does not begin with an equals sign. -/
theorem Derives.print_front {level : Nat} {toks : List Tok} {e : Expr}
    (derived : Derives spells level toks e) (leaves : ∀ t ∈ toks, Spelled t) :
    ∃ d r, e.print = d :: r ∧ d ≠ '=' := by
  have parenthesized : ∀ {required level : Nat} {text : Text},
      (∃ d r, text = d :: r ∧ d ≠ '=') →
      ∃ d r, parenthesize required level text = d :: r ∧ d ≠ '=' := by
    rintro required level _ ⟨d, r, rfl, front⟩
    unfold parenthesize
    split
    · exact ⟨'(', _, rfl, by decide⟩
    · exact ⟨d, r, rfl, front⟩
  have extended : ∀ {text more : Text}, (∃ d r, text = d :: r ∧ d ≠ '=') →
      ∃ d r, text ++ more = d :: r ∧ d ≠ '=' := by
    rintro _ more ⟨d, r, rfl, front⟩
    exact ⟨d, r ++ more, rfl, front⟩
  induction derived with
  | @name t isName => exact (leaves t (List.mem_singleton.2 rfl)).front (.inl isName)
  | @literal t kind isLiteral => exact (leaves t (List.mem_singleton.2 rfl)).front (.inr ⟨kind, isLiteral⟩)
  | grouping opens body closes => exact ⟨'(', _, rfl, by decide⟩
  | array opens items closes => exact ⟨'[', _, rfl, by decide⟩
  | object opens entries closes =>
      rw [Expr.print]
      split
      · exact ⟨'{', _, rfl, by decide⟩
      · exact ⟨'{', _, rfl, by decide⟩
  | member here isPoint isName ih =>
      have front := ih fun t member => leaves t (by simp [member])
      exact extended (extended (parenthesized front))
  | index here opens body closes ih =>
      have front := ih fun t member => leaves t (by simp [member])
      exact extended (extended (extended (parenthesized front)))
  | call here opens items closes ih =>
      have front := ih fun t member => leaves t (by simp [member])
      exact extended (extended (extended (parenthesized front)))
  | @unary sign toks e isSign here ih =>
      obtain ⟨-, op, member, text⟩ := isOperatorOf_iff.1 isSign
      have signs : ∀ op ∈ unaryOperators, ∃ d r, op.toList = d :: r ∧ d ≠ '=' := by
        intro op member
        simp only [unaryOperators, List.mem_cons, List.not_mem_nil, or_false] at member
        rcases member with rfl | rfl | rfl | rfl <;> exact ⟨_, _, rfl, by decide⟩
      have front := signs op member
      rw [text] at front
      rw [Expr.print, signed]
      split
      · exact extended (extended front)
      · exact extended front
  | @binary level left right op x y first isOp second ihFirst =>
      have front := ihFirst fun t member => leaves t (by simp [member])
      rw [print_buildAt]
      exact extended (extended (extended (extended (parenthesized front))))
  | conditional test asks yes splits no ih =>
      have front := ih fun t member => leaves t (by simp [member])
      exact extended (extended (extended (extended (parenthesized front))))
  | assignment target assigns value ih =>
      have front := ih fun t member => leaves t (by simp [member])
      exact extended (extended (extended (extended (parenthesized front))))
  | tighter here ih => exact ih leaves

theorem Derives.nonempty {level : Nat} {e : Expr} : ¬ Derives spells level [] e := by
  intro derived
  obtain ⟨t, more, split, -⟩ := derived.starts
  cases split

theorem every_buildAt {level : Nat} {x y : Expr} {op : Text}
    (passes : (buildAt level x op y).every p = true) : x.every p = true ∧ y.every p = true := by
  unfold buildAt at passes
  split at passes <;> simp only [Expr.every, Bool.and_eq_true] at passes <;>
    exact ⟨passes.1.2, passes.2⟩

theorem passes_of_every {e : Expr} (passes : e.every p = true) : p e = true := by
  cases e <;> simp only [Expr.every, Bool.and_eq_true] at passes <;> simp only [passes]

theorem mem_spacedOperators {level : Nat} {op : String} (member : op ∈ operatorsAt level) :
    op ∈ spacedOperators := by
  have table : ∀ level ∈ [3, 4, 5, 6, 7, 8], ∀ op ∈ operatorsAt level, op ∈ spacedOperators := by
    decide
  exact table level (mem_levels_of_operator member) op member

/-- A sign in front of a printed operand. -/
theorem lexes_signed {sign : Tok} {x : Text} {P Q : List Tok → Prop}
    (isSign : isOperatorOf unaryOperators sign = true) (front : ∃ d r, x = d :: r ∧ d ≠ '=')
    (operand : Lexes (.interpolation :: ms) x w (.interpolation :: ms) P) (some : ¬ P [])
    (joined : ∀ t toks, isOperatorOf unaryOperators t = true → t.text = sign.text → P toks →
      Q (t :: toks)) :
    Lexes (.interpolation :: ms) (signed sign.text x) w (.interpolation :: ms) Q := by
  obtain ⟨-, op, member, text⟩ := isOperatorOf_iff.1 isSign
  obtain ⟨d, r, rfl, notEquals⟩ := front
  have whole : ∀ a b, IsToken .operator op.toList a → P b → Q (a ++ b) := by
    rintro _ b ⟨t, rfl, kind, same⟩ holds
    exact joined t b (isOperatorOf_iff.2 ⟨kind, op, member, same.symm⟩) (same.trans text) holds
  rw [signed, ← text]
  split
  · rw [List.append_assoc]
    exact Lexes.append (lexes_sign member ⟨by decide, by simp, by simp⟩) (operand.spaced some) whole
  · rename_i apart
    refine Lexes.append (lexes_sign member ⟨notEquals, ?_, ?_⟩) operand whole
    · rintro rfl rfl
      exact apart rfl
    · rintro rfl rfl
      exact apart rfl

/-- A point and the name of a member. -/
theorem lexes_member {name : Tok} (spelling : Spelled name) (isName : isMemberName name = true)
    (ends : Delimited w) :
    Lexes (.interpolation :: ms) (['.'] ++ name.text) w (.interpolation :: ms) fun toks =>
      ∃ point other, toks = [point, other] ∧ isOperator "." point = true ∧
        isMemberName other = true ∧ other.text = name.text := by
  have kinds : name.kind ≠ .operator ∧ name.kind ≠ .punctuator ∧ name.kind ≠ .number ∧
      name.kind ≠ .string := by
    refine ⟨?_, ?_, ?_, ?_⟩ <;> intro other <;> simp [isMemberName, isNameToken, other] at isName
  obtain ⟨c, r, split, isStart⟩ : ∃ c r, name.text = c :: r ∧ isIdentStart c = true :=
    spelling.word kinds
  have second : Lexes (.interpolation :: ms) name.text w (.interpolation :: ms) fun toks =>
      ∃ other, toks = [other] ∧ isMemberName other = true ∧ other.text = name.text := by
    refine lexes_leaf_as spelling kinds.1 kinds.2.1 ends
      (fun _ isNumber => absurd isNumber kinds.2.2.1) fun u kind text => ?_
    exact ⟨u, rfl, by rw [isMemberName, isNameToken, kind]; exact isName, text⟩
  have first : Lexes (.interpolation :: ms) ['.'] (name.text ++ w) (.interpolation :: ms)
      (IsToken .operator ".".toList) := by
    rw [split]
    exact lexes_point isStart
  refine first.append second ?_
  rintro _ _ ⟨point, rfl, kind, text⟩ ⟨other, rfl, isName, same⟩
  exact ⟨point, other, rfl, isOperator_iff.2 ⟨kind, text⟩, isName, same⟩

/-- An object literal between its braces. -/
theorem lexes_object (nested : Respells ms p spells) {toks : List Tok} {es : List Entry}
    (items : Items (EntrySpells spells) toks es) (leaves : ∀ t ∈ toks, Spelled t)
    (passes : everyOfEntries p es = true) (ends : Delimited w) :
    Lexes (.interpolation :: ms) (Expr.object es).print w (.interpolation :: ms)
      (Bracketed '{' '}' (Items (EntrySpells spells) · es)) := by
  have closing : Lexes (.interpolation :: ms) ['}'] w (.interpolation :: ms)
      (IsToken .punctuator ['}']) := by
    obtain ⟨d, member, head⟩ := ends
    cases w with
    | nil => cases head
    | cons c w =>
        cases head
        refine lexes_brace ?_
        rintro rfl
        exact absurd member (by decide)
  cases es with
  | nil =>
      have body : Lexes (.interpolation :: ms) [] (['}'] ++ w) (.interpolation :: ms)
          (Items (EntrySpells spells) · []) := fun place => ⟨[], .nil _, .nil⟩
      have whole : Lexes (.interpolation :: ms) (['{'] ++ ([] ++ ['}'])) w (.interpolation :: ms)
          (Bracketed '{' '}' (Items (EntrySpells spells) · [])) :=
        lexes_bracketed (by decide) body closing
      exact whole
  | cons entry es =>
      have body := (lexes_entries (w := '}' :: w) nested items leaves passes).spaced
        (Items.nonempty fun entry => EntrySpells.nonempty)
      have whole : (Expr.object (entry :: es)).print =
          ['{'] ++ (([' '] ++ join ", ".toList (printEntries (entry :: es))) ++ ([' '] ++ ['}'])) := by
        simp [Expr.print, printEntries]
      rw [whole]
      exact lexes_bracketed (by decide) body (closing.spaced (by simp [IsToken]))

/-- The printed text of a derived expression derives it again. -/
theorem lexes_derives (nested : Respells ms p spells)
    (stronger : ∀ e, p e = true → e.printsBack = true) {level : Nat} {toks : List Tok} {e : Expr}
    (derived : Derives spells level toks e) (leaves : ∀ t ∈ toks, Spelled t)
    (passes : e.every p = true) (follows : Follows e w) :
    Lexes (.interpolation :: ms) e.print w (.interpolation :: ms)
      fun toks => Derives spells level toks e := by
  induction derived generalizing w with
  | @name t isName =>
      have spelling := leaves t (List.mem_singleton.2 rfl)
      have kinds : t.kind ≠ .operator ∧ t.kind ≠ .punctuator ∧ t.kind ≠ .number := by
        rcases kind_of_isNameToken isName with kind | kind <;> simp [kind]
      refine lexes_leaf_as spelling kinds.1 kinds.2.1 follows.1
        (fun _ isNumber => absurd isNumber kinds.2.2) fun u kind text => ?_
      rw [← text]
      exact .name (by rw [isNameToken, kind]; exact isName)
  | @literal t kind isLiteral =>
      have spelling := leaves t (List.mem_singleton.2 rfl)
      have kinds : t.kind ≠ .operator ∧ t.kind ≠ .punctuator := by
        constructor <;> intro other <;> simp [other, literalKind?] at isLiteral
      have noPoint : w.head? = some '.' → t.kind = .number → t.text.all isDigit = false := by
        intro point isNumber
        rw [isNumber] at isLiteral
        cases isLiteral
        exact (follows.2 point).2
      refine lexes_leaf_as spelling kinds.1 kinds.2 follows.1 noPoint fun u same text => ?_
      rw [← text]
      exact .literal (by rw [same, isLiteral])
  | @grouping opening closing toks e opens body closes =>
      simp only [Expr.every, Bool.and_eq_true] at passes
      have inside : ∀ t ∈ toks, Spelled t := fun t member => leaves t (by simp [member])
      refine (lexes_between (by decide) (by decide)
        (nested.lexes body inside passes.2 (follows_cons (by decide) (by decide)))).mono ?_
      rintro _ ⟨bra, inner, ket, rfl, opens, holds, closes⟩
      exact .grouping opens holds closes
  | @array opening closing toks es opens items closes =>
      simp only [Expr.every, Bool.and_eq_true] at passes
      have inside : ∀ t ∈ toks, Spelled t := fun t member => leaves t (by simp [member])
      refine (lexes_between (by decide) (by decide)
        (lexes_list nested items inside passes.2 (by decide))).mono ?_
      rintro _ ⟨bra, inner, ket, rfl, opens, holds, closes⟩
      exact .array opens holds closes
  | @object opening closing toks es opens entries closes =>
      simp only [Expr.every, Bool.and_eq_true] at passes
      have inside : ∀ t ∈ toks, Spelled t := fun t member => leaves t (by simp [member])
      refine (lexes_object nested entries inside passes.2 follows.1).mono ?_
      rintro _ ⟨bra, inner, ket, rfl, opens, holds, closes⟩
      exact .object opens holds closes
  | @member toks point name e here isPoint isName ih =>
      have node := stronger _ (passes_of_every passes)
      simp only [Expr.every, Bool.and_eq_true] at passes
      have inside : ∀ t ∈ toks, Spelled t := fun t member => leaves t (by simp [member])
      have spelling : Spelled name := leaves name (by simp)
      have tight : postfixLevel ≤ e.level := here.le_level
      have value := ih (w := ['.'] ++ name.text ++ w) inside passes.2
        ⟨delimited_cons (by decide), fun _ => ⟨tight, by simpa [Expr.printsBack] using node⟩⟩
      rw [Expr.print, parenthesize_eq tight, List.append_assoc]
      refine value.append (lexes_member spelling isName follows.1) ?_
      rintro a _ holds ⟨t, u, rfl, isPoint, isName, text⟩
      rw [← text]
      exact .member holds isPoint isName
  | @index toks inner opening closing e i here opens body closes ih =>
      simp only [Expr.every, Bool.and_eq_true] at passes
      have inside : ∀ t ∈ toks, Spelled t := fun t member => leaves t (by simp [member])
      have within : ∀ t ∈ inner, Spelled t := fun t member => leaves t (by simp [member])
      have tight : postfixLevel ≤ e.level := here.le_level
      have value := ih (w := ['['] ++ i.print ++ [']'] ++ w) inside passes.1.2
        (follows_cons (by decide) (by decide))
      have index : Lexes (.interpolation :: ms) (['['] ++ i.print ++ [']']) w (.interpolation :: ms)
          (Bracketed '[' ']' (spells · i)) :=
        lexes_between (by decide) (by decide)
          (nested.lexes body within passes.2 (follows_cons (by decide) (by decide)))
      have whole : (Expr.computedMember e i).print = e.print ++ (['['] ++ i.print ++ [']']) := by
        rw [Expr.print, parenthesize_eq tight]
        simp
      rw [whole]
      refine value.append index ?_
      rintro a _ holds ⟨bra, inner, ket, rfl, opens, body, closes⟩
      exact .index holds opens body closes
  | @call toks inner opening closing e es here opens items closes ih =>
      simp only [Expr.every, Bool.and_eq_true] at passes
      have inside : ∀ t ∈ toks, Spelled t := fun t member => leaves t (by simp [member])
      have within : ∀ t ∈ inner, Spelled t := fun t member => leaves t (by simp [member])
      have tight : postfixLevel ≤ e.level := here.le_level
      have value := ih (w := ['('] ++ join ", ".toList (printAll es) ++ [')'] ++ w) inside passes.1.2
        (follows_cons (by decide) (by decide))
      have arguments : Lexes (.interpolation :: ms) (['('] ++ join ", ".toList (printAll es) ++ [')'])
          w (.interpolation :: ms) (Bracketed '(' ')' (Items spells · es)) :=
        lexes_between (by decide) (by decide)
          (lexes_list nested items within passes.2 (by decide))
      have whole : (Expr.call e es).print =
          e.print ++ (['('] ++ join ", ".toList (printAll es) ++ [')']) := by
        rw [Expr.print, parenthesize_eq tight]
        simp
      rw [whole]
      refine value.append arguments ?_
      rintro a _ holds ⟨bra, inner, ket, rfl, opens, items, closes⟩
      exact .call holds opens items closes
  | @unary sign toks e isSign here ih =>
      simp only [Expr.every, Bool.and_eq_true] at passes
      have inside : ∀ t ∈ toks, Spelled t := fun t member => leaves t (by simp [member])
      have tight : unaryLevel ≤ e.level := here.le_level
      rw [Expr.print, parenthesize_eq tight]
      refine lexes_signed isSign (here.print_front inside)
        (ih inside passes.2 (follows.loose (by decide : unaryLevel < postfixLevel)))
        Derives.nonempty ?_
      intro t more isSign text holds
      rw [← text]
      exact .unary isSign holds
  | @binary level left right op x y first isOp second ihFirst ihSecond =>
      obtain ⟨-, name, member, text⟩ := isOperatorOf_iff.1 isOp
      have leftLeaves : ∀ t ∈ left, Spelled t := fun t member => leaves t (by simp [member])
      have rightLeaves : ∀ t ∈ right, Spelled t := fun t member => leaves t (by simp [member])
      obtain ⟨leftPasses, rightPasses⟩ := every_buildAt passes
      have loose : (buildAt level x op.text y).level < postfixLevel := by
        rw [level_buildAt, binaryLevel_of_operator isOp]
        have table : ∀ level ∈ [3, 4, 5, 6, 7, 8], level < postfixLevel := by decide
        exact table level (mem_levels_of_operator member)
      rw [print_buildAt, binaryLevel_of_operator isOp, parenthesize_eq first.le_level,
        parenthesize_eq second.le_level]
      refine (lexes_around (mem_spacedOperators member) text
        (ihFirst leftLeaves leftPasses (follows_cons (by decide) (by decide)))
        (ihSecond rightLeaves rightPasses (follows.loose loose)) Derives.nonempty).mono ?_
      rintro _ ⟨a, t, b, rfl, holds, kind, same, rest⟩
      rw [← same]
      exact .binary holds (isOperatorOf_iff.2 ⟨kind, name, member, text.trans same.symm⟩) rest
  | @conditional a b c question colon x y z test asks yes splits no ih =>
      have node := stronger _ (passes_of_every passes)
      simp only [Expr.printsBack, Bool.and_eq_true, Bool.not_eq_true'] at node
      simp only [Expr.every, Bool.and_eq_true] at passes
      have testLeaves : ∀ t ∈ a, Spelled t := fun t member => leaves t (by simp [member])
      have yesLeaves : ∀ t ∈ b, Spelled t := fun t member => leaves t (by simp [member])
      have noLeaves : ∀ t ∈ c, Spelled t := fun t member => leaves t (by simp [member])
      have branches : Lexes (.interpolation :: ms)
          (y.print ++ [' '] ++ ":".toList ++ [' '] ++ z.print) w (.interpolation :: ms)
          (Infixed ":".toList (spells · y) (spells · z)) :=
        lexes_around (by decide) rfl
          (nested.lexes yes yesLeaves passes.1.2 (follows_cons (by decide) (by decide)))
          (nested.lexes no noLeaves passes.2 (follows.loose (by decide : 2 < postfixLevel)))
          (nested.some z)
      have notEmpty : ¬ Infixed ":".toList (spells · y) (spells · z) [] := by
        rintro ⟨b, t, c, split, -⟩
        simp at split
      have whole : (Expr.conditional x y z).print = x.print ++ [' '] ++ "?".toList ++ [' '] ++
          (y.print ++ [' '] ++ ":".toList ++ [' '] ++ z.print) := by
        rw [Expr.print, parenthesize_eq (Nat.le_of_succ_le test.le_level),
          parenthesize_eq (two_le_level node.1), parenthesize_eq (two_le_level node.2)]
        simp
      rw [whole]
      refine (lexes_around (by decide) rfl
        (ih testLeaves passes.1.1.2 (follows_cons (by decide) (by decide))) branches notEmpty).mono ?_
      rintro _ ⟨a, t, _, rfl, holds, kind, text, b, u, c, rfl, yes, kind', text', no⟩
      exact .conditional holds (isOperator_iff.2 ⟨kind, text⟩) yes
        (isOperator_iff.2 ⟨kind', text'⟩) no
  | @assignment a b op x y target assigns value ih =>
      obtain ⟨-, name, member, text⟩ := isOperatorOf_iff.1 assigns
      simp only [Expr.every, Bool.and_eq_true] at passes
      have targetLeaves : ∀ t ∈ a, Spelled t := fun t member => leaves t (by simp [member])
      have valueLeaves : ∀ t ∈ b, Spelled t := fun t member => leaves t (by simp [member])
      have spaced : ∀ op ∈ assignmentOperators, op ∈ spacedOperators := by decide
      rw [Expr.print, parenthesize_eq (one_le_level x), parenthesize_eq (one_le_level y)]
      refine (lexes_around (spaced name member) text
        (ih targetLeaves passes.1.2 (follows_cons (by decide) (by decide)))
        (nested.lexes value valueLeaves passes.2 (follows.loose (by decide : 1 < postfixLevel)))
        (nested.some y)).mono ?_
      rintro _ ⟨a, t, b, rfl, holds, kind, same, rest⟩
      rw [← same]
      exact .assignment holds (isOperatorOf_iff.2 ⟨kind, name, member, text.trans same.symm⟩) rest
  | @tighter level toks e here ih => exact (ih leaves passes follows).mono fun toks => .tighter

theorem respells_spells (stronger : ∀ e, p e = true → e.printsBack = true) (n : Nat) :
    Respells ms p (Spells n) := by
  induction n with
  | zero => exact ⟨fun e => id, fun spelled => spelled.elim⟩
  | succ n ih =>
      exact ⟨fun e => Derives.nonempty, fun spelled leaves passes w follows =>
        lexes_derives ih stronger spelled leaves passes follows⟩

/-! ## Interpolations -/

theorem lexes_interpStart (outside : ms.current ≠ .interpolation) :
    Lexes ms ['{', '{'] w (.interpolation :: ms) (IsToken .interpStart ['{', '{']) := by
  have noGap : ms.current.gap ('{' :: (['{'] ++ w)) = 0 := by
    cases mode : ms.current with
    | data => rfl
    | tag => rfl
    | interpolation => exact absurd mode outside
  have here : ms.current.lexeme '{' (['{'] ++ w) =
      { kind := .interpStart, extra := 1, shift := .enter .interpolation } := by
    cases mode : ms.current with
    | data => rfl
    | tag => rfl
    | interpolation => exact absurd mode outside
  exact lexes_token noGap here

theorem lexes_interpEnd :
    Lexes (.interpolation :: ms) ['}', '}'] w ms (IsToken .interpEnd ['}', '}']) :=
  @lexes_token (.interpolation :: ms) '}' ['}'] w .interpEnd .leave
    (expressionGap_eq_zero _ (by decide) (by decide)) rfl

/-- A printed expression is read back from between the marks of an interpolation,
whatever blanks surround it. -/
theorem lexes_padded (stronger : ∀ e, p e = true → e.printsBack = true) {toks : List Tok}
    {e : Expr} (spelled : Spells expressionLimit toks e) (leaves : ∀ t ∈ toks, Spelled t)
    (passes : e.every p = true) (high : e.height ≤ heightLimit)
    (outside : ms.current ≠ .interpolation) {left right : Text}
    (leftBlank : Blanks left) (rightBlank : Blanks right) :
    Lexes ms (['{', '{'] ++ (left ++ e.print) ++ ((' ' :: right) ++ ['}', '}'])) w ms
      fun toks => ∀ rest, InterpolationRun (toks ++ rest) e rest := by
  have respells : Respells ms p (Spells expressionLimit) := respells_spells stronger _
  have body := (respells.lexes (w := (' ' :: right) ++ ['}', '}'] ++ w) spelled leaves passes
    (follows_cons (by decide) (by decide))).blanks (by simp [Modes.current]) (respells.some e)
      leftBlank
  have spaced : ∀ c ∈ ' ' :: right, isPlainBlank c = true :=
    List.forall_mem_cons.2 ⟨by decide, rightBlank⟩
  have ending : Lexes (.interpolation :: ms) ((' ' :: right) ++ ['}', '}']) w ms
      (IsToken .interpEnd ['}', '}']) :=
    lexes_interpEnd.blanks (by simp [Modes.current]) (by simp [IsToken]) spaced
  have inside : Lexes (.interpolation :: ms) ((left ++ e.print) ++ ((' ' :: right) ++ ['}', '}']))
      w ms fun toks => ∃ inner closing, toks = inner ++ [closing] ∧
        Spells expressionLimit inner e ∧ closing.kind = .interpEnd := by
    refine body.append ending ?_
    rintro inner _ spelled ⟨closing, rfl, kind, -⟩
    exact ⟨inner, closing, rfl, spelled, kind⟩
  rw [List.append_assoc]
  refine (lexes_interpStart outside).append inside ?_
  rintro _ _ ⟨opening, rfl, opens, -⟩ ⟨inner, closing, rfl, spelled, closes⟩ rest
  simpa using InterpolationRun.run opens spelled high closes

end

/-! ## Fragments -/

theorem kind_endToken (source : Text) : (endToken source).kind = .eof := by
  obtain ⟨k, -, -, closes⟩ := exists_steps_drain (Cursor.start source)
  rw [endToken, closes]
  exact kind_closing k

/-- The nodes of a source and the state in which the parser leaves it. -/
def readWith (reader : Text → Option Expr) (source : Text) : List Node × State Kind Problem :=
  (document reader : MarkupParser (List Node)) (State.start (lexemes source) (endToken source))

theorem parseWith_eq (reader : Text → Option Expr) (source : Text) :
    parseWith reader source =
      { children := (readWith reader source).1, errors := (readWith reader source).2.errors } :=
  rfl

/-- A source is parsed without errors exactly when its tokens are a run of
nodes. -/
theorem parseWith_eq_iff {reader : Text → Option Expr} {source : Text} {ns : List Node} :
    parseWith reader source = { children := ns, errors := [] } ↔
      DocumentRun (NodeRun (endToken source) reader elementLimit) (lexemes source) ns := by
  have eof := kind_endToken source
  constructor
  · intro clean
    rw [parseWith_eq, Parsed.mk.injEq] at clean
    generalize result : readWith reader source = r at clean
    obtain ⟨children, rest, closing, errors⟩ := r
    have kept : closing = endToken source := by
      have same : (readWith reader source).2.closing = endToken source :=
        Forward.closing_eq (p := document reader) (State.start (lexemes source) (endToken source))
      rwa [result] at same
    obtain ⟨rfl, rfl⟩ := clean
    subst kept
    exact ((reads_document eof).1 result).2
  · intro run
    have reads : Reads (endToken source) (document reader) (lexemes source) ns [] :=
      (reads_document eof).2 ⟨rfl, run⟩
    rw [parseWith_eq, show readWith reader source = _ from reads]

theorem interpolationRun_of_nodeRun {closing : Tok} {reader : Text → Option Expr} {levels : Nat}
    {ts rest : List Tok} {e : Expr}
    (run : NodeRun closing reader levels ts (.interpolation e) rest) :
    InterpolationRun ts e rest := by
  cases levels with
  | zero =>
      cases run with
      | interpolation here => exact here
  | succ levels =>
      cases run with
      | interpolation here => exact here

theorem nodeRun_of_interpolationRun {closing : Tok} {reader : Text → Option Expr} {levels : Nat}
    {ts rest : List Tok} {e : Expr} (run : InterpolationRun ts e rest) :
    NodeRun closing reader levels ts (.interpolation e) rest := by
  cases levels with
  | zero => exact .interpolation run
  | succ levels => exact .interpolation run

theorem parseFragment_eq_iff {source : Text} {e : Expr} :
    parseFragment source = (some e, []) ↔
      parseWith (fun _ => none) (['{', '{', ' '] ++ source ++ [' ', '}', '}']) =
        { children := [.interpolation e], errors := [] } := by
  rw [parseFragment]
  generalize parseWith (fun _ => none) (['{', '{', ' '] ++ source ++ [' ', '}', '}']) = result
  obtain ⟨children, errors⟩ := result
  simp only [Parsed.mk.injEq]
  split
  · simp
  · rename_i other
    refine iff_of_false (by simp) ?_
    rintro ⟨rfl, -⟩
    exact other e rfl

/-- A fragment without errors is read as tokens that spell its expression. -/
theorem exists_steps_of_parseFragment {source : Text} {e : Expr}
    (parsed : parseFragment source = (some e, [])) :
    ∃ toks k, Steps { rest := [' '] ++ source ++ [' ', '}', '}']
                      place := Position.start.past ['{', '{']
                      modes := [.interpolation] } toks k ∧
      Spells expressionLimit toks e ∧ (∀ t ∈ toks, Spelled t) ∧ e.height ≤ heightLimit := by
  have run := parseWith_eq_iff.1 (parseFragment_eq_iff.1 parsed)
  -- The source begins with the mark, so its first token opens the interpolation.
  have mark : Lexes [] ['{', '{'] ([' '] ++ source ++ [' ', '}', '}']) [.interpolation]
      (IsToken .interpStart ['{', '{']) := lexes_interpStart (by decide)
  obtain ⟨_, steps, opening, rfl, opens, -⟩ := mark Position.start
  cases steps with
  | cons here later =>
      cases later
      have lexed : lexemes (['{', '{', ' '] ++ source ++ [' ', '}', '}']) = opening :: _ :=
        congrArg Prod.fst (drain_of_some here)
      obtain ⟨k, inside, -⟩ := exists_steps_drain
        { rest := [' '] ++ source ++ [' ', '}', '}'], place := Position.start.past ['{', '{']
          modes := [.interpolation] }
      rw [lexed] at run
      generalize Prod.fst (Cursor.drain _) = tail at run inside
      cases run with
      | next found rest =>
          cases interpolationRun_of_nodeRun found with
          | run _ spelled high closes =>
              obtain ⟨between, first, -⟩ := inside.split
              exact ⟨_, between, first, spelled, spelled.spelled inside rfl, high⟩
      | skip idle rest => simp [isIdle, opens] at idle

/-- A fragment that is read as one interpolation is parsed without errors. -/
theorem parseFragment_of_lexes {source : Text} {e : Expr}
    (lexes : Lexes [] (['{', '{', ' '] ++ source ++ [' ', '}', '}']) [] []
      fun toks => ∀ rest, InterpolationRun (toks ++ rest) e rest) :
    parseFragment source = (some e, []) := by
  refine parseFragment_eq_iff.2 (parseWith_eq_iff.2 (.next (nodeRun_of_interpolationRun ?_) .stop))
  simpa using lexes.lexemes []

/-- **Expression round trip.**  A fragment that is parsed without errors, in which
no number has a member and no branch of a conditional is an assignment, is printed
as a text that is parsed to the same expression, again without errors. -/
theorem parseFragment_print {source : Text} {e : Expr}
    (parsed : parseFragment source = (some e, [])) (stable : e.every Expr.isStable = true) :
    parseFragment e.print = (some e, []) := by
  obtain ⟨toks, -, -, spelled, leaves, high⟩ := exists_steps_of_parseFragment parsed
  have padded : Lexes [] (['{', '{'] ++ ([' '] ++ e.print) ++ ([' '] ++ ['}', '}'])) [] []
      fun toks => ∀ rest, InterpolationRun (toks ++ rest) e rest :=
    lexes_padded printsBack_of_isStable spelled leaves stable high (by decide) (by decide) (by decide)
  refine parseFragment_of_lexes ?_
  have same : ['{', '{'] ++ ([' '] ++ e.print) ++ ([' '] ++ ['}', '}']) =
      ['{', '{', ' '] ++ e.print ++ [' ', '}', '}'] := by simp
  rwa [same] at padded

/-- Blanks in odd places, a trailing comma and parentheses. -/
def mixedFragment : Text :=
  "-(a+ b)*c.d [0]?f( x,[ y, ] ):\x7bk :'2'\x7d".toList

theorem parseFragment_print_mixed : ∃ e, parseFragment mixedFragment = (some e, []) ∧
    e.print = "-(a + b) * c.d[0] ? f(x, [y]) : \x7b k: '2' \x7d".toList ∧
      parseFragment e.print = (some e, []) := by
  have decided : ((parseFragment mixedFragment).1.any fun e => e.every Expr.isStable &&
      e.print == "-(a + b) * c.d[0] ? f(x, [y]) : \x7b k: '2' \x7d".toList) = true ∧
        (parseFragment mixedFragment).2.isEmpty = true := by
    rw [show mixedFragment = _ from String.toList_ofList]
    decide +kernel
  obtain ⟨e, tree, holds⟩ := (Option.any_eq_true _ _).1 decided.1
  obtain ⟨stable, printed⟩ := Bool.and_eq_true_iff.1 holds
  have parsed : parseFragment mixedFragment = (some e, []) :=
    Prod.ext tree (List.isEmpty_iff.1 decided.2)
  exact ⟨e, parsed, beq_iff_eq.1 printed, parseFragment_print parsed stable⟩

end UiFormat.Markup

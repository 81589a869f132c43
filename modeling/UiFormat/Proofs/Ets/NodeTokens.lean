/-
# UiFormat.Proofs.Ets.NodeTokens -- the tokens that nodes stand for

`Laid` says how a stretch of tokens falls into pieces: blanks, separators, dropped
tokens, and for every node its own tokens with the comment that closes its last
line.  The span of a node is the place of its own tokens.

A layout is a list of pieces, so what holds of one piece goes over to the stretch by
induction, one piece at a time; the place is carried along, and where the tokens tile
a source the places of later pieces lie behind the places of earlier ones.
-/
import UiFormat.Ets.Parser
import UiFormat.Proofs.Ets.Tiling
import Mathlib.Data.List.TakeWhile

namespace UiFormat.Ets

open UiFormat.Text
open UiFormat.Parse

set_option autoImplicit false

/-! ## Nodes in place -/

/-- The members of a struct or class, exported or not. -/
def Node.body? (n : Node) : Option (List Node) :=
  match n.declared with
  | .structDecl _ _ members => some members
  | .classDecl _ _ _ members => some members
  | _ => none

@[simp] theorem around_withAround (a : Surroundings) (n : Node) : (n.withAround a).around = a := by
  cases n <;> rfl

@[simp] theorem body?_withAround (a : Surroundings) (n : Node) :
    (n.withAround a).body? = n.body? := by
  cases n with
  | exportDecl _ _ declaration => cases declaration <;> rfl
  | _ => rfl

/-- The tokens behind a node that belong to it: the comment that closes its last line,
if there is one. -/
inductive Trails (n : Node) : List Tok → Prop
  | nothing (none : n.around.trailingComment = none) : Trails n []
  | comment {blanks : List Tok} {t : Tok} (blank : ∀ b ∈ blanks, b.kind = .whitespace)
      (trailing : isTrailingComment t = true) (kept : n.around.trailingComment = some t.text) :
      Trails n (blanks ++ [t])

/-- The span of the node is the place of its own tokens. -/
def Spans (place : Nat) (own : List Tok) (n : Node) : Prop :=
  ∃ span, n.around.span = some span ∧ span.start = place ∧
    span.stop = place + (textOf own).length

/-- A node, its own tokens from `place` on, and the tokens behind them that belong to
it; `inside` relates the node to its own tokens. -/
structure Stands (inside : Nat → List Tok → Node → Prop) (place : Nat) (own trail : List Tok)
    (n : Node) : Prop where
  taken : own ≠ []
  spans : Spans place own n
  trails : Trails n trail
  holds : inside place own n

/-- What one piece of a stretch stands for: nothing, a dropped token, or a node. -/
inductive Piece (inside : Nat → List Tok → Node → Prop) (separators : List String) (place : Nat) :
    List Tok → Option Node → Option Tok → Prop
  | separator {t : Tok} (separates : isSymbolOf separators t = true) :
      Piece inside separators place [t] none none
  | dropped {t : Tok} (separates : isSymbolOf separators t = false) :
      Piece inside separators place [t] none (some t)
  | node {own trail : List Tok} {n : Node} (stands : Stands inside place own trail n) :
      Piece inside separators place (own ++ trail) (some n) none

/-- From `place` on, the tokens fall into blanks, separators, dropped tokens and the
tokens of the nodes. -/
inductive Laid (inside : Nat → List Tok → Node → Prop) (separators : List String) :
    Nat → List Tok → List Node → List Tok → Prop
  | done {place : Nat} : Laid inside separators place [] [] []
  | blank {place : Nat} {t : Tok} {later dropped : List Tok} {ns : List Node}
      (isBlank : isTriviaToken t = true)
      (rest : Laid inside separators (place + t.text.length) later ns dropped) :
      Laid inside separators place (t :: later) ns dropped
  | piece {place : Nat} {own later dropped : List Tok} {n? : Option Node} {t? : Option Tok}
      {ns : List Node} (here : Piece inside separators place own n? t?)
      (rest : Laid inside separators (place + (textOf own).length) later ns dropped) :
      Laid inside separators place (own ++ later) (n?.toList ++ ns) (t?.toList ++ dropped)

section

variable {inside : Nat → List Tok → Node → Prop} {separators : List String} {place : Nat}
  {ts : List Tok} {ns : List Node} {dropped : List Tok}

theorem Piece.ne_nil {own : List Tok} {n? : Option Node} {t? : Option Tok}
    (here : Piece inside separators place own n? t?) : own ≠ [] := by
  cases here with
  | separator => exact List.cons_ne_nil _ _
  | dropped => exact List.cons_ne_nil _ _
  | node stands => exact List.append_ne_nil_of_left_ne_nil stands.taken _

/-- Blanks in front of a stretch do not matter. -/
theorem Laid.blanks {blanks : List Tok} (blank : ∀ t ∈ blanks, isTriviaToken t = true)
    (laid : Laid inside separators (place + (textOf blanks).length) ts ns dropped) :
    Laid inside separators place (blanks ++ ts) ns dropped := by
  induction blanks generalizing place with
  | nil => exact laid
  | cons t blanks ih =>
      rw [List.forall_mem_cons] at blank
      refine .blank blank.1 (ih blank.2 ?_)
      rwa [textOf_cons, List.length_append, ← Nat.add_assoc] at laid

theorem Stands.withAround {own trail : List Tok} {n : Node} {a : Surroundings}
    (stable : ∀ place own n a, inside place own n → inside place own (n.withAround a))
    (span : a.span = n.around.span) (comment : a.trailingComment = n.around.trailingComment)
    (stands : Stands inside place own trail n) :
    Stands inside place own trail (n.withAround a) where
  taken := stands.taken
  spans := by
    obtain ⟨found, place, bounds⟩ := stands.spans
    exact ⟨found, by rw [around_withAround, span, place], bounds⟩
  trails := by
    cases stands.trails with
    | nothing none => exact .nothing (by rw [around_withAround, comment, none])
    | comment blank trailing kept =>
        exact .comment blank trailing (by rw [around_withAround, comment, kept])
  holds := stable _ _ _ _ stands.holds

/-- Whether a blank line stands before the first node does not matter. -/
theorem Laid.openSequence
    (stable : ∀ place own n a, inside place own n → inside place own (n.withAround a))
    (laid : Laid inside separators place ts ns dropped) :
    Laid inside separators place ts (openSequence ns) dropped := by
  induction laid with
  | done => exact .done
  | blank isBlank rest ih => exact .blank isBlank ih
  | piece here rest ih =>
      cases here with
      | separator separates => exact .piece (.separator separates) ih
      | dropped separates => exact .piece (.dropped separates) ih
      | @node own trail n stands =>
          have opened := stands.withAround (a := { n.around with blankBefore := false }) stable rfl rfl
          exact .piece (.node opened) rest

end

end UiFormat.Ets

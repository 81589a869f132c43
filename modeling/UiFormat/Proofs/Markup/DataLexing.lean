/-
# UiFormat.Proofs.Markup.DataLexing -- text and comments, read back

Between tags a text runs up to the next tag or interpolation, so it holds neither
a `<` nor two opening braces (`Plain`), and it does not end with a brace in front
of an interpolation (`Meets`).  Any such text is read back as one token in front of
anything it meets.  Collapsing blanks and trimming keep a text plain.

A comment runs to the first `-->`, wherever it stands.
-/
import UiFormat.Markup.Printer
import UiFormat.Proofs.Markup.Lexing
import UiFormat.Proofs.Text.Cut
import UiFormat.Proofs.Text.Squash
import Mathlib.Data.List.Chain

namespace UiFormat.Markup

open UiFormat.Text
open UiFormat.Parse

set_option autoImplicit false

/-! ## Text -/

/-- The characters do not open an interpolation together. -/
def Apart (a b : Char) : Prop :=
  ¬ (a = '{' ∧ b = '{')

/-- The text opens no tag and no interpolation. -/
def Plain (text : Text) : Prop :=
  (∀ c ∈ text, c ≠ '<') ∧ text.IsChain Apart

/-- What comes next opens a tag or an interpolation, or nothing comes next; a brace
at the end of the text is not taken for part of the mark. -/
def Meets (text next : Text) : Prop :=
  next = [] ∨ next.head? = some '<' ∨
    (startsWith next ['{', '{'] = true ∧ text.getLast? ≠ some '{')

theorem textLength_cons {c : Char} {rest : Text} (notTag : c ≠ '<')
    (notMark : ∀ d ∈ rest.head?, Apart c d) : textLength (c :: rest) = textLength rest + 1 := by
  have apart : (c = '{' && startsWith rest ['{']) = false := by
    cases rest with
    | nil => simp [startsWith]
    | cons d rest =>
        have notBoth := notMark d rfl
        by_cases brace : c = '{'
        · have other : '{' ≠ d := fun same => notBoth ⟨brace, same.symm⟩
          simp [startsWith, List.isPrefixOf, other]
        · simp [brace]
  rw [textLength, if_neg]
  simp [notTag, apart]

theorem textLength_of_meets {text next : Text} (meets : Meets text next) : textLength next = 0 := by
  rcases meets with rfl | isTag | ⟨isMark, -⟩
  · rfl
  · cases next with
    | nil => rfl
    | cons c next =>
        cases isTag
        rfl
  · match next, isMark with
    | [], isMark => cases isMark
    | [c], isMark => simp [startsWith, List.isPrefixOf] at isMark
    | c :: d :: next, isMark =>
        simp only [startsWith, List.isPrefixOf, Bool.and_eq_true, beq_iff_eq] at isMark
        obtain ⟨rfl, rfl, -⟩ := isMark
        rfl

theorem textLength_append {text next : Text} (plain : Plain text) (meets : Meets text next) :
    textLength (text ++ next) = text.length := by
  induction text with
  | nil => exact textLength_of_meets meets
  | cons c text ih =>
      obtain ⟨noTag, chain⟩ := plain
      rw [List.isChain_cons] at chain
      have later : Meets text next := by
        refine meets.imp id (Or.imp id (And.imp id ?_))
        intro last same
        refine last ?_
        rw [List.getLast?_cons, same]
        rfl
      have notMark : ∀ d ∈ (text ++ next).head?, Apart c d := by
        intro d first
        cases text with
        | cons e text => exact chain.1 d first
        | nil =>
            rintro ⟨rfl, rfl⟩
            rcases meets with rfl | isTag | ⟨-, last⟩
            · cases first
            · have first : next.head? = some '{' := first
              rw [isTag] at first
              cases first
            · exact last rfl
      rw [List.cons_append, textLength_cons (noTag c List.mem_cons_self) notMark, List.length_cons]
      exact congrArg (· + 1)
        (ih ⟨fun d member => noTag d (List.mem_cons_of_mem _ member), chain.2⟩ later)

/-- Text is read up to what it meets. -/
theorem plain_take_textLength (text : Text) :
    Plain (text.take (textLength text)) ∧
      Meets (text.take (textLength text)) (text.drop (textLength text)) := by
  induction text with
  | nil => exact ⟨⟨by simp, by simp⟩, .inl rfl⟩
  | cons c text ih =>
      by_cases stops : (c = '<' || (c = '{' && startsWith text ['{'])) = true
      · rw [textLength, if_pos stops]
        refine ⟨⟨by simp, by simp⟩, .inr ?_⟩
        simp only [Bool.or_eq_true, Bool.and_eq_true, decide_eq_true_eq] at stops
        rcases stops with rfl | ⟨rfl, brace⟩
        · exact .inl rfl
        · refine .inr ⟨?_, by simp⟩
          simpa [startsWith, List.isPrefixOf] using brace
      · rw [textLength, if_neg stops, List.take_succ_cons, List.drop_succ_cons]
        obtain ⟨⟨noTag, chain⟩, meets⟩ := ih
        simp only [Bool.or_eq_true, Bool.and_eq_true, decide_eq_true_eq, not_or, not_and] at stops
        have notMark : ∀ d ∈ text.head?, Apart c d := by
          rintro d first ⟨rfl, rfl⟩
          cases text with
          | nil => cases first
          | cons e text =>
              cases first
              exact stops.2 rfl (by simp [startsWith, List.isPrefixOf])
        have head : ∀ d ∈ (text.take (textLength text)).head?, Apart c d := by
          intro d first
          refine notMark d ?_
          cases text with
          | nil => cases first
          | cons e text =>
              cases length : textLength (e :: text) with
              | zero =>
                  rw [length] at first
                  cases first
              | succ n =>
                  rw [length] at first
                  exact first
        refine ⟨⟨List.forall_mem_cons.2 ⟨stops.1, noTag⟩, List.isChain_cons.2 ⟨head, chain⟩⟩, ?_⟩
        refine meets.imp id (Or.imp id ?_)
        rintro ⟨mark, last⟩
        refine ⟨mark, ?_⟩
        rw [List.getLast?_cons]
        cases inner : (text.take (textLength text)).getLast? with
        | some d =>
            rw [inner] at last
            simpa using last
        | none =>
            -- The character stands right in front of the mark.
            rintro same
            cases same
            have none := List.getLast?_eq_none_iff.1 inner
            have whole := List.take_append_drop (textLength text) text
            rw [none, List.nil_append] at whole
            rw [whole] at mark
            refine stops.2 rfl ?_
            cases text with
            | nil => cases mark
            | cons e text =>
                simp only [startsWith, List.isPrefixOf, Bool.and_eq_true, beq_iff_eq] at mark ⊢
                exact ⟨mark.1, trivial⟩

theorem lexes_text {t w : Text} (plain : Plain t) (some : t ≠ []) (meets : Meets t w) :
    Lexes [] t w [] (IsToken .text t) := by
  cases t with
  | nil => exact absurd rfl some
  | cons c r =>
      have length := textLength_append plain meets
      have notTag := plain.1 c List.mem_cons_self
      have notMark : (c = '{' && startsWith (r ++ w) ['{']) = false := by
        by_contra mark
        have zero : textLength (c :: (r ++ w)) = 0 := by
          rw [textLength, if_pos]
          rw [Bool.of_not_eq_false mark, Bool.or_true]
        rw [List.cons_append, zero] at length
        cases length
      rw [List.cons_append, textLength, if_neg (by simp [notTag, notMark]), List.length_cons] at length
      refine @lexes_token [] c r w .text .stay rfl ?_
      simp [Modes.current, Mode.lexeme, dataLexeme, notTag, notMark, Nat.succ.inj length]

/-! ## What stays plain -/

theorem Plain.left {a b : Text} (plain : Plain (a ++ b)) : Plain a :=
  ⟨fun c member => plain.1 c (List.mem_append_left _ member), (List.isChain_append.1 plain.2).1⟩

theorem Plain.right {a b : Text} (plain : Plain (a ++ b)) : Plain b :=
  ⟨fun c member => plain.1 c (List.mem_append_right _ member), (List.isChain_append.1 plain.2).2.1⟩

theorem plain_collapseBlanks {text : Text} (plain : Plain text) : Plain (collapseBlanks text) := by
  have noTag : ∀ {afterBlank : Bool} {text : Text}, (∀ c ∈ text, c ≠ '<') →
      ∀ c ∈ squeeze afterBlank text, c ≠ '<' := by
    intro afterBlank text none c member
    induction text generalizing afterBlank with
    | nil => cases member
    | cons d text ih =>
        have later := fun c inside => none c (List.mem_cons_of_mem d inside)
        cases blank : isBlank d with
        | true =>
            rw [squeeze_blank blank] at member
            cases afterBlank with
            | true => exact ih later member
            | false =>
                rcases List.mem_cons.1 member with rfl | member
                · decide
                · exact ih later member
        | false =>
            rw [squeeze_visible blank] at member
            rcases List.mem_cons.1 member with rfl | member
            · exact none c List.mem_cons_self
            · exact ih later member
  have chain : ∀ {afterBlank : Bool} {text : Text}, text.IsChain Apart →
      (squeeze afterBlank text).IsChain Apart := by
    intro afterBlank text chain
    induction text generalizing afterBlank with
    | nil => exact .nil
    | cons d text ih =>
        rw [List.isChain_cons] at chain
        cases blank : isBlank d with
        | true =>
            rw [squeeze_blank blank]
            cases afterBlank with
            | true => exact ih chain.2
            | false =>
                refine List.isChain_cons.2 ⟨?_, ih chain.2⟩
                rintro e - ⟨impossible, -⟩
                cases impossible
        | false =>
            rw [squeeze_visible blank]
            refine List.isChain_cons.2 ⟨?_, ih chain.2⟩
            rintro e first ⟨rfl, rfl⟩
            exact chain.1 _ (head?_squeeze first (by decide)) ⟨rfl, rfl⟩
  exact ⟨noTag plain.1, chain plain.2⟩

theorem plain_trimStart {text : Text} (plain : Plain text) : Plain (trimStart text) := by
  have split : text.takeWhile isBlank ++ trimStart text = text := List.takeWhile_append_dropWhile
  rw [← split] at plain
  exact plain.right

theorem plain_trimEnd {text : Text} (plain : Plain text) : Plain (trimEnd text) := by
  obtain ⟨tail, split, -⟩ := exists_dropEndWhile_append isBlank text
  rw [split] at plain
  exact plain.left

theorem plain_squash {text : Text} (plain : Plain text) : Plain (squash text) :=
  plain_trimEnd (plain_trimStart (plain_collapseBlanks plain))

/-- Blanks are plain wherever they stand. -/
theorem plain_blanks_append {blanks text : Text} (blank : Blanks blanks)
    (plain : Plain text) : Plain (blanks ++ text) := by
  induction blanks with
  | nil => exact plain
  | cons c blanks ih =>
      have isBlank := blank c List.mem_cons_self
      obtain ⟨noTag, chain⟩ := ih fun d member => blank d (List.mem_cons_of_mem _ member)
      refine ⟨List.forall_mem_cons.2 ⟨?_, noTag⟩, List.isChain_cons.2 ⟨?_, chain⟩⟩
      · rintro rfl
        revert isBlank
        decide
      · rintro d - ⟨rfl, -⟩
        revert isBlank
        decide

theorem plain_blanks {blanks : Text} (blank : Blanks blanks) : Plain blanks := by
  have after := plain_blanks_append blank ⟨by simp, .nil⟩
  rwa [List.append_nil] at after

theorem plain_append_blanks {text blanks : Text} (plain : Plain text) (blank : Blanks blanks) :
    Plain (text ++ blanks) := by
  obtain ⟨noTag, chain⟩ := plain_blanks blank
  refine ⟨List.forall_mem_append.2 ⟨plain.1, noTag⟩, List.isChain_append.2 ⟨plain.2, chain, ?_⟩⟩
  rintro c - d first ⟨-, rfl⟩
  have isBlank := blank _ (List.mem_of_mem_head? first)
  revert isBlank
  decide

/-! ## Comments -/

/-- The text can be the body of a comment: its end is the first one. -/
def IsCommentBody (body : Text) : Prop :=
  ∀ w, cut? "-->".toList (body ++ ("-->".toList ++ w)) = some (body, w)

theorem isCommentBody_of_cut? {body rest text : Text}
    (found : cut? "-->".toList text = some (body, rest)) : IsCommentBody body := by
  have split := cut?_eq_some found
  rw [split] at found
  exact cut?_append found

/-- A comment that was never closed can be closed. -/
theorem isCommentBody_of_none {body : Text} (none : cut? "-->".toList body = none) :
    IsCommentBody body := by
  intro w
  induction body with
  | nil => exact cut?_front _ w
  | cons c body ih =>
      rw [cut?] at none
      split at none
      · cases none
      · rename_i absent
        have later := ih (Option.map_eq_none_iff.1 none)
        -- The end of the mark cannot stand where the mark begins.
        have still : after? "-->".toList (c :: (body ++ ("-->".toList ++ w))) = Option.none := by
          cases body with
          | nil => simp [after?]
          | cons d body =>
              cases body with
              | nil => simp [after?]
              | cons e body =>
                  have long : "-->".toList.length ≤ (c :: d :: e :: body).length := by simp
                  exact after?_append_eq_none long absent ("-->".toList ++ w)
        rw [List.cons_append, cut?, still, later]
        rfl

theorem lexes_comment {body w : Text} (isBody : IsCommentBody body) :
    Lexes [] (printComment body) w [] (IsToken .comment body) := by
  have found : cut? "-->".toList (body ++ ("-->".toList ++ w)) = some (body, w) := isBody w
  have shape : printComment body = '<' :: ("!--".toList ++ (body ++ "-->".toList)) := by
    rw [printComment, List.append_assoc]
    rfl
  have here : dataLexeme '<' ("!--".toList ++ (body ++ "-->".toList) ++ w) =
      { kind := .comment, extra := ("!--".toList ++ (body ++ "-->".toList)).length } := by
    have opens : startsWith ("!--".toList ++ (body ++ "-->".toList) ++ w) "!--".toList = true := rfl
    have inside : ("!--".toList ++ (body ++ "-->".toList) ++ w).drop 3 =
        body ++ ("-->".toList ++ w) := by
      show (body ++ "-->".toList) ++ w = _
      exact List.append_assoc _ _ _
    have length : ("!--".toList ++ (body ++ "-->".toList)).length = body.length + 3 + 3 := by
      simp only [List.length_append, String.length_toList]
      exact Nat.add_comm _ _
    rw [dataLexeme, opens, if_pos rfl, inside, lengthThrough, found, length]
    rfl
  have lexes := @lexes_token [] '<' ("!--".toList ++ (body ++ "-->".toList)) w .comment .stay rfl here
  have text : tokenText .comment ('<' :: ("!--".toList ++ (body ++ "-->".toList))) = body := by
    have inside : ('<' :: ("!--".toList ++ (body ++ "-->".toList))).drop 4 =
        body ++ ("-->".toList ++ []) := by
      rw [List.append_nil]
      rfl
    rw [tokenText, inside, isBody []]
  rw [shape]
  rwa [text] at lexes

end UiFormat.Markup

/-
# UiFormat.Proofs.Ets.TokenCuts -- a text read piece by piece

`TokensOf tokens text` says that the tokens are those of the text, wherever it stands in a
source.  Characters that no literal, comment or regular expression opens with are read up to
the next quote or bracket, and the tokens fall apart there (`TokensOf.cut`); a string is one
token, and so is a comment that closes a line: read again, with the end of a line behind it, it
is the same token (`TokensOf.comment`).  Only a block comment that is never closed is not: it
takes in what is behind it.
-/
import UiFormat.Proofs.Ets.BracketMatching
import UiFormat.Proofs.Ets.ReflowedTokens
import UiFormat.Proofs.Ets.Wording

namespace UiFormat.Ets

open UiFormat.Text
open UiFormat.Parse

set_option autoImplicit false

/-! ## Tokens of a text -/

/-- The tokens are those of the text, wherever it stands. -/
def TokensOf (tokens : List Tok) (text : Text) : Prop :=
  ∃ p operandBefore, tokens = tokensFrom p operandBefore text

section

variable {tokens : List Tok} {text rest : Text} {c : Char}

theorem tokensOf_lexemes (source : Text) : TokensOf (lexemes source) source :=
  ⟨_, _, rfl⟩

theorem TokensOf.textOf_eq (of : TokensOf tokens text) : textOf tokens = text := by
  obtain ⟨p, operandBefore, rfl⟩ := of
  exact (tiles_tokensFrom p operandBefore text).2.1

theorem TokensOf.suffix (of : TokensOf tokens text) {later : List Tok} (suffix : later <:+ tokens) :
    TokensOf later (textOf later) := by
  obtain ⟨p, operandBefore, rfl⟩ := of
  exact eq_tokensFrom_of_suffix suffix

theorem TokensOf.eq_nil (of : TokensOf tokens []) : tokens = [] := by
  obtain ⟨p, operandBefore, rfl⟩ := of
  rw [tokensFrom]

/-- The first token is what the lexer finds at the front. -/
theorem TokensOf.first (of : TokensOf tokens (c :: rest)) :
    ∃ operandBefore t later, tokens = t :: later ∧ t.kind = (lexeme operandBefore c rest).1 ∧
      t.text = c :: rest.take (lexeme operandBefore c rest).2 ∧
      TokensOf later (rest.drop (lexeme operandBefore c rest).2) := by
  obtain ⟨p, operandBefore, rfl⟩ := of
  exact ⟨operandBefore, _, _, tokensFrom_cons rfl p, rfl, rfl, _, _, rfl⟩

/-- A token that does not depend on what stands before it. -/
theorem TokensOf.token {kind : Kind} {x w : Text} (of : TokensOf tokens (c :: (x ++ w)))
    (here : ∀ operandBefore, lexeme operandBefore c (x ++ w) = (kind, x.length)) :
    ∃ t later, tokens = t :: later ∧ t.kind = kind ∧ t.text = c :: x ∧ TokensOf later w := by
  obtain ⟨operandBefore, t, later, split, isKind, spelled, behind⟩ := of.first
  rw [here operandBefore] at isKind spelled behind
  rw [List.take_left] at spelled
  rw [List.drop_left] at behind
  exact ⟨t, later, split, isKind, spelled, behind⟩

/-- Every token is what the lexer finds somewhere. -/
theorem TokensOf.exists_lexeme (of : TokensOf tokens text) {t : Tok} (member : t ∈ tokens) :
    ∃ operandBefore c rest, t.kind = (lexeme operandBefore c rest).1 ∧
      t.text = c :: rest.take (lexeme operandBefore c rest).2 := by
  obtain ⟨front, after, split⟩ := List.append_of_mem member
  have here := of.suffix ⟨front, split.symm⟩
  obtain ⟨d, more, opened⟩ : ∃ d more, textOf (t :: after) = d :: more := by
    cases whole : textOf (t :: after) with
    | nil =>
        rw [whole] at here
        cases here.eq_nil
    | cons d more => exact ⟨d, more, rfl⟩
  rw [opened] at here
  obtain ⟨operandBefore, u, later, same, isKind, spelled, -⟩ := here.first
  obtain ⟨rfl, -⟩ := List.cons.inj same
  exact ⟨operandBefore, d, more, isKind, spelled⟩

end

/-! ## Cuts -/

/-- Line breaks open with a break, comments and regular expressions with a slash. -/
theorem opening_of_lexeme (operandBefore : Bool) (c : Char) (rest : Text) :
    ((lexeme operandBefore c rest).1 = .newline → isBreak c = true) ∧
    ((lexeme operandBefore c rest).1.isComment = true ∨ (lexeme operandBefore c rest).1 = .regexp →
      c = '/') := by
  have ofSymbol : ∀ {kind : Kind}, kind = .operator ∨ kind = .punctuator →
      (kind = .newline → isBreak c = true) ∧ (kind.isComment = true ∨ kind = .regexp → c = '/') := by
    rintro kind (rfl | rfl) <;> simp [Kind.isComment]
  fun_cases lexeme operandBefore c rest with
  | case1 isBreak => exact ⟨fun _ => by rw [isBreak]; rfl, by simp [Kind.isComment]⟩
  | case2 _ isBreak => exact ⟨fun _ => by rw [isBreak]; rfl, by simp [Kind.isComment]⟩
  | case4 _ _ _ opens => exact ⟨by simp, fun _ => by simpa using (Bool.and_eq_true_iff.1 opens).1⟩
  | case5 _ _ _ _ opens isDoc =>
      refine ⟨fun impossible => ?_, fun _ => by simpa using (Bool.and_eq_true_iff.1 opens).1⟩
      dsimp only at impossible
      split at impossible <;> cases impossible
  | case10 => dsimp only; split <;> simp [Kind.isComment]
  | case11 =>
      fun_cases slash operandBefore rest with
      | case1 => exact ⟨by simp, fun _ => by assumption⟩
      | case2 => exact ofSymbol (symbol_kind '/' rest)
  | case12 => exact ofSymbol (symbol_kind c rest)
  | _ => simp [Kind.isComment]


section

variable {tokens : List Tok} {opening closing : Char}

/-- Characters that are passed are read for themselves in front of one that is not: the tokens
fall apart there. -/
theorem TokensOf.cut (pair : IsPair opening closing) {x rest : Text} {mark : Char}
    (passed : ∀ c ∈ x, isPassed opening closing c = true) (noSlash : '/' ∉ x)
    (stops : isPassed opening closing mark = false) (of : TokensOf tokens (x ++ mark :: rest)) :
    ∃ front later, tokens = front ++ later ∧ textOf front = x ∧ TokensOf later (mark :: rest) := by
  induction size : x.length using Nat.strong_induction_on generalizing x tokens with
  | _ n ih =>
    cases x with
    | nil => exact ⟨[], tokens, rfl, rfl, of⟩
    | cons c x =>
        rw [List.forall_mem_cons] at passed
        rw [List.mem_cons, not_or] at noSlash
        rw [List.cons_append] at of
        obtain ⟨operandBefore, t, later, rfl, -, spelled, behind⟩ := of.first
        have kinds := (opening_of_lexeme operandBefore c (x ++ mark :: rest)).2
        have noLiteral : opensLiteral c = false := by
          have here := passed.1
          simp only [isPassed, Bool.and_eq_true, Bool.not_eq_true'] at here
          exact here.2
        have inside := passed_of_lexeme pair noLiteral
          (by_contra fun comment => noSlash.1 (kinds (.inl (by simpa using comment))).symm)
          fun regexp => noSlash.1 (kinds (.inr regexp)).symm
        have clear : Clear (isPassed opening closing) (mark :: rest) := fun d first => by
          cases first
          exact stops
        obtain ⟨taken, left⟩ := take_append_of_clear clear inside
        rw [taken] at spelled
        rw [left] at behind
        generalize (lexeme operandBefore c (x ++ mark :: rest)).2 = extra at spelled behind
        have shorter : (x.drop extra).length < n := by
          rw [← size, List.length_drop, List.length_cons]
          omega
        obtain ⟨front, after, rfl, covers, ends⟩ := ih _ shorter
          (fun d member => passed.2 d (List.mem_of_mem_drop member))
          (fun member => noSlash.2 (List.mem_of_mem_drop member)) behind rfl
        refine ⟨t :: front, after, rfl, ?_, ends⟩
        rw [textOf_cons, covers, spelled, List.cons_append, List.take_append_drop]

end

/-! ## Comments -/

/-- Only the front of a text that is long enough tells how it opens. -/
theorem startsWith_append {text opening : Text} (long : opening.length ≤ text.length) (w : Text) :
    startsWith (text ++ w) opening = startsWith text opening := by
  rw [Bool.eq_iff_iff, startsWith, startsWith, List.isPrefixOf_iff_prefix, List.isPrefixOf_iff_prefix]
  exact ⟨fun whole => List.prefix_of_prefix_length_le whole (List.prefix_append text w) long,
    fun front => front.trans (List.prefix_append text w)⟩

/-- What follows the slash of a comment makes it a doc comment. -/
def opensDoc (text : Text) : Bool :=
  startsWith text "**".toList && !startsWith text "**/".toList

theorem opensDoc_append {text : Text} (long : 3 ≤ text.length) (w : Text) :
    opensDoc (text ++ w) = opensDoc text := by
  have stars : "**".toList.length ≤ text.length := Nat.le_of_succ_le long
  have closes : "**/".toList.length ≤ text.length := long
  rw [opensDoc, opensDoc, startsWith_append stars, startsWith_append closes]

/-- A comment that can close a line: one that ends with the line, or one between marks. -/
inductive LineComment : Text → Prop
  | line {text : Text} (oneLine : ∀ c ∈ text, isBreak c = false) : LineComment ('/' :: '/' :: text)
  | block {text : Text} (oneLine : ∀ c ∈ text, isBreak c = false)
      (first : cut? "*/".toList (text ++ "*/".toList) = some (text, []))
      (noDoc : opensDoc ('*' :: (text ++ "*/".toList)) = false) :
      LineComment ('/' :: '*' :: (text ++ "*/".toList))

theorem lexeme_lineComment (operandBefore : Bool) (rest : Text) :
    lexeme operandBefore '/' ('/' :: rest) = (.comment, runLength (!isBreak ·) ('/' :: rest)) :=
  rfl

theorem lexeme_blockComment (operandBefore : Bool) (rest : Text) :
    lexeme operandBefore '/' ('*' :: rest) =
      (if opensDoc ('*' :: rest) then .docComment else .blockComment,
        lengthThrough "*/".toList rest + 1) :=
  rfl

/-- What a comment is that the lexer finds, doc comments apart. -/
theorem comment_of_lexeme {operandBefore : Bool} {c : Char} {rest : Text}
    (isComment : (lexeme operandBefore c rest).1 = .comment ∨ (lexeme operandBefore c rest).1 = .blockComment) :
    ∃ behind, c = '/' ∧ (rest = '/' :: behind ∨ rest = '*' :: behind) := by
  have ofSymbol : ∀ {kind : Kind}, kind = .operator ∨ kind = .punctuator →
      ¬ (kind = .comment ∨ kind = .blockComment) := by
    rintro kind (rfl | rfl) <;> simp
  revert isComment
  fun_cases lexeme operandBefore c rest with
  | case4 _ _ _ opens =>
      intro _
      obtain ⟨isSlash, marked⟩ := Bool.and_eq_true_iff.1 opens
      obtain ⟨behind, rfl⟩ := List.isPrefixOf_iff_prefix.1 marked
      exact ⟨behind, by simpa using isSlash, .inl rfl⟩
  | case5 _ _ _ _ opens =>
      intro _
      obtain ⟨isSlash, marked⟩ := Bool.and_eq_true_iff.1 opens
      obtain ⟨behind, rfl⟩ := List.isPrefixOf_iff_prefix.1 marked
      exact ⟨behind, by simpa using isSlash, .inr rfl⟩
  | case10 => dsimp only; split <;> simp
  | case11 =>
      fun_cases slash operandBefore rest with
      | case1 => simp
      | case2 => exact fun same => absurd same (ofSymbol (symbol_kind '/' rest))
  | case12 => exact fun same => absurd same (ofSymbol (symbol_kind c rest))
  | _ => simp

/-- The text of a comment is over with it: a block comment is closed. -/
def isClosedComment (text : Text) : Bool :=
  !startsWith text "/*".toList || includes (text.drop 2) "*/".toList

/-- A token that closes a line as its comment is written as such a comment, if it is closed. -/
theorem TokensOf.lineComment {tokens : List Tok} {text : Text} (of : TokensOf tokens text) {t : Tok}
    (member : t ∈ tokens) (trailing : isTrailingComment t = true) (closed : isClosedComment t.text = true) :
    LineComment t.text := by
  obtain ⟨operandBefore, c, rest, isKind, spelled⟩ := of.exists_lexeme member
  rw [isTrailingComment, Bool.or_eq_true, Bool.and_eq_true, beq_iff_eq, beq_iff_eq] at trailing
  have opens : (lexeme operandBefore c rest).1 = .comment ∨ (lexeme operandBefore c rest).1 = .blockComment := by
    rw [← isKind]
    exact trailing.imp id And.left
  obtain ⟨behind, rfl, rfl | rfl⟩ := comment_of_lexeme opens
  · rw [lexeme_lineComment, take_runLength, List.takeWhile_cons_of_pos (by decide)] at spelled
    rw [spelled]
    exact .line fun d member => by simpa using List.mem_takeWhile_imp member
  · rw [lexeme_blockComment] at isKind spelled
    rw [List.take_succ_cons] at spelled
    have noDoc : opensDoc ('*' :: behind) = false := by
      cases isDoc : opensDoc ('*' :: behind) with
      | false => rfl
      | true =>
          rw [isDoc] at isKind
          rw [isKind] at trailing
          simp at trailing
    have oneLine : ∀ c ∈ t.text, isBreak c = false := by
      rw [noDoc] at isKind
      rw [isKind] at trailing
      simpa using trailing
    rw [spelled] at closed oneLine ⊢
    have includesEnd : includes (behind.take (lengthThrough "*/".toList behind)) "*/".toList = true := closed
    rw [includes] at includesEnd
    cases found : cut? "*/".toList behind with
    | none =>
        rw [lengthThrough, found, List.take_length, found] at includesEnd
        cases includesEnd
    | some pair =>
        obtain ⟨before, after⟩ := pair
        obtain rfl := cut?_eq_some found
        have taken : (before ++ ("*/".toList ++ after)).take
            (lengthThrough "*/".toList (before ++ ("*/".toList ++ after))) = before ++ "*/".toList := by
          rw [lengthThrough, found, ← List.append_assoc]
          exact List.take_left' (by simp)
        have first := cut?_append found []
        rw [List.append_nil] at first
        rw [taken] at oneLine ⊢
        refine .block (fun d inside => oneLine d (by simp [inside])) first ?_
        have long : 3 ≤ ('*' :: (before ++ "*/".toList)).length := by simp
        rw [← opensDoc_append long after]
        simpa using noDoc

/-- A comment that closes a line is read as one again where a line ends behind it. -/
theorem TokensOf.comment {tokens : List Tok} {comment : Text} (isComment : LineComment comment)
    (of : TokensOf tokens (comment ++ ['\n'])) :
    ∃ t later, tokens = t :: later ∧ isTrailingComment t = true ∧ t.text = comment ∧
      TokensOf later ['\n'] := by
  cases isComment with
  | @line text oneLine =>
      have here : ∀ operandBefore, lexeme operandBefore '/' (('/' :: text) ++ ['\n']) =
          (.comment, ('/' :: text).length) := by
        intro operandBefore
        rw [List.cons_append, lexeme_lineComment]
        have all : ∀ c ∈ '/' :: text, (!isBreak c) = true :=
          List.forall_mem_cons.2 ⟨rfl, fun c member => by simp [oneLine c member]⟩
        have clear : Clear (!isBreak ·) ['\n'] := fun c first => by
          cases first
          rfl
        exact congrArg (Prod.mk Kind.comment) (runLength_append all clear)
      obtain ⟨t, later, split, isKind, spelled, behind⟩ := TokensOf.token of here
      exact ⟨t, later, split, by rw [isTrailingComment, isKind]; rfl, spelled, behind⟩
  | @block text oneLine first noDoc =>
      have here : ∀ operandBefore, lexeme operandBefore '/' (('*' :: (text ++ "*/".toList)) ++ ['\n']) =
          (.blockComment, ('*' :: (text ++ "*/".toList)).length) := by
        intro operandBefore
        have long : 3 ≤ ('*' :: (text ++ "*/".toList)).length := by simp
        rw [← List.append_nil (text ++ _), List.append_assoc] at first
        have ends := cut?_append first ['\n']
        have noDoc' := opensDoc_append long ['\n']
        rw [noDoc, List.cons_append] at noDoc'
        rw [List.cons_append, lexeme_blockComment, noDoc', lengthThrough, List.append_assoc, ends]
        simp
      obtain ⟨t, later, split, isKind, spelled, behind⟩ := TokensOf.token of here
      have noBreak : t.text.any isBreak = false := by
        have closing : ∀ c ∈ "*/".toList, isBreak c = false := forall_mem_of_all (by decide)
        have all : ∀ c ∈ '/' :: '*' :: (text ++ "*/".toList), isBreak c = false :=
          List.forall_mem_cons.2 ⟨rfl, List.forall_mem_cons.2 ⟨rfl, List.forall_mem_append.2 ⟨oneLine, closing⟩⟩⟩
        rw [spelled, List.any_eq_false]
        exact fun c member => by simp [all c member]
      exact ⟨t, later, split, by rw [isTrailingComment, isKind, noBreak]; rfl, spelled, behind⟩

end UiFormat.Ets

/-
# UiFormat.Proofs.Ets.Tiling -- the tokens of ETS source tile it

`Tiles place tokens` says that the tokens lie one behind the other from the offset
`place` on, each as long as its text and none empty.  Offsets are then lengths of
text: in a tiling that is cut in two, the second part starts as far behind the
first as the first has characters (`tiles_append`), and the text of every token is
the slice of the whole between its two offsets (`Tiles.slice`).

The lexer tiles because each of its steps takes the front of what is left and puts
the next token where that front ends (`tiles_tokensFrom`).  No scanner can break
this: a token has the character it was chosen by, and the position moves on by
exactly its text (`offset_pastLines`).

Main statement: `tokenize_lossless`.
-/
import UiFormat.Ets.Token
import UiFormat.Parse.State
import Mathlib.Data.List.Basic

namespace UiFormat.Ets

open UiFormat.Text
open UiFormat.Parse

set_option autoImplicit false

/-! ## Offsets -/

/-- Going past a text moves the offset by its length, however its lines end. -/
theorem offset_pastLines (p : Position) (text : Text) :
    (p.pastLines text).offset = p.offset + text.length := by
  fun_induction Position.pastLines p text with
  | case1 p => rfl
  | case2 p text ih => rw [ih]; simp only [Position.nextLine, List.length_cons]; omega
  | case3 p text _ ih => rw [ih]; simp only [Position.nextLine, List.length_cons]; omega
  | case4 p text ih => rw [ih]; simp only [Position.nextLine, List.length_cons]; omega
  | case5 p c text _ _ _ ih => rw [ih]; simp only [Position.nextColumn, List.length_cons]; omega

/-! ## Tilings -/

/-- The tokens lie one behind the other from `place` on, and none is empty. -/
def Tiles (place : Nat) : List Tok → Prop
  | [] => True
  | t :: tokens =>
      t.start = place ∧ t.stop = place + t.text.length ∧ t.text ≠ [] ∧ Tiles t.stop tokens

@[simp] theorem textOf_nil : textOf ([] : List Tok) = [] := rfl

@[simp] theorem textOf_cons (t : Tok) (tokens : List Tok) :
    textOf (t :: tokens) = t.text ++ textOf tokens := rfl

@[simp] theorem textOf_append (front back : List Tok) :
    textOf (front ++ back) = textOf front ++ textOf back :=
  List.flatMap_append

/-- A tiling may be cut anywhere. -/
theorem tiles_append {place : Nat} {front back : List Tok} :
    Tiles place (front ++ back) ↔
      Tiles place front ∧ Tiles (place + (textOf front).length) back := by
  induction front generalizing place with
  | nil => simp [Tiles]
  | cons t front ih =>
      simp only [List.cons_append, Tiles, ih, textOf_cons, List.length_append]
      constructor
      · rintro ⟨starts, stops, some, first, second⟩
        refine ⟨⟨starts, stops, some, first⟩, ?_⟩
        rwa [stops, Nat.add_assoc] at second
      · rintro ⟨⟨starts, stops, some, first⟩, second⟩
        refine ⟨starts, stops, some, first, ?_⟩
        rwa [stops, Nat.add_assoc]

/-- A token starts as far behind the first as there is text in front of it. -/
theorem Tiles.start_eq {place : Nat} {front back : List Tok} {t : Tok}
    (tiles : Tiles place (front ++ t :: back)) : t.start = place + (textOf front).length :=
  (tiles_append.1 tiles).2.1

theorem Tiles.stop_eq {place : Nat} {front back : List Tok} {t : Tok}
    (tiles : Tiles place (front ++ t :: back)) : t.stop = t.start + t.text.length := by
  obtain ⟨starts, stops, -⟩ := (tiles_append.1 tiles).2
  rw [stops, starts]

theorem Tiles.text_ne_nil {place : Nat} {tokens : List Tok} (tiles : Tiles place tokens)
    {t : Tok} (member : t ∈ tokens) : t.text ≠ [] := by
  obtain ⟨front, back, rfl⟩ := List.append_of_mem member
  exact (tiles_append.1 tiles).2.2.2.1

/-- A token of a tiling lies inside it. -/
theorem Tiles.within {place : Nat} {tokens : List Tok} (tiles : Tiles place tokens) {t : Tok}
    (member : t ∈ tokens) :
    place ≤ t.start ∧ t.start < t.stop ∧ t.stop ≤ place + (textOf tokens).length := by
  obtain ⟨front, back, rfl⟩ := List.append_of_mem member
  have start := tiles.start_eq
  have stop := tiles.stop_eq
  have some := List.length_pos_of_ne_nil (tiles.text_ne_nil member)
  simp only [textOf_append, textOf_cons, List.length_append]
  omega

/-- No place lies inside two tokens of a tiling. -/
theorem Tiles.eq_of_inside {place n : Nat} {tokens : List Tok} (tiles : Tiles place tokens) {t u : Tok}
    (member : t ∈ tokens) (other : u ∈ tokens) (insideT : t.start < n ∧ n ≤ t.stop)
    (insideU : u.start < n ∧ n ≤ u.stop) : u = t := by
  obtain ⟨front, back, rfl⟩ := List.append_of_mem member
  obtain ⟨before, starts, stops, -, behind⟩ := tiles_append.1 tiles
  rcases List.mem_append.1 other with inFront | inRest
  · have bounds := before.within inFront
    omega
  · rcases List.mem_cons.1 inRest with same | inBack
    · exact same
    · have bounds := behind.within inBack
      omega

/-- The tokens of a part of a tiling are those that lie between its two ends. -/
theorem Tiles.filter_between {place : Nat} {front own back : List Tok}
    (tiles : Tiles place (front ++ (own ++ back))) {p : Tok → Bool}
    (between : ∀ t, p t = true ↔ place + (textOf front).length ≤ t.start ∧
      t.stop ≤ place + (textOf front).length + (textOf own).length) :
    (front ++ (own ++ back)).filter p = own := by
  obtain ⟨before, later⟩ := tiles_append.1 tiles
  obtain ⟨inside, behind⟩ := tiles_append.1 later
  have none : front.filter p = [] := by
    refine List.filter_eq_nil_iff.2 fun t member holds => ?_
    have bounds := before.within member
    have found := (between t).1 holds
    omega
  have all : own.filter p = own := by
    refine List.filter_eq_self.2 fun t member => ?_
    have bounds := inside.within member
    exact (between t).2 ⟨bounds.1, bounds.2.2⟩
  have noneBehind : back.filter p = [] := by
    refine List.filter_eq_nil_iff.2 fun t member holds => ?_
    have bounds := behind.within member
    have found := (between t).1 holds
    omega
  rw [List.filter_append, List.filter_append, none, all, noneBehind, List.nil_append,
    List.append_nil]

/-- The text of a token is what the whole text has between its two offsets. -/
theorem Tiles.slice {tokens : List Tok} (tiles : Tiles 0 tokens) {t : Tok} (member : t ∈ tokens) :
    ((textOf tokens).take t.stop).drop t.start = t.text := by
  obtain ⟨front, back, rfl⟩ := List.append_of_mem member
  have start : t.start = (textOf front).length := by simpa using tiles.start_eq
  have split : textOf (front ++ t :: back) = (textOf front ++ t.text) ++ textOf back := by simp
  rw [split, tiles.stop_eq, start, ← List.length_append, List.take_left, List.drop_left]

/-- Each token of a tiling starts where the one before it stops, and so does what
stands at its end. -/
theorem Tiles.chain {place : Nat} {tokens : List Tok} {last : Tok} (tiles : Tiles place tokens)
    (ends : last.start = place + (textOf tokens).length) :
    (tokens ++ [last]).IsChain fun t u => t.stop = u.start := by
  induction tokens generalizing place with
  | nil => exact .singleton last
  | cons t tokens ih =>
      obtain ⟨starts, stops, some, later⟩ := tiles
      have chain := ih later (by rw [ends, stops, textOf_cons, List.length_append]; omega)
      cases tokens with
      | nil =>
          refine .cons_cons ?_ chain
          rw [ends, stops]
          simp
      | cons u tokens => exact .cons_cons later.1.symm chain

/-! ## The lexer -/

theorem symbol_kind (c : Char) (rest : Text) :
    (symbol c rest).1 = .operator ∨ (symbol c rest).1 = .punctuator := by
  fun_cases symbol c rest <;> simp

theorem symbol_ne_eof (c : Char) (rest : Text) : (symbol c rest).1 ≠ .eof := by
  rcases symbol_kind c rest with same | same <;> simp [same]

theorem slash_ne_eof (operandBefore : Bool) (rest : Text) : (slash operandBefore rest).1 ≠ .eof := by
  fun_cases slash operandBefore rest with
  | case1 => simp
  | case2 => exact symbol_ne_eof _ _

/-- No character begins the closing token. -/
theorem lexeme_ne_eof (operandBefore : Bool) (c : Char) (rest : Text) :
    (lexeme operandBefore c rest).1 ≠ .eof := by
  fun_cases lexeme operandBefore c rest with
  | case5 _ _ _ _ _ isDoc => cases isDoc <;> simp
  | case10 => dsimp only; split <;> simp
  | case11 => exact slash_ne_eof _ _
  | case12 => exact symbol_ne_eof _ _
  | _ => simp

/-- How a template literal and a doc comment begin, and how far they reach. -/
theorem lexeme_spans (operandBefore : Bool) (c : Char) (rest : Text) :
    ((lexeme operandBefore c rest).1 = .template →
      c = '\x60' ∧ (lexeme operandBefore c rest).2 = templateExtent 0 rest) ∧
    ((lexeme operandBefore c rest).1 = .docComment →
      rest ≠ [] ∧ (lexeme operandBefore c rest).2 = lengthThrough "*/".toList (rest.drop 1) + 1) := by
  fun_cases lexeme operandBefore c rest with
  | case5 _ _ _ _ opens isDoc =>
      refine ⟨fun impossible => ?_, fun _ => ⟨?_, rfl⟩⟩
      · dsimp only at impossible
        split at impossible <;> cases impossible
      · rintro rfl
        simp [startsWith, List.isPrefixOf] at opens
  | case8 _ _ _ _ _ _ _ isBack => exact ⟨fun _ => ⟨isBack, rfl⟩, fun impossible => by cases impossible⟩
  | case10 => dsimp only; split <;> simp
  | case11 =>
      fun_cases slash operandBefore rest with
      | case1 => simp
      | case2 => rcases symbol_kind '/' rest with same | same <;> simp [same]
  | case12 => rcases symbol_kind c rest with same | same <;> simp [same]
  | _ => simp

/-- The lexer puts each token where the one before it ends, until nothing is
left. -/
theorem tiles_tokensFrom (p : Position) (operandBefore : Bool) (source : Text) :
    Tiles p.offset (tokensFrom p operandBefore source) ∧
      textOf (tokensFrom p operandBefore source) = source ∧
      ∀ t ∈ tokensFrom p operandBefore source, t.kind ≠ .eof := by
  fun_induction tokensFrom p operandBefore source with
  | case1 p operandBefore => exact ⟨trivial, rfl, by simp⟩
  | case2 p operandBefore c rest kind extra here text operand ih =>
      obtain ⟨tiles, covers, kinds⟩ := ih
      rw [offset_pastLines] at tiles
      refine ⟨⟨rfl, rfl, by simp [Token.at, text], tiles⟩, ?_, ?_⟩
      · rw [textOf_cons, covers]
        exact congrArg (c :: ·) (List.take_append_drop extra rest)
      · rw [List.forall_mem_cons]
        refine ⟨?_, kinds⟩
        have notEnd := lexeme_ne_eof operandBefore c rest
        rwa [here] at notEnd

theorem tiles_lexemes (source : Text) : Tiles 0 (lexemes source) :=
  (tiles_tokensFrom .start false source).1

@[simp] theorem textOf_lexemes (source : Text) : textOf (lexemes source) = source :=
  (tiles_tokensFrom .start false source).2.1

theorem kind_ne_eof_of_mem {source : Text} {t : Tok} (member : t ∈ lexemes source) : t.kind ≠ .eof :=
  (tiles_tokensFrom .start false source).2.2 t member

theorem start_endToken (source : Text) : (endToken source).start = source.length := by
  simp [endToken, Token.at, offset_pastLines, Position.start]

theorem stop_endToken (source : Text) : (endToken source).stop = source.length :=
  start_endToken source

/-- The tokens from any one of them on are the tokens of the text from there on. -/
theorem eq_tokensFrom_of_suffix {p : Position} {operandBefore : Bool} {text : Text}
    {tokens : List Tok} (suffix : tokens <:+ tokensFrom p operandBefore text) :
    ∃ q operand, tokens = tokensFrom q operand (textOf tokens) := by
  fun_induction tokensFrom p operandBefore text with
  | case1 p operandBefore =>
      obtain rfl := List.suffix_nil.1 suffix
      exact ⟨p, operandBefore, by rw [textOf_nil, tokensFrom]⟩
  | case2 p operandBefore c rest kind extra here text operand ih =>
      rcases List.suffix_cons_iff.1 suffix with whole | later
      · have unfolded : tokens = tokensFrom p operandBefore (c :: rest) := by
          rw [whole, tokensFrom, here]
          rfl
        refine ⟨p, operandBefore, ?_⟩
        rw [unfolded, (tiles_tokensFrom p operandBefore (c :: rest)).2.1]
      · exact ih later

/-- The text from a token on is what the source has from its offset on. -/
theorem textOf_suffix {source : Text} {t : Tok} {after : List Tok}
    (suffix : t :: after <:+ lexemes source) : textOf (t :: after) = source.drop t.start := by
  obtain ⟨front, whole⟩ := suffix
  have tiles := tiles_lexemes source
  rw [← whole] at tiles
  have start : t.start = (textOf front).length := by simpa using tiles.start_eq
  have split : source = textOf front ++ textOf (t :: after) := by
    rw [← textOf_append, whole, textOf_lexemes]
  rw [start, congrArg (List.drop _) split, List.drop_left]

/-- A token is what the lexer makes of the text at its offset. -/
theorem exists_lexeme_of_mem {source : Text} {t : Tok} (member : t ∈ lexemes source) :
    ∃ operandBefore c rest, source.drop t.start = c :: rest ∧
      t.kind = (lexeme operandBefore c rest).1 ∧
        t.text = c :: rest.take (lexeme operandBefore c rest).2 := by
  obtain ⟨front, after, split⟩ := List.append_of_mem member
  have suffix : t :: after <:+ lexemes source := ⟨front, split.symm⟩
  obtain ⟨q, operandBefore, whole⟩ := eq_tokensFrom_of_suffix suffix
  rw [textOf_suffix suffix] at whole
  cases here : source.drop t.start with
  | nil => simp [here, tokensFrom] at whole
  | cons c rest =>
      rw [here, tokensFrom] at whole
      obtain ⟨rfl, -⟩ := List.cons.inj whole
      exact ⟨operandBefore, c, rest, rfl, rfl, rfl⟩

/-- The token list holds the whole source and nothing else: it ends with the one
closing token, and before that the source is cut into pieces that are not empty. -/
structure Lossless (source : Text) (tokens : List Tok) : Prop where
  closes : ∃ front last, tokens = front ++ [last] ∧
    (last.kind = .eof ∧ last.text = [] ∧ last.start = source.length ∧ last.stop = source.length) ∧
    ∀ t ∈ front, t.kind ≠ .eof ∧ t.text ≠ []
  begins : tokens.head?.map (·.start) = some 0
  adjacent : tokens.IsChain fun t u => t.stop = u.start
  slices : ∀ t ∈ tokens, t.text = (source.take t.stop).drop t.start
  covers : tokens.flatMap Token.text = source

/-- **Lossless tokens.**  Whatever the source, its tokens tile it: nothing is left
out between two of them, and their texts put together are the source. -/
theorem tokenize_lossless (source : Text) : Lossless source (tokenize source) where
  closes := by
    refine ⟨lexemes source, endToken source, rfl, ?_, ?_⟩
    · exact ⟨rfl, rfl, start_endToken source, stop_endToken source⟩
    · intro t member
      exact ⟨kind_ne_eof_of_mem member, (tiles_lexemes source).text_ne_nil member⟩
  begins := by
    have tiles := tiles_lexemes source
    cases found : lexemes source with
    | nil =>
        have empty : source = [] := by rw [← textOf_lexemes source, found]; rfl
        have atZero : (endToken source).start = 0 := by rw [start_endToken, empty]; rfl
        simp [tokenize, found, atZero]
    | cons t tokens =>
        rw [found] at tiles
        simp [tokenize, found, tiles.1]
  adjacent := (tiles_lexemes source).chain (by simp [start_endToken])
  slices := by
    intro t member
    rcases List.mem_append.1 member with inside | last
    · have slice := (tiles_lexemes source).slice inside
      rw [textOf_lexemes] at slice
      exact slice.symm
    · rw [List.mem_singleton.1 last, start_endToken, stop_endToken, List.take_length,
        List.drop_length]
      rfl
  covers := by
    have whole : textOf (tokenize source) = source := by
      simp [tokenize, endToken, Token.at]
    exact whole

end UiFormat.Ets

/-
# UiFormat.Proofs.Markup.TokenIndex -- a lexer is a place in a token list

A lexer reads on demand, holds back a token that was looked at, and changes modes while
it reads; what it shows is a place in the list of all tokens of its source.  `Index` is
that place, with the places that were saved: `next` gives the token at the place and
moves on, `peek` only gives it, `tokenize` gives the tokens from the place to the end and
moves to the closing one.  The closing token is the last of the list and is never passed.

`StandsAt tokens k l` ties the two together: the tokens that the cursor of `l` has left are
the tokens from `k` on, or those behind `k` while the token at `k` waits to be consumed.
Each request keeps them together (`standsAt_next`, `standsAt_peek`,
`standsAt_tokenize`), because reading at the end gives the closing token and leaves it
to be read again (`left_scan`).

Main statement: `answers_start`.
-/
import UiFormat.Markup.Session
import UiFormat.Proofs.Markup.Lexing
import Mathlib.Data.List.Forall2

namespace UiFormat.Markup

open UiFormat.Text
open UiFormat.Parse

set_option autoImplicit false

/-! ## Places -/

/-- A place in a token list, and the places saved so far, oldest first. -/
structure Index (tokens : List Tok) where
  place : Fin tokens.length
  saved : List (Fin tokens.length)

namespace Index

variable {tokens : List Tok}

/-- The place of the last token of a list that has a place `k`. -/
def last (k : Fin tokens.length) : Fin tokens.length :=
  ⟨tokens.length - 1, Nat.sub_one_lt_of_lt k.isLt⟩

/-- The place behind `k`; the last place stays. -/
def following (k : Fin tokens.length) : Fin tokens.length :=
  ⟨min (k + 1) (tokens.length - 1), Nat.lt_of_le_of_lt (Nat.min_le_right ..) (last k).isLt⟩

/-- Answers one request. -/
def serve (i : Index tokens) : Request → Answer × Index tokens
  | .next => (.token (tokens.get i.place), { i with place := following i.place })
  | .peek => (.token (tokens.get i.place), i)
  | .tokenize => (.tokens (tokens.drop i.place), { i with place := last i.place })
  | .checkpoint => (.nothing, { i with saved := i.saved ++ [i.place] })
  | .restore n => (.nothing, { i with place := i.saved[n]?.getD i.place })

/-- The answers to requests made one after the other. -/
def answers (i : Index tokens) : List Request → List Answer
  | [] => []
  | r :: rest => (i.serve r).1 :: (i.serve r).2.answers rest

/-- The first place in the tokens of a source. -/
def start (source : Text) : Index (tokenize source) :=
  { place := ⟨0, by simp [tokenize]⟩, saved := [] }

end Index

/-! ## The closing token -/

theorem wordKind_ne_eof (word : Text) : wordKind word ≠ .eof := by
  unfold wordKind
  repeat' split
  all_goals decide

/-- No character begins the closing token. -/
theorem lexeme_ne_eof (mode : Mode) (c : Char) (rest : Text) : (mode.lexeme c rest).kind ≠ .eof := by
  cases mode with
  | data =>
      simp only [Mode.lexeme, dataLexeme]
      repeat' split
      all_goals simp
  | tag =>
      simp only [Mode.lexeme, tagLexeme]
      repeat' split
      all_goals simp
  | interpolation =>
      simp only [Mode.lexeme, expressionLexeme]
      repeat' split
      all_goals first | exact wordKind_ne_eof _ | simp

theorem Steps.kind_ne_eof {k k' : Cursor} {toks : List Tok} (steps : Steps k toks k') :
    ∀ t ∈ toks, t.kind ≠ .eof := by
  induction steps with
  | nil => simp
  | cons here later ih =>
      obtain ⟨gap, c, rest, -, -, rfl, -⟩ := next?_eq_some here
      exact List.forall_mem_cons.2 ⟨lexeme_ne_eof _ c rest, ih⟩

/-- The tokens a cursor has left, the closing one included. -/
def Cursor.left (k : Cursor) : List Tok :=
  k.drain.1 ++ [k.drain.2.1]

theorem left_of_some {k next : Cursor} {t : Tok} (here : k.next? = some (t, next)) :
    k.left = t :: next.left := by
  rw [Cursor.left, drain_of_some here, Cursor.left, List.cons_append]

theorem left_of_none {k : Cursor} (ends : k.next? = none) : k.left = [k.closing] := by
  rw [Cursor.left, drain_of_none ends, List.nil_append]

theorem left_ne_nil (k : Cursor) : k.left ≠ [] := by
  simp [Cursor.left]

/-- The closing token is the only one of its kind. -/
theorem kind_eof_iff (k : Cursor) {i : Nat} {t : Tok} (found : k.left[i]? = some t) :
    t.kind = .eof ↔ i + 1 = k.left.length := by
  obtain ⟨k', steps, -, closes⟩ := exists_steps_drain k
  have kinds := steps.kind_ne_eof
  rw [Cursor.left, closes] at found ⊢
  rw [List.length_append, List.length_singleton, Nat.add_right_cancel_iff]
  rcases Nat.lt_or_ge i k.drain.1.length with within | beyond
  · rw [List.getElem?_append_left within] at found
    constructor
    · intro eof
      exact absurd eof (kinds t (List.mem_of_getElem? found))
    · omega
  · rw [List.getElem?_append_right beyond] at found
    obtain ⟨atEnd, rfl⟩ := List.getElem?_eq_some_iff.1 found
    simp only [List.length_singleton] at atEnd
    constructor
    · omega
    · intro
      simp [kind_closing]

/-- Nothing is passed over where the source ends. -/
theorem gap_nil (mode : Mode) : mode.gap [] = 0 := by
  cases mode with
  | data => rfl
  | tag => rfl
  | interpolation => simp [Mode.gap, expressionGap]

/-- At the end the closing token is read again and again. -/
theorem scan_of_none {k : Cursor} (ends : k.next? = none) :
    k.scan = (k.closing, k.skipGap) ∧ k.skipGap.left = [k.closing] := by
  have empty : k.skipGap.rest = [] := by
    simp only [Cursor.next?] at ends
    split at ends
    · assumption
    · cases ends
  have stays : k.skipGap.skipGap = k.skipGap := by
    have nothing : k.skipGap.modes.current.gap k.skipGap.rest = 0 := by
      rw [empty, gap_nil]
    rw [Cursor.skipGap, nothing]
    rfl
  refine ⟨by rw [Cursor.scan, ends]; rfl, ?_⟩
  have nothingLeft : k.skipGap.next? = none := by
    simp only [Cursor.next?, stays, empty]
  rw [left_of_none nothingLeft, Cursor.closing, stays, Cursor.closing]

/-! ## The lexer at a place -/

/-- What the cursor has left are the tokens from `k` on, or those behind `k` while the
token at `k` waits. -/
def StandsAt (tokens : List Tok) (k : Fin tokens.length) (l : Lexer) : Prop :=
  match l.lookahead with
  | none => l.cursor.left = tokens.drop k
  | some t => t = tokens.get k ∧ l.cursor.left = tokens.drop (Index.following k)

variable {tokens : List Tok} {k : Fin tokens.length}

/-- Reading gives the token at the place and leaves those behind it. -/
theorem left_scan {cursor : Cursor} (left : cursor.left = tokens.drop k) :
    cursor.scan.1 = tokens.get k ∧ cursor.scan.2.left = tokens.drop (Index.following k) := by
  have split : cursor.left = tokens.get k :: tokens.drop (k + 1) := by
    rw [left]
    exact List.drop_eq_getElem_cons k.isLt
  cases found : cursor.next? with
  | none =>
      obtain ⟨scanned, again⟩ := scan_of_none found
      rw [left_of_none found] at split
      obtain ⟨token, noMore⟩ := List.cons.inj split
      have atEnd := List.drop_eq_nil_iff.1 noMore.symm
      have stays : (Index.following k : Nat) = k := by
        simp only [Index.following]
        omega
      rw [scanned, stays, ← left, left_of_none found]
      exact ⟨token, again⟩
  | some read =>
      obtain ⟨t, next⟩ := read
      have scanned : cursor.scan = (t, next) := by rw [Cursor.scan, found]; rfl
      rw [left_of_some found] at split
      obtain ⟨token, behind⟩ := List.cons.inj split
      have more : k + 1 < tokens.length := by
        have some := List.length_pos_iff.2 (left_ne_nil next)
        rw [behind, List.length_drop] at some
        omega
      have moves : (Index.following k : Nat) = k + 1 := by
        simp only [Index.following]
        omega
      rw [scanned, moves]
      exact ⟨token, behind⟩

theorem standsAt_next {l : Lexer} (stands : StandsAt tokens k l) :
    l.next.1 = tokens.get k ∧ StandsAt tokens (Index.following k) l.next.2 := by
  unfold StandsAt at stands
  unfold Lexer.next
  cases waiting : l.lookahead with
  | none =>
      rw [waiting] at stands
      obtain ⟨token, behind⟩ := left_scan stands
      refine ⟨token, ?_⟩
      simpa [StandsAt, waiting] using behind
  | some t =>
      rw [waiting] at stands
      exact stands

theorem standsAt_peek {l : Lexer} (stands : StandsAt tokens k l) :
    l.peek.1 = tokens.get k ∧ StandsAt tokens k l.peek.2 := by
  unfold Lexer.peek
  cases waiting : l.lookahead with
  | none =>
      simp only [StandsAt, waiting] at stands
      obtain ⟨token, behind⟩ := left_scan stands
      exact ⟨token, token, behind⟩
  | some t =>
      have token : t = tokens.get k := by
        simp only [StandsAt, waiting] at stands
        exact stands.1
      exact ⟨token, stands⟩

/-- The list ends with its only closing token. -/
def Closed (tokens : List Tok) : Prop :=
  ∀ k : Fin tokens.length, (tokens.get k).kind = .eof ↔ k + 1 = tokens.length

/-- What is left at the end is the closing token. -/
theorem left_drain (cursor : Cursor) : cursor.drain.2.2.left = [cursor.drain.2.1] := by
  fun_induction Cursor.drain cursor with
  | case1 cursor ends => exact (scan_of_none ends).2
  | case2 cursor t next here tokens last drained ih =>
      rw [drained] at ih
      exact ih

/-- Behind the tokens of any part of the list its last one is left. -/
theorem left_drain_of_drop {cursor : Cursor} {n : Nat} (left : cursor.left = tokens.drop n) :
    cursor.drain.2.2.left = tokens.drop (tokens.length - 1) := by
  have count : cursor.drain.1.length + 1 = tokens.length - n := by
    have lengths := congrArg List.length left
    simpa [Cursor.left] using lengths
  calc cursor.drain.2.2.left = [cursor.drain.2.1] := left_drain cursor
    _ = cursor.left.drop cursor.drain.1.length := by rw [Cursor.left, List.drop_left]
    _ = tokens.drop (n + cursor.drain.1.length) := by rw [left, List.drop_drop]
    _ = tokens.drop (tokens.length - 1) := by congr 1; omega

theorem standsAt_tokenize (closed : Closed tokens) {l : Lexer} (stands : StandsAt tokens k l) :
    l.tokenize.1 = tokens.drop k ∧ StandsAt tokens (Index.last k) l.tokenize.2 := by
  unfold Lexer.tokenize
  cases waiting : l.lookahead with
  | none =>
      simp only [StandsAt, waiting] at stands
      exact ⟨stands, left_drain_of_drop stands⟩
  | some t =>
      simp only [StandsAt, waiting] at stands
      obtain ⟨rfl, behind⟩ := stands
      dsimp only
      have split : tokens.drop k = tokens.get k :: tokens.drop (k + 1) :=
        List.drop_eq_getElem_cons k.isLt
      have place : (Index.following k : Nat) = min (k.val + 1) (tokens.length - 1) := rfl
      by_cases eof : (tokens.get k).kind = .eof
      · have atEnd := (closed k).1 eof
        rw [if_pos eof]
        refine ⟨?_, ?_⟩
        · rw [split, List.drop_eq_nil_of_le (Nat.le_of_eq atEnd.symm)]
        · have same : Index.following k = Index.last k := by
            apply Fin.ext
            rw [place]
            simp only [Index.last]
            omega
          rw [← same]
          exact behind
      · have more : k + 1 < tokens.length := by
          have notLast := mt (closed k).2 eof
          omega
        rw [if_neg eof]
        refine ⟨?_, left_drain_of_drop behind⟩
        have moves : (Index.following k : Nat) = k + 1 := by
          rw [place]
          omega
        rw [split, ← moves, ← behind]
        rfl

/-! ## Sessions -/

/-- The lexer stands at the place, and so does each saved state at its saved place. -/
structure Tracks (tokens : List Tok) (i : Index tokens) (s : Session) : Prop where
  here : StandsAt tokens i.place s.lexer
  saved : List.Forall₂ (StandsAt tokens) i.saved s.saved

/-- One request: the answers agree, and the session still tracks the index. -/
theorem Tracks.serve (closed : Closed tokens) {i : Index tokens} {s : Session}
    (tracks : Tracks tokens i s) (r : Request) :
    (s.serve r).1 = (i.serve r).1 ∧ Tracks tokens (i.serve r).2 (s.serve r).2 := by
  cases r with
  | next =>
      obtain ⟨token, stands⟩ := standsAt_next tracks.here
      exact ⟨congrArg Answer.token token, stands, tracks.saved⟩
  | peek =>
      obtain ⟨token, stands⟩ := standsAt_peek tracks.here
      exact ⟨congrArg Answer.token token, stands, tracks.saved⟩
  | tokenize =>
      obtain ⟨rest, stands⟩ := standsAt_tokenize closed tracks.here
      exact ⟨congrArg Answer.tokens rest, stands, tracks.saved⟩
  | checkpoint =>
      exact ⟨rfl, tracks.here, List.rel_append tracks.saved (.cons tracks.here .nil)⟩
  | restore n =>
      refine ⟨rfl, ?_, tracks.saved⟩
      have same := tracks.saved.length_eq
      rcases Nat.lt_or_ge n i.saved.length with known | unknown
      · have stands := tracks.saved.get known (same ▸ known)
        simpa [Session.serve, Index.serve, known, same ▸ known] using stands
      · simpa [Session.serve, Index.serve, unknown, same ▸ unknown] using tracks.here

/-- Any number of requests. -/
theorem Tracks.answers_eq (closed : Closed tokens) {i : Index tokens} {s : Session}
    (tracks : Tracks tokens i s) (requests : List Request) : s.answers requests = i.answers requests := by
  induction requests generalizing i s with
  | nil => rfl
  | cons r rest ih =>
      obtain ⟨answer, next⟩ := tracks.serve closed r
      rw [Session.answers, Index.answers, answer, ih next]

theorem closed_tokenize (source : Text) : Closed (tokenize source) := by
  intro k
  exact kind_eof_iff (Cursor.start source) (List.getElem?_eq_getElem k.isLt)

/-- **A lexer is a place in the token list of its source**: to any requests, in any order,
it gives the answers that the place gives. -/
theorem answers_start (source : Text) (requests : List Request) :
    (Session.start source).answers requests = (Index.start source).answers requests := by
  have begins : Tracks (tokenize source) (Index.start source) (Session.start source) :=
    { here := show (Cursor.start source).left = (tokenize source).drop 0 from rfl
      saved := .nil }
  exact begins.answers_eq (closed_tokenize source) requests

end UiFormat.Markup

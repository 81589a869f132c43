/-
# UiFormat.Proofs.Text.Pieces -- a text and its pieces

`pieces` takes a text apart at every occurrence of a mark and keeps all the rest: joined by
the mark, the pieces are the text again (`join_pieces`), and none of them holds the mark
(`mem_of_mem_pieces`).  A text without the mark is the first piece of whatever has the mark
behind it (`pieces_append`), so that what was joined comes apart at its seams.
-/
import UiFormat.Text.Basic

namespace UiFormat.Text

set_option autoImplicit false

theorem pieces_ne_nil (mark : Char) (text : Text) : pieces mark text ≠ [] := by
  fun_cases pieces mark text <;> exact List.cons_ne_nil _ _

theorem join_pieces (mark : Char) (text : Text) : join [mark] (pieces mark text) = text := by
  induction text with
  | nil => rfl
  | cons c text ih =>
      obtain ⟨piece, rest, split⟩ := List.exists_cons_of_ne_nil (pieces_ne_nil mark text)
      rw [split] at ih
      rw [pieces, split, ← ih]
      split
      · rename_i isMark
        rw [isMark]
        rfl
      · cases rest <;> rfl

theorem mem_of_mem_pieces {mark c : Char} {text piece : Text} (isPiece : piece ∈ pieces mark text)
    (member : c ∈ piece) : c ∈ text ∧ c ≠ mark := by
  induction text generalizing piece with
  | nil =>
      rw [List.mem_singleton.1 isPiece] at member
      cases member
  | cons d text ih =>
      have later : ∀ {piece : Text}, piece ∈ pieces mark text → c ∈ piece → c ∈ d :: text ∧ c ≠ mark :=
        fun inText inPiece => ⟨List.mem_cons_of_mem _ (ih inText inPiece).1, (ih inText inPiece).2⟩
      obtain ⟨first, rest, split⟩ := List.exists_cons_of_ne_nil (pieces_ne_nil mark text)
      rw [pieces] at isPiece
      split at isPiece
      · rcases List.mem_cons.1 isPiece with rfl | inRest
        · cases member
        · exact later inRest member
      · rename_i notMark
        rw [split] at isPiece later
        rcases List.mem_cons.1 isPiece with rfl | inRest
        · rcases List.mem_cons.1 member with rfl | inFirst
          · exact ⟨List.mem_cons_self, notMark⟩
          · exact later List.mem_cons_self inFirst
        · exact later (List.mem_cons_of_mem _ inRest) member

theorem mem_pieces (mark : Char) {c : Char} {text : Text} (member : c ∈ text) :
    c = mark ∨ ∃ piece ∈ pieces mark text, c ∈ piece := by
  induction text with
  | nil => cases member
  | cons d text ih =>
      rw [pieces]
      rcases List.mem_cons.1 member with rfl | later
      · by_cases isMark : c = mark
        · exact .inl isMark
        · rw [if_neg isMark]
          refine .inr ?_
          split
          · exact ⟨[c], List.mem_cons_self, List.mem_cons_self⟩
          · exact ⟨_, List.mem_cons_self, List.mem_cons_self⟩
      · rcases ih later with isMark | ⟨piece, isPiece, inside⟩
        · exact .inl isMark
        · refine .inr ?_
          split
          · exact ⟨piece, List.mem_cons_of_mem _ isPiece, inside⟩
          · split
            · rename_i none
              rw [none] at isPiece
              cases isPiece
            · rename_i front rest split
              rw [split] at isPiece
              rcases List.mem_cons.1 isPiece with rfl | inRest
              · exact ⟨d :: piece, List.mem_cons_self, List.mem_cons_of_mem _ inside⟩
              · exact ⟨piece, List.mem_cons_of_mem _ inRest, inside⟩

theorem pieces_of_not_mem {mark : Char} {text : Text} (absent : mark ∉ text) : pieces mark text = [text] := by
  induction text with
  | nil => rfl
  | cons c text ih =>
      rw [List.mem_cons, not_or] at absent
      rw [pieces, if_neg (Ne.symm absent.1), ih absent.2]

theorem pieces_append {mark : Char} {text : Text} (absent : mark ∉ text) (rest : Text) :
    pieces mark (text ++ mark :: rest) = text :: pieces mark rest := by
  induction text with
  | nil => rw [List.nil_append, pieces, if_pos rfl]
  | cons c text ih =>
      rw [List.mem_cons, not_or] at absent
      rw [List.cons_append, pieces, if_neg (Ne.symm absent.1), ih absent.2]

end UiFormat.Text

/-
# UiFormat.Proofs.Ets.Accounting -- every token of a source is accounted for

A token belongs to a node when it lies in the span of the node (`Node.covers`) or is
the comment that closes its last line (`Node.trailedBy`).  A token can also be a
separator outside all spans, or be dropped.  `accounts` counts in how many of these
ways a token is accounted for, node by node; `Accounted` says that the spans are not
empty and lie one behind the other, and that the count is one for every token that is
not blank.

A layout of the tokens accounts for them (`Laid.accounted`): pieces behind a token
start too late to have a share in it, pieces before it end too early, and a comment
further on is kept from an earlier node by the comment that node has already.

Main statement: `tokens_accounted`.
-/
import UiFormat.Proofs.Ets.NodeLayout
import Mathlib.Data.List.Pairwise

namespace UiFormat.Ets

open UiFormat.Text
open UiFormat.Parse

set_option autoImplicit false

/-! ## Shares of a token -/

/-- The token lies in the span of the node. -/
def Node.covers (n : Node) (t : Tok) : Bool :=
  match n.around.span with
  | some span => span.start ≤ t.start && t.stop ≤ span.stop
  | none => false

/-- The token is the comment that closes the last line of the node: nothing but blanks
stands between the two. -/
def Node.trailedBy (tokens : List Tok) (n : Node) (t : Tok) : Bool :=
  match n.around.span with
  | some span =>
      isTrailingComment t && n.around.trailingComment == some t.text && span.stop ≤ t.start &&
        tokens.all fun u => !(span.stop ≤ u.start && u.stop ≤ t.start) || u.kind == .whitespace
  | none => false

/-- In how many ways the token is accounted for: once for every node it lies in or
closes the last line of, once as a separator outside all nodes, and once for every time
it is dropped. -/
def accounts (separators : List String) (tokens : List Tok) (nodes : List Node) (dropped : List Tok)
    (t : Tok) : Nat :=
  nodes.countP (·.covers t) + nodes.countP (·.trailedBy tokens t) +
    (if isSymbolOf separators t && !nodes.any (·.covers t) then 1 else 0) + dropped.count t

/-- The nodes lie one behind the other, and every token that is not blank is accounted
for in exactly one way. -/
structure Accounted (separators : List String) (tokens : List Tok) (nodes : List Node)
    (dropped : List Tok) : Prop where
  spans : ∀ n ∈ nodes, ∃ span, n.around.span = some span ∧ span.start < span.stop
  ordered : nodes.Pairwise fun n m =>
    ∀ first ∈ n.around.span, ∀ second ∈ m.around.span, first.stop ≤ second.start
  once : ∀ t ∈ tokens, isTriviaToken t = false →
    accounts separators tokens nodes dropped t = 1

section

variable {inside : Nat → List Tok → Node → Prop} {separators : List String} {place : Nat}
  {own trail ts tokens : List Tok} {n : Node} {t : Tok}

theorem Stands.covers_iff (stands : Stands inside place own trail n) :
    n.covers t = true ↔ place ≤ t.start ∧ t.stop ≤ place + (textOf own).length := by
  obtain ⟨span, found, rfl, stops⟩ := stands.spans
  simp [Node.covers, found, stops]

theorem Stands.trailedBy_iff (stands : Stands inside place own trail n) :
    n.trailedBy tokens t = true ↔
      ((isTrailingComment t = true ∧ n.around.trailingComment = some t.text) ∧
        place + (textOf own).length ≤ t.start) ∧
        ∀ u ∈ tokens, place + (textOf own).length ≤ u.start → u.stop ≤ t.start →
          u.kind = .whitespace := by
  obtain ⟨span, found, rfl, stops⟩ := stands.spans
  simp only [Node.trailedBy, found, stops, Bool.and_eq_true, beq_iff_eq, decide_eq_true_eq,
    List.all_eq_true, Bool.or_eq_true, Bool.not_eq_true', Bool.and_eq_false_imp,
    decide_eq_false_iff_not]
  refine and_congr_right fun _ => forall₂_congr fun u _ => ?_
  tauto

/-- The node has no share in the token. -/
def Node.Spares (tokens : List Tok) (n : Node) (t : Tok) : Prop :=
  n.covers t = false ∧ n.trailedBy tokens t = false

/-- A node has no share in a token before it. -/
theorem Stands.spares_before (stands : Stands inside place own trail n) (some : t.start < t.stop)
    (before : t.stop ≤ place) : n.Spares tokens t := by
  rw [Node.Spares, ← Bool.not_eq_true, stands.covers_iff, ← Bool.not_eq_true, stands.trailedBy_iff]
  omega

/-- A node has no share in a token behind its own ones: the comment that closes its last
line, if it has one, comes first. -/
theorem Stands.spares_behind (stands : Stands inside place own trail n)
    (tiles : Tiles place (own ++ trail)) (known : ∀ u ∈ trail, u ∈ tokens) (some : t.start < t.stop)
    (behind : place + (textOf (own ++ trail)).length ≤ t.start) : n.Spares tokens t := by
  rw [textOf_append, List.length_append] at behind
  constructor
  · rw [← Bool.not_eq_true, stands.covers_iff]
    omega
  · rw [← Bool.not_eq_true, stands.trailedBy_iff]
    rintro ⟨⟨⟨-, kept⟩, -⟩, blank⟩
    cases stands.trails with
    | nothing none =>
        rw [none] at kept
        cases kept
    | @comment blanks c blankBefore trailing text =>
        have bounds := (tiles_append.1 tiles).2.within (t := c) (by simp)
        have whitespace := blank c (known c (by simp)) bounds.1 (by omega)
        simp [isTrailingComment, whitespace] at trailing

/-- The own tokens of a node are those in its span. -/
theorem Stands.covers_own (stands : Stands inside place own trail n) (tiles : Tiles place own)
    (member : t ∈ own) : n.covers t = true ∧ n.trailedBy tokens t = false := by
  have bounds := tiles.within member
  constructor
  · rw [stands.covers_iff]
    omega
  · rw [← Bool.not_eq_true, stands.trailedBy_iff]
    omega

/-- Of the tokens behind its own ones, a node has the comment that closes its last
line. -/
theorem Stands.trailedBy_trail {front back : List Tok} {start : Nat}
    (stands : Stands inside (start + (textOf front).length) own trail n)
    (tiles : Tiles start (front ++ (own ++ (trail ++ back)))) (member : t ∈ trail)
    (solid : isTriviaToken t = false) :
    isTrailingComment t = true ∧ n.covers t = false ∧
      n.trailedBy (front ++ (own ++ (trail ++ back))) t = true := by
  cases stands.trails with
  | nothing => cases member
  | @comment blanks c blank trailing kept =>
      obtain inBlanks | rfl : t ∈ blanks ∨ t = c := by simpa using member
      · simp [isTriviaToken, Kind.isTrivia, blank t inBlanks] at solid
      have apart : front ++ (own ++ ((blanks ++ [t]) ++ back)) =
          (front ++ own) ++ (blanks ++ (t :: back)) := by simp
      rw [apart] at tiles ⊢
      have later := (tiles_append.1 tiles).2
      have starts := later.start_eq
      have stops := later.within (t := t) (by simp)
      simp only [textOf_append, List.length_append] at starts stops
      refine ⟨trailing, ?_, ?_⟩
      · rw [← Bool.not_eq_true, stands.covers_iff]
        omega
      · rw [stands.trailedBy_iff]
        refine ⟨⟨⟨trailing, kept⟩, by omega⟩, fun u known after before => blank u ?_⟩
        have between := tiles.filter_between (p := fun u =>
          decide (start + (textOf (front ++ own)).length ≤ u.start ∧
            u.stop ≤ start + (textOf (front ++ own)).length + (textOf blanks).length)) (by simp)
        rw [← between, List.mem_filter]
        simp only [textOf_append, List.length_append, decide_eq_true_eq]
        exact ⟨known, by omega, by omega⟩

/-! ## Layouts -/

variable {ns : List Node} {dropped : List Tok}

/-- Every node of a layout stands somewhere in it. -/
theorem Laid.stands (laid : Laid inside separators place ts ns dropped) (member : n ∈ ns) :
    ∃ front own trail back, ts = front ++ (own ++ (trail ++ back)) ∧
      Stands inside (place + (textOf front).length) own trail n := by
  induction laid with
  | done => cases member
  | @blank place t later dropped ns isBlank rest ih =>
      obtain ⟨front, own, trail, back, rfl, stands⟩ := ih member
      refine ⟨t :: front, own, trail, back, rfl, ?_⟩
      rwa [textOf_cons, List.length_append, ← Nat.add_assoc]
  | @piece place piece later dropped n? t? ns here rest ih =>
      rcases List.mem_append.1 member with first | other
      · cases here with
        | separator => cases first
        | dropped => cases first
        | @node own trail m stands =>
            obtain rfl : n = m := by simpa using first
            exact ⟨[], own, trail, later, by simp, stands⟩
      · obtain ⟨front, own, trail, back, rfl, stands⟩ := ih other
        refine ⟨piece ++ front, own, trail, back, by simp, ?_⟩
        rwa [textOf_append, List.length_append, ← Nat.add_assoc]

theorem Laid.mem_of_dropped (laid : Laid inside separators place ts ns dropped)
    (member : t ∈ dropped) : t ∈ ts := by
  induction laid with
  | done => exact member
  | blank isBlank rest ih => exact List.mem_cons_of_mem _ (ih member)
  | piece here rest ih =>
      rcases List.mem_append.1 member with first | other
      · cases here with
        | separator => cases first
        | dropped => exact List.mem_append_left _ (by simpa using first)
        | node => cases first
      · exact List.mem_append_right _ (ih other)

/-- A layout has no share in a token before it. -/
theorem Laid.spares_before (laid : Laid inside separators place ts ns dropped)
    (tiles : Tiles place ts) (some : t.start < t.stop) (before : t.stop ≤ place) :
    (∀ n ∈ ns, n.Spares tokens t) ∧ t ∉ dropped := by
  constructor
  · intro n member
    obtain ⟨front, own, trail, back, rfl, stands⟩ := laid.stands member
    exact stands.spares_before some (by omega)
  · intro member
    have bounds := tiles.within (laid.mem_of_dropped member)
    omega

/-- In how many of the nodes and dropped tokens the token has its place. -/
def shares (tokens : List Tok) (nodes : List Node) (dropped : List Tok) (t : Tok) : Nat :=
  nodes.countP (·.covers t) + nodes.countP (·.trailedBy tokens t) + dropped.count t

theorem shares_append (tokens : List Tok) (front back : List Node) (early late : List Tok) (t : Tok) :
    shares tokens (front ++ back) (early ++ late) t =
      shares tokens front early t + shares tokens back late t := by
  simp only [shares, List.countP_append, List.count_append]
  omega

theorem shares_eq_zero (spares : ∀ n ∈ ns, n.Spares tokens t) (kept : t ∉ dropped) :
    shares tokens ns dropped t = 0 := by
  have covered : ns.countP (·.covers t) = 0 :=
    List.countP_eq_zero.2 fun n member => by simp [(spares n member).1]
  have trailed : ns.countP (·.trailedBy tokens t) = 0 :=
    List.countP_eq_zero.2 fun n member => by simp [(spares n member).2]
  rw [shares, covered, trailed, List.count_eq_zero.2 kept]

/-- What a layout does with one of its tokens: the token separates, and no node has a
share in it, or it has one place. -/
def Settles (separators : List String) (tokens : List Tok) (ns : List Node) (dropped : List Tok)
    (t : Tok) : Prop :=
  (isSymbolOf separators t = true ∧ shares tokens ns dropped t = 0) ∨
    (shares tokens ns dropped t = 1 ∧
      (isSymbolOf separators t = true → ∃ n ∈ ns, n.covers t = true))

theorem not_isSymbolOf_of_isTrailingComment (trailing : isTrailingComment t = true) :
    isSymbolOf separators t = false := by
  obtain kind | kind : t.kind = .comment ∨ t.kind = .blockComment := by
    simp only [isTrailingComment, Bool.or_eq_true, beq_iff_eq, Bool.and_eq_true] at trailing
    tauto
  all_goals simp [isSymbolOf, isSymbolToken, kind]

/-- A piece settles its own tokens. -/
theorem Piece.settles {pre piece later : List Tok} {start : Nat} {n? : Option Node} {t? : Option Tok}
    (here : Piece inside separators (start + (textOf pre).length) piece n? t?)
    (tiles : Tiles start (pre ++ (piece ++ later))) (member : t ∈ piece)
    (solid : isTriviaToken t = false) :
    Settles separators (pre ++ (piece ++ later)) n?.toList t?.toList t := by
  cases here with
  | @separator u separates =>
      obtain rfl : t = u := by simpa using member
      exact .inl ⟨separates, rfl⟩
  | @dropped u other =>
      obtain rfl : t = u := by simpa using member
      exact .inr ⟨by simp [shares], by simp [other]⟩
  | @node own trail n stands =>
      rw [List.append_assoc own] at tiles ⊢
      rcases List.mem_append.1 member with mine | behind
      · have tilesOwn := (tiles_append.1 (tiles_append.1 tiles).2).1
        have covered : n.covers t = true ∧
            n.trailedBy (pre ++ (own ++ (trail ++ later))) t = false :=
          stands.covers_own tilesOwn mine
        exact .inr ⟨by simp [shares, covered], fun _ => ⟨n, by simp, covered.1⟩⟩
      · obtain ⟨trailing, covered, trailed⟩ := stands.trailedBy_trail tiles behind solid
        refine .inr ⟨by simp [shares, covered, trailed], fun isSymbol => ?_⟩
        rw [not_isSymbolOf_of_isTrailingComment trailing] at isSymbol
        cases isSymbol

/-- A piece has no share in a token behind it. -/
theorem Piece.spares_behind {piece : List Tok} {n? : Option Node} {t? : Option Tok}
    (here : Piece inside separators place piece n? t?) (tiles : Tiles place piece)
    (known : ∀ u ∈ piece, u ∈ tokens) (some : t.start < t.stop)
    (behind : place + (textOf piece).length ≤ t.start) :
    shares tokens n?.toList t?.toList t = 0 := by
  cases here with
  | separator => rfl
  | @dropped u other =>
      have bounds := tiles.within (t := u) (by simp)
      have apart : u ≠ t := by
        rintro rfl
        omega
      simp [shares, apart]
  | @node own trail n stands =>
      have spares := stands.spares_behind tiles
        (fun u member => known u (List.mem_append_right own member)) some behind
      exact shares_eq_zero (by simpa using spares) (by simp)

/-- Nodes and dropped tokens without a share in the token do not change what is
settled. -/
theorem Settles.of_shares_eq {ms : List Node} {more : List Tok}
    (settles : Settles separators tokens ns dropped t)
    (same : shares tokens ms more t = shares tokens ns dropped t) (known : ∀ n ∈ ns, n ∈ ms) :
    Settles separators tokens ms more t := by
  rw [Settles, same]
  rcases settles with free | ⟨once, covered⟩
  · exact .inl free
  · refine .inr ⟨once, fun isSymbol => ?_⟩
    obtain ⟨n, member, covers⟩ := covered isSymbol
    exact ⟨n, known n member, covers⟩

/-- A layout settles each of its tokens, one piece at a time: those behind it come too
late for a share, and it itself ends too early for one in theirs. -/
theorem Laid.settles {pre post : List Tok} {start : Nat}
    (laid : Laid inside separators place ts ns dropped) (here : place = start + (textOf pre).length)
    (tiles : Tiles start (pre ++ (ts ++ post))) (member : t ∈ ts) (solid : isTriviaToken t = false) :
    Settles separators (pre ++ (ts ++ post)) ns dropped t := by
  induction laid generalizing pre with
  | done => cases member
  | @blank place u later dropped ns isBlank rest ih =>
      have apart : pre ++ ((u :: later) ++ post) = (pre ++ [u]) ++ (later ++ post) := by simp
      rw [apart] at tiles ⊢
      rcases List.mem_cons.1 member with rfl | other
      · rw [isBlank] at solid
        cases solid
      · exact ih (by simp [here, Nat.add_assoc]) tiles other
  | @piece place piece later dropped n? t? ns found rest ih =>
      subst here
      have apart : pre ++ ((piece ++ later) ++ post) = pre ++ (piece ++ (later ++ post)) := by simp
      rw [apart] at tiles ⊢
      obtain ⟨inPiece, behind⟩ := tiles_append.1 (tiles_append.1 tiles).2
      have inLater := (tiles_append.1 behind).1
      rcases List.mem_append.1 member with mine | other
      · have bounds := inPiece.within mine
        obtain ⟨spares, kept⟩ : (∀ n ∈ ns, n.Spares (pre ++ (piece ++ (later ++ post))) t) ∧
            t ∉ dropped := rest.spares_before inLater bounds.2.1 bounds.2.2
        refine (found.settles tiles mine solid).of_shares_eq ?_ fun n => List.mem_append_left ns
        rw [shares_append, shares_eq_zero spares kept, Nat.add_zero]
      · have bounds := inLater.within other
        have none : shares (pre ++ (piece ++ (later ++ post))) n?.toList t?.toList t = 0 := by
          refine found.spares_behind inPiece (fun u known => ?_) bounds.2.1 bounds.1
          simp [known]
        rw [← List.append_assoc] at tiles none ⊢
        have settles := ih (by simp [Nat.add_assoc]) tiles other
        refine settles.of_shares_eq ?_ fun n => List.mem_append_right n?.toList
        rw [shares_append, none, Nat.zero_add]

theorem Settles.accounts_eq (settles : Settles separators tokens ns dropped t) :
    accounts separators tokens ns dropped t = 1 := by
  have split : accounts separators tokens ns dropped t = shares tokens ns dropped t +
      if isSymbolOf separators t && !ns.any (·.covers t) then 1 else 0 := by
    rw [accounts, shares]
    omega
  rw [split]
  rcases settles with ⟨isSymbol, none⟩ | ⟨once, covered⟩
  · have outside : ns.any (·.covers t) = false := by
      have zero : ns.countP (·.covers t) = 0 := by
        rw [shares] at none
        omega
      simpa using zero
    simp [none, isSymbol, outside]
  · rw [once]
    split_ifs with free
    · rw [Bool.and_eq_true, Bool.not_eq_true', List.any_eq_false] at free
      obtain ⟨n, member, covers⟩ := covered free.1
      exact absurd covers (free.2 n member)
    · rfl

theorem Stands.span (stands : Stands inside place own trail n) (tiles : Tiles place own) :
    ∃ span, n.around.span = some span ∧ span.start < span.stop := by
  obtain ⟨span, found, starts, stops⟩ := stands.spans
  refine ⟨span, found, ?_⟩
  obtain ⟨t, member⟩ := List.exists_mem_of_ne_nil own stands.taken
  have bounds := tiles.within member
  omega

/-- The nodes of a layout lie one behind the other. -/
theorem Laid.ordered (laid : Laid inside separators place ts ns dropped) :
    ns.Pairwise fun n m =>
      ∀ first ∈ n.around.span, ∀ second ∈ m.around.span, first.stop ≤ second.start := by
  induction laid with
  | done => exact .nil
  | blank isBlank rest ih => exact ih
  | @piece place piece later dropped n? t? ns here rest ih =>
      cases here with
      | separator => exact ih
      | dropped => exact ih
      | @node own trail n stands =>
          refine List.pairwise_cons.2 ⟨fun m member first mine second others => ?_, ih⟩
          obtain ⟨front, ownOther, trailOther, back, -, standsOther⟩ := rest.stands member
          obtain ⟨span, found, -, stops⟩ := stands.spans
          obtain ⟨spanOther, foundOther, starts, -⟩ := standsOther.spans
          rw [found] at mine
          rw [foundOther] at others
          cases mine
          cases others
          rw [stops, starts, textOf_append, List.length_append]
          omega

/-- **A layout accounts for its tokens.** -/
theorem Laid.accounted (laid : Laid inside separators place ts ns dropped) (tiles : Tiles place ts) :
    Accounted separators ts ns dropped where
  spans := by
    intro n member
    obtain ⟨front, own, trail, back, rfl, stands⟩ := laid.stands member
    exact stands.span (tiles_append.1 (tiles_append.1 tiles).2).1
  ordered := laid.ordered
  once := by
    intro t member solid
    have settles : Settles separators ([] ++ (ts ++ [])) ns dropped t :=
      laid.settles rfl (by simpa using tiles) member solid
    rw [List.nil_append, List.append_nil] at settles
    exact settles.accounts_eq

end

/-- **Every token is accounted for.**  Where a source is parsed without problems, the
spans of the nodes lie one behind the other, and every token that is not blank lies in
one of them, closes the last line of one node, is a semicolon between them, or is
dropped.  The same holds between the braces of every struct and class, where commas
separate as well and nothing is dropped; there no member has members of its own. -/
theorem tokens_accounted (source : Text) (silent : (parse source).2 = []) :
    Accounted [";"] (lexemes source) (parse source).1.children (parse source).1.dropped ∧
      ∀ n ∈ (parse source).1.children, ∀ members, n.body? = some members →
        ∃ head opening body closing,
          (lexemes source).filter n.covers = head ++ opening :: (body ++ [closing]) ∧
            isSymbol "\x7b" opening = true ∧ isSymbol "\x7d" closing = true ∧
            Accounted [";", ","] body members [] ∧ ∀ m ∈ members, m.body? = none := by
  have laid := laid_of_silent silent
  have tiles := tiles_lexemes source
  refine ⟨laid.accounted tiles, fun n member members found => ?_⟩
  obtain ⟨front, own, trail, back, split, stands⟩ := laid.stands member
  rw [split] at tiles ⊢
  obtain ⟨head, opening, body, closing, rfl, opens, closes, inner⟩ := stands.holds members found
  refine ⟨head, opening, body, closing, ?_, opens, closes, ?_, ?_⟩
  · exact tiles.filter_between fun t => by rw [stands.covers_iff]
  · have inOwn := (tiles_append.1 (tiles_append.1 tiles).2).1
    rw [List.append_cons] at inOwn
    have between := (tiles_append.1 inOwn).2
    exact inner.accounted (tiles_append.1 between).1
  · intro m inside
    obtain ⟨_, _, _, _, -, standsInner⟩ := inner.stands inside
    exact standsInner.holds

/-- A struct with a comment behind a member, a stray sign and an import. -/
def strayComma : Text :=
  "struct A \x7b\n  x = 1; // one\n  y,\n\x7d // end\n; ,\nimport b from 'b'\n".toList

theorem tokens_accounted_strayComma :
    (parse strayComma).2 = [] ∧ (parse strayComma).1.children.length = 2 ∧
      (parse strayComma).1.dropped.map Token.text = [[',']] ∧
      Accounted [";"] (lexemes strayComma) (parse strayComma).1.children
        (parse strayComma).1.dropped := by
  have parsed : (parse strayComma).2 = [] ∧ (parse strayComma).1.children.length = 2 ∧
      (parse strayComma).1.dropped.map Token.text = [[',']] := by
    rw [show strayComma = _ from String.toList_ofList]
    decide +kernel
  exact ⟨parsed.1, parsed.2.1, parsed.2.2, (tokens_accounted strayComma parsed.1).1⟩

end UiFormat.Ets

/-
# UiFormat.Proofs.Ets.DocLines -- lines that gain a star

Normalising doc comments puts a star in front of the lines inside them that have none.  Which
lines these are is decided by a scan by lines, which knows no regular expressions and ends
every string with its line.

Where the scan is inside a doc comment, the lexer is, too, as long as each mark of a doc
comment belongs to one (`DocMarked`): both wait for the same closing mark, the scan line by
line (`Docked.step`), the lexer from the opening on (`stop_of_docComment`), and the rest of a
text is searched like the whole (`lengthThrough_drop`).  So every line that a pass over the
text takes to start inside a doc comment does (`covers_of_trace`).

Every other line keeps its trimmed text (`place_keeps`, `placeAll_keeps`), and the lines that
are left out say nothing (`exists_kept_rows`); together these give
`gains_star_only_in_docs`.  Where a mark stands inside a regular expression the scan is wrong,
and code gains a star (`gains_star_slashedText`).
-/
import UiFormat.Proofs.Ets.LineAgreement
import UiFormat.Proofs.Layout.Settled

namespace UiFormat.Ets

open UiFormat.Text
open UiFormat.Parse
open UiFormat.Layout

set_option autoImplicit false

/-! ## The end of a comment -/

/-- Behind a front that does not reach the closing mark, the mark is as much nearer. -/
theorem lengthThrough_drop {text : Text} {n : Nat}
    (less : n < lengthThrough "*/".toList text) (other : (text.drop n).head? ≠ some '/') :
    n + lengthThrough "*/".toList (text.drop n) = lengthThrough "*/".toList text := by
  induction n generalizing text with
  | zero => exact Nat.zero_add _
  | succ n ih =>
      cases text with
      | nil => cases less
      | cons c text =>
          rw [lengthThrough_cons] at less ⊢
          split at less
          · rename_i closes
            obtain ⟨later, split⟩ := List.isPrefixOf_iff_prefix.1 closes
            obtain ⟨-, rfl⟩ := List.cons.inj split
            obtain rfl : n = 0 := by omega
            exact absurd rfl other
          · rename_i goesOn
            have later := ih (Nat.lt_of_succ_lt_succ less) other
            rw [if_neg goesOn, List.drop_succ_cons, ← later]
            omega

theorem lengthThrough_le (text : Text) : lengthThrough "*/".toList text ≤ text.length := by
  induction text with
  | nil => exact Nat.le_refl _
  | cons c text ih =>
      rw [lengthThrough_cons]
      split
      · rename_i closes
        obtain ⟨later, split⟩ := List.isPrefixOf_iff_prefix.1 closes
        rw [← split, List.length_append]
        exact Nat.le_add_right 2 later.length
      · exact Nat.succ_le_succ ih

/-- A doc comment ends behind the first closing mark after its opening. -/
theorem stop_of_docComment {source : Text} {t : Tok} (member : t ∈ lexemes source)
    (isDoc : t.kind = .docComment) :
    t.stop = t.start + 2 + lengthThrough "*/".toList (source.drop (t.start + 2)) := by
  obtain ⟨operandBefore, c, rest, here, kind, text⟩ := exists_lexeme_of_mem member
  obtain ⟨front, back, split⟩ := List.append_of_mem member
  have stop := (split ▸ tiles_lexemes source).stop_eq
  obtain ⟨some, extent⟩ := (lexeme_spans operandBefore c rest).2 (kind ▸ isDoc)
  have behind : source.drop (t.start + 2) = rest.drop 1 := by
    rw [← List.drop_drop, here]
    rfl
  have fits := lengthThrough_le (rest.drop 1)
  have filled := List.length_pos_iff.2 some
  rw [List.length_drop] at fits
  rw [stop, text, behind, extent, List.length_cons, List.length_take]
  omega

/-! ## The scan inside doc comments -/

/-- The mark of a doc comment stands at a place only inside a doc comment. -/
def DocMarked (text : Text) : Prop :=
  ∀ place, startsWith (text.drop place) "/**".toList = true →
    startsWith (text.drop place) "/**/".toList = false →
      ∃ t ∈ lexemes text, t.kind = .docComment ∧ t.start ≤ place ∧ place + 3 ≤ t.stop

/-- Where the scan by lines is inside a doc comment, so is the lexer, and both will find the
same end. -/
def Docked (text : Text) (s : ScanState) (place : Nat) (rest : Text) : Prop :=
  s.inComment = true → s.docComment = true →
    ∃ t ∈ lexemes text, t.kind = .docComment ∧ t.start < place ∧
      place + lengthThrough "*/".toList rest = t.stop

/-- Outside comments a step opens a block comment or stays outside. -/
theorem step_outside {s : ScanState} (outside : s.inComment = false) {c : Char} {line : Text}
    {here : Step} (goes : step s c line = some here) :
    here.state.inComment = false ∨
      (c = '/' ∧ startsWith line ['*'] = true ∧ here = openComment s line) := by
  rw [step, outside, if_neg (by decide)] at goes
  have unchanged : (codeStep s c).state.inComment = false := by
    fun_cases codeStep s c <;> exact outside
  split at goes
  · obtain rfl := Option.some.inj goes
    refine .inl ?_
    fun_cases literalStep s _ c line <;> exact outside
  · split at goes
    · obtain rfl := Option.some.inj goes
      exact .inl outside
    · split at goes
      · cases goes
      · split at goes
        · rename_i opens
          rw [Bool.and_eq_true, decide_eq_true_iff] at opens
          exact .inr ⟨opens.1, opens.2, (Option.some.inj goes).symm⟩
        · refine .inl ?_
          split at goes
          · obtain rfl := Option.some.inj goes
            exact outside
          · split at goes
            · obtain rfl := Option.some.inj goes
              rfl
            · obtain rfl := Option.some.inj goes
              exact unchanged

theorem docked_openComment {text : Text} (marked : DocMarked text) {s : ScanState} {place : Nat}
    {rest : Text} (here : text.drop place = '/' :: rest) :
    Docked text (openComment s (rest.takeWhile (!isBreak ·))).state (place + 2) (rest.drop 1) := by
  intro _ isDoc
  have stars : startsWith rest "**".toList = true ∧ startsWith rest "**/".toList = false := by
    have marks : startsWith (rest.takeWhile (!isBreak ·)) "**".toList = true ∧
        startsWith (rest.takeWhile (!isBreak ·)) "**/".toList = false := by
      simpa [openComment] using isDoc
    rwa [startsWith_takeWhile (forall_mem_of_all (by decide)),
      startsWith_takeWhile (forall_mem_of_all (by decide))] at marks
  obtain ⟨later, rfl⟩ := List.isPrefixOf_iff_prefix.1 stars.1
  obtain ⟨t, member, docKind, before, behind⟩ := marked place
    (by rw [here]; exact stars.1) (by rw [here]; exact stars.2)
  have stop := stop_of_docComment member docKind
  have onward : (text.drop (t.start + 2)).drop (place - t.start) = '*' :: later := by
    rw [List.drop_drop, show t.start + 2 + (place - t.start) = place + 2 by omega, ← List.drop_drop,
      here]
    rfl
  have within : place - t.start < lengthThrough "*/".toList (text.drop (t.start + 2)) := by omega
  have nearer := lengthThrough_drop within (by rw [onward]; simp)
  rw [onward] at nearer
  refine ⟨t, member, docKind, by omega, ?_⟩
  rw [show ("**".toList ++ later).drop 1 = '*' :: later from rfl]
  omega

theorem Docked.step {text : Text} (marked : DocMarked text) {s : ScanState} {place : Nat} {c : Char}
    {rest : Text} (here : text.drop place = c :: rest) (plain : isBreak c = false)
    (docked : Docked text s place (c :: rest))
    {next : Step} (goes : Layout.step s c (rest.takeWhile (!isBreak ·)) = some next) :
    Docked text next.state (place + (min next.extra (rest.takeWhile (!isBreak ·)).length + 1))
      (rest.drop (min next.extra (rest.takeWhile (!isBreak ·)).length)) := by
  cases inside : s.inComment with
  | false =>
      rcases step_outside inside goes with outside | ⟨rfl, opens, rfl⟩
      · intro inComment
        rw [outside] at inComment
        cases inComment
      · have reach : min 1 (rest.takeWhile (!isBreak ·)).length = 1 := by
          obtain ⟨later, line⟩ := List.isPrefixOf_iff_prefix.1 opens
          rw [← line, List.singleton_append, List.length_cons]
          omega
        rw [show (openComment s (rest.takeWhile (!isBreak ·))).extra = 1 from rfl, reach]
        exact docked_openComment marked here
  | true =>
      rw [Layout.step, if_pos inside, commentStep, isSome_after?] at goes
      split at goes
      · obtain rfl := Option.some.inj goes
        intro inComment
        cases inComment
      · rename_i goesOn
        obtain rfl := Option.some.inj goes
        intro _ isDoc
        obtain ⟨t, member, docKind, before, stop⟩ := docked inside isDoc
        refine ⟨t, member, docKind, by omega, ?_⟩
        rw [lengthThrough_cons, if_neg] at stop
        · rw [show (Step.skip s 0).extra = 0 from rfl, Nat.zero_min, List.drop_zero]
          omega
        · rwa [← startsWith_takeWhile breakFree_closing,
            List.takeWhile_cons_of_pos (by simp [plain])]

/-- Every line that the scan sees start inside a doc comment does. -/
theorem covers_of_trace {text : Text} (marked : DocMarked text) (rest : Text) :
    ∀ {s : ScanState} {place : Nat}, text.drop place = rest → Docked text s place rest →
      ∀ {start : Nat} {setting : Setting}, .line start setting ∈ trace s place rest →
        setting.inDoc = true → ∃ t ∈ lexemes text, t.kind = .docComment ∧ Covers t start := by
  induction rest using break_induction with
  | nil =>
      intro s place here docked start setting member
      rw [trace_nil] at member
      cases member
  | char c rest plain ih =>
      intro s place here docked start setting member inDoc
      have further : ∀ n, text.drop (place + (n + 1)) = rest.drop n := by
        intro n
        rw [Nat.add_comm n, ← Nat.add_assoc, ← List.drop_drop, ← List.drop_drop, here]
        rfl
      have shorter : ∀ n, (rest.drop n).length ≤ rest.length := by
        intro n
        rw [List.length_drop]
        exact Nat.sub_le _ _
      cases goes : step s c (rest.takeWhile (!isBreak ·)) with
      | none =>
          rw [trace_of_none plain goes] at member
          refine ih _ (shorter _) (further _) (fun inside => ?_) member inDoc
          rw [step, if_pos inside] at goes
          cases goes
      | some next =>
          rw [trace_of_some plain goes, List.mem_append] at member
          rcases member with bracket | later
          · obtain ⟨c, -, impossible⟩ := List.mem_map.1 bracket
            cases impossible
          · exact ih _ (shorter _) (further _) (docked.step marked here plain goes) later inDoc
  | terminator eol rest isEol apart ih =>
      intro s place here docked start setting member inDoc
      have absent : '*' ∉ eol := by
        rcases isEol with rfl | rfl | rfl <;> decide
      have further : text.drop (place + eol.length) = rest := by
        rw [← List.drop_drop, here, List.drop_left]
      have later : Docked text s (place + eol.length) rest := by
        intro inside isDoc
        obtain ⟨t, inLexemes, docKind, before, stop⟩ := docked inside isDoc
        rw [lengthThrough_append absent] at stop
        exact ⟨t, inLexemes, docKind, by omega, by omega⟩
      rw [trace_terminator_append isEol apart, List.mem_cons] at member
      rcases member with first | behind
      · obtain ⟨rfl, rfl⟩ := Item.line.inj first
        rw [ScanState.setting, Bool.and_eq_true] at inDoc
        obtain ⟨t, inLexemes, docKind, before, stop⟩ := later inDoc.1 inDoc.2
        exact ⟨t, inLexemes, docKind, before, by omega⟩
      · exact ih further later behind inDoc

/-- The scan by lines takes no line to start inside a doc comment that does not. -/
theorem covers_of_inDoc {text : Text} (marked : DocMarked text) {start : Nat} {scan : LineScan}
    (member : (start, scan) ∈ (lineStarts text).zip (scanLines .start (lines text)))
    (inDoc : scan.setting.inDoc = true) :
    ∃ t ∈ tokenize text, t.kind = .docComment ∧ Covers t start := by
  have item : .line start scan.setting ∈
      Item.line 0 ScanState.start.setting :: trace .start 0 text := by
    rw [← lineItems_lines, lineItems, List.mem_flatMap]
    exact ⟨(start, scan), member, List.mem_cons_self⟩
  rcases List.mem_cons.1 item with first | later
  · rw [(Item.line.inj first).2] at inDoc
    cases inDoc
  · obtain ⟨t, inLexemes, isDoc, covers⟩ :=
      covers_of_trace marked text rfl (fun inside => by cases inside) later inDoc
    exact ⟨t, List.mem_append_left _ inLexemes, isDoc, covers⟩

/-! ## Lines that gain a star -/

/-- A line behind a star of its own. -/
def starred (trimmed : Text) : Text :=
  '*' :: (if trimmed.isEmpty then [] else ' ' :: trimmed)

theorem trim_unstarredComment {unit : Text} (blank : ∀ c ∈ unit, isBlank c = true) (level : Int)
    (raw : Text) :
    trim ((Placement.unstarredComment level (trim raw)).write unit).text = starred (trim raw) := by
  have spaced : ∀ c ∈ times unit level ++ [' '], isBlank c = true := by
    intro c member
    rcases List.mem_append.1 member with inUnit | isSpace
    · exact blank c (mem_of_mem_times inUnit)
    · rw [List.mem_singleton.1 isSpace]
      decide
  have written : ((Placement.unstarredComment level (trim raw)).write unit).text =
      (times unit level ++ [' ']) ++ starred (trim raw) := by
    simp [Placement.write, starred]
  have ends : trimEnd (starred (trim raw)) = starred (trim raw) := by
    have star : (['*'] : Text).getLast? = some '*' := rfl
    rw [starred]
    split
    · exact trimEnd_of_getLast? star (by decide)
    · rename_i filled
      exact trimEnd_append_trim ['*', ' '] (by simpa using filled)
  rw [written, trim_blank_append _ spaced, trim, trimStart_of_head? (c := '*') rfl (by decide),
    ends]

/-- What reindenting makes of a line, trimmed: the line stays as it is, or it gains a star
where `inDoc` holds of its start. -/
def KeepsLine (inDoc : Nat → Prop) (row : Nat × Text) (out : Text) : Prop :=
  out = trim row.2 ∨ (out = starred (trim row.2) ∧ inDoc row.1)

theorem placeComment_keeps (s : LayoutState) (scan : LineScan) (raw : Text) :
    Places false raw (placeComment true s scan raw) ∨
      (scan.commentIsDoc = true ∧
        placeComment true s scan raw = .unstarredComment s.commentLevel (trim raw)) := by
  fun_cases placeComment true s scan raw with
  | case1 => exact .inl (.starredComment _)
  | case2 _ _ isDoc => exact .inr ⟨by simpa using isDoc, rfl⟩
  | case3 => exact .inl .keptComment

/-- One line: it is placed like one that is not normalised, or it starts inside a doc comment
and gains a star. -/
theorem place_keeps (base : Int) (s : LayoutState) (raw : Text) :
    Places false raw (place base true s raw).1 ∨
      ((s.scanner.scan raw).1.setting.inDoc = true ∧
        ∃ level, (place base true s raw).1 = .unstarredComment level (trim raw)) := by
  unfold place
  dsimp only
  split
  · exact .inl .verbatim
  · split
    · rename_i inComment
      refine (placeComment_keeps _ _ raw).imp_right fun ⟨isDoc, same⟩ => ⟨?_, _, same⟩
      rw [LineScan.setting, inComment, isDoc]
      rfl
    · split
      · rename_i empty
        exact .inl (.blank (List.isEmpty_iff.1 empty))
      · exact .inl (.indented _)

/-- All lines: what is written, trimmed, is kept line by line. -/
theorem placeAll_keeps {unit : Text} (blank : ∀ c ∈ unit, isBlank c = true) (base : Int)
    {inDoc : Nat → Prop} {starts : List Nat} {raws : List Text} {s : LayoutState}
    (lengths : starts.length = raws.length)
    (inside : ∀ start scan, (start, scan) ∈ starts.zip (scanLines s.scanner raws) →
      scan.setting.inDoc = true → inDoc start) :
    List.Forall₂ (KeepsLine inDoc) (starts.zip raws)
      ((((placeAll base true s raws).map (·.write unit)).map (·.text)).map trim) := by
  induction raws generalizing starts s with
  | nil =>
      rw [List.zip_nil_right]
      exact .nil
  | cons raw raws ih =>
      cases starts with
      | nil => cases lengths
      | cons start starts =>
          rw [scanLines, List.zip_cons_cons] at inside
          rw [placeAll_cons, List.map_cons, List.map_cons, List.map_cons, List.zip_cons_cons]
          refine .cons ?_ (ih (Nat.succ.inj lengths) ?_)
          · rcases place_keeps base s raw with same | ⟨isDoc, level, starredHere⟩
            · exact .inl (trim_write blank same)
            · rw [starredHere]
              exact .inr ⟨trim_unstarredComment blank level raw,
                inside start _ List.mem_cons_self isDoc⟩
          · rw [scanner_place]
            exact fun start scan member => inside start scan (List.mem_cons_of_mem _ member)

/-- The partners of what a filter keeps. -/
theorem exists_sublist_filter {α β : Type} {R : α → β → Prop} (p : β → Bool) {as : List α}
    {bs : List β} (related : List.Forall₂ R as bs) :
    ∃ kept, kept.Sublist as ∧ (∀ a ∈ as, a ∈ kept ∨ ∃ b, R a b ∧ p b = false) ∧
      List.Forall₂ R kept (bs.filter p) := by
  induction related with
  | nil => exact ⟨[], .refl _, by simp, .nil⟩
  | @cons a b as bs here _ ih =>
      obtain ⟨kept, sub, rest, pairs⟩ := ih
      cases keeps : p b with
      | true =>
          refine ⟨a :: kept, sub.cons_cons a, ?_, ?_⟩
          · rintro other member
            rcases List.mem_cons.1 member with rfl | later
            · exact .inl List.mem_cons_self
            · exact (rest other later).imp_left (List.mem_cons_of_mem a)
          · rw [List.filter_cons_of_pos keeps]
            exact .cons here pairs
      | false =>
          refine ⟨kept, sub.cons a, ?_, ?_⟩
          · rintro other member
            rcases List.mem_cons.1 member with rfl | later
            · exact .inr ⟨b, here, keeps⟩
            · exact rest other later
          · rw [List.filter_cons_of_neg (by simp [keeps])]
            exact pairs

/-- Every line that reindenting writes is a line of the source, trimmed, and no line that says
something is left out; a line gains a star only where the scan by lines takes it to start
inside a doc comment. -/
theorem exists_kept_rows {unit : Text} (blank : ∀ c ∈ unit, isBlank c = true) (base : Int)
    {text : Text} {inDoc : Nat → Prop}
    (inside : ∀ start scan, (start, scan) ∈ (lineStarts text).zip (scanLines .start (lines text)) →
      scan.setting.inDoc = true → inDoc start) :
    ∃ rows, rows.Sublist ((lineStarts text).zip (lines text)) ∧
      (∀ row ∈ (lineStarts text).zip (lines text), trim row.2 ≠ [] → row ∈ rows) ∧
      List.Forall₂ (KeepsLine inDoc) rows (shown (reindentLines base unit true text)) := by
  have each := placeAll_keeps (s := .start base) blank base (length_lineStarts text) inside
  obtain ⟨rows, sub, rest, pairs⟩ := exists_sublist_filter (fun line => !line.isEmpty) each
  refine ⟨rows, sub, fun row member filled => ?_, ?_⟩
  · refine (rest row member).resolve_right ?_
    rintro ⟨out, kept | ⟨gains, -⟩, silent⟩
    · rw [kept] at silent
      exact filled (List.isEmpty_iff.1 (by simpa using silent))
    · rw [gains] at silent
      cases silent
  · rw [shown_reindentLines_placed]
    exact pairs

instance (text : Text) : Decidable (DocMarked text) :=
  decidable_of_iff (∀ place ∈ List.range text.length,
      startsWith (text.drop place) "/**".toList = true →
        startsWith (text.drop place) "/**/".toList = false →
          ∃ t ∈ lexemes text, t.kind = .docComment ∧ t.start ≤ place ∧ place + 3 ≤ t.stop) <| by
    refine ⟨fun holds place opens => ?_, fun marked place _ => marked place⟩
    refine holds place (List.mem_range.2 ?_) opens
    by_contra outside
    rw [List.drop_eq_nil_of_le (Nat.not_lt.1 outside)] at opens
    cases opens

/-- **Only the lines of doc comments gain a star.**  Where every mark of a doc comment belongs
to one, or every token can be followed line by line, the lines that say something are those
of the source in order, each as it was except that a line that starts inside a doc comment
may gain a star. -/
theorem gains_star_only_in_docs {unit : Text} (blank : ∀ c ∈ unit, isBlank c = true) (base : Int)
    {text : Text}
    (followed : DocMarked text ∨ ∀ t ∈ tokenize text, isLinear t.kind t.text = true) :
    ∃ rows, rows.Sublist ((lineStarts text).zip (lines text)) ∧
      (∀ row ∈ (lineStarts text).zip (lines text), trim row.2 ≠ [] → row ∈ rows) ∧
      List.Forall₂ (KeepsLine fun start => ∃ t ∈ tokenize text, t.kind = .docComment ∧ Covers t start)
        rows (shown (reindentLines base unit true text)) := by
  refine exists_kept_rows blank base fun start scan member inDoc => ?_
  rcases followed with marked | linear
  · exact covers_of_inDoc marked member inDoc
  · have agree := (setting_iff linear Setting.inDoc rfl member).1 inDoc
    simpa only [Kind.inDoc_setting] using agree

/-- A regular expression with a quote, and a doc comment with lines that have no star. -/
def quotedText : Text :=
  "r = /\"/\n/**\n  text\n\n */\nf()\n".toList

theorem gains_star_quotedText :
    (∀ c ∈ "  ".toList, isBlank c = true) ∧ DocMarked quotedText ∧
      reindentLines 0 "  ".toList true quotedText =
        ["r = /\"/", "/**", " * text", " *", " */", "f()"].map (·.toList) ∧
      ∃ rows, rows.Sublist ((lineStarts quotedText).zip (lines quotedText)) ∧
        (∀ row ∈ (lineStarts quotedText).zip (lines quotedText), trim row.2 ≠ [] → row ∈ rows) ∧
        List.Forall₂
          (KeepsLine fun start => ∃ t ∈ tokenize quotedText, t.kind = .docComment ∧ Covers t start)
          rows (shown (reindentLines 0 "  ".toList true quotedText)) := by
  have blank : ∀ c ∈ "  ".toList, isBlank c = true := forall_mem_of_all (by decide)
  have decided : DocMarked quotedText ∧ reindentLines 0 "  ".toList true quotedText =
      ["r = /\"/", "/**", " * text", " *", " */", "f()"].map (·.toList) := by
    rw [show quotedText = _ from String.toList_ofList]
    decide +kernel
  exact ⟨blank, decided.1, decided.2, gains_star_only_in_docs blank 0 (.inl decided.1)⟩

/-- The mark of a doc comment inside a regular expression. -/
def slashedText : Text :=
  "x = /[/**]/\ny\n".toList

/-- The scan by lines takes the mark for the start of a comment, and code gains a star. -/
theorem gains_star_slashedText :
    reindentLines 0 "  ".toList true slashedText =
        ["x = /[/**]/", " * y", " *"].map (·.toList) ∧
      ¬ ∃ t ∈ tokenize slashedText, t.kind = .docComment := by
  rw [show slashedText = _ from String.toList_ofList]
  decide +kernel

end UiFormat.Ets

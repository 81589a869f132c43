/-
# UiFormat.Proofs.Markup.Idempotence -- formatting markup twice

What is formatted once is formatted for good (`text_format_format`).  A document that
is rejected is left alone, before its first formatting and after it, so only a text
that is accepted after formatting can change again.  Where the nodes of its source
survive printing, it is parsed to nodes that are laid out as those of the source
(`Alike`), and what is laid out alike is printed alike.

Nodes that do not survive are mostly found out, because the formatted text is rejected.
A string in a bare interpolation can go unnoticed: the double quotes around it end the
value early, what is left of it is read as further attributes, and these are written
anew (`text_format_format_ne`).
-/
import UiFormat.Proofs.Markup.DocumentRoundTrip

namespace UiFormat.Markup

open UiFormat.Text
open UiFormat.Parse

set_option autoImplicit false

/-- A document is printed by its lines. -/
theorem printDocument_of_alike {o : Options} {ms ns : List Node} (alike : Alike (blockLines o 0) ms ns) :
    printDocument o ms = printDocument o ns := by
  have shown : visible (printBlock o 0 ms) = visible (printBlock o 0 ns) := alike.shown
  rw [printDocument, printDocument, shown]

/-- A document that is rejected stays as it is. -/
theorem text_format_of_errors {source : Text} (o : Options) (rejected : (parse source).errors ≠ []) :
    (format o source).text = source := by
  have some : (parse source).errors.isEmpty = false := List.isEmpty_eq_false_iff.2 rejected
  simp only [format, some, Bool.false_eq_true, if_false]

/-- **What is formatted once is formatted for good**, provided that the nodes of the
source survive printing whenever the formatted text is accepted. -/
theorem text_format_format {source : Text} {o : Options}
    (eol : o.eol = ['\n'] ∨ o.eol = ['\r', '\n'])
    (survive : (parse (format o source).text).errors = [] →
      allSurvive (parse source).children = true) :
    (format o (format o source).text).text = (format o source).text := by
  by_cases accepted : (parse (format o source).text).errors = []
  · have silent : (parse source).errors = [] := by
      by_contra rejected
      rw [text_format_of_errors o rejected] at accepted
      exact rejected accepted
    obtain ⟨ns, again, alike⟩ := exists_parse_format eol silent (survive accepted)
    calc (format o (format o source).text).text
        = printDocument o (parse (format o source).text).children := text_format_of_silent o accepted
      _ = printDocument o (parse source).children := by rw [again, printDocument_of_alike alike]
      _ = (format o source).text := (text_format_of_silent o silent).symm
  · exact text_format_of_errors o accepted

/-- Blanks everywhere: between and inside texts, around the children of elements within
a line and of blocks, and between attributes. -/
def airyDocument : Text :=
  ("<b>  a \n b <i   c = d >x  </i>\x7b\x7b a?b :(c) \x7d\x7d  </b>\n\n\n" ++
    "<div k=\x27\x7b\x7bx\x7d\x7d\x27  ><p/>  t\n<hr>  </div  >").toList

theorem text_format_format_airy :
    (parse (format .markup airyDocument).text).errors = [] ∧
      (format .markup airyDocument).text ≠ airyDocument ∧
      (format .markup (format .markup airyDocument).text).text = (format .markup airyDocument).text := by
  have decided : (parse (format .markup airyDocument).text).errors.isEmpty = true ∧
      (format .markup airyDocument).text ≠ airyDocument ∧
      allSurvive (parse airyDocument).children = true := by
    rw [show airyDocument = _ from toList_append_ofList]
    decide +kernel
  exact ⟨List.isEmpty_iff.1 decided.1, decided.2.1,
    text_format_format (.inl rfl) fun _ => decided.2.2⟩

/-- A bare interpolation with a string that looks like an attribute. -/
def disguisedDocument : Text :=
  "<div a=\x7b\x7b \x22  b=\x22 \x7d\x7d></div>".toList

/-- Formatting twice can change what formatting once has written. -/
theorem text_format_format_ne :
    (format .markup (format .markup disguisedDocument).text).text ≠
      (format .markup disguisedDocument).text := by
  rw [show disguisedDocument = _ from String.toList_ofList]
  decide +kernel

end UiFormat.Markup

import Lexis.Proofs.Composition
import Lexis.Proofs.Cut

set_option autoImplicit false

/-! # Scanning goes on behind an error

A character with which nothing starts is one error, and the scan goes on right behind it as if the
text started there. This holds wherever the character is not inside of something: a string or a
block comment that is still open would take it in, and so would a comment that runs to the end of
its line. A text without errors that more input could mend has none of the former, and one that is
empty, ends with a line feed or ends with a token does not stop in the latter
(`getLast?_ne_lineComment`). -/

namespace Lexis

/-! ## Texts that do not stop in a comment -/

namespace Trace

/-- Behind its last token a text has room for a comment only if it is longer. -/
theorem stop_lt_of_concat_lineComment {init : List Segment} {body : List Char} {t : Token}
    (h : t ∈ tokens (place Segment.text .origin (init ++ [.lineComment body]))) :
    t.span.stop < Text.size (Segment.textOf (init ++ [.lineComment body])) := by
  have hinit : t ∈ tokens (place Segment.text .origin init) := by
    rw [place_append, tokens_append] at h
    simpa [place, tokens, Placed.token?, Segment.token?] using h
  have hstop := stop_le_of_mem_tokens hinit
  have hcomment : 0 < Text.size (Segment.lineComment body).text := by
    refine Text.size_pos ?_
    simp [Segment.text]
  rw [Position.offset_origin] at hstop
  rw [Segment.textOf_append, Segment.textOf_cons, Text.size_append, Text.size_append]
  omega

/-- A text that is empty, ends with a line feed or ends with its last token does not stop in a
    comment. -/
theorem getLast?_ne_lineComment {cs : List Char}
    (h : cs = [] ∨ cs.getLast? = some '\n' ∨
      ∃ t, (ofText cs).tokens.getLast? = some t ∧ t.span.stop = Text.size cs) (body : List Char) :
    (Segment.readAll cs).getLast? ≠ some (.lineComment body) := by
  intro hlast
  obtain ⟨init, hsegments⟩ := List.getLast?_eq_some_iff.1 hlast
  have htext := Segment.textOf_readAll cs
  have hrow := Segment.row_readAll cs
  rw [hsegments] at htext hrow
  rcases h with rfl | hnewline | ⟨t, ht, hstop⟩
  · simp [Segment.text] at htext
  · -- the last character is one of the comment, which has no line feed
    have hbody : '\n' ∉ body := (Segment.row_append.1 hrow).2.1.wellFormed
    have hmem : '\n' ∈ '/' :: '/' :: body := by
      refine List.mem_of_getLast? ?_
      rw [← htext, Segment.textOf_append, List.getLast?_append] at hnewline
      simpa [Segment.text] using hnewline
    simp [hbody] at hmem
  · have hmem : t ∈ (ofText cs).tokens := List.mem_of_getLast? ht
    rw [ofText, hsegments] at hmem
    have hlt := stop_lt_of_concat_lineComment hmem
    rw [htext, hstop] at hlt
    exact absurd hlt (Nat.lt_irrefl _)

/-- A text that is closed and does not stop in a comment, a character with which nothing starts, and
    another text are three traces in a row. -/
theorem ofText_append_unexpected {as : List Char} (bs : List Char) {c : Char}
    (hc : StartsNothing c) (hclosed : (Segment.readAll as).any Segment.isOpen = false)
    (hlast : ∀ body, (Segment.readAll as).getLast? ≠ some (.lineComment body)) :
    ofText (as ++ c :: bs) = ofText as ++ ⟨Position.origin.after as, .unexpected c⟩ ::
      place Segment.text (Position.origin.after (as ++ [c])) (Segment.readAll bs) := by
  have hrow := (Segment.row_readAll as).before_separator hc.isSeparator hclosed (.inr hlast) bs
  rw [ofText_append hrow, Segment.readAll_unexpected hc, place, Position.after_append]
  rfl

end Trace

namespace Scanner

/-- A character with which nothing starts is reported once and passed over: what is found behind it
    is what a scan of the text behind it finds, shifted to start there. -/
theorem scan_append_unexpected (s : Scanner) (a b : String) {c : Char} (hc : StartsNothing c)
    (hclosed : ∀ e ∈ (s.scan a).1.errors, e.isUnterminated = false)
    (hend : a = "" ∨ a.toList.getLast? = some '\n' ∨
      ∃ t, (s.scan a).2.tokens.getLast? = some t ∧ t.span.stop = a.utf8ByteSize) :
    (s.scan (a ++ String.singleton c ++ b)).2.tokens =
        (s.scan a).2.tokens ++
          (s.scan b).2.tokens.map (Token.shift (Position.origin.after (a.toList ++ [c]))) ∧
      (s.scan (a ++ String.singleton c ++ b)).1.errors =
        (s.scan a).1.errors ++
          ⟨.unexpectedCharacter c, Position.origin.after a.toList, a.utf8ByteSize + c.utf8Size⟩ ::
          (s.scan b).1.errors.map (LexError.shift (Position.origin.after (a.toList ++ [c]))) := by
  have htext : (a ++ String.singleton c ++ b).toList = a.toList ++ c :: b.toList := by simp
  have hopen : (Segment.readAll a.toList).any Segment.isOpen = false := by
    rw [← Trace.any_isUnterminated_errors .origin, List.any_eq_false]
    intro e he
    rw [hclosed e he]
    exact Bool.false_ne_true
  have hlast : ∀ body, (Segment.readAll a.toList).getLast? ≠ some (.lineComment body) := by
    refine Trace.getLast?_ne_lineComment ?_
    rw [Text.size_toList, String.toList_eq_nil_iff]
    exact hend
  have htrace := Trace.ofText_append_unexpected b.toList hc hopen hlast
  have hoffset : (Position.origin.after a.toList).offset = a.utf8ByteSize := by
    rw [Position.offset_after, Position.offset_origin, Nat.zero_add, Text.size_toList]
  rw [tokens_scan, tokens_scan, tokens_scan, errors_scan, errors_scan, errors_scan, htext, htrace,
    Trace.tokens_append, Trace.errors_append, Trace.tokens_cons, Trace.errors_cons,
    Trace.tokens_place_after, Trace.errors_place_after, ← hoffset]
  exact ⟨rfl, rfl⟩

/-- A character of two bytes between two that would be one token without it, behind an error and on
    the second line. -/
theorem scan_append_unexpected_between :
    StartsNothing 'é' ∧
      (∀ e ∈ (scan {} "~\n<").1.errors, e.isUnterminated = false) ∧
      (scan {} "~\n<").2.tokens.getLast? = some ⟨.symbol .less, "<", none, ⟨2, 2, 1⟩, 3⟩ ∧
      (scan {} "~\n<é= `\nx").2.tokens =
        (scan {} "~\n<").2.tokens ++ (scan {} "= `\nx").2.tokens.map (Token.shift ⟨5, 2, 3⟩) ∧
      (scan {} "~\n<é= `\nx").1.errors =
        (scan {} "~\n<").1.errors ++ ⟨.unexpectedCharacter 'é', ⟨3, 2, 2⟩, 5⟩ ::
          (scan {} "= `\nx").1.errors.map (LexError.shift ⟨5, 2, 3⟩) := by
  have hc : StartsNothing 'é' :=
    Text.startsNothing_of_not_printed (by decide) (by decide)
  have hclosed : ∀ e ∈ (scan {} "~\n<").1.errors, e.isUnterminated = false := by decide +kernel
  have hlast : (scan {} "~\n<").2.tokens.getLast? =
      some ⟨.symbol .less, "<", none, ⟨2, 2, 1⟩, 3⟩ := by decide +kernel
  have hscan := scan_append_unexpected {} "~\n<" "= `\nx" hc hclosed (.inr (.inr ⟨_, hlast, rfl⟩))
  exact ⟨hc, hclosed, hlast, hscan⟩

end Scanner

end Lexis

import Lexis.Proofs.Motion
import Lexis.Proofs.OpenText
import Lexis.Proofs.Separator

set_option autoImplicit false

/-! # Scans of composed texts

A text that needs no more input can be cut off at the end of its last line: no segment of it looks
past a line feed, so its row also ends before one (`Row.before_separator`), and what follows the
line feed is scanned as a text of its own that was moved down (`scan_append_newline`). -/

namespace Lexis

/-! ## Segments -/

namespace Segment

theorem readAll_append_newline {as : List Char} (h : (readAll as).any isOpen = false)
    (bs : List Char) : readAll (as ++ '\n' :: bs) = readAll as ++ blank '\n' :: readAll bs := by
  have hnewline : IsSeparator '\n' := isSeparator_of_isBlank rfl
  have hrow := (row_readAll as).before_separator hnewline h (.inl rfl) bs
  rw [readAll_append hrow, readAll_blank rfl]

end Segment

/-! ## Traces -/

/-- Behind whole lines a text starts in the first column. -/
theorem Position.after_newline (cs : List Char) :
    origin.after (cs ++ ['\n']) =
      (Motion.down (Text.size cs + 1) (cs.count '\n' + 1)).apply origin := by
  have hoffset := origin.offset_after cs
  have hline := origin.line_after cs
  rw [after_append, after_cons, after_nil, next, if_pos rfl, hoffset, hline]
  show (⟨0 + Text.size cs + 1, 1 + cs.count '\n' + 1, 1⟩ : Position) =
    ⟨Text.size cs + 1 + 0, 1 + (cs.count '\n' + 1), 1⟩
  rw [Nat.zero_add, Nat.add_zero, Nat.add_assoc 1]

namespace Trace

/-- Two texts of which the first one is complete before the second have one trace behind the
    other. -/
theorem ofText_append {as bs : List Char} (h : Segment.Row bs (Segment.readAll as)) :
    ofText (as ++ bs) =
      ofText as ++ place Segment.text (Position.origin.after as) (Segment.readAll bs) := by
  have htext : (Segment.readAll as).flatMap Segment.text = as := Segment.textOf_readAll as
  rw [ofText, Segment.readAll_append h, place_append, htext]
  rfl

theorem ofText_append_newline {as : List Char}
    (h : (Segment.readAll as).any Segment.isOpen = false) (bs : List Char) :
    ofText (as ++ '\n' :: bs) = ofText as ++ ⟨Position.origin.after as, .blank '\n'⟩ ::
      place Segment.text ((Motion.down (Text.size as + 1) (as.count '\n' + 1)).apply .origin)
        (Segment.readAll bs) := by
  have hnewline : IsSeparator '\n' := isSeparator_of_isBlank rfl
  have hrow := (Segment.row_readAll as).before_separator hnewline h (.inl rfl) bs
  rw [ofText_append hrow, Segment.readAll_blank rfl, place, ← Position.after_newline,
    Position.after_append]
  rfl

end Trace

namespace Scanner

/-- A text that needs no more input and a text on the lines behind it are scanned apart: what is
    found in the second one is found further down, in the same columns. -/
theorem scan_append_newline (s : Scanner) (a b : String) (h : needsMoreInput a = false) :
    (s.scan (a ++ "\n" ++ b)).2.tokens =
        (s.scan a).2.tokens ++ (s.scan b).2.tokens.map
          (Token.move (.down (a.utf8ByteSize + 1) (a.toList.count '\n' + 1))) ∧
      (s.scan (a ++ "\n" ++ b)).1.errors =
        (s.scan a).1.errors ++ (s.scan b).1.errors.map
          (LexError.move (.down (a.utf8ByteSize + 1) (a.toList.count '\n' + 1))) := by
  rw [needsMoreInput_eq] at h
  have htext : (a ++ "\n" ++ b).toList = a.toList ++ '\n' :: b.toList := by simp
  rw [tokens_scan, tokens_scan, tokens_scan, errors_scan, errors_scan, errors_scan, htext,
    Trace.ofText_append_newline h, Trace.tokens_append, Trace.errors_append, ← Text.size_toList]
  constructor
  · rw [Trace.tokens_cons, Trace.tokens_place_apply _ Position.counted_origin]
    rfl
  · rw [Trace.errors_cons, Trace.errors_place_apply _ Position.counted_origin]
    rfl

/-- The first text has an error and stops in a comment, the second one has another error. -/
theorem scan_append_newline_error_comment :
    needsMoreInput "1. ~ // x" = false ∧
      (scan {} "1. ~ // x\n5 \"\\q\"").2.tokens =
        (scan {} "1. ~ // x").2.tokens ++ (scan {} "5 \"\\q\"").2.tokens.map
          (Token.move (.down 10 1)) ∧
      (scan {} "1. ~ // x\n5 \"\\q\"").1.errors =
        (scan {} "1. ~ // x").1.errors ++ (scan {} "5 \"\\q\"").1.errors.map
          (LexError.move (.down 10 1)) := by
  have hmore : needsMoreInput "1. ~ // x" = false := by decide +kernel
  exact ⟨hmore, scan_append_newline {} "1. ~ // x" "5 \"\\q\"" hmore⟩

end Scanner

end Lexis

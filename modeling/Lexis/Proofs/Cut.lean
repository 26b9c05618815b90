import Lexis.Proofs.Motion
import Lexis.Proofs.Places

set_option autoImplicit false

/-! # Cut texts

A text can be cut behind any of its segments. The segments before the cut are read again, since what
ends a segment before more text also ends it before less (`goesOn_of_append`); those behind it are
read again, since reading a segment does not look back. So a scan falls apart at the end of each
token into the scans of the two texts, where the second one is moved behind the first. -/

namespace Lexis

/-! ## Rows -/

namespace Segment

theorem goesOn_of_append {s : Segment} {cs ds : List Char} (h : s.goesOn (cs ++ ds) = false) :
    s.goesOn cs = false := by
  cases cs with
  | nil => exact goesOn_nil s
  | cons c cs =>
      cases s with
      | integer digits =>
          -- the only segment that looks at a second character
          cases cs with
          | nil => simp_all [goesOn]
          | cons d cs => exact h
      | _ => exact h

theorem Row.of_append {cs ds : List Char} {segments : List Segment}
    (h : Row (cs ++ ds) segments) : Row cs segments := by
  induction segments with
  | nil => trivial
  | cons s segments ih =>
      obtain ⟨hs, hrow⟩ := h
      rw [← List.append_assoc] at hs
      exact ⟨⟨hs.wellFormed, goesOn_of_append hs.complete⟩, ih hrow⟩

/-- The segments of a text, cut anywhere, are the segments of two texts. -/
theorem readAll_of_append {cs : List Char} {as bs : List Segment} (h : readAll cs = as ++ bs) :
    readAll (textOf as) = as ∧ readAll (textOf bs) = bs := by
  have hrow := row_readAll cs
  rw [h, row_append] at hrow
  obtain ⟨has, hbs⟩ := hrow
  exact ⟨readAll_eq_iff.2 ⟨rfl, @Row.of_append [] _ _ has⟩, readAll_eq_iff.2 ⟨rfl, hbs⟩⟩

end Segment

/-! ## Traces -/

theorem place_eq_append_iff {α : Type} {text : α → List Char} {start : Position} {pieces : List α}
    {s t : List (Placed α)} :
    place text start pieces = s ++ t ↔
      ∃ as bs, pieces = as ++ bs ∧ s = place text start as ∧
        t = place text (start.after (as.flatMap text)) bs := by
  constructor
  · intro h
    induction s generalizing start pieces with
    | nil => exact ⟨[], pieces, rfl, rfl, h.symm⟩
    | cons p s ih =>
        cases pieces with
        | nil => simp [place] at h
        | cons piece pieces =>
            obtain ⟨rfl, hrest⟩ := List.cons.inj h
            obtain ⟨as, bs, rfl, rfl, rfl⟩ := ih hrest
            exact ⟨piece :: as, bs, rfl, rfl, by simp [Position.after_append]⟩
  · rintro ⟨as, bs, rfl, rfl, rfl⟩
    exact place_append text start as bs

namespace Trace

/-- The trace of a text, cut anywhere, is the traces of two texts. -/
theorem ofText_of_append {cs : List Char} {s t : Trace} (h : ofText cs = s ++ t) :
    ∃ as bs, cs = as ++ bs ∧ s = ofText as ∧
      t = place Segment.text (Position.origin.after as) (Segment.readAll bs) := by
  obtain ⟨before, behind, hsegments, rfl, rfl⟩ := place_eq_append_iff.1 h
  obtain ⟨hbefore, hbehind⟩ := Segment.readAll_of_append hsegments
  have htext := Segment.textOf_readAll cs
  rw [hsegments, Segment.textOf_append] at htext
  refine ⟨Segment.textOf before, Segment.textOf behind, htext.symm, ?_, ?_⟩
  · rw [ofText, hbefore]
  · rw [hbehind]
    rfl

/-- Behind the segment of a token the trace can be cut. -/
theorem exists_of_tokens_eq {trace : Trace} {ts us : List Token} {t : Token}
    (h : trace.tokens = ts ++ t :: us) :
    ∃ before p behind, trace = before ++ [p] ++ behind ∧ tokens (before ++ [p]) = ts ++ [t] ∧
      p.token? = some t ∧ tokens behind = us := by
  obtain ⟨before, rest, rfl, hbefore, hrest⟩ := List.filterMap_eq_append_iff.1 h
  obtain ⟨silent, p, behind, rfl, hsilent, htoken, hbehind⟩ := List.filterMap_eq_cons_iff.1 hrest
  have hsilent : tokens silent = [] := List.filterMap_eq_nil_iff.2 hsilent
  refine ⟨before ++ silent, p, behind, by simp, ?_, htoken, hbehind⟩
  rw [tokens_append, tokens_append, hsilent, List.append_nil, show tokens before = ts from hbefore]
  simp [tokens, htoken]

/-- A token of the last segment of a text stops where the text does. -/
theorem stop_of_ofText_eq_concat {cs : List Char} {before : Trace} {p : Placed Segment} {t : Token}
    (h : ofText cs = before ++ [p]) (htoken : p.token? = some t) : t.span.stop = Text.size cs := by
  obtain ⟨as, bs, rfl, -, hlast⟩ := ofText_of_append h
  have htext := Segment.textOf_readAll bs
  cases hsegments : Segment.readAll bs with
  | nil => simp [hsegments, place] at hlast
  | cons segment segments =>
      rw [hsegments] at hlast htext
      obtain ⟨rfl, hrest⟩ := List.cons.inj hlast
      cases segments with
      | cons _ _ => simp [place] at hrest
      | nil =>
          obtain ⟨⟨kind, literal?⟩, -, rfl⟩ := Option.map_eq_some_iff.1 htoken
          simp [← htext, Token.span]

/-- The errors of a row that starts at a place are between there and its end. -/
theorem offset_of_mem_errors_row {tail : List Char} {segments : List Segment}
    (hrow : Segment.Row tail segments) {start : Position} {e : LexError}
    (h : e ∈ errors (place Segment.text start segments)) :
    start.offset ≤ e.span.start ∧
      e.span.start < start.offset + Text.size (Segment.textOf segments) := by
  obtain ⟨before, behind, htext, hne, hstart⟩ := exists_of_mem_errors hrow h
  have hpos := Text.size_pos hne
  have hspan : e.span.start = start.offset + Text.size before := by
    rw [← Position.offset_after, ← hstart]
    rfl
  rw [hspan, htext, Text.size_append]
  omega

/-- The errors of a text that starts at a place are between there and its end. -/
theorem offset_of_mem_errors {start : Position} {cs : List Char} {e : LexError}
    (h : e ∈ errors (place Segment.text start (Segment.readAll cs))) :
    start.offset ≤ e.span.start ∧ e.span.start < start.offset + Text.size cs := by
  have hoffset := offset_of_mem_errors_row (Segment.row_readAll cs) h
  rwa [Segment.textOf_readAll] at hoffset

/-- The errors before a cut and those behind it can be told apart by their offsets. -/
theorem filter_errors_cut (as bs : List Char) :
    let early := (ofText as).errors
    let late := errors (place Segment.text (Position.origin.after as) (Segment.readAll bs))
    (early ++ late).filter (·.span.start < Text.size as) = early ∧
      (early ++ late).filter (Text.size as ≤ ·.span.start) = late := by
  intro early late
  have hearly : ∀ e ∈ early, e.span.start < Text.size as := by
    intro e he
    have hoffset := offset_of_mem_errors he
    rw [Position.offset_origin] at hoffset
    omega
  have hlate : ∀ e ∈ late, Text.size as ≤ e.span.start := by
    intro e he
    have hoffset := offset_of_mem_errors he
    rw [Position.offset_after, Position.offset_origin] at hoffset
    omega
  constructor
  · have hkept : early.filter (·.span.start < Text.size as) = early :=
      List.filter_eq_self.2 (by simpa using hearly)
    have hdropped : late.filter (·.span.start < Text.size as) = [] :=
      List.filter_eq_nil_iff.2 (by simpa using hlate)
    rw [List.filter_append, hkept, hdropped, List.append_nil]
  · have hdropped : early.filter (Text.size as ≤ ·.span.start) = [] :=
      List.filter_eq_nil_iff.2 (by simpa using hearly)
    have hkept : late.filter (Text.size as ≤ ·.span.start) = late :=
      List.filter_eq_self.2 (by simpa using hlate)
    rw [List.filter_append, hdropped, hkept, List.nil_append]

theorem tokens_place_after (as bs : List Char) :
    tokens (place Segment.text (Position.origin.after as) (Segment.readAll bs)) =
      (ofText bs).tokens.map (Token.shift (Position.origin.after as)) :=
  tokens_place_apply (.shift (Position.origin.after as)) Position.counted_origin _

theorem errors_place_after (as bs : List Char) :
    errors (place Segment.text (Position.origin.after as) (Segment.readAll bs)) =
      (ofText bs).errors.map (LexError.shift (Position.origin.after as)) :=
  errors_place_apply (.shift (Position.origin.after as)) Position.counted_origin _

end Trace

namespace Scanner

/-- A scan can be cut behind any token: what is found before the end of the token is what a scan of
    the text up to there finds, and the rest is what a scan of the text behind it finds, shifted to
    start there. -/
theorem scan_cut (s : Scanner) (source : String) {ts us : List Token} {t : Token}
    (h : (s.scan source).2.tokens = ts ++ t :: us) :
    ∃ a b : String, source = a ++ b ∧ a.utf8ByteSize = t.span.stop ∧
      (s.scan a).2.tokens = ts ++ [t] ∧
      (s.scan a).1.errors = (s.scan source).1.errors.filter (·.span.start < t.span.stop) ∧
      us = (s.scan b).2.tokens.map (Token.shift (Position.origin.after a.toList)) ∧
      (s.scan source).1.errors.filter (t.span.stop ≤ ·.span.start) =
        (s.scan b).1.errors.map (LexError.shift (Position.origin.after a.toList)) := by
  obtain ⟨before, p, behind, htrace, hbefore, htoken, hbehind⟩ := Trace.exists_of_tokens_eq h
  obtain ⟨as, bs, htext, has, rfl⟩ := Trace.ofText_of_append htrace
  have hstop := Trace.stop_of_ofText_eq_concat has.symm htoken
  have herrors := congrArg Trace.errors htrace
  rw [has, Trace.errors_append] at herrors
  obtain ⟨hearly, hlate⟩ := Trace.filter_errors_cut as bs
  refine ⟨String.ofList as, String.ofList bs, ?_, ?_, ?_, ?_, ?_, ?_⟩
  · rw [← String.ofList_append, ← htext, String.ofList_toList]
  · rw [← Text.size_toList, String.toList_ofList, hstop]
  · rw [tokens_scan, String.toList_ofList, ← has, hbefore]
  · rw [errors_scan, errors_scan, String.toList_ofList, herrors, hstop, hearly]
  · rw [tokens_scan, String.toList_ofList, String.toList_ofList, ← hbehind,
      Trace.tokens_place_after]
  · rw [errors_scan, errors_scan, String.toList_ofList, String.toList_ofList, herrors, hstop,
      hlate, Trace.errors_place_after]

/-- A cut behind a number, before a point that it could have gone on with, with errors on both sides
    of it and on two lines. -/
theorem scan_cut_number :
    (scan {} "~1.~\n~x").2.tokens =
        [] ++ ⟨.number, "1", some (.integer 1), ⟨1, 1, 2⟩, 2⟩ ::
          [⟨.symbol .dot, ".", none, ⟨2, 1, 3⟩, 3⟩, ⟨.identifier, "x", none, ⟨6, 2, 2⟩, 7⟩] ∧
      ∃ a b : String, "~1.~\n~x" = a ++ b ∧ a.utf8ByteSize = 2 ∧
        (scan {} a).2.tokens = [⟨.number, "1", some (.integer 1), ⟨1, 1, 2⟩, 2⟩] ∧
        (scan {} a).1.errors = (scan {} "~1.~\n~x").1.errors.filter (·.span.start < 2) ∧
        [⟨.symbol .dot, ".", none, ⟨2, 1, 3⟩, 3⟩, ⟨.identifier, "x", none, ⟨6, 2, 2⟩, 7⟩] =
          (scan {} b).2.tokens.map (Token.shift (Position.origin.after a.toList)) ∧
        (scan {} "~1.~\n~x").1.errors.filter (2 ≤ ·.span.start) =
          (scan {} b).1.errors.map (LexError.shift (Position.origin.after a.toList)) := by
  have htokens : (scan {} "~1.~\n~x").2.tokens =
      [] ++ ⟨.number, "1", some (.integer 1), ⟨1, 1, 2⟩, 2⟩ ::
        [⟨.symbol .dot, ".", none, ⟨2, 1, 3⟩, 3⟩, ⟨.identifier, "x", none, ⟨6, 2, 2⟩, 7⟩] := by
    decide +kernel
  exact ⟨htokens, scan_cut {} "~1.~\n~x" htokens⟩

end Scanner

end Lexis

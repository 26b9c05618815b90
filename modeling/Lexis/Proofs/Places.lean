import Lexis.Proofs.SegmentRow
import Lexis.Proofs.SourceMap
import Lexis.Proofs.StringItem
import Lexis.Proofs.Trace

set_option autoImplicit false

/-! # Places of tokens and errors

A token starts where its segment does. An error points at a part of its segment
(`LexError.Cause.marked`): at an escape that means nothing, else at the start of the segment. So
each is at the end of a walk over a first part of the text, and has the line and column that a
source map finds there. -/

namespace Lexis

/-! ## Places in segments -/

theorem Placed.start_of_token? {p : Placed Segment} {t : Token} (h : p.token? = some t) :
    t.start = p.start := by
  obtain ⟨token, -, rfl⟩ := Option.map_eq_some_iff.1 h
  rfl

theorem Placed.stop_of_token? {p : Placed Segment} {t : Token} (h : p.token? = some t) :
    t.span.stop = p.start.offset + Text.size p.piece.text := by
  obtain ⟨token, -, rfl⟩ := Option.map_eq_some_iff.1 h
  rfl

theorem Placed.toList_lexeme_of_token? {p : Placed Segment} {t : Token} (h : p.token? = some t) :
    t.lexeme.toList = p.piece.text := by
  obtain ⟨token, -, rfl⟩ := Option.map_eq_some_iff.1 h
  exact String.toList_ofList

theorem Segment.exists_text_of_items {s : Segment} {items items' : List StringItem}
    {item : StringItem} (h : s.items = items ++ item :: items') :
    ∃ behind, s.text = '"' :: (StringItem.textOf items ++ (item.text ++ behind)) := by
  cases s with
  | string all =>
      obtain rfl : all = items ++ item :: items' := h
      exact ⟨StringItem.textOf items' ++ ['"'], by simp [text, StringItem.textOf]⟩
  | openString all dangling =>
      obtain rfl : all = items ++ item :: items' := h
      exact ⟨StringItem.textOf items' ++ if dangling then ['\\'] else [],
        by simp [text, StringItem.textOf]⟩
  | _ => simp [Segment.items] at h

/-- The text that an error points at: the text in question, and of what has no end the characters
    that open it. -/
def LexError.Cause.marked : LexError.Cause → List Char
  | unexpectedCharacter c => [c]
  | invalidEscape text | integerOutOfRange text | decimalOutOfRange text => text.toList
  | unterminatedString => ['"']
  | unterminatedBlockComment => ['/', '*']

/-- What is wrong with a segment as a whole is marked at the start of its text. -/
theorem Segment.exists_text_of_fault? {s : Segment} {cause : LexError.Cause} {size : Nat}
    (htext : s.text ≠ []) (h : s.fault? = some (cause, size)) :
    ∃ behind, s.text = cause.marked ++ behind ∧ cause.marked ≠ [] ∧
      size = Text.size cause.marked := by
  cases s with
  | openComment body =>
      obtain ⟨rfl, rfl⟩ : _ = cause ∧ _ = size := by simpa [fault?] using h
      exact ⟨body, rfl, by simp [LexError.Cause.marked], rfl⟩
  | openString items dangling =>
      obtain ⟨rfl, rfl⟩ : _ = cause ∧ _ = size := by simpa [fault?] using h
      exact ⟨_, rfl, by simp [LexError.Cause.marked], rfl⟩
  | unexpected c =>
      obtain ⟨rfl, rfl⟩ : _ = cause ∧ _ = size := by simpa [fault?] using h
      exact ⟨[], rfl, by simp [LexError.Cause.marked], rfl⟩
  | integer digits =>
      rw [fault?] at h
      split at h
      · obtain ⟨rfl, rfl⟩ : _ = cause ∧ _ = size := by simpa using h
        refine ⟨[], ?_, ?_, ?_⟩
        · simp [LexError.Cause.marked, text]
        · simpa [LexError.Cause.marked, text] using htext
        · simp [LexError.Cause.marked]
      · simp at h
  | decimal whole fraction =>
      rw [fault?] at h
      split at h
      · obtain ⟨rfl, rfl⟩ : _ = cause ∧ _ = size := by simpa using h
        exact ⟨[], by simp [LexError.Cause.marked, text], by simp [LexError.Cause.marked],
          by simp [LexError.Cause.marked]⟩
      · simp at h
  | _ => simp [fault?] at h

/-- An error of a segment points at a part of its text. -/
theorem Placed.exists_marked_of_mem_errors {p : Placed Segment} {e : LexError}
    (htext : p.piece.text ≠ []) (h : e ∈ p.errors) :
    ∃ before behind, p.piece.text = before ++ (e.cause.marked ++ behind) ∧ e.cause.marked ≠ [] ∧
      e.start = p.start.after before ∧ e.stop = e.start.offset + Text.size e.cause.marked := by
  rcases List.mem_append.1 h with hinside | hown
  · obtain ⟨item, hitem, herror⟩ := List.mem_filterMap.1 hinside
    obtain ⟨before, piece, behind, hitems, rfl⟩ := exists_of_mem_place hitem
    obtain ⟨rest, hrest⟩ := Segment.exists_text_of_items hitems
    split at herror
    · obtain rfl := Option.some.inj herror
      have hmarked : LexError.Cause.marked (.invalidEscape (String.ofList piece.text)) =
          piece.text := String.toList_ofList
      have hne := List.length_pos_iff.1 piece.length_text_pos
      rw [← hmarked] at hrest hne
      refine ⟨'"' :: StringItem.textOf before, rest, hrest, hne, rfl, ?_⟩
      rw [hmarked]
    · simp at herror
  · obtain ⟨⟨cause, size⟩, hfault, rfl⟩ := Option.map_eq_some_iff.1 (Option.mem_toList.1 hown)
    obtain ⟨behind, hbehind, hne, rfl⟩ := Segment.exists_text_of_fault? htext hfault
    exact ⟨[], behind, hbehind, hne, rfl, rfl⟩

/-! ## Places in texts -/

namespace Segment.Row

variable {tail : List Char} {segments : List Segment}

theorem wellFormed_of_mem (h : Row tail segments) {s : Segment} (hs : s ∈ segments) :
    s.WellFormed := by
  obtain ⟨before, behind, rfl⟩ := List.append_of_mem hs
  exact (row_append.1 h).2.1.wellFormed

theorem text_ne_nil_of_mem (h : Row tail segments) {s : Segment} (hs : s ∈ segments) :
    s.text ≠ [] := (h.wellFormed_of_mem hs).text_ne_nil

end Segment.Row

namespace Trace

/-- A token is that of one of the segments, at the place of that segment. -/
theorem exists_segment_of_mem_tokens {start : Position} {segments : List Segment} {t : Token}
    (h : t ∈ tokens (place Segment.text start segments)) :
    ∃ before segment behind, segments = before ++ segment :: behind ∧
      Placed.token? ⟨start.after (Segment.textOf before), segment⟩ = some t := by
  obtain ⟨p, hp, htoken⟩ := List.mem_filterMap.1 h
  obtain ⟨before, segment, behind, rfl, rfl⟩ := exists_of_mem_place hp
  exact ⟨before, segment, behind, rfl, htoken⟩

theorem exists_of_mem_tokens {start : Position} {segments : List Segment} {t : Token}
    (h : t ∈ tokens (place Segment.text start segments)) :
    ∃ before behind, Segment.textOf segments = before ++ behind ∧ t.start = start.after before := by
  obtain ⟨before, segment, behind, rfl, htoken⟩ := exists_segment_of_mem_tokens h
  exact ⟨_, _, Segment.textOf_append .., Placed.start_of_token? htoken⟩

theorem stop_le_of_mem_tokens {start : Position} {segments : List Segment} {t : Token}
    (h : t ∈ tokens (place Segment.text start segments)) :
    t.span.stop ≤ start.offset + Text.size (Segment.textOf segments) := by
  obtain ⟨before, segment, behind, rfl, htoken⟩ := exists_segment_of_mem_tokens h
  have hstop : t.span.stop =
      (start.after (Segment.textOf before)).offset + Text.size segment.text :=
    Placed.stop_of_token? htoken
  rw [Position.offset_after] at hstop
  rw [Segment.textOf_append, Segment.textOf_cons, Text.size_append, Text.size_append]
  omega

/-- An error of a text points at a part of it. -/
theorem exists_marked_of_mem_errors {tail : List Char} {segments : List Segment}
    (hrow : Segment.Row tail segments) {start : Position} {e : LexError}
    (h : e ∈ errors (place Segment.text start segments)) :
    ∃ before behind, Segment.textOf segments = before ++ (e.cause.marked ++ behind) ∧
      e.cause.marked ≠ [] ∧ e.start = start.after before ∧
      e.stop = e.start.offset + Text.size e.cause.marked := by
  obtain ⟨p, hp, herror⟩ := List.mem_flatMap.1 h
  obtain ⟨before, segment, behind, rfl, rfl⟩ := exists_of_mem_place hp
  have htext := hrow.text_ne_nil_of_mem (s := segment) (by simp)
  obtain ⟨inside, rest, hinside, hne, hstart, hstop⟩ :=
    Placed.exists_marked_of_mem_errors htext herror
  rw [Segment.textOf_append, Segment.textOf_cons, hinside]
  refine ⟨Segment.textOf before ++ inside, rest ++ Segment.textOf behind, by simp, hne, ?_, hstop⟩
  rw [hstart, Position.after_append]
  rfl

/-- An error of a text starts in the text, at its end never. -/
theorem exists_of_mem_errors {tail : List Char} {segments : List Segment}
    (hrow : Segment.Row tail segments) {start : Position} {e : LexError}
    (h : e ∈ errors (place Segment.text start segments)) :
    ∃ before behind, Segment.textOf segments = before ++ behind ∧ behind ≠ [] ∧
      e.start = start.after before := by
  obtain ⟨before, behind, htext, hne, hstart, -⟩ := exists_marked_of_mem_errors hrow h
  exact ⟨before, e.cause.marked ++ behind, htext, by simp [hne], hstart⟩

end Trace

/-! ## Places by walk and by map -/

/-- A position that is the true place of its offset in a text: the line is told by the line feeds
    before the offset, the column by the characters behind the last of them, and the source map of
    the text finds both. -/
def Position.IsPlaceIn (source : List Char) (p : Position) : Prop :=
  ∃ before behind, Text.cut? source p.offset = some (before, behind) ∧
    p.line = 1 + before.count '\n' ∧ p.column = 1 + (Text.lastLine before).length ∧
    (SourceMap.ofText source).position p.offset = ⟨p.line, p.column⟩

theorem Position.isPlaceIn_after (before behind : List Char) :
    (origin.after before).IsPlaceIn (before ++ behind) := by
  rw [after_origin]
  refine ⟨before, behind, Text.cut?_size_append before behind, Nat.add_comm .., Nat.add_comm .., ?_⟩
  exact SourceMap.position_ofText before behind

/-- Each token and each error of a scan has the line and column that belong to its offset. -/
theorem Scanner.isPlaceIn_start (s : Scanner) (source : String) :
    (∀ t ∈ (s.scan source).2.tokens, t.start.IsPlaceIn source.toList) ∧
      ∀ e ∈ (s.scan source).1.errors, e.start.IsPlaceIn source.toList := by
  constructor
  · intro t ht
    obtain ⟨before, behind, htext, hstart⟩ := Trace.exists_of_mem_tokens ht
    rw [Segment.textOf_readAll] at htext
    rw [htext, hstart]
    exact Position.isPlaceIn_after before behind
  · intro e he
    have hrow := Segment.row_readAll source.toList
    obtain ⟨before, behind, htext, -, hstart⟩ := Trace.exists_of_mem_errors hrow he
    rw [Segment.textOf_readAll] at htext
    rw [htext, hstart]
    exact Position.isPlaceIn_after before behind

/-- A token and an error inside it, on the second line and behind a character of two bytes. -/
theorem Scanner.isPlaceIn_start_second_line :
    (⟨.string, "\"\\q\"", some (.string ""), ⟨6, 2, 3⟩, 10⟩ : Token) ∈
        (scan {} "ab\né \"\\q\"").2.tokens ∧
      (⟨6, 2, 3⟩ : Position).IsPlaceIn "ab\né \"\\q\"".toList ∧
      (⟨.invalidEscape "\\q", ⟨7, 2, 4⟩, 9⟩ : LexError) ∈ (scan {} "ab\né \"\\q\"").1.errors ∧
      (⟨7, 2, 4⟩ : Position).IsPlaceIn "ab\né \"\\q\"".toList := by
  have htoken : (⟨.string, "\"\\q\"", some (.string ""), ⟨6, 2, 3⟩, 10⟩ : Token) ∈
      (scan {} "ab\né \"\\q\"").2.tokens := by decide +kernel
  have herror : (⟨.invalidEscape "\\q", ⟨7, 2, 4⟩, 9⟩ : LexError) ∈
      (scan {} "ab\né \"\\q\"").1.errors := by decide +kernel
  have hplaces := isPlaceIn_start {} "ab\né \"\\q\""
  exact ⟨htoken, hplaces.1 _ htoken, herror, hplaces.2 _ herror⟩

end Lexis

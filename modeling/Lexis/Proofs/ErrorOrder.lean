import Lexis.Proofs.OpenText
import Lexis.Proofs.Places
import Mathlib.Data.List.Basic

set_option autoImplicit false

/-! # Errors in order

The errors of a scan stand in the order of the text, each pointing at text of its own, with one
exception at the end: what is not closed is reported last and for the characters that open it,
although the escapes inside it were reported before. So all errors but that one have spans that
follow one another (`Span.Ascending`), and `Scanner.exists_settled_errors` puts the two together.
Spans follow one another piece by piece: inside a string by its items, in a text by its
segments. -/

namespace Lexis

/-! ## Spans that follow one another -/

/-- Spans between two offsets, each behind the one before it and none of them empty. -/
def Span.Ascending (low high : Nat) : List Span → Prop
  | [] => low ≤ high
  | s :: spans => low ≤ s.start ∧ s.start < s.stop ∧ Ascending s.stop high spans

namespace Span.Ascending

variable {low middle high : Nat} {spans : List Span}

theorem low_le_high (h : Ascending low high spans) : low ≤ high := by
  induction spans generalizing low with
  | nil => exact h
  | cons s spans ih =>
      obtain ⟨hlow, hne, hrest⟩ := h
      have hstop := ih hrest
      omega

theorem of_le (h : Ascending middle high spans) (hle : low ≤ middle) :
    Ascending low high spans := by
  cases spans with
  | nil => exact Nat.le_trans hle h
  | cons s spans => exact ⟨Nat.le_trans hle h.1, h.2⟩

theorem append {later : List Span} (h : Ascending low middle spans)
    (hlater : Ascending middle high later) : Ascending low high (spans ++ later) := by
  induction spans generalizing low with
  | nil => exact hlater.of_le h
  | cons s spans ih => exact ⟨h.1, h.2.1, ih h.2.2⟩

theorem bounds_of_mem (h : Ascending low high spans) {s : Span} (hs : s ∈ spans) :
    low ≤ s.start ∧ s.start < s.stop ∧ s.stop ≤ high := by
  induction spans generalizing low with
  | nil => simp at hs
  | cons first spans ih =>
      obtain ⟨hlow, hne, hrest⟩ := h
      rcases List.mem_cons.1 hs with rfl | hs
      · exact ⟨hlow, hne, hrest.low_le_high⟩
      · have hbounds := ih hrest hs
        omega

theorem pairwise (h : Ascending low high spans) :
    spans.Pairwise fun s t => s.start < t.start ∧ s.stop ≤ t.start := by
  induction spans generalizing low with
  | nil => exact List.Pairwise.nil
  | cons s spans ih =>
      obtain ⟨-, hne, hrest⟩ := h
      refine List.pairwise_cons.2 ⟨?_, ih hrest⟩
      intro t ht
      have hbounds := hrest.bounds_of_mem ht
      omega

end Span.Ascending

/-- What is found in pieces one behind the other follows one another, if that is so of what is found
    in each piece. -/
theorem Span.ascending_flatMap_place {α β : Type} {text : α → List Char} {span : β → Span}
    {found : Placed α → List β} {pieces : List α}
    (h : ∀ p : Placed α, p.piece ∈ pieces →
      Ascending p.start.offset (p.start.offset + Text.size (text p.piece)) ((found p).map span))
    (start : Position) :
    Ascending start.offset (start.offset + Text.size (pieces.flatMap text))
      (((place text start pieces).flatMap found).map span) := by
  induction pieces generalizing start with
  | nil => exact Nat.le_refl _
  | cons piece pieces ih =>
      have hfirst := h ⟨start, piece⟩ List.mem_cons_self
      have hrest := ih (fun p hp => h p (List.mem_cons_of_mem _ hp)) (start.after (text piece))
      rw [Position.offset_after, Nat.add_assoc] at hrest
      rw [place, List.flatMap_cons, List.flatMap_cons, List.map_append, Text.size_append]
      exact hfirst.append hrest

/-! ## Errors of segments -/

/-- The errors of string items follow one another. -/
theorem ascending_itemErrors (start : Position) (items : List StringItem) :
    Span.Ascending start.offset (start.offset + Text.size (StringItem.textOf items))
      ((itemErrors start items).map LexError.span) := by
  unfold itemErrors
  rw [List.filterMap_eq_flatMap_toList]
  refine Span.ascending_flatMap_place ?_ start
  intro p _
  have hpos := Text.size_pos (List.length_pos_iff.1 p.piece.length_text_pos)
  split
  · refine ⟨Nat.le_refl _, ?_, Nat.le_refl _⟩
    show p.start.offset < p.start.offset + Text.size p.piece.text
    omega
  · exact Nat.le_add_right ..

/-- The errors inside a string follow one another between its quotes. -/
theorem Placed.ascending_escapeErrors (start : Position) (items : List StringItem) :
    Span.Ascending (start.offset + 1) (start.offset + 1 + Text.size (StringItem.textOf items))
      ((escapeErrors start items).map LexError.span) := by
  have hquote : (start.after ['"']).offset = start.offset + 1 := Position.offset_after start ['"']
  rw [← hquote]
  exact ascending_itemErrors (start.after ['"']) items

/-- No more input could mend an escape. -/
theorem isUnterminated_of_mem_itemErrors {start : Position} {items : List StringItem}
    {e : LexError} (h : e ∈ itemErrors start items) : e.isUnterminated = false := by
  obtain ⟨sequence, hescape⟩ := cause_of_mem_itemErrors h
  rw [LexError.isUnterminated, hescape]
  rfl

theorem Placed.isUnterminated_of_mem_escapeErrors {start : Position} {items : List StringItem}
    {e : LexError} (h : e ∈ escapeErrors start items) : e.isUnterminated = false :=
  isUnterminated_of_mem_itemErrors h

/-- What is wrong with a closed segment as a whole is wrong with all of its text. -/
theorem Segment.size_of_fault? {s : Segment} {cause : LexError.Cause} {size : Nat}
    (hclosed : s.isOpen = false) (h : s.fault? = some (cause, size)) : size = Text.size s.text := by
  cases s with
  | openComment body => simp [isOpen] at hclosed
  | openString items dangling => simp [isOpen] at hclosed
  | _ => simp_all [fault?, text]

theorem Placed.ascending_errors {p : Placed Segment} (htext : p.piece.text ≠ [])
    (hclosed : p.piece.isOpen = false) :
    Span.Ascending p.start.offset (p.start.offset + Text.size p.piece.text)
      (p.errors.map LexError.span) := by
  obtain ⟨start, piece⟩ := p
  have hpos : 0 < Text.size piece.text := Text.size_pos htext
  by_cases hitems : piece.items = []
  · -- only the segment as a whole can be wrong
    have herrors : errors ⟨start, piece⟩ = (ownError? ⟨start, piece⟩).toList := by
      rw [errors, hitems]
      rfl
    rw [herrors, ownError?]
    cases hfault : piece.fault? with
    | none => exact Nat.le_add_right ..
    | some fault =>
        obtain ⟨cause, size⟩ := fault
        obtain rfl := Segment.size_of_fault? hclosed hfault
        refine ⟨Nat.le_refl _, ?_, Nat.le_refl _⟩
        show start.offset < start.offset + Text.size piece.text
        omega
  · cases piece with
    | string items =>
        have hinside := ascending_escapeErrors start items
        have hclosing : Span.Ascending (start.offset + 1 + Text.size (StringItem.textOf items))
            (start.offset + Text.size (Segment.string items).text) [] := by
          have hquote : '"'.utf8Size = 1 := rfl
          simp only [Span.Ascending, Segment.text, Text.size_cons, Text.size_append, hquote]
          omega
        have hall := (hinside.append hclosing).of_le (Nat.le_add_right start.offset 1)
        rw [List.append_nil] at hall
        rw [show errors ⟨start, .string items⟩ = escapeErrors start items from List.append_nil _]
        exact hall
    | openString items dangling => simp [Segment.isOpen] at hclosed
    | _ => simp [Segment.items] at hitems

/-! ## Errors of rows -/

/-- At most one segment of a text is open, and it is the last one. -/
theorem Segment.Row.exists_open {segments : List Segment} (h : Row [] segments) :
    ∃ (closed : List Segment) (open? : Option Segment), segments = closed ++ open?.toList ∧
      (∀ s ∈ closed, s.isOpen = false) ∧ ∀ s, open? = some s → s.isOpen = true := by
  induction segments with
  | nil => exact ⟨[], none, rfl, by simp, by simp⟩
  | cons s segments ih =>
      obtain ⟨hs, hrow⟩ := h
      cases hopen : s.isOpen with
      | true =>
          have hnil := hs.eq_nil_of_isOpen hopen
          rw [List.append_nil] at hnil
          have hlast : segments = [] := by
            refine List.eq_nil_iff_forall_not_mem.2 ?_
            intro s' hs'
            refine hrow.text_ne_nil_of_mem hs' ?_
            exact List.flatMap_eq_nil_iff.1 hnil s' hs'
          exact ⟨[], some s, by simp [hlast], by simp, by simp [hopen]⟩
      | false =>
          obtain ⟨closed, open?, rfl, hclosed, hopen?⟩ := ih hrow
          exact ⟨s :: closed, open?, rfl, by simpa [hopen] using hclosed, hopen?⟩

/-- An error is about text of the source: its span covers at least one character, starts and ends
    between characters, and the text that the error points at stands there. -/
structure LexError.IsMarkedIn (source : List Char) (e : LexError) : Prop where
  start_lt_stop : e.span.start < e.span.stop
  stop_le_size : e.span.stop ≤ Text.size source
  isBoundary_start : Text.isBoundary source e.span.start = true
  isBoundary_stop : Text.isBoundary source e.span.stop = true
  slice_eq : Text.slice? source e.span.start e.span.stop = some e.cause.marked

theorem Text.isBoundary_size_append (as bs : List Char) :
    isBoundary (as ++ bs) (size as) = true := isBoundary_iff.2 ⟨as, bs, rfl, rfl⟩

theorem LexError.isMarkedIn_append {e : LexError} {before : List Char}
    (hne : e.cause.marked ≠ [])
    (hspan : e.span = ⟨Text.size before, Text.size (before ++ e.cause.marked)⟩)
    (behind : List Char) : e.IsMarkedIn (before ++ e.cause.marked ++ behind) := by
  have hpos := Text.size_pos hne
  constructor
  · rw [hspan, Text.size_append]
    exact Nat.lt_add_of_pos_right hpos
  · rw [hspan, Text.size_append _ behind]
    exact Nat.le_add_right ..
  · rw [hspan, List.append_assoc]
    exact Text.isBoundary_size_append ..
  · rw [hspan]
    exact Text.isBoundary_size_append ..
  · rw [hspan]
    exact Text.slice?_append ..

namespace Trace

theorem isMarkedIn_of_mem_errors {source : List Char} {e : LexError}
    (h : e ∈ (ofText source).errors) : e.IsMarkedIn source := by
  obtain ⟨before, behind, htext, hne, hstart, hstop⟩ :=
    exists_marked_of_mem_errors (Segment.row_readAll source) h
  have hspan : e.span = ⟨Text.size before, Text.size (before ++ e.cause.marked)⟩ := by
    rw [LexError.span, hstop, hstart, Position.offset_after, Position.offset_origin, Nat.zero_add,
      Text.size_append]
  rw [Segment.textOf_readAll, ← List.append_assoc] at htext
  rw [htext]
  exact LexError.isMarkedIn_append hne hspan behind

/-- No more input could mend the errors of closed segments. -/
theorem isUnterminated_of_mem_errors {segments : List Segment} {start : Position} {e : LexError}
    (hclosed : ∀ s ∈ segments, s.isOpen = false)
    (h : e ∈ errors (place Segment.text start segments)) : e.isUnterminated = false := by
  have hany : segments.any Segment.isOpen = false := List.any_eq_false.2 (by simpa using hclosed)
  rw [← any_isUnterminated_errors start, List.any_eq_false] at hany
  exact Bool.eq_false_iff.2 (hany e h)

/-- The errors of closed segments follow one another. -/
theorem ascending_errors {segments : List Segment} (start : Position)
    (htext : ∀ s ∈ segments, s.text ≠ []) (hclosed : ∀ s ∈ segments, s.isOpen = false) :
    Span.Ascending start.offset (start.offset + Text.size (Segment.textOf segments))
      ((errors (place Segment.text start segments)).map LexError.span) := by
  refine Span.ascending_flatMap_place ?_ start
  intro p hp
  exact Placed.ascending_errors (htext p.piece hp) (hclosed p.piece hp)

/-- A token of a row starts in its text, at its end never. -/
theorem start_lt_of_mem_tokens {segments : List Segment} {start : Position} {t : Token}
    (htext : ∀ s ∈ segments, s.text ≠ []) (h : t ∈ tokens (place Segment.text start segments)) :
    t.span.start < start.offset + Text.size (Segment.textOf segments) := by
  obtain ⟨before, segment, behind, rfl, htoken⟩ := exists_segment_of_mem_tokens h
  have hpos := Text.size_pos (htext segment (by simp))
  have hstart : t.span.start = start.offset + Text.size (Segment.textOf before) := by
    rw [Token.span, Placed.start_of_token? htoken, Position.offset_after]
  rw [hstart, Segment.textOf_append, Segment.textOf_cons, Text.size_append, Text.size_append]
  omega

/-! ## Texts that end in an open segment -/

section

variable {closed : List Segment} {last : Segment}

/-- An open segment is reported for the characters that open it, behind the escapes inside it. -/
theorem exists_errors_concat (start : Position) (hopen : last.isOpen = true) :
    ∃ own : LexError, errors (place Segment.text start (closed ++ [last])) =
        errors (place Segment.text start closed) ++
          Placed.escapeErrors (start.after (Segment.textOf closed)) last.items ++ [own] ∧
      own.isUnterminated = true ∧
      own.span.start = start.offset + Text.size (Segment.textOf closed) ∧
      (last.items ≠ [] → own.cause = .unterminatedString) := by
  have hoffset := start.offset_after (Segment.textOf closed)
  simp only [place_append, errors_append, List.append_assoc]
  cases last with
  | openComment body => exact ⟨_, rfl, rfl, hoffset, fun hitems => absurd rfl hitems⟩
  | openString items dangling =>
      refine ⟨_, congrArg _ (List.append_nil _), rfl, hoffset, fun _ => rfl⟩
  | _ => simp [Segment.isOpen] at hopen

/-- Behind the start of an open segment only the escapes inside it are reported. -/
theorem cause_of_mem_errors_concat {start : Position} {own f : LexError}
    (htext : ∀ s ∈ closed, s.text ≠ []) (hclosed : ∀ s ∈ closed, s.isOpen = false)
    (hstart : own.span.start = start.offset + Text.size (Segment.textOf closed))
    (hf : f ∈ errors (place Segment.text start closed) ++
      Placed.escapeErrors (start.after (Segment.textOf closed)) last.items ++ [own])
    (hlt : own.span.start < f.span.start) :
    last.items ≠ [] ∧ ∃ sequence, f.cause = .invalidEscape sequence := by
  rw [List.mem_append, List.mem_append] at hf
  rcases hf with (hbefore | hinside) | hown
  · have hclosed := ascending_errors start htext hclosed
    have hbounds := hclosed.bounds_of_mem (List.mem_map_of_mem hbefore)
    omega
  · refine ⟨?_, Placed.cause_of_mem_escapeErrors hinside⟩
    intro hitems
    rw [hitems] at hinside
    simp [Placed.escapeErrors, place] at hinside
  · obtain rfl := List.mem_singleton.1 hown
    exact absurd hlt (Nat.lt_irrefl _)

/-- An open segment makes no token. -/
theorem tokens_concat (start : Position) (hopen : last.isOpen = true) :
    tokens (place Segment.text start (closed ++ [last])) =
      tokens (place Segment.text start closed) := by
  rw [place_append, tokens_append]
  cases last with
  | openComment body => exact List.append_nil _
  | openString items dangling => exact List.append_nil _
  | _ => simp [Segment.isOpen] at hopen

/-- The escapes of an open string follow the errors before the string. -/
theorem ascending_errors_append (start : Position) (htext : ∀ s ∈ closed, s.text ≠ [])
    (hclosed : ∀ s ∈ closed, s.isOpen = false) (items : List StringItem) :
    ∃ high, Span.Ascending start.offset high
      ((errors (place Segment.text start closed) ++
        Placed.escapeErrors (start.after (Segment.textOf closed)) items).map LexError.span) := by
  have hbefore := ascending_errors start htext hclosed
  have hinside := Placed.ascending_escapeErrors (start.after (Segment.textOf closed)) items
  rw [Position.offset_after] at hinside
  rw [List.map_append]
  exact ⟨_, hbefore.append (hinside.of_le (Nat.le_add_right _ 1))⟩

end

end Trace

/-! ## The errors of a scan -/

/-- The errors of a scan are those that are settled, which follow one another, and then at most one
    that more input could mend. Behind the start of that one no token starts, and only the escapes
    of a string that is not closed are reported. Each error points at the text that it is about. -/
theorem Scanner.exists_settled_errors (s : Scanner) (source : String) :
    ∃ (settled : List LexError) (open? : Option LexError),
      (s.scan source).1.errors = settled ++ open?.toList ∧
      (∀ e ∈ settled, e.isUnterminated = false) ∧
      (settled.Pairwise fun e f => e.span.start < f.span.start ∧ e.span.stop ≤ f.span.start) ∧
      (∀ e ∈ (s.scan source).1.errors, e.IsMarkedIn source.toList) ∧
      ∀ e, open? = some e → e.isUnterminated = true ∧
        (∀ t ∈ (s.scan source).2.tokens, t.span.start < e.span.start) ∧
        ∀ f ∈ (s.scan source).1.errors, e.span.start < f.span.start →
          e.cause = .unterminatedString ∧ ∃ sequence, f.cause = .invalidEscape sequence := by
  rw [errors_scan, tokens_scan]
  have hmarked : ∀ e ∈ (Trace.ofText source.toList).errors, e.IsMarkedIn source.toList := by
    intro e he
    exact Trace.isMarkedIn_of_mem_errors he
  have hrow := Segment.row_readAll source.toList
  obtain ⟨closed, open?, hsegments, hclosed, hopen⟩ := hrow.exists_open
  have htext : ∀ s ∈ closed, s.text ≠ [] := by
    intro s hs
    exact hrow.text_ne_nil_of_mem (hsegments ▸ List.mem_append_left _ hs)
  have hmended : ∀ e ∈ Trace.errors (place Segment.text .origin closed),
      e.isUnterminated = false := by
    intro e he
    exact Trace.isUnterminated_of_mem_errors hclosed he
  have hbefore := Trace.ascending_errors .origin htext hclosed
  rw [Trace.ofText, hsegments] at hmarked ⊢
  cases open? with
  | none =>
      rw [Option.toList_none, List.append_nil] at hmarked ⊢
      refine ⟨_, none, (List.append_nil _).symm, hmended, ?_, hmarked, by simp⟩
      exact List.pairwise_map.1 hbefore.pairwise
  | some last =>
      have hlast := hopen last rfl
      obtain ⟨own, herrors, hown, hstart, hcause⟩ := Trace.exists_errors_concat .origin hlast
      obtain ⟨high, hsettled⟩ := Trace.ascending_errors_append .origin htext hclosed last.items
      rw [Option.toList_some] at hmarked ⊢
      refine ⟨_, some own, herrors, ?_, List.pairwise_map.1 hsettled.pairwise, hmarked, ?_⟩
      · intro e he
        rcases List.mem_append.1 he with he | he
        · exact hmended e he
        · exact Placed.isUnterminated_of_mem_escapeErrors he
      · intro e he
        obtain rfl := Option.some.inj he
        refine ⟨hown, ?_, ?_⟩
        · intro t ht
          rw [Trace.tokens_concat .origin hlast] at ht
          rw [hstart]
          exact Trace.start_lt_of_mem_tokens htext ht
        · intro f hf hlt
          rw [herrors] at hf
          obtain ⟨hitems, hescape⟩ := Trace.cause_of_mem_errors_concat htext hclosed hstart hf hlt
          exact ⟨hcause hitems, hescape⟩

end Lexis

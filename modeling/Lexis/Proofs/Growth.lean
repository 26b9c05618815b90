import Lexis.Proofs.ErrorOrder

set_option autoImplicit false

/-! # Texts that grow

What a scan finds two bytes or more before the end of a text is settled: it is found again, and
first, whatever is put behind the text. Two bytes are what it takes because the longest look ahead,
the one from digits to a point and a digit, is at characters of one byte (`EndsBefore.append`). The
argument is the same for the segments of a text and for the items of a string: as long as two bytes
are left the piece is read again, and from then on nothing that is found is settled. A string that
is not closed shows why the items need it too: the segment is another one when the text grows, but
the escapes inside it stay. -/

namespace Lexis

/-- Whether two bytes of a text of `size` bytes stand behind a span. -/
def Span.isSettled (size : Nat) (s : Span) : Bool := s.stop + 2 ≤ size

/-- Whether an error stays when a text of `size` bytes grows. -/
def LexError.isSettled (size : Nat) (e : LexError) : Bool :=
  !e.isUnterminated && e.span.isSettled size

theorem LexError.isSettled_of_le {size : Nat} {e : LexError} (h : e.isUnterminated = false)
    (hstop : e.span.stop + 2 ≤ size) : e.isSettled size = true := by
  simp [isSettled, Span.isSettled, h, hstop]

theorem LexError.not_isSettled_of_lt {size : Nat} {e : LexError} (h : size < e.span.stop + 2) :
    e.isSettled size = false := by
  have hstop : e.span.isSettled size = false := decide_eq_false (Nat.not_le.2 h)
  rw [isSettled, hstop, Bool.and_false]

/-! ## Settled parts of lists -/

section

variable {α : Type} {p : α → Bool} {as bs cs : List α}

theorem filter_append_isPrefix (has : ∀ a ∈ as, p a = true) (h : bs.filter p <+: cs) :
    (as ++ bs).filter p <+: as ++ cs := by
  rw [List.filter_append, List.filter_eq_self.2 has]
  exact (List.prefix_append_right_inj as).2 h

theorem filter_isPrefix_of_forall (has : ∀ a ∈ as, p a = false) : as.filter p <+: cs := by
  rw [List.filter_eq_nil_iff.2 fun a ha => Bool.eq_false_iff.1 (has a ha)]
  exact List.nil_prefix

end

/-! ## Items of a string -/

/-- Errors of items do not stop before the first item does. -/
theorem le_stop_of_mem_itemErrors {start : Position} {item : StringItem} {items : List StringItem}
    {e : LexError} (h : e ∈ itemErrors start (item :: items)) :
    start.offset + Text.size item.text ≤ e.span.stop := by
  rw [itemErrors_cons, itemErrors_singleton] at h
  rcases List.mem_append.1 h with hfirst | hrest
  · split at hfirst
    · obtain rfl := List.mem_singleton.1 hfirst
      exact Nat.le_refl _
    · simp at hfirst
  · have hall := ascending_itemErrors (start.after item.text) items
    have hbounds := hall.bounds_of_mem (List.mem_map_of_mem hrest)
    rw [Position.offset_after] at hbounds
    omega

namespace StringItem

/-- An escape with text behind it is read again when the text grows. -/
theorem readEscape_append {c : Char} {cs : List Char} (h : (readEscape c cs).2 ≠ [])
    (more : List Char) :
    readEscape c (cs ++ more) = ((readEscape c cs).1, (readEscape c cs).2 ++ more) := by
  refine readEscape_text_append (wellFormed_readEscape c cs) ?_ ?_
  · rw [← goesOn_readEscape c cs]
    apply goesOn_congr
    cases hrest : (readEscape c cs).2 with
    | nil => exact absurd hrest h
    | cons d rest => rfl
  · rw [← List.append_assoc, readEscape_text]
    rfl

/-- The errors of the items that two bytes stand behind are found first when the text grows. -/
theorem filter_itemErrors_isPrefix (start : Position) (cs more : List Char) :
    (itemErrors start (readItems cs).1).filter (·.isSettled (start.offset + Text.size cs)) <+:
      itemErrors start (readItems (cs ++ more)).1 := by
  fun_induction readItems cs generalizing start with
  | case1 => exact List.nil_prefix
  | case2 => exact List.nil_prefix
  | case3 => exact List.nil_prefix
  | case4 c cs body ih =>
      have hsize : Text.size ('\\' :: c :: cs) =
          Text.size (readEscape c cs).1.text + Text.size (readEscape c cs).2 := by
        rw [← readEscape_text, Text.size_append]
      by_cases hroom : 2 ≤ Text.size (readEscape c cs).2
      · have hne : (readEscape c cs).2 ≠ [] := by
          intro hnil
          rw [hnil] at hroom
          exact absurd hroom (by decide)
        rw [List.cons_append, List.cons_append, readItems, readEscape_append hne, itemErrors_cons,
          itemErrors_cons start _ (readItems _).1]
        refine filter_append_isPrefix ?_ ?_
        · intro e he
          have hitem := ascending_itemErrors start [(readEscape c cs).1]
          have hbounds := hitem.bounds_of_mem (List.mem_map_of_mem he)
          rw [textOf_cons, textOf_nil, List.append_nil] at hbounds
          exact LexError.isSettled_of_le (isUnterminated_of_mem_itemErrors he) (by omega)
        · have hrest := ih (start.after (readEscape c cs).1.text)
          rw [Position.offset_after, Nat.add_assoc, ← hsize] at hrest
          exact hrest
      · refine filter_isPrefix_of_forall ?_
        intro e he
        have hstop := le_stop_of_mem_itemErrors he
        exact LexError.not_isSettled_of_lt (by omega)
  | case5 c cs hlast hquote hescape body ih =>
      have hslash : c ≠ '\\' := by
        rintro rfl
        cases cs with
        | nil => exact hlast rfl rfl
        | cons d cs => exact hescape d cs rfl rfl
      have hread :=
        readItems.eq_5 c (cs ++ more) (fun h _ => hslash h) hquote fun _ _ h _ => hslash h
      rw [List.cons_append, hread, itemErrors_cons, itemErrors_cons start _ (readItems _).1]
      -- a plain character is never wrong
      refine filter_append_isPrefix (fun e he => absurd he ?_) ?_
      · simp [itemErrors_singleton, value?]
      · have hrest := ih (start.after [c])
        rw [Position.offset_after, Nat.add_assoc, ← Text.size_append] at hrest
        exact hrest

end StringItem

/-! ## Segments of a text -/

namespace Segment

/-- Two bytes behind a segment decide that it is complete, whatever is put behind them. -/
theorem EndsBefore.append {s : Segment} {rest : List Char} (h : s.EndsBefore rest)
    (hroom : 2 ≤ Text.size rest) (more : List Char) : s.EndsBefore (rest ++ more) := by
  refine ⟨h.wellFormed, ?_⟩
  have hcomplete := h.complete
  cases rest with
  | nil => exact absurd hroom (by decide)
  | cons c rest =>
      cases s with
      | integer digits =>
          cases rest with
          | nil =>
              -- a point is one byte, so that something else would stand behind it
              have hpoint : c ≠ '.' := by
                rintro rfl
                exact absurd hroom (by decide)
              simp_all [goesOn]
          | cons d rest => exact hcomplete
      | _ => exact hcomplete

/-- A segment with two bytes behind it is read again when the text grows. -/
theorem readAll_cons_append {c : Char} {cs : List Char} (hroom : 2 ≤ Text.size (read c cs).2)
    (more : List Char) :
    readAll (c :: cs ++ more) = (read c cs).1 :: readAll ((read c cs).2 ++ more) := by
  rw [← text_append_read c cs, List.append_assoc]
  exact readAll_text_append ((endsBefore_read c cs).append hroom more)

theorem items_read_quote (cs : List Char) :
    (read '"' cs).1.items = (StringItem.readItems cs).1 := by
  rw [read_quote, readString]
  split <;> next heq => rw [heq]; rfl

theorem items_read_of_ne_quote {c : Char} (h : c ≠ '"') (cs : List Char) :
    (read c cs).1.items = [] := by
  cases hitems : (read c cs).1.items with
  | nil => rfl
  | cons item items =>
      have hitems : (read c cs).1.items = [] ++ item :: items := hitems
      obtain ⟨behind, htext⟩ := exists_text_of_items hitems
      have hread := text_append_read c cs
      rw [htext] at hread
      exact absurd (List.cons.inj hread).1.symm h

end Segment

/-- What is wrong with a segment as a whole stops where the segment does, unless more input could
    mend it. -/
theorem Placed.isUnterminated_or_stop_of_ownError? {p : Placed Segment} {e : LexError}
    (h : p.ownError? = some e) :
    e.isUnterminated = true ∨ e.span.stop = p.start.offset + Text.size p.piece.text := by
  obtain ⟨⟨cause, size⟩, hfault, rfl⟩ := Option.map_eq_some_iff.1 h
  cases hopen : p.piece.isOpen with
  | false =>
      obtain rfl := Segment.size_of_fault? hopen hfault
      exact .inr rfl
  | true =>
      obtain ⟨start, piece⟩ := p
      refine .inl ?_
      cases piece with
      | openComment body =>
          obtain ⟨rfl, rfl⟩ : _ = cause ∧ _ = size := by simpa [Segment.fault?] using hfault
          rfl
      | openString items dangling =>
          obtain ⟨rfl, rfl⟩ : _ = cause ∧ _ = size := by simpa [Segment.fault?] using hfault
          rfl
      | _ => simp [Segment.isOpen] at hopen

/-- The errors of a closed segment with two bytes behind it are settled. -/
theorem Placed.isSettled_of_mem_errors {p : Placed Segment} {e : LexError} {size : Nat}
    (htext : p.piece.text ≠ []) (hclosed : p.piece.isOpen = false) (he : e ∈ p.errors)
    (hroom : p.start.offset + Text.size p.piece.text + 2 ≤ size) : e.isSettled size = true := by
  have hbounds := (ascending_errors htext hclosed).bounds_of_mem (List.mem_map_of_mem he)
  have hany := p.any_isUnterminated_errors
  rw [hclosed, List.any_eq_false] at hany
  exact LexError.isSettled_of_le (Bool.eq_false_iff.2 (hany e he)) (by omega)

/-! ## Traces -/

namespace Trace

/-- Tokens do not stop before the first segment does. -/
theorem le_stop_of_mem_tokens {start : Position} {s : Segment} {segments : List Segment} {t : Token}
    (h : t ∈ tokens (place Segment.text start (s :: segments))) :
    start.offset + Text.size s.text ≤ t.span.stop := by
  obtain ⟨before, segment, behind, hsegments, htoken⟩ := exists_segment_of_mem_tokens h
  have hstop : t.span.stop =
      (start.after (Segment.textOf before)).offset + Text.size segment.text :=
    Placed.stop_of_token? htoken
  rw [Position.offset_after] at hstop
  cases before with
  | nil =>
      obtain ⟨rfl, -⟩ := List.cons.inj hsegments
      rw [hstop]
      exact Nat.le_refl _
  | cons s' before =>
      obtain ⟨rfl, -⟩ := List.cons.inj hsegments
      rw [Segment.textOf_cons, Text.size_append] at hstop
      omega

/-- What is found in the segments of a text is found first when the text grows, as far as it is
    kept: if what a closed segment with two bytes behind it yields is kept, and if what is kept of a
    segment with less behind it, and of those behind that, is found first. -/
theorem filter_flatMap_isPrefix {β : Type} {found : Placed Segment → List β} (keep : Nat → β → Bool)
    (hkept : ∀ (p : Placed Segment) (size : Nat), p.piece.text ≠ [] → p.piece.isOpen = false →
      p.start.offset + Text.size p.piece.text + 2 ≤ size → ∀ b ∈ found p, keep size b = true)
    (hlast : ∀ (start : Position) (c : Char) (cs more : List Char),
      Text.size (Segment.read c cs).2 < 2 →
        ((place Segment.text start (Segment.readAll (c :: cs))).flatMap found).filter
            (keep (start.offset + Text.size (c :: cs))) <+:
          (place Segment.text start (Segment.readAll (c :: cs ++ more))).flatMap found)
    (start : Position) (cs more : List Char) :
    ((place Segment.text start (Segment.readAll cs)).flatMap found).filter
        (keep (start.offset + Text.size cs)) <+:
      (place Segment.text start (Segment.readAll (cs ++ more))).flatMap found := by
  fun_induction Segment.readAll cs generalizing start with
  | case1 => exact List.nil_prefix
  | case2 c cs step ih =>
      by_cases hroom : 2 ≤ Text.size (Segment.read c cs).2
      · have htext := Segment.text_append_read c cs
        have hends := Segment.endsBefore_read c cs
        have hclosed : (Segment.read c cs).1.isOpen = false := by
          rw [Bool.eq_false_iff]
          intro hopen
          rw [hends.eq_nil_of_isOpen hopen] at hroom
          exact absurd hroom (by decide)
        rw [Segment.readAll_cons_append hroom, place, place, List.flatMap_cons, List.flatMap_cons]
        refine filter_append_isPrefix ?_ ?_
        · refine hkept ⟨start, _⟩ _ hends.wellFormed.text_ne_nil hclosed ?_
          rw [← htext, Text.size_append, ← Nat.add_assoc]
          exact Nat.add_le_add_left hroom _
        · have hrest := ih (start.after (Segment.read c cs).1.text)
          rw [Position.offset_after, Nat.add_assoc, ← Text.size_append, htext] at hrest
          exact hrest
      · have hrest := hlast start c cs more (Nat.not_le.1 hroom)
        rwa [Segment.readAll_cons] at hrest

/-- The tokens that two bytes stand behind are found first when the text grows. -/
theorem filter_tokens_isPrefix (start : Position) (cs more : List Char) :
    (tokens (place Segment.text start (Segment.readAll cs))).filter
        (·.span.isSettled (start.offset + Text.size cs)) <+:
      tokens (place Segment.text start (Segment.readAll (cs ++ more))) := by
  rw [tokens, tokens, List.filterMap_eq_flatMap_toList, List.filterMap_eq_flatMap_toList]
  refine filter_flatMap_isPrefix (fun size (t : Token) => t.span.isSettled size) ?_ ?_
    start cs more
  · intro p size _ _ hroom t ht
    have hstop := Placed.stop_of_token? (Option.mem_toList.1 ht)
    exact decide_eq_true (by omega)
  · intro start c cs more hroom
    have hsize := congrArg Text.size (Segment.text_append_read c cs)
    rw [Text.size_append] at hsize
    refine filter_isPrefix_of_forall ?_
    intro t ht
    rw [← List.filterMap_eq_flatMap_toList, Segment.readAll_cons] at ht
    have hstop := le_stop_of_mem_tokens ht
    exact decide_eq_false (by omega)

/-- Where less than two bytes stand behind a segment, only the escapes inside it can be settled. -/
theorem filter_isSettled_errors_cons (start : Position) (s : Segment) {cs : List Char}
    (h : Text.size cs < 2) :
    (errors (place Segment.text start (s :: Segment.readAll cs))).filter
        (·.isSettled (start.offset + Text.size (s.text ++ cs))) =
      (Placed.escapeErrors start s.items).filter
        (·.isSettled (start.offset + Text.size (s.text ++ cs))) := by
  rw [Text.size_append]
  have hown : ∀ e ∈ (Placed.ownError? ⟨start, s⟩).toList,
      e.isSettled (start.offset + (Text.size s.text + Text.size cs)) = false := by
    intro e he
    rcases Placed.isUnterminated_or_stop_of_ownError? (Option.mem_toList.1 he) with hopen | hstop
    · rw [LexError.isSettled, hopen]
      rfl
    · have hstop : e.span.stop = start.offset + Text.size s.text := hstop
      exact LexError.not_isSettled_of_lt (by omega)
  have hrest : ∀ e ∈ errors (place Segment.text (start.after s.text) (Segment.readAll cs)),
      e.isSettled (start.offset + (Text.size s.text + Text.size cs)) = false := by
    intro e he
    obtain ⟨before, behind, -, hne, hstart, hstop⟩ :=
      exists_marked_of_mem_errors (Segment.row_readAll cs) he
    have hpos := Text.size_pos hne
    have hspan : e.span.stop = start.offset + Text.size s.text + Text.size before +
        Text.size e.cause.marked := by
      rw [LexError.span, hstop, hstart, Position.offset_after, Position.offset_after]
    exact LexError.not_isSettled_of_lt (by omega)
  rw [place, errors_cons, Placed.errors, List.filter_append, List.filter_append,
    List.filter_eq_nil_iff.2 fun e he => Bool.eq_false_iff.1 (hown e he),
    List.filter_eq_nil_iff.2 fun e he => Bool.eq_false_iff.1 (hrest e he), List.append_nil,
    List.append_nil]

/-- Of a text that starts with a string the escapes inside that are reported first. -/
theorem escapeErrors_isPrefix (start : Position) (cs : List Char) :
    Placed.escapeErrors start (StringItem.readItems cs).1 <+:
      errors (place Segment.text start (Segment.readAll ('"' :: cs))) := by
  rw [Segment.readAll_cons, place, errors_cons, Placed.errors, Segment.items_read_quote,
    List.append_assoc]
  exact List.prefix_append ..

/-- The errors that two bytes stand behind are found first when the text grows, those apart that
    more input could mend. -/
theorem filter_errors_isPrefix (start : Position) (cs more : List Char) :
    (errors (place Segment.text start (Segment.readAll cs))).filter
        (·.isSettled (start.offset + Text.size cs)) <+:
      errors (place Segment.text start (Segment.readAll (cs ++ more))) := by
  refine filter_flatMap_isPrefix LexError.isSettled ?_ ?_ start cs more
  · intro p size htext hclosed hroom e he
    exact Placed.isSettled_of_mem_errors htext hclosed he hroom
  · intro start c cs more hroom
    have herrors := filter_isSettled_errors_cons start (Segment.read c cs).1 hroom
    rw [Segment.text_append_read, ← Segment.readAll_cons] at herrors
    refine herrors ▸ ?_
    by_cases hquote : c = '"'
    · subst hquote
      have hitems := StringItem.filter_itemErrors_isPrefix (start.after ['"']) cs more
      rw [Position.offset_after, Nat.add_assoc, ← Text.size_append] at hitems
      rw [Segment.items_read_quote]
      exact hitems.trans (escapeErrors_isPrefix start (cs ++ more))
    · rw [Segment.items_read_of_ne_quote hquote]
      exact List.nil_prefix

end Trace

namespace Scanner

/-- Putting text behind a text keeps what is settled in it: the tokens that two bytes stand behind,
    and the errors that two bytes stand behind and no more input could mend, are what is found
    first, at the same places. -/
theorem scan_append_settled (s : Scanner) (a b : String) :
    ((s.scan a).2.tokens.filter fun t => t.span.stop + 2 ≤ a.utf8ByteSize) <+:
        (s.scan (a ++ b)).2.tokens ∧
      ((s.scan a).1.errors.filter fun e =>
          !e.isUnterminated && decide (e.span.stop + 2 ≤ a.utf8ByteSize)) <+:
        (s.scan (a ++ b)).1.errors := by
  have htokens := Trace.filter_tokens_isPrefix .origin a.toList b.toList
  have herrors := Trace.filter_errors_isPrefix .origin a.toList b.toList
  rw [Position.offset_origin, Nat.zero_add, Text.size_toList, ← String.toList_append]
    at htokens herrors
  exact ⟨htokens, herrors⟩

/-- One byte behind a number is not enough. -/
example : (scan {} "1.").2.tokens.head? ≠ (scan {} "1.5").2.tokens.head? := by decide +kernel

end Scanner

end Lexis

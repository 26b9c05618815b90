import Lexis.Proofs.Composition
import Mathlib.Data.List.TakeWhile

set_option autoImplicit false

/-! # What is found, without the places

Without their places the tokens and errors of a text depend on its segments alone, one by one. White
space has no tokens, neither the blanks nor the white space that is out of place in source text; and
the end of a line makes no difference to a text that needs no more input, not even a carriage
return, which becomes part of a line comment before it. -/

namespace Lexis

/-- What a token says apart from its place: its kind, lexeme and value. -/
def Token.content (t : Token) : TokenKind × String × Option Literal :=
  (t.kind, t.lexeme, t.literal?)

/-- The content of the token of a segment. -/
def Segment.content? (s : Segment) : Option (TokenKind × String × Option Literal) :=
  s.token?.map fun (kind, literal?) => (kind, String.ofList s.text, literal?)

/-- The contents of the tokens of a text. -/
def Text.contents (cs : List Char) : List (TokenKind × String × Option Literal) :=
  (Segment.readAll cs).filterMap Segment.content?

theorem Trace.map_content_tokens (start : Position) (segments : List Segment) :
    (tokens (place Segment.text start segments)).map Token.content =
      segments.filterMap Segment.content? := by
  induction segments generalizing start with
  | nil => rfl
  | cons s segments ih =>
      rw [place, tokens_cons, List.map_append, ih, List.filterMap_cons, Placed.token?,
        Segment.content?]
      cases s.token? <;> rfl

theorem map_content_tokens_scan (source : String) :
    (scan source).tokens.map Token.content = Text.contents source.toList :=
  Trace.map_content_tokens _ _

/-- What is wrong with a segment: with the escapes inside it, and with it as a whole. -/
def Segment.causes (s : Segment) : List LexError.Cause :=
  (s.items.filter fun item => item.value?.isNone).map
      (fun item => .invalidEscape (String.ofList item.text)) ++
    (s.fault?.map Prod.fst).toList

theorem map_cause_itemErrors (start : Position) (items : List StringItem) :
    (itemErrors start items).map LexError.cause =
      (items.filter fun item => item.value?.isNone).map
        fun item => .invalidEscape (String.ofList item.text) := by
  induction items generalizing start with
  | nil => rfl
  | cons item items ih =>
      rw [itemErrors_cons, itemErrors_singleton, List.map_append, ih, List.filter_cons]
      split <;> rfl

theorem Placed.map_cause_errors (p : Placed Segment) :
    p.errors.map LexError.cause = p.piece.causes := by
  rw [errors, List.map_append, escapeErrors_eq, map_cause_itemErrors, ownError?, Segment.causes]
  cases p.piece.fault? <;> rfl

theorem Trace.map_cause_errors (start : Position) (segments : List Segment) :
    (errors (place Segment.text start segments)).map LexError.cause =
      segments.flatMap Segment.causes := by
  induction segments generalizing start with
  | nil => rfl
  | cons s segments ih =>
      rw [place, errors_cons, List.map_append, ih, Placed.map_cause_errors, List.flatMap_cons]

theorem map_cause_errors_scan (source : String) :
    (scan source).errors.map LexError.cause =
      (Segment.readAll source.toList).flatMap Segment.causes := Trace.map_cause_errors _ _

namespace Text

@[simp] theorem contents_nil : contents [] = [] := by
  rw [contents, Segment.readAll, List.filterMap_nil]

/-! ## White space -/

theorem bounds_of_isWhiteSpace {c : Char} (h : isWhiteSpace c = true) :
    c.toNat ≤ 32 ∨ 127 ≤ c.toNat := by
  obtain ⟨⟨low, high⟩, hmem, hbounds⟩ := List.any_eq_true.1 h
  have hranges : ∀ r ∈ whiteSpaceRanges, r.2 ≤ 32 ∨ 127 ≤ r.1 := by decide
  have hrange := hranges _ hmem
  simp only [Bool.and_eq_true, decide_eq_true_eq] at hbounds
  omega

/-- White space is read as blanks, and as characters with which nothing starts. -/
theorem readAll_of_isWhiteSpace {cs : List Char} (h : ∀ c ∈ cs, isWhiteSpace c = true) :
    Segment.readAll cs = cs.map fun c => if isBlank c then .blank c else .unexpected c := by
  induction cs with
  | nil => rw [Segment.readAll, List.map_nil]
  | cons c cs ih =>
      obtain ⟨hc, hcs⟩ := List.forall_mem_cons.1 h
      rw [List.map_cons, ← ih hcs]
      cases hblank : isBlank c with
      | true => exact Segment.readAll_blank hblank cs
      | false =>
          have hnothing := startsNothing_of_not_printed hblank (bounds_of_isWhiteSpace hc)
          exact Segment.readAll_unexpected hnothing cs

theorem contents_eq_nil_of_isWhiteSpace {cs : List Char} (h : ∀ c ∈ cs, isWhiteSpace c = true) :
    contents cs = [] := by
  rw [contents, readAll_of_isWhiteSpace h, List.filterMap_eq_nil_iff]
  intro s hs
  obtain ⟨c, -, rfl⟩ := List.mem_map.1 hs
  split <;> rfl

/-- Nothing is wrong with white space exactly if all of it is blanks. -/
theorem causes_eq_nil_iff_of_isWhiteSpace {cs : List Char}
    (h : ∀ c ∈ cs, isWhiteSpace c = true) :
    (Segment.readAll cs).flatMap Segment.causes = [] ↔ ∀ c ∈ cs, isBlank c = true := by
  rw [readAll_of_isWhiteSpace h, List.flatMap_eq_nil_iff, List.forall_mem_map]
  refine forall₂_congr fun c _ => ?_
  cases isBlank c <;> simp [Segment.causes, Segment.items, Segment.fault?]

/-- In white space only blanks are in order. -/
theorem errors_scan_eq_nil_iff_of_isWhiteSpace {cs : List Char}
    (h : ∀ c ∈ cs, isWhiteSpace c = true) :
    (scan (String.ofList cs)).errors = [] ↔ ∀ c ∈ cs, isBlank c = true := by
  have hcauses := map_cause_errors_scan (String.ofList cs)
  rw [String.toList_ofList] at hcauses
  rw [← causes_eq_nil_iff_of_isWhiteSpace h, ← hcauses, List.map_eq_nil_iff]

theorem tokens_scan_eq_nil_of_isWhiteSpace {cs : List Char}
    (h : ∀ c ∈ cs, isWhiteSpace c = true) : (scan (String.ofList cs)).tokens = [] := by
  have hcontents := map_content_tokens_scan (String.ofList cs)
  rwa [String.toList_ofList, contents_eq_nil_of_isWhiteSpace h, List.map_eq_nil_iff] at hcontents

theorem isWhiteSpace_of_trim_eq_nil {cs : List Char} (h : trim cs = []) :
    ∀ c ∈ cs, isWhiteSpace c = true := by
  rw [trim, trimEnd, List.reverse_eq_nil_iff, List.dropWhile_eq_nil_iff] at h
  intro c hc
  rw [← cs.takeWhile_append_dropWhile (p := isWhiteSpace)] at hc
  rcases List.mem_append.1 hc with hstart | hend
  · exact List.all_eq_true.1 List.all_takeWhile c hstart
  · exact h c (List.mem_reverse.2 hend)

/-! ## Ends of lines -/

theorem contents_append_newline {cs : List Char}
    (h : (Segment.readAll cs).any Segment.isOpen = false) (rest : List Char) :
    contents (cs ++ '\n' :: rest) = contents cs ++ contents rest := by
  rw [contents, Segment.readAll_append_newline h, List.filterMap_append, List.filterMap_cons]
  rfl

/-- A carriage return at the end of a text is a blank, or it belongs to a comment. -/
theorem contents_append_return {cs : List Char}
    (h : (Segment.readAll cs).any Segment.isOpen = false) :
    (Segment.readAll (cs ++ ['\r'])).any Segment.isOpen = false ∧
      contents (cs ++ ['\r']) = contents cs := by
  have htext := Segment.textOf_readAll cs
  have hrow := Segment.row_readAll cs
  by_cases hcomment : ∃ body, (Segment.readAll cs).getLast? = some (.lineComment body)
  · obtain ⟨body, hlast⟩ := hcomment
    obtain ⟨init, hsegments⟩ := List.getLast?_eq_some_iff.1 hlast
    rw [hsegments] at h htext hrow
    obtain ⟨hinit, hbody, -⟩ := Segment.row_append.1 hrow
    have hread : Segment.readAll (cs ++ ['\r']) = init ++ [.lineComment (body ++ ['\r'])] := by
      refine Segment.readAll_eq_iff.2 ⟨?_, Segment.row_append.2 ⟨hinit.congr rfl, ?_, trivial⟩⟩
      · simp [← htext, Segment.text]
      · refine ⟨?_, Segment.goesOn_nil _⟩
        have hline : '\n' ∉ body := hbody.wellFormed
        simpa [Segment.WellFormed] using hline
    rw [contents, contents, hread, hsegments, List.filterMap_append, List.filterMap_append]
    refine ⟨?_, rfl⟩
    simpa [Segment.isOpen] using h
  · have hreturn : IsSeparator '\r' := isSeparator_of_isBlank rfl
    have hbefore := hrow.before_separator hreturn h
      (.inr fun body hlast => hcomment ⟨body, hlast⟩) []
    have hread := Segment.readAll_append hbefore
    rw [Segment.readAll_blank rfl, Segment.readAll] at hread
    rw [contents, contents, hread, List.filterMap_append]
    refine ⟨?_, List.append_nil _⟩
    simpa [Segment.isOpen] using h

end Text

end Lexis

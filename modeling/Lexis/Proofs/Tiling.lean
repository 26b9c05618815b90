import Lexis.Proofs.SegmentRow
import Lexis.Proofs.Trace

set_option autoImplicit false

/-! # Texts tiled by their pieces

Every text falls apart into tiles, each of which has exactly one form: the lexeme of a token, a
blank, a comment, or a piece that is wrong. A form is told by the text of the tile and by what
stands behind it (`Form.Describes`), without a reader. `exists_tiling` says that the tokens of a
scan are the tiles of the form of tokens, and that its errors, those inside strings apart, are
those of the tiles that are wrong. -/

namespace Lexis

/-! ## Forms -/

/-- The texts that are lexemes of tokens. -/
inductive IsLexeme : List Char → Prop
  | symbol (s : Symbol) : IsLexeme s.spelling
  | word {text : List Char} : IsWord text → IsLexeme text
  | integer {digits : List Char} :
      IsDigits digits → Nat.ofDigitChars 10 digits 0 ≤ Segment.maxInteger → IsLexeme digits
  | decimal {whole fraction : List Char} :
      IsDigits whole → IsDigits fraction → (Binary64.ofDecimal? whole fraction).isSome = true →
        IsLexeme (whole ++ '.' :: fraction)
  | string {body : List Char} : IsStringBody body → IsLexeme ('"' :: (body ++ ['"']))

/-- What a piece of a text can be. -/
inductive Form where
  | token
  | blank
  | lineComment
  | blockComment
  | unexpected
  | integerOutOfRange
  | decimalOutOfRange
  | openString
  | openComment
deriving DecidableEq, Repr

/-- Whether a text before `rest` has a form. -/
def Form.Describes (text rest : List Char) : Form → Prop
  | token => IsLexeme text
  | blank => ∃ c, text = [c] ∧ (c = ' ' ∨ c = '\t' ∨ c = '\r' ∨ c = '\n')
  | lineComment =>
    ∃ body, text = '/' :: '/' :: body ∧ '\n' ∉ body ∧ (rest = [] ∨ rest.head? = some '\n')
  | blockComment =>
    ∃ body, text = '/' :: '*' :: (body ++ ['*', '/']) ∧ ¬ ['*', '/'] <:+: body ++ ['*']
  | unexpected => ∃ c, text = [c] ∧ StartsNothing c
  | integerOutOfRange => IsDigits text ∧ Segment.maxInteger < Nat.ofDigitChars 10 text 0
  | decimalOutOfRange =>
    ∃ whole fraction, text = whole ++ '.' :: fraction ∧ IsDigits whole ∧ IsDigits fraction ∧
      Binary64.ofDecimal? whole fraction = none
  | openString =>
    rest = [] ∧ ∃ body, IsStringBody body ∧ (text = '"' :: body ∨ text = '"' :: (body ++ ['\\']))
  | openComment => rest = [] ∧ ∃ body, text = '/' :: '*' :: body ∧ ¬ ['*', '/'] <:+: body

/-- What is wrong with a text of a form. -/
def Form.cause? (text : List Char) : Form → Option LexError.Cause
  | unexpected => text.head?.map .unexpectedCharacter
  | integerOutOfRange => some (.integerOutOfRange (String.ofList text))
  | decimalOutOfRange => some (.decimalOutOfRange (String.ofList text))
  | openString => some .unterminatedString
  | openComment => some .unterminatedBlockComment
  | _ => none

/-! ## Tiles -/

/-- A piece of a text, with the text before it. -/
structure Tile where
  before : List Char
  text : List Char
  form : Form

namespace Tile

/-- The bytes that a tile covers. -/
def span (t : Tile) : Span := ⟨Text.size t.before, Text.size t.before + Text.size t.text⟩

/-- What is wrong with a tile, and the offset at which it starts. -/
def error? (t : Tile) : Option (Nat × LexError.Cause) :=
  (t.form.cause? t.text).map fun cause => (Text.size t.before, cause)

end Tile

/-- Tiles that make up the text behind `before`, none of them empty and each of its form only. -/
def Covers : List Char → List Char → List Tile → Prop
  | _, text, [] => text = []
  | before, text, tile :: tiles =>
    tile.before = before ∧ tile.text ≠ [] ∧ ∃ rest, text = tile.text ++ rest ∧
      (∀ form : Form, form.Describes tile.text rest ↔ form = tile.form) ∧
      Covers (before ++ tile.text) rest tiles

/-! ## Forms of segments -/

namespace Segment

/-- The form of the text of a segment. -/
def form : Segment → Form
  | blank _ => .blank
  | lineComment _ => .lineComment
  | blockComment _ => .blockComment
  | openComment _ => .openComment
  | symbol _ | word _ | string _ => .token
  | integer digits => if (integerValue? digits).isSome then .token else .integerOutOfRange
  | decimal whole fraction =>
    if (Binary64.ofDecimal? whole fraction).isSome then .token else .decimalOutOfRange
  | openString _ _ => .openString
  | unexpected _ => .unexpected

theorem isSome_integerValue? {digits : List Char} :
    (integerValue? digits).isSome = true ↔ Nat.ofDigitChars 10 digits 0 ≤ maxInteger := by
  unfold integerValue?
  by_cases h : Nat.ofDigitChars 10 digits 0 ≤ maxInteger <;> simp [h]

theorem EndsBefore.describes {s : Segment} {rest : List Char} (h : s.EndsBefore rest) :
    s.form.Describes s.text rest := by
  have hwell := h.wellFormed
  cases s with
  | blank c => exact ⟨c, rfl, Text.isBlank_iff.1 hwell⟩
  | lineComment body =>
      refine ⟨body, rfl, hwell, ?_⟩
      have hcomplete := h.complete
      cases rest with
      | nil => exact .inl rfl
      | cons c rest =>
          obtain rfl : c = '\n' := by simpa [goesOn] using hcomplete
          exact .inr rfl
  | blockComment body => exact ⟨body, rfl, hwell⟩
  | openComment body => exact ⟨h.eq_nil_of_isOpen rfl, body, rfl, hwell⟩
  | symbol s => exact .symbol s
  | word text => exact .word hwell
  | integer digits =>
      rw [form]
      by_cases hrange : (integerValue? digits).isSome = true
      · rw [if_pos hrange]
        exact .integer hwell (isSome_integerValue?.1 hrange)
      · rw [if_neg hrange]
        rw [isSome_integerValue?, Nat.not_le] at hrange
        exact ⟨hwell, hrange⟩
  | decimal whole fraction =>
      rw [form]
      by_cases hrange : (Binary64.ofDecimal? whole fraction).isSome = true
      · rw [if_pos hrange]
        exact .decimal hwell.1 hwell.2 hrange
      · rw [if_neg hrange]
        rw [Option.not_isSome_iff_eq_none] at hrange
        exact ⟨whole, fraction, rfl, hwell.1, hwell.2, hrange⟩
  | string items => exact .string (StringItem.Row.isStringBody hwell)
  | openString items dangling =>
      have hbody := StringItem.Row.isStringBody hwell
      refine ⟨h.eq_nil_of_isOpen rfl, StringItem.textOf items, hbody, ?_⟩
      cases dangling with
      | false => exact .inl (congrArg _ (List.append_nil _))
      | true => exact .inr rfl
  | unexpected c => exact ⟨c, rfl, hwell⟩

/-- A text of a form is the text of a segment of that form. -/
theorem exists_of_describes {form : Form} {text rest : List Char} (h : form.Describes text rest) :
    ∃ s : Segment, s.WellFormed ∧ s.text = text ∧ s.form = form := by
  cases form with
  | token =>
      cases h with
      | symbol s => exact ⟨symbol s, trivial, rfl, rfl⟩
      | word hword => exact ⟨word text, hword, rfl, rfl⟩
      | integer hdigits hrange =>
          exact ⟨integer text, hdigits, rfl, if_pos (isSome_integerValue?.2 hrange)⟩
      | @decimal whole fraction hwhole hfraction hrange =>
          exact ⟨decimal whole fraction, ⟨hwhole, hfraction⟩, rfl, if_pos hrange⟩
      | string hbody =>
          obtain ⟨items, hrow, rfl⟩ := StringItem.exists_row hbody (.closed [])
          exact ⟨string items, hrow, rfl, rfl⟩
  | blank =>
      obtain ⟨c, rfl, hc⟩ := h
      exact ⟨blank c, Text.isBlank_iff.2 hc, rfl, rfl⟩
  | lineComment =>
      obtain ⟨body, rfl, hbody, -⟩ := h
      exact ⟨lineComment body, hbody, rfl, rfl⟩
  | blockComment =>
      obtain ⟨body, rfl, hbody⟩ := h
      exact ⟨blockComment body, hbody, rfl, rfl⟩
  | unexpected =>
      obtain ⟨c, rfl, hc⟩ := h
      exact ⟨unexpected c, hc, rfl, rfl⟩
  | integerOutOfRange =>
      obtain ⟨hdigits, hrange⟩ := h
      refine ⟨integer text, hdigits, rfl, if_neg ?_⟩
      rw [isSome_integerValue?]
      omega
  | decimalOutOfRange =>
      obtain ⟨whole, fraction, rfl, hwhole, hfraction, hrange⟩ := h
      exact ⟨decimal whole fraction, ⟨hwhole, hfraction⟩, rfl, if_neg (by simp [hrange])⟩
  | openString =>
      obtain ⟨-, body, hbody, rfl | rfl⟩ := h
      · obtain ⟨items, hrow, rfl⟩ := StringItem.exists_row hbody .unclosed
        exact ⟨openString items false, hrow, congrArg _ (List.append_nil _), rfl⟩
      · obtain ⟨items, hrow, rfl⟩ := StringItem.exists_row hbody .unclosedEscape
        exact ⟨openString items true, hrow, rfl, rfl⟩
  | openComment =>
      obtain ⟨-, body, rfl, hbody⟩ := h
      exact ⟨openComment body, hbody, rfl, rfl⟩

/-- A segment has one form only. -/
theorem EndsBefore.describes_iff {s : Segment} {rest : List Char} (h : s.EndsBefore rest)
    (form : Form) : form.Describes s.text rest ↔ form = s.form := by
  constructor
  · intro hform
    obtain ⟨s', hwell, htext, rfl⟩ := exists_of_describes hform
    rw [hwell.eq_of_text h.wellFormed htext]
  · rintro rfl
    exact h.describes

/-! ## Tiles of segments -/

/-- The tiles of segments behind a text. -/
def tiles (before : List Char) : List Segment → List Tile
  | [] => []
  | s :: segments => ⟨before, s.text, s.form⟩ :: tiles (before ++ s.text) segments

theorem covers_tiles {segments : List Segment} (before : List Char) (h : Row [] segments) :
    Covers before (textOf segments) (tiles before segments) := by
  induction segments generalizing before with
  | nil => rfl
  | cons s segments ih =>
      obtain ⟨hs, hrow⟩ := h
      rw [List.append_nil] at hs
      exact ⟨rfl, hs.wellFormed.text_ne_nil, textOf segments, rfl, hs.describes_iff, ih _ hrow⟩

theorem isSome_token?_iff {s : Segment} : s.token?.isSome = true ↔ s.form = .token := by
  cases s with
  | integer digits => cases h : integerValue? digits <;> simp [token?, form, h]
  | decimal whole fraction =>
      cases h : Binary64.ofDecimal? whole fraction <;> simp [token?, form, h]
  | _ => simp [token?, form]

theorem map_fault?_eq_cause? (s : Segment) : s.fault?.map Prod.fst = s.form.cause? s.text := by
  cases s with
  | integer digits =>
      rw [fault?, form, text, ← Option.not_isSome]
      by_cases h : (integerValue? digits).isSome = true
      · rw [if_neg (by simp [h]), if_pos h]
        rfl
      · rw [if_pos (by simp [h]), if_neg h]
        rfl
  | decimal whole fraction =>
      rw [fault?, form, text, ← Option.not_isSome]
      by_cases h : (Binary64.ofDecimal? whole fraction).isSome = true
      · rw [if_neg (by simp [h]), if_pos h]
        rfl
      · rw [if_pos (by simp [h]), if_neg h]
        rfl
  | _ => rfl

end Segment

/-! ## What a scan makes of its tiles -/

/-- Whether an error is about the inside of a string. -/
def LexError.Cause.isInvalidEscape : LexError.Cause → Bool
  | invalidEscape _ => true
  | _ => false

theorem Placed.filter_errors (p : Placed Segment) :
    (p.errors.filter fun e => !e.cause.isInvalidEscape) = p.ownError?.toList := by
  have hescapes : ((escapeErrors p.start p.piece.items).filter
      fun e => !e.cause.isInvalidEscape) = [] := by
    rw [List.filter_eq_nil_iff]
    intro e he
    obtain ⟨sequence, hcause⟩ := cause_of_mem_escapeErrors he
    simp [hcause, LexError.Cause.isInvalidEscape]
  have hown : ∀ e ∈ p.ownError?.toList, (!e.cause.isInvalidEscape) = true := by
    intro e he
    obtain ⟨⟨cause, size⟩, hfault, rfl⟩ := Option.map_eq_some_iff.1 (Option.mem_toList.1 he)
    have hcause : p.piece.form.cause? p.piece.text = some cause := by
      rw [← Segment.map_fault?_eq_cause?, hfault]
      rfl
    cases cause with
    | invalidEscape sequence => cases hform : p.piece.form <;> simp [hform, Form.cause?] at hcause
    | _ => rfl
  rw [errors, List.filter_append, hescapes, List.filter_eq_self.2 hown, List.nil_append]

namespace Trace

/-- The tokens of a trace, as ranges and texts, are the tiles of the form of tokens. -/
theorem tokens_tiles (before : List Char) (segments : List Segment) :
    (tokens (place Segment.text (Position.origin.after before) segments)).map
        (fun t => (t.span, t.lexeme)) =
      ((Segment.tiles before segments).filter fun t => t.form = .token).map
        fun t => (t.span, String.ofList t.text) := by
  induction segments generalizing before with
  | nil => rfl
  | cons s segments ih =>
      -- the place behind a segment is the place behind all the text up to there
      have htail := ih (before ++ s.text)
      rw [Position.after_append] at htail
      rw [place, tokens_cons, List.map_append, htail, Segment.tiles]
      cases htoken : s.token? with
      | none =>
          have hform : s.form ≠ .token := by
            rw [Ne, ← Segment.isSome_token?_iff, htoken]
            simp
          simp [Placed.token?, htoken, hform]
      | some token =>
          have hform : s.form = .token := Segment.isSome_token?_iff.1 (by rw [htoken]; rfl)
          simp [Placed.token?, htoken, hform, Token.span, Tile.span, Position.origin]

/-- The errors of a trace, those inside strings apart, are those of the tiles that are wrong. -/
theorem errors_tiles (before : List Char) (segments : List Segment) :
    ((errors (place Segment.text (Position.origin.after before) segments)).filter
        fun e => !e.cause.isInvalidEscape).map (fun e => (e.start.offset, e.cause)) =
      (Segment.tiles before segments).filterMap Tile.error? := by
  induction segments generalizing before with
  | nil => rfl
  | cons s segments ih =>
      have htail := ih (before ++ s.text)
      rw [Position.after_append] at htail
      have hcause := Segment.map_fault?_eq_cause? s
      rw [place, errors_cons, List.filter_append, Placed.filter_errors, List.map_append, htail,
        Segment.tiles, List.filterMap_cons, Tile.error?, ← hcause]
      cases hfault : s.fault? with
      | none => simp [Placed.ownError?, hfault]
      | some fault => simp [Placed.ownError?, hfault, Position.origin]

end Trace

/-- Every text is tiled by pieces of exactly one form each; the tokens of its scan are the tiles of
    the form of tokens, and the errors are those of the tiles that are wrong. -/
theorem Scanner.exists_tiling (s : Scanner) (source : String) :
    ∃ tiles : List Tile, Covers [] source.toList tiles ∧
      (s.scan source).2.tokens.map (fun t => (t.span, t.lexeme)) =
        (tiles.filter fun t => t.form = .token).map (fun t => (t.span, String.ofList t.text)) ∧
      ((s.scan source).1.errors.filter fun e => !e.cause.isInvalidEscape).map
          (fun e => (e.start.offset, e.cause)) =
        tiles.filterMap Tile.error? := by
  have hcovers := Segment.covers_tiles [] (Segment.row_readAll source.toList)
  rw [Segment.textOf_readAll] at hcovers
  exact ⟨_, hcovers, Trace.tokens_tiles [] _, Trace.errors_tiles [] _⟩

end Lexis

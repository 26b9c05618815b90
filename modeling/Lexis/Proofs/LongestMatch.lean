import Lexis.Proofs.SegmentRow
import Lexis.Proofs.Trace

set_option autoImplicit false

/-! # The longest match

A token that is not a string is the longest symbol, word or number that starts at its place
(`IsLongestStart`), whatever the text around it is, and a string ends with the first quote that no
backslash takes. The kind of a token is the one that its lexeme alone determines
(`TokenKind.SettledBy`). That nothing longer starts there is what `Segment.goesOn` is about: a
lexeme that goes on as another one is not complete (`goesOn_of_text_eq_append`). -/

namespace Lexis

/-! ## Lexemes and kinds -/

/-- The lexemes of tokens that are not strings. -/
inductive IsBareLexeme : List Char → Prop
  | symbol (s : Symbol) : IsBareLexeme s.spelling
  | word {text : List Char} : IsWord text → IsBareLexeme text
  | number {text : List Char} : IsNumber text → IsBareLexeme text

/-- A quote, the inside of a string, and a quote. -/
def IsQuoted (text : List Char) : Prop := ∃ body, IsStringBody body ∧ text = '"' :: (body ++ ['"'])

/-- The start of a text that has a property, such that no longer one does. -/
structure IsLongestStart (p : List Char → Prop) (lexeme text : List Char) : Prop where
  holds : p lexeme
  starts : lexeme <+: text
  longest : ∀ other, p other → other <+: text → other.length ≤ lexeme.length

/-- Each kind goes with lexemes of its own, so the lexeme settles the kind. -/
structure TokenKind.SettledBy (kind : TokenKind) (lexeme : String) : Prop where
  symbol_iff : ∀ s : Symbol, kind = .symbol s ↔ lexeme.toList = s.spelling
  keyword_iff : ∀ k : Keyword, kind = .keyword k ↔ Keyword.ofText? lexeme = some k
  isKeyword_iff : kind.isKeyword = true ↔ (Keyword.ofText? lexeme).isSome = true
  identifier_iff : kind = .identifier ↔ IsWord lexeme.toList ∧ Keyword.ofText? lexeme = none
  number_iff : kind = .number ↔ IsNumber lexeme.toList
  string_iff : kind = .string ↔ IsQuoted lexeme.toList
  ne_endOfInput : kind ≠ .endOfInput

/-- What a token has to be, given the text that starts where it does. -/
structure Token.Fits (t : Token) (behind : List Char) : Prop where
  settled : t.kind.SettledBy t.lexeme
  literal_iff : t.literal? = none ↔ t.kind ≠ .string ∧ t.kind ≠ .number
  bare : t.kind ≠ .string → IsLongestStart IsBareLexeme t.lexeme.toList behind ∧
    ¬ ['/', '/'] <+: behind ∧ ¬ ['/', '*'] <+: behind
  quoted : t.kind = .string → IsQuoted t.lexeme.toList ∧ t.lexeme.toList <+: behind

theorem Keyword.isWord_spelling (k : Keyword) : IsWord k.spelling.toList := by
  cases k <;> exact ⟨_, _, rfl, by decide, List.all_eq_true.1 (by decide)⟩

/-! ## Longer numbers -/

theorem IsDigits.goesOn_of_isNumber {digits more : List Char} {c : Char} (hdigits : IsDigits digits)
    (h : IsNumber (digits ++ c :: more)) :
    c.isDigit = true ∨ c = '.' ∧ more.head?.any Char.isDigit = true := by
  generalize htext : digits ++ c :: more = text at h
  cases h with
  | integer htext' =>
      subst htext
      exact .inl (htext'.2 c (by simp))
  | @decimal whole fraction hwhole hfraction =>
      rcases List.append_eq_append_iff.1 htext with ⟨as, rfl, htail⟩ | ⟨bs, rfl, htail⟩
      · cases as with
        | nil =>
            obtain ⟨rfl, rfl⟩ := List.cons.inj htail
            obtain ⟨d, tail, rfl, hd, -⟩ := hfraction.exists_cons
            exact .inr ⟨rfl, hd⟩
        | cons d as =>
            obtain ⟨rfl, -⟩ := List.cons.inj htail
            exact .inl (hwhole.2 c (by simp))
      · cases bs with
        | nil =>
            obtain ⟨rfl, rfl⟩ := List.cons.inj htail
            obtain ⟨d, tail, rfl, hd, -⟩ := hfraction.exists_cons
            exact .inr ⟨rfl, hd⟩
        | cons d bs =>
            -- the point of the longer number would be one of the digits
            obtain ⟨rfl, -⟩ := List.cons.inj htail
            exact absurd (hdigits.2 '.' (by simp)) (by decide)

theorem isDigit_of_isNumber_decimal {whole fraction more : List Char} {c : Char}
    (hwhole : IsDigits whole) (h : IsNumber (whole ++ '.' :: (fraction ++ c :: more))) :
    c.isDigit = true := by
  generalize htext : whole ++ '.' :: (fraction ++ c :: more) = text at h
  cases h with
  | integer htext' =>
      subst htext
      exact absurd (htext'.2 '.' (by simp)) (by decide)
  | @decimal whole' fraction' hwhole' hfraction' =>
      have hstop (cs : List Char) : ∀ d ∈ ('.' :: cs).head?, d.isDigit = false := by simp
      -- both numbers have their points behind the same digits
      have hdrop := congrArg (List.dropWhile Char.isDigit) htext
      rw [Text.dropWhile_run hwhole.2 (hstop _), Text.dropWhile_run hwhole'.2 (hstop _)] at hdrop
      obtain ⟨-, rfl⟩ := List.cons.inj hdrop
      exact hfraction'.2 c (by simp)

namespace Segment

/-! ## Segments told by their texts -/

theorem WellFormed.text_eq_spelling_iff {s : Segment} (h : s.WellFormed) {sym : Symbol} :
    s.text = sym.spelling ↔ s = symbol sym := by
  constructor
  · intro htext
    have hsym : (symbol sym).WellFormed := trivial
    exact h.eq_of_text hsym htext
  · rintro rfl
    rfl

theorem WellFormed.isWord_text_iff {s : Segment} (h : s.WellFormed) :
    IsWord s.text ↔ ∃ text, s = word text := by
  constructor
  · intro hword
    have hwell : (word s.text).WellFormed := hword
    exact ⟨s.text, h.eq_of_text hwell rfl⟩
  · rintro ⟨text, rfl⟩
    exact h

theorem WellFormed.isNumber_text_iff {s : Segment} (h : s.WellFormed) :
    IsNumber s.text ↔
      (∃ digits, s = integer digits) ∨ ∃ whole fraction, s = decimal whole fraction := by
  constructor
  · intro hnumber
    generalize htext : s.text = text at hnumber
    cases hnumber with
    | integer hdigits =>
        have hwell : (integer text).WellFormed := hdigits
        exact .inl ⟨text, h.eq_of_text hwell htext⟩
    | @decimal whole fraction hwhole hfraction =>
        have hwell : (decimal whole fraction).WellFormed := ⟨hwhole, hfraction⟩
        exact .inr ⟨whole, fraction, h.eq_of_text hwell htext⟩
  · rintro (⟨digits, rfl⟩ | ⟨whole, fraction, rfl⟩)
    · exact .integer h
    · exact .decimal h.1 h.2

theorem WellFormed.isBareLexeme_text_iff {s : Segment} (h : s.WellFormed) :
    IsBareLexeme s.text ↔ (∃ sym, s = symbol sym) ∨ (∃ text, s = word text) ∨
      (∃ digits, s = integer digits) ∨ ∃ whole fraction, s = decimal whole fraction := by
  constructor
  · intro hbare
    generalize htext : s.text = text at hbare
    cases hbare with
    | symbol sym => exact .inl ⟨sym, h.text_eq_spelling_iff.1 htext⟩
    | word hword => exact .inr (.inl (h.isWord_text_iff.1 (htext ▸ hword)))
    | number hnumber => exact .inr (.inr (h.isNumber_text_iff.1 (htext ▸ hnumber)))
  · rintro (⟨sym, rfl⟩ | hword | hnumber)
    · exact .symbol sym
    · exact .word (h.isWord_text_iff.2 hword)
    · exact .number (h.isNumber_text_iff.2 hnumber)

theorem WellFormed.isQuoted_text_iff {s : Segment} (h : s.WellFormed) :
    IsQuoted s.text ↔ ∃ items, s = string items := by
  constructor
  · rintro ⟨body, hbody, htext⟩
    obtain ⟨items, hrow, rfl⟩ := StringItem.exists_row hbody (.closed [])
    have hwell : (string items).WellFormed := hrow
    exact ⟨items, h.eq_of_text hwell htext⟩
  · rintro ⟨items, rfl⟩
    exact ⟨StringItem.textOf items, StringItem.Row.isStringBody h, rfl⟩

theorem WellFormed.keyword_text_iff {s : Segment} (h : s.WellFormed) {k : Keyword} :
    Keyword.ofText? (String.ofList s.text) = some k ↔ s = word k.spelling.toList := by
  rw [Keyword.ofText?_eq_some_iff]
  constructor
  · intro htext
    have hwell : (word k.spelling.toList).WellFormed := k.isWord_spelling
    refine h.eq_of_text hwell ?_
    rw [htext, String.toList_ofList]
    rfl
  · rintro rfl
    exact (String.ofList_toList ..).symm

theorem WellFormed.ofText?_text_eq_none {s : Segment} (h : s.WellFormed)
    (hword : ∀ text, s ≠ word text) : Keyword.ofText? (String.ofList s.text) = none := by
  rw [Option.eq_none_iff_forall_ne_some]
  intro k hk
  exact hword _ (h.keyword_text_iff.1 hk)

/-- What tokens are made of, and which of them have values. -/
theorem token?_cases {s : Segment} {kind : TokenKind} {literal? : Option Literal}
    (h : s.token? = some (kind, literal?)) :
    (∃ sym, s = symbol sym ∧ kind = .symbol sym ∧ literal? = none) ∨
      (∃ text, s = word text ∧ kind = .ofWord (String.ofList text) ∧ literal? = none) ∨
      (((∃ digits, s = integer digits) ∨ ∃ whole fraction, s = decimal whole fraction) ∧
        kind = .number ∧ literal? ≠ none) ∨
      (∃ items, s = string items ∧ kind = .string ∧ literal? ≠ none) := by
  cases s with
  | symbol sym =>
      obtain ⟨rfl, rfl⟩ := Prod.mk.inj (Option.some.inj h)
      exact .inl ⟨sym, rfl, rfl, rfl⟩
  | word text =>
      obtain ⟨rfl, rfl⟩ := Prod.mk.inj (Option.some.inj h)
      exact .inr (.inl ⟨text, rfl, rfl, rfl⟩)
  | integer digits =>
      obtain ⟨n, -, hn⟩ := Option.map_eq_some_iff.1 h
      obtain ⟨rfl, rfl⟩ := Prod.mk.inj hn
      exact .inr (.inr (.inl ⟨.inl ⟨digits, rfl⟩, rfl, by simp⟩))
  | decimal whole fraction =>
      obtain ⟨x, -, hx⟩ := Option.map_eq_some_iff.1 h
      obtain ⟨rfl, rfl⟩ := Prod.mk.inj hx
      exact .inr (.inr (.inl ⟨.inr ⟨whole, fraction, rfl⟩, rfl, by simp⟩))
  | string items =>
      obtain ⟨rfl, rfl⟩ := Prod.mk.inj (Option.some.inj h)
      exact .inr (.inr (.inr ⟨items, rfl, rfl, by simp⟩))
  | _ => exact absurd h (by simp [token?])

/-- Strings and numbers have values, and nothing else has. -/
theorem literal?_eq_none_iff {s : Segment} {kind : TokenKind} {literal? : Option Literal}
    (h : s.token? = some (kind, literal?)) :
    literal? = none ↔ kind ≠ .string ∧ kind ≠ .number := by
  rcases token?_cases h with ⟨sym, rfl, rfl, rfl⟩ | ⟨text, rfl, rfl, rfl⟩ | ⟨-, rfl, hliteral⟩ |
    ⟨items, rfl, rfl, hliteral⟩
  · simp
  · cases hkeyword : Keyword.ofText? (String.ofList text) <;> simp [TokenKind.ofWord, hkeyword]
  · simpa using hliteral
  · simpa using hliteral

/-- A word is a keyword or an identifier, and its spelling is that of nothing else. -/
theorem settledBy_ofWord {text : List Char} (h : IsWord text) :
    (TokenKind.ofWord (String.ofList text)).SettledBy (String.ofList text) := by
  have hwell : (word text).WellFormed := h
  have hsymbol (sym : Symbol) : text ≠ sym.spelling := fun htext =>
    absurd (hwell.text_eq_spelling_iff.1 htext) (by simp)
  have hnumber : ¬ IsNumber text := fun hnumber =>
    absurd (hwell.isNumber_text_iff.1 hnumber) (by simp)
  have hquoted : ¬ IsQuoted text := fun hquoted =>
    absurd (hwell.isQuoted_text_iff.1 hquoted) (by simp)
  unfold TokenKind.ofWord
  cases hkeyword : Keyword.ofText? (String.ofList text) with
  | none => constructor <;> simp [hsymbol, hnumber, hquoted, h, hkeyword, TokenKind.isKeyword]
  | some k => constructor <;> simp [hsymbol, hnumber, hquoted, hkeyword, TokenKind.isKeyword]

theorem WellFormed.settledBy {s : Segment} {kind : TokenKind} {literal? : Option Literal}
    (h : s.WellFormed) (htoken : s.token? = some (kind, literal?)) :
    kind.SettledBy (String.ofList s.text) := by
  have hsymbol (sym : Symbol) : s.text = sym.spelling ↔ s = symbol sym := h.text_eq_spelling_iff
  have hword := h.isWord_text_iff
  have hnumber := h.isNumber_text_iff
  have hquoted := h.isQuoted_text_iff
  rcases token?_cases htoken with ⟨sym, rfl, rfl, -⟩ | ⟨text, rfl, rfl, -⟩ |
    ⟨⟨digits, rfl⟩ | ⟨whole, fraction, rfl⟩, rfl, -⟩ | ⟨items, rfl, rfl, -⟩
  · have hnone := h.ofText?_text_eq_none (by simp)
    constructor <;> simp [hsymbol, hword, hnumber, hquoted, hnone, TokenKind.isKeyword]
  · exact settledBy_ofWord h
  · have hnone := h.ofText?_text_eq_none (by simp)
    constructor <;> simp [hsymbol, hword, hnumber, hquoted, hnone, TokenKind.isKeyword]
  · have hnone := h.ofText?_text_eq_none (by simp)
    constructor <;> simp [hsymbol, hword, hnumber, hquoted, hnone, TokenKind.isKeyword]
  · have hnone := h.ofText?_text_eq_none (by simp)
    constructor <;> simp [hsymbol, hword, hnumber, hquoted, hnone, TokenKind.isKeyword]

/-! ## Longer lexemes -/

/-- The first character of a lexeme says what it is. -/
theorem isBareLexeme_cons {c : Char} {cs : List Char} (h : IsBareLexeme (c :: cs)) :
    (Text.isWordStart c = true → IsWord (c :: cs)) ∧ (c.isDigit = true → IsNumber (c :: cs)) ∧
      (Text.isWordStart c = false → c.isDigit = false →
        ∃ sym : Symbol, sym.spelling = c :: cs) := by
  generalize htext : c :: cs = text at h
  cases h with
  | symbol sym =>
      obtain ⟨-, -, hdigit, hword⟩ := class_of_symbol htext.symm
      simp [hdigit, hword]
  | word hword =>
      obtain ⟨d, tail, rfl, hd, -⟩ := id hword
      obtain ⟨rfl, -⟩ := List.cons.inj htext
      simp [hword, hd, Text.isDigit_of_isWordStart hd]
  | number hnumber =>
      obtain ⟨d, tail, rfl, hd⟩ := hnumber.exists_cons
      obtain ⟨rfl, -⟩ := List.cons.inj htext
      simp [hnumber, hd, Text.isWordStart_of_isDigit hd]

/-- A lexeme with which another one starts is not complete there. -/
theorem WellFormed.goesOn_of_isBareLexeme {s : Segment} {c : Char} {more : List Char}
    (h : s.WellFormed) (hbare : IsBareLexeme s.text)
    (hother : IsBareLexeme (s.text ++ c :: more)) (rest : List Char) :
    s.goesOn (c :: (more ++ rest)) = true := by
  -- the longer lexeme has the same first character, so it is of the same class
  rcases h.isBareLexeme_text_iff.1 hbare with ⟨sym, rfl⟩ | ⟨text, rfl⟩ | ⟨digits, rfl⟩ |
    ⟨whole, fraction, rfl⟩
  · cases hspelling : sym.spelling with
    | nil => exact absurd hspelling sym.spelling_ne_nil
    | cons d tail =>
        obtain ⟨-, -, hdigit, hword⟩ := class_of_symbol hspelling
        rw [text, hspelling, List.cons_append] at hother
        obtain ⟨sym', hsym'⟩ := (isBareLexeme_cons hother).2.2 hword hdigit
        rw [← List.cons_append, ← hspelling] at hsym'
        simp [goesOn, Symbol.goesOnWith_of_eq_append hsym']
  · obtain ⟨d, tail, rfl, hd, -⟩ : IsWord text := h
    have hword := (isBareLexeme_cons hother).1 hd
    exact hword.forall_isWordPart c (by simp)
  · have hdigits : IsDigits digits := h
    obtain ⟨d, tail, rfl, hd, -⟩ := id hdigits.exists_cons
    have hnumber := (isBareLexeme_cons hother).2.1 hd
    rcases hdigits.goesOn_of_isNumber hnumber with hc | ⟨rfl, hmore⟩
    · simp [goesOn, hc]
    · cases more with
      | nil => simp at hmore
      | cons e more =>
          have he : e.isDigit = true := by simpa using hmore
          simp [goesOn, he]
  · obtain ⟨hwhole, -⟩ : IsDigits whole ∧ IsDigits fraction := h
    obtain ⟨d, tail, rfl, hd, -⟩ := id hwhole.exists_cons
    rw [text, List.append_assoc, List.cons_append, List.cons_append] at hother
    have hnumber := (isBareLexeme_cons hother).2.1 hd
    exact isDigit_of_isNumber_decimal hwhole hnumber

/-- A lexeme that is complete is the longest one. -/
theorem EndsBefore.isLongestStart {s : Segment} {rest : List Char} (h : s.EndsBefore rest)
    (hbare : IsBareLexeme s.text) : IsLongestStart IsBareLexeme s.text (s.text ++ rest) := by
  refine ⟨hbare, List.prefix_append .., fun other hother hstarts => ?_⟩
  by_cases hle : other.length ≤ s.text.length
  · exact hle
  · obtain ⟨tail, rfl⟩ := List.prefix_of_prefix_length_le (List.prefix_append s.text rest) hstarts
      (by omega)
    rw [List.prefix_append_right_inj] at hstarts
    obtain ⟨more, rfl⟩ := hstarts
    cases tail with
    | nil => simp at hle
    | cons c tail =>
        -- a longer lexeme has the first character of `rest` right behind `s`
        have hgo := h.wellFormed.goesOn_of_isBareLexeme hbare hother more
        exact Bool.noConfusion (hgo.symm.trans h.complete)

/-- Where a comment is opened, no token is read. -/
theorem EndsBefore.not_opens_comment {s : Segment} {rest : List Char} (h : s.EndsBefore rest)
    (htoken : s.token?.isSome = true) :
    ¬ ['/', '/'] <+: s.text ++ rest ∧ ¬ ['/', '*'] <+: s.text ++ rest := by
  constructor
  · rintro ⟨tail, htail⟩
    have hread : read '/' ('/' :: tail) = (s, rest) := read_text_append h htail.symm
    rw [read_slash_slash, readLineComment] at hread
    obtain ⟨rfl, -⟩ := Prod.mk.inj hread
    simp [token?] at htoken
  · rintro ⟨tail, htail⟩
    have hread : read '/' ('*' :: tail) = (s, rest) := read_text_append h htail.symm
    rw [read_slash_star, readBlockComment] at hread
    split at hread
    · obtain ⟨rfl, -⟩ := Prod.mk.inj hread
      simp [token?] at htoken
    · obtain ⟨rfl, -⟩ := Prod.mk.inj hread
      simp [token?] at htoken

end Segment

/-! ## Tokens of a scan -/

theorem Segment.EndsBefore.fits {s : Segment} {rest : List Char} {p : Position} {t : Token}
    (h : s.EndsBefore rest) (htoken : Placed.token? ⟨p, s⟩ = some t) : t.Fits (s.text ++ rest) := by
  obtain ⟨⟨kind, literal?⟩, hs, rfl⟩ := Option.map_eq_some_iff.1 htoken
  have hwell := h.wellFormed
  have hsettled := hwell.settledBy hs
  refine ⟨hsettled, literal?_eq_none_iff hs, fun hkind => ?_, fun hkind => ?_⟩
  · rw [String.toList_ofList]
    refine ⟨h.isLongestStart ?_, h.not_opens_comment (by rw [hs]; rfl)⟩
    rcases token?_cases hs with ⟨sym, rfl, -⟩ | ⟨text, rfl, -⟩ | ⟨hnumber, -⟩ | ⟨items, rfl, rfl, -⟩
    · exact .symbol sym
    · exact .word hwell
    · exact .number (hwell.isNumber_text_iff.2 hnumber)
    · exact absurd rfl hkind
  · refine ⟨hsettled.string_iff.1 hkind, ?_⟩
    rw [String.toList_ofList]
    exact List.prefix_append ..

/-- Every token of a scan is what the text at its place says: the longest match there, or the string
    up to its first quote that counts, of the kind that its lexeme settles. -/
theorem Scanner.fits_of_mem_tokens (s : Scanner) (source : String) {t : Token}
    (h : t ∈ (s.scan source).2.tokens) :
    ∃ before behind, Text.cut? source.toList t.span.start = some (before, behind) ∧
      t.Fits behind := by
  obtain ⟨p, hp, htoken⟩ := List.mem_filterMap.1 h
  obtain ⟨before, segment, behind, hsegments, rfl⟩ := exists_of_mem_place hp
  have htext := Segment.textOf_readAll source.toList
  have hrow := Segment.row_readAll source.toList
  rw [hsegments, Segment.textOf_append, Segment.textOf_cons] at htext
  rw [hsegments, Segment.row_append] at hrow
  obtain ⟨hends, -⟩ := hrow.2
  rw [List.append_nil] at hends
  refine ⟨Segment.textOf before, segment.text ++ Segment.textOf behind, ?_, hends.fits htoken⟩
  obtain ⟨⟨kind, literal?⟩, -, rfl⟩ := Option.map_eq_some_iff.1 htoken
  rw [Text.cut?_eq_some_iff]
  refine ⟨htext.symm, ?_⟩
  show (Position.origin.after (Segment.textOf before)).offset = _
  rw [Position.offset_after]
  exact Nat.zero_add _

/-- A shift with an assignment is no shift and no comparison. -/
theorem Scanner.fits_of_mem_tokens_leftShiftEqual :
    (⟨.symbol .leftShiftEqual, "<<=", none, ⟨1, 1, 2⟩, 4⟩ : Token) ∈
        (scan {} "a<<=1.5").2.tokens ∧
      ∃ before behind, Text.cut? "a<<=1.5".toList 1 = some (before, behind) ∧
        (⟨.symbol .leftShiftEqual, "<<=", none, ⟨1, 1, 2⟩, 4⟩ : Token).Fits behind := by
  have hmem : (⟨.symbol .leftShiftEqual, "<<=", none, ⟨1, 1, 2⟩, 4⟩ : Token) ∈
      (scan {} "a<<=1.5").2.tokens := by decide +kernel
  exact ⟨hmem, fits_of_mem_tokens {} "a<<=1.5" hmem⟩

end Lexis

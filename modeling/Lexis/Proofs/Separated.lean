import Lexis.Proofs.Content
import Lexis.Proofs.Display
import Lexis.Proofs.StringLiteral
import Lexis.Proofs.Tiling

set_option autoImplicit false

/-! # Lexemes in a row

A token is what its lexeme says, whatever text it was found in: the lexeme is the text of one
segment, and that has the kind, the value and the errors. So the lexemes of any tokens can be put in
a row, and a scan finds the same tokens again, if there are blanks between them: a blank goes on
with no token, and it is no token itself. -/

namespace Lexis

/-! ## Tokens and rows of tokens -/

/-- A token with a text in which a scan finds it. -/
structure FoundToken where
  source : String
  token : Token
  found : token ∈ (scan source).tokens

/-- The escapes that mean nothing inside a token, as they are reported there. -/
def FoundToken.invalidEscapes (f : FoundToken) : List LexError.Cause :=
  ((scan f.source).errors.filter fun e => e.cause.isInvalidEscape ∧
    f.token.span.start ≤ e.span.start ∧ e.span.start < f.token.span.stop).map LexError.cause

/-- The lexemes of tokens, in a row with one blank or more between any two, are a text. -/
inductive Separated : List FoundToken → List Char → Prop
  | nil : Separated [] []
  | single (f : FoundToken) : Separated [f] f.token.lexeme.toList
  | cons (f : FoundToken) {g : FoundToken} {found : List FoundToken} {blanks text : List Char} :
      blanks ≠ [] → (∀ c ∈ blanks, c = ' ' ∨ c = '\t' ∨ c = '\r' ∨ c = '\n') →
        Separated (g :: found) text →
          Separated (f :: g :: found) (f.token.lexeme.toList ++ (blanks ++ text))

/-! ## The segment of a token -/

namespace Segment

theorem items_eq_nil_of_token? {s : Segment} {kind : TokenKind} {literal? : Option Literal}
    (h : s.token? = some (kind, literal?)) (hkind : kind ≠ .string) : s.items = [] := by
  cases s with
  | string items =>
      obtain ⟨rfl, -⟩ := Prod.mk.inj (Option.some.inj h)
      exact absurd rfl hkind
  | openString items dangling => simp [token?] at h
  | _ => rfl

end Segment

/-- All that is wrong with a segment that makes a token is about escapes. -/
theorem Placed.isInvalidEscape_of_mem_errors {p : Placed Segment} {t : Token} {e : LexError}
    (h : p.token? = some t) (he : e ∈ p.errors) : e.cause.isInvalidEscape = true := by
  obtain ⟨token, htoken, -⟩ := Option.map_eq_some_iff.1 h
  rw [errors, ownError?, Segment.fault?_eq_none_of_token? htoken, Option.map_none,
    Option.toList_none, List.append_nil] at he
  obtain ⟨sequence, hcause⟩ := cause_of_mem_escapeErrors he
  rw [hcause]
  rfl

/-- A token is that of a segment, which is told by the lexeme and has all that is said of the
    token. -/
theorem FoundToken.exists_segment (f : FoundToken) :
    ∃ s : Segment, s.WellFormed ∧ s.token?.isSome = true ∧ s.text = f.token.lexeme.toList ∧
      s.content? = some f.token.content ∧
      s.causes = if f.token.kind = .string then f.invalidEscapes else [] := by
  obtain ⟨p, hp, htoken⟩ := List.mem_filterMap.1 f.found
  obtain ⟨before, behind, htrace⟩ := List.append_of_mem hp
  have herrors := Trace.filter_errors_eq htrace
  have hwell := (Segment.row_readAll f.source.toList).wellFormed_of_mem (piece_mem_of_mem_place hp)
  have hstop := Placed.stop_of_token? htoken
  have hstart : f.token.span.start = p.start.offset := by
    rw [Token.span, Placed.start_of_token? htoken]
  have hescapes : f.invalidEscapes = p.piece.causes := by
    have hall := List.filter_eq_self.2 fun e he => Placed.isInvalidEscape_of_mem_errors htoken he
    rw [FoundToken.invalidEscapes, hstart, hstop, ← Placed.map_cause_errors, ← hall, ← herrors,
      List.filter_filter]
    simp only [Bool.decide_and, Bool.decide_eq_true]
    rfl
  obtain ⟨⟨kind, literal?⟩, hsegment, ht⟩ := Option.map_eq_some_iff.1 htoken
  refine ⟨p.piece, hwell, by rw [hsegment]; rfl, ?_, ?_, ?_⟩
  · exact (Placed.toList_lexeme_of_token? htoken).symm
  · rw [Segment.content?, hsegment, ← ht]
    rfl
  · by_cases hkind : f.token.kind = .string
    · rw [if_pos hkind, hescapes]
    · have hkind' : kind ≠ .string := by rwa [← ht] at hkind
      rw [if_neg hkind, Segment.causes, Segment.items_eq_nil_of_token? hsegment hkind',
        Segment.fault?_eq_none_of_token? hsegment]
      rfl

theorem FoundToken.flatMap_invalidEscapes_cons (f : FoundToken) (found : List FoundToken) :
    ((f :: found).filter (·.token.kind = .string)).flatMap invalidEscapes =
      (if f.token.kind = .string then f.invalidEscapes else []) ++
        (found.filter (·.token.kind = .string)).flatMap invalidEscapes := by
  by_cases hkind : f.token.kind = .string <;> simp [hkind]

/-! ## Reading a row -/

namespace Segment

theorem readAll_blanks {blanks : List Char} (h : ∀ c ∈ blanks, Text.isBlank c = true)
    (cs : List Char) : readAll (blanks ++ cs) = blanks.map blank ++ readAll cs := by
  induction blanks with
  | nil => rfl
  | cons c blanks ih =>
      obtain ⟨hc, hblanks⟩ := List.forall_mem_cons.1 h
      rw [List.cons_append, readAll_blank hc, ih hblanks, List.map_cons, List.cons_append]

theorem filterMap_content?_blanks (blanks : List Char) :
    (blanks.map blank).filterMap content? = [] := by
  rw [List.filterMap_eq_nil_iff]
  intro s hs
  obtain ⟨c, -, rfl⟩ := List.mem_map.1 hs
  rfl

theorem flatMap_causes_blanks (blanks : List Char) :
    (blanks.map blank).flatMap causes = [] := by
  rw [List.flatMap_eq_nil_iff]
  intro s hs
  obtain ⟨c, -, rfl⟩ := List.mem_map.1 hs
  rfl

/-- The segment of a token is complete before a blank. -/
theorem WellFormed.endsBefore_blank {s : Segment} (h : s.WellFormed)
    (htoken : s.token?.isSome = true) {c : Char} (hc : Text.isBlank c = true) (rest : List Char) :
    s.EndsBefore (c :: rest) := by
  have hclosed : s.isOpen = false := by
    cases s with
    | openComment body => simp [token?] at htoken
    | openString items dangling => simp [token?] at htoken
    | _ => rfl
  have hcomment : ∀ body, s ≠ lineComment body := by
    rintro body rfl
    simp [token?] at htoken
  exact ⟨h, goesOn_append_separator rest (isSeparator_of_isBlank hc) (goesOn_nil s) hclosed
    (.inr (.inr hcomment))⟩

theorem WellFormed.readAll_text_append_blanks {s : Segment} (h : s.WellFormed)
    (htoken : s.token?.isSome = true) {blanks : List Char} (hne : blanks ≠ [])
    (hblanks : ∀ c ∈ blanks, Text.isBlank c = true) (cs : List Char) :
    readAll (s.text ++ (blanks ++ cs)) = s :: (blanks.map blank ++ readAll cs) := by
  rw [← readAll_blanks hblanks]
  cases blanks with
  | nil => exact absurd rfl hne
  | cons c blanks =>
      exact readAll_text_append (h.endsBefore_blank htoken (hblanks c List.mem_cons_self) _)

end Segment

/-- A row of lexemes is read as the segments of the tokens, with blanks between them. -/
theorem Separated.contents_and_causes {found : List FoundToken} {cs : List Char}
    (h : Separated found cs) :
    Text.contents cs = found.map (·.token.content) ∧
      (Segment.readAll cs).flatMap Segment.causes =
        (found.filter (·.token.kind = .string)).flatMap FoundToken.invalidEscapes := by
  unfold Text.contents
  induction h with
  | nil => simp [Segment.readAll]
  | single f =>
      obtain ⟨s, hwell, -, htext, hcontent, hcauses⟩ := f.exists_segment
      have hread := Segment.readAll_text_append ⟨hwell, Segment.goesOn_nil s⟩
      rw [List.append_nil, htext] at hread
      rw [hread, FoundToken.flatMap_invalidEscapes_cons, ← hcauses, List.flatMap_cons,
        Segment.readAll]
      exact ⟨List.filterMap_cons_some hcontent, rfl⟩
  | cons f hne hblanks _ ih =>
      obtain ⟨hcontents, hescapes⟩ := ih
      obtain ⟨s, hwell, htoken, htext, hcontent, hcauses⟩ := f.exists_segment
      have hblanks := fun c hc => Text.isBlank_iff.2 (hblanks c hc)
      rw [← htext, hwell.readAll_text_append_blanks htoken hne hblanks]
      constructor
      · rw [List.filterMap_cons_some hcontent, List.filterMap_append,
          Segment.filterMap_content?_blanks, List.nil_append, hcontents]
        rfl
      · rw [List.flatMap_cons, List.flatMap_append, Segment.flatMap_causes_blanks,
          List.nil_append, hescapes, hcauses, ← FoundToken.flatMap_invalidEscapes_cons]

namespace Scanner

/-- A scan of lexemes in a row, with blanks between them, finds the tokens again; all it reports is
    the escapes that mean nothing in the string literals. -/
theorem scan_separated (s : Scanner) {found : List FoundToken} {text : String}
    (h : Separated found text.toList) :
    (s.scan text).2.tokens.map Token.content = found.map (·.token.content) ∧
      (s.scan text).1.errors.map LexError.cause =
        (found.filter (·.token.kind = .string)).flatMap FoundToken.invalidEscapes := by
  obtain ⟨hcontents, hcauses⟩ := h.contents_and_causes
  refine ⟨?_, ?_⟩
  · rw [← hcontents]
    exact map_content_tokens_scan text
  · rw [← hcauses]
    exact map_cause_errors_scan text

/-- A string literal on two lines with an escape that means nothing, then a number and a dot, each
    from a text where it has no blank behind it. -/
theorem scan_separated_string_number_dot :
    ⟨.string, "\"\\q\n\"", some (.string "\n"), ⟨1, 1, 2⟩, 6⟩ ∈ (Lexis.scan "~\"\\q\n\"x").tokens ∧
      ⟨.number, "1", some (.integer 1), ⟨0, 1, 1⟩, 1⟩ ∈ (Lexis.scan "1.").tokens ∧
      ⟨.symbol .dot, ".", none, ⟨0, 1, 1⟩, 1⟩ ∈ (Lexis.scan ".5").tokens ∧
      (scan {} "\"\\q\n\"\t\r\n1 .").2.tokens.map Token.content =
        [(.string, "\"\\q\n\"", some (.string "\n")), (.number, "1", some (.integer 1)),
          (.symbol .dot, ".", none)] ∧
      (scan {} "\"\\q\n\"\t\r\n1 .").1.errors.map LexError.cause = [.invalidEscape "\\q"] := by
  have hstring : ⟨.string, "\"\\q\n\"", some (.string "\n"), ⟨1, 1, 2⟩, 6⟩ ∈
      (Lexis.scan "~\"\\q\n\"x").tokens := by decide +kernel
  have hnumber : ⟨.number, "1", some (.integer 1), ⟨0, 1, 1⟩, 1⟩ ∈ (Lexis.scan "1.").tokens := by
    decide +kernel
  have hdot : ⟨.symbol .dot, ".", none, ⟨0, 1, 1⟩, 1⟩ ∈ (Lexis.scan ".5").tokens := by
    decide +kernel
  have hescapes : FoundToken.invalidEscapes ⟨_, _, hstring⟩ = [.invalidEscape "\\q"] := by
    decide +kernel +revert
  have htext : "\"\\q\n\"\t\r\n1 .".toList =
      "\"\\q\n\"".toList ++ (['\t', '\r', '\n'] ++ ("1".toList ++ ([' '] ++ ".".toList))) := by
    decide +kernel
  have hrow : Separated [⟨_, _, hstring⟩, ⟨_, _, hnumber⟩, ⟨_, _, hdot⟩]
      "\"\\q\n\"\t\r\n1 .".toList := by
    rw [htext]
    exact .cons _ (by simp) (by simp) (.cons _ (by simp) (by simp) (.single _))
  obtain ⟨hcontents, hcauses⟩ := scan_separated {} hrow
  refine ⟨hstring, hnumber, hdot, hcontents, hcauses.trans ?_⟩
  exact (List.append_nil _).trans hescapes

end Scanner

end Lexis

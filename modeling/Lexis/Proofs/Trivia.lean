import Lexis.Proofs.SegmentRow
import Lexis.Proofs.Trace

set_option autoImplicit false

/-! # Trivia

A scan that finds nothing, neither a token nor an error, has gone through blanks and closed comments
only. The texts made of these are told by a grammar of their own (`IsTrivia`), in which a comment of
the line takes the line feed behind it along, and a block comment ends with the first star-slash.
Both directions go by the segments of the text: those that have nothing to say
(`Segment.isTrivia`) spell what the grammar derives, and what it derives is read as such. -/

namespace Lexis

/-! ## The grammar -/

/-- A text of blanks and closed comments. -/
inductive IsTrivia : List Char → Prop
  | nil : IsTrivia []
  | blank {c : Char} {cs : List Char} :
      c = ' ' ∨ c = '\t' ∨ c = '\r' ∨ c = '\n' → IsTrivia cs → IsTrivia (c :: cs)
  /-- A comment of the last line. -/
  | lastComment {body : List Char} : '\n' ∉ body → IsTrivia ('/' :: '/' :: body)
  | lineComment {body cs : List Char} :
      '\n' ∉ body → IsTrivia cs → IsTrivia ('/' :: '/' :: (body ++ '\n' :: cs))
  | blockComment {body cs : List Char} :
      ¬ ['*', '/'] <:+: body → IsTrivia cs →
        IsTrivia ('/' :: '*' :: (body ++ '*' :: '/' :: cs))

/-- A line feed in front of a text is no part of a comment. -/
theorem IsTrivia.of_cons_newline {cs : List Char} (h : IsTrivia ('\n' :: cs)) : IsTrivia cs := by
  generalize htext : '\n' :: cs = text at h
  cases h with
  | nil => simp at htext
  | blank _ hrest =>
      obtain ⟨-, rfl⟩ := List.cons.inj htext
      exact hrest
  | lastComment _ => exact absurd (List.cons.inj htext).1 (by decide)
  | lineComment _ _ => exact absurd (List.cons.inj htext).1 (by decide)
  | blockComment _ _ => exact absurd (List.cons.inj htext).1 (by decide)

namespace Segment

/-! ## Segments that have nothing to say -/

/-- Whether a segment is a blank or a closed comment. -/
def isTrivia : Segment → Bool
  | blank _ | lineComment _ | blockComment _ => true
  | _ => false

theorem isTrivia_iff {s : Segment} : s.isTrivia = true ↔ s.token? = none ∧ s.fault? = none := by
  cases s with
  | integer digits => cases h : integerValue? digits <;> simp [isTrivia, token?, fault?, h]
  | decimal whole fraction =>
      cases h : Binary64.ofDecimal? whole fraction <;> simp [isTrivia, token?, fault?, h]
  | _ => simp [isTrivia, token?, fault?]

theorem items_of_isTrivia {s : Segment} (h : s.isTrivia = true) : s.items = [] := by
  cases s with
  | string items => simp [isTrivia] at h
  | openString items dangling => simp [isTrivia] at h
  | _ => rfl

end Segment

theorem Placed.isTrivia_iff {p : Placed Segment} :
    p.piece.isTrivia = true ↔ p.token? = none ∧ p.errors = [] := by
  rw [Segment.isTrivia_iff, token?, errors, ownError?, List.append_eq_nil_iff,
    Option.toList_eq_nil_iff, Option.map_eq_none_iff, Option.map_eq_none_iff]
  constructor
  · rintro ⟨htoken, hfault⟩
    have hitems := Segment.items_of_isTrivia (Segment.isTrivia_iff.2 ⟨htoken, hfault⟩)
    refine ⟨htoken, ?_, hfault⟩
    rw [hitems]
    rfl
  · rintro ⟨htoken, -, hfault⟩
    exact ⟨htoken, hfault⟩

/-- A trace yields nothing if none of its segments does. -/
theorem Trace.eq_nil_iff_forall_isTrivia (start : Position) (segments : List Segment) :
    tokens (place Segment.text start segments) = [] ∧
        errors (place Segment.text start segments) = [] ↔
      ∀ s ∈ segments, s.isTrivia = true := by
  induction segments generalizing start with
  | nil => simp [place, tokens, errors]
  | cons s segments ih =>
      have hfirst := @Placed.isTrivia_iff ⟨start, s⟩
      rw [place, tokens_cons, errors_cons, List.append_eq_nil_iff, List.append_eq_nil_iff,
        Option.toList_eq_nil_iff, List.forall_mem_cons, hfirst, ← ih (start.after s.text)]
      exact and_and_and_comm

/-! ## Texts of trivia -/

namespace Segment

/-- A star behind a text does not close a comment. -/
theorem not_infix_concat_star {body : List Char} (h : ¬ ['*', '/'] <:+: body) :
    ¬ ['*', '/'] <:+: body ++ ['*'] := by
  rw [List.infix_concat_iff, not_or]
  refine ⟨?_, h⟩
  rintro ⟨front, hend⟩
  have hlast := congrArg List.getLast? hend
  simp at hlast

/-- What the grammar derives is read as segments that have nothing to say. -/
theorem isTrivia_of_mem_readAll {cs : List Char} (h : IsTrivia cs) :
    ∀ s ∈ readAll cs, s.isTrivia = true := by
  induction h with
  | nil => simp [readAll]
  | blank hc _ ih =>
      rw [readAll_blank (Text.isBlank_iff.2 hc)]
      exact List.forall_mem_cons.2 ⟨rfl, ih⟩
  | @lastComment body hbody =>
      have hread : readAll ((lineComment body).text ++ []) = lineComment body :: readAll [] :=
        readAll_text_append ⟨hbody, rfl⟩
      rw [List.append_nil, text] at hread
      simp [hread, readAll, isTrivia]
  | @lineComment body cs hbody _ ih =>
      have hread : readAll ((lineComment body).text ++ '\n' :: cs) =
          lineComment body :: readAll ('\n' :: cs) := readAll_text_append ⟨hbody, rfl⟩
      rw [readAll_blank rfl] at hread
      have htext : (lineComment body).text ++ '\n' :: cs = '/' :: '/' :: (body ++ '\n' :: cs) := rfl
      rw [← htext, hread]
      exact List.forall_mem_cons.2 ⟨rfl, List.forall_mem_cons.2 ⟨rfl, ih⟩⟩
  | @blockComment body cs hbody _ ih =>
      have hread : readAll ((blockComment body).text ++ cs) = blockComment body :: readAll cs :=
        readAll_text_append ⟨not_infix_concat_star hbody, rfl⟩
      have htext : (blockComment body).text ++ cs = '/' :: '*' :: (body ++ '*' :: '/' :: cs) := by
        simp [text]
      rw [← htext, hread]
      exact List.forall_mem_cons.2 ⟨rfl, ih⟩

/-- A row of segments that have nothing to say spells what the grammar derives. -/
theorem Row.isTrivia_textOf {segments : List Segment} (hrow : Row [] segments)
    (h : ∀ s ∈ segments, s.isTrivia = true) : IsTrivia (textOf segments) := by
  induction segments with
  | nil => exact .nil
  | cons s segments ih =>
      obtain ⟨hs, hrow⟩ := hrow
      obtain ⟨htrivia, hsegments⟩ := List.forall_mem_cons.1 h
      have hrest := ih hrow hsegments
      rw [List.append_nil] at hs
      rw [textOf_cons]
      generalize textOf segments = rest at hs hrest
      have hwell := hs.wellFormed
      have hcomplete := hs.complete
      cases s with
      | blank c => exact .blank (Text.isBlank_iff.1 hwell) hrest
      | lineComment body =>
          -- the comment stops at the line feed that the grammar counts as part of it
          cases rest with
          | nil =>
              rw [List.append_nil]
              exact .lastComment hwell
          | cons c rest =>
              obtain rfl : c = '\n' := by simpa [goesOn] using hcomplete
              exact .lineComment hwell hrest.of_cons_newline
      | blockComment body =>
          have hbody : ¬ ['*', '/'] <:+: body := fun hin =>
            hwell (hin.trans (List.prefix_append body ['*']).isInfix)
          have htrivia := IsTrivia.blockComment hbody hrest
          simpa [text] using htrivia
      | _ => simp [isTrivia] at htrivia

theorem forall_isTrivia_iff {cs : List Char} :
    (∀ s ∈ readAll cs, s.isTrivia = true) ↔ IsTrivia cs := by
  constructor
  · intro h
    have htext := (row_readAll cs).isTrivia_textOf h
    rwa [textOf_readAll] at htext
  · exact isTrivia_of_mem_readAll

end Segment

/-- A scan finds neither a token nor an error exactly in the texts of blanks and closed comments. -/
theorem Scanner.scan_eq_nothing_iff (s : Scanner) (source : String) :
    (s.scan source).2.tokens = [] ∧ (s.scan source).1.errors = [] ↔ IsTrivia source.toList := by
  rw [tokens_scan, errors_scan, Trace.ofText, Trace.eq_nil_iff_forall_isTrivia,
    Segment.forall_isTrivia_iff]

end Lexis

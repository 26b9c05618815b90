import Lexis.Proofs.SegmentRow

set_option autoImplicit false

/-! # Separators

A separator is a character that no word, number or symbol goes on with. Blanks are separators, and
so are the characters with which nothing starts. Whatever stands before a separator is complete
there, strings and comments that are not closed apart, and comments that run to the end of the
line; so a row of closed segments also ends before a separator (`Row.before_separator`), and the
text from the separator on is read as if it stood alone. -/

namespace Lexis

/-- A character that is no part of words, numbers and symbols. -/
structure IsSeparator (c : Char) : Prop where
  not_wordPart : Text.isWordPart c = false
  not_mem_spelling : ∀ s : Symbol, c ∉ s.spelling

/-! ## Which characters are separators -/

/-- Each character of a symbol also starts one. -/
theorem Symbol.exists_head?_of_mem {s : Symbol} {c : Char} (h : c ∈ s.spelling) :
    ∃ s' : Symbol, s'.spelling.head? = some c := by
  have hall : ∀ s ∈ all, s.spelling.all (fun c =>
      all.any fun s' => s'.spelling.head? = some c) = true := by decide +kernel
  have hany := List.all_eq_true.1 (hall s (mem_all s)) c h
  obtain ⟨s', -, hs'⟩ := List.any_eq_true.1 hany
  exact ⟨s', of_decide_eq_true hs'⟩

theorem Text.isWordPart_eq_false {c : Char} (hword : isWordStart c = false)
    (hdigit : c.isDigit = false) : isWordPart c = false := by
  simp_all [isWordStart, isWordPart, Char.isAlphanum]

theorem isSeparator_of_isBlank {c : Char} (h : Text.isBlank c = true) : IsSeparator c where
  not_wordPart := by
    rcases Text.isBlank_iff.1 h with rfl | rfl | rfl | rfl <;> rfl
  not_mem_spelling s hs := by
    obtain ⟨s', hs'⟩ := Symbol.exists_head?_of_mem hs
    obtain ⟨tail, hspelling⟩ := List.head?_eq_some_iff.1 hs'
    have hclass := (Segment.class_of_symbol hspelling).1
    exact Bool.noConfusion (h.symm.trans hclass)

theorem StartsNothing.isSeparator {c : Char} (h : StartsNothing c) : IsSeparator c where
  not_wordPart := Text.isWordPart_eq_false h.not_wordStart h.not_digit
  not_mem_spelling s hs := by
    obtain ⟨s', hs'⟩ := Symbol.exists_head?_of_mem hs
    exact h.not_symbol s' hs'

namespace Text

theorem bounds_of_symbol {s : Symbol} {c : Char} (h : s.spelling.head? = some c) :
    32 < c.toNat ∧ c.toNat < 127 := by
  have hall : ∀ s ∈ Symbol.all,
      s.spelling.head?.all (fun c => 32 < c.toNat && c.toNat < 127) = true := by decide +kernel
  have hs := hall s (Symbol.mem_all s)
  rw [h] at hs
  simpa using hs

/-- All that something can start with is a blank or a character that ASCII prints. -/
theorem startsNothing_of_not_printed {c : Char} (hblank : isBlank c = false)
    (h : c.toNat ≤ 32 ∨ 127 ≤ c.toNat) : StartsNothing c where
  not_blank := hblank
  not_quote := by
    rintro rfl
    exact absurd h (by decide)
  not_digit := by
    rw [Bool.eq_false_iff]
    intro hdigit
    have hbounds := bounds_of_isDigit hdigit
    omega
  not_wordStart := by
    rw [Bool.eq_false_iff]
    intro hword
    have hbounds := bounds_of_isWordStart hword
    omega
  not_symbol s hs := by
    have hbounds := bounds_of_symbol hs
    omega

end Text

namespace IsSeparator

variable {c : Char}

theorem not_digit (h : IsSeparator c) : c.isDigit = false := by
  have hpart := h.not_wordPart
  simp only [Text.isWordPart, Char.isAlphanum, Bool.or_eq_false_iff] at hpart
  exact hpart.1.2

theorem ne_of_spelling (h : IsSeparator c) {s : Symbol} {d : Char} (hs : s.spelling = [d]) :
    c ≠ d := by
  rintro rfl
  have hmem : c ∈ s.spelling := by simp [hs]
  exact h.not_mem_spelling s hmem

theorem not_goesOnWith (h : IsSeparator c) (s : Symbol) : s.goesOnWith c = false := by
  rw [Bool.eq_false_iff]
  intro hgo
  obtain ⟨s', -, hs'⟩ := List.any_eq_true.1 hgo
  have hs' : s'.spelling = s.spelling ++ [c] := of_decide_eq_true hs'
  have hmem : c ∈ s'.spelling := by simp [hs']
  exact h.not_mem_spelling s' hmem

end IsSeparator

/-! ## Segments before separators -/

namespace Segment

/-- A separator goes on with nothing but an open segment, and a comment in its line. -/
theorem goesOn_append_separator {s : Segment} {cs : List Char} {c : Char} (rest : List Char)
    (hc : IsSeparator c) (h : s.goesOn cs = false) (hclosed : s.isOpen = false)
    (hcomment : cs ≠ [] ∨ c = '\n' ∨ ∀ body, s ≠ lineComment body) :
    s.goesOn (cs ++ c :: rest) = false := by
  have hdigit := hc.not_digit
  cases cs with
  | nil =>
      cases s with
      | symbol s =>
          have hslash : c ≠ '/' := hc.ne_of_spelling (s := .slash) rfl
          have hstar : c ≠ '*' := hc.ne_of_spelling (s := .star) rfl
          simp [goesOn, hc.not_goesOnWith s, hslash, hstar]
      | lineComment body =>
          rcases hcomment with hne | rfl | hno
          · exact absurd rfl hne
          · rfl
          · exact absurd rfl (hno body)
      | word text => exact hc.not_wordPart
      | integer digits =>
          have hpoint : c ≠ '.' := hc.ne_of_spelling (s := .dot) rfl
          simp [goesOn, hdigit, hpoint]
      | decimal whole fraction => exact hdigit
      | openComment body => exact Bool.noConfusion hclosed
      | openString items dangling => exact Bool.noConfusion hclosed
      | _ => rfl
  | cons d cs =>
      cases s with
      | integer digits =>
          -- the only segment that looks at a second character
          cases cs with
          | nil => simp_all [goesOn]
          | cons _ _ => exact h
      | _ => exact h

/-- A row without open segments also ends before a separator, if it does not end with a comment that
    the separator belongs to. -/
theorem Row.before_separator {segments : List Segment} {c : Char} (hc : IsSeparator c)
    (h : Row [] segments) (hclosed : segments.any isOpen = false)
    (hcomment : c = '\n' ∨ ∀ body, segments.getLast? ≠ some (lineComment body))
    (rest : List Char) : Row (c :: rest) segments := by
  induction segments with
  | nil => trivial
  | cons s segments ih =>
      obtain ⟨hs, hrow⟩ := h
      rw [List.any_cons, Bool.or_eq_false_iff] at hclosed
      rw [List.append_nil] at hs
      cases segments with
      | nil =>
          refine ⟨⟨hs.wellFormed, ?_⟩, trivial⟩
          refine goesOn_append_separator rest hc hs.complete hclosed.1 ?_
          refine .inr (hcomment.imp_right fun hlast body hbody => hlast body ?_)
          rw [hbody, List.getLast?_singleton]
      | cons s' segments =>
          have hne : textOf (s' :: segments) ≠ [] := by
            intro hnil
            exact hrow.1.wellFormed.text_ne_nil (List.append_eq_nil_iff.1 hnil).1
          rw [List.getLast?_cons_cons] at hcomment
          exact ⟨⟨hs.wellFormed, goesOn_append_separator rest hc hs.complete hclosed.1 (.inl hne)⟩,
            ih hrow hclosed.2 hcomment⟩

end Segment

end Lexis

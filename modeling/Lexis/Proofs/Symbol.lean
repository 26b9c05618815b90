import Lexis.Token.Symbol

set_option autoImplicit false

/-! # The longest symbol

`Symbol.read?` takes the first entry of the table that starts a text. Since no entry starts one
that is listed behind it, that entry is the longest symbol there (`read?_eq_some_iff`). The table is
also closed under cutting off last characters of longer spellings, so one character of the text
behind a symbol decides whether a longer one is there (`read?_spelling_append_iff`). -/

namespace Lexis.Symbol

/-- Whether a symbol and the character behind it are a symbol again. -/
def goesOnWith (s : Symbol) (c : Char) : Bool := all.any fun s' => s'.spelling = s.spelling ++ [c]

/-! ## Facts about the table -/

theorem pairwise_all : all.Pairwise fun s s' => ¬ s.spelling <+: s'.spelling := by
  decide +kernel

theorem spelling_injective {s s' : Symbol} (h : s.spelling = s'.spelling) : s = s' := by
  have hall : ∀ s ∈ all, ∀ s' ∈ all, s.spelling = s'.spelling → s = s' := by decide +kernel
  exact hall s (mem_all s) s' (mem_all s') h

/-- On the way from a symbol to a longer one there are only symbols. -/
theorem goesOnWith_of_eq_append {s s' : Symbol} {c : Char} {rest : List Char}
    (h : s'.spelling = s.spelling ++ c :: rest) : s.goesOnWith c = true := by
  have hall : ∀ s ∈ all, ∀ s' ∈ all, s.spelling <+: s'.spelling →
      (s'.spelling.drop s.spelling.length).head?.all s.goesOnWith = true := by decide +kernel
  have hgo := hall s (mem_all s) s' (mem_all s') ⟨c :: rest, h.symm⟩
  rw [h, List.drop_left] at hgo
  exact hgo

/-- The first character of a symbol is one. -/
theorem exists_spelling_eq_singleton {s : Symbol} {c : Char} (h : s.spelling.head? = some c) :
    ∃ s' : Symbol, s'.spelling = [c] := by
  have hall : ∀ s ∈ all,
      s.spelling.head?.all (fun c => all.any fun s' => s'.spelling = [c]) = true := by
    decide +kernel
  have hfirst := hall s (mem_all s)
  rw [h] at hfirst
  obtain ⟨s', -, hs'⟩ := List.any_eq_true.1 hfirst
  exact ⟨s', of_decide_eq_true hs'⟩

theorem eq_of_head?_eq_slash {s : Symbol} (h : s.spelling.head? = some '/') :
    s = slash ∨ s = slashEqual := by
  revert h
  cases s <;> decide

/-! ## Reading -/

theorem read?_eq_some_iff {cs : List Char} {s : Symbol} :
    read? cs = some s ↔ s.spelling <+: cs ∧
      ∀ s' : Symbol, s'.spelling <+: cs → s'.spelling.length ≤ s.spelling.length := by
  have hlongest : ∀ s : Symbol, read? cs = some s → s.spelling <+: cs ∧
      ∀ s' : Symbol, s'.spelling <+: cs → s'.spelling.length ≤ s.spelling.length := by
    intro s h
    obtain ⟨hs, before, behind, hall, hbefore⟩ := List.find?_eq_some_iff_append.1 h
    have hs : s.spelling <+: cs := List.isPrefixOf_iff_prefix.1 hs
    refine ⟨hs, fun s' hs' => ?_⟩
    have hmem : s' ∈ before ++ s :: behind := hall ▸ mem_all s'
    rcases List.mem_append.1 hmem with hin | hin
    · have hno := hbefore s' hin
      rw [List.isPrefixOf_iff_prefix.2 hs'] at hno
      exact absurd hno (by simp)
    · rcases List.mem_cons.1 hin with rfl | hin
      · exact Nat.le_refl _
      · -- of two symbols that start one text, one starts the other, and the longer is listed first
        have hpair : (before ++ s :: behind).Pairwise fun s s' => ¬ s.spelling <+: s'.spelling :=
          hall ▸ pairwise_all
        have hnot : ¬ s.spelling <+: s'.spelling :=
          (List.pairwise_cons.1 (List.pairwise_append.1 hpair).2.1).1 s' hin
        by_cases hle : s.spelling.length ≤ s'.spelling.length
        · exact absurd (List.prefix_of_prefix_length_le hs hs' hle) hnot
        · omega
  refine ⟨hlongest s, fun ⟨hs, hmax⟩ => ?_⟩
  cases hread : read? cs with
  | none =>
      have hno := List.find?_eq_none.1 hread s (mem_all s)
      exact absurd (List.isPrefixOf_iff_prefix.2 hs) hno
  | some s₀ =>
      obtain ⟨hs₀, hmax₀⟩ := hlongest s₀ hread
      have hlen : s₀.spelling.length = s.spelling.length :=
        Nat.le_antisymm (hmax s₀ hs₀) (hmax₀ s hs)
      have hstart := List.prefix_of_prefix_length_le hs₀ hs (Nat.le_of_eq hlen)
      rw [spelling_injective (hstart.eq_of_length hlen)]

theorem read?_cons_eq_none_iff {c : Char} {cs : List Char} :
    read? (c :: cs) = none ↔ ∀ s : Symbol, s.spelling.head? ≠ some c := by
  constructor
  · intro hnone s hs
    obtain ⟨s', hs'⟩ := exists_spelling_eq_singleton hs
    have hno := List.find?_eq_none.1 hnone s' (mem_all s')
    rw [hs', List.isPrefixOf_iff_prefix] at hno
    exact hno ⟨cs, rfl⟩
  · intro hno
    rw [read?, List.find?_eq_none]
    intro s _ hs
    obtain ⟨tail, htail⟩ := List.isPrefixOf_iff_prefix.1 hs
    cases hspelling : s.spelling with
    | nil => exact spelling_ne_nil s hspelling
    | cons d spelling =>
        rw [hspelling] at htail
        obtain ⟨rfl, -⟩ := List.cons.inj htail
        exact hno s (by rw [hspelling]; rfl)

theorem read?_spelling_append_iff {s : Symbol} {rest : List Char} :
    read? (s.spelling ++ rest) = some s ↔ ∀ c ∈ rest.head?, s.goesOnWith c = false := by
  rw [read?_eq_some_iff]
  constructor
  · rintro ⟨-, hmax⟩ c hc
    obtain ⟨tail, rfl⟩ := List.head?_eq_some_iff.1 hc
    rw [Bool.eq_false_iff]
    intro hgo
    obtain ⟨s', -, hs'⟩ := List.any_eq_true.1 hgo
    have hs' : s'.spelling = s.spelling ++ [c] := of_decide_eq_true hs'
    have hlen := hmax s' ⟨tail, by simp [hs']⟩
    rw [hs', List.length_append, List.length_singleton] at hlen
    omega
  · intro hstop
    refine ⟨List.prefix_append .., fun s' hs' => ?_⟩
    -- a longer symbol has the first character of `rest` behind `s`
    by_cases hle : s'.spelling.length ≤ s.spelling.length
    · exact hle
    · obtain ⟨more, hmore⟩ := List.prefix_of_prefix_length_le
        (List.prefix_append s.spelling rest) hs' (by omega)
      rw [← hmore, List.prefix_append_right_inj] at hs'
      cases more with
      | nil => simp [← hmore] at hle
      | cons c more =>
          obtain ⟨tail, rfl⟩ := hs'
          have hgo := goesOnWith_of_eq_append hmore.symm
          rw [hstop c rfl] at hgo
          exact absurd hgo (by simp)

end Lexis.Symbol

import Lexis.Number.Shortest
import Mathlib.Algebra.Order.Field.Rat
import Mathlib.Data.Rat.Cast.Order
import Mathlib.Tactic.Linarith
import Mathlib.Tactic.Positivity

set_option autoImplicit false

/-! # The reals that read back as a number

Around each binary64 number stand the reals that are nearer to it than to any other one, as far as
half way to its two neighbours. The point half way belongs to the one of the two whose significand
is even. In quarters of the last place both ends are integers (`lowerEnd`, `upperEnd`). No real
belongs to two numbers (`ReadsAs.unique`), so a decimal from the interval of a number tells which
number it was taken for. -/

namespace Lexis.Binary64

variable {x y : Binary64} {q : ℚ}

/-! ## Significands and exponents -/

theorem eq_of_word_eq (h : x.word = y.word) : x = y := by
  obtain ⟨word, _⟩ := x
  obtain ⟨_, _⟩ := y
  obtain rfl : word = _ := h
  rfl

/-- The word counts the significands below it: as many for every exponent. -/
theorem word_eq (x : Binary64) : x.word = x.exponent * leadingOne + x.significand := by
  have hdiv := Nat.div_add_mod x.word leadingOne
  unfold exponent significand
  split
  · next hlt => rw [Nat.div_eq_of_lt hlt, Nat.zero_sub, Nat.zero_mul, Nat.zero_add]
  · next hge =>
      have hpos : 1 ≤ x.word / leadingOne :=
        (Nat.le_div_iff_mul_le (by decide)).2 (by omega)
      rw [← Nat.add_assoc, ← Nat.succ_mul, Nat.succ_eq_add_one, Nat.sub_add_cancel hpos,
        Nat.mul_comm]
      exact hdiv.symm

theorem significand_lt (x : Binary64) : x.significand < 2 * leadingOne := by
  have hmod := Nat.mod_lt x.word (show 0 < leadingOne by decide)
  unfold significand
  split <;> omega

/-- Only numbers with the least exponent have significands without the leading one. -/
theorem leadingOne_le (h : 0 < x.exponent) : leadingOne ≤ x.significand := by
  unfold exponent at h
  unfold significand
  split
  · next hlt =>
      rw [Nat.div_eq_of_lt hlt] at h
      simp at h
  · exact Nat.le_add_right ..

theorem significand_pos (h : 0 < x.word) : 0 < x.significand := by
  have hleading : 0 < leadingOne := by decide
  unfold significand
  split <;> omega

theorem pow_two_pos (n : Nat) : 0 < Nat.pow 2 n := Nat.pow_pos (by decide)

theorem unitsInOne_pos : 0 < unitsInOne := by
  unfold unitsInOne
  generalize 1074 = n
  exact pow_two_pos n

theorem ratio_fst (x : Binary64) : x.ratio.1 = x.significand * Nat.pow 2 x.exponent := rfl

theorem ratio_snd (x : Binary64) : x.ratio.2 = unitsInOne := by
  unfold ratio
  with_reducible rfl

theorem ratio_snd_pos (x : Binary64) : 0 < x.ratio.2 := by
  rw [ratio_snd]
  exact unitsInOne_pos

/-! ## The ends of an interval -/

theorem above_pos (x : Binary64) : 0 < x.interval.above := Nat.two_pos

/-- The lower end of the interval of `x`, in quarters of the least positive number. -/
def lowerEnd (x : Binary64) : Nat :=
  (4 * x.significand - x.interval.below) * Nat.pow 2 x.exponent

/-- The upper end of the interval of `x`, in quarters of the least positive number. -/
def upperEnd (x : Binary64) : Nat :=
  (4 * x.significand + x.interval.above) * Nat.pow 2 x.exponent

/-- Below a power of two the neighbour is half as far, unless it has the least exponent as well. -/
theorem below_eq (x : Binary64) :
    x.interval.below = if x.significand = leadingOne ∧ 0 < x.exponent then 1 else 2 := rfl

theorem exponent_le (h : x.word < y.word) : x.exponent ≤ y.exponent := by
  by_contra hlt
  rw [Nat.not_le] at hlt
  have hleading := leadingOne_le (Nat.lt_of_le_of_lt (Nat.zero_le _) hlt)
  have hmul := Nat.mul_le_mul_right leadingOne (Nat.succ_le_of_lt hlt)
  rw [word_eq x, word_eq y] at h
  have hlt := significand_lt y
  rw [Nat.succ_mul] at hmul
  omega

/-- Of two numbers the greater one has a last place that counts at least twice as much, or a
    greater significand for the same last place. -/
theorem exponent_cases (h : x.word < y.word) :
    (x.exponent = y.exponent ∧ x.significand < y.significand) ∨
      (2 * Nat.pow 2 x.exponent ≤ Nat.pow 2 y.exponent ∧ 0 < y.exponent ∧
        leadingOne ≤ y.significand) := by
  obtain hexponent | hexponent := Nat.eq_or_lt_of_le (exponent_le h)
  · rw [word_eq x, word_eq y, hexponent] at h
    exact .inl ⟨hexponent, Nat.lt_of_add_lt_add_left h⟩
  · have hpos := Nat.lt_of_le_of_lt (Nat.zero_le _) hexponent
    have hpower := Nat.pow_le_pow_right (show 0 < 2 by decide) (Nat.succ_le_of_lt hexponent)
    rw [Nat.pow_succ, Nat.mul_comm] at hpower
    exact .inr ⟨hpower, hpos, leadingOne_le hpos⟩

/-- The interval of a number ends where those of greater numbers start, and before that if both
    significands are even. -/
theorem upperEnd_le_lowerEnd (h : x.word < y.word) :
    x.upperEnd ≤ y.lowerEnd ∧
      (x.significand % 2 = 0 → y.significand % 2 = 0 → x.upperEnd < y.lowerEnd) := by
  have hleading : 0 < leadingOne := by decide
  have habove : x.interval.above = 2 := rfl
  have hxlt := significand_lt x
  have hpos := pow_two_pos x.exponent
  rw [upperEnd, lowerEnd, below_eq, habove]
  obtain ⟨hexponent, hsignificand⟩ | ⟨hdouble, hypos, hyleading⟩ := exponent_cases h
  · rw [← hexponent]
    refine ⟨Nat.mul_le_mul_right _ ?_, fun hx hy => Nat.mul_lt_mul_of_pos_right ?_ hpos⟩
    · split <;> omega
    · split <;> omega
  · -- the last place of `y` counts at least twice that of `x`
    set below := if y.significand = leadingOne ∧ 0 < y.exponent then 1 else 2 with hbelow
    have hlower := Nat.mul_le_mul_left (4 * y.significand - below) hdouble
    rw [← Nat.mul_assoc] at hlower
    refine ⟨Nat.le_trans (Nat.mul_le_mul_right _ ?_) hlower,
      fun hx hy => Nat.lt_of_lt_of_le (Nat.mul_lt_mul_of_pos_right ?_ hpos) hlower⟩
    · split at hbelow <;> omega
    · split at hbelow <;> omega

/-! ## The numbers that a real reads back as -/

/-- A real reads back as `x`: it lies in the interval of `x`, whose ends belong to it if the
    significand is even. -/
structure ReadsAs (q : ℚ) (x : Binary64) : Prop where
  lower : x.lowerEnd ≤ q * (4 * unitsInOne)
  upper : q * (4 * unitsInOne) ≤ x.upperEnd
  strict : x.significand % 2 ≠ 0 →
    x.lowerEnd < q * (4 * unitsInOne) ∧ q * (4 * unitsInOne) < x.upperEnd

theorem readsAs_zero (h : x.word = 0) : ReadsAs 0 x := by
  have hsignificand : x.significand = 0 := by
    unfold significand
    rw [h]
    decide
  have heven : x.significand % 2 = 0 := by rw [hsignificand]
  have hlower : x.lowerEnd = 0 := by
    rw [lowerEnd, hsignificand, Nat.mul_zero, Nat.zero_sub, Nat.zero_mul]
  refine ⟨?_, ?_, fun hodd => absurd heven hodd⟩
  · rw [hlower, zero_mul]
    exact le_of_eq Nat.cast_zero
  · rw [zero_mul]
    exact Nat.cast_nonneg _

theorem ReadsAs.word_le (hx : ReadsAs q x) (hy : ReadsAs q y) : y.word ≤ x.word := by
  by_contra hlt
  obtain ⟨hle, heven⟩ := upperEnd_le_lowerEnd (Nat.lt_of_not_le hlt)
  have hle' : (x.upperEnd : ℚ) ≤ y.lowerEnd := Nat.cast_le.2 hle
  have hxupper := hx.upper
  have hylower := hy.lower
  by_cases hxeven : x.significand % 2 = 0
  · by_cases hyeven : y.significand % 2 = 0
    · have hlt' : (x.upperEnd : ℚ) < y.lowerEnd := Nat.cast_lt.2 (heven hxeven hyeven)
      linarith
    · have := (hy.strict hyeven).1
      linarith
  · have := (hx.strict hxeven).2
    linarith

/-- A real reads back as one number. -/
theorem ReadsAs.unique (hx : ReadsAs q x) (hy : ReadsAs q y) : x = y :=
  eq_of_word_eq (Nat.le_antisymm (hy.word_le hx) (hx.word_le hy))

end Lexis.Binary64

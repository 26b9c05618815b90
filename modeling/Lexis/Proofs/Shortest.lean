import Lexis.Number.Layout
import Lexis.Proofs.Interval
import Mathlib.Tactic.Ring

set_option autoImplicit false

/-! # Shortest decimals read back

The search for the shortest decimal tries the two multiples of a power of ten around the value, and
takes one of them only if it lies in the interval of the number (`withDigits?_eq_some`). With
seventeen digits the power of ten is so small against the interval that one of the two is always in
it (`exists_withDigits?`): ten to the power 16 is more than half of the greatest significand. So the
decimal that is found reads back as the number it was found for (`readsAs_shortest`), whichever of
two equally near decimals is taken. -/

namespace Lexis

/-! ## Decimal digits -/

namespace DecimalDigits

/-- The number that digits around a decimal point denote. -/
def value (d : DecimalDigits) : ℚ :=
  (Nat.ofDigitChars 10 d.digits 0 : ℚ) * 10 ^ (d.point - d.digits.length)

/-- What can be laid out: at least one digit, and nothing else. -/
def AreDigits (d : DecimalDigits) : Prop := d.digits ≠ [] ∧ ∀ c ∈ d.digits, c.isDigit = true

end DecimalDigits

namespace Binary64

/-- The zeros at the end of a text, taken off and put back. -/
theorem exists_zeros (cs : List Char) :
    ∃ count, cs = (cs.reverse.dropWhile (· = '0')).reverse ++ List.replicate count '0' := by
  have hzeros : cs.reverse.takeWhile (· = '0') =
      List.replicate (cs.reverse.takeWhile (· = '0')).length '0' := by
    refine List.eq_replicate_iff.2 ⟨rfl, fun c hc => ?_⟩
    simpa using List.all_eq_true.1 List.all_takeWhile c hc
  refine ⟨(cs.reverse.takeWhile (· = '0')).length, ?_⟩
  rw [← List.reverse_replicate, ← hzeros, ← List.reverse_append, List.takeWhile_append_dropWhile,
    List.reverse_reverse]

/-- The digits of a multiple of a power of ten, without the zeros at their end: the point tells how
    many there were. -/
theorem value_trimmedDigits {n : Nat} (h : 0 < n) (point : Int) (count : Nat) :
    (trimmedDigits n point count).AreDigits ∧
      (trimmedDigits n point count).value = n * 10 ^ (point - count) := by
  obtain ⟨zeros, hall⟩ := exists_zeros (Nat.toDigits 10 n)
  rw [trimmedDigits]
  generalize ((Nat.toDigits 10 n).reverse.dropWhile (· = '0')).reverse = digits at hall ⊢
  have hvalue : n = 10 ^ zeros * Nat.ofDigitChars 10 digits 0 := by
    rw [← Nat.ofDigitChars_replicate_zero, ← Nat.ofDigitChars_append, ← hall,
      Nat.ofDigitChars_ten_toDigits]
  refine ⟨⟨?_, fun c hc => ?_⟩, ?_⟩
  · rintro rfl
    rw [Nat.ofDigitChars_nil, Nat.mul_zero] at hvalue
    omega
  · refine Nat.isDigit_of_mem_toDigits (b := 10) (n := n) (by decide) (by decide) ?_
    rw [hall]
    exact List.mem_append_left _ hc
  · have hexponent : point + ((digits.length + zeros : Nat) - count : Int) - digits.length =
        zeros + (point - count) := by omega
    rw [DecimalDigits.value, hall, List.length_append, List.length_replicate, hexponent,
      zpow_add₀ (by decide), zpow_natCast, hvalue]
    push_cast
    ring

theorem pow_length_toDigits_le {n : Nat} (h : 0 < n) :
    10 ^ ((Nat.toDigits 10 n).length - 1) ≤ n := by
  obtain hzero | hpos := Nat.eq_zero_or_pos ((Nat.toDigits 10 n).length - 1)
  · rw [hzero]
    exact h
  · by_contra hlt
    have hlength := (Nat.length_toDigits_le_iff (by decide) hpos).2 (Nat.lt_of_not_le hlt)
    omega

/-- The power of ten of the leading digit is no more than the ratio. -/
theorem pow_decimalPoint_le {num den : Nat} (hnum : 0 < num) (hden : 0 < den) :
    (10 : ℚ) ^ (decimalPoint num den - 1) ≤ num / den := by
  have hden' : (0 : ℚ) < den := Nat.cast_pos.2 hden
  rw [le_div_iff₀ hden', decimalPoint]
  split
  · next hle =>
      have hlength : 0 < (Nat.toDigits 10 (num / den)).length := Nat.length_toDigits_pos
      have hpower := pow_length_toDigits_le (Nat.div_pos hle hden)
      have hproduct : 10 ^ ((Nat.toDigits 10 (num / den)).length - 1) * den ≤ num :=
        (Nat.le_div_iff_mul_le hden).1 hpower
      rw [← Nat.cast_pred hlength, zpow_natCast]
      exact_mod_cast hproduct
  · next hlt =>
      have hlength : 0 < (Nat.toDigits 10 ((den - 1) / num)).length := Nat.length_toDigits_pos
      have hpower := (Nat.length_toDigits_le_iff (by decide) hlength).1 (Nat.le_refl _)
      have hproduct := (Nat.div_lt_iff_lt_mul hnum).1 hpower
      have hexponent (n : Nat) : (1 - n - 1 : Int) = -n := by omega
      rw [hexponent, zpow_neg, zpow_natCast, inv_mul_le_iff₀ (by positivity)]
      have hle : den ≤ 10 ^ (Nat.toDigits 10 ((den - 1) / num)).length * num := by omega
      exact_mod_cast hle

/-! ## Grids of decimals

The multiples of a power of ten. The power is a ratio of two integers, one of which is one; over a
common denominator the value, the ends of its interval and the multiples are integers, told in
quarters of the last place. -/

/-- The integer that divides in a power of ten. -/
def scaleDown (shift : Int) : Nat := if shift < 0 then Nat.pow 10 (-shift).toNat else 1

/-- The integer that multiplies in a power of ten. -/
def scaleUp (shift : Int) : Nat := if shift < 0 then 1 else Nat.pow 10 shift.toNat

theorem scaleDown_pos (shift : Int) : 0 < scaleDown shift := by
  unfold scaleDown
  split
  · exact Nat.pow_pos (by decide)
  · decide

theorem scaleUp_pos (shift : Int) : 0 < scaleUp shift := by
  unfold scaleUp
  split
  · decide
  · exact Nat.pow_pos (by decide)

theorem zpow_eq_scale (shift : Int) : (10 : ℚ) ^ shift = scaleUp shift / scaleDown shift := by
  unfold scaleUp scaleDown
  split
  · next hneg =>
      obtain ⟨n, rfl⟩ : ∃ n : Nat, shift = -n := ⟨(-shift).toNat, by omega⟩
      simp
  · next hnonneg =>
      obtain ⟨n, rfl⟩ : ∃ n : Nat, shift = n := ⟨shift.toNat, by omega⟩
      simp

/-- A quarter of the last place of `x`. -/
def lastQuarter (x : Binary64) (shift : Int) : Nat := Nat.pow 2 x.exponent * scaleDown shift

/-- The power of ten whose multiples are tried. -/
def gridStep (shift : Int) : Nat := 4 * unitsInOne * scaleUp shift

theorem lastQuarter_pos (x : Binary64) (shift : Int) : 0 < x.lastQuarter shift :=
  Nat.mul_pos (pow_two_pos _) (scaleDown_pos shift)

theorem gridStep_pos (shift : Int) : 0 < gridStep shift :=
  Nat.mul_pos (Nat.mul_pos (by decide) unitsInOne_pos) (scaleUp_pos shift)

/-- A multiple of a step lies in the interval of `x`. -/
structure Hits (x : Binary64) (quarter step n : Nat) : Prop where
  lower : (4 * x.significand - x.interval.below) * quarter ≤ n * step
  upper : n * step ≤ (4 * x.significand + x.interval.above) * quarter
  strict : x.significand % 2 ≠ 0 →
    (4 * x.significand - x.interval.below) * quarter < n * step ∧
      n * step < (4 * x.significand + x.interval.above) * quarter

variable {x : Binary64}

theorem Hits.readsAs {shift : Int} {n : Nat}
    (h : x.Hits (x.lastQuarter shift) (gridStep shift) n) : ReadsAs (n * 10 ^ shift) x := by
  have hpos : (0 : ℚ) < scaleDown shift := Nat.cast_pos.2 (scaleDown_pos shift)
  have hvalue : (n * 10 ^ shift * (4 * unitsInOne) : ℚ) =
      (n * (4 * unitsInOne * scaleUp shift) : Nat) / scaleDown shift := by
    rw [zpow_eq_scale]
    push_cast
    ring
  obtain ⟨hlower, hupper, hstrict⟩ := h
  rw [lastQuarter, gridStep] at hlower hupper hstrict
  rw [← Nat.mul_assoc (_ - _)] at hlower hstrict
  rw [← Nat.mul_assoc (_ + _)] at hupper hstrict
  refine ⟨?_, ?_, fun hodd => ?_⟩
  · rw [hvalue, le_div_iff₀ hpos]
    exact_mod_cast hlower
  · rw [hvalue, div_le_iff₀ hpos]
    exact_mod_cast hupper
  · obtain ⟨hlower, hupper⟩ := hstrict hodd
    rw [hvalue, lt_div_iff₀ hpos, div_lt_iff₀ hpos]
    exact ⟨by exact_mod_cast hlower, by exact_mod_cast hupper⟩

/-- Whether a decimal at a distance from the value is in an interval that ends at a bound. -/
def reaches (x : Binary64) (distance bound : Nat) : Bool :=
  if x.interval.closed then distance ≤ bound else distance < bound

theorem reaches_iff {distance bound : Nat} :
    x.reaches distance bound = true ↔
      distance ≤ bound ∧ (x.significand % 2 ≠ 0 → distance < bound) := by
  have hclosed : x.interval.closed = decide (x.significand % 2 = 0) := rfl
  by_cases heven : x.significand % 2 = 0
  · simp [reaches, hclosed, heven]
  · simpa [reaches, hclosed, heven] using Nat.le_of_lt

/-- The search, with its quantities named. -/
theorem withDigits?_eq (tie : TieRule) (x : Binary64) (point : Int) (count : Nat) :
    x.withDigits? tie point count =
      let quarter := x.lastQuarter (point - count)
      let step := gridStep (point - count)
      let value := 4 * x.significand * quarter
      let low := value / step
      let down := value - low * step
      let up := (low + 1) * step - value
      let takeLow : Bool := down < up || (down = up && tie = .toEven && low % 2 = 0)
      let lowHit := 0 < low && x.reaches down (x.interval.below * quarter)
      let highHit := x.reaches up (x.interval.above * quarter)
      if lowHit && (takeLow || !highHit) then some (trimmedDigits low point count)
      else if highHit then some (trimmedDigits (low + 1) point count)
      else none := by
  unfold withDigits? lastQuarter gridStep scaleUp scaleDown reaches
  with_reducible rfl

section

variable {quarter step : Nat}

theorem lt_succ_div_mul (n : Nat) (hstep : 0 < step) : n < (n / step + 1) * step :=
  Nat.lt_mul_of_div_lt (Nat.lt_succ_self _) hstep

/-- The last multiple of a step up to the value is in the interval if the interval reaches down to
    it. -/
theorem hits_low (hstep : 0 < step) (hquarter : 0 < quarter)
    (hlow : 0 < 4 * x.significand * quarter / step)
    (h : x.reaches (4 * x.significand * quarter - 4 * x.significand * quarter / step * step)
      (x.interval.below * quarter) = true) :
    x.Hits quarter step (4 * x.significand * quarter / step) := by
  obtain ⟨hle, hlt⟩ := reaches_iff.1 h
  have hfloor := Nat.div_mul_le_self (4 * x.significand * quarter) step
  have hpos := Nat.mul_pos hlow hstep
  have habove : 0 < x.interval.above * quarter := Nat.mul_pos (above_pos x) hquarter
  constructor
  · rw [Nat.sub_mul]
    omega
  · rw [Nat.add_mul (4 * x.significand)]
    omega
  · intro hodd
    have hlt := hlt hodd
    rw [Nat.sub_mul, Nat.add_mul (4 * x.significand)]
    omega

/-- The first multiple of a step beyond the value is in the interval if the interval reaches up to
    it. -/
theorem hits_high (hstep : 0 < step)
    (h : x.reaches ((4 * x.significand * quarter / step + 1) * step - 4 * x.significand * quarter)
      (x.interval.above * quarter) = true) :
    x.Hits quarter step (4 * x.significand * quarter / step + 1) := by
  obtain ⟨hle, hlt⟩ := reaches_iff.1 h
  have hceil := lt_succ_div_mul (4 * x.significand * quarter) hstep
  constructor
  · rw [Nat.sub_mul]
    omega
  · rw [Nat.add_mul (4 * x.significand)]
    omega
  · intro hodd
    have hlt := hlt hodd
    rw [Nat.sub_mul, Nat.add_mul (4 * x.significand)]
    omega

/-- If the step is short, the interval reaches down or up to a multiple of it. -/
theorem reaches_or_reaches (hstep : 0 < step) (hquarter : 0 < quarter)
    (h : 10 ^ 16 * step ≤ 4 * x.significand * quarter) :
    x.reaches (4 * x.significand * quarter - 4 * x.significand * quarter / step * step)
        (x.interval.below * quarter) = true ∨
      x.reaches ((4 * x.significand * quarter / step + 1) * step - 4 * x.significand * quarter)
        (x.interval.above * quarter) = true := by
  have hfloor := Nat.div_mul_le_self (4 * x.significand * quarter) step
  have hceil := lt_succ_div_mul (4 * x.significand * quarter) hstep
  have habove : x.interval.above = 2 := rfl
  rw [reaches_iff, reaches_iff, below_eq, habove, Nat.add_mul, Nat.one_mul]
  rw [Nat.succ_mul] at hceil
  split
  · next hleading =>
      -- the interval reaches down by a quarter only, but the step is less than two quarters
      have hshort : step < 2 * quarter := by
        rw [hleading.1, leadingOne] at h
        omega
      omega
  · -- the step is less than four quarters, and the two distances make up a step
    have hshort : step < 4 * quarter := by
      have hsignificand := Nat.mul_le_mul_right quarter (Nat.le_of_lt (significand_lt x))
      rw [leadingOne] at hsignificand
      rw [Nat.mul_assoc] at h
      omega
    omega

end

/-- What the search finds is in the interval. -/
theorem withDigits?_eq_some {tie : TieRule} {point : Int} {count : Nat}
    {d : DecimalDigits} (h : x.withDigits? tie point count = some d) :
    ∃ n, 0 < n ∧ d = trimmedDigits n point count ∧ ReadsAs (n * 10 ^ (point - count)) x := by
  have hquarter := x.lastQuarter_pos (point - count)
  have hstep := gridStep_pos (point - count)
  rw [withDigits?_eq] at h
  simp only at h
  split at h
  · next hlow =>
      simp only [Bool.and_eq_true, decide_eq_true_eq] at hlow
      obtain ⟨⟨hpos, hreaches⟩, -⟩ := hlow
      exact ⟨_, hpos, (Option.some.inj h).symm, (hits_low hstep hquarter hpos hreaches).readsAs⟩
  · split at h
    · next hhigh =>
        exact ⟨_, Nat.succ_pos _, (Option.some.inj h).symm, (hits_high hstep hhigh).readsAs⟩
    · simp at h

/-- A power of ten is no more than a ratio, in integers. -/
theorem mul_scaleUp_le {num den : Nat} {shift : Int} (hden : 0 < den)
    (h : (10 : ℚ) ^ (shift + 16) ≤ num / den) :
    10 ^ 16 * (den * scaleUp shift) ≤ num * scaleDown shift := by
  have hden' : (0 : ℚ) < den := Nat.cast_pos.2 hden
  have hdown : (0 : ℚ) < scaleDown shift := Nat.cast_pos.2 (scaleDown_pos shift)
  rw [zpow_add₀ (by decide), zpow_eq_scale, le_div_iff₀ hden', mul_assoc, div_mul_eq_mul_div,
    div_le_iff₀ hdown] at h
  have hle : scaleUp shift * (10 ^ 16 * den) ≤ num * scaleDown shift := by exact_mod_cast h
  calc 10 ^ 16 * (den * scaleUp shift) = scaleUp shift * (10 ^ 16 * den) := by ring
    _ ≤ num * scaleDown shift := hle

/-- The step of the grid whose multiples have seventeen digits where the value is. -/
theorem gridStep_le {shift : Int} (h : (10 : ℚ) ^ (shift + 16) ≤ x.ratio.1 / x.ratio.2) :
    10 ^ 16 * gridStep shift ≤ 4 * x.significand * x.lastQuarter shift := by
  have hle := Nat.mul_le_mul_left 4 (mul_scaleUp_le (ratio_snd_pos x) h)
  rw [ratio_snd, ratio_fst] at hle
  rw [gridStep, lastQuarter]
  generalize unitsInOne = units at hle ⊢
  calc 10 ^ 16 * (4 * units * scaleUp shift) = 4 * (10 ^ 16 * (units * scaleUp shift)) := by ring
    _ ≤ 4 * (x.significand * Nat.pow 2 x.exponent * scaleDown shift) := hle
    _ = 4 * x.significand * (Nat.pow 2 x.exponent * scaleDown shift) := by ring

/-- Seventeen digits are enough. -/
theorem exists_withDigits? (tie : TieRule) {point : Int}
    (h : (10 : ℚ) ^ (point - 1) ≤ x.ratio.1 / x.ratio.2) :
    ∃ d, x.withDigits? tie point 17 = some d := by
  have hexponent : point - 1 = point - (17 : Nat) + 16 := by omega
  rw [hexponent] at h
  have hquarter := x.lastQuarter_pos (point - (17 : Nat))
  have hstep := gridStep_pos (point - (17 : Nat))
  have hshort := gridStep_le h
  have hlow : 0 < 4 * x.significand * x.lastQuarter (point - (17 : Nat)) /
      gridStep (point - (17 : Nat)) := Nat.div_pos (by omega) hstep
  have hreaches := reaches_or_reaches hstep hquarter hshort
  rw [withDigits?_eq]
  simp only [hlow, decide_true, Bool.true_and]
  split
  · exact ⟨_, rfl⟩
  · next hlow =>
      split
      · exact ⟨_, rfl⟩
      · next hhigh =>
          -- what is not reached upwards is reached downwards, and then it is taken
          rw [hreaches.resolve_right hhigh, Bool.eq_false_iff.2 hhigh] at hlow
          simp at hlow

/-- Every positive number has a decimal that reads back as it. -/
theorem readsAs_shortest (tie : TieRule) (h : 0 < x.word) :
    (x.shortest tie).AreDigits ∧ ReadsAs (x.shortest tie).value x := by
  have hpos : 0 < x.ratio.1 := Nat.mul_pos (significand_pos h) (pow_two_pos _)
  have hpoint := pow_decimalPoint_le hpos (ratio_snd_pos x)
  obtain ⟨d, hd⟩ := exists_withDigits? tie hpoint
  unfold shortest
  simp only
  split
  · next d hd =>
      obtain ⟨n, -, hd⟩ := List.exists_of_findSome?_eq_some hd
      obtain ⟨n, hn, rfl, hreads⟩ := withDigits?_eq_some hd
      obtain ⟨hdigits, hvalue⟩ := value_trimmedDigits hn (decimalPoint x.ratio.1 x.ratio.2) _
      rw [hvalue]
      exact ⟨hdigits, hreads⟩
  · next hnone =>
      have hnone := List.findSome?_eq_none_iff.1 hnone 16 (by simp)
      rw [hd] at hnone
      simp at hnone

end Binary64

end Lexis

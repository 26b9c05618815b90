import Lexis.Proofs.Interval
import Mathlib.Algebra.Order.Group.Abs
import Mathlib.Tactic.Ring

set_option autoImplicit false

/-! # Rounding to the nearest number

Rounding takes the nearest count of a unit that leaves the count 53 binary digits, or of the least
unit there is (`IsCount`). The word of the result is that count on top of the exponent, also when
the count is rounded up to the next power of two, so the ratio lies in the interval of the result
(`readsAs_of_ofRatio?`); and there is no result exactly if the ratio is no less than the point half
way between the greatest number and the next power of two (`ofRatio?_eq_none_iff`).

The ends of an interval are half way to the neighbours, and other numbers are farther away, so a
number is the nearest one to all that lies in its interval (`ReadsAs.isNearest`). -/

namespace Lexis.Binary64

variable {x y : Binary64} {q : ℚ}

/-! ## Values -/

/-- The number that a word denotes: its upper bits are an exponent, the lower 52 bits a fraction,
    and a leading one belongs to the fraction unless the exponent is zero. -/
def value (x : Binary64) : ℚ :=
  let exponent : Nat := x.word / 2 ^ 52
  let fraction : Nat := x.word % 2 ^ 52
  if exponent = 0 then fraction * 2 ^ (-1074 : ℤ)
  else (2 ^ 52 + fraction) * 2 ^ ((exponent : ℤ) - 1075)

theorem cast_unitsInOne : (unitsInOne : ℚ) = 2 ^ 1074 := by
  unfold unitsInOne
  generalize 1074 = n
  exact Nat.cast_pow 2 n

theorem cast_unitsInOne_pos : (0 : ℚ) < unitsInOne := Nat.cast_pos.2 unitsInOne_pos

/-- Scaled to units of the least positive number, the exponent of a word is a power of two. -/
theorem zpow_mul_unitsInOne (n : Nat) :
    (2 : ℚ) ^ ((n : ℤ) - 1074) * unitsInOne = (Nat.pow 2 n : Nat) := by
  have hunits : (2 : ℚ) ^ (1074 : ℤ) = unitsInOne := cast_unitsInOne.symm
  rw [← hunits, ← zpow_add₀ (by decide), sub_add_cancel, zpow_natCast]
  exact (Nat.cast_pow 2 n).symm

theorem value_mul_unitsInOne (x : Binary64) :
    x.value * unitsInOne = (x.significand * Nat.pow 2 x.exponent : Nat) := by
  have hleading : leadingOne = 2 ^ 52 := rfl
  unfold value significand exponent
  rw [hleading]
  simp only
  split
  · next hzero =>
      have hlt : x.word < 2 ^ 52 := by omega
      have hunit := zpow_mul_unitsInOne 0
      rw [if_pos hlt, hzero, Nat.mod_eq_of_lt hlt, Nat.cast_mul, mul_assoc]
      exact congrArg _ hunit
  · next hpos =>
      have hge : ¬ x.word < 2 ^ 52 := by omega
      have hexponent : ((x.word / 2 ^ 52 : Nat) : ℤ) - 1075 =
          (x.word / 2 ^ 52 - 1 : Nat) - 1074 := by omega
      rw [if_neg hge, hexponent, mul_assoc, zpow_mul_unitsInOne, Nat.cast_mul]
      push_cast
      rfl

/-! ## Half way to other numbers -/

/-- The lower end of an interval is half way to the next number below, or beyond half way to any
    other one. -/
theorem add_le_lowerEnd (h : x.word < y.word) :
    2 * (x.significand * Nat.pow 2 x.exponent + y.significand * Nat.pow 2 y.exponent) ≤
      y.lowerEnd := by
  have hlt := significand_lt x
  rw [lowerEnd, below_eq, Nat.sub_mul]
  obtain ⟨hexponent, hsignificand⟩ | ⟨hdouble, hpos, hleading⟩ := exponent_cases h
  · rw [hexponent]
    generalize Nat.pow 2 y.exponent = unit
    have hmul := Nat.mul_le_mul_right unit (Nat.succ_le_of_lt hsignificand)
    rw [Nat.succ_mul] at hmul
    rw [Nat.mul_assoc]
    split <;> omega
  · have hbelow : 2 * (x.significand * Nat.pow 2 x.exponent) ≤
        (2 * leadingOne - 1) * Nat.pow 2 y.exponent := by
      rw [Nat.mul_left_comm]
      exact Nat.mul_le_mul (Nat.le_sub_one_of_lt hlt) hdouble
    generalize Nat.pow 2 y.exponent = unit at hbelow ⊢
    generalize x.significand * Nat.pow 2 x.exponent = lower at hbelow ⊢
    rw [Nat.sub_mul, Nat.one_mul] at hbelow
    rw [Nat.mul_assoc]
    obtain heq | hgt := Nat.eq_or_lt_of_le hleading
    · -- below a power of two the last place counts half as much
      have hunit : unit ≤ leadingOne * unit := Nat.le_mul_of_pos_left unit (by decide)
      rw [if_pos ⟨heq.symm, hpos⟩, ← heq]
      rw [Nat.mul_assoc] at hbelow
      omega
    · have hmul := Nat.mul_le_mul_right unit (Nat.succ_le_of_lt hgt)
      rw [Nat.succ_mul] at hmul
      rw [Nat.mul_assoc] at hbelow
      split <;> omega

/-- The upper end of an interval is half way to the next number above, or before half way to any
    other one. -/
theorem upperEnd_le_add (h : x.word < y.word) :
    x.upperEnd ≤
      2 * (x.significand * Nat.pow 2 x.exponent + y.significand * Nat.pow 2 y.exponent) := by
  have habove : x.interval.above = 2 := rfl
  have hlt := significand_lt x
  rw [upperEnd, habove, Nat.add_mul, Nat.mul_assoc]
  have hnext : (x.significand + 1) * Nat.pow 2 x.exponent ≤
      y.significand * Nat.pow 2 y.exponent := by
    obtain ⟨hexponent, hsignificand⟩ | ⟨hdouble, hpos, hleading⟩ := exponent_cases h
    · rw [hexponent]
      exact Nat.mul_le_mul_right _ hsignificand
    · calc (x.significand + 1) * Nat.pow 2 x.exponent
          ≤ 2 * leadingOne * Nat.pow 2 x.exponent := Nat.mul_le_mul_right _ hlt
        _ = leadingOne * (2 * Nat.pow 2 x.exponent) := by
            rw [Nat.mul_comm 2 leadingOne, Nat.mul_assoc]
        _ ≤ y.significand * Nat.pow 2 y.exponent := Nat.mul_le_mul hleading hdouble
  rw [Nat.add_mul, Nat.one_mul] at hnext
  omega

/-! ## The nearest number -/

/-- A number as near to a real as any other, with an even significand if another one is as near. -/
structure IsNearest (x : Binary64) (q : ℚ) : Prop where
  nearest : ∀ y : Binary64, |x.value - q| ≤ |y.value - q|
  even : ∀ y : Binary64, y ≠ x → |y.value - q| = |x.value - q| → x.significand % 2 = 0

theorem value_lt (h : x.word < y.word) : x.value < y.value := by
  have hupper := upperEnd_le_add h
  have habove : x.interval.above = 2 := rfl
  have hpos := pow_two_pos x.exponent
  rw [upperEnd, habove, Nat.add_mul, Nat.mul_assoc] at hupper
  refine lt_of_mul_lt_mul_right ?_ cast_unitsInOne_pos.le
  rw [value_mul_unitsInOne, value_mul_unitsInOne]
  exact Nat.cast_lt.2 (by omega)

/-- What lies in the interval of a number lies on its side of the point half way to a lesser one. -/
theorem ReadsAs.value_add_le (hy : ReadsAs q y) (h : x.word < y.word) :
    x.value + y.value ≤ 2 * q ∧ (y.significand % 2 ≠ 0 → x.value + y.value < 2 * q) := by
  have hpos := cast_unitsInOne_pos
  have hlower : 2 * ((x.value + y.value) * unitsInOne) ≤ (y.lowerEnd : ℚ) := by
    rw [add_mul, value_mul_unitsInOne, value_mul_unitsInOne]
    exact_mod_cast add_le_lowerEnd h
  refine ⟨?_, fun hodd => ?_⟩
  · have hle := hy.lower
    refine le_of_mul_le_mul_right ?_ hpos
    linarith
  · have hlt := (hy.strict hodd).1
    refine lt_of_mul_lt_mul_right ?_ hpos.le
    linarith

/-- What lies in the interval of a number lies on its side of the point half way to a greater
    one. -/
theorem ReadsAs.le_value_add (hx : ReadsAs q x) (h : x.word < y.word) :
    2 * q ≤ x.value + y.value ∧ (x.significand % 2 ≠ 0 → 2 * q < x.value + y.value) := by
  have hpos := cast_unitsInOne_pos
  have hupper : (x.upperEnd : ℚ) ≤ 2 * ((x.value + y.value) * unitsInOne) := by
    rw [add_mul, value_mul_unitsInOne, value_mul_unitsInOne]
    exact_mod_cast upperEnd_le_add h
  refine ⟨?_, fun hodd => ?_⟩
  · have hle := hx.upper
    refine le_of_mul_le_mul_right ?_ hpos
    linarith
  · have hlt := (hx.strict hodd).2
    refine lt_of_mul_lt_mul_right ?_ hpos.le
    linarith

/-- A real that reads back as a number is nearer to it than to any other, or half way to it from
    another one, in which case the significand is even. -/
theorem ReadsAs.isNearest (hx : ReadsAs q x) : x.IsNearest q := by
  have hdistance : ∀ y : Binary64, y ≠ x → |x.value - q| ≤ |y.value - q| ∧
      (x.significand % 2 ≠ 0 → |x.value - q| < |y.value - q|) := by
    intro y hne
    obtain hlt | hgt := Nat.lt_or_gt_of_ne (mt eq_of_word_eq hne)
    · have hvalue := value_lt hlt
      obtain ⟨hle, hstrict⟩ := hx.value_add_le hlt
      rw [abs_of_neg (show y.value - q < 0 by linarith)]
      refine ⟨abs_le.2 ⟨by linarith, by linarith⟩, fun hodd => ?_⟩
      have hlt := hstrict hodd
      exact abs_lt.2 ⟨by linarith, by linarith⟩
    · have hvalue := value_lt hgt
      obtain ⟨hle, hstrict⟩ := hx.le_value_add hgt
      rw [abs_of_pos (show 0 < y.value - q by linarith)]
      refine ⟨abs_le.2 ⟨by linarith, by linarith⟩, fun hodd => ?_⟩
      have hlt := hstrict hodd
      exact abs_lt.2 ⟨by linarith, by linarith⟩
  refine ⟨fun y => ?_, fun y hne heq => ?_⟩
  · by_cases hxy : y = x
    · rw [hxy]
    · exact (hdistance y hxy).1
  · by_contra hodd
    exact absurd heq (ne_of_gt ((hdistance y hne).2 hodd))

/-! ## Counts of a unit -/

/-- What rounding a ratio to an integer gives: one of its two neighbours, no farther away than a
    half, and less than that if it is odd. -/
theorem roundHalfEven_spec {num den : Nat} (hden : 0 < den) :
    (num / den ≤ roundHalfEven num den ∧ roundHalfEven num den ≤ num / den + 1) ∧
      (2 * (roundHalfEven num den * den) ≤ 2 * num + den ∧
        2 * num ≤ 2 * (roundHalfEven num den * den) + den) ∧
      (roundHalfEven num den % 2 ≠ 0 →
        2 * (roundHalfEven num den * den) < 2 * num + den ∧
          2 * num < 2 * (roundHalfEven num den * den) + den) := by
  have hdivision := Nat.div_add_mod num den
  have hmod := Nat.mod_lt num hden
  unfold roundHalfEven
  simp only
  generalize num / den = quotient at hdivision ⊢
  generalize num % den = remainder at hdivision hmod ⊢
  rw [Nat.mul_comm] at hdivision
  have hsucc : (quotient + 1) * den = quotient * den + den := Nat.succ_mul quotient den
  split
  · omega
  · split
    · -- at a half the even neighbour is taken
      obtain heven | hodd := Nat.mod_two_eq_zero_or_one quotient
      · rw [heven, Nat.add_zero]
        omega
      · rw [hodd, hsucc]
        omega
    · rw [hsucc]
      omega

/-- A count of the unit `2 ^ exponent` that is nearest to `units / den`: the unit is so great that
    no more than 53 binary digits are needed, and not greater than that unless it is the least. -/
structure IsCount (units den exponent count : Nat) : Prop where
  le : count ≤ 2 * leadingOne
  units_lt : units < 2 * leadingOne * (den * Nat.pow 2 exponent)
  leading : 0 < exponent →
    leadingOne ≤ count ∧ leadingOne * (den * Nat.pow 2 exponent) ≤ units
  lower : 2 * (count * (den * Nat.pow 2 exponent)) ≤ 2 * units + den * Nat.pow 2 exponent
  upper : 2 * units ≤ 2 * (count * (den * Nat.pow 2 exponent)) + den * Nat.pow 2 exponent
  strict : count % 2 ≠ 0 →
    2 * (count * (den * Nat.pow 2 exponent)) < 2 * units + den * Nat.pow 2 exponent ∧
      2 * units < 2 * (count * (den * Nat.pow 2 exponent)) + den * Nat.pow 2 exponent

theorem lt_mul_pow_log2 (n : Nat) : n < 2 * leadingOne * Nat.pow 2 (Nat.log2 n - 52) :=
  calc n < 2 ^ (Nat.log2 n + 1) := Nat.lt_log2_self
    _ ≤ 2 ^ (53 + (Nat.log2 n - 52)) := Nat.pow_le_pow_right (by decide) (by omega)
    _ = 2 * leadingOne * Nat.pow 2 (Nat.log2 n - 52) := Nat.pow_add ..

theorem mul_pow_log2_le {n : Nat} (h : 0 < Nat.log2 n - 52) :
    leadingOne * Nat.pow 2 (Nat.log2 n - 52) ≤ n := by
  have hne : n ≠ 0 := by
    rintro rfl
    exact absurd h (by decide)
  calc leadingOne * Nat.pow 2 (Nat.log2 n - 52) = 2 ^ (52 + (Nat.log2 n - 52)) :=
        (Nat.pow_add 2 52 _).symm
    _ ≤ 2 ^ Nat.log2 n := Nat.pow_le_pow_right (by decide) (by omega)
    _ ≤ n := Nat.log2_self_le hne

/-- The count that a word is made of. -/
theorem isCount_roundHalfEven {den : Nat} (units : Nat) (hden : 0 < den) :
    IsCount units den (Nat.log2 (units / den) - 52)
      (roundHalfEven units (den * Nat.pow 2 (Nat.log2 (units / den) - 52))) := by
  have hunit : 0 < den * Nat.pow 2 (Nat.log2 (units / den) - 52) :=
    Nat.mul_pos hden (pow_two_pos _)
  obtain ⟨⟨hfloor, hceil⟩, ⟨hlower, hupper⟩, hstrict⟩ := @roundHalfEven_spec units _ hunit
  have hlt : units / (den * Nat.pow 2 (Nat.log2 (units / den) - 52)) < 2 * leadingOne := by
    rw [← Nat.div_div_eq_div_mul, Nat.div_lt_iff_lt_mul (pow_two_pos _)]
    exact lt_mul_pow_log2 _
  have hge (h : 0 < Nat.log2 (units / den) - 52) :
      leadingOne ≤ units / (den * Nat.pow 2 (Nat.log2 (units / den) - 52)) := by
    rw [← Nat.div_div_eq_div_mul, Nat.le_div_iff_mul_le (pow_two_pos _)]
    exact mul_pow_log2_le h
  exact {
    le := by omega
    units_lt := (Nat.div_lt_iff_lt_mul hunit).1 hlt
    leading := fun hpos =>
      ⟨Nat.le_trans (hge hpos) hfloor, (Nat.le_div_iff_mul_le hunit).1 (hge hpos)⟩
    lower := hlower
    upper := hupper
    strict := hstrict }

/-! ## The word of a count -/

/-- A word tells the significand and the exponent that it is made of. -/
theorem significand_of_word {exponent significand : Nat}
    (hword : x.word = exponent * leadingOne + significand)
    (hlt : significand < 2 * leadingOne) (hleading : 0 < exponent → leadingOne ≤ significand) :
    x.significand = significand ∧ x.exponent = exponent := by
  have hone : leadingOne = 0x10000000000000 := rfl
  unfold Binary64.significand Binary64.exponent
  rw [hone] at hword hlt hleading ⊢
  split <;> omega

/-- In quarters of the last place, the ends of the interval of the word that a count gives. -/
theorem IsCount.ends {units den exponent count : Nat} (h : IsCount units den exponent count)
    (hword : x.word = exponent * leadingOne + count) :
    x.lowerEnd * den ≤ 4 * units ∧ 4 * units ≤ x.upperEnd * den ∧
      (x.significand % 2 ≠ 0 → x.lowerEnd * den < 4 * units ∧ 4 * units < x.upperEnd * den) := by
  have habove : x.interval.above = 2 := rfl
  obtain ⟨hle, hunits, hleading, hlower, hupper, hstrict⟩ := h
  rw [lowerEnd, upperEnd, habove, below_eq]
  obtain hlt | heq := Nat.lt_or_eq_of_le hle
  · obtain ⟨hsignificand, hexponent⟩ :=
      significand_of_word hword hlt fun hpos => (hleading hpos).1
    have hunit (n : Nat) : n * Nat.pow 2 exponent * den = n * (den * Nat.pow 2 exponent) := by
      rw [Nat.mul_assoc, Nat.mul_comm den]
    rw [hsignificand, hexponent, hunit, hunit, Nat.sub_mul, Nat.add_mul, Nat.mul_assoc 4]
    generalize den * Nat.pow 2 exponent = unit at hleading hlower hupper hstrict ⊢
    refine ⟨?_, by omega, fun hodd => ?_⟩
    · split
      · next hpower =>
          have hge := (hleading hpower.2).2
          rw [← hpower.1] at hge
          omega
      · omega
    · have hstrict := hstrict hodd
      have hpos : unit ≤ count * unit := Nat.le_mul_of_pos_left unit (by omega)
      rw [if_neg fun hpower => hodd (by rw [hpower.1]; decide)]
      omega
  · -- the count was rounded up to a power of two, which has an exponent of its own
    have hcarry : x.word = (exponent + 1) * leadingOne + leadingOne := by
      rw [hword, heq, Nat.two_mul, Nat.add_mul exponent, Nat.one_mul, Nat.add_assoc]
    obtain ⟨hsignificand, hexponent⟩ :=
      significand_of_word hcarry (by decide) fun _ => Nat.le_refl _
    have hpower : Nat.pow 2 (exponent + 1) = 2 * Nat.pow 2 exponent := Nat.pow_succ'
    have hunit (n : Nat) :
        n * Nat.pow 2 (exponent + 1) * den = n * (2 * (den * Nat.pow 2 exponent)) := by
      rw [hpower, Nat.mul_assoc, Nat.mul_comm den, Nat.mul_assoc]
    rw [heq, Nat.mul_assoc] at hlower hupper
    rw [hsignificand, hexponent, hunit, hunit, if_pos ⟨rfl, Nat.succ_pos _⟩, Nat.sub_mul,
      Nat.add_mul, Nat.mul_assoc 4, Nat.mul_left_comm leadingOne]
    generalize den * Nat.pow 2 exponent = unit at hlower hupper ⊢
    exact ⟨by omega, by omega, fun hodd => absurd (by decide) hodd⟩

/-- A count is rounded up to a power of two from half a unit below that on. -/
theorem IsCount.eq_two_mul_iff {units den exponent count : Nat}
    (h : IsCount units den exponent count) :
    count = 2 * leadingOne ↔
      (4 * leadingOne - 1) * (den * Nat.pow 2 exponent) ≤ 2 * units := by
  have hone : 0 < leadingOne := by decide
  obtain ⟨hle, hunits, -, hlower, hupper, hstrict⟩ := h
  rw [Nat.sub_mul, Nat.one_mul, Nat.mul_assoc 4]
  generalize den * Nat.pow 2 exponent = unit at hunits hlower hupper hstrict ⊢
  have hpos : 0 < unit := by
    refine Nat.pos_of_ne_zero ?_
    rintro rfl
    exact Nat.not_lt_zero units hunits
  constructor
  · intro hcount
    rw [hcount, Nat.mul_assoc] at hlower
    omega
  · intro hge
    by_contra hne
    obtain hcount | hcount : count + 2 ≤ 2 * leadingOne ∨ count + 1 = 2 * leadingOne := by omega
    · have hmul := Nat.mul_le_mul_right unit hcount
      rw [Nat.add_mul, Nat.mul_assoc] at hmul
      omega
    · -- the greatest count of 53 binary digits is odd, so half a unit above it is not its own
      have hmul : (count + 1) * unit = 2 * leadingOne * unit := by rw [hcount]
      rw [Nat.succ_mul, Nat.mul_assoc] at hmul
      have hstrict := hstrict (by omega)
      omega

/-- The word of a count is that of infinity or beyond if the units are no less than the point half
    way between the greatest number and the power of two that comes next. -/
theorem IsCount.infinityWord_le_iff {units den exponent count n : Nat}
    (h : IsCount units den exponent count) (hn : infinityWord = (n + 3) * leadingOne) :
    infinityWord ≤ exponent * leadingOne + count ↔
      (4 * leadingOne - 1) * (den * Nat.pow 2 n) ≤ units := by
  have hone : 0 < leadingOne := by decide
  have hle := h.le
  have hgrow {a b : Nat} (hab : a ≤ b) : den * Nat.pow 2 a ≤ den * Nat.pow 2 b :=
    Nat.mul_le_mul_left den (Nat.pow_le_pow_right (by decide) hab)
  have hdouble (a : Nat) : den * Nat.pow 2 (a + 1) = 2 * (den * Nat.pow 2 a) := by
    have hpower : Nat.pow 2 (a + 1) = 2 * Nat.pow 2 a := Nat.pow_succ'
    rw [hpower, Nat.mul_left_comm]
  rw [hn, Nat.add_mul n]
  obtain hless | rfl | hmore : exponent ≤ n ∨ exponent = n + 1 ∨ n + 2 ≤ exponent := by omega
  · -- the greatest count of a lesser unit does not reach so far
    have hunits := h.units_lt
    have hword := Nat.mul_le_mul_right leadingOne hless
    have hbound := Nat.mul_le_mul_left leadingOne (hgrow hless)
    rw [Nat.mul_assoc] at hunits
    rw [Nat.sub_mul, Nat.one_mul, Nat.mul_assoc 4]
    generalize den * Nat.pow 2 n = unit at hbound ⊢
    have hunit : unit ≤ leadingOne * unit := Nat.le_mul_of_pos_left unit hone
    exact ⟨fun hge => by omega, fun hge => by omega⟩
  · -- of this unit only the count that is rounded up to a power of two does
    have hcarry := h.eq_two_mul_iff
    rw [hdouble, Nat.mul_left_comm] at hcarry
    rw [Nat.add_mul n, Nat.one_mul]
    exact ⟨fun hge => by omega, fun hge => by omega⟩
  · -- and all counts of a greater unit do
    obtain ⟨hcount, hunits⟩ := h.leading (by omega)
    have hword := Nat.mul_le_mul_right leadingOne hmore
    have hbound := Nat.mul_le_mul_left leadingOne (hgrow hmore)
    rw [hdouble, hdouble, Nat.mul_left_comm, Nat.mul_left_comm leadingOne 2] at hbound
    rw [Nat.add_mul n] at hword
    rw [Nat.sub_mul, Nat.one_mul, Nat.mul_assoc 4]
    exact ⟨fun hge => by omega, fun hge => by omega⟩

/-! ## Rounding a ratio -/

/-- What a ratio is rounded to is the word of a count, unless that is the word of infinity or
    beyond. -/
theorem exists_count (num : Nat) {den : Nat} (hden : 0 < den) :
    ∃ exponent count, IsCount (num * unitsInOne) den exponent count ∧
      (ofRatio? num den = none ↔ infinityWord ≤ exponent * leadingOne + count) ∧
      ∀ x, ofRatio? num den = some x → x.word = exponent * leadingOne + count := by
  refine ⟨_, _, isCount_roundHalfEven (num * unitsInOne) hden, ?_, fun x hx => ?_⟩
  · unfold ofRatio?
    simp only
    split
    · next hlt => exact ⟨fun h => absurd h (by simp), fun hge => absurd hlt (Nat.not_lt.2 hge)⟩
    · next hge => exact ⟨fun _ => Nat.not_lt.1 hge, fun _ => rfl⟩
  · unfold ofRatio? at hx
    simp only at hx
    split at hx
    · rw [← Option.some.inj hx]
    · exact absurd hx (by simp)

/-- A ratio reads back as the number that it is rounded to. -/
theorem readsAs_of_ofRatio? {num den : Nat} (hden : 0 < den) (h : ofRatio? num den = some x) :
    ReadsAs (num / den) x := by
  obtain ⟨exponent, count, hcount, -, hword⟩ := exists_count num hden
  obtain ⟨hlower, hupper, hstrict⟩ := hcount.ends (hword x h)
  have hden' : (0 : ℚ) < den := Nat.cast_pos.2 hden
  have hunits : (num / den * (4 * unitsInOne) : ℚ) = (4 * (num * unitsInOne) : Nat) / den := by
    push_cast
    ring
  refine ⟨?_, ?_, fun hodd => ?_⟩
  · rw [hunits, le_div_iff₀ hden']
    exact_mod_cast hlower
  · rw [hunits, div_le_iff₀ hden']
    exact_mod_cast hupper
  · obtain ⟨hlower, hupper⟩ := hstrict hodd
    rw [hunits, lt_div_iff₀ hden', div_lt_iff₀ hden']
    exact ⟨by exact_mod_cast hlower, by exact_mod_cast hupper⟩

theorem pow_unitsInOne (n : Nat) : Nat.pow 2 (n + 1074) = Nat.pow 2 n * unitsInOne := by
  unfold unitsInOne
  generalize 1074 = m
  exact Nat.pow_add 2 n m

/-- The point half way between two powers of two and the greatest count of the lesser one. -/
theorem half_way_eq (n : Nat) :
    (2 ^ (54 + n) - 2 ^ n : ℚ) = ((4 * leadingOne - 1) * Nat.pow 2 n : Nat) := by
  have hleading : ((4 * leadingOne - 1 : Nat) : ℚ) = 2 ^ 54 - 1 := by norm_num [leadingOne]
  have hpower : ((Nat.pow 2 n : Nat) : ℚ) = 2 ^ n := Nat.cast_pow 2 n
  rw [Nat.cast_mul, hleading, hpower, sub_mul, one_mul, ← pow_add]

/-- A ratio is beyond all numbers from the point on that is half way between the greatest number
    and the next power of two. -/
theorem ofRatio?_eq_none_iff {num den : Nat} (hden : 0 < den) :
    ofRatio? num den = none ↔ (2 ^ 1024 - 2 ^ 970 : ℚ) ≤ num / den := by
  obtain ⟨exponent, count, hcount, hnone, -⟩ := exists_count num hden
  obtain ⟨n, hn⟩ : ∃ n, n = 970 := ⟨970, rfl⟩
  have hexponent : 1024 = 54 + n := by omega
  have hlimit : infinityWord = (n + 1074 + 3) * leadingOne := by
    rw [hn]
    rfl
  have hunits := unitsInOne_pos
  rw [hnone, hcount.infinityWord_le_iff hlimit, pow_unitsInOne, hexponent, ← hn, half_way_eq,
    le_div_iff₀ (Nat.cast_pos.2 hden)]
  generalize unitsInOne = units at hunits ⊢
  have hcomm : (4 * leadingOne - 1) * (den * (Nat.pow 2 n * units)) =
      (4 * leadingOne - 1) * Nat.pow 2 n * den * units := by ring
  rw [hcomm, Nat.mul_le_mul_right_iff hunits, ← Nat.cast_mul, Nat.cast_le]

end Lexis.Binary64

import Lexis.Proofs.Lexeme
import Lexis.Proofs.Shortest
import Mathlib.Data.List.TakeWhile

set_option autoImplicit false

/-! # The text of a number tells the number

What a text denotes is told by its parts: the digits before the letter of an exponent are an integer
divided by ten for each digit behind the point, and the exponent scales it (`Text.numeralValue`).
Both ways to lay out decimal digits denote what the digits do, so the text of a number denotes a
real that reads back as the number (`Layout.readsAs_write`), and two numbers with one text are the
same (`Layout.write_injective`). -/

namespace Lexis

/-! ## What a numeral denotes -/

namespace Text

/-- The number before an exponent: digits, with a point among them or without one. -/
def mantissaValue (cs : List Char) : ℚ :=
  let whole := cs.takeWhile (· ≠ '.')
  let fraction := (cs.dropWhile (· ≠ '.')).drop 1
  Nat.ofDigitChars 10 (whole ++ fraction) 0 * 10 ^ (-fraction.length : Int)

/-- The number behind the letter of an exponent: digits with a sign or without one. -/
def exponentValue : List Char → Int
  | '-' :: digits => -Nat.ofDigitChars 10 digits 0
  | '+' :: digits => Nat.ofDigitChars 10 digits 0
  | digits => Nat.ofDigitChars 10 digits 0

/-- The number that a text denotes: digits, scaled by the power of ten of the exponent. -/
def numeralValue (cs : List Char) : ℚ :=
  mantissaValue (cs.takeWhile (· ≠ 'e')) *
    10 ^ exponentValue ((cs.dropWhile (· ≠ 'e')).drop 1)

variable {digits mantissa whole fraction exponent : List Char}

theorem mantissaValue_digits (h : ∀ c ∈ digits, c.isDigit = true) :
    mantissaValue digits = Nat.ofDigitChars 10 digits 0 := by
  have hpoint : ∀ c ∈ digits, decide (c ≠ '.') = true := fun c hc =>
    decide_eq_true (ne_of_class (h c hc) (by decide))
  rw [mantissaValue, List.takeWhile_eq_self_iff.2 hpoint, List.dropWhile_eq_nil_iff.2 hpoint]
  simp

theorem mantissaValue_point (h : ∀ c ∈ whole, c.isDigit = true) :
    mantissaValue (whole ++ '.' :: fraction) =
      Nat.ofDigitChars 10 (whole ++ fraction) 0 * 10 ^ (-fraction.length : Int) := by
  have hwhole : ∀ c ∈ whole, decide (c ≠ '.') = true := fun c hc =>
    decide_eq_true (ne_of_class (h c hc) (by decide))
  have hpoint : ∀ c ∈ ('.' :: fraction).head?, decide (c ≠ '.') = false := by simp
  rw [mantissaValue, takeWhile_run hwhole hpoint, dropWhile_run hwhole hpoint]
  rfl

theorem numeralValue_mantissa (h : ∀ c ∈ mantissa, c ≠ 'e') :
    numeralValue mantissa = mantissaValue mantissa := by
  have hletter : ∀ c ∈ mantissa, decide (c ≠ 'e') = true := fun c hc => decide_eq_true (h c hc)
  rw [numeralValue, List.takeWhile_eq_self_iff.2 hletter, List.dropWhile_eq_nil_iff.2 hletter]
  simp [exponentValue]

theorem numeralValue_exponent (h : ∀ c ∈ mantissa, c ≠ 'e') :
    numeralValue (mantissa ++ 'e' :: exponent) =
      mantissaValue mantissa * 10 ^ exponentValue exponent := by
  have hmantissa : ∀ c ∈ mantissa, decide (c ≠ 'e') = true := fun c hc => decide_eq_true (h c hc)
  have hletter : ∀ c ∈ ('e' :: exponent).head?, decide (c ≠ 'e') = false := by simp
  rw [numeralValue, takeWhile_run hmantissa hletter, dropWhile_run hmantissa hletter]
  rfl

theorem ne_of_mem_point (hwhole : ∀ c ∈ whole, c.isDigit = true)
    (hfraction : ∀ c ∈ fraction, c.isDigit = true) : ∀ c ∈ whole ++ '.' :: fraction, c ≠ 'e' := by
  intro c hc
  rw [List.mem_append, List.mem_cons] at hc
  rcases hc with hc | rfl | hc
  · exact ne_of_class (hwhole c hc) (by decide)
  · decide
  · exact ne_of_class (hfraction c hc) (by decide)

/-- Digits on both sides of a point. -/
theorem numeralValue_point (hwhole : ∀ c ∈ whole, c.isDigit = true)
    (hfraction : ∀ c ∈ fraction, c.isDigit = true) :
    numeralValue (whole ++ '.' :: fraction) =
      Nat.ofDigitChars 10 (whole ++ fraction) 0 * 10 ^ (-fraction.length : Int) := by
  rw [numeralValue_mantissa (ne_of_mem_point hwhole hfraction), mantissaValue_point hwhole]

theorem isDigit_of_mem_replicate {n : Nat} {c : Char} (h : c ∈ List.replicate n '0') :
    c.isDigit = true := by
  rw [List.eq_of_mem_replicate h]
  rfl

theorem isDigit_zero : ∀ c ∈ ['0'], c.isDigit = true := fun _ =>
  isDigit_of_mem_replicate (n := 1)

/-- Zeros in front count for the places behind the point only. -/
theorem numeralValue_zeros_before (zeros : Nat) (h : ∀ c ∈ digits, c.isDigit = true) :
    numeralValue ('0' :: '.' :: (List.replicate zeros '0' ++ digits)) =
      Nat.ofDigitChars 10 digits 0 * 10 ^ (-zeros - digits.length : Int) := by
  have hfraction : ∀ c ∈ List.replicate zeros '0' ++ digits, c.isDigit = true := fun c hc =>
    (List.mem_append.1 hc).elim isDigit_of_mem_replicate (h c)
  have hvalue := numeralValue_point isDigit_zero hfraction
  rw [Nat.ofDigitChars_append, Nat.ofDigitChars_append, Nat.ofDigitChars_replicate_zero] at hvalue
  refine hvalue.trans ?_
  rw [List.length_append, List.length_replicate, Nat.cast_add, neg_add]
  rfl

/-- Zeros behind the digits make up places before the point. -/
theorem numeralValue_zeros_behind (zeros : Nat) (h : ∀ c ∈ digits, c.isDigit = true) :
    numeralValue (digits ++ List.replicate zeros '0' ++ ['.', '0']) =
      Nat.ofDigitChars 10 digits 0 * 10 ^ zeros := by
  have hwhole : ∀ c ∈ digits ++ List.replicate zeros '0', c.isDigit = true := fun c hc =>
    (List.mem_append.1 hc).elim (h c) isDigit_of_mem_replicate
  rw [numeralValue_point hwhole isDigit_zero, Nat.ofDigitChars_append, Nat.ofDigitChars_append,
    Nat.ofDigitChars_replicate_zero, Nat.ofDigitChars_cons, Nat.ofDigitChars_nil]
  simp
  ring

theorem exponentValue_digits (h : ∀ c ∈ digits, c.isDigit = true) :
    exponentValue digits = Nat.ofDigitChars 10 digits 0 := by
  cases digits with
  | nil => rfl
  | cons c digits =>
      -- the first digit is no sign
      have hc := h c (List.mem_cons_self ..)
      unfold exponentValue
      split
      · next heq =>
          rw [(List.cons.inj heq).1] at hc
          exact absurd hc (by decide)
      · next heq =>
          rw [(List.cons.inj heq).1] at hc
          exact absurd hc (by decide)
      · rfl

/-- An exponent is read as it is written, whatever stands before a positive one. -/
theorem exponentValue_write {sign : List Char} (hsign : sign = [] ∨ sign = ['+']) (exponent : Int) :
    exponentValue ((if exponent < 0 then ['-'] else sign) ++ Nat.toDigits 10 exponent.natAbs) =
      exponent := by
  have hvalue : Nat.ofDigitChars 10 (Nat.toDigits 10 exponent.natAbs) 0 = exponent.natAbs :=
    Nat.ofDigitChars_ten_toDigits
  split
  · next hneg =>
      show -((Nat.ofDigitChars 10 (Nat.toDigits 10 exponent.natAbs) 0 : Nat) : Int) = exponent
      rw [hvalue]
      omega
  · next hnonneg =>
      have hsigned : exponentValue (sign ++ Nat.toDigits 10 exponent.natAbs) =
          Nat.ofDigitChars 10 (Nat.toDigits 10 exponent.natAbs) 0 := by
        rcases hsign with rfl | rfl
        · exact exponentValue_digits fun c hc =>
            Nat.isDigit_of_mem_toDigits (by decide) (by decide) hc
        · rfl
      rw [hsigned, hvalue]
      omega

end Text

namespace Layout

variable {layout : Layout} {d : DecimalDigits}

theorem numeralValue_positional (h : d.AreDigits) :
    Text.numeralValue (positional d) = d.value := by
  obtain ⟨digits, point⟩ := d
  obtain ⟨-, hdigits⟩ : digits ≠ [] ∧ ∀ c ∈ digits, c.isDigit = true := h
  unfold positional DecimalDigits.value
  simp only
  split
  · next hle =>
      obtain ⟨zeros, rfl⟩ : ∃ n : Nat, point = -n := ⟨(-point).toNat, by omega⟩
      rw [neg_neg, Int.toNat_natCast]
      exact Text.numeralValue_zeros_before zeros hdigits
  · next hpos =>
      obtain ⟨before, rfl⟩ : ∃ n : Nat, point = n := ⟨point.toNat, by omega⟩
      rw [Int.toNat_natCast]
      split
      · next hnil =>
          have hle := List.drop_eq_nil_iff.1 hnil
          obtain ⟨zeros, rfl⟩ := Nat.exists_eq_add_of_le hle
          have hexponent : ((digits.length + zeros : Nat) : Int) - digits.length = zeros := by omega
          rw [List.take_of_length_le hle, hexponent, Nat.add_sub_cancel_left, zpow_natCast]
          exact Text.numeralValue_zeros_behind zeros hdigits
      · next hcons =>
          have hlt : before < digits.length := Nat.lt_of_not_le fun hle =>
            hcons (List.drop_eq_nil_iff.2 hle)
          have hwhole : ∀ c ∈ digits.take before, c.isDigit = true := fun c hc =>
            hdigits c (List.mem_of_mem_take hc)
          have hfraction : ∀ c ∈ digits.drop before, c.isDigit = true := fun c hc =>
            hdigits c (List.mem_of_mem_drop hc)
          rw [Nat.sub_eq_zero_of_le (Nat.le_of_lt hlt), List.replicate_zero, List.append_nil,
            Text.numeralValue_point hwhole hfraction, List.take_append_drop, List.length_drop,
            Nat.cast_sub (Nat.le_of_lt hlt), neg_sub]

theorem numeralValue_scientific (hsign : layout.plusSign = [] ∨ layout.plusSign = ['+'])
    (h : d.AreDigits) : Text.numeralValue (layout.scientific d) = d.value := by
  obtain ⟨digits, point⟩ := d
  obtain ⟨hne, hdigits⟩ : digits ≠ [] ∧ ∀ c ∈ digits, c.isDigit = true := h
  obtain ⟨c, digits, rfl⟩ := List.exists_cons_of_ne_nil hne
  unfold scientific DecimalDigits.value
  simp only [List.take_succ_cons, List.take_zero, List.drop_succ_cons, List.drop_zero]
  have hfirst : ∀ d ∈ [c], d.isDigit = true := by simpa using hdigits c (List.mem_cons_self ..)
  have hexponent := Text.exponentValue_write hsign (point - 1)
  split
  · next hnil =>
      subst hnil
      have hletter : ∀ d ∈ [c], d ≠ 'e' := fun d hd => Text.ne_of_class (hfirst d hd) (by decide)
      rw [List.append_nil, Text.numeralValue_exponent hletter, hexponent,
        Text.mantissaValue_digits hfirst]
      rfl
  · next hcons =>
      have hrest : ∀ d ∈ digits, d.isDigit = true := fun d hd =>
        hdigits d (List.mem_cons_of_mem _ hd)
      rw [Text.numeralValue_exponent (Text.ne_of_mem_point hfirst hrest), hexponent,
        Text.mantissaValue_point hfirst, mul_assoc, ← zpow_add₀ (by decide)]
      rw [List.singleton_append, List.length_cons]
      congr 2
      push_cast
      ring

/-- The text of a number denotes a real that reads back as the number. -/
theorem readsAs_write (hsign : layout.plusSign = [] ∨ layout.plusSign = ['+']) (x : Binary64) :
    x.ReadsAs (Text.numeralValue (layout.write x)) := by
  unfold write
  split
  · next hzero =>
      have hvalue : Text.numeralValue ['0', '.', '0'] = 0 :=
        (Text.numeralValue_point Text.isDigit_zero Text.isDigit_zero).trans
          (by simp [Nat.ofDigitChars_cons])
      rw [hvalue]
      exact Binary64.readsAs_zero hzero
  · next hne =>
      obtain ⟨hdigits, hreads⟩ := Binary64.readsAs_shortest layout.tie (Nat.pos_of_ne_zero hne)
      simp only
      split
      · rw [numeralValue_positional hdigits]
        exact hreads
      · rw [numeralValue_scientific hsign hdigits]
        exact hreads

/-- The text of a number tells the number. -/
theorem write_injective (hsign : layout.plusSign = [] ∨ layout.plusSign = ['+']) :
    Function.Injective layout.write := by
  intro x y h
  have hx := readsAs_write hsign x
  rw [h] at hx
  exact hx.unique (readsAs_write hsign y)

/-! ## The characters of a decimal -/

theorem mem_positional {c : Char} (h : d.AreDigits) (hc : c ∈ positional d) :
    c.isDigit = true ∨ c = '.' := by
  unfold positional at hc
  split at hc
  · simp only [List.mem_cons, List.mem_append] at hc
    rcases hc with rfl | rfl | hc | hc
    · exact .inl rfl
    · exact .inr rfl
    · exact .inl (Text.isDigit_of_mem_replicate hc)
    · exact .inl (h.2 c hc)
  · simp only [List.mem_cons, List.mem_append] at hc
    rcases hc with (hc | hc) | rfl | hc
    · exact .inl (h.2 c (List.mem_of_mem_take hc))
    · exact .inl (Text.isDigit_of_mem_replicate hc)
    · exact .inr rfl
    · split at hc
      · rw [List.mem_singleton] at hc
        rw [hc]
        exact .inl rfl
      · exact .inl (h.2 c (List.mem_of_mem_drop hc))

theorem mem_scientific {c : Char} (h : d.AreDigits) (hc : c ∈ layout.scientific d) :
    c.isDigit = true ∨ c = '.' ∨ c = 'e' ∨ c = '-' ∨ c ∈ layout.plusSign := by
  unfold scientific at hc
  simp only [List.mem_append, List.mem_cons] at hc
  rcases hc with (hc | hc) | rfl | hc | hc
  · exact .inl (h.2 c (List.mem_of_mem_take hc))
  · split at hc
    · simp at hc
    · rcases List.mem_cons.1 hc with rfl | hc
      · exact .inr (.inl rfl)
      · exact .inl (h.2 c (List.mem_of_mem_drop hc))
  · exact .inr (.inr (.inl rfl))
  · split at hc
    · exact .inr (.inr (.inr (.inl (List.mem_singleton.1 hc))))
    · exact .inr (.inr (.inr (.inr hc)))
  · exact .inl (Nat.isDigit_of_mem_toDigits (by decide) (by decide) hc)

theorem mem_write {x : Binary64} {c : Char} (hc : c ∈ layout.write x) :
    c.isDigit = true ∨ c = '.' ∨ c = 'e' ∨ c = '-' ∨ c ∈ layout.plusSign := by
  unfold write at hc
  split at hc
  · simp only [List.mem_cons, List.not_mem_nil, or_false] at hc
    rcases hc with rfl | rfl | rfl
    · exact .inl rfl
    · exact .inr (.inl rfl)
    · exact .inl rfl
  · next hne =>
      have hdigits := (Binary64.readsAs_shortest layout.tie (Nat.pos_of_ne_zero hne)).1
      simp only at hc
      split at hc
      · exact (mem_positional hdigits hc).imp_right .inl
      · exact mem_scientific hdigits hc

theorem write_ne_nil (x : Binary64) : layout.write x ≠ [] := by
  unfold write positional scientific
  simp only
  repeat' split
  all_goals simp

end Layout

end Lexis

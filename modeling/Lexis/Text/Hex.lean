set_option autoImplicit false

/-! # Hexadecimal digits and code points

A number is written in digits and read back from them (`hexValue_hexDigits`). Not every number is
the code point of a character, and a character has one code point only (`scalar?_eq_some_iff`). -/

namespace Lexis.Text

/-- The lower case hexadecimal digits of a number, without leading zeros. -/
def hexDigits (n : Nat) : List Char := Nat.toDigits 16 n

/-- The value of a hexadecimal digit of either case. -/
def hexDigitValue (c : Char) : Nat :=
  if c.isDigit then c.toNat - '0'.toNat
  else if 'a' ≤ c then c.toNat - 'a'.toNat + 10
  else c.toNat - 'A'.toNat + 10

/-- The number that a run of hexadecimal digits spells. -/
def hexValue (digits : List Char) : Nat := digits.foldl (fun n c => 16 * n + hexDigitValue c) 0

/-- The character with a code point; `none` for surrogates and beyond the last code point. -/
def scalar? (n : Nat) : Option Char := if n.isValidChar then some (Char.ofNat n) else none

/-! ## Digits -/

theorem hexValue_concat (digits : List Char) (c : Char) :
    hexValue (digits ++ [c]) = 16 * hexValue digits + hexDigitValue c := by
  rw [hexValue, List.foldl_append]
  rfl

theorem hexDigits_of_lt {n : Nat} (h : n < 16) : hexDigits n = [n.digitChar] :=
  Nat.toDigits_of_lt_base h

theorem hexDigits_of_le {n : Nat} (h : 16 ≤ n) :
    hexDigits n = hexDigits (n / 16) ++ [(n % 16).digitChar] :=
  Nat.toDigits_of_base_le (by decide) h

theorem hexDigitValue_digitChar {n : Nat} (h : n < 16) :
    n.digitChar.isHexDigit = true ∧ hexDigitValue n.digitChar = n := by
  have hall : ∀ n < 16, n.digitChar.isHexDigit = true ∧ hexDigitValue n.digitChar = n := by decide
  exact hall n h

theorem isHexDigit_of_mem_hexDigits {n : Nat} {c : Char} (h : c ∈ hexDigits n) :
    c.isHexDigit = true := by
  induction n using Nat.strongRecOn with
  | ind n ih =>
      by_cases hn : n < 16
      · rw [hexDigits_of_lt hn, List.mem_singleton] at h
        rw [h]
        exact (hexDigitValue_digitChar hn).1
      · rw [hexDigits_of_le (Nat.le_of_not_lt hn), List.mem_append, List.mem_singleton] at h
        rcases h with h | rfl
        · exact ih (n / 16) (by omega) h
        · exact (hexDigitValue_digitChar (Nat.mod_lt n (by decide))).1

/-- The digits of a number spell the number. -/
theorem hexValue_hexDigits (n : Nat) : hexValue (hexDigits n) = n := by
  induction n using Nat.strongRecOn with
  | ind n ih =>
      by_cases hn : n < 16
      · rw [hexDigits_of_lt hn, ← List.nil_append [n.digitChar], hexValue_concat,
          (hexDigitValue_digitChar hn).2]
        exact Nat.zero_add n
      · have hinit := ih (n / 16) (by omega)
        have hlast := (hexDigitValue_digitChar (Nat.mod_lt n (by decide : 0 < 16))).2
        rw [hexDigits_of_le (Nat.le_of_not_lt hn), hexValue_concat, hinit, hlast]
        exact Nat.div_add_mod n 16

/-! ## Code points -/

theorem scalar?_eq_some_iff {n : Nat} {c : Char} : scalar? n = some c ↔ n = c.toNat := by
  unfold scalar?
  constructor
  · intro h
    split at h
    · next hvalid =>
        obtain rfl := Option.some.inj h
        rw [Char.ofNat, dif_pos hvalid]
        rfl
    · simp at h
  · rintro rfl
    have hvalid : c.toNat.isValidChar := c.valid
    rw [if_pos hvalid, Char.ofNat_toNat]

/-- Six digits are enough for every code point. -/
theorem length_hexDigits_toNat (c : Char) :
    1 ≤ (hexDigits c.toNat).length ∧ (hexDigits c.toNat).length ≤ 6 := by
  have hvalid : c.toNat.isValidChar := c.valid
  have hlt : c.toNat < Nat.pow 16 6 := by
    show c.toNat < 16777216
    unfold Nat.isValidChar at hvalid
    omega
  exact ⟨Nat.length_toDigits_pos, (Nat.length_toDigits_le_iff (by decide) (by decide)).2 hlt⟩

end Lexis.Text

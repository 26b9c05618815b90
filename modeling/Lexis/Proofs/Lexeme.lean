import Lexis.Token.Kind
import Lexis.Text.Blank

set_option autoImplicit false

/-! # Classes of lexemes

What the words, numbers and strings of the language look like, told by their texts alone and
without a reader: runs of digits, numbers with and without a fraction, words, and the inside of
strings. The classes of the characters that they start with are disjoint, so a text belongs to at
most one class. -/

namespace Lexis

/-! ## Numbers and words -/

/-- One or more ASCII digits. -/
def IsDigits (cs : List Char) : Prop := cs ≠ [] ∧ ∀ c ∈ cs, c.isDigit = true

/-- Digits, or digits, a point and digits. -/
inductive IsNumber : List Char → Prop
  | integer {digits : List Char} : IsDigits digits → IsNumber digits
  | decimal {whole fraction : List Char} :
      IsDigits whole → IsDigits fraction → IsNumber (whole ++ '.' :: fraction)

/-- An ASCII letter or underscore, then letters, digits and underscores. -/
def IsWord (cs : List Char) : Prop :=
  ∃ c tail, cs = c :: tail ∧ Text.isWordStart c = true ∧ ∀ d ∈ tail, Text.isWordPart d = true

theorem IsDigits.exists_cons {cs : List Char} (h : IsDigits cs) :
    ∃ c tail, cs = c :: tail ∧ c.isDigit = true ∧ ∀ d ∈ tail, d.isDigit = true := by
  obtain ⟨hne, hall⟩ := h
  cases cs with
  | nil => exact absurd rfl hne
  | cons c tail =>
      exact ⟨c, tail, rfl, hall c (List.mem_cons_self ..),
        fun d hd => hall d (List.mem_cons_of_mem _ hd)⟩

theorem IsNumber.exists_cons {cs : List Char} (h : IsNumber cs) :
    ∃ c tail, cs = c :: tail ∧ c.isDigit = true := by
  cases h with
  | integer hd =>
      obtain ⟨c, tail, rfl, hc, -⟩ := hd.exists_cons
      exact ⟨c, tail, rfl, hc⟩
  | decimal hw hf =>
      obtain ⟨c, tail, rfl, hc, -⟩ := hw.exists_cons
      exact ⟨c, _, rfl, hc⟩

theorem IsWord.forall_isWordPart {cs : List Char} (h : IsWord cs) :
    ∀ c ∈ cs, Text.isWordPart c = true := by
  obtain ⟨c, tail, rfl, hc, htail⟩ := h
  intro d hd
  rcases List.mem_cons.1 hd with rfl | hd
  · exact Text.isWordPart_of_isWordStart hc
  · exact htail d hd

/-! ## The inside of strings -/

/-- A text in which every quote stands right behind a backslash that counts: a backslash takes the
    next character with it, whatever that is. -/
inductive IsStringBody : List Char → Prop
  | nil : IsStringBody []
  | plain {c : Char} {cs : List Char} :
      c ≠ '"' → c ≠ '\\' → IsStringBody cs → IsStringBody (c :: cs)
  | escaped {c : Char} {cs : List Char} : IsStringBody cs → IsStringBody ('\\' :: c :: cs)

theorem IsStringBody.append {as bs : List Char} (ha : IsStringBody as) (hb : IsStringBody bs) :
    IsStringBody (as ++ bs) := by
  induction ha with
  | nil => exact hb
  | plain hq hs _ ih => exact .plain hq hs ih
  | escaped _ ih => exact .escaped ih

/-- Characters that are neither quotes nor backslashes. -/
theorem isStringBody_of_plain {cs : List Char} (h : ∀ c ∈ cs, c ≠ '"' ∧ c ≠ '\\') :
    IsStringBody cs := by
  induction cs with
  | nil => exact .nil
  | cons c cs ih =>
      have hc := h c (List.mem_cons_self ..)
      exact .plain hc.1 hc.2 (ih fun d hd => h d (List.mem_cons_of_mem _ hd))

/-! ## Classes of first characters -/

namespace Text

theorem isBlank_iff {c : Char} :
    isBlank c = true ↔ c = ' ' ∨ c = '\t' ∨ c = '\r' ∨ c = '\n' := by
  simp [isBlank, or_assoc]

theorem isBlank_of_isDigit {c : Char} (h : c.isDigit = true) : isBlank c = false := by
  rw [Bool.eq_false_iff]
  intro hb
  rcases isBlank_iff.1 hb with rfl | rfl | rfl | rfl <;> exact absurd h (by decide)

theorem isBlank_of_isWordStart {c : Char} (h : isWordStart c = true) : isBlank c = false := by
  rw [Bool.eq_false_iff]
  intro hb
  rcases isBlank_iff.1 hb with rfl | rfl | rfl | rfl <;> exact absurd h (by decide)

theorem bounds_of_isDigit {c : Char} (h : c.isDigit = true) : 48 ≤ c.toNat ∧ c.toNat ≤ 57 :=
  Char.isDigit_iff_toNat.1 h

theorem bounds_of_isWordStart {c : Char} (h : isWordStart c = true) :
    65 ≤ c.toNat ∧ c.toNat ≤ 122 := by
  have hA : 'A'.val.toNat = 65 := rfl
  have hZ : 'Z'.val.toNat = 90 := rfl
  have ha : 'a'.val.toNat = 97 := rfl
  have hz : 'z'.val.toNat = 122 := rfl
  have halpha : c.isAlpha = (decide ('A'.val ≤ c.val ∧ c.val ≤ 'Z'.val) ||
    decide ('a'.val ≤ c.val) && decide (c.val ≤ 'z'.val)) := rfl
  rw [isWordStart, halpha] at h
  simp only [Bool.or_eq_true, Bool.and_eq_true, decide_eq_true_eq, UInt32.le_iff_toNat_le] at h
  show 65 ≤ c.val.toNat ∧ c.val.toNat ≤ 122
  rcases h with (h | h) | rfl
  · omega
  · omega
  · decide

theorem isWordStart_of_isDigit {c : Char} (h : c.isDigit = true) : isWordStart c = false := by
  rw [Bool.eq_false_iff]
  intro hword
  have hdigit := bounds_of_isDigit h
  have hbounds := bounds_of_isWordStart hword
  omega

theorem isDigit_of_isWordStart {c : Char} (h : isWordStart c = true) : c.isDigit = false := by
  rw [Bool.eq_false_iff]
  intro hdigit
  exact Bool.noConfusion (h.symm.trans (isWordStart_of_isDigit hdigit))

theorem ne_of_class {p : Char → Bool} {c d : Char} (hc : p c = true) (hd : p d = false) :
    c ≠ d := by
  rintro rfl
  exact Bool.noConfusion (hc.symm.trans hd)

/-! ## Runs of a class -/

theorem takeWhile_run {p : Char → Bool} {run rest : List Char} (hrun : ∀ c ∈ run, p c = true)
    (hstop : ∀ c ∈ rest.head?, p c = false) : (run ++ rest).takeWhile p = run := by
  rw [List.takeWhile_append_of_pos hrun]
  cases rest with
  | nil => simp
  | cons c rest => simp [hstop c rfl]

theorem dropWhile_run {p : Char → Bool} {run rest : List Char} (hrun : ∀ c ∈ run, p c = true)
    (hstop : ∀ c ∈ rest.head?, p c = false) : (run ++ rest).dropWhile p = rest := by
  rw [List.dropWhile_append_of_pos hrun]
  cases rest with
  | nil => rfl
  | cons c rest => simp [hstop c rfl]

/-- A run stops at the end of the text or before a character that is not in the class. -/
theorem dropWhile_cases (p : Char → Bool) (cs : List Char) :
    cs.dropWhile p = [] ∨ ∃ c tail, cs.dropWhile p = c :: tail ∧ p c = false := by
  cases htail : cs.dropWhile p with
  | nil => exact .inl rfl
  | cons c tail =>
      have hnot := List.head?_dropWhile_not p cs
      rw [htail] at hnot
      exact .inr ⟨c, tail, rfl, by simpa using hnot⟩

end Text

end Lexis

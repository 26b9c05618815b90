import Lexis.Config.Document
import Lexis.Proofs.StringLiteral

set_option autoImplicit false

/-! # What is read of a document

A reading function is told by what it leaves of the text: `Yields` forgets how many bytes were
counted, since only refusals tell of them, and what stands ahead of a reader settles what it can
still read. Strings are read piece by piece (`yields_readString_plain`, `yields_readString_escape`);
of the numbers only the non-negative integers are needed, which are runs of digits
(`exists_of_yields_readNumber`). -/

namespace Lexis.Config.Reader

@[simp] theorem ahead_skip (r : Reader) (n : Nat) : (r.skip n).ahead = r.ahead.drop n := rfl

theorem ahead_skipWhile (r : Reader) (p : Char → Bool) :
    (r.skipWhile p).ahead = r.ahead.dropWhile p := by
  have hsplit := r.ahead.takeWhile_append_dropWhile (p := p)
  calc (r.skipWhile p).ahead
      = (r.ahead.takeWhile p ++ r.ahead.dropWhile p).drop (r.ahead.takeWhile p).length := by
        rw [hsplit]
        rfl
    _ = r.ahead.dropWhile p := List.drop_left

@[simp] theorem ahead_skipBlanks (r : Reader) :
    r.skipBlanks.ahead = r.ahead.dropWhile Text.isBlank := r.ahead_skipWhile Text.isBlank

/-- What a reading function answers, apart from the bytes counted: it reads `value` and leaves
    `rest`. -/
def Yields {α : Type} (result : Except Refusal (α × Reader)) (value : α) (rest : List Char) :
    Prop :=
  ∃ stop, result = .ok (value, stop) ∧ stop.ahead = rest

theorem yields_ok_iff {α : Type} {value value' : α} {stop : Reader} {rest : List Char} :
    Yields (.ok (value', stop)) value rest ↔ value' = value ∧ stop.ahead = rest := by
  constructor
  · rintro ⟨stop', hok, hrest⟩
    obtain ⟨rfl, rfl⟩ := Prod.mk.inj (Except.ok.inj hok)
    exact ⟨rfl, hrest⟩
  · rintro ⟨rfl, hrest⟩
    exact ⟨stop, rfl, hrest⟩

theorem not_yields_error {α : Type} {value : α} {e : Refusal} {rest : List Char} :
    ¬ Yields (.error e) value rest := by
  rintro ⟨stop, hok, -⟩
  simp at hok

theorem Yields.unique {α : Type} {result : Except Refusal (α × Reader)} {value value' : α}
    {rest rest' : List Char} (h : Yields result value rest) (h' : Yields result value' rest') :
    value = value' ∧ rest = rest' := by
  obtain ⟨stop, rfl, rfl⟩ := h
  exact yields_ok_iff.1 h'

/-- Two steps of reading, where what the second one yields depends on what is ahead of it only. -/
theorem yields_bind_iff {α β : Type} {result : Except Refusal (α × Reader)}
    {next : α × Reader → Except Refusal (β × Reader)} {value : β} {rest : List Char}
    {P : α → List Char → Prop}
    (hnext : ∀ first stop, Yields (next (first, stop)) value rest ↔ P first stop.ahead) :
    Yields (result >>= next) value rest ↔
      ∃ first ahead, Yields result first ahead ∧ P first ahead := by
  cases result with
  | error e =>
      refine ⟨fun h => absurd h not_yields_error, ?_⟩
      rintro ⟨first, ahead, h, -⟩
      exact absurd h not_yields_error
  | ok pair =>
      obtain ⟨first, stop⟩ := pair
      refine (hnext first stop).trans ⟨fun h => ⟨first, stop.ahead, ⟨stop, rfl, rfl⟩, h⟩, ?_⟩
      rintro ⟨first', ahead, hok, h⟩
      obtain ⟨rfl, rfl⟩ := yields_ok_iff.1 hok
      exact h

/-- What `Yields` says of a function that only moves on. -/
def Leaves (result : Except Refusal Reader) (rest : List Char) : Prop :=
  ∃ stop, result = .ok stop ∧ stop.ahead = rest

theorem yields_bind_leaves_iff {β : Type} {result : Except Refusal Reader}
    {next : Reader → Except Refusal (β × Reader)} {value : β} {rest : List Char}
    {P : List Char → Prop} (hnext : ∀ stop, Yields (next stop) value rest ↔ P stop.ahead) :
    Yields (result >>= next) value rest ↔ ∃ ahead, Leaves result ahead ∧ P ahead := by
  cases result with
  | error e => simp [Leaves, not_yields_error, bind, Except.bind]
  | ok stop =>
      refine (hnext stop).trans ?_
      simp [Leaves]

/-! ## Strings -/

theorem size_of_isHexDigit {cs : List Char} (h : ∀ c ∈ cs, c.isHexDigit = true) :
    Text.size cs = cs.length := by
  induction cs with
  | nil => rfl
  | cons c cs ih =>
      have hc : c.toNat < 128 := Text.toNat_lt_of_isHexDigit (h c (List.mem_cons_self ..))
      have hsize : c.utf8Size = 1 := Char.utf8Size_eq_one_iff.2 (by
        rw [UInt32.le_iff_toNat_le]
        exact Nat.le_of_lt_succ hc)
      rw [Text.size_cons, hsize, ih fun d hd => h d (List.mem_cons_of_mem _ hd), List.length_cons,
        Nat.add_comm]

/-- Four hexadecimal digits are read as the number that they spell. -/
theorem hexUnit_eq_ok_iff {cs : List Char} {unit : Nat} :
    hexUnit cs = .ok unit ↔ ∃ digits tail, cs = digits ++ tail ∧ digits.length = 4 ∧
      (∀ d ∈ digits, d.isHexDigit = true) ∧ Text.hexNumber digits = unit := by
  constructor
  · intro h
    unfold hexUnit at h
    split at h
    · simp at h
    · next hsize =>
        split at h
        · next hall =>
            have hall := List.all_eq_true.1 hall
            refine ⟨cs.take 4, cs.drop 4, (List.take_append_drop 4 cs).symm, ?_, hall, ?_⟩
            · -- fewer digits would have fewer bytes
              rw [List.length_take]
              refine Nat.min_eq_left (Nat.le_of_not_lt fun hlength => hsize ?_)
              rw [List.take_of_length_le (Nat.le_of_lt hlength)] at hall
              rw [size_of_isHexDigit hall]
              exact hlength
            · rw [← Text.hexValue_eq_hexNumber hall]
              exact Except.ok.inj h
        · simp at h
  · rintro ⟨digits, tail, rfl, hlength, hall, rfl⟩
    have hsize : ¬ Text.size (digits ++ tail) < 4 := by
      rw [Text.size_append, size_of_isHexDigit hall]
      omega
    have htake : (digits ++ tail).take 4 = digits := by
      rw [← hlength, List.take_left]
    rw [hexUnit, if_neg hsize, htake, if_pos (List.all_eq_true.2 hall),
      Text.hexValue_eq_hexNumber hall]

theorem readEscape_letter {letter value : Char} {tail : List Char}
    (h : simpleEscapes.lookup letter = some value) :
    readEscape ([letter] ++ tail) = .ok (value, [letter].length) := by
  have hunicode : letter ≠ 'u' := by
    rintro rfl
    have hnone : simpleEscapes.lookup 'u' = none := by decide
    simp [hnone] at h
  rw [List.singleton_append]
  unfold readEscape
  split
  · next heq => simp at heq
  · next heq => exact absurd (List.cons.inj heq).1 hunicode
  · next c _ _ heq =>
      rw [(List.cons.inj heq).1] at h
      simp [h]

/-- Four digits that spell no half of a pair are the escape of one character. -/
theorem readEscape_unit {digits tail : List Char} {c : Char} (hlength : digits.length = 4)
    (hall : ∀ d ∈ digits, d.isHexDigit = true) (hnumber : Text.hexNumber digits = c.toNat)
    (hlt : c.toNat < 0xd800) : readEscape ('u' :: (digits ++ tail)) = .ok (c, 5) := by
  have hunit : hexUnit (digits ++ tail) = .ok c.toNat :=
    hexUnit_eq_ok_iff.2 ⟨digits, tail, rfl, hlength, hall, hnumber⟩
  have htrailing : isTrailing c.toNat = false := by
    simp [isTrailing]
    omega
  have hleading : isLeading c.toNat = false := by
    simp [isLeading]
    omega
  simp [readEscape, hunit, Except.mapError, bind, Except.bind, htrailing, hleading]
  rfl

/-- The rest of a string behind a character that was read. -/
theorem yields_cons_iff {result : Except Refusal (List Char × Reader)} {c : Char}
    {word rest : List Char} :
    Yields (do
        let (values, stop) ← result
        return (c :: values, stop)) word rest ↔
      ∃ tail, word = c :: tail ∧ Yields result tail rest := by
  cases result with
  | error e =>
      refine ⟨fun h => absurd h not_yields_error, ?_⟩
      rintro ⟨tail, -, h⟩
      exact absurd h not_yields_error
  | ok pair =>
      obtain ⟨values, stop⟩ := pair
      refine yields_ok_iff.trans ⟨?_, ?_⟩
      · rintro ⟨rfl, hrest⟩
        exact ⟨values, rfl, yields_ok_iff.2 ⟨rfl, hrest⟩⟩
      · rintro ⟨tail, rfl, h⟩
        obtain ⟨rfl, hrest⟩ := yields_ok_iff.1 h
        exact ⟨rfl, hrest⟩

theorem yields_readString_plain {c : Char} {cs word rest : List Char}
    (hc : c ≠ '"' ∧ c ≠ '\\' ∧ ¬ c.toNat < 0x20)
    (h : ∀ offset, Yields (readString ⟨cs, offset⟩) word rest) (offset : Nat) :
    Yields (readString ⟨c :: cs, offset⟩) (c :: word) rest := by
  obtain ⟨hquote, hbackslash, hcontrol⟩ := hc
  rw [readString]
  simp only [hquote, hbackslash, hcontrol, if_false]
  exact yields_cons_iff.2 ⟨word, rfl, h _⟩

theorem yields_readString_escape {c : Char} {piece cs word rest : List Char}
    (hescape : readEscape (piece ++ cs) = .ok (c, piece.length))
    (h : ∀ offset, Yields (readString ⟨cs, offset⟩) word rest) (offset : Nat) :
    Yields (readString ⟨'\\' :: (piece ++ cs), offset⟩) (c :: word) rest := by
  have hdrop : ('\\' :: (piece ++ cs)).drop (piece.length + 1) = cs := List.drop_left
  rw [readString]
  simp only [hescape, skip, hdrop]
  exact yields_cons_iff.2 ⟨word, rfl, h _⟩

/-! ## Numbers -/

/-- What can stand behind a number. -/
def EndsNumber (rest : List Char) : Prop :=
  ∀ c ∈ rest.head?, c.isDigit = false ∧ c ≠ '.' ∧ c ≠ 'e' ∧ c ≠ 'E'

/-- Behind all digits of a text stands no digit, so three characters are left to be excluded. -/
theorem endsNumber_of_dropWhile_isDigit {cs rest : List Char}
    (hbehind : rest = cs.dropWhile Char.isDigit) (hpoint : ∀ tail, rest ≠ '.' :: tail)
    (he : ∀ tail, rest ≠ 'e' :: tail) (hE : ∀ tail, rest ≠ 'E' :: tail) : EndsNumber rest := by
  intro c hc
  obtain ⟨tail, rfl⟩ : ∃ tail, rest = c :: tail := List.head?_eq_some_iff.1 hc
  refine ⟨?_, ?_, ?_, ?_⟩
  · have hcases := Text.dropWhile_cases Char.isDigit cs
    rw [← hbehind] at hcases
    obtain h | ⟨d, _, hcons, hd⟩ := hcases
    · simp at h
    · obtain ⟨rfl, -⟩ := List.cons.inj hcons
      exact hd
  · rintro rfl
    exact hpoint tail rfl
  · rintro rfl
    exact he tail rfl
  · rintro rfl
    exact hE tail rfl

/-- Digits that are all taken up are read as the number that they denote. -/
theorem snd_gather {significand : Nat} {digits : List Char}
    (h : (gather significand digits).1 = digits.length) :
    (gather significand digits).2 = Nat.ofDigitChars 10 digits significand := by
  induction digits generalizing significand with
  | nil => rfl
  | cons c digits ih =>
      rw [gather] at h ⊢
      split
      · next hle =>
          rw [if_pos hle] at h
          have hnext := ih (Nat.succ.inj h)
          rw [Nat.ofDigitChars_cons, Nat.mul_comm 10]
          exact hnext
      · next hgt =>
          rw [if_neg hgt] at h
          simp at h

section

variable {r : Reader} {n : Nat} {rest : List Char}

/-! What has a fraction or an exponent is no integer, however it ends. -/

theorem not_yields_finish {d : Decimal} : ¬ Yields (r.finish d) (.unsigned n) rest := by
  intro h
  rw [finish] at h
  cases hfloat : float? d.significand d.exponent with
  | none =>
      rw [hfloat] at h
      exact not_yields_error h
  | some x =>
      rw [hfloat] at h
      exact absurd (yields_ok_iff.1 h).1 (by simp)

theorem not_yields_readExponent {d : Decimal} :
    ¬ Yields (r.readExponent d) (.unsigned n) rest := by
  unfold readExponent
  simp only
  split
  · exact not_yields_error
  · split
    · exact not_yields_error
    · split
      · split
        · exact not_yields_error
        · exact fun h => by simpa using (yields_ok_iff.1 h).1
      · exact not_yields_finish

theorem not_yields_readTail {d : Decimal} : ¬ Yields (r.readTail d) (.unsigned n) rest := by
  unfold readTail
  split
  · exact not_yields_readExponent
  · exact not_yields_readExponent
  · exact not_yields_finish

theorem not_yields_readFraction {d : Decimal} :
    ¬ Yields (r.readFraction d) (.unsigned n) rest := by
  unfold readFraction
  simp only
  split
  · exact not_yields_error
  · exact not_yields_readTail

theorem yields_ofInteger {isNegative : Bool} {m : Nat}
    (h : Yields (ofInteger isNegative m r) (.unsigned n) rest) :
    isNegative = false ∧ n = m ∧ r.ahead = rest := by
  unfold ofInteger at h
  split at h
  · next hpositive =>
      obtain ⟨hvalue, hrest⟩ := yields_ok_iff.1 h
      exact ⟨by simpa using hpositive, (ConfigNumber.unsigned.inj hvalue).symm, hrest⟩
  · split at h
    · exact absurd (yields_ok_iff.1 h).1 (by simp)
    · exact absurd h not_yields_finish

/-- A non-negative integer is read from a run of digits that has no zero before other digits. -/
theorem exists_of_yields_readUnsigned {isNegative : Bool}
    (h : Yields (r.readUnsigned isNegative) (.unsigned n) rest) :
    isNegative = false ∧ ∃ digits, r.ahead = digits ++ rest ∧ IsDigits digits ∧
      n = Nat.ofDigitChars 10 digits 0 ∧ (∀ d tail, digits ≠ '0' :: d :: tail) ∧
      EndsNumber rest := by
  unfold readUnsigned at h
  simp only at h
  split at h
  · exact absurd h not_yields_error
  · exact absurd h not_yields_error
  · next hne hzero =>
      split at h
      · exact absurd h not_yields_readFraction
      · exact absurd h not_yields_readExponent
      · exact absurd h not_yields_readExponent
      · next hpoint he hE =>
          split at h
          · next hcount =>
              obtain ⟨hsign, rfl, hrest⟩ := yields_ofInteger h
              have hbehind : rest = r.ahead.dropWhile Char.isDigit :=
                hrest.symm.trans (ahead_skipWhile r Char.isDigit)
              refine ⟨hsign, r.ahead.takeWhile Char.isDigit, ?_, ⟨hne, ?_⟩, snd_gather hcount,
                hzero, ?_⟩
              · rw [hbehind, List.takeWhile_append_dropWhile]
              · exact fun c hc => List.all_eq_true.1 List.all_takeWhile c hc
              · exact endsNumber_of_dropWhile_isDigit hbehind
                  (fun tail h => hpoint tail (hrest.trans h))
                  (fun tail h => he tail (hrest.trans h))
                  (fun tail h => hE tail (hrest.trans h))
          · exact absurd h not_yields_finish

theorem exists_of_yields_readNumber (h : Yields r.readNumber (.unsigned n) rest) :
    ∃ digits, r.ahead = digits ++ rest ∧ IsDigits digits ∧ n = Nat.ofDigitChars 10 digits 0 ∧
      (∀ d tail, digits ≠ '0' :: d :: tail) ∧ EndsNumber rest := by
  unfold readNumber at h
  split at h
  · exact absurd (exists_of_yields_readUnsigned h).1 (by decide)
  · exact (exists_of_yields_readUnsigned h).2

end

end Lexis.Config.Reader

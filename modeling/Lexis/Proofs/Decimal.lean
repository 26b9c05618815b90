import Lexis.Proofs.Number
import Lexis.Proofs.Rounding

set_option autoImplicit false

/-! # Decimals in a source text

A decimal denotes its whole part and, for each digit behind the point, as many tenths of tenths as
the place of the digit tells (`Text.decimalValue`). It is read as one integer over a power of ten,
which is the same ratio, however long the two runs of digits are and wherever there are zeros at
their ends. So it is one token whose number is nearest to what the digits denote, or, if that is
beyond the greatest number by half a last place or more, one error over the whole decimal
(`Scanner.scan_decimal`). -/

namespace Lexis

/-! ## What a decimal denotes -/

namespace Text

/-- The number that a decimal denotes, given the digits on both sides of its point. -/
def decimalValue (whole fraction : List Char) : ℚ :=
  decimalNumber whole + decimalNumber fraction / 10 ^ fraction.length

theorem decimalNumber_append (whole fraction : List Char) :
    decimalNumber (whole ++ fraction) =
      decimalNumber whole * 10 ^ fraction.length + decimalNumber fraction := by
  rw [decimalNumber, List.map_append, List.reverse_append, Nat.ofDigits_append, List.length_reverse,
    List.length_map, Nat.add_comm, Nat.mul_comm]
  rfl

theorem decimalNumber_zeros (n : Nat) : decimalNumber (List.replicate n '0') = 0 := by
  rw [decimalNumber, List.map_replicate, List.reverse_replicate]
  exact Nat.ofDigits_replicate_zero

/-- Zeros at the ends of a decimal do not count. -/
theorem decimalValue_zeros (m n : Nat) (whole fraction : List Char) :
    decimalValue (List.replicate m '0' ++ whole) (fraction ++ List.replicate n '0') =
      decimalValue whole fraction := by
  rw [decimalValue, decimalNumber_append, decimalNumber_append, decimalNumber_zeros,
    decimalNumber_zeros, Nat.zero_mul, Nat.zero_add, Nat.add_zero, List.length_append,
    List.length_replicate, pow_add, Nat.cast_mul, Nat.cast_pow, Nat.cast_ofNat,
    mul_div_mul_right _ _ (by positivity)]
  rfl

/-- As many places as there are digits behind the point divide all digits alike. -/
theorem div_eq_decimalValue {whole fraction : List Char} (hwhole : IsDigits whole)
    (hfraction : IsDigits fraction) :
    (Nat.ofDigitChars 10 (whole ++ fraction) 0 / (Nat.pow 10 fraction.length : Nat) : ℚ) =
      decimalValue whole fraction := by
  have hdigits : ∀ c ∈ whole ++ fraction, c.isDigit = true := fun c hc =>
    (List.mem_append.1 hc).elim (hwhole.2 c) (hfraction.2 c)
  have hpower : ((Nat.pow 10 fraction.length : Nat) : ℚ) = 10 ^ fraction.length :=
    Nat.cast_pow 10 _
  rw [ofDigitChars_eq_decimalNumber hdigits, decimalNumber_append, hpower, decimalValue,
    Nat.cast_add, Nat.cast_mul, Nat.cast_pow, add_div, Nat.cast_ofNat,
    mul_div_cancel_right₀ _ (by positivity)]

end Text

/-! ## The number of a decimal -/

namespace Binary64

variable {whole fraction whole' fraction' : List Char}

theorem ofDecimal?_eq_none_iff (hwhole : IsDigits whole) (hfraction : IsDigits fraction) :
    ofDecimal? whole fraction = none ↔
      2 ^ 1024 - 2 ^ 970 ≤ Text.decimalValue whole fraction := by
  have hpos : 0 < Nat.pow 10 fraction.length := Nat.pow_pos (by decide)
  rw [ofDecimal?, ofRatio?_eq_none_iff hpos, Text.div_eq_decimalValue hwhole hfraction]

theorem readsAs_of_ofDecimal? {x : Binary64} (hwhole : IsDigits whole)
    (hfraction : IsDigits fraction) (h : ofDecimal? whole fraction = some x) :
    ReadsAs (Text.decimalValue whole fraction) x := by
  rw [← Text.div_eq_decimalValue hwhole hfraction]
  exact readsAs_of_ofRatio? (Nat.pow_pos (by decide)) h

/-- Decimals that denote one number are read alike. -/
theorem ofDecimal?_congr (hwhole : IsDigits whole) (hfraction : IsDigits fraction)
    (hwhole' : IsDigits whole') (hfraction' : IsDigits fraction')
    (h : Text.decimalValue whole fraction = Text.decimalValue whole' fraction') :
    ofDecimal? whole fraction = ofDecimal? whole' fraction' := by
  have hnone := ofDecimal?_eq_none_iff hwhole hfraction
  rw [h, ← ofDecimal?_eq_none_iff hwhole' hfraction'] at hnone
  cases hx : ofDecimal? whole fraction with
  | none => rw [hnone.1 hx]
  | some x =>
      cases hy : ofDecimal? whole' fraction' with
      | none =>
          rw [hnone.2 hy] at hx
          simp at hx
      | some y =>
          have hreads := readsAs_of_ofDecimal? hwhole hfraction hx
          rw [h] at hreads
          rw [hreads.unique (readsAs_of_ofDecimal? hwhole' hfraction' hy)]

end Binary64

/-! ## Decimals as whole texts -/

section

variable {whole fraction : List Char}

/-- A decimal is one step of a scan. -/
theorem Trace.ofText_decimal (hwhole : IsDigits whole) (hfraction : IsDigits fraction) :
    ofText (whole ++ '.' :: fraction) = [⟨.origin, .decimal whole fraction⟩] := by
  have hends : (Segment.decimal whole fraction).EndsBefore [] := ⟨⟨hwhole, hfraction⟩, rfl⟩
  have hread := Segment.readAll_text_append hends
  rw [List.append_nil, Segment.text] at hread
  rw [ofText, hread, Segment.readAll]
  rfl

/-- What a decimal at a place is: a token with its number, or an error if it has none. -/
theorem Placed.found_decimal (start : Position) (whole fraction : List Char) :
    let p : Placed Segment := ⟨start, .decimal whole fraction⟩
    let lexeme := whole ++ '.' :: fraction
    let stop := start.offset + Text.size lexeme
    let number? := Binary64.ofDecimal? whole fraction
    p.token?.toList =
        (number?.map fun x =>
          ⟨.number, String.ofList lexeme, some (.decimal x), start, stop⟩).toList ∧
      p.errors =
        if number?.isNone then [⟨.decimalOutOfRange (String.ofList lexeme), start, stop⟩]
        else [] := by
  intro p lexeme stop number?
  have hitems : escapeErrors start p.piece.items = [] := rfl
  cases hnumber : Binary64.ofDecimal? whole fraction with
  | none =>
      simp [token?, errors, hitems, ownError?, p, Segment.token?, Segment.fault?, number?, hnumber,
        lexeme, stop]
  | some x =>
      simp [token?, errors, hitems, ownError?, p, Segment.token?, Segment.fault?, Segment.text,
        number?, hnumber, lexeme, stop]

end

namespace Scanner

/-- What a scan finds in a decimal that is the whole text. -/
theorem found_scan_decimal (s : Scanner) {whole fraction : String} (hwhole : IsDigits whole.toList)
    (hfraction : IsDigits fraction.toList) :
    let d := whole ++ "." ++ fraction
    let number? := Binary64.ofDecimal? whole.toList fraction.toList
    (s.scan d).2.tokens =
        (number?.map fun x => ⟨.number, d, some (.decimal x), .origin, d.utf8ByteSize⟩).toList ∧
      (s.scan d).1.errors =
        if number?.isNone then [⟨.decimalOutOfRange d, .origin, d.utf8ByteSize⟩] else [] := by
  intro d number?
  have hd : d.toList = whole.toList ++ '.' :: fraction.toList := by simp [d]
  have hsize : Position.origin.offset + Text.size d.toList = d.utf8ByteSize := by
    rw [Position.offset_origin, Nat.zero_add, Text.size_toList]
  obtain ⟨htoken, herrors⟩ := Placed.found_decimal .origin whole.toList fraction.toList
  rw [← hd, String.ofList_toList, hsize] at htoken herrors
  rw [tokens_scan, errors_scan, hd, Trace.ofText_decimal hwhole hfraction, Trace.tokens_cons,
    Trace.errors_cons, htoken, herrors]
  exact ⟨List.append_nil _, List.append_nil _⟩

/-- A decimal is one token, whose number is the nearest to what the digits denote, or one error over
    all of it if that is no less than the point half way from the greatest number to the power of
    two that comes next. Decimals that denote the same have the same number. -/
theorem scan_decimal (s : Scanner) {whole fraction : String} (hwhole : IsDigits whole.toList)
    (hfraction : IsDigits fraction.toList) :
    let d := whole ++ "." ++ fraction
    let q := Text.decimalValue whole.toList fraction.toList
    (2 ^ 1024 - 2 ^ 970 ≤ q →
        (s.scan d).2.tokens = [] ∧
          (s.scan d).1.errors = [⟨.decimalOutOfRange d, .origin, d.utf8ByteSize⟩]) ∧
      (q < 2 ^ 1024 - 2 ^ 970 →
        ∃ x : Binary64, x.IsNearest q ∧
          (s.scan d).2.tokens = [⟨.number, d, some (.decimal x), .origin, d.utf8ByteSize⟩] ∧
          (s.scan d).1.errors = []) ∧
      ∀ whole' fraction' : String, IsDigits whole'.toList → IsDigits fraction'.toList →
        Text.decimalValue whole'.toList fraction'.toList = q →
        (s.scan (whole' ++ "." ++ fraction')).2.tokens.map Token.literal? =
          (s.scan d).2.tokens.map Token.literal? := by
  intro d q
  obtain ⟨htokens, herrors⟩ := found_scan_decimal s hwhole hfraction
  have hnone := Binary64.ofDecimal?_eq_none_iff hwhole hfraction
  refine ⟨fun hge => ?_, fun hlt => ?_, fun whole' fraction' hwhole' hfraction' hq => ?_⟩
  · rw [hnone.2 hge] at htokens herrors
    exact ⟨htokens, herrors⟩
  · obtain ⟨x, hx⟩ := Option.ne_none_iff_exists'.1 fun h => not_lt_of_ge (hnone.1 h) hlt
    rw [hx] at htokens herrors
    exact ⟨x, (Binary64.readsAs_of_ofDecimal? hwhole hfraction hx).isNearest, htokens, herrors⟩
  · obtain ⟨htokens', -⟩ := found_scan_decimal s hwhole' hfraction'
    rw [htokens, htokens', Binary64.ofDecimal?_congr hwhole' hfraction' hwhole hfraction hq]
    cases Binary64.ofDecimal? whole.toList fraction.toList <;> rfl

/-- Half way between two numbers the even one is taken, also with zeros at both ends; and the least
    whole number that is out of range is, written as a decimal. -/
theorem scan_decimal_half_way :
    let tie := "9007199254740993"
    let limit := String.ofList (Nat.toDigits 10 (2 ^ 1024 - 2 ^ 970))
    (IsDigits tie.toList ∧ IsDigits "0".toList ∧ IsDigits "00".toList ∧ IsDigits limit.toList) ∧
      Text.decimalValue tie.toList "0".toList < 2 ^ 1024 - 2 ^ 970 ∧
      (∃ x : Binary64, x.word = 0x4340000000000000 ∧ x.IsNearest (2 ^ 53 + 1) ∧
        (scan {} (tie ++ "." ++ "0")).2.tokens =
          [⟨.number, tie ++ "." ++ "0", some (.decimal x), .origin, 18⟩] ∧
        (scan {} (tie ++ "." ++ "0")).1.errors = [] ∧
        (scan {} ("0" ++ tie ++ "." ++ "00")).2.tokens.map Token.literal? = [some (.decimal x)]) ∧
      2 ^ 1024 - 2 ^ 970 ≤ Text.decimalValue limit.toList "0".toList ∧
      (scan {} (limit ++ "." ++ "0")).2.tokens = [] ∧
      (scan {} (limit ++ "." ++ "0")).1.errors =
        [⟨.decimalOutOfRange (limit ++ "." ++ "0"), .origin,
          (limit ++ "." ++ "0").utf8ByteSize⟩] := by
  intro tie limit
  have htie : IsDigits tie.toList := ⟨by decide, List.all_eq_true.1 (by decide)⟩
  have htie' : IsDigits ("0" ++ tie).toList := ⟨by decide, List.all_eq_true.1 (by decide)⟩
  have hzero : IsDigits "0".toList := ⟨by decide, List.all_eq_true.1 (by decide)⟩
  have hzeros : IsDigits "00".toList := ⟨by decide, List.all_eq_true.1 (by decide)⟩
  have hlimit : IsDigits limit.toList := by
    rw [String.toList_ofList]
    exact ⟨Nat.toDigits_ne_nil, fun _ => Nat.isDigit_of_mem_toDigits (by decide) (by decide)⟩
  have hfraction : Text.decimalNumber "0".toList = 0 := Text.decimalNumber_zeros 1
  have hvalue : Text.decimalValue tie.toList "0".toList = 2 ^ 53 + 1 := by
    have hwhole : Text.decimalNumber tie.toList = 2 ^ 53 + 1 := by decide +kernel
    rw [Text.decimalValue, hwhole, hfraction]
    norm_num
  have hvalue' : Text.decimalValue ("0" ++ tie).toList "00".toList = 2 ^ 53 + 1 := by
    rw [String.toList_append]
    exact (Text.decimalValue_zeros 1 1 tie.toList "0".toList).trans hvalue
  have hlt : Text.decimalValue tie.toList "0".toList < 2 ^ 1024 - 2 ^ 970 := by
    have hpower : (1 : ℚ) ≤ 2 ^ 970 := one_le_pow₀ (by decide)
    have hdouble : (2 : ℚ) ^ 1024 = 2 ^ 54 * 2 ^ 970 := pow_add 2 54 970
    rw [hvalue, hdouble]
    generalize (2 : ℚ) ^ 970 = power at hpower ⊢
    linarith
  have hge : 2 ^ 1024 - 2 ^ 970 ≤ Text.decimalValue limit.toList "0".toList := by
    have hwhole : Text.decimalNumber limit.toList = 2 ^ 1024 - 2 ^ 970 := by
      rw [← Text.ofDigitChars_eq_decimalNumber hlimit.2, String.toList_ofList,
        Nat.ofDigitChars_ten_toDigits]
    have hpower (n : Nat) : ((2 ^ n : Nat) : ℚ) = 2 ^ n := Nat.cast_pow 2 n
    have hle {m n : Nat} (h : m ≤ n) : 2 ^ m ≤ 2 ^ n := Nat.pow_le_pow_right (by decide) h
    rw [Text.decimalValue, hwhole, hfraction, Nat.cast_zero, zero_div, add_zero,
      Nat.cast_sub (hle (by decide)), hpower, hpower]
  obtain ⟨-, hfound, hequal⟩ := scan_decimal {} htie hzero
  obtain ⟨x, hx, htokens, herrors⟩ := hfound hlt
  have hbits := hequal ("0" ++ tie) "00" htie' hzeros (hvalue'.trans hvalue.symm)
  have heval : (scan {} (tie ++ "." ++ "0")).2.tokens =
      [⟨.number, tie ++ "." ++ "0", some (.decimal ⟨0x4340000000000000, by decide⟩), .origin,
        18⟩] := by decide +kernel
  obtain rfl : x = ⟨0x4340000000000000, by decide⟩ := by
    rw [htokens] at heval
    simpa using congrArg (List.map Token.literal?) heval
  rw [hvalue] at hx
  rw [heval] at hbits
  obtain ⟨hnone, hreport⟩ := (scan_decimal {} hlimit hzero).1 hge
  exact ⟨⟨htie, hzero, hzeros, hlimit⟩, hlt, ⟨_, rfl, hx, heval, herrors, hbits⟩, hge, hnone,
    hreport⟩

end Scanner

end Lexis

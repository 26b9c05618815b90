import Lexis.Proofs.Composition
import Lexis.Proofs.Cut
import Mathlib.Data.List.Induction
import Mathlib.Data.Nat.Digits.Defs

set_option autoImplicit false

/-! # Numbers in a source text

A run of digits at which the scan takes a step is a number by itself, whatever stands on its two
sides: the text before it is scanned as if it ended there, and the text behind it as if it started
there (`Trace.ofText_integer`). So it is one token with the number that the digits denote, or, if
that is beyond the greatest integer, one error over the whole run, and nothing else is found in
it (`Scanner.scan_integer`).

What digits denote is told by places: the last digit counts once, the one before it ten times, and
so on. Reading goes the other way, from the first digit on, and each digit multiplies what was read
by ten; both give the same number, however many zeros stand at the front. -/

namespace Lexis

/-! ## What digits denote -/

namespace Text

/-- The number that decimal digits denote: each digit counts by its place among the ten, the last
    one as it is. -/
def decimalNumber (digits : List Char) : Nat :=
  Nat.ofDigits 10 (digits.map fun c => "0123456789".toList.idxOf c).reverse

theorem toNat_sub_eq_idxOf {c : Char} (h : c.isDigit = true) :
    c.toNat - '0'.toNat = "0123456789".toList.idxOf c := by
  obtain ⟨hlow, hhigh⟩ := bounds_of_isDigit h
  have hall : ∀ n < 10, n = "0123456789".toList.idxOf (Char.ofNat (48 + n)) := by decide
  have hvalue := hall (c.toNat - 48) (by omega)
  rw [show 48 + (c.toNat - 48) = c.toNat by omega, Char.ofNat_toNat] at hvalue
  exact hvalue

theorem ofDigitChars_eq_decimalNumber {digits : List Char}
    (h : ∀ c ∈ digits, c.isDigit = true) : Nat.ofDigitChars 10 digits 0 = decimalNumber digits := by
  -- the last digit counts once, so the induction takes it off
  induction digits using List.reverseRecOn with
  | nil => rfl
  | append_singleton digits d ih =>
      have hinit := ih fun c hc => h c (List.mem_append_left _ hc)
      have hlast := toNat_sub_eq_idxOf (h d (by simp))
      rw [Nat.ofDigitChars_append, Nat.ofDigitChars_cons, Nat.ofDigitChars_nil, hinit, hlast,
        decimalNumber, decimalNumber, List.map_append, List.reverse_append]
      exact Nat.add_comm ..

end Text

/-! ## Runs of digits -/

/-- A run of digits in a text, as long as it can be and not followed by a point and a digit, where a
    scan of the text takes a step. -/
structure IsIntegerAt (before digits behind : List Char) : Prop where
  isDigits : IsDigits digits
  maximal : ∀ c ∈ behind.head?, c.isDigit = false
  no_fraction : ∀ c, ['.', c] <+: behind → c.isDigit = false
  is_step : ∃ p ∈ Trace.ofText (before ++ digits ++ behind), p.start.offset = Text.size before

variable {before digits behind : List Char}

theorem IsIntegerAt.endsBefore (h : IsIntegerAt before digits behind) :
    (Segment.integer digits).EndsBefore behind := by
  refine ⟨h.isDigits, ?_⟩
  cases behind with
  | nil => rfl
  | cons c rest =>
      have hdigit : c.isDigit = false := h.maximal c rfl
      simp only [Segment.goesOn, hdigit, Bool.false_or, Bool.and_eq_false_iff,
        decide_eq_false_iff_not]
      by_cases hpoint : c = '.'
      · subst hpoint
        cases rest with
        | nil => exact .inr rfl
        | cons d rest => exact .inr (h.no_fraction d ⟨rest, rfl⟩)
      · exact .inl hpoint

/-- What a run of digits at a place is: a token with the number that they denote, or an error if
    that is beyond the greatest integer. -/
theorem Placed.found_integer (h : IsDigits digits) (start : Position) :
    let p : Placed Segment := ⟨start, .integer digits⟩
    let n := Text.decimalNumber digits
    let stop := start.after digits
    p.token?.toList =
        (if n ≤ Segment.maxInteger then
          [⟨.number, String.ofList digits, some (.integer n), start, stop.offset⟩] else []) ∧
      p.errors =
        (if n ≤ Segment.maxInteger then []
          else [⟨.integerOutOfRange (String.ofList digits), start, stop.offset⟩]) := by
  intro p n stop
  have hvalue : Segment.integerValue? digits = if n ≤ Segment.maxInteger then some n else none := by
    rw [Segment.integerValue?, Text.ofDigitChars_eq_decimalNumber h.2]
  have hstop : stop.offset = start.offset + Text.size digits := start.offset_after digits
  have hitems : escapeErrors start p.piece.items = [] := rfl
  by_cases hle : n ≤ Segment.maxInteger
  · rw [if_pos hle] at hvalue
    simp [token?, errors, hitems, ownError?, p, Segment.token?, Segment.fault?, Segment.text,
      hvalue, hle, hstop]
  · rw [if_neg hle] at hvalue
    simp [token?, errors, hitems, ownError?, p, Segment.token?, Segment.fault?, hvalue, hle, hstop]

namespace Trace

/-- Where a scan takes a step its trace can be cut. -/
theorem exists_of_is_step {as bs : List Char}
    (h : ∃ p ∈ ofText (as ++ bs), p.start.offset = Text.size as) :
    ofText (as ++ bs) =
      ofText as ++ place Segment.text (Position.origin.after as) (Segment.readAll bs) := by
  obtain ⟨p, hp, hoffset⟩ := h
  obtain ⟨earlier, later, htrace⟩ := List.append_of_mem hp
  obtain ⟨as', bs', htext, rfl, hlater⟩ := ofText_of_append htrace
  -- the step that starts at the offset is the first one behind the cut
  have hstart : p.start = Position.origin.after as' := by
    cases hsegments : Segment.readAll bs' with
    | nil => simp [hsegments, place] at hlater
    | cons segment segments =>
        rw [hsegments] at hlater
        rw [(List.cons.inj hlater).1]
  have hsize : Text.size as' = Text.size as := by
    rw [← hoffset, hstart, Position.offset_after, Position.offset_origin, Nat.zero_add]
  obtain ⟨rfl, rfl⟩ := Text.append_inj_of_size htext hsize.symm
  rw [htrace, hlater]

/-- A run of digits is one step between the traces of two texts. -/
theorem ofText_integer (h : IsIntegerAt before digits behind) :
    ofText (before ++ digits ++ behind) =
      ofText before ++ ⟨Position.origin.after before, .integer digits⟩ ::
        place Segment.text (Position.origin.after (before ++ digits)) (Segment.readAll behind) := by
  have hstep := h.is_step
  rw [List.append_assoc] at hstep
  have hread := Segment.readAll_text_append h.endsBefore
  rw [Segment.text] at hread
  rw [List.append_assoc, exists_of_is_step hstep, hread, place, Position.after_append]
  rfl

end Trace

namespace Scanner

/-- A run of digits that is not the start of a decimal is one token, whose value is the number that
    the digits denote, or one error over the whole run if that number is no signed 64-bit integer.
    The texts on its two sides are scanned as if they stood alone, the one behind it shifted to
    start right behind the digits. -/
theorem scan_integer (s : Scanner) {before digits behind : String}
    (h : IsIntegerAt before.toList digits.toList behind.toList) :
    let source := before ++ digits ++ behind
    let n := Text.decimalNumber digits.toList
    let start := Position.origin.after before.toList
    let stop := Position.origin.after (before.toList ++ digits.toList)
    (s.scan source).2.tokens =
        (s.scan before).2.tokens ++
          (if n ≤ 2 ^ 63 - 1 then [⟨.number, digits, some (.integer n), start, stop.offset⟩]
            else []) ++
          (s.scan behind).2.tokens.map (Token.shift stop) ∧
      (s.scan source).1.errors =
        (s.scan before).1.errors ++
          (if n ≤ 2 ^ 63 - 1 then [] else [⟨.integerOutOfRange digits, start, stop.offset⟩]) ++
          (s.scan behind).1.errors.map (LexError.shift stop) := by
  intro source n start stop
  have htrace := Trace.ofText_integer h
  have hsource : source.toList = before.toList ++ digits.toList ++ behind.toList := by simp [source]
  have hmax : Segment.maxInteger = 2 ^ 63 - 1 := by decide
  obtain ⟨htoken, herror⟩ := Placed.found_integer h.isDigits start
  rw [String.ofList_toList, hmax, ← Position.after_append] at htoken herror
  rw [tokens_scan, tokens_scan, tokens_scan, errors_scan, errors_scan, errors_scan, hsource, htrace,
    Trace.tokens_append, Trace.errors_append, Trace.tokens_cons, Trace.errors_cons,
    Trace.tokens_place_after, Trace.errors_place_after, htoken, herror, List.append_assoc,
    List.append_assoc]
  exact ⟨rfl, rfl⟩

/-- The greatest integer and the next one, with zeros at the front, on the second line between
    errors and a point that no digit follows. -/
theorem scan_integer_greatest :
    IsIntegerAt "~\n-".toList "009223372036854775807".toList ".`".toList ∧
      (scan {} "~\n-009223372036854775807.`").2.tokens =
        [⟨.symbol .minus, "-", none, ⟨2, 2, 1⟩, 3⟩,
         ⟨.number, "009223372036854775807", some (.integer (2 ^ 63 - 1)), ⟨3, 2, 2⟩, 24⟩,
         ⟨.symbol .dot, ".", none, ⟨24, 2, 23⟩, 25⟩] ∧
      (scan {} "~\n-009223372036854775807.`").1.errors =
        [⟨.unexpectedCharacter '~', ⟨0, 1, 1⟩, 1⟩, ⟨.unexpectedCharacter '`', ⟨25, 2, 24⟩, 26⟩] ∧
    IsIntegerAt "~\n-".toList "009223372036854775808".toList ".`".toList ∧
      (scan {} "~\n-009223372036854775808.`").2.tokens =
        [⟨.symbol .minus, "-", none, ⟨2, 2, 1⟩, 3⟩, ⟨.symbol .dot, ".", none, ⟨24, 2, 23⟩, 25⟩] ∧
      (scan {} "~\n-009223372036854775808.`").1.errors =
        [⟨.unexpectedCharacter '~', ⟨0, 1, 1⟩, 1⟩,
         ⟨.integerOutOfRange "009223372036854775808", ⟨3, 2, 2⟩, 24⟩,
         ⟨.unexpectedCharacter '`', ⟨25, 2, 24⟩, 26⟩] := by
  have hat : IsIntegerAt "~\n-".toList "009223372036854775807".toList ".`".toList :=
    { isDigits := ⟨by decide, List.all_eq_true.1 (by decide)⟩
      maximal := by simp
      no_fraction := by simp
      is_step := ⟨⟨⟨3, 2, 2⟩, .integer "009223372036854775807".toList⟩, by decide +kernel, rfl⟩ }
  have hbeyond : IsIntegerAt "~\n-".toList "009223372036854775808".toList ".`".toList :=
    { isDigits := ⟨by decide, List.all_eq_true.1 (by decide)⟩
      maximal := by simp
      no_fraction := by simp
      is_step := ⟨⟨⟨3, 2, 2⟩, .integer "009223372036854775808".toList⟩, by decide +kernel, rfl⟩ }
  obtain ⟨htokens, herrors⟩ := scan_integer {} hat
  obtain ⟨htokens', herrors'⟩ := scan_integer {} hbeyond
  exact ⟨hat, htokens.trans (by decide +kernel), herrors.trans (by decide +kernel), hbeyond,
    htokens'.trans (by decide +kernel), herrors'.trans (by decide +kernel)⟩

end Scanner

end Lexis

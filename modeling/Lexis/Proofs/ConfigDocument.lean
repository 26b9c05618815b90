import Lexis.Proofs.Reader
import Mathlib.Data.List.DropRight

set_option autoImplicit false

/-! # The documents of configurations

Which texts describe a configuration is told by a grammar over the tokens of JSON, with blanks
around them: an empty object or array, an object with the one field, or an array with the one value.
`ScanConfig.ofDocument_eq_ok_iff` says that reading a text gives a configuration exactly if the
grammar does. Each reading function has an equivalence of its own, between what it yields and the
tokens that the text starts with; those of the parts make up those of the whole. -/

namespace Lexis.Config

/-! ## The grammar -/

/-- The blanks of JSON. -/
def IsBlanks (cs : List Char) : Prop := ∀ c ∈ cs, c = ' ' ∨ c = '\t' ∨ c = '\n' ∨ c = '\r'

/-- Tokens before `rest`, with blanks before each of them. -/
inductive Spaced (rest : List Char) : List (List Char) → List Char → Prop
  | nil : Spaced rest [] rest
  | cons {blanks token text : List Char} {tokens : List (List Char)} :
      IsBlanks blanks → Spaced rest tokens text →
        Spaced rest (token :: tokens) (blanks ++ (token ++ text))

/-- The two ways to write a character of the key: as it is, or by the four hexadecimal digits of its
    code point. -/
inductive SpellsChar (c : Char) : List Char → Prop
  | plain : SpellsChar c [c]
  | escaped {digits : List Char} : digits.length = 4 → (∀ d ∈ digits, d.isHexDigit = true) →
      Text.hexNumber digits = c.toNat → SpellsChar c ('\\' :: 'u' :: digits)

/-- A text between the quotes of a string, for the word that the string is. -/
inductive Spells : List Char → List Char → Prop
  | nil : Spells [] []
  | cons {c : Char} {word piece text : List Char} :
      SpellsChar c piece → Spells word text → Spells (c :: word) (piece ++ text)

/-- The number that stands for a flag. -/
def numeral (f : Flag) : Char := if f.isEnabled then '1' else '0'

/-- The tokens of an array behind its opening bracket. -/
inductive ArrayTokens : List (List Char) → ScanConfig → Prop
  | empty : ArrayTokens [[']']] {}
  | value (flag : Flag) : ArrayTokens [[numeral flag], [']']] { logLexingPass := flag }

/-- The tokens of an object behind its opening brace. -/
inductive ObjectTokens : List (List Char) → ScanConfig → Prop
  | empty : ObjectTokens [['\x7d']] {}
  | field {key : List Char} (flag : Flag) : Spells ScanConfig.fieldName.toList key →
      ObjectTokens ['"' :: (key ++ ['"']), [':'], [numeral flag], ['\x7d']]
        { logLexingPass := flag }

/-- The tokens of a document. -/
inductive DocumentTokens : List (List Char) → ScanConfig → Prop
  | array {tokens : List (List Char)} {config : ScanConfig} :
      ArrayTokens tokens config → DocumentTokens (['['] :: tokens) config
  | object {tokens : List (List Char)} {config : ScanConfig} :
      ObjectTokens tokens config → DocumentTokens (['\x7b'] :: tokens) config

/-- A text that describes a configuration. -/
def Describes (text : List Char) (config : ScanConfig) : Prop :=
  ∃ tokens blanks, DocumentTokens tokens config ∧ IsBlanks blanks ∧ Spaced blanks tokens text

/-! ## Blanks -/

theorem isBlanks_iff {cs : List Char} : IsBlanks cs ↔ ∀ c ∈ cs, Text.isBlank c = true := by
  simp only [IsBlanks, Text.isBlank_iff]
  grind

/-- Blanks are read up to the token that stands behind them. -/
theorem spaced_cons_iff {rest token cs : List Char} {tokens : List (List Char)}
    (h : ∃ c tail, token = c :: tail ∧ Text.isBlank c = false) :
    Spaced rest (token :: tokens) cs ↔
      ∃ text, cs.dropWhile Text.isBlank = token ++ text ∧ Spaced rest tokens text := by
  constructor
  · intro hspaced
    cases hspaced with
    | @cons blanks _ text _ hblanks htext =>
        obtain ⟨c, tail, rfl, hc⟩ := h
        refine ⟨text, ?_, htext⟩
        exact Text.dropWhile_run (isBlanks_iff.1 hblanks) fun d hd => by
          obtain rfl : c = d := Option.some.inj hd
          exact hc
  · rintro ⟨text, hdrop, htext⟩
    rw [← cs.takeWhile_append_dropWhile (p := Text.isBlank), hdrop]
    exact .cons (isBlanks_iff.2 fun c hc => List.all_eq_true.1 List.all_takeWhile c hc) htext

theorem spaced_nil_iff {rest cs : List Char} : Spaced rest [] cs ↔ cs = rest := by
  constructor
  · intro h
    cases h
    rfl
  · rintro rfl
    exact .nil

namespace Reader

/-! ## Keys -/

theorem toNat_ofNat_of_isWordPart {n : Nat} (h : Text.isWordPart (Char.ofNat n) = true) :
    (Char.ofNat n).toNat = n := by
  by_cases hvalid : n.isValidChar
  · rw [Char.ofNat, dif_pos hvalid]
    rfl
  · rw [Char.ofNat, dif_neg hvalid] at h
    exact absurd h (by decide)

theorem toNat_lt_of_isWordPart {c : Char} (h : Text.isWordPart c = true) : c.toNat < 128 := by
  by_cases hdigit : c.isDigit = true
  · have hbounds := Text.bounds_of_isDigit hdigit
    omega
  · have hstart : Text.isWordStart c = true := by
      rw [Text.isWordPart, Char.isAlphanum, Bool.eq_false_iff.2 hdigit, Bool.or_false] at h
      exact h
    have hbounds := Text.bounds_of_isWordStart hstart
    omega

/-- What is escaped by a letter, or by two halves of a code point, is no character of a word. -/
theorem isWordPart_of_lookup {c value : Char} (h : simpleEscapes.lookup c = some value) :
    Text.isWordPart value = false := by
  obtain ⟨before, behind, hsplit, -⟩ := List.lookup_eq_some_iff.1 h
  have hall : ∀ p ∈ simpleEscapes, Text.isWordPart p.2 = false := by decide
  exact hall (c, value) (hsplit ▸ by simp)

theorem isWordPart_of_secondHalf {first : Nat} {cs : List Char} {c : Char}
    (h : secondHalf first cs = .ok c) : Text.isWordPart c = false := by
  unfold secondHalf at h
  split at h
  · simp at h
  · simp at h
  · next cs =>
      cases hunit : hexUnit cs with
      | error e => simp [hunit, Except.mapError, bind, Except.bind] at h
      | ok second =>
          simp only [hunit, Except.mapError, bind, Except.bind] at h
          split at h
          · obtain rfl := Except.ok.inj h
            rw [Bool.eq_false_iff]
            intro hword
            have hvalue := toNat_ofNat_of_isWordPart hword
            have hlt := toNat_lt_of_isWordPart hword
            omega
          · simp at h
  · simp at h
  · simp at h

/-- A character of a word is escaped in one way. -/
theorem readEscape_eq_ok_iff {cs : List Char} {c : Char} {n : Nat}
    (hc : Text.isWordPart c = true) :
    readEscape cs = .ok (c, n) ↔ n = 5 ∧ ∃ digits tail, cs = 'u' :: (digits ++ tail) ∧
      digits.length = 4 ∧ (∀ d ∈ digits, d.isHexDigit = true) ∧
      Text.hexNumber digits = c.toNat := by
  constructor
  · intro h
    unfold readEscape at h
    split at h
    · simp at h
    · next cs =>
        cases hunit : hexUnit cs with
        | error e => simp [hunit, Except.mapError, bind, Except.bind] at h
        | ok unit =>
            simp only [hunit, Except.mapError, bind, Except.bind] at h
            split at h
            · simp at h
            split at h
            · cases hsecond : secondHalf unit (cs.drop 4) with
              | error e => simp [hsecond] at h
              | ok second =>
                  simp only [hsecond] at h
                  obtain ⟨rfl, -⟩ := Prod.mk.inj (Except.ok.inj h)
                  rw [isWordPart_of_secondHalf hsecond] at hc
                  simp at hc
            · obtain ⟨rfl, rfl⟩ := Prod.mk.inj (Except.ok.inj h)
              obtain ⟨digits, tail, rfl, hlength, hall, hnumber⟩ := hexUnit_eq_ok_iff.1 hunit
              rw [toNat_ofNat_of_isWordPart hc]
              exact ⟨rfl, digits, tail, rfl, hlength, hall, hnumber⟩
    · split at h
      · next value hvalue =>
          obtain ⟨rfl, -⟩ := Prod.mk.inj (Except.ok.inj h)
          rw [isWordPart_of_lookup hvalue] at hc
          simp at hc
      · simp at h
  · rintro ⟨rfl, digits, tail, rfl, hlength, hall, hnumber⟩
    have hlt := toNat_lt_of_isWordPart hc
    exact readEscape_unit hlength hall hnumber (by omega)

theorem ne_of_isWordPart {c : Char} (h : Text.isWordPart c = true) :
    c ≠ '"' ∧ c ≠ '\\' ∧ ¬ c.toNat < 0x20 := by
  refine ⟨Text.ne_of_class h (by decide), Text.ne_of_class h (by decide), fun hlt => ?_⟩
  have hall : ∀ n < 0x20, Text.isWordPart (Char.ofNat n) = false := by decide
  have hcontrol := hall c.toNat hlt
  rw [Char.ofNat_toNat, h] at hcontrol
  simp at hcontrol

/-- A string that is a word is read from a text that spells it. -/
theorem exists_spells {r : Reader} {word rest : List Char}
    (hword : ∀ c ∈ word, Text.isWordPart c = true) (h : Yields r.readString word rest) :
    ∃ text, Spells word text ∧ r.ahead = text ++ '"' :: rest := by
  fun_induction readString r generalizing word with
  | case1 => exact absurd h not_yields_error
  | case2 r cs hahead =>
      obtain ⟨rfl, hrest⟩ := yields_ok_iff.1 h
      rw [ahead_skip, hahead] at hrest
      obtain rfl : cs = rest := hrest
      exact ⟨[], .nil, hahead⟩
  | case3 => exact absurd h not_yields_error
  | case4 r cs c length hescape hahead _ ih =>
      obtain ⟨tail, rfl, htail⟩ := yields_cons_iff.1 h
      obtain ⟨text, hspells, hrest⟩ := ih (fun d hd => hword d (List.mem_cons_of_mem _ hd)) htail
      obtain ⟨rfl, digits, behind, rfl, hlength, hall, hnumber⟩ :=
        (readEscape_eq_ok_iff (hword c (List.mem_cons_self ..))).1 hescape
      have hbehind : behind = text ++ '"' :: rest := by
        rw [← hrest, ahead_skip, hahead]
        exact (List.drop_left' hlength).symm
      refine ⟨_, .cons (.escaped hlength hall hnumber) hspells, ?_⟩
      rw [hahead, hbehind]
      simp
  | case5 => exact absurd h not_yields_error
  | case6 r c cs hahead _ _ _ ih =>
      obtain ⟨tail, rfl, htail⟩ := yields_cons_iff.1 h
      obtain ⟨text, hspells, hrest⟩ := ih (fun d hd => hword d (List.mem_cons_of_mem _ hd)) htail
      refine ⟨_, .cons .plain hspells, ?_⟩
      rw [ahead_skip, hahead] at hrest
      rw [hahead, List.append_assoc, ← hrest]
      rfl

/-- A text that spells a word is read as that word, however it spells it. -/
theorem yields_readString_of_spells {word text : List Char} (h : Spells word text)
    (hword : ∀ c ∈ word, Text.isWordPart c = true) (rest : List Char) (offset : Nat) :
    Yields (readString ⟨text ++ '"' :: rest, offset⟩) word rest := by
  induction h generalizing offset with
  | nil =>
      rw [readString]
      exact yields_ok_iff.2 ⟨rfl, rfl⟩
  | @cons c word piece text hpiece hspells ih =>
      have hc := hword c (List.mem_cons_self ..)
      have ih := ih fun d hd => hword d (List.mem_cons_of_mem _ hd)
      rw [List.append_assoc]
      cases hpiece with
      | plain => exact yields_readString_plain (ne_of_isWordPart hc) ih offset
      | @escaped digits hlength hall hnumber =>
          have hescape : readEscape (('u' :: digits) ++ (text ++ '"' :: rest)) =
              .ok (c, ('u' :: digits).length) := by
            rw [List.length_cons, hlength]
            exact (readEscape_eq_ok_iff hc).2 ⟨rfl, digits, _, rfl, hlength, hall, hnumber⟩
          exact yields_readString_escape hescape ih offset

/-- A string is a word exactly if the text up to the closing quote spells it. -/
theorem yields_readString_iff {word rest : List Char}
    (hword : ∀ c ∈ word, Text.isWordPart c = true) (r : Reader) :
    Yields r.readString word rest ↔ ∃ text, Spells word text ∧ r.ahead = text ++ '"' :: rest := by
  refine ⟨exists_spells hword, ?_⟩
  rintro ⟨text, hspells, hahead⟩
  obtain ⟨ahead, offset⟩ := r
  obtain rfl : ahead = text ++ '"' :: rest := hahead
  exact yields_readString_of_spells hspells hword rest offset

/-! ## Flags -/

section

variable {flag : Flag} {rest : List Char}

theorem isDigit_numeral (flag : Flag) : (numeral flag).isDigit = true := by
  obtain ⟨isEnabled⟩ := flag
  cases isEnabled <;> rfl

theorem gather_numeral (flag : Flag) : gather 0 [numeral flag] = (1, flag.bit.toNat) := by
  obtain ⟨isEnabled⟩ := flag
  cases isEnabled <;> decide

theorem eq_numeral_of_digitValue {c : Char} (hc : c.isDigit = true)
    (h : digitValue c = flag.bit.toNat) : c = numeral flag := by
  have hbounds := Text.bounds_of_isDigit hc
  have hzero : '0'.toNat = 48 := rfl
  rw [← c.ofNat_toNat, show c.toNat = 48 + flag.bit.toNat by rw [digitValue] at h; omega]
  obtain ⟨isEnabled⟩ := flag
  cases isEnabled <;> rfl

/-- The number of a flag is written with a single digit. -/
theorem eq_numeral_of_ofDigitChars {digits : List Char} (h : IsDigits digits)
    (hvalue : flag.bit.toNat = Nat.ofDigitChars 10 digits 0)
    (hzero : ∀ d tail, digits ≠ '0' :: d :: tail) : digits = [numeral flag] := by
  obtain ⟨c, tail, rfl, hc, -⟩ := h.exists_cons
  rw [Nat.ofDigitChars_cons, Nat.mul_zero, Nat.zero_add,
    Nat.ofDigitChars_eq_ofDigitChars_zero] at hvalue
  cases tail with
  | nil =>
      rw [List.length_nil, Nat.pow_zero, Nat.one_mul, Nat.ofDigitChars_nil, Nat.add_zero] at hvalue
      rw [eq_numeral_of_digitValue hc hvalue.symm]
  | cons d tail =>
      -- the first digit is not zero, so it stands for ten at least
      have hpos : 0 < c.toNat - '0'.toNat := by
        refine Nat.pos_of_ne_zero fun hvalue => hzero d tail ?_
        have hnumeral : c = numeral .disabled := eq_numeral_of_digitValue hc hvalue
        rw [hnumeral]
        rfl
      have hpower := Nat.pow_pos (n := tail.length) (show 0 < 10 by decide)
      have hbit : flag.bit.toNat ≤ 1 := by
        obtain ⟨isEnabled⟩ := flag
        cases isEnabled <;> decide
      have hproduct := Nat.mul_le_mul (Nat.le_mul_of_pos_left 10 hpower) hpos
      rw [List.length_cons, Nat.pow_succ] at hvalue
      omega

theorem yields_readNumber_iff {r : Reader} :
    Yields r.readNumber (.unsigned flag.bit.toNat) rest ↔
      r.ahead = numeral flag :: rest ∧ EndsNumber rest := by
  constructor
  · intro h
    obtain ⟨digits, hahead, hdigits, hvalue, hzero, hend⟩ := exists_of_yields_readNumber h
    rw [hahead, eq_numeral_of_ofDigitChars hdigits hvalue hzero]
    exact ⟨rfl, hend⟩
  · rintro ⟨hahead, hend⟩
    have hsign : ¬ r.ahead.head? = some '-' := by
      rw [hahead]
      exact fun h => Text.ne_of_class (isDigit_numeral flag) (by decide) (Option.some.inj h)
    have hall : ∀ c ∈ [numeral flag], c.isDigit = true := by
      simpa using isDigit_numeral flag
    have hdigits : r.ahead.takeWhile Char.isDigit = [numeral flag] := by
      rw [hahead]
      exact Text.takeWhile_run hall fun c hc => (hend c hc).1
    have hstop : (r.skip [numeral flag].length).ahead = rest := by
      rw [ahead_skip, hahead]
      rfl
    rw [readNumber, if_neg hsign]
    unfold readUnsigned
    simp only [hdigits, hstop, gather_numeral]
    split
    · next h => simp at h
    · next h => simp at h
    · split
      · next h => exact absurd rfl (hend '.' (by rfl)).2.1
      · next h => exact absurd rfl (hend 'e' (by rfl)).2.2.1
      · next h => exact absurd rfl (hend 'E' (by rfl)).2.2.2
      · exact yields_ok_iff.2 ⟨rfl, hstop⟩

theorem flagOf_eq_ok_iff {n : Nat} (h : n < UInt32.size) :
    flagOf n = .ok flag ↔ n = flag.bit.toNat := by
  have hflag : flagOf n = .ok flag ↔ Flag.ofBit (UInt32.ofNat n) = .ok flag := by
    rw [flagOf]
    cases Flag.ofBit (UInt32.ofNat n) <;> simp [Except.mapError]
  rw [hflag, Flag.ofBit_eq_ok_iff, ← UInt32.toNat_inj, UInt32.toNat_ofNat_of_lt' h]

theorem yields_readFlag_iff {r : Reader} :
    Yields r.readFlag (.ok flag) rest ↔
      r.ahead.dropWhile Text.isBlank = numeral flag :: rest ∧ EndsNumber rest := by
  rw [← ahead_skipBlanks, ← yields_readNumber_iff]
  unfold readFlag
  simp only
  split
  · next hahead =>
      refine iff_of_false not_yields_error fun h => ?_
      rw [yields_readNumber_iff, hahead] at h
      simp at h
  · next c tail hahead =>
      split
      · refine (yields_bind_iff
          (P := fun number ahead => number = .unsigned flag.bit.toNat ∧ ahead = rest) ?_).trans ?_
        · rintro (n | n | ⟨isNegative, x⟩) stop
          · simp only
            split
            · next hlt =>
                rw [ConfigNumber.unsigned.injEq, ← flagOf_eq_ok_iff hlt]
                exact yields_ok_iff
            · next hge =>
                refine iff_of_false not_yields_error fun h => hge ?_
                rw [ConfigNumber.unsigned.inj h.1]
                exact flag.bit.toNat_lt
          · exact iff_of_false not_yields_error (by simp)
          · exact iff_of_false not_yields_error (by simp)
        · constructor
          · rintro ⟨_, _, h, rfl, rfl⟩
            exact h
          · exact fun h => ⟨_, _, h, rfl, rfl⟩
      · next hother =>
          refine iff_of_false not_yields_error fun h => hother (.inr ?_)
          rw [yields_readNumber_iff, hahead] at h
          rw [(List.cons.inj h.1).1]
          exact isDigit_numeral flag

end

/-! ## Arrays and objects -/

theorem dropWhile_skipBlanks (r : Reader) :
    r.skipBlanks.ahead.dropWhile Text.isBlank = r.skipBlanks.ahead := by
  rw [ahead_skipBlanks, List.dropWhile_idempotent]

/-- A closing bracket behind blanks ends a number. -/
theorem endsNumber_of_dropWhile {cs rest : List Char} {c : Char} (hc : c = ']' ∨ c = '\x7d')
    (h : cs.dropWhile Text.isBlank = c :: rest) : EndsNumber cs := by
  cases cs with
  | nil => simp at h
  | cons d cs =>
      intro d' hd'
      obtain rfl : d = d' := Option.some.inj hd'
      by_cases hblank : Text.isBlank d = true
      · rcases Text.isBlank_iff.1 hblank with rfl | rfl | rfl | rfl <;> decide
      · rw [List.dropWhile_cons_of_neg hblank] at h
        obtain ⟨rfl, -⟩ := List.cons.inj h
        rcases hc with rfl | rfl <;> decide

theorem isBlank_numeral (flag : Flag) : Text.isBlank (numeral flag) = false :=
  Text.isBlank_of_isDigit (isDigit_numeral flag)

theorem spaced_last_iff {rest cs : List Char} {c : Char} (hc : Text.isBlank c = false) :
    Spaced rest [[c]] cs ↔ cs.dropWhile Text.isBlank = c :: rest := by
  rw [spaced_cons_iff ⟨c, [], rfl, hc⟩]
  simp [spaced_nil_iff]

theorem spaced_arrayTokens_iff {config : ScanConfig} {rest cs : List Char} :
    (∃ tokens, ArrayTokens tokens config ∧ Spaced rest tokens cs) ↔
      (config = {} ∧ cs.dropWhile Text.isBlank = ']' :: rest) ∨
      ∃ flag ahead, config = { logLexingPass := flag } ∧
        cs.dropWhile Text.isBlank = numeral flag :: ahead ∧
        ahead.dropWhile Text.isBlank = ']' :: rest := by
  constructor
  · rintro ⟨tokens, htokens, hspaced⟩
    cases htokens with
    | empty => exact .inl ⟨rfl, (spaced_last_iff (by decide)).1 hspaced⟩
    | value flag =>
        obtain ⟨ahead, hahead, hspaced⟩ :=
          (spaced_cons_iff ⟨_, _, rfl, isBlank_numeral flag⟩).1 hspaced
        exact .inr ⟨flag, ahead, rfl, hahead, (spaced_last_iff (by decide)).1 hspaced⟩
  · rintro (⟨rfl, h⟩ | ⟨flag, ahead, rfl, hahead, h⟩)
    · exact ⟨_, .empty, (spaced_last_iff (by decide)).2 h⟩
    · exact ⟨_, .value flag, (spaced_cons_iff ⟨_, _, rfl, isBlank_numeral flag⟩).2
        ⟨ahead, hahead, (spaced_last_iff (by decide)).2 h⟩⟩

theorem endSequence_iff {r : Reader} {rest : List Char} :
    r.endSequence.1 = .ok () ∧ r.endSequence.2.ahead = rest ↔
      r.ahead.dropWhile Text.isBlank = ']' :: rest := by
  rw [← ahead_skipBlanks]
  unfold endSequence
  generalize r.skipBlanks = start
  simp only
  split
  · next h => simp [h]
  · next h => simp [h]
  · next h => split <;> simp [h]
  · next hbracket _ => exact iff_of_false (by simp) (hbracket rest)

theorem yields_behindFlag_iff {r : Reader} {result : Pending Flag} {config : ScanConfig}
    {rest : List Char} :
    Yields (match result with
      | .error cause => .error (r.endSequence.2.here cause)
      | .ok flag => do
        r.endSequence.1
        return ({ logLexingPass := flag }, r.endSequence.2)) config rest ↔
      ∃ flag, result = .ok flag ∧ config = { logLexingPass := flag } ∧
        r.ahead.dropWhile Text.isBlank = ']' :: rest := by
  rcases result with cause | flag
  · simp [not_yields_error]
  · simp only [Except.ok.injEq, exists_eq_left']
    rw [← endSequence_iff]
    obtain ⟨ending, stop⟩ := r.endSequence
    cases ending with
    | error e => simp [not_yields_error, bind, Except.bind]
    | ok =>
        refine yields_ok_iff.trans ?_
        simp [eq_comm]

theorem yields_readSequence_iff (r : Reader) {config : ScanConfig} {rest : List Char} :
    Yields r.readSequence config rest ↔
      ∃ tokens, ArrayTokens tokens config ∧ Spaced rest tokens r.ahead := by
  have hblanks := dropWhile_skipBlanks r
  rw [spaced_arrayTokens_iff, ← ahead_skipBlanks]
  unfold readSequence
  generalize r.skipBlanks = start at hblanks ⊢
  simp only
  split
  · next h => simp [h, not_yields_error]
  · next tail h =>
      rw [yields_ok_iff, h]
      constructor
      · rintro ⟨rfl, hrest⟩
        rw [ahead_skip, h] at hrest
        exact .inl ⟨rfl, congrArg _ hrest⟩
      · rintro (⟨rfl, hrest⟩ | ⟨flag, ahead, -, hahead, -⟩)
        · obtain ⟨-, rfl⟩ := List.cons.inj hrest
          exact ⟨rfl, by rw [ahead_skip, h]; rfl⟩
        · have hdigit := isDigit_numeral flag
          rw [← (List.cons.inj hahead).1] at hdigit
          exact absurd hdigit (by decide)
  · next hbracket =>
      refine (yields_bind_iff (P := fun result ahead => ∃ flag, result = .ok flag ∧
        config = { logLexingPass := flag } ∧ ahead.dropWhile Text.isBlank = ']' :: rest)
        fun result stop => yields_behindFlag_iff).trans ?_
      constructor
      · rintro ⟨_, ahead, h, flag, rfl, rfl, hend⟩
        rw [yields_readFlag_iff, hblanks] at h
        exact .inr ⟨flag, ahead, rfl, h.1, hend⟩
      · rintro (⟨-, hrest⟩ | ⟨flag, ahead, rfl, hahead, hend⟩)
        · exact absurd hrest (hbracket rest)
        · refine ⟨_, ahead, yields_readFlag_iff.2 ?_, flag, rfl, rfl, hend⟩
          rw [hblanks]
          exact ⟨hahead, endsNumber_of_dropWhile (.inl rfl) hend⟩

theorem leaves_readKey_iff {r : Reader} {tail rest : List Char} (h : r.ahead = '"' :: tail) :
    Leaves r.readKey rest ↔
      ∃ text, Spells ScanConfig.fieldName.toList text ∧ tail = text ++ '"' :: rest := by
  have hword : ∀ c ∈ ScanConfig.fieldName.toList, Text.isWordPart c = true :=
    List.all_eq_true.1 (by decide)
  have hstring : Yields (r.skip 1).readString ScanConfig.fieldName.toList rest ↔ _ :=
    yields_readString_iff hword (r.skip 1)
  rw [ahead_skip, h] at hstring
  refine Iff.trans ?_ hstring
  rw [readKey]
  cases (r.skip 1).readString with
  | error e => simp [Leaves, not_yields_error, bind, Except.bind]
  | ok pair =>
      obtain ⟨key, behind⟩ := pair
      refine Iff.trans ?_ yields_ok_iff.symm
      simp only [bind, Except.bind]
      split
      · next hkey => simp [Leaves, hkey, pure, Except.pure]
      · next hkey => simp [Leaves, hkey]

theorem leaves_readMapEnd_iff {r : Reader} {rest : List Char} :
    Leaves r.readMapEnd rest ↔ r.ahead.dropWhile Text.isBlank = '\x7d' :: rest := by
  rw [← ahead_skipBlanks]
  unfold readMapEnd
  generalize r.skipBlanks = start
  simp only
  split
  · next h => simp [Leaves, h]
  · next h => simp [Leaves, h]
  · next h =>
      refine iff_of_false ?_ (by simp [h])
      split
      · simp [Leaves]
      · -- a second member is refused, whatever its key is
        cases (start.skip 1).skipBlanks.readKey <;> simp [Leaves, bind, Except.bind]
      · simp [Leaves]
      · simp [Leaves]
  · next hbrace _ => exact iff_of_false (by simp [Leaves]) (hbrace rest)

theorem yields_readValue_iff {r : Reader} {flag : Flag} {rest : List Char} :
    Yields r.readValue flag rest ↔ ∃ ahead, r.ahead.dropWhile Text.isBlank = ':' :: ahead ∧
      ahead.dropWhile Text.isBlank = numeral flag :: rest ∧ EndsNumber rest := by
  rw [← ahead_skipBlanks]
  unfold readValue
  generalize r.skipBlanks = start
  simp only
  split
  · next h => simp [h, not_yields_error]
  · next tail h =>
      refine (yields_bind_iff
        (P := fun (result : Pending Flag) ahead => result = .ok flag ∧ ahead = rest) ?_).trans ?_
      · rintro (cause | flag') stop
        · simp [not_yields_error]
        · exact yields_ok_iff.trans (by simp)
      · constructor
        · rintro ⟨_, _, hflag, rfl, rfl⟩
          rw [yields_readFlag_iff, ahead_skip, h] at hflag
          exact ⟨tail, h, hflag⟩
        · rintro ⟨ahead, hahead, hflag⟩
          refine ⟨_, _, yields_readFlag_iff.2 ?_, rfl, rfl⟩
          rw [ahead_skip, hahead]
          exact hflag
  · next hcolon => exact iff_of_false not_yields_error fun ⟨ahead, hahead, _⟩ => hcolon ahead hahead

/-- What stands behind the key of an object. -/
def EndsObject (config : ScanConfig) (cs rest : List Char) : Prop :=
  ∃ flag behindColon behindFlag, config = { logLexingPass := flag } ∧
    cs.dropWhile Text.isBlank = ':' :: behindColon ∧
    behindColon.dropWhile Text.isBlank = numeral flag :: behindFlag ∧
    behindFlag.dropWhile Text.isBlank = '\x7d' :: rest

theorem spaced_objectTokens_iff {config : ScanConfig} {rest cs : List Char} :
    (∃ tokens, ObjectTokens tokens config ∧ Spaced rest tokens cs) ↔
      (config = {} ∧ cs.dropWhile Text.isBlank = '\x7d' :: rest) ∨
      ∃ key behindKey, Spells ScanConfig.fieldName.toList key ∧
        cs.dropWhile Text.isBlank = '"' :: (key ++ '"' :: behindKey) ∧
        EndsObject config behindKey rest := by
  constructor
  · rintro ⟨tokens, htokens, hspaced⟩
    cases htokens with
    | empty => exact .inl ⟨rfl, (spaced_last_iff (by decide)).1 hspaced⟩
    | @field key flag hkey =>
        obtain ⟨behindKey, hbehind, hspaced⟩ := (spaced_cons_iff ⟨_, _, rfl, by decide⟩).1 hspaced
        obtain ⟨behindColon, hcolon, hspaced⟩ := (spaced_cons_iff ⟨_, _, rfl, by decide⟩).1 hspaced
        obtain ⟨behindFlag, hflag, hspaced⟩ :=
          (spaced_cons_iff ⟨_, _, rfl, isBlank_numeral flag⟩).1 hspaced
        exact .inr ⟨key, behindKey, hkey, by simpa using hbehind, flag, behindColon, behindFlag,
          rfl, hcolon, hflag, (spaced_last_iff (by decide)).1 hspaced⟩
  · rintro (⟨rfl, h⟩ | ⟨key, behindKey, hkey, hbehind, flag, behindColon, behindFlag, rfl, hcolon,
      hflag, h⟩)
    · exact ⟨_, .empty, (spaced_last_iff (by decide)).2 h⟩
    · refine ⟨_, .field flag hkey, (spaced_cons_iff ⟨_, _, rfl, by decide⟩).2 ⟨behindKey, ?_, ?_⟩⟩
      · simpa using hbehind
      · exact (spaced_cons_iff ⟨_, _, rfl, by decide⟩).2 ⟨behindColon, hcolon,
          (spaced_cons_iff ⟨_, _, rfl, isBlank_numeral flag⟩).2 ⟨behindFlag, hflag,
            (spaced_last_iff (by decide)).2 h⟩⟩

theorem yields_behindKey_iff {r : Reader} {config : ScanConfig} {rest : List Char} :
    Yields (do
        let value ← r.readValue
        let stop ← value.2.readMapEnd
        return ({ logLexingPass := value.1 }, stop)) config rest ↔
      EndsObject config r.ahead rest := by
  refine (yields_bind_iff (P := fun flag ahead => config = { logLexingPass := flag } ∧
    ahead.dropWhile Text.isBlank = '\x7d' :: rest) fun flag behind => ?_).trans ?_
  · refine (yields_bind_leaves_iff (P := fun ahead => config = { logLexingPass := flag } ∧
      ahead = rest) fun stop => yields_ok_iff.trans (by simp [eq_comm])).trans ?_
    rw [← leaves_readMapEnd_iff]
    simp [and_comm]
  · constructor
    · rintro ⟨flag, behindFlag, hvalue, hconfig, hend⟩
      obtain ⟨behindColon, hcolon, hflag, -⟩ := yields_readValue_iff.1 hvalue
      exact ⟨flag, behindColon, behindFlag, hconfig, hcolon, hflag, hend⟩
    · rintro ⟨flag, behindColon, behindFlag, hconfig, hcolon, hflag, hend⟩
      refine ⟨flag, behindFlag, yields_readValue_iff.2 ?_, hconfig, hend⟩
      exact ⟨behindColon, hcolon, hflag, endsNumber_of_dropWhile (.inr rfl) hend⟩

theorem yields_readMap_iff (r : Reader) {config : ScanConfig} {rest : List Char} :
    Yields r.readMap config rest ↔
      ∃ tokens, ObjectTokens tokens config ∧ Spaced rest tokens r.ahead := by
  rw [spaced_objectTokens_iff, ← ahead_skipBlanks]
  unfold readMap
  generalize r.skipBlanks = start
  simp only
  split
  · next h => simp [h, not_yields_error]
  · next tail h =>
      rw [yields_ok_iff, ahead_skip, h]
      simp [eq_comm]
  · next tail h =>
      refine (yields_bind_leaves_iff (P := (EndsObject config · rest))
        fun stop => yields_behindKey_iff).trans ?_
      simp only [leaves_readKey_iff h, h]
      constructor
      · rintro ⟨behindKey, ⟨key, hkey, rfl⟩, hbehind⟩
        exact .inr ⟨key, behindKey, hkey, rfl, hbehind⟩
      · rintro (⟨-, hbrace⟩ | ⟨key, behindKey, hkey, hahead, hbehind⟩)
        · simp at hbrace
        · exact ⟨behindKey, ⟨key, hkey, (List.cons.inj hahead).2⟩, hbehind⟩
  · next hbrace hquote =>
      refine iff_of_false not_yields_error ?_
      rintro (⟨-, hahead⟩ | ⟨_, _, -, hahead, -⟩)
      · exact hbrace rest hahead
      · exact hquote _ hahead

/-! ## Documents -/

theorem spaced_documentTokens_iff {config : ScanConfig} {rest cs : List Char} :
    (∃ tokens, DocumentTokens tokens config ∧ Spaced rest tokens cs) ↔
      (∃ tail tokens, cs.dropWhile Text.isBlank = '[' :: tail ∧ ArrayTokens tokens config ∧
        Spaced rest tokens tail) ∨
      ∃ tail tokens, cs.dropWhile Text.isBlank = '\x7b' :: tail ∧ ObjectTokens tokens config ∧
        Spaced rest tokens tail := by
  constructor
  · rintro ⟨tokens, htokens, hspaced⟩
    cases htokens with
    | array htokens =>
        obtain ⟨tail, htail, hspaced⟩ := (spaced_cons_iff ⟨_, _, rfl, by decide⟩).1 hspaced
        exact .inl ⟨tail, _, htail, htokens, hspaced⟩
    | object htokens =>
        obtain ⟨tail, htail, hspaced⟩ := (spaced_cons_iff ⟨_, _, rfl, by decide⟩).1 hspaced
        exact .inr ⟨tail, _, htail, htokens, hspaced⟩
  · rintro (⟨tail, tokens, htail, htokens, hspaced⟩ | ⟨tail, tokens, htail, htokens, hspaced⟩)
    · exact ⟨_, .array htokens, (spaced_cons_iff ⟨_, _, rfl, by decide⟩).2 ⟨tail, htail, hspaced⟩⟩
    · exact ⟨_, .object htokens, (spaced_cons_iff ⟨_, _, rfl, by decide⟩).2 ⟨tail, htail, hspaced⟩⟩

/-- Only blanks may stand behind the value of a document. -/
theorem bind_ending_iff {result : Except Refusal (ScanConfig × Reader)} {config : ScanConfig} :
    (do
        let value ← result
        if value.2.skipBlanks.ahead = [] then return value.1
        else .error (value.2.skipBlanks.atNext .trailingCharacters)) = Except.ok config ↔
      ∃ blanks, IsBlanks blanks ∧ Yields result config blanks := by
  cases result with
  | error e => simp [not_yields_error, bind, Except.bind]
  | ok value =>
      obtain ⟨config', stop⟩ := value
      simp only [yields_ok_iff, bind, Except.bind, isBlanks_iff, ahead_skipBlanks,
        List.dropWhile_eq_nil_iff]
      split
      · next hblanks => simpa [pure, Except.pure] using fun _ => hblanks
      · next hnot =>
          refine iff_of_false (by simp) ?_
          rintro ⟨_, hblanks, -, rfl⟩
          exact hnot hblanks

theorem readDocument_eq_ok_iff (r : Reader) {config : ScanConfig} :
    r.readDocument = .ok config ↔ Describes r.ahead config := by
  have hdescribes : Describes r.ahead config ↔ ∃ blanks, IsBlanks blanks ∧
      ∃ tokens, DocumentTokens tokens config ∧ Spaced blanks tokens r.ahead := by
    constructor
    · rintro ⟨tokens, blanks, htokens, hblanks, hspaced⟩
      exact ⟨blanks, hblanks, tokens, htokens, hspaced⟩
    · rintro ⟨blanks, hblanks, tokens, htokens, hspaced⟩
      exact ⟨tokens, blanks, htokens, hblanks, hspaced⟩
  simp only [hdescribes, spaced_documentTokens_iff, ← ahead_skipBlanks]
  unfold readDocument
  generalize r.skipBlanks = start
  simp only
  split
  · next h => simp [h, bind, Except.bind]
  · next tail h =>
      refine bind_ending_iff.trans (exists_congr fun blanks => and_congr_right fun _ => ?_)
      rw [yields_readSequence_iff, ahead_skip, h]
      simp
  · next tail h =>
      refine bind_ending_iff.trans (exists_congr fun blanks => and_congr_right fun _ => ?_)
      rw [yields_readMap_iff, ahead_skip, h]
      simp
  · next hbracket hbrace =>
      refine iff_of_false (by simp [bind, Except.bind]) ?_
      rintro ⟨_, -, ⟨tail, _, hahead, -⟩ | ⟨tail, _, hahead, -⟩⟩
      · exact hbracket tail hahead
      · exact hbrace tail hahead

end Reader

end Lexis.Config

/-- Reading a text gives a configuration exactly if the text describes it. -/
theorem Lexis.ScanConfig.ofDocument_eq_ok_iff {text : String} {config : ScanConfig} :
    ScanConfig.ofDocument text = .ok config ↔ Config.Describes text.toList config := by
  rw [← Config.Reader.readDocument_eq_ok_iff ⟨text.toList, 0⟩, ScanConfig.ofDocument]
  cases Config.Reader.readDocument ⟨text.toList, 0⟩ <;> simp [Except.mapError]

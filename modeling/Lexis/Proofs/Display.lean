import Lexis.Proofs.Position
import Lexis.Proofs.SegmentRow
import Lexis.Proofs.Trace

set_option autoImplicit false

/-! # Displayed literals read back

A string is displayed in the escapes of the language itself: each character is displayed as one item
of a string that stands for it (`Text.quoteItem`), whichever characters are written by their code
points. No displayed item can go on behind its end, so the items of a displayed string are read one
by one, whatever stands next to each other. An integer is displayed in its digits. So the display of
a string or an integer is the text of one segment, and its scan is that literal and nothing else
(`Scanner.readsAs_displayWith`). -/

namespace Lexis

/-! ## Quoted characters -/

namespace Text

/-- The item of a string as which a character is displayed. -/
def quoteItem (hidden : Char → Bool) (c : Char) : StringItem :=
  match shortEscape? c with
  | some e => .escape e
  | none => if hidden c then .unicode (hexDigits c.toNat) true else .plain c

theorem text_quoteItem (hidden : Char → Bool) (c : Char) :
    (quoteItem hidden c).text = quoteChar hidden c := by
  unfold quoteItem quoteChar
  cases shortEscape? c with
  | some e => rfl
  | none => cases hidden c <;> rfl

/-- A short escape means its character, and is not the one that takes a code point. -/
theorem lookup_of_shortEscape? {c e : Char} (h : shortEscape? c = some e) :
    e ≠ 'u' ∧ StringItem.escapes.lookup e = some c := by
  unfold shortEscape? at h
  split at h
  case h_7 => simp at h
  all_goals
    obtain rfl := Option.some.inj h
    exact ⟨by decide, rfl⟩

theorem ne_of_shortEscape?_eq_none {c : Char} (h : shortEscape? c = none) :
    c ≠ '"' ∧ c ≠ '\\' := by
  constructor
  · rintro rfl
    simp [shortEscape?] at h
  · rintro rfl
    simp [shortEscape?] at h

/-- A displayed character is an item that stands for it, and ends whatever stands behind it. -/
theorem quoteItem_spec (hidden : Char → Bool) (c : Char) :
    (quoteItem hidden c).WellFormed ∧ (∀ rest, (quoteItem hidden c).goesOn rest = false) ∧
      (quoteItem hidden c).value? = some c := by
  unfold quoteItem
  split
  · next e he =>
      obtain ⟨hu, hvalue⟩ := lookup_of_shortEscape? he
      exact ⟨hu, fun _ => rfl, hvalue⟩
  · next hnone =>
      split
      · obtain ⟨hpos, hlength⟩ := length_hexDigits_toNat c
        refine ⟨fun d hd => isHexDigit_of_mem_hexDigits hd, fun _ => rfl, ?_⟩
        rw [StringItem.value?, hexValue_hexDigits, scalar?_eq_some_iff.2 rfl]
        simp [hpos, hlength]
      · exact ⟨ne_of_shortEscape?_eq_none hnone, fun _ => rfl, rfl⟩

end Text

namespace StringItem

/-- Items that end whatever stands behind them may stand in any order. -/
theorem row_of_forall {tail : List Char} {items : List StringItem}
    (h : ∀ item ∈ items, item.WellFormed ∧ ∀ rest, item.goesOn rest = false) :
    Row tail items := by
  induction items with
  | nil => trivial
  | cons item items ih =>
      obtain ⟨hitem, hend⟩ := h item List.mem_cons_self
      exact ⟨hitem, hend _, ih fun item' hitem' => h item' (List.mem_cons_of_mem _ hitem')⟩

/-- The items of a displayed text stand for the text. -/
theorem decode_map_quoteItem (hidden : Char → Bool) (cs : List Char) :
    decode (cs.map (Text.quoteItem hidden)) = cs := by
  induction cs with
  | nil => rfl
  | cons c cs ih =>
      obtain ⟨-, -, hvalue⟩ := Text.quoteItem_spec hidden c
      rw [decode] at ih ⊢
      rw [List.map_cons, List.filterMap_cons, hvalue, ih]

end StringItem

/-! ## Texts of one segment -/

/-- A scan of the text finds one token, which is all of it and has the value, and no error. -/
structure Scanner.ReadsAs (s : Scanner) (text : String) (kind : TokenKind) (value : Literal) :
    Prop where
  tokens : (s.scan text).2.tokens = [⟨kind, text, some value, .origin, text.utf8ByteSize⟩]
  errors : (s.scan text).1.errors = []

namespace Segment

theorem ofText_text {s : Segment} (h : s.WellFormed) : Trace.ofText s.text = [⟨.origin, s⟩] := by
  have hread : readAll s.text = [s] := by
    rw [readAll_eq_iff]
    refine ⟨by simp, ⟨h, ?_⟩, trivial⟩
    exact goesOn_nil s
  rw [Trace.ofText, hread]
  rfl

theorem fault?_eq_none_of_token? {s : Segment} {token : TokenKind × Option Literal}
    (h : s.token? = some token) : s.fault? = none := by
  cases s with
  | integer digits =>
      cases hvalue : integerValue? digits with
      | none => simp [token?, hvalue] at h
      | some n => simp [fault?, hvalue]
  | decimal whole fraction =>
      cases hvalue : Binary64.ofDecimal? whole fraction with
      | none => simp [token?, hvalue] at h
      | some x => simp [fault?, hvalue]
  | openComment body => simp [token?] at h
  | openString items dangling => simp [token?] at h
  | unexpected c => simp [token?] at h
  | _ => rfl

end Segment

theorem Placed.escapeErrors_eq_nil (start : Position) {items : List StringItem}
    (h : ∀ item ∈ items, item.value?.isSome = true) : escapeErrors start items = [] := by
  rw [escapeErrors, List.filterMap_eq_nil_iff]
  intro p hp
  have hvalue := h p.piece (piece_mem_of_mem_place hp)
  rw [← Option.not_isNone, Bool.not_eq_true'] at hvalue
  rw [if_neg (by simp [hvalue])]

/-- The text of a segment is read as the token of the segment. -/
theorem Segment.readsAs_text {segment : Segment} {kind : TokenKind} {value : Literal}
    (h : segment.WellFormed) (htoken : segment.token? = some (kind, some value))
    (hitems : ∀ item ∈ segment.items, item.value?.isSome = true) (s : Scanner) :
    s.ReadsAs (String.ofList segment.text) kind value := by
  constructor
  · rw [Scanner.tokens_scan, String.toList_ofList, ofText_text h, Trace.tokens_cons, Placed.token?,
      htoken, ← Text.size_toList, String.toList_ofList]
    simp [Trace.tokens]
  · rw [Scanner.errors_scan, String.toList_ofList, ofText_text h, Trace.errors_cons, Placed.errors,
      Placed.ownError?, Segment.fault?_eq_none_of_token? htoken,
      Placed.escapeErrors_eq_nil _ hitems]
    rfl

/-! ## Literals -/

theorem Text.quote_eq_text (hidden : Char → Bool) (cs : List Char) :
    quote hidden cs = (Segment.string (cs.map (quoteItem hidden))).text := by
  rw [quote, Segment.text, StringItem.textOf, List.flatMap_map]
  simp only [text_quoteItem]

theorem Segment.integerValue?_toDigits {n : Nat} (h : n < Nat.pow 2 63) :
    integerValue? (Nat.toDigits 10 n) = some n := by
  have hle : n ≤ maxInteger := Nat.le_of_lt_succ h
  rw [integerValue?, Nat.ofDigitChars_ten_toDigits, if_pos hle]

/-- A displayed string is read as itself, whichever characters are written by their code points, and
    so is a displayed integer that a literal may have. -/
theorem Scanner.readsAs_displayWith (s : Scanner) (hidden : Char → Bool) :
    (∀ v : String,
      s.ReadsAs ((Literal.string v).displayWith hidden) .string (.string v)) ∧
    ∀ n < Nat.pow 2 63,
      s.ReadsAs ((Literal.integer n).displayWith hidden) .number (.integer n) := by
  constructor
  · intro v
    have hspec : ∀ item ∈ v.toList.map (Text.quoteItem hidden), item.WellFormed ∧
        (∀ rest, item.goesOn rest = false) ∧ item.value?.isSome = true := by
      intro item hitem
      obtain ⟨c, -, rfl⟩ := List.mem_map.1 hitem
      obtain ⟨hwell, hend, hvalue⟩ := Text.quoteItem_spec hidden c
      exact ⟨hwell, hend, by rw [hvalue]; rfl⟩
    have hrow : (Segment.string (v.toList.map (Text.quoteItem hidden))).WellFormed :=
      StringItem.row_of_forall fun item hitem => ⟨(hspec item hitem).1, (hspec item hitem).2.1⟩
    rw [Literal.displayWith, Text.quote_eq_text]
    refine Segment.readsAs_text hrow ?_ (fun item hitem => (hspec item hitem).2.2) s
    rw [Segment.token?, StringItem.decode_map_quoteItem, String.ofList_toList]
  · intro n hn
    have hdigits : (Segment.integer (Nat.toDigits 10 n)).WellFormed :=
      ⟨Nat.toDigits_ne_nil, fun c hc => Nat.isDigit_of_mem_toDigits (by decide) (by decide) hc⟩
    have hread : (Segment.integer (Nat.toDigits 10 n)).token? =
        some (.number, some (.integer n)) := by
      rw [Segment.token?, Segment.integerValue?_toDigits hn]
      rfl
    exact Segment.readsAs_text hdigits hread (by simp [Segment.items]) s

/-- A text with all short escapes, letters behind them that look like escapes, and a brace that is
    written by its code point; and the greatest integer. -/
theorem Scanner.readsAs_displayWith_maxInteger :
    ReadsAs {} "\"\\0\\t\\r\\n\\\"\\\\nu\\u\x7b7b\x7d41\x7d'\"" .string
        (.string "\x00\t\r\n\"\\nu\x7b41\x7d'") ∧
      9223372036854775807 < Nat.pow 2 63 ∧
      ReadsAs {} "9223372036854775807" .number (.integer 9223372036854775807) := by
  have hmax : 9223372036854775807 < Nat.pow 2 63 := by decide
  obtain ⟨hstring, hinteger⟩ := readsAs_displayWith {} (· = '\x7b')
  have htext : (Literal.string "\x00\t\r\n\"\\nu\x7b41\x7d'").displayWith (· = '\x7b') =
      "\"\\0\\t\\r\\n\\\"\\\\nu\\u\x7b7b\x7d41\x7d'\"" := by
    decide +kernel
  have hdigits : (Literal.integer 9223372036854775807).displayWith (· = '\x7b') =
      "9223372036854775807" := by
    decide +kernel
  have hfirst := hstring "\x00\t\r\n\"\\nu\x7b41\x7d'"
  have hsecond := hinteger 9223372036854775807 hmax
  rw [htext] at hfirst
  rw [hdigits] at hsecond
  exact ⟨hfirst, hmax, hsecond⟩

end Lexis

import Lexis.Json
import Lexis.Proofs.Reader

set_option autoImplicit false

/-! # JSON texts tell their values

A string ends at the first quote that is not escaped, a number at the first character that is none
of its own, and brackets and commas tell how arrays and objects go on. So the text of a value can be
followed by anything that does not prolong a number and is still the text of no other value
(`write_append_inj`), in either style. The styles differ in blanks outside of strings only
(`withoutBlanks_render`). For strings the reader of configurations is at hand: it reads back what is
written (`yields_writeString`), and it can yield only one string. -/

namespace Lexis.Json

/-! ## Strings -/

/-- The letter of a control character stands for that character. -/
theorem lookup_of_controlLetter? {c letter : Char} (hlt : c.toNat < 0x20)
    (h : controlLetter? c = some letter) :
    Config.Reader.simpleEscapes.lookup letter = some c := by
  have hall : ∀ n < 0x20, (controlLetter? (Char.ofNat n)).all (fun letter =>
      Config.Reader.simpleEscapes.lookup letter = some (Char.ofNat n)) = true := by decide
  have hletter := hall c.toNat hlt
  rw [Char.ofNat_toNat, h] at hletter
  exact of_decide_eq_true hletter

/-- Zeros fill up the digits of a control character to four, and leave the number as it is. -/
theorem hexNumber_padded : ∀ n < 0x20,
    (List.replicate (4 - (Text.hexDigits n).length) '0' ++ Text.hexDigits n).length = 4 ∧
      Text.hexNumber
        (List.replicate (4 - (Text.hexDigits n).length) '0' ++ Text.hexDigits n) = n := by
  decide

/-- A character of a string is written as it is, by a letter, or by the four hexadecimal digits of
    its code point. -/
theorem escapeChar_cases (c : Char) :
    (escapeChar c = [c] ∧ c ≠ '"' ∧ c ≠ '\\' ∧ ¬ c.toNat < 0x20) ∨
      (∃ letter, escapeChar c = ['\\', letter] ∧
        Config.Reader.simpleEscapes.lookup letter = some c) ∨
      ∃ digits, escapeChar c = '\\' :: 'u' :: digits ∧ digits.length = 4 ∧
        (∀ d ∈ digits, d.isHexDigit = true) ∧ Text.hexNumber digits = c.toNat ∧
        c.toNat < 0x20 := by
  unfold escapeChar
  split
  · next h =>
      refine .inr (.inl ⟨c, rfl, ?_⟩)
      rcases h with rfl | rfl <;> rfl
  · next hne =>
      split
      · next hlt =>
          split
          · next letter hsome =>
              exact .inr (.inl ⟨letter, rfl, lookup_of_controlLetter? hlt hsome⟩)
          · obtain ⟨hlength, hnumber⟩ := hexNumber_padded c.toNat hlt
            refine .inr (.inr ⟨_, rfl, hlength, fun d hd => ?_, hnumber, hlt⟩)
            rcases List.mem_append.1 hd with hd | hd
            · rw [List.eq_of_mem_replicate hd]
              rfl
            · exact Text.isHexDigit_of_mem_hexDigits hd
      · next hge =>
          rw [not_or] at hne
          exact .inl ⟨rfl, hne.1, hne.2, hge⟩

/-- A string that is written is read back. -/
theorem yields_writeString (text rest : List Char) (offset : Nat) :
    Config.Reader.Yields (Config.Reader.readString ⟨text.flatMap escapeChar ++ '"' :: rest, offset⟩)
      text rest := by
  induction text generalizing offset with
  | nil =>
      rw [Config.Reader.readString]
      exact Config.Reader.yields_ok_iff.2 ⟨rfl, rfl⟩
  | cons c text ih =>
      rw [List.flatMap_cons, List.append_assoc]
      obtain ⟨hc, hplain⟩ | ⟨letter, hc, hletter⟩ | ⟨digits, hc, hlength, hall, hnumber, hlt⟩ :=
        escapeChar_cases c
      · rw [hc]
        exact Config.Reader.yields_readString_plain hplain ih offset
      · rw [hc]
        exact Config.Reader.yields_readString_escape
          (Config.Reader.readEscape_letter hletter) ih offset
      · rw [hc]
        have hescape : Config.Reader.readEscape
            (('u' :: digits) ++ (text.flatMap escapeChar ++ '"' :: rest)) =
              .ok (c, ('u' :: digits).length) := by
          rw [List.length_cons, hlength]
          exact Config.Reader.readEscape_unit hlength hall hnumber (by omega)
        exact Config.Reader.yields_readString_escape hescape ih offset

/-- What stands behind a string tells where it ends, and so what it is. -/
theorem writeString_append_inj {text text' rest rest' : List Char}
    (h : writeString text ++ rest = writeString text' ++ rest') : text = text' ∧ rest = rest' := by
  have hinside : text.flatMap escapeChar ++ '"' :: rest =
      text'.flatMap escapeChar ++ '"' :: rest' := by
    simpa [writeString] using h
  have hread := yields_writeString text rest 0
  rw [hinside] at hread
  exact hread.unique (yields_writeString text' rest' 0)

/-! ## Numbers -/

/-- The characters of numbers. -/
def isNumeralPart (c : Char) : Bool := c.isDigit || c = '.' || c = 'e' || c = '+' || c = '-'

/-- A value whose numbers are written with the characters of numbers. -/
inductive HasNumerals : Json → Prop
  | number {text : List Char} : text ≠ [] → (∀ c ∈ text, isNumeralPart c = true) →
      HasNumerals (number text)
  | string (text : List Char) : HasNumerals (string text)
  | array {items : List Json} : (∀ item ∈ items, HasNumerals item) → HasNumerals (array items)
  | object {members : List (List Char × Json)} : (∀ m ∈ members, HasNumerals m.2) →
      HasNumerals (object members)

/-- What may stand behind a number. -/
def EndsNumeral (rest : List Char) : Prop := ∀ c ∈ rest.head?, isNumeralPart c = false

/-! ## Values -/

/-- The quote or bracket that a value starts with, if it is no number. -/
def opening? : Json → Option Char
  | number _ => none
  | string _ => some '"'
  | array _ => some '['
  | object _ => some '\x7b'

theorem exists_head {v : Json} (h : v.HasNumerals) (style : Style) (depth : Nat) :
    ∃ c tail, v.write style depth = c :: tail ∧
      v.opening? = if isNumeralPart c then none else some c := by
  cases h with
  | @number text hne hall =>
      obtain ⟨c, tail, rfl⟩ := List.exists_cons_of_ne_nil hne
      refine ⟨c, tail, by rw [write], ?_⟩
      rw [if_pos (hall c (List.mem_cons_self ..))]
      rfl
  | string text => exact ⟨_, _, by rw [write, writeString], rfl⟩
  | @array items _ =>
      cases items with
      | nil => exact ⟨_, _, by rw [write], rfl⟩
      | cons item items => exact ⟨_, _, by rw [write], rfl⟩
  | @object members _ =>
      rcases members with _ | ⟨⟨key, value⟩, members⟩
      · exact ⟨_, _, by rw [write], rfl⟩
      · exact ⟨_, _, by rw [write], rfl⟩

variable {style : Style} {depth : Nat} {rest rest' : List Char}

/-- No number, and no comma, goes on with a break before a closing bracket or with that bracket. -/
theorem head?_lineBreak {c d : Char} (h : d ∈ (style.lineBreak depth ++ c :: rest).head?) :
    d = '\n' ∨ d = c := by
  cases style with
  | compact => exact .inr (Option.some.inj h).symm
  | pretty => exact .inl (Option.some.inj h).symm

theorem endsNumeral_writeItems (items : List Json) :
    EndsNumeral (writeItems style depth items ++ rest) := by
  intro c hc
  cases items with
  | nil =>
      rw [writeItems, List.append_assoc] at hc
      rcases head?_lineBreak hc with rfl | rfl <;> rfl
  | cons item items =>
      rw [writeItems] at hc
      obtain rfl := Option.some.inj hc
      rfl

theorem endsNumeral_writeMembers (members : List (List Char × Json)) :
    EndsNumeral (writeMembers style depth members ++ rest) := by
  intro c hc
  rcases members with _ | ⟨⟨key, value⟩, members⟩
  · rw [writeMembers, List.append_assoc] at hc
    rcases head?_lineBreak hc with rfl | rfl <;> rfl
  · rw [writeMembers] at hc
    obtain rfl := Option.some.inj hc
    rfl

/-- Values with one text start alike. -/
theorem opening?_eq {v w : Json} (hv : v.HasNumerals) (hw : w.HasNumerals)
    (h : v.write style depth ++ rest = w.write style depth ++ rest') : v.opening? = w.opening? := by
  obtain ⟨c, tail, hc, hv⟩ := exists_head hv style depth
  obtain ⟨d, tail', hd, hw⟩ := exists_head hw style depth
  rw [hc, hd] at h
  rw [hv, hw, (List.cons.inj h).1]

theorem number_append_inj {text text' : List Char} (hall : ∀ c ∈ text, isNumeralPart c = true)
    (hall' : ∀ c ∈ text', isNumeralPart c = true) (hrest : EndsNumeral rest)
    (hrest' : EndsNumeral rest') (h : text ++ rest = text' ++ rest') :
    text = text' ∧ rest = rest' := by
  have htake := congrArg (List.takeWhile isNumeralPart) h
  have hdrop := congrArg (List.dropWhile isNumeralPart) h
  rw [Text.takeWhile_run hall hrest, Text.takeWhile_run hall' hrest'] at htake
  rw [Text.dropWhile_run hall hrest, Text.dropWhile_run hall' hrest'] at hdrop
  exact ⟨htake, hdrop⟩

/-- A bracket that closes at once is told from an item. -/
theorem lineBreak_write_ne {v : Json} (h : v.HasNumerals) :
    style.lineBreak depth ++ (v.write style depth ++ rest) ≠ ']' :: rest' := by
  intro heq
  obtain ⟨c, tail, hc, hopening⟩ := exists_head h style depth
  rw [hc, List.cons_append] at heq
  have hhead : ']' ∈ (style.lineBreak depth ++ c :: (tail ++ rest)).head? := by
    rw [heq]
    rfl
  rcases head?_lineBreak hhead with hfeed | rfl
  · exact absurd hfeed (by decide)
  · cases v <;> simp [opening?, isNumeralPart] at hopening

theorem lineBreak_writeString_ne {key : List Char} :
    style.lineBreak depth ++ (writeString key ++ rest) ≠ '\x7d' :: rest' := by
  intro heq
  rw [writeString, List.cons_append] at heq
  have hhead : '\x7d' ∈ (style.lineBreak depth ++
      '"' :: (key.flatMap escapeChar ++ ['"'] ++ rest)).head? := by
    rw [heq]
    rfl
  rcases head?_lineBreak hhead with hfeed | hquote
  · exact absurd hfeed (by decide)
  · exact absurd hquote (by decide)

/-- An array without items is told from one with items. -/
theorem write_array_nil_ne {v : Json} {items : List Json} (h : v.HasNumerals) :
    (array []).write style depth ++ rest ≠ (array (v :: items)).write style depth ++ rest' := by
  intro heq
  rw [write, write] at heq
  simp only [List.cons_append, List.append_assoc, List.cons.injEq, true_and] at heq
  exact absurd heq.symm (lineBreak_write_ne h)

/-- An object without members is told from one with members. -/
theorem write_object_nil_ne {key : List Char} {v : Json} {members : List (List Char × Json)} :
    (object []).write style depth ++ rest ≠
      (object ((key, v) :: members)).write style depth ++ rest' := by
  intro heq
  rw [write, write] at heq
  simp only [List.cons_append, List.append_assoc, List.cons.injEq, true_and] at heq
  exact absurd heq.symm lineBreak_writeString_ne

/-- The last item of an array is told from one that another one follows. -/
theorem lineBreak_ne_comma (close : Char) (h : close ≠ ',') :
    style.lineBreak depth ++ ([close] ++ rest) ≠ ',' :: rest' := by
  intro heq
  have hhead : ',' ∈ (style.lineBreak depth ++ close :: rest).head? := by
    rw [← List.singleton_append, heq]
    rfl
  rcases head?_lineBreak hhead with hfeed | hclose
  · exact absurd hfeed (by decide)
  · exact h hclose.symm

/-! The items of an array are those behind a first one, but for what stands before them: a bracket
in place of a comma. So the first item needs no argument of its own, and no more does the first
member of an object. -/

mutual

/-- The text of a value, whatever stands behind it, is the text of no other value. -/
theorem write_append_inj {style : Style} {depth : Nat} {v w : Json} {rest rest' : List Char}
    (hv : v.HasNumerals) (hw : w.HasNumerals) (hrest : EndsNumeral rest)
    (hrest' : EndsNumeral rest')
    (h : v.write style depth ++ rest = w.write style depth ++ rest') : v = w ∧ rest = rest' := by
  have hopening := opening?_eq hv hw h
  cases v with
  | number text =>
      cases w <;> try simp [opening?] at hopening
      cases hv with | number _ hall => cases hw with | number _ hall' =>
      rw [write, write] at h
      obtain ⟨rfl, hbehind⟩ := number_append_inj hall hall' hrest hrest' h
      exact ⟨rfl, hbehind⟩
  | string text =>
      cases w <;> try simp [opening?] at hopening
      rw [write, write] at h
      obtain ⟨rfl, hbehind⟩ := writeString_append_inj h
      exact ⟨rfl, hbehind⟩
  | array items =>
      cases w <;> try simp [opening?] at hopening
      next items' =>
      cases hv with | array hitems => cases hw with | array hitems' =>
      cases items with
      | nil =>
          cases items' with
          | nil =>
              rw [write] at h
              exact ⟨rfl, List.append_cancel_left h⟩
          | cons item' items' =>
              exact absurd h (write_array_nil_ne (hitems' item' List.mem_cons_self))
      | cons item items =>
          cases items' with
          | nil =>
              exact absurd h.symm (write_array_nil_ne (hitems item List.mem_cons_self))
          | cons item' items' =>
              rw [write, write] at h
              obtain ⟨heq, hbehind⟩ := writeItems_append_inj hitems hitems' (by
                rw [writeItems, writeItems]
                exact congrArg (',' :: ·) (List.cons.inj h).2)
              exact ⟨congrArg array heq, hbehind⟩
  | object members =>
      cases w <;> try simp [opening?] at hopening
      next members' =>
      cases hv with | object hmembers => cases hw with | object hmembers' =>
      rcases members with _ | ⟨⟨key, value⟩, members⟩
      · rcases members' with _ | ⟨⟨key', value'⟩, members'⟩
        · rw [write] at h
          exact ⟨rfl, List.append_cancel_left h⟩
        · exact absurd h write_object_nil_ne
      · rcases members' with _ | ⟨⟨key', value'⟩, members'⟩
        · exact absurd h.symm write_object_nil_ne
        · rw [write, write] at h
          obtain ⟨heq, hbehind⟩ := writeMembers_append_inj hmembers hmembers' (by
            rw [writeMembers, writeMembers]
            exact congrArg (',' :: ·) (List.cons.inj h).2)
          exact ⟨congrArg object heq, hbehind⟩

theorem writeItems_append_inj {style : Style} {depth : Nat} {items items' : List Json}
    {rest rest' : List Char} (hitems : ∀ item ∈ items, item.HasNumerals)
    (hitems' : ∀ item ∈ items', item.HasNumerals)
    (h : writeItems style depth items ++ rest = writeItems style depth items' ++ rest') :
    items = items' ∧ rest = rest' := by
  cases items with
  | nil =>
      cases items' with
      | nil => exact ⟨rfl, List.append_cancel_left h⟩
      | cons item' items' =>
          rw [writeItems, writeItems, List.append_assoc (style.lineBreak depth)] at h
          exact absurd h (lineBreak_ne_comma ']' (by decide))
  | cons item items =>
      cases items' with
      | nil =>
          rw [writeItems, writeItems, List.append_assoc (style.lineBreak depth)] at h
          exact absurd h.symm (lineBreak_ne_comma ']' (by decide))
      | cons item' items' =>
          rw [List.forall_mem_cons] at hitems hitems'
          rw [writeItems, writeItems] at h
          simp only [List.cons_append, List.append_assoc, List.cons.injEq, true_and] at h
          obtain ⟨rfl, hitem⟩ := write_append_inj hitems.1 hitems'.1
            (endsNumeral_writeItems items) (endsNumeral_writeItems items')
            (List.append_cancel_left h)
          obtain ⟨rfl, hbehind⟩ := writeItems_append_inj hitems.2 hitems'.2 hitem
          exact ⟨rfl, hbehind⟩

theorem writeMembers_append_inj {style : Style} {depth : Nat}
    {members members' : List (List Char × Json)} {rest rest' : List Char}
    (hmembers : ∀ m ∈ members, m.2.HasNumerals) (hmembers' : ∀ m ∈ members', m.2.HasNumerals)
    (h : writeMembers style depth members ++ rest = writeMembers style depth members' ++ rest') :
    members = members' ∧ rest = rest' := by
  rcases members with _ | ⟨⟨key, value⟩, members⟩
  · rcases members' with _ | ⟨⟨key', value'⟩, members'⟩
    · exact ⟨rfl, List.append_cancel_left h⟩
    · rw [writeMembers, writeMembers, List.append_assoc (style.lineBreak depth)] at h
      exact absurd h (lineBreak_ne_comma '\x7d' (by decide))
  · rcases members' with _ | ⟨⟨key', value'⟩, members'⟩
    · rw [writeMembers, writeMembers, List.append_assoc (style.lineBreak depth)] at h
      exact absurd h.symm (lineBreak_ne_comma '\x7d' (by decide))
    · rw [List.forall_mem_cons] at hmembers hmembers'
      rw [writeMembers, writeMembers] at h
      simp only [List.cons_append, List.append_assoc, List.cons.injEq, true_and] at h
      have hvalue : value.HasNumerals := hmembers.1
      have hvalue' : value'.HasNumerals := hmembers'.1
      obtain ⟨rfl, hkey⟩ := writeString_append_inj (List.append_cancel_left h)
      obtain ⟨rfl, hmember⟩ := write_append_inj hvalue hvalue'
        (endsNumeral_writeMembers members) (endsNumeral_writeMembers members')
        (List.append_cancel_left hkey)
      obtain ⟨rfl, hbehind⟩ := writeMembers_append_inj hmembers.2 hmembers'.2 hmember
      exact ⟨rfl, hbehind⟩

end

/-- The rendering of a value is the rendering of no other value. -/
theorem render_inj {style : Style} {v w : Json} (hv : v.HasNumerals) (hw : w.HasNumerals)
    (h : v.render style = w.render style) : v = w := by
  have hnil : EndsNumeral [] := by simp [EndsNumeral]
  have hwrite : v.write style 0 ++ [] = w.write style 0 ++ [] :=
    congrArg (· ++ []) (String.ofList_injective h)
  exact (write_append_inj hv hw hnil hnil hwrite).1

/-! ## Blanks -/

/-- Where a character of a JSON text stands: outside of strings, in a string, or in a string behind
    a backslash. -/
inductive Spot where
  | outside
  | inside
  | escaped

/-- A JSON text without the blanks outside of its strings. -/
def withoutBlanks : Spot → List Char → List Char
  | _, [] => []
  | .outside, c :: cs =>
    if Text.isBlank c then withoutBlanks .outside cs
    else c :: withoutBlanks (if c = '"' then .inside else .outside) cs
  | .inside, c :: cs =>
    c :: withoutBlanks (if c = '"' then .outside else if c = '\\' then .escaped else .inside) cs
  | .escaped, c :: cs => c :: withoutBlanks .inside cs

theorem withoutBlanks_inside {cs : List Char} (h : ∀ c ∈ cs, c ≠ '"' ∧ c ≠ '\\')
    (rest : List Char) :
    withoutBlanks .inside (cs ++ rest) = cs ++ withoutBlanks .inside rest := by
  induction cs with
  | nil => rfl
  | cons c cs ih =>
      rw [List.forall_mem_cons] at h
      rw [List.cons_append, withoutBlanks, if_neg h.1.1, if_neg h.1.2, ih h.2]
      rfl

theorem withoutBlanks_escapeChar (c : Char) (rest : List Char) :
    withoutBlanks .inside (escapeChar c ++ rest) =
      escapeChar c ++ withoutBlanks .inside rest := by
  obtain ⟨hc, hquote, hbackslash, -⟩ | ⟨letter, hc, -⟩ | ⟨digits, hc, -, hall, -⟩ :=
    escapeChar_cases c
  · rw [hc]
    exact withoutBlanks_inside (by simpa using ⟨hquote, hbackslash⟩) rest
  · rw [hc]
    rfl
  · rw [hc]
    have hdigits : ∀ d ∈ digits, d ≠ '"' ∧ d ≠ '\\' := fun d hd =>
      ⟨Text.ne_of_class (hall d hd) (by decide), Text.ne_of_class (hall d hd) (by decide)⟩
    exact congrArg ('\\' :: 'u' :: ·) (withoutBlanks_inside hdigits rest)

theorem withoutBlanks_writeString (text rest : List Char) :
    withoutBlanks .outside (writeString text ++ rest) =
      writeString text ++ withoutBlanks .outside rest := by
  have hinside : ∀ text : List Char,
      withoutBlanks .inside (text.flatMap escapeChar ++ '"' :: rest) =
        text.flatMap escapeChar ++ '"' :: withoutBlanks .outside rest := by
    intro text
    induction text with
    | nil => rfl
    | cons c text ih =>
        rw [List.flatMap_cons, List.append_assoc, withoutBlanks_escapeChar, ih, List.append_assoc]
  simp only [writeString, List.cons_append, List.append_assoc, List.nil_append]
  exact congrArg ('"' :: ·) (hinside text)

theorem withoutBlanks_number {text : List Char} (h : ∀ c ∈ text, isNumeralPart c = true)
    (rest : List Char) :
    withoutBlanks .outside (text ++ rest) = text ++ withoutBlanks .outside rest := by
  induction text with
  | nil => rfl
  | cons c text ih =>
      rw [List.forall_mem_cons] at h
      have hquote : c ≠ '"' := Text.ne_of_class h.1 (by decide)
      have hblank : ¬ Text.isBlank c = true := by
        intro hblank
        rcases Text.isBlank_iff.1 hblank with rfl | rfl | rfl | rfl <;> exact absurd h.1 (by decide)
      rw [List.cons_append, withoutBlanks, if_neg hblank, if_neg hquote, ih h.2]
      rfl

theorem withoutBlanks_lineBreak (style : Style) (depth : Nat) (rest : List Char) :
    withoutBlanks .outside (style.lineBreak depth ++ rest) = withoutBlanks .outside rest := by
  have hspaces : ∀ n : Nat,
      withoutBlanks .outside (List.replicate n ' ' ++ rest) = withoutBlanks .outside rest := by
    intro n
    induction n with
    | zero => rfl
    | succ n ih => exact ih
  cases style with
  | compact => rfl
  | pretty => exact hspaces (2 * depth)

theorem withoutBlanks_colon (style : Style) (rest : List Char) :
    withoutBlanks .outside (style.colon ++ rest) = ':' :: withoutBlanks .outside rest := by
  cases style <;> rfl

/-- Brackets and commas are no blanks and no quotes. -/
theorem withoutBlanks_cons {c : Char} (h : Text.isBlank c = false ∧ c ≠ '"') (rest : List Char) :
    withoutBlanks .outside (c :: rest) = c :: withoutBlanks .outside rest := by
  rw [withoutBlanks, if_neg (Bool.eq_false_iff.1 h.1), if_neg h.2]

mutual

/-- Without blanks, a value is written compactly. -/
theorem withoutBlanks_write {depth : Nat} {v : Json} (h : v.HasNumerals) (style : Style)
    (rest : List Char) :
    withoutBlanks .outside (v.write style depth ++ rest) =
      v.write .compact depth ++ withoutBlanks .outside rest := by
  cases v with
  | number text =>
      cases h with | number _ hall =>
      rw [write, write]
      exact withoutBlanks_number hall rest
  | string text =>
      rw [write, write]
      exact withoutBlanks_writeString text rest
  | array items =>
      cases h with | array hitems =>
      cases items with
      | nil =>
          rw [write, write]
          rfl
      | cons item items =>
          rw [List.forall_mem_cons] at hitems
          rw [write, write]
          simp only [List.cons_append, List.append_assoc]
          rw [withoutBlanks_cons (by decide), withoutBlanks_lineBreak,
            withoutBlanks_write hitems.1, withoutBlanks_writeItems hitems.2]
          rfl
  | object members =>
      cases h with | object hmembers =>
      rcases members with _ | ⟨⟨key, value⟩, members⟩
      · rw [write, write]
        rfl
      · rw [List.forall_mem_cons] at hmembers
        have hvalue : value.HasNumerals := hmembers.1
        rw [write, write]
        simp only [List.cons_append, List.append_assoc]
        rw [withoutBlanks_cons (by decide), withoutBlanks_lineBreak, withoutBlanks_writeString,
          withoutBlanks_colon, withoutBlanks_write hvalue, withoutBlanks_writeMembers hmembers.2]
        rfl

theorem withoutBlanks_writeItems {depth : Nat} {items : List Json}
    (h : ∀ item ∈ items, item.HasNumerals) (style : Style) (rest : List Char) :
    withoutBlanks .outside (writeItems style depth items ++ rest) =
      writeItems .compact depth items ++ withoutBlanks .outside rest := by
  cases items with
  | nil =>
      rw [writeItems, writeItems, List.append_assoc, withoutBlanks_lineBreak]
      rfl
  | cons item items =>
      rw [List.forall_mem_cons] at h
      rw [writeItems, writeItems]
      simp only [List.cons_append, List.append_assoc]
      rw [withoutBlanks_cons (by decide), withoutBlanks_lineBreak, withoutBlanks_write h.1,
        withoutBlanks_writeItems h.2]
      rfl

theorem withoutBlanks_writeMembers {depth : Nat} {members : List (List Char × Json)}
    (h : ∀ m ∈ members, m.2.HasNumerals) (style : Style) (rest : List Char) :
    withoutBlanks .outside (writeMembers style depth members ++ rest) =
      writeMembers .compact depth members ++ withoutBlanks .outside rest := by
  rcases members with _ | ⟨⟨key, value⟩, members⟩
  · rw [writeMembers, writeMembers, List.append_assoc, withoutBlanks_lineBreak]
    rfl
  · rw [List.forall_mem_cons] at h
    have hvalue : value.HasNumerals := h.1
    rw [writeMembers, writeMembers]
    simp only [List.cons_append, List.append_assoc]
    rw [withoutBlanks_cons (by decide), withoutBlanks_lineBreak, withoutBlanks_writeString,
      withoutBlanks_colon, withoutBlanks_write hvalue, withoutBlanks_writeMembers h.2]
    rfl

end

/-- The two styles differ in blanks outside of strings only. -/
theorem withoutBlanks_render {v : Json} (h : v.HasNumerals) (style : Style) :
    withoutBlanks .outside (v.render style).toList = (v.render .compact).toList := by
  have hwrite : withoutBlanks .outside (v.write style 0 ++ []) = v.write .compact 0 ++ [] :=
    withoutBlanks_write h style []
  rw [List.append_nil, List.append_nil] at hwrite
  rw [render, render, String.toList_ofList, String.toList_ofList, hwrite]

end Lexis.Json

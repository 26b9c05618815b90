import Lexis.Proofs.Lexeme
import Lexis.Segment.StringItem

set_option autoImplicit false

/-! # String items in a row

The inside of a string splits into items in exactly one way. An item ends where nothing behind it
could still belong to it (`StringItem.goesOn`), and a `Row` is a list of items that each end where
the next one starts. `row_readItems` and `readItems_textOf_append` say that reading finds the row
that a text is, and no other. Where a string ends does not depend on the extents of its escapes:
the text of a row is an `IsStringBody`, and every `IsStringBody` is the text of a row. -/

namespace Lexis.StringItem

/-- What an item has to be on its own. -/
def WellFormed : StringItem → Prop
  | plain c => c ≠ '"' ∧ c ≠ '\\'
  | escape c => c ≠ 'u'
  | bareUnicode => True
  | unicode digits _ => ∀ c ∈ digits, c.isHexDigit = true

/-- Whether the text behind an item would still belong to it. -/
def goesOn : StringItem → List Char → Bool
  | bareUnicode, c :: _ => c = '\x7b'
  | unicode _ false, c :: _ => c.isHexDigit || c = '\x7d'
  | _, _ => false

/-- Items in a row before `tail`, each as long as it can be. -/
def Row (tail : List Char) : List StringItem → Prop
  | [] => True
  | item :: items => item.WellFormed ∧ item.goesOn (textOf items ++ tail) = false ∧ Row tail items

@[simp] theorem textOf_nil : textOf [] = [] := rfl

@[simp] theorem textOf_cons (item : StringItem) (items : List StringItem) :
    textOf (item :: items) = item.text ++ textOf items := List.flatMap_cons ..

theorem goesOn_congr {item : StringItem} {as bs : List Char} (h : as.head? = bs.head?) :
    item.goesOn as = item.goesOn bs := by
  cases as with
  | nil =>
      cases bs with
      | nil => rfl
      | cons b bs => simp at h
  | cons a as =>
      cases bs with
      | nil => simp at h
      | cons b bs =>
          obtain rfl : a = b := by simpa using h
          cases item with
          | unicode digits closed => cases closed <;> rfl
          | _ => rfl

/-- One character behind a row decides whether its last item is complete. -/
theorem Row.congr {items : List StringItem} {as bs : List Char} (hrow : Row as items)
    (h : as.head? = bs.head?) : Row bs items := by
  induction items with
  | nil => trivial
  | cons item items ih =>
      obtain ⟨hitem, hend, hrow⟩ := hrow
      refine ⟨hitem, ?_, ih hrow⟩
      rw [← hend]
      apply goesOn_congr
      rw [List.head?_append, List.head?_append, h]

/-! ## Reading one escape -/

theorem readEscape_of_ne_u {c : Char} (h : c ≠ 'u') (cs : List Char) :
    readEscape c cs = (escape c, cs) := if_neg h

theorem readEscape_u_of_ne_brace {cs : List Char} (h : cs.head? ≠ some '\x7b') :
    readEscape 'u' cs = (bareUnicode, cs) := by
  simp only [readEscape, if_true]
  split
  · next ds => exact absurd rfl h
  · rfl

theorem readEscape_u_closed {ds rest : List Char}
    (h : ds.dropWhile Char.isHexDigit = '\x7d' :: rest) :
    readEscape 'u' ('\x7b' :: ds) = (unicode (ds.takeWhile Char.isHexDigit) true, rest) := by
  simp [readEscape, h]

theorem readEscape_u_open {ds : List Char}
    (h : (ds.dropWhile Char.isHexDigit).head? ≠ some '\x7d') :
    readEscape 'u' ('\x7b' :: ds) =
      (unicode (ds.takeWhile Char.isHexDigit) false, ds.dropWhile Char.isHexDigit) := by
  simp only [readEscape, if_true]
  split
  · next rest hrest => exact absurd (by rw [hrest]; rfl) h
  · rfl

theorem wellFormed_readEscape (c : Char) (cs : List Char) :
    (readEscape c cs).1.WellFormed := by
  unfold readEscape
  split
  · split
    · next ds =>
        have hdigits : ∀ d ∈ ds.takeWhile Char.isHexDigit, d.isHexDigit = true :=
          fun d hd => List.all_eq_true.1 List.all_takeWhile d hd
        split <;> exact hdigits
    · trivial
  · next hu => exact hu

theorem goesOn_readEscape (c : Char) (cs : List Char) :
    (readEscape c cs).1.goesOn (readEscape c cs).2 = false := by
  unfold readEscape
  split
  · split
    · next ds =>
        split
        · rfl
        · next rest hne =>
            rcases Text.dropWhile_cases Char.isHexDigit ds with hrest | ⟨d, rest, hrest, hd⟩
            · rw [hrest]
              rfl
            · have hbrace : d ≠ '\x7d' := fun hd => hne rest (by rw [hrest, hd])
              simp [hrest, goesOn, hd, hbrace]
    · next rest hne =>
        cases cs with
        | nil => rfl
        | cons d rest =>
            have hbrace : d ≠ '\x7b' := fun hd => hne rest (by rw [hd])
            simp [goesOn, hbrace]
  · rfl

/-- An escape that ends before `tail` is read as it is. -/
theorem readEscape_text_append {item : StringItem} {tail cs : List Char} {c : Char}
    (hitem : item.WellFormed) (hend : item.goesOn tail = false)
    (htext : item.text ++ tail = '\\' :: c :: cs) : readEscape c cs = (item, tail) := by
  cases item with
  | plain d =>
      obtain ⟨hd, -⟩ : d = '\\' ∧ tail = c :: cs := by simpa [text] using htext
      exact absurd hd hitem.2
  | escape d =>
      obtain ⟨rfl, rfl⟩ : d = c ∧ tail = cs := by simpa [text] using htext
      have hu : d ≠ 'u' := hitem
      simp [readEscape, hu]
  | bareUnicode =>
      obtain ⟨rfl, rfl⟩ : 'u' = c ∧ tail = cs := by simpa [text] using htext
      cases tail with
      | nil => rfl
      | cons d tail =>
          have hd : d ≠ '\x7b' := by simpa [goesOn] using hend
          unfold readEscape
          rw [if_pos rfl]
          split
          · next heq => exact absurd (List.cons.inj heq).1 hd
          · rfl
  | unicode digits closed =>
      have hdigits : ∀ d ∈ digits, d.isHexDigit = true := hitem
      cases closed with
      | true =>
          obtain ⟨rfl, rfl⟩ : 'u' = c ∧ '\x7b' :: (digits ++ '\x7d' :: tail) = cs := by
            simpa [text] using htext
          have hstop : ∀ d ∈ ('\x7d' :: tail).head?, d.isHexDigit = false := by simp; decide
          simp [readEscape, Text.takeWhile_run hdigits hstop, Text.dropWhile_run hdigits hstop]
      | false =>
          obtain ⟨rfl, rfl⟩ : 'u' = c ∧ '\x7b' :: (digits ++ tail) = cs := by
            simpa [text] using htext
          have hstop : ∀ d ∈ tail.head?, d.isHexDigit = false ∧ d ≠ '\x7d' := by
            intro d hd
            obtain ⟨more, rfl⟩ := List.head?_eq_some_iff.1 hd
            simpa [goesOn] using hend
          have hhex := fun d hd => (hstop d hd).1
          simp only [readEscape, if_true, Text.takeWhile_run hdigits hhex,
            Text.dropWhile_run hdigits hhex]
          split
          · exact absurd rfl (hstop '\x7d' rfl).2
          · rfl

/-! ## Reading a row -/

theorem row_readItems (cs : List Char) : Row (readItems cs).2.text (readItems cs).1 := by
  fun_induction readItems cs with
  | case1 => trivial
  | case2 => trivial
  | case3 => trivial
  | case4 c cs body ih =>
      refine ⟨wellFormed_readEscape c cs, ?_, ih⟩
      rw [readItems_text]
      exact goesOn_readEscape c cs
  | case5 c cs hlast hquote hescape body ih =>
      refine ⟨⟨hquote, fun hslash => ?_⟩, rfl, ih⟩
      cases cs with
      | nil => exact hlast hslash rfl
      | cons d cs => exact hescape d cs hslash rfl

theorem readItems_textOf_append {items : List StringItem} (ending : Ending)
    (hrow : Row ending.text items) : readItems (textOf items ++ ending.text) = (items, ending) := by
  induction items with
  | nil => cases ending <;> simp [Ending.text, readItems]
  | cons item items ih =>
      obtain ⟨hitem, hend, hrow⟩ := hrow
      have hread := ih hrow
      -- plain characters are read by an equation of their own, all other items start an escape
      by_cases hplain : ∃ c, item = plain c
      · obtain ⟨c, rfl⟩ := hplain
        rw [textOf_cons, text, List.append_assoc, List.singleton_append,
          readItems.eq_5 _ _ (fun h _ => hitem.2 h) hitem.1 (fun _ _ h _ => hitem.2 h), hread]
      · obtain ⟨c, cs, htext⟩ :
            ∃ c cs, item.text ++ (textOf items ++ ending.text) = '\\' :: c :: cs := by
          cases item with
          | plain c => exact absurd ⟨c, rfl⟩ hplain
          | _ => exact ⟨_, _, rfl⟩
        rw [textOf_cons, List.append_assoc, htext, readItems,
          readEscape_text_append hitem hend htext, hread]

/-- A text splits into a row before an ending in one way. -/
theorem Row.unique {items items' : List StringItem} {ending ending' : Ending}
    (hrow : Row ending.text items) (hrow' : Row ending'.text items')
    (htext : textOf items ++ ending.text = textOf items' ++ ending'.text) :
    items = items' ∧ ending = ending' := by
  have hread := readItems_textOf_append ending hrow
  rw [htext, readItems_textOf_append ending' hrow'] at hread
  exact ⟨(congrArg Prod.fst hread).symm, (congrArg Prod.snd hread).symm⟩

/-! ## The text of a row -/

theorem WellFormed.isStringBody {item : StringItem} (h : item.WellFormed) :
    IsStringBody item.text := by
  cases item with
  | plain c => exact .plain h.1 h.2 .nil
  | escape c => exact .escaped .nil
  | bareUnicode => exact .escaped .nil
  | unicode digits closed =>
      have hdigits : IsStringBody digits := isStringBody_of_plain fun c hc =>
        ⟨Text.ne_of_class (h c hc) (by decide), Text.ne_of_class (h c hc) (by decide)⟩
      refine .escaped (.plain (by decide) (by decide) (hdigits.append ?_))
      cases closed with
      | true => exact .plain (by decide) (by decide) .nil
      | false => exact .nil

theorem Row.isStringBody {items : List StringItem} {tail : List Char} (h : Row tail items) :
    IsStringBody (textOf items) := by
  induction items with
  | nil => exact .nil
  | cons item items ih => exact h.1.isStringBody.append (ih h.2.2)

theorem eq_nil_of_text_eq_append {body : List Char} {ending ending' : Ending}
    (hbody : IsStringBody body) (htext : ending.text = body ++ ending'.text) :
    body = [] ∧ ending = ending' := by
  cases hbody with
  | nil => cases ending <;> cases ending' <;> simp_all [Ending.text]
  | plain hquote hslash _ =>
      cases ending with
      | closed rest => exact absurd (List.cons.inj htext).1.symm hquote
      | unclosed => exact absurd htext (by simp [Ending.text])
      | unclosedEscape => exact absurd (List.cons.inj htext).1.symm hslash
  | escaped _ =>
      cases ending with
      | closed rest => exact absurd (List.cons.inj htext).1 (by decide)
      | unclosed => exact absurd htext (by simp [Ending.text])
      | unclosedEscape => exact absurd (List.cons.inj htext).2 (by simp)

/-- A string ends in one place, however its escapes are cut. -/
theorem eq_of_isStringBody {as bs : List Char} {ending ending' : Ending} (ha : IsStringBody as)
    (hb : IsStringBody bs) (htext : as ++ ending.text = bs ++ ending'.text) :
    as = bs ∧ ending = ending' := by
  -- the endings start with what no body can start with, so both bodies stop together
  induction ha generalizing bs with
  | nil =>
      obtain ⟨rfl, hending⟩ := eq_nil_of_text_eq_append hb htext
      exact ⟨rfl, hending⟩
  | plain hquote hslash ha ih =>
      cases hb with
      | nil =>
          have hnil := eq_nil_of_text_eq_append (.plain hquote hslash ha) htext.symm
          exact absurd hnil.1 (by simp)
      | plain _ _ hb =>
          obtain ⟨rfl, htail⟩ := List.cons.inj htext
          obtain ⟨rfl, hending⟩ := ih hb htail
          exact ⟨rfl, hending⟩
      | escaped _ => exact absurd (List.cons.inj htext).1 hslash
  | escaped ha ih =>
      cases hb with
      | nil =>
          have hnil := eq_nil_of_text_eq_append (.escaped ha) htext.symm
          exact absurd hnil.1 (by simp)
      | plain _ hslash _ => exact absurd (List.cons.inj htext).1.symm hslash
      | escaped hb =>
          obtain ⟨rfl, htail⟩ := List.cons.inj (List.cons.inj htext).2
          obtain ⟨rfl, hending⟩ := ih hb htail
          exact ⟨rfl, hending⟩

theorem exists_row {body : List Char} (hbody : IsStringBody body) (ending : Ending) :
    ∃ items, Row ending.text items ∧ textOf items = body := by
  have hrow := row_readItems (body ++ ending.text)
  obtain ⟨htext, hending⟩ :=
    eq_of_isStringBody hrow.isStringBody hbody (readItems_text (body ++ ending.text))
  rw [hending] at hrow
  exact ⟨_, hrow, htext⟩

end Lexis.StringItem

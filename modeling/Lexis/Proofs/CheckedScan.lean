import Lexis.Proofs.Cursor
import Lexis.Proofs.SegmentRow
import Lexis.Proofs.Trace
import Lexis.Scanner.Checked

set_option autoImplicit false

/-! # Checked scans never fault

A checked scan moves a cursor through the text and can fault at every turn: a check that fails, a
slice that is not on boundaries, a span that ends before it starts, a counter that overflows, a loop
that stands still. `scanWithin_eq_ok` says that it does not, and that it finds what a plain scan
finds, if the counters can hold one number more than the size of the text. Each part of a step, at a
cursor between what is read and what is not, leads to the cursor behind the piece that
`Segment.read` finds there. -/

namespace Lexis

/-! ## Ends of strings -/

/-- The character that ends a string, or the backslash that is left over. -/
def StringItem.Ending.mark : Ending → List Char
  | closed _ => ['"']
  | unclosed => []
  | unclosedEscape => ['\\']

/-- The text behind a string. -/
def StringItem.Ending.rest : Ending → List Char
  | closed rest => rest
  | _ => []

/-- What the segments of a trace add to a scan. -/
def Scan.ofPieces (log : Bool) (t : Trace) : Scan where
  tokens := t.tokens
  errors := t.errors
  events := if log then t.flatMap Placed.events else []

theorem Scan.ofPieces_append (log : Bool) (s t : Trace) :
    ofPieces log (s ++ t) =
      { tokens := (ofPieces log s).tokens ++ (ofPieces log t).tokens
        errors := (ofPieces log s).errors ++ (ofPieces log t).errors
        events := (ofPieces log s).events ++ (ofPieces log t).events } := by
  cases log <;> simp [ofPieces, Trace.tokens_append, Trace.errors_append]

namespace Scanner

open Cursor (between)

variable {limit : Nat}

/-! ## Errors -/

theorem checkedError_eq_ok {cause : LexError.Cause} {start : Position} {stop : Nat}
    (h : start.offset ≤ stop) : checkedError cause start stop = .ok ⟨cause, start, stop⟩ := by
  have hlength : (⟨cause, start, stop⟩ : LexError).span.length = .ok (stop - start.offset) :=
    if_pos h
  rw [checkedError, hlength]
  rfl

theorem unclosed_eq_ok {cause : LexError.Cause} {start : Position} {size : Nat}
    (h : start.offset + size ≤ limit) :
    unclosed limit cause start size = .ok ⟨cause, start, start.offset + size⟩ := by
  rw [unclosed, Fault.count, if_pos h]
  exact checkedError_eq_ok (Nat.le_add_right ..)

/-! ## Strings -/

/-- What reading an item behind `before` finds. -/
def Found.ofItem (before : List Char) (r : StringItem × List Char) : Found (Option Char) :=
  ⟨r.1.value?, itemErrors (Position.origin.after before) [r.1], between (before ++ r.1.text) r.2⟩

theorem escaped_between (before ahead : List Char) (item : StringItem) (rest : List Char) :
    escaped (between before ahead) (between (before ++ item.text) rest) item.value? =
      .ok (.ofItem before (item, rest)) := by
  have hle : (between before ahead).position.offset ≤
      (between (before ++ item.text) rest).position.offset := by simp
  cases hvalue : item.value? with
  | some c => simp [escaped, Found.ofItem, itemErrors, place, hvalue]
  | none =>
      have hslice : (between (before ++ item.text) rest).sliceFrom
          (between before ahead).position.offset = .ok item.text := by
        rw [Cursor.offset_between]
        exact Cursor.sliceFrom_between before item.text rest
      simp only [escaped, invalidEscape, hslice, bind, Except.bind, checkedError_eq_ok hle]
      simp [Found.ofItem, itemErrors, place, hvalue, Cursor.position_between, pure, Except.pure]

theorem scanUnicodeEscape_between {before cs : List Char} (ahead : List Char)
    (h : Text.size (before ++ '\\' :: 'u' :: cs) < limit) :
    scanUnicodeEscape limit (between before ahead) (between (before ++ ['\\', 'u']) cs) =
      .ok (.ofItem before (StringItem.readEscape 'u' cs)) := by
  by_cases hbrace : cs.head? = some '\x7b'
  · obtain ⟨ds, rfl⟩ := List.head?_eq_some_iff.1 hbrace
    have hmatch := @Cursor.matchWithin_between limit (before ++ ['\\', 'u']) '\x7b' ds
      (by simpa using h)
    have heat := @Cursor.eatWithin_between limit (before ++ ['\\', 'u'] ++ ['\x7b']) ds
      Char.isHexDigit (by simpa using h)
    have hslice := Cursor.sliceFrom_between (before ++ ['\\', 'u'] ++ ['\x7b'])
      (ds.takeWhile Char.isHexDigit) (ds.dropWhile Char.isHexDigit)
    have hsplit := ds.takeWhile_append_dropWhile (p := Char.isHexDigit)
    simp only [scanUnicodeEscape, hmatch, heat, hslice, bind, Except.bind, if_true,
      Cursor.offset_between]
    by_cases hclosed : (ds.dropWhile Char.isHexDigit).head? = some '\x7d'
    · obtain ⟨rest, hrest⟩ := List.head?_eq_some_iff.1 hclosed
      have hitem := escaped_between before ahead (.unicode (ds.takeWhile Char.isHexDigit) true) rest
      rw [StringItem.readEscape_u_closed hrest, ← hitem]
      rw [hrest] at hsplit ⊢
      rw [Cursor.matchWithin_between (by simpa [hsplit] using h)]
      simp [StringItem.text]
    · have hitem := escaped_between before ahead
        (.unicode (ds.takeWhile Char.isHexDigit) false) (ds.dropWhile Char.isHexDigit)
      rw [Cursor.matchWithin_between_of_ne hclosed, StringItem.readEscape_u_open hclosed, ← hitem]
      simp [StringItem.text]
  · rw [scanUnicodeEscape, Cursor.matchWithin_between_of_ne hbrace,
      StringItem.readEscape_u_of_ne_brace hbrace]
    exact escaped_between before ahead .bareUnicode cs

theorem scanEscape_between {before : List Char} {c : Char} {cs : List Char} (ahead : List Char)
    (h : Text.size (before ++ '\\' :: c :: cs) < limit) :
    scanEscape limit (between before ahead) (between (before ++ ['\\']) (c :: cs)) =
      .ok (.ofItem before (StringItem.readEscape c cs)) := by
  have hadvance := @Cursor.advanceWithin_between limit (before ++ ['\\']) c cs (by simpa using h)
  rw [List.append_assoc, List.singleton_append] at hadvance
  simp only [scanEscape, Cursor.peek_between, List.head?_cons, hadvance, bind, Except.bind]
  by_cases hu : c = 'u'
  · subst hu
    rw [if_pos rfl]
    exact scanUnicodeEscape_between ahead h
  · rw [if_neg hu, StringItem.readEscape_of_ne_u hu]
    exact escaped_between before ahead (.escape c) cs

/-- What reading the inside of a string behind `before` finds. -/
def Found.ofItems (before : List Char) (r : List StringItem × StringItem.Ending) :
    Found (Option (List Char)) where
  value := match r.2 with
    | .closed _ => some (StringItem.decode r.1)
    | _ => none
  errors := itemErrors (Position.origin.after before) r.1
  stop := between (before ++ (StringItem.textOf r.1 ++ r.2.mark)) r.2.rest

theorem scanItem_between_plain {before : List Char} {c : Char} {cs : List Char} (hslash : c ≠ '\\')
    (h : Text.size (before ++ c :: cs) < limit) :
    scanItem limit (between before (c :: cs)) c = .ok (.ofItem before (.plain c, cs)) := by
  simp only [scanItem, Cursor.advanceWithin_between h, bind, Except.bind, if_neg hslash]
  rfl

theorem scanItem_between_escape {before : List Char} {c : Char} {cs : List Char}
    (h : Text.size (before ++ '\\' :: c :: cs) < limit) :
    scanItem limit (between before ('\\' :: c :: cs)) '\\' =
      .ok (.ofItem before (StringItem.readEscape c cs)) := by
  simp only [scanItem, Cursor.advanceWithin_between h, bind, Except.bind, if_true]
  exact scanEscape_between _ h

/-- An item and what is inside behind it are inside; every item moves the cursor. -/
theorem scanInside_of_item {before cs rest : List Char} {c : Char} {item : StringItem}
    {body : List StringItem × StringItem.Ending} (hquote : c ≠ '"')
    (htext : item.text ++ rest = c :: cs) (h : Text.size (before ++ c :: cs) < limit)
    (hitem : scanItem limit (between before (c :: cs)) c = .ok (.ofItem before (item, rest)))
    (hrest : scanInside limit (between (before ++ item.text) rest) =
      .ok (.ofItems (before ++ item.text) body)) :
    scanInside limit (between before (c :: cs)) =
      .ok (.ofItems before (item :: body.1, body.2)) := by
  have hsize : Text.size (before ++ item.text) < limit := by
    rw [← htext, ← List.append_assoc, Text.size_append] at h
    omega
  have hmoves : Text.size before < Text.size (before ++ item.text) := by
    have hpos := Text.size_pos (List.length_pos_iff.1 item.length_text_pos)
    rw [Text.size_append]
    omega
  have hmoved : (between before (c :: cs)).position.offset <
        (Found.ofItem before (item, rest)).stop.position.offset ∧
      (Found.ofItem before (item, rest)).stop.position.offset ≤ limit := by
    simp only [Found.ofItem, Cursor.offset_between]
    omega
  rw [scanInside, Cursor.peek_between]
  simp only [List.head?_cons, if_neg hquote, hitem, bind, Except.bind, if_pos hmoved]
  simp only [Found.ofItem, hrest]
  obtain ⟨items, ending⟩ := body
  have herrors := itemErrors_cons (Position.origin.after before) item items
  rw [← Position.after_append] at herrors
  cases ending <;> cases hvalue : item.value? <;>
    simp [Found.ofItems, herrors, StringItem.decode, hvalue, StringItem.Ending.mark,
      StringItem.Ending.rest, pure, Except.pure]

theorem scanInside_between (cs : List Char) : ∀ before, Text.size (before ++ cs) < limit →
    scanInside limit (between before cs) = .ok (.ofItems before (StringItem.readItems cs)) := by
  fun_induction StringItem.readItems cs with
  | case1 =>
      intro before _
      rw [scanInside]
      simp [Found.ofItems, itemErrors, place, StringItem.Ending.mark, StringItem.Ending.rest]
  | case2 =>
      -- a backslash at the end is no item, and the string is not closed behind it either
      intro before h
      have hadvance := Cursor.advanceWithin_between h
      have hnone : scanInside limit (between (before ++ ['\\']) []) =
          .ok ⟨none, [], between (before ++ ['\\']) []⟩ := by
        rw [scanInside]
        rfl
      have hmoved : (between before ['\\']).position.offset <
            (between (before ++ ['\\']) []).position.offset ∧
          (between (before ++ ['\\']) []).position.offset ≤ limit := by
        have hpos := ('\\').utf8Size_pos
        simp only [Cursor.offset_between, Text.size_append, Text.size_cons, Text.size_nil] at h ⊢
        omega
      rw [scanInside]
      simp only [Cursor.peek_between, List.head?_cons, scanItem, hadvance, bind, Except.bind,
        scanEscape, List.head?_nil, if_true, if_pos hmoved, hnone]
      rfl
  | case3 rest =>
      intro before h
      rw [scanInside]
      simp only [Cursor.peek_between, List.head?_cons, Cursor.advanceWithin_between h, bind,
        Except.bind, if_true]
      rfl
  | case4 c cs body ih =>
      intro before h
      have htext := StringItem.readEscape_text c cs
      have hrest := ih (before ++ (StringItem.readEscape c cs).1.text)
        (by rwa [List.append_assoc, htext])
      exact scanInside_of_item (by decide) htext h (scanItem_between_escape h) hrest
  | case5 c cs hlast hquote hescape body ih =>
      intro before h
      have hslash : c ≠ '\\' := by
        rintro rfl
        cases cs with
        | nil => exact hlast rfl rfl
        | cons d cs => exact hescape d cs rfl rfl
      have hrest := ih (before ++ [c]) (by simpa using h)
      exact scanInside_of_item hquote rfl h (scanItem_between_plain hslash h) hrest

/-! ## Pieces -/

/-- The step that reads a segment behind `before`. -/
def Step.ofRead (before : List Char) (r : Segment × List Char) : Step :=
  ⟨r.1.token?, Placed.errors ⟨Position.origin.after before, r.1⟩, between (before ++ r.1.text) r.2⟩

/-- A segment without items has no errors but its own. -/
theorem Step.ofRead_eq {s : Segment} (hitems : s.items = []) (before rest : List Char) :
    Step.ofRead before (s, rest) =
      ⟨s.token?, (Placed.ownError? ⟨Position.origin.after before, s⟩).toList,
        between (before ++ s.text) rest⟩ := by
  rw [Step.ofRead, Placed.errors, hitems]
  rfl

theorem scanString_between {before cs : List Char} (ahead : List Char)
    (h : Text.size (before ++ '"' :: cs) < limit) :
    scanString limit (between before ahead) (between (before ++ ['"']) cs) =
      .ok (.ofRead before (Segment.readString cs)) := by
  have hinside := @scanInside_between limit cs (before ++ ['"']) (by simpa using h)
  have hunclosed : (between before ahead).position.offset + 1 ≤ limit := by
    have hpos := ('"').utf8Size_pos
    simp only [Text.size_append, Text.size_cons] at h
    rw [Cursor.offset_between]
    omega
  have herrors (items : List StringItem) :
      itemErrors (Position.origin.after (before ++ ['"'])) items =
        Placed.escapeErrors (Position.origin.after before) items := by
    rw [Position.after_append]
    rfl
  rw [scanString, hinside, Segment.readString]
  obtain ⟨items, ending⟩ := StringItem.readItems cs
  cases ending with
  | closed rest =>
      simp [Found.ofItems, Step.ofRead, herrors, Placed.errors, Placed.ownError?, Segment.items,
        Segment.fault?, Segment.token?, Segment.text, StringItem.Ending.mark,
        StringItem.Ending.rest, bind, Except.bind, pure, Except.pure]
  | unclosed =>
      simp only [Found.ofItems, bind, Except.bind, unclosed_eq_ok hunclosed]
      simp [Step.ofRead, herrors, Placed.errors, Placed.ownError?, Segment.items,
        Segment.fault?, Segment.token?, Segment.text, StringItem.Ending.mark,
        StringItem.Ending.rest, Cursor.position_between, pure, Except.pure]
  | unclosedEscape =>
      simp only [Found.ofItems, bind, Except.bind, unclosed_eq_ok hunclosed]
      simp [Step.ofRead, herrors, Placed.errors, Placed.ownError?, Segment.items,
        Segment.fault?, Segment.token?, Segment.text, StringItem.Ending.mark,
        StringItem.Ending.rest, Cursor.position_between, pure, Except.pure]

theorem decimalValue?_eq_ok {whole fraction : List Char} (hwhole : IsDigits whole)
    (hfraction : IsDigits fraction) :
    decimalValue? (whole ++ '.' :: fraction) = .ok (Binary64.ofDecimal? whole fraction) := by
  have hrun : ∀ c ∈ whole, decide (c ≠ '.') = true := by
    intro c hc
    exact decide_eq_true (Text.ne_of_class (hwhole.2 c hc) (by decide))
  have hstop : ∀ c ∈ ('.' :: fraction).head?, decide (c ≠ '.') = false := by simp
  have hdigits : whole ≠ [] ∧ fraction ≠ [] ∧ whole.all Char.isDigit ∧ fraction.all Char.isDigit :=
    ⟨hwhole.1, hfraction.1, List.all_eq_true.2 hwhole.2, List.all_eq_true.2 hfraction.2⟩
  simp only [decimalValue?, Text.takeWhile_run hrun hstop, Text.dropWhile_run hrun hstop,
    List.tail_cons, if_pos hdigits]

theorem number_between {before text rest : List Char} (ahead : List Char)
    (cause : String → LexError.Cause) (value? : Option Literal) :
    number (between before ahead) (between (before ++ text) rest) cause text value? =
      .ok ⟨value?.map fun value => (.number, some value),
        if value?.isNone then
          [⟨cause (String.ofList text), Position.origin.after before,
            Text.size before + Text.size text⟩]
        else [], between (before ++ text) rest⟩ := by
  have hle : (between before ahead).position.offset ≤
      (between (before ++ text) rest).position.offset := by simp
  cases value? with
  | some value => rfl
  | none =>
      simp only [number, checkedError_eq_ok hle, bind, Except.bind, pure, Except.pure]
      simp [Cursor.position_between, Position.after_origin]

theorem number_between_integer (before ahead digits rest : List Char) :
    number (between before ahead) (between (before ++ digits) rest) .integerOutOfRange digits
        ((Segment.integerValue? digits).map .integer) =
      .ok (.ofRead before (.integer digits, rest)) := by
  rw [number_between, Step.ofRead_eq (s := .integer digits) rfl]
  cases hvalue : Segment.integerValue? digits <;>
    simp [Placed.ownError?, Segment.token?, Segment.fault?, Segment.text, hvalue]

theorem number_between_decimal (before ahead whole fraction rest : List Char) :
    number (between before ahead) (between (before ++ (whole ++ '.' :: fraction)) rest)
        .decimalOutOfRange (whole ++ '.' :: fraction)
        ((Binary64.ofDecimal? whole fraction).map .decimal) =
      .ok (.ofRead before (.decimal whole fraction, rest)) := by
  rw [number_between, Step.ofRead_eq (s := .decimal whole fraction) rfl]
  cases hvalue : Binary64.ofDecimal? whole fraction <;>
    simp [Placed.ownError?, Segment.token?, Segment.fault?, Segment.text, hvalue]

theorem scanNumber_between {before : List Char} {c : Char} {cs : List Char} (ahead : List Char)
    (hc : c.isDigit = true) (h : Text.size (before ++ c :: cs) < limit) :
    scanNumber limit (between before ahead) (between (before ++ [c]) cs) =
      .ok (.ofRead before (Segment.readNumber (c :: cs))) := by
  have heat := @Cursor.eatWithin_between limit (before ++ [c]) cs Char.isDigit (by simpa using h)
  have hsplit := cs.takeWhile_append_dropWhile (p := Char.isDigit)
  have hwhole : IsDigits (c :: cs.takeWhile Char.isDigit) := by
    refine ⟨by simp, fun d hd => ?_⟩
    rcases List.mem_cons.1 hd with rfl | hd
    · exact hc
    · exact List.all_eq_true.1 List.all_takeWhile d hd
  simp only [scanNumber, heat, bind, Except.bind, Cursor.peek_between, Cursor.peekNext_between]
  rw [List.append_assoc, List.singleton_append, Segment.readNumber, List.takeWhile_cons_of_pos hc,
    List.dropWhile_cons_of_pos hc]
  generalize cs.takeWhile Char.isDigit = digits at *
  generalize cs.dropWhile Char.isDigit = tail at *
  subst hsplit
  by_cases hpoint : tail.head? = some '.' ∧ tail.tail.head?.any Char.isDigit = true
  · obtain ⟨rest, rfl⟩ := List.head?_eq_some_iff.1 hpoint.1
    have hdigit : rest.head?.any Char.isDigit = true := hpoint.2
    have hadvance := @Cursor.advanceWithin_between limit (before ++ c :: digits) '.' rest
      (by simpa using h)
    have heat := @Cursor.eatWithin_between limit (before ++ c :: digits ++ ['.']) rest
      Char.isDigit (by simpa using h)
    have hassoc : before ++ c :: digits ++ ['.'] ++ rest.takeWhile Char.isDigit =
        before ++ (c :: digits ++ '.' :: rest.takeWhile Char.isDigit) := by simp
    have hslice := Cursor.sliceFrom_between before
      (c :: digits ++ '.' :: rest.takeWhile Char.isDigit) (rest.dropWhile Char.isDigit)
    have hfraction : IsDigits (rest.takeWhile Char.isDigit) := by
      refine ⟨fun hnil => ?_, fun d hd => List.all_eq_true.1 List.all_takeWhile d hd⟩
      cases rest with
      | nil => simp at hdigit
      | cons d rest =>
          have hd : d.isDigit = true := by simpa using hdigit
          simp [hd] at hnil
    simp only [if_pos hpoint, if_pos hdigit, hadvance, heat, hassoc, hslice,
      decimalValue?_eq_ok hwhole hfraction, number_between_decimal, Cursor.offset_between]
  · have hslice := Cursor.sliceFrom_between before (c :: digits) tail
    simp only [if_neg hpoint, hslice, number_between_integer, Cursor.offset_between]
    split
    · next rest =>
        have hdigit : ¬ rest.head?.any Char.isDigit = true := fun hdigit => hpoint ⟨rfl, hdigit⟩
        rw [if_neg hdigit]
    · rfl

theorem scanWord_between {before : List Char} {c : Char} {cs : List Char} (ahead : List Char)
    (hc : Text.isWordStart c = true) (h : Text.size (before ++ c :: cs) < limit) :
    scanWord limit (between before ahead) (between (before ++ [c]) cs) =
      .ok (.ofRead before (Segment.readWord (c :: cs))) := by
  have hpart := Text.isWordPart_of_isWordStart hc
  have heat := @Cursor.eatWithin_between limit (before ++ [c]) cs Text.isWordPart
    (by simpa using h)
  rw [List.append_assoc, List.singleton_append] at heat
  have hslice := Cursor.sliceFrom_between before (c :: cs.takeWhile Text.isWordPart)
    (cs.dropWhile Text.isWordPart)
  simp only [scanWord, heat, bind, Except.bind, Cursor.offset_between, hslice]
  rw [Segment.readWord, List.takeWhile_cons_of_pos hpart, List.dropWhile_cons_of_pos hpart]
  rfl

theorem scanSymbol_between {before : List Char} {c : Char} {cs : List Char} (ahead : List Char)
    (h : Text.size (before ++ c :: cs) < limit) :
    scanSymbol limit (between before ahead) (between (before ++ [c]) cs) c =
      .ok (.ofRead before (Segment.readSymbol c cs)) := by
  rw [scanSymbol, Cursor.ahead_between, Segment.readSymbol]
  cases hread : Symbol.read? (c :: cs) with
  | some s =>
      have hsplit := Symbol.spelling_append_drop hread
      cases hspelling : s.spelling with
      | nil => exact absurd hspelling s.spelling_ne_nil
      | cons d tail =>
          rw [hspelling, List.cons_append] at hsplit
          obtain ⟨rfl, hsplit⟩ := List.cons.inj hsplit
          rw [List.length_cons, List.drop_succ_cons] at hsplit
          have hskip := @Cursor.skipWithin_between limit (before ++ [d]) tail
            (cs.drop tail.length) (by rw [hsplit]; simpa using h)
          rw [hsplit] at hskip
          simp only [hspelling, List.length_cons, Nat.add_sub_cancel, hskip, bind, Except.bind]
          simp [Step.ofRead_eq (s := .symbol s) rfl, Placed.ownError?, Segment.token?,
            Segment.fault?, Segment.text, hspelling, pure, Except.pure]
  | none =>
      have hle : (between before ahead).position.offset ≤
          (between (before ++ [c]) cs).position.offset := by simp
      simp only [checkedError_eq_ok hle, bind, Except.bind, pure, Except.pure]
      simp [Step.ofRead_eq (s := .unexpected c) rfl, Placed.ownError?, Segment.token?,
        Segment.fault?, Segment.text, Cursor.position_between]

theorem skipComment_between (cs : List Char) : ∀ before, Text.size (before ++ cs) < limit →
    skipComment limit cs (between before cs) =
      .ok (match Segment.splitAtCommentEnd? cs with
        | some (body, rest) => (true, between (before ++ (body ++ ['*', '/'])) rest)
        | none => (false, between (before ++ cs) [])) := by
  fun_induction Segment.splitAtCommentEnd? cs with
  | case1 =>
      intro before _
      simp [skipComment]
  | case2 rest =>
      intro before h
      have hstar := Cursor.advanceWithin_between h
      have hslash := @Cursor.advanceWithin_between limit (before ++ ['*']) '/' rest
        (by simpa using h)
      simp only [skipComment, hstar, bind, Except.bind, Cursor.peek_between, List.head?_cons,
        and_self, if_true, hslash]
      simp [pure, Except.pure]
  | case3 c cs hopen ih =>
      intro before h
      have hadvance := Cursor.advanceWithin_between h
      have hnot : ¬ (c = '*' ∧ cs.head? = some '/') := by
        rintro ⟨hc, hcs⟩
        obtain ⟨rest, rfl⟩ := List.head?_eq_some_iff.1 hcs
        exact hopen rest hc rfl
      have hrest := ih (before ++ [c]) (by simpa using h)
      simp only [skipComment, hadvance, bind, Except.bind, Cursor.peek_between, if_neg hnot, hrest]
      cases Segment.splitAtCommentEnd? cs <;> simp

theorem scanBlockComment_between {before cs : List Char} (ahead : List Char)
    (h : Text.size (before ++ '/' :: '*' :: cs) < limit) :
    scanBlockComment limit (between before ahead) (between (before ++ ['/', '*']) cs) =
      .ok (.ofRead before (Segment.readBlockComment cs)) := by
  have hskip := @skipComment_between limit cs (before ++ ['/', '*']) (by simpa using h)
  have hunclosed : (between before ahead).position.offset + 2 ≤ limit := by
    have hslash := ('/').utf8Size_pos
    have hstar := ('*').utf8Size_pos
    simp only [Text.size_append, Text.size_cons] at h
    rw [Cursor.offset_between]
    omega
  rw [scanBlockComment, Cursor.ahead_between, hskip, Segment.readBlockComment]
  cases Segment.splitAtCommentEnd? cs with
  | some r =>
      simp [Step.ofRead_eq (s := .blockComment r.1) rfl, Placed.ownError?, Segment.token?,
        Segment.fault?, Segment.text, bind, Except.bind, pure, Except.pure]
  | none =>
      simp only [bind, Except.bind, unclosed_eq_ok hunclosed]
      simp [Step.ofRead_eq (s := .openComment cs) rfl, Placed.ownError?, Segment.token?,
        Segment.fault?, Segment.text, Cursor.position_between, pure, Except.pure]

theorem scanSlash_between {before cs : List Char} (ahead : List Char)
    (h : Text.size (before ++ '/' :: cs) < limit) :
    scanSlash limit (between before ahead) (between (before ++ ['/']) cs) =
      .ok (.ofRead before (Segment.read '/' cs)) := by
  by_cases hline : cs.head? = some '/'
  · obtain ⟨rest, rfl⟩ := List.head?_eq_some_iff.1 hline
    have hmatch := @Cursor.matchWithin_between limit (before ++ ['/']) '/' rest (by simpa using h)
    have heat := @Cursor.eatWithin_between limit (before ++ ['/'] ++ ['/']) rest (· ≠ '\n')
      (by simpa using h)
    simp only [scanSlash, hmatch, heat, bind, Except.bind, if_true, Segment.read_slash_slash]
    simp [Segment.readLineComment, Step.ofRead_eq (s := .lineComment _) rfl, Placed.ownError?,
      Segment.token?, Segment.fault?, Segment.text, pure, Except.pure]
  · have hnoline := @Cursor.matchWithin_between_of_ne limit (before ++ ['/']) cs '/' hline
    by_cases hblock : cs.head? = some '*'
    · obtain ⟨rest, rfl⟩ := List.head?_eq_some_iff.1 hblock
      have hmatch := @Cursor.matchWithin_between limit (before ++ ['/']) '*' rest (by simpa using h)
      have hcomment := @scanBlockComment_between limit before rest ahead h
      rw [List.append_assoc, List.singleton_append] at hmatch
      simp only [scanSlash, hnoline, hmatch, bind, Except.bind, if_true, Bool.false_eq_true,
        if_false, hcomment, Segment.read_slash_star]
    · have hnoblock := @Cursor.matchWithin_between_of_ne limit (before ++ ['/']) cs '*' hblock
      have hread : Segment.read '/' cs = Segment.readSymbol '/' cs := by
        refine Segment.read_of_startsOther (by decide) (by decide) (by decide) (by decide) ?_
        intro _ d hd
        constructor
        · rintro rfl
          exact hline hd
        · rintro rfl
          exact hblock hd
      have hsymbol := @scanSymbol_between limit before '/' cs ahead h
      simp only [scanSlash, hnoline, hnoblock, bind, Except.bind, Bool.false_eq_true, if_false,
        hsymbol, hread]

/-- A step at a cursor finds the segment there. -/
theorem scanPiece_between {before : List Char} {c : Char} {cs : List Char}
    (h : Text.size (before ++ c :: cs) < limit) :
    scanPiece limit (between before (c :: cs)) c = .ok (.ofRead before (Segment.read c cs)) := by
  simp only [scanPiece, Cursor.advanceWithin_between h, bind, Except.bind]
  split
  · next hblank =>
      rw [Segment.read_of_isBlank hblank]
      rfl
  split
  · next hquote =>
      subst hquote
      exact scanString_between _ h
  split
  · next hdigit =>
      rw [Segment.read_of_isDigit hdigit]
      exact scanNumber_between _ hdigit h
  split
  · next hword =>
      rw [Segment.read_of_isWordStart hword]
      exact scanWord_between _ hword h
  split
  · next hslash =>
      subst hslash
      exact scanSlash_between _ h
  · next hblank hquote hdigit hword hslash =>
      rw [Segment.read_of_startsOther (Bool.eq_false_iff.2 hblank) hquote
        (Bool.eq_false_iff.2 hdigit) (Bool.eq_false_iff.2 hword) fun h => absurd h hslash]
      exact scanSymbol_between _ h

/-! ## Steps and runs -/

theorem checkedToken_between {before text rest : List Char} (ahead : List Char) (h : text ≠ [])
    (kind : TokenKind) (literal? : Option Literal) :
    checkedToken (between before ahead) (between (before ++ text) rest) kind literal? =
      .ok ⟨kind, String.ofList text, literal?, Position.origin.after before,
        Text.size before + Text.size text⟩ := by
  have hpos := Text.size_pos h
  have hstop : (between (before ++ text) rest).isBoundary (Text.size (before ++ text)) = true := by
    have hboundary := Cursor.isBoundary_between (before ++ text) [] rest
    rwa [List.append_nil] at hboundary
  have hwidth : Text.size before ≠ Text.size (before ++ text) := by
    rw [Text.size_append]
    omega
  simp only [checkedToken, Cursor.offset_between, Cursor.isBoundary_between, hstop,
    Cursor.sliceFrom_between, Fault.check, Span.isEmpty, hwidth, bind, Except.bind]
  simp [Cursor.position_between, pure, Except.pure]

theorem checkedStep_between {before : List Char} {c : Char} {cs : List Char} (log : Bool)
    (h : Text.size (before ++ c :: cs) < limit) :
    checkedStep limit log (between before (c :: cs)) =
      .ok (.ofPieces log [⟨Position.origin.after before, (Segment.read c cs).1⟩],
        between (before ++ (Segment.read c cs).1.text) (Segment.read c cs).2) := by
  have htext := (Segment.endsBefore_read c cs).wellFormed.text_ne_nil
  simp only [checkedStep, Cursor.peek_between, List.head?_cons, scanPiece_between h, bind,
    Except.bind, Step.ofRead]
  cases htoken : (Segment.read c cs).1.token? with
  | none =>
      simp [Scan.ofPieces, Trace.tokens, Trace.errors, Placed.token?, Placed.events, htoken, pure,
        Except.pure]
  | some token =>
      obtain ⟨kind, literal?⟩ := token
      simp only [checkedToken_between _ htext]
      simp [Scan.ofPieces, Trace.tokens, Trace.errors, Placed.token?, Placed.events, htoken, pure,
        Except.pure, Functor.map, Except.map]

/-- Behind a segment, the cursor has moved and is still inside the text. -/
theorem offset_between_read (before : List Char) (c : Char) (cs : List Char) :
    (between before (c :: cs)).position.offset <
        (between (before ++ (Segment.read c cs).1.text) (Segment.read c cs).2).position.offset ∧
      (between (before ++ (Segment.read c cs).1.text) (Segment.read c cs).2).position.offset ≤
        Text.size (before ++ c :: cs) := by
  have htext := (Segment.endsBefore_read c cs).wellFormed.text_ne_nil
  have hpos := Text.size_pos htext
  rw [← Segment.text_append_read c cs]
  simp only [Cursor.offset_between, Text.size_append]
  omega

theorem checkedRun_between (log : Bool) (cs : List Char) :
    ∀ before, Text.size (before ++ cs) < limit →
      checkedRun limit log (Text.size (before ++ cs)) (between before cs) =
        .ok (.ofPieces log (place Segment.text (Position.origin.after before)
          (Segment.readAll cs))) := by
  fun_induction Segment.readAll cs with
  | case1 =>
      intro before _
      have hend : Text.size (before ++ []) ≤ (between before []).position.offset := by simp
      rw [checkedRun, if_pos hend]
      simp [Scan.ofPieces, Trace.tokens, Trace.errors, place]
  | case2 c cs step ih =>
      intro before h
      obtain ⟨hmoved, hinside⟩ := offset_between_read before c cs
      have hahead : ¬ Text.size (before ++ c :: cs) ≤
          (between before (c :: cs)).position.offset := by
        omega
      have htext : before ++ step.1.text ++ step.2 = before ++ c :: cs := by
        rw [List.append_assoc, Segment.text_append_read]
      have hrest := ih (before ++ step.1.text) (by rwa [htext])
      rw [htext, Position.after_append] at hrest
      rw [checkedRun, if_neg hahead, checkedStep_between log h]
      simp only [bind, Except.bind, if_pos hmoved, if_pos hinside]
      rw [hrest]
      exact congrArg Except.ok (Scan.ofPieces_append log [_] _).symm

/-- A checked scan comes to an end without a fault, and it finds what a plain scan finds, if the
    counters can hold one number more than the size of the text: no check fails, no slice is off the
    boundaries, no span is reversed, and no offset, line or column is above that number. -/
theorem scanWithin_eq_ok (s : Scanner) (source : String) (h : source.utf8ByteSize < limit) :
    s.scanWithin limit source = .ok (s.scan source) := by
  rw [← Text.size_toList] at h
  have hrun := checkedRun_between s.config.logLexingPass.isEnabled source.toList [] h
  rw [List.nil_append, ← Cursor.ofText_eq_between] at hrun
  simp only [scanWithin, hrun, bind, Except.bind]
  cases hlog : s.config.logLexingPass.isEnabled <;>
    simp [scan, Scan.ofPieces, Scan.ofTrace, Trace.ofText, Trace.events, hlog, pure, Except.pure]

/-- With no room to spare: a string with an escape that is none and one that is, a decimal, a
    character that starts nothing, and a comment that is not closed on the second line. -/
theorem scanWithin_eq_ok_tight :
    "\"é\\q\\u\x7be9\x7d\" 1.5 ~\n/* \"".utf8ByteSize < 24 ∧
      scanWithin 24 {} "\"é\\q\\u\x7be9\x7d\" 1.5 ~\n/* \"" =
        .ok (scan {} "\"é\\q\\u\x7be9\x7d\" 1.5 ~\n/* \"") := by
  have hsize : "\"é\\q\\u\x7be9\x7d\" 1.5 ~\n/* \"".utf8ByteSize < 24 := by decide +kernel
  exact ⟨hsize, scanWithin_eq_ok {} _ hsize⟩

end Scanner

end Lexis

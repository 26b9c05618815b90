import Lexis.Proofs.Segment

set_option autoImplicit false

/-! # Segments in a row

A `Segment.Row` is a list of segments each of which ends where the next one starts. The segments of
a text are the one row that the text is (`readAll_eq_iff`), and a row that ends before another text
is read first, and then that text (`readAll_textOf_append`). So two texts can be scanned apart
exactly when the row of the first one also ends before the second. -/

namespace Lexis.Segment

/-- The source text of segments in a row. -/
def textOf (segments : List Segment) : List Char := segments.flatMap text

/-- Segments in a row before `tail`, each as long as it can be. -/
def Row (tail : List Char) : List Segment → Prop
  | [] => True
  | s :: segments => s.EndsBefore (textOf segments ++ tail) ∧ Row tail segments

@[simp] theorem textOf_nil : textOf [] = [] := rfl

@[simp] theorem textOf_cons (s : Segment) (segments : List Segment) :
    textOf (s :: segments) = s.text ++ textOf segments := List.flatMap_cons ..

@[simp] theorem textOf_append (as bs : List Segment) : textOf (as ++ bs) = textOf as ++ textOf bs :=
  List.flatMap_append ..

theorem row_append {tail : List Char} {as bs : List Segment} :
    Row tail (as ++ bs) ↔ Row (textOf bs ++ tail) as ∧ Row tail bs := by
  induction as with
  | nil => simp [Row]
  | cons s as ih => simp [Row, ih, and_assoc]

/-- Two characters behind a row decide whether its last segment is complete. -/
theorem Row.congr {segments : List Segment} {cs ds : List Char} (hrow : Row cs segments)
    (h : cs.take 2 = ds.take 2) : Row ds segments := by
  induction segments with
  | nil => trivial
  | cons s segments ih =>
      obtain ⟨hs, hrow⟩ := hrow
      refine ⟨⟨hs.wellFormed, ?_⟩, ih hrow⟩
      rw [← hs.complete]
      apply goesOn_congr
      have htake (n : Nat) (hn : n ≤ 2) : cs.take n = ds.take n := by
        have hprefix := congrArg (List.take n) h
        rwa [List.take_take, List.take_take, Nat.min_eq_left hn] at hprefix
      rw [List.take_append, List.take_append, htake _ (Nat.sub_le ..)]

/-- Before a character other than a point, this character alone decides. -/
theorem Row.congr_cons {segments : List Segment} {c : Char} (hc : c ≠ '.') {cs : List Char}
    (hrow : Row (c :: cs) segments) (ds : List Char) : Row (c :: ds) segments := by
  induction segments with
  | nil => trivial
  | cons s segments ih =>
      obtain ⟨hs, hrow⟩ := hrow
      refine ⟨⟨hs.wellFormed, ?_⟩, ih hrow⟩
      rw [← hs.complete]
      cases textOf segments with
      | nil =>
          cases s with
          | integer digits => simp [goesOn, hc]
          | _ => rfl
      | cons d tail =>
          apply goesOn_congr
          cases tail <;> rfl

theorem WellFormed.text_ne_nil {s : Segment} (h : s.WellFormed) : s.text ≠ [] := by
  cases s with
  | symbol s => exact s.spelling_ne_nil
  | word text =>
      obtain ⟨c, tail, rfl, -⟩ : IsWord text := h
      simp [text]
  | integer digits => exact h.1
  | _ => simp [text]

/-! ## Reading a row -/

theorem readAll_cons (c : Char) (cs : List Char) :
    readAll (c :: cs) = (read c cs).1 :: readAll (read c cs).2 := readAll.eq_2 c cs

theorem textOf_readAll (cs : List Char) : textOf (readAll cs) = cs := by
  fun_induction readAll cs with
  | case1 => rfl
  | case2 c cs step ih => rw [textOf_cons, ih, text_append_read]

theorem row_readAll (cs : List Char) : Row [] (readAll cs) := by
  fun_induction readAll cs with
  | case1 => trivial
  | case2 c cs step ih =>
      refine ⟨?_, ih⟩
      rw [textOf_readAll, List.append_nil]
      exact endsBefore_read c cs

theorem readAll_text_append {s : Segment} {rest : List Char} (h : s.EndsBefore rest) :
    readAll (s.text ++ rest) = s :: readAll rest := by
  cases htext : s.text ++ rest with
  | nil => exact absurd (List.append_eq_nil_iff.1 htext).1 h.wellFormed.text_ne_nil
  | cons c cs => rw [readAll_cons, read_text_append h htext]

theorem readAll_blank {c : Char} (hc : Text.isBlank c = true) (cs : List Char) :
    readAll (c :: cs) = blank c :: readAll cs := readAll_text_append (s := blank c) ⟨hc, rfl⟩

theorem readAll_unexpected {c : Char} (hc : StartsNothing c) (cs : List Char) :
    readAll (c :: cs) = unexpected c :: readAll cs :=
  readAll_text_append (s := unexpected c) ⟨hc, rfl⟩

/-- A row is read first, and then the text behind it. -/
theorem readAll_textOf_append {segments : List Segment} {tail : List Char}
    (h : Row tail segments) : readAll (textOf segments ++ tail) = segments ++ readAll tail := by
  induction segments with
  | nil => rfl
  | cons s segments ih =>
      obtain ⟨hs, hrow⟩ := h
      rw [textOf_cons, List.append_assoc, readAll_text_append hs, ih hrow, List.cons_append]

/-- Two texts are read apart if the first one is complete before the second. -/
theorem readAll_append {as bs : List Char} (h : Row bs (readAll as)) :
    readAll (as ++ bs) = readAll as ++ readAll bs := by
  have hread := readAll_textOf_append h
  rwa [textOf_readAll] at hread

/-- The segments of a text are the one row that the text is. -/
theorem readAll_eq_iff {cs : List Char} {segments : List Segment} :
    readAll cs = segments ↔ textOf segments = cs ∧ Row [] segments := by
  constructor
  · rintro rfl
    exact ⟨textOf_readAll cs, row_readAll cs⟩
  · rintro ⟨rfl, hrow⟩
    have hread := readAll_textOf_append hrow
    rwa [List.append_nil, readAll, List.append_nil] at hread

/-- A text is the text of one well-formed segment at most. -/
theorem WellFormed.eq_of_text {s s' : Segment} (h : s.WellFormed) (h' : s'.WellFormed)
    (htext : s.text = s'.text) : s = s' := by
  have hread : readAll (s.text ++ []) = s :: readAll [] := readAll_text_append ⟨h, goesOn_nil s⟩
  rw [htext, readAll_text_append ⟨h', goesOn_nil s'⟩] at hread
  exact (List.cons.inj hread).1.symm

end Lexis.Segment

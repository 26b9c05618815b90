import Lexis.Cursor.Within
import Lexis.Proofs.Position

set_option autoImplicit false

/-! # Cursors between two texts

A cursor that has come from the start of a text stands `between` what it has read and what it has
not. Each operation leads from such a cursor to such a cursor, and as long as the counters can hold
one number more than the size of the whole text, none of them overflows: no line or column is
greater than that (`Position.isWithin_after_origin`). -/

namespace Lexis

theorem Text.size_reverse (cs : List Char) : size cs.reverse = size cs := by
  induction cs with
  | nil => rfl
  | cons c cs ih => simp [ih, Nat.add_comm]

/-- A text has its boundaries at the same places in either direction. -/
theorem Text.isBoundary_reverse {cs : List Char} {n : Nat} (h : n ≤ size cs) :
    isBoundary cs.reverse (size cs - n) = true ↔ isBoundary cs n = true := by
  rw [isBoundary_iff, isBoundary_iff]
  constructor
  · rintro ⟨bs, as, hcs, hsize⟩
    have hcs : cs = as.reverse ++ bs.reverse := by
      rw [← List.reverse_append, ← hcs, List.reverse_reverse]
    have htotal := congrArg size hcs
    rw [size_append, size_reverse bs] at htotal
    exact ⟨as.reverse, bs.reverse, hcs, by omega⟩
  · rintro ⟨as, bs, rfl, rfl⟩
    refine ⟨bs.reverse, as.reverse, List.reverse_append, ?_⟩
    rw [size_append, size_reverse, Nat.add_sub_cancel_left]

/-- Of two first parts of a text the one that is not greater starts the other. -/
theorem Text.exists_of_size_le {as bs cs ds : List Char} (h : as ++ bs = cs ++ ds)
    (hsize : size as ≤ size cs) : ∃ more, cs = as ++ more ∧ bs = more ++ ds := by
  obtain ⟨more, hcs, hbs⟩ | ⟨more, has, hds⟩ := List.append_eq_append_iff.1 h
  · exact ⟨more, hcs, hbs⟩
  · obtain rfl : more = [] := by
      by_contra hne
      have hpos := size_pos hne
      rw [has, size_append] at hsize
      omega
    exact ⟨[], by rw [has, List.append_nil, List.append_nil], hds.symm⟩

theorem Text.isBoundary_append_left {as bs : List Char} {n : Nat} (h : n ≤ size as) :
    isBoundary (as ++ bs) n = true ↔ isBoundary as n = true := by
  rw [isBoundary_iff, isBoundary_iff]
  constructor
  · rintro ⟨before, behind, htext, rfl⟩
    obtain ⟨more, rfl, -⟩ := exists_of_size_le htext.symm h
    exact ⟨before, more, rfl, rfl⟩
  · rintro ⟨before, behind, rfl, rfl⟩
    exact ⟨before, behind ++ bs, List.append_assoc .., rfl⟩

theorem Text.isBoundary_append_right {as bs : List Char} {n : Nat} (h : size as ≤ n) :
    isBoundary (as ++ bs) n = true ↔ isBoundary bs (n - size as) = true := by
  rw [isBoundary_iff, isBoundary_iff]
  constructor
  · rintro ⟨before, behind, htext, rfl⟩
    obtain ⟨more, rfl, rfl⟩ := exists_of_size_le htext h
    exact ⟨more, behind, rfl, by rw [size_append, Nat.add_sub_cancel_left]⟩
  · rintro ⟨before, behind, rfl, hsize⟩
    refine ⟨as ++ before, behind, (List.append_assoc ..).symm, ?_⟩
    rw [size_append]
    omega

theorem Position.isWithin_after_origin {limit : Nat} {cs : List Char} (h : Text.size cs < limit) :
    (origin.after cs).isWithin limit = true := by
  have hlength := Text.length_le_size cs
  have hline : cs.count '\n' ≤ cs.length := List.count_le_length
  have hcolumn := Text.length_lastLine_le cs
  rw [after_origin]
  simp only [isWithin, Bool.and_eq_true, decide_eq_true_eq]
  omega

namespace Cursor

/-- The cursor behind `before` in a text that goes on with `ahead`. -/
def between (before ahead : List Char) : Cursor :=
  ⟨before.reverse, ahead, Position.origin.after before⟩

theorem ofText_eq_between (cs : List Char) : ofText cs = between [] cs := rfl

@[simp] theorem ahead_between (before ahead : List Char) :
    (between before ahead).ahead = ahead := rfl

theorem position_between (before ahead : List Char) :
    (between before ahead).position = Position.origin.after before := rfl

@[simp] theorem offset_between (before ahead : List Char) :
    (between before ahead).position.offset = Text.size before := by
  rw [position_between, Position.after_origin]

@[simp] theorem peek_between (before ahead : List Char) :
    (between before ahead).peek = ahead.head? := rfl

@[simp] theorem peekNext_between (before ahead : List Char) :
    (between before ahead).peekNext = ahead.tail.head? := rfl

@[simp] theorem advance_between (before : List Char) (c : Char) (cs : List Char) :
    (between before (c :: cs)).advance = between (before ++ [c]) cs := by
  simp [between, advance, Position.after_append]

section

variable {limit : Nat}

theorem advanceWithin_between {before : List Char} {c : Char} {cs : List Char}
    (h : Text.size (before ++ c :: cs) < limit) :
    (between before (c :: cs)).advanceWithin limit = .ok (between (before ++ [c]) cs) := by
  have hsize : Text.size (before ++ [c]) < limit := by
    simp only [Text.size_append, Text.size_cons, Text.size_nil] at h ⊢
    omega
  rw [advanceWithin, advance_between, position_between, Position.isWithin_after_origin hsize,
    if_pos rfl]

theorem skipWithin_between {before as bs : List Char}
    (h : Text.size (before ++ (as ++ bs)) < limit) :
    (between before (as ++ bs)).skipWithin limit as.length = .ok (between (before ++ as) bs) := by
  induction as generalizing before with
  | nil => simp [skipWithin]
  | cons c as ih =>
      rw [List.cons_append] at h
      have hstep := advanceWithin_between h
      have hrest := @ih (before ++ [c]) (by simpa using h)
      rw [List.append_assoc, List.singleton_append] at hrest
      rw [List.cons_append, List.length_cons, skipWithin, hstep, ← hrest]
      rfl

theorem eatWithin_between {before cs : List Char} (p : Char → Bool)
    (h : Text.size (before ++ cs) < limit) :
    (between before cs).eatWithin limit p =
      .ok (between (before ++ cs.takeWhile p) (cs.dropWhile p)) := by
  have hsplit := cs.takeWhile_append_dropWhile (p := p)
  have hskip := @skipWithin_between limit before (cs.takeWhile p) (cs.dropWhile p) (by rwa [hsplit])
  rwa [hsplit] at hskip

theorem matchWithin_between {before : List Char} {c : Char} {cs : List Char}
    (h : Text.size (before ++ c :: cs) < limit) :
    (between before (c :: cs)).matchWithin limit c = .ok (true, between (before ++ [c]) cs) := by
  rw [matchWithin, peek_between, List.head?_cons, if_pos rfl, advanceWithin_between h]
  rfl

theorem matchWithin_between_of_ne {before cs : List Char} {c : Char} (h : cs.head? ≠ some c) :
    (between before cs).matchWithin limit c = .ok (false, between before cs) := by
  rw [matchWithin, peek_between, if_neg h]

end

/-! ## Slices and boundaries -/

/-- A slice up to the cursor is what is left of the text before it when its first characters are
    skipped. -/
theorem sliceFrom_eq_ok_iff {before ahead text : List Char} {start : Nat} :
    (between before ahead).sliceFrom start = .ok text ↔
      ∃ skipped, before = skipped ++ text ∧ start = Text.size skipped := by
  rw [sliceFrom, offset_between]
  constructor
  · intro h
    split at h
    · next hle =>
        split at h
        · next reversed rest hcut =>
            -- the text behind the cursor stands backwards, and is cut at the same place
            obtain ⟨hbehind, hsize⟩ := Text.cut?_eq_some_iff.1 hcut
            obtain rfl := Except.ok.inj h
            have hbefore : before = rest.reverse ++ reversed.reverse := by
              rw [← List.reverse_append, ← hbehind, between, List.reverse_reverse]
            refine ⟨rest.reverse, hbefore, ?_⟩
            have htotal := congrArg Text.size hbefore
            rw [Text.size_append, Text.size_reverse reversed] at htotal
            omega
        · simp at h
    · simp at h
  · rintro ⟨skipped, rfl, rfl⟩
    have hcut : Text.cut? (between (skipped ++ text) ahead).behind
        (Text.size (skipped ++ text) - Text.size skipped) =
          some (text.reverse, skipped.reverse) := by
      refine Text.cut?_eq_some_iff.2 ⟨List.reverse_append, ?_⟩
      rw [Text.size_append, Nat.add_sub_cancel_left, Text.size_reverse]
    rw [if_pos (by rw [Text.size_append]; exact Nat.le_add_right ..), hcut]
    simp

theorem sliceFrom_between (before text ahead : List Char) :
    (between (before ++ text) ahead).sliceFrom (Text.size before) = .ok text :=
  sliceFrom_eq_ok_iff.2 ⟨before, rfl, rfl⟩

/-- The boundaries that a cursor tells are those of the whole text. -/
theorem isBoundary_between_iff {before ahead : List Char} {offset : Nat} :
    (between before ahead).isBoundary offset = true ↔
      Text.isBoundary (before ++ ahead) offset = true := by
  rw [isBoundary, offset_between]
  split
  · next hle =>
      rw [Text.isBoundary_append_left hle, ← Text.isBoundary_reverse hle]
      rfl
  · next hgt =>
      rw [Text.isBoundary_append_right (Nat.le_of_not_le hgt)]
      rfl

theorem isBoundary_between (before text ahead : List Char) :
    (between (before ++ text) ahead).isBoundary (Text.size before) = true := by
  rw [isBoundary_between_iff, List.append_assoc]
  exact Text.isBoundary_iff.2 ⟨before, text ++ ahead, rfl, rfl⟩

end Cursor

end Lexis

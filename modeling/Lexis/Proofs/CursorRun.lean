import Lexis.Proofs.Cursor
import Lexis.Proofs.LongestMatch
import Mathlib.Data.List.TakeWhile

set_option autoImplicit false

/-! # Runs of cursor operations

A cursor stands in a text if it stands between a first part of the text and the rest. An operation
moves the cursor in use forward by whole characters, leaves it, or takes up a cursor that was
remembered, so that the cursor in use and all cursors that can be taken up again go on to stand in
the text (`Run.StandsIn.step`), however long the run is (`Run.StandsIn.after`). What a cursor tells
of its place, of the characters ahead and of the text behind it (`Cursor.Tells`) is then what the
text has there (`Run.exists_tells_after`). -/

namespace Lexis

/-- The first characters that have a property are the longest start of a text that does. -/
theorem isLongestStart_takeWhile (p : Char → Bool) (cs : List Char) :
    IsLongestStart (fun text => ∀ c ∈ text, p c = true) (cs.takeWhile p) cs where
  holds := fun _ => List.mem_takeWhile_imp
  starts := List.takeWhile_prefix p
  longest other hother hprefix := by
    obtain ⟨rest, rfl⟩ := hprefix
    rw [List.takeWhile_append_of_pos hother, List.length_append]
    exact Nat.le_add_right ..

namespace Cursor

variable {before ahead : List Char}

@[simp] theorem sourceSize_between (before ahead : List Char) :
    (between before ahead).sourceSize = Text.size (before ++ ahead) := by
  rw [sourceSize, between, Text.size_reverse, Text.size_append]

theorem isAtEnd_between_iff : (between before ahead).isAtEnd = true ↔ ahead = [] := by
  rw [isAtEnd, sourceSize_between, offset_between, Text.size_append, decide_eq_true_iff]
  constructor
  · intro hle
    by_contra hne
    have hpos := Text.size_pos hne
    omega
  · rintro rfl
    exact Nat.le_refl _

theorem advance_between_nil (before : List Char) : (between before []).advance = between before [] :=
  rfl

/-- Reading on as long as characters have a property reads the longest run of them. -/
theorem eatWhile_between (p : Char → Bool) (before ahead : List Char) :
    (between before ahead).eatWhile p =
      between (before ++ ahead.takeWhile p) (ahead.dropWhile p) := by
  induction ahead generalizing before with
  | nil =>
      rw [eatWhile, if_neg (by simp)]
      simp
  | cons c cs ih =>
      by_cases hc : p c = true
      · rw [eatWhile, if_pos (by simpa using hc), advance_between, ih]
        simp [hc]
      · rw [eatWhile, if_neg (by simpa using hc)]
        simp [hc]

/-- A slice up to a cursor can be taken from the boundaries of the text that are not behind it. -/
theorem exists_sliceFrom_between_iff {start : Nat} :
    (∃ text, (between before ahead).sliceFrom start = .ok text) ↔
      start ≤ Text.size before ∧ Text.isBoundary (before ++ ahead) start = true := by
  constructor
  · rintro ⟨text, htext⟩
    obtain ⟨skipped, rfl, rfl⟩ := sliceFrom_eq_ok_iff.1 htext
    refine ⟨by simp, ?_⟩
    rw [List.append_assoc]
    exact Text.isBoundary_iff.2 ⟨skipped, text ++ ahead, rfl, rfl⟩
  · rintro ⟨hle, hboundary⟩
    rw [Text.isBoundary_append_left hle] at hboundary
    obtain ⟨skipped, text, rfl, rfl⟩ := Text.isBoundary_iff.1 hboundary
    exact ⟨text, sliceFrom_between skipped text ahead⟩

/-! ## What a cursor tells -/

/-- What a cursor tells is right for the place behind `before` and in front of `ahead`. -/
structure Tells (k : Cursor) (before ahead : List Char) : Prop where
  sourceSize : k.sourceSize = Text.size (before ++ ahead)
  position : k.position =
    ⟨Text.size before, 1 + before.count '\n', 1 + (Text.lastLine before).length⟩
  offset_le : k.position.offset ≤ k.sourceSize
  isBoundary_offset : k.isBoundary k.position.offset = true
  isBoundary_iff : ∀ offset,
    k.isBoundary offset = true ↔ Text.isBoundary (before ++ ahead) offset = true
  peek : k.peek = ahead.head?
  peekNext : k.peekNext = ahead.tail.head?
  isAtEnd_iff : k.isAtEnd = true ↔ k.peek = none
  /-- What is read is the longest start of the text ahead with characters that `p` accepts. -/
  eatWhile : ∀ p, ∃ eaten, IsLongestStart (fun text => ∀ c ∈ text, p c = true) eaten ahead ∧
    (k.eatWhile p).sliceFrom k.position.offset = .ok eaten ∧
    (k.eatWhile p).position = k.position.after eaten
  exists_sliceFrom_iff : ∀ start, (∃ text, k.sliceFrom start = .ok text) ↔
    start ≤ k.position.offset ∧ k.isBoundary start = true
  sliceFrom_eq_ok_iff : ∀ start text, k.sliceFrom start = .ok text ↔
    ∃ skipped, before = skipped ++ text ∧ start = Text.size skipped

theorem tells_between (before ahead : List Char) : (between before ahead).Tells before ahead where
  sourceSize := sourceSize_between before ahead
  position := by rw [position_between, Position.after_origin, Nat.add_comm 1, Nat.add_comm 1]
  offset_le := by
    rw [offset_between, sourceSize_between, Text.size_append]
    exact Nat.le_add_right ..
  isBoundary_offset := by
    rw [isBoundary_between_iff, offset_between]
    exact Text.isBoundary_iff.2 ⟨before, ahead, rfl, rfl⟩
  isBoundary_iff _ := isBoundary_between_iff
  peek := peek_between before ahead
  peekNext := peekNext_between before ahead
  isAtEnd_iff := by rw [isAtEnd_between_iff, peek_between, List.head?_eq_none_iff]
  eatWhile p := by
    refine ⟨ahead.takeWhile p, isLongestStart_takeWhile p ahead, ?_, ?_⟩
    · rw [eatWhile_between, offset_between, sliceFrom_between]
    · rw [eatWhile_between, position_between, position_between, Position.after_append]
  exists_sliceFrom_iff start := by
    rw [exists_sliceFrom_between_iff, offset_between, isBoundary_between_iff]
  sliceFrom_eq_ok_iff _ _ := Cursor.sliceFrom_eq_ok_iff

/-! ## Cursors in a text -/

/-- A cursor stands between two parts of a text. -/
def StandsIn (cs : List Char) (k : Cursor) : Prop :=
  ∃ before ahead, cs = before ++ ahead ∧ k = between before ahead

variable {cs : List Char} {k : Cursor}

theorem StandsIn.advance (h : k.StandsIn cs) : k.advance.StandsIn cs := by
  obtain ⟨before, ahead, rfl, rfl⟩ := h
  cases ahead with
  | nil => exact ⟨before, [], rfl, advance_between_nil before⟩
  | cons c ahead =>
      refine ⟨before ++ [c], ahead, ?_, advance_between before c ahead⟩
      rw [List.append_assoc, List.singleton_append]

theorem StandsIn.matchChar (h : k.StandsIn cs) (c : Char) : (k.matchChar c).2.StandsIn cs := by
  unfold Cursor.matchChar
  split
  · exact h.advance
  · exact h

theorem StandsIn.eatWhile (h : k.StandsIn cs) (p : Char → Bool) : (k.eatWhile p).StandsIn cs := by
  obtain ⟨before, ahead, rfl, rfl⟩ := h
  refine ⟨before ++ ahead.takeWhile p, ahead.dropWhile p, ?_, eatWhile_between p before ahead⟩
  rw [List.append_assoc, List.takeWhile_append_dropWhile]

/-! ## Runs -/

namespace Run

/-- The run that the trace of some operations ends with. -/
def after (r : Run) (ops : List Op) : Run := ((r.trace ops).getLast?.map Prod.snd).getD r

theorem after_nil (r : Run) : r.after [] = r := rfl

theorem after_cons (r : Run) (op : Op) (ops : List Op) :
    r.after (op :: ops) = (r.step op).2.after ops := by
  rw [after, trace, List.getLast?_cons, after]
  cases ((r.step op).2.trace ops).getLast? <;> rfl

/-- The cursor in use and those remembered stand in a text. -/
structure StandsIn (cs : List Char) (r : Run) : Prop where
  current : r.current.StandsIn cs
  saved : ∀ k ∈ r.saved, k.StandsIn cs

variable {r : Run}

theorem standsIn_ofText (cs : List Char) : (ofText cs).StandsIn cs := by
  have hstart : (Cursor.ofText cs).StandsIn cs := ⟨[], cs, rfl, ofText_eq_between cs⟩
  refine ⟨hstart, fun k hk => ?_⟩
  obtain rfl := List.mem_singleton.1 hk
  exact hstart

theorem StandsIn.step (h : r.StandsIn cs) (op : Op) : (r.step op).2.StandsIn cs := by
  cases op with
  | peek => exact h
  | peekNext => exact h
  | advance => exact ⟨h.current.advance, h.saved⟩
  | matchChar c => exact ⟨h.current.matchChar c, h.saved⟩
  | eatWhile p => exact ⟨h.current.eatWhile p, h.saved⟩
  | sliceFrom start => exact h
  | isBoundary offset => exact h
  | sourceSize => exact h
  | save => exact ⟨h.current, List.forall_mem_cons.2 ⟨h.current, h.saved⟩⟩
  | restore back =>
      -- where no cursor is remembered the one in use stays
      refine ⟨?_, h.saved⟩
      show (r.saved.getD back r.current).StandsIn cs
      rw [List.getD_eq_getElem?_getD]
      cases hsaved : r.saved[back]? with
      | none => exact h.current
      | some k => exact h.saved k (List.mem_of_getElem? hsaved)

theorem StandsIn.after (h : r.StandsIn cs) (ops : List Op) : (r.after ops).StandsIn cs := by
  induction ops generalizing r with
  | nil =>
      rw [after_nil]
      exact h
  | cons op ops ih =>
      rw [after_cons]
      exact ih (h.step op)

/-- Wherever operations lead, the cursor tells what the text has at some place of it. -/
theorem exists_tells_after (cs : List Char) (ops : List Op) :
    ∃ before ahead, cs = before ++ ahead ∧ ((ofText cs).after ops).current.Tells before ahead := by
  obtain ⟨before, ahead, htext, hk⟩ := ((standsIn_ofText cs).after ops).current
  rw [hk]
  exact ⟨before, ahead, htext, tells_between before ahead⟩

end Run

end Cursor

end Lexis

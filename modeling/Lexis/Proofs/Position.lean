import Lexis.Position
import Mathlib.Data.List.Induction

set_option autoImplicit false

/-! # Walks from the start of a text

A walk counts lines and columns as it goes. Where it gets to can be told from the text that it has
passed at once (`Position.after_origin`): the line from the number of line feeds, the column from
the text behind the last of them. -/

namespace Lexis

/-- The text behind the last line feed. -/
def Text.lastLine (cs : List Char) : List Char := (cs.reverse.takeWhile (· ≠ '\n')).reverse

theorem Text.lastLine_concat (cs : List Char) (c : Char) :
    lastLine (cs ++ [c]) = if c = '\n' then [] else lastLine cs ++ [c] := by
  unfold lastLine
  by_cases hc : c = '\n'
  · simp [hc]
  · simp [hc]

theorem Text.length_lastLine_le (cs : List Char) : (lastLine cs).length ≤ cs.length := by
  have hle := (List.takeWhile_sublist (· ≠ '\n') (l := cs.reverse)).length_le
  simpa [lastLine] using hle

namespace Position

@[simp] theorem offset_origin : origin.offset = 0 := rfl

/-- Lines and columns are counted from one. -/
structure Counted (p : Position) : Prop where
  line_pos : 1 ≤ p.line
  column_pos : 1 ≤ p.column

theorem counted_origin : origin.Counted := ⟨Nat.le_refl 1, Nat.le_refl 1⟩

theorem Counted.next {p : Position} (h : p.Counted) (c : Char) : (p.next c).Counted := by
  have hline := h.line_pos
  unfold Position.next
  split
  · exact ⟨by simp, by simp⟩
  · exact ⟨hline, by simp⟩

theorem Counted.after {p : Position} (h : p.Counted) (cs : List Char) : (p.after cs).Counted := by
  induction cs generalizing p with
  | nil => exact h
  | cons c cs ih => exact ih (h.next c)

theorem line_after (p : Position) (cs : List Char) :
    (p.after cs).line = p.line + cs.count '\n' := by
  induction cs generalizing p with
  | nil => rfl
  | cons c cs ih =>
      rw [after_cons, ih, List.count_cons]
      unfold next
      by_cases hc : c = '\n'
      · simp [hc, Nat.add_comm, Nat.add_left_comm]
      · simp [hc]

theorem column_after_origin (cs : List Char) :
    (origin.after cs).column = (Text.lastLine cs).length + 1 := by
  -- the column is reset from behind, so the induction takes the last character off
  induction cs using List.reverseRecOn with
  | nil => rfl
  | append_singleton cs c ih =>
      rw [after_append, after_cons, after_nil, Text.lastLine_concat, next]
      by_cases hc : c = '\n'
      · simp [hc]
      · simp [hc, ih]

/-- The place behind a text, told by the text. -/
theorem after_origin (cs : List Char) :
    origin.after cs = ⟨Text.size cs, cs.count '\n' + 1, (Text.lastLine cs).length + 1⟩ := by
  have hoffset := origin.offset_after cs
  have hline := origin.line_after cs
  have hcolumn := column_after_origin cs
  generalize origin.after cs = p at hoffset hline hcolumn
  obtain ⟨offset, line, column⟩ := p
  simp_all [origin, Nat.add_comm]

end Position

end Lexis

import Lexis.Proofs.LineFeed
import Lexis.Proofs.Position
import Lexis.SourceMap

set_option autoImplicit false

/-! # Places by source maps

A source map finds a place by search, from the table of line starts. Cut at the place, the table is
the starts of the lines before it, all up to the offset, and those of the lines behind it, all past
the offset. The search finds where the first part ends (`bisect_append`); so the line and column by
map are those by walk (`position_ofText`). -/

namespace Lexis

/-! ## Slices -/

namespace Text

/-- The text up to and with the last line feed. -/
def wholeLines (cs : List Char) : List Char := (cs.reverse.dropWhile (· ≠ '\n')).reverse

theorem wholeLines_append_lastLine (cs : List Char) : wholeLines cs ++ lastLine cs = cs := by
  rw [wholeLines, lastLine, ← List.reverse_append, List.takeWhile_append_dropWhile,
    List.reverse_reverse]

theorem wholeLines_concat (cs : List Char) (c : Char) :
    wholeLines (cs ++ [c]) = if c = '\n' then cs ++ [c] else wholeLines cs := by
  unfold wholeLines
  by_cases hc : c = '\n'
  · simp [hc]
  · simp [hc]

theorem slice?_append (as bs cs : List Char) :
    slice? (as ++ bs ++ cs) (size as) (size (as ++ bs)) = some bs := by
  have hle : size as ≤ size (as ++ bs) := by simp
  have hsub : size (as ++ bs) - size as = size bs := by simp
  rw [slice?, if_pos hle, List.append_assoc, cut?_size_append, hsub]
  show (cut? (bs ++ cs) (size bs)).bind _ = _
  rw [cut?_size_append]
  rfl

end Text

namespace SourceMap

/-! ## Line starts -/

theorem startsAfter_append (offset : Nat) (as bs : List Char) :
    startsAfter offset (as ++ bs) =
      startsAfter offset as ++ startsAfter (offset + Text.size as) bs := by
  induction as generalizing offset with
  | nil => rfl
  | cons c as ih =>
      rw [List.cons_append, startsAfter, startsAfter, ih, Text.size_cons, Nat.add_assoc]
      split <;> rfl

theorem length_startsAfter (offset : Nat) (cs : List Char) :
    (startsAfter offset cs).length = cs.count '\n' := by
  induction cs generalizing offset with
  | nil => rfl
  | cons c cs ih =>
      rw [startsAfter, List.count_cons]
      split
      · next hc => simp [hc, ih]
      · next hc => simp [hc, ih]

theorem bounds_of_mem_startsAfter {offset start : Nat} {cs : List Char}
    (h : start ∈ startsAfter offset cs) : offset < start ∧ start ≤ offset + Text.size cs := by
  induction cs generalizing offset with
  | nil => simp [startsAfter] at h
  | cons c cs ih =>
      have hpos := c.utf8Size_pos
      have hrest : start ∈ startsAfter (offset + c.utf8Size) cs →
          offset < start ∧ start ≤ offset + Text.size (c :: cs) := by
        intro hmem
        have hbounds := ih hmem
        rw [Text.size_cons]
        omega
      rw [startsAfter] at h
      split at h
      · rcases List.mem_cons.1 h with rfl | hmem
        · rw [Text.size_cons]
          omega
        · exact hrest hmem
      · exact hrest h

/-- No line starts inside the first character of a text. -/
theorem le_of_mem_startsAfter_cons {offset start : Nat} {c : Char} {cs : List Char}
    (h : start ∈ startsAfter offset (c :: cs)) : offset + c.utf8Size ≤ start := by
  rw [startsAfter] at h
  split at h
  · rcases List.mem_cons.1 h with rfl | hmem
    · exact Nat.le_refl _
    · exact Nat.le_of_lt (bounds_of_mem_startsAfter hmem).1
  · exact Nat.le_of_lt (bounds_of_mem_startsAfter h).1

/-- The last start up to the end of a text is the one of its last line. -/
theorem getLast?_startsAfter (cs : List Char) :
    (0 :: startsAfter 0 cs).getLast? = some (Text.size (Text.wholeLines cs)) := by
  induction cs using List.reverseRecOn with
  | nil => rfl
  | append_singleton cs c ih =>
      rw [Text.wholeLines_concat, startsAfter_append, Nat.zero_add]
      by_cases hc : c = '\n'
      · rw [if_pos hc, startsAfter, if_pos hc, startsAfter, ← List.cons_append,
          List.getLast?_concat, Text.size_append]
        rfl
      · rw [if_neg hc, startsAfter, if_neg hc, startsAfter, List.append_nil, ih]

/-! ## Search -/

/-- The search finds where the starts up to an offset end. -/
theorem bisect_append {as bs : List Nat} {offset : Nat} (has : ∀ start ∈ as, start ≤ offset)
    (hbs : ∀ start ∈ bs, offset < start) {low high : Nat} (hlow : low ≤ as.length)
    (hhigh : as.length ≤ high) (hbound : high ≤ (as ++ bs).length) :
    bisect (as ++ bs) offset low high = as.length := by
  fun_induction bisect (as ++ bs) offset low high with
  | case1 low high hlt middle hmiddle ih =>
      refine ih ?_ hhigh hbound
      by_contra hpast
      rw [List.getElem?_append_right (by omega)] at hmiddle
      obtain ⟨start, hstart, hle⟩ := (Option.any_eq_true ..).1 hmiddle
      have hgt := hbs start (List.mem_of_getElem? hstart)
      have hle := of_decide_eq_true hle
      omega
  | case2 low high hlt middle hmiddle ih =>
      refine ih hlow ?_ (by omega)
      by_contra hbefore
      rw [List.getElem?_append_left (by omega), List.getElem?_eq_getElem (by omega)] at hmiddle
      exact hmiddle (decide_eq_true (has _ (List.getElem_mem _)))
  | case3 low high hge => omega

/-! ## Lines and columns -/

/-- The line of an offset, on a boundary or not, is told by the text up to the last boundary. -/
theorem lineOf_of_splitsAt {as bs : List Char} {offset : Nat} (h : Text.SplitsAt as bs offset) :
    (ofText (as ++ bs)).lineOf offset = as.count '\n' + 1 := by
  have hsize := h.size_le
  have hstarts : (ofText (as ++ bs)).lineStarts =
      (0 :: startsAfter 0 as) ++ startsAfter (Text.size as) bs := by
    rw [ofText, startsAfter_append, Nat.zero_add]
    rfl
  have hbefore : ∀ start ∈ 0 :: startsAfter 0 as, start ≤ offset := by
    intro start hmem
    rcases List.mem_cons.1 hmem with rfl | hmem
    · exact Nat.zero_le _
    · have hbounds := bounds_of_mem_startsAfter hmem
      omega
  have hbehind : ∀ start ∈ startsAfter (Text.size as) bs, offset < start := by
    intro start hmem
    cases bs with
    | nil => simp [startsAfter] at hmem
    | cons c bs =>
        have hle := le_of_mem_startsAfter_cons hmem
        have hlt := h.lt_of_head? c rfl
        omega
  rw [lineOf, lineCount, hstarts, bisect_append hbefore hbehind (Nat.zero_le _) (by simp)
    (Nat.le_refl _), List.length_cons, length_startsAfter]

theorem lineOf_ofText (as bs : List Char) :
    (ofText (as ++ bs)).lineOf (Text.size as) = as.count '\n' + 1 :=
  lineOf_of_splitsAt (Text.splitsAt_size as bs)

/-- The last start up to a place is that of the line of the place. -/
theorem getElem?_lineStarts (as bs : List Char) :
    (ofText (as ++ bs)).lineStarts[as.count '\n']? = some (Text.size (Text.wholeLines as)) := by
  have hlast := getLast?_startsAfter as
  rw [List.getLast?_eq_getElem?, List.length_cons, length_startsAfter] at hlast
  rw [ofText, startsAfter_append, ← List.cons_append,
    List.getElem?_append_left (by simp [length_startsAfter])]
  exact hlast

theorem lineStart_ofText (as bs : List Char) :
    (ofText (as ++ bs)).lineStart (Text.size as) = Text.size (Text.wholeLines as) := by
  rw [lineStart, lineOf_ofText, Nat.add_sub_cancel, getElem?_lineStarts]
  rfl

/-- The line and column of a place by map are those by walk. -/
theorem position_ofText (as bs : List Char) :
    (ofText (as ++ bs)).position (Text.size as) =
      ⟨as.count '\n' + 1, (Text.lastLine as).length + 1⟩ := by
  have hmin : min (Text.size as) (Text.size (ofText (as ++ bs)).source) = Text.size as := by
    simp [ofText]
  have hslice := Text.slice?_append (Text.wholeLines as) (Text.lastLine as) bs
  rw [Text.wholeLines_append_lastLine] at hslice
  rw [position, hmin, lineStart_ofText, lineOf_ofText, ofText, hslice]
  rfl

end SourceMap

end Lexis

import Lexis.Proofs.SourceMap

set_option autoImplicit false

/-! # Lines by source maps

A source map can be read back. Put together again, the lines that it tells are the text; and the
line and column of an offset between two characters, with the lines before that line, tell the
offset. So no two such offsets have the same line and column. All of this is in
`SourceMap.IsMapOf`, and `SourceMap.isMapOf_ofText` says it of every text. The lemmas cut the text
before and behind one of its lines (`Text.HasLine`): the table has the start of that line right
before the first start behind it, so the two ends of the line are found (`lineText?_ofText`). -/

namespace Lexis

namespace Text

/-! ## A line of a text -/

/-- A text that is nothing but lines with their line feeds. -/
inductive IsWholeLines : List Char → Prop
  | nil : IsWholeLines []
  | concat {before line : List Char} :
      IsWholeLines before → '\n' ∉ line → IsWholeLines (before ++ (line ++ ['\n']))

/-- A line of a text: whole lines stand before it, and a line feed or nothing behind it. -/
structure HasLine (before line behind : List Char) : Prop where
  isWholeLines : IsWholeLines before
  not_mem : '\n' ∉ line
  behind_eq : behind = [] ∨ ∃ rest, behind = '\n' :: rest

theorem newline_not_mem_lastLine (cs : List Char) : '\n' ∉ lastLine cs := by
  intro hmem
  have hne := List.all_eq_true.1 List.all_takeWhile _ (List.mem_reverse.1 hmem)
  simp at hne

theorem isWholeLines_wholeLines (cs : List Char) : IsWholeLines (wholeLines cs) := by
  induction cs using List.reverseRecOn with
  | nil => exact .nil
  | append_singleton cs c ih =>
      rw [wholeLines_concat]
      split
      · next hc =>
          rw [hc, ← wholeLines_append_lastLine cs, List.append_assoc]
          exact ih.concat (newline_not_mem_lastLine cs)
      · exact ih

theorem IsWholeLines.wholeLines_eq {cs : List Char} (h : IsWholeLines cs) : wholeLines cs = cs := by
  cases h with
  | nil => rfl
  | concat _ _ => rw [← List.append_assoc, wholeLines_concat, if_pos rfl]

theorem count_wholeLines (cs : List Char) : (wholeLines cs).count '\n' = cs.count '\n' := by
  have hcount := congrArg (List.count '\n') (wholeLines_append_lastLine cs)
  rwa [List.count_append, List.count_eq_zero.2 (newline_not_mem_lastLine cs)] at hcount

/-- The line behind whole lines, when its first part is known. -/
theorem IsWholeLines.hasLine {before : List Char} (h : IsWholeLines before) {line : List Char}
    (hline : '\n' ∉ line) (rest : List Char) :
    HasLine before (line ++ rest.takeWhile (· ≠ '\n')) (rest.dropWhile (· ≠ '\n')) where
  isWholeLines := h
  not_mem := by
    intro hmem
    rcases List.mem_append.1 hmem with hmem | hmem
    · exact hline hmem
    · have hne := List.all_eq_true.1 List.all_takeWhile _ hmem
      simp at hne
  behind_eq := by
    cases hbehind : rest.dropWhile (· ≠ '\n') with
    | nil => exact .inl rfl
    | cons c tail =>
        have hc := List.head?_dropWhile_not (· ≠ '\n') rest
        rw [hbehind] at hc
        obtain rfl : c = '\n' := by simpa using hc
        exact .inr ⟨tail, rfl⟩

theorem IsWholeLines.hasLine_first {before : List Char} (h : IsWholeLines before)
    (rest : List Char) :
    HasLine before (rest.takeWhile (· ≠ '\n')) (rest.dropWhile (· ≠ '\n')) :=
  h.hasLine List.not_mem_nil rest

/-- A text has a line behind any number of its line feeds. -/
theorem exists_hasLine {cs : List Char} {n : Nat} (h : n ≤ cs.count '\n') :
    ∃ before line behind, cs = before ++ line ++ behind ∧ before.count '\n' = n ∧
      HasLine before line behind := by
  induction n with
  | zero =>
      have hline := IsWholeLines.nil.hasLine_first cs
      exact ⟨[], _, _, List.takeWhile_append_dropWhile.symm, rfl, hline⟩
  | succ n ih =>
      obtain ⟨before, line, behind, rfl, hcount, hline⟩ := ih (Nat.le_of_succ_le h)
      rcases hline.behind_eq with rfl | ⟨rest, rfl⟩
      · -- there are not so many line feeds
        rw [List.append_nil, List.count_append, List.count_eq_zero.2 hline.not_mem, hcount] at h
        omega
      · have hwhole := hline.isWholeLines.concat hline.not_mem
        have hnext := hwhole.hasLine_first rest
        refine ⟨_, _, _, ?_, ?_, hnext⟩
        · simp
        · rw [List.count_append, List.count_append, List.count_eq_zero.2 hline.not_mem, hcount]
          rfl

end Text

namespace SourceMap

/-! ## The text of a line -/

theorem lineText?_zero (m : SourceMap) : m.lineText? 0 = none := rfl

theorem lineText?_succ (m : SourceMap) (n : Nat) :
    m.lineText? (n + 1) = m.lineStarts[n]?.bind fun start =>
      Text.slice? m.source start ((m.lineStarts[n + 1]?.map (· - 1)).getD (Text.size m.source)) :=
  rfl

/-- The line feed behind a line is found from the start of the next line, and the end of the text
    from its size. -/
theorem lineStop_ofText {before line behind : List Char} (h : Text.HasLine before line behind) :
    ((ofText (before ++ line ++ behind)).lineStarts[before.count '\n' + 1]?.map (· - 1)).getD
        (Text.size (before ++ line ++ behind)) =
      Text.size (before ++ line) := by
  have hline : startsAfter (Text.size before) line = [] := by
    rw [← List.length_eq_zero_iff, length_startsAfter, List.count_eq_zero]
    exact h.not_mem
  have hlength : (0 :: startsAfter 0 before).length = before.count '\n' + 1 := by
    rw [List.length_cons, length_startsAfter]
  rw [ofText, List.append_assoc, startsAfter_append, Nat.zero_add, startsAfter_append, hline,
    List.nil_append, ← List.cons_append, List.getElem?_append_right (by omega), hlength,
    Nat.sub_self]
  rcases h.behind_eq with rfl | ⟨rest, rfl⟩
  · simp [startsAfter]
  · rw [startsAfter, if_pos rfl]
    show Text.size before + Text.size line + 1 - 1 = _
    rw [Text.size_append, Nat.add_sub_cancel]

theorem lineText?_ofText {before line behind : List Char} (h : Text.HasLine before line behind) :
    (ofText (before ++ line ++ behind)).lineText? (before.count '\n' + 1) = some line := by
  have hstart := getElem?_lineStarts before (line ++ behind)
  rw [h.isWholeLines.wholeLines_eq, ← List.append_assoc] at hstart
  have hstop := lineStop_ofText h
  have hslice := Text.slice?_append before line behind
  have hsource : (ofText (before ++ line ++ behind)).source = before ++ line ++ behind := rfl
  rw [lineText?_succ, hstart, hsource, hstop]
  exact hslice

theorem lineCount_ofText (cs : List Char) : (ofText cs).lineCount = cs.count '\n' + 1 := by
  rw [lineCount, ofText, List.length_cons, length_startsAfter]

theorem isSome_lineText?_iff {cs : List Char} {n : Nat} :
    ((ofText cs).lineText? n).isSome = true ↔ 1 ≤ n ∧ n ≤ (ofText cs).lineCount := by
  rw [lineCount_ofText]
  constructor
  · intro h
    obtain ⟨line, hline⟩ := Option.isSome_iff_exists.1 h
    cases n with
    | zero =>
        rw [lineText?_zero] at hline
        simp at hline
    | succ n =>
        refine ⟨Nat.le_add_left .., ?_⟩
        by_contra hlt
        have hstart : (ofText cs).lineStarts[n]? = none := by
          rw [List.getElem?_eq_none_iff]
          have hcount := lineCount_ofText cs
          rw [lineCount] at hcount
          omega
        rw [lineText?_succ, hstart, Option.bind_none] at hline
        simp at hline
  · rintro ⟨hpos, hle⟩
    obtain ⟨before, line, behind, rfl, hcount, hline⟩ :=
      Text.exists_hasLine (Nat.sub_le_of_le_add hle)
    have htext := lineText?_ofText hline
    rw [hcount, Nat.sub_add_cancel hpos] at htext
    rw [htext]
    rfl

/-! ## Lines in a row -/

/-- The texts of the first `n` lines. -/
def firstLines (m : SourceMap) (n : Nat) : List (List Char) :=
  (List.range' 1 n).filterMap m.lineText?

theorem firstLines_succ {m : SourceMap} {n : Nat} {line : List Char}
    (h : m.lineText? (n + 1) = some line) : m.firstLines (n + 1) = m.firstLines n ++ [line] := by
  rw [firstLines, List.range'_1_concat, List.filterMap_append, Nat.add_comm 1 n]
  simp [h, firstLines]

/-- Whole lines at the start of a text are its first lines. -/
theorem flatMap_firstLines {before : List Char} (h : Text.IsWholeLines before)
    (rest : List Char) :
    ((ofText (before ++ rest)).firstLines (before.count '\n')).flatMap (· ++ ['\n']) = before := by
  induction h generalizing rest with
  | nil => rfl
  | @concat before line hbefore hline ih =>
      have htext := lineText?_ofText ⟨hbefore, hline, .inr ⟨rest, rfl⟩⟩
      have hfirst := ih (line ++ '\n' :: rest)
      have hcount : (before ++ (line ++ ['\n'])).count '\n' = before.count '\n' + 1 := by
        rw [List.count_append, List.count_append, List.count_eq_zero.2 hline]
        rfl
      have hsource : before ++ (line ++ ['\n']) ++ rest = before ++ line ++ '\n' :: rest := by simp
      rw [← List.append_assoc] at hfirst
      rw [hcount, hsource, firstLines_succ htext, List.flatMap_append, hfirst,
        List.flatMap_singleton]

theorem intercalate_concat (sep last : List Char) (pieces : List (List Char)) :
    sep.intercalate (pieces ++ [last]) = pieces.flatMap (· ++ sep) ++ last := by
  induction pieces with
  | nil => rw [List.nil_append, List.intercalate_singleton, List.flatMap_nil, List.nil_append]
  | cons piece pieces ih =>
      rw [List.cons_append, List.intercalate_cons_of_ne_nil (by simp), ih, List.flatMap_cons,
        List.append_assoc, List.append_assoc, List.append_assoc]

/-- The lines of a text, with a line feed between each two, are the text. -/
theorem intercalate_lines (cs : List Char) :
    ['\n'].intercalate ((ofText cs).firstLines (ofText cs).lineCount) = cs := by
  have hwhole := Text.isWholeLines_wholeLines cs
  have hsplit := Text.wholeLines_append_lastLine cs
  have hfirst := flatMap_firstLines hwhole (Text.lastLine cs)
  have hlast := lineText?_ofText ⟨hwhole, Text.newline_not_mem_lastLine cs, .inl rfl⟩
  rw [List.append_nil] at hlast
  rw [hsplit, Text.count_wholeLines] at hfirst hlast
  rw [lineCount_ofText, firstLines_succ hlast, intercalate_concat, hfirst, hsplit]

/-- The offset of a place, told by the line and column and the lines up to that line. -/
theorem exists_lineText_position (as bs : List Char) :
    ∃ line, (ofText (as ++ bs)).lineText? (as.count '\n' + 1) = some line ∧
      (Text.lastLine as).length ≤ line.length ∧
      Text.size as =
        Text.size (((ofText (as ++ bs)).firstLines (as.count '\n')).flatMap (· ++ ['\n'])) +
          Text.size (line.take (Text.lastLine as).length) := by
  have hwhole := Text.isWholeLines_wholeLines as
  have hsplit := Text.wholeLines_append_lastLine as
  have hline := hwhole.hasLine (Text.newline_not_mem_lastLine as) bs
  have htext := lineText?_ofText hline
  have hfirst := flatMap_firstLines hwhole (Text.lastLine as ++ bs)
  rw [List.append_assoc, List.append_assoc, List.takeWhile_append_dropWhile, ← List.append_assoc,
    hsplit, Text.count_wholeLines] at htext
  rw [← List.append_assoc, hsplit, Text.count_wholeLines] at hfirst
  refine ⟨_, htext, by simp, ?_⟩
  rw [hfirst, List.take_left, ← Text.size_append, hsplit]

/-! ## Maps of texts -/

/-- A map that answers for a text: lines and columns are those of the text, its lines make up the
    text, and a place can be found again by line and column. -/
structure IsMapOf (m : SourceMap) (cs : List Char) : Prop where
  /-- Offsets have lines wherever they are. -/
  line_position : ∀ offset, (m.position offset).line = 1 + Text.feedsBefore cs offset
  /-- Columns count characters from the last line feed on; past the end is the end. -/
  column_position : ∀ offset before behind,
    Text.cut? cs (min offset (Text.size cs)) = some (before, behind) →
      (m.position offset).column = 1 + (Text.lastLine before).length
  isSome_lineText : ∀ n, (m.lineText? n).isSome = true ↔ 1 ≤ n ∧ n ≤ m.lineCount
  intercalate_firstLines : ['\n'].intercalate (m.firstLines m.lineCount) = cs
  /-- A place is behind the lines before its own, with their line feeds, and behind as many
      characters of its own line as its column says. -/
  exists_lineText : ∀ offset, Text.isBoundary cs offset = true →
    ∃ line, m.lineText? (m.position offset).line = some line ∧
      (m.position offset).column - 1 ≤ line.length ∧
      offset =
        Text.size ((m.firstLines ((m.position offset).line - 1)).flatMap (· ++ ['\n'])) +
          Text.size (line.take ((m.position offset).column - 1))
  eq_of_position_eq : ∀ offset offset', Text.isBoundary cs offset = true →
    Text.isBoundary cs offset' = true → m.position offset = m.position offset' → offset = offset'

theorem line_position_ofText (cs : List Char) (offset : Nat) :
    ((ofText cs).position offset).line = 1 + Text.feedsBefore cs offset := by
  obtain ⟨as, bs, rfl, hsplit⟩ := Text.exists_split_at cs offset
  rw [Text.feedsBefore_append hsplit, Nat.add_comm]
  exact lineOf_of_splitsAt hsplit.min

theorem position_min (m : SourceMap) (offset : Nat) :
    m.position (min offset (Text.size m.source)) = m.position offset := by
  rw [position, Nat.min_assoc, Nat.min_self, position]

theorem exists_lineText_ofText {cs : List Char} {offset : Nat}
    (h : Text.isBoundary cs offset = true) :
    ∃ line, (ofText cs).lineText? ((ofText cs).position offset).line = some line ∧
      ((ofText cs).position offset).column - 1 ≤ line.length ∧
      offset =
        Text.size (((ofText cs).firstLines (((ofText cs).position offset).line - 1)).flatMap
            (· ++ ['\n'])) +
          Text.size (line.take (((ofText cs).position offset).column - 1)) := by
  obtain ⟨⟨as, bs⟩, hcut⟩ := Option.isSome_iff_exists.1 h
  obtain ⟨rfl, rfl⟩ := Text.cut?_eq_some_iff.1 hcut
  rw [position_ofText]
  exact exists_lineText_position as bs

/-- The map of a text answers for it. -/
theorem isMapOf_ofText (cs : List Char) : (ofText cs).IsMapOf cs where
  line_position := line_position_ofText cs
  column_position offset before behind hcut := by
    obtain ⟨rfl, hsize⟩ := Text.cut?_eq_some_iff.1 hcut
    have hmin := position_min (ofText (before ++ behind)) offset
    have hsource : (ofText (before ++ behind)).source = before ++ behind := rfl
    rw [← hmin, hsource, hsize, position_ofText]
    exact Nat.add_comm ..
  isSome_lineText _ := isSome_lineText?_iff
  intercalate_firstLines := intercalate_lines cs
  exists_lineText _ h := exists_lineText_ofText h
  eq_of_position_eq offset offset' h h' heq := by
    obtain ⟨line, htext, -, hoffset⟩ := exists_lineText_ofText h
    obtain ⟨line', htext', -, hoffset'⟩ := exists_lineText_ofText h'
    rw [← heq] at htext' hoffset'
    obtain rfl : line = line' := Option.some.inj (htext.symm.trans htext')
    exact hoffset.trans hoffset'.symm

end SourceMap

end Lexis

import Lexis.Proofs.LineFeed
import Lexis.Repl.Line

set_option autoImplicit false

/-! # Input that is a text

Input comes in bytes and is cut into lines before it is known to be a text. In the UTF-8 form of a
text the byte of a line feed stands for a line feed only (`Text.eq_newline_of_mem_utf8EncodeChar`),
so the lines of the bytes are those of the text (`Input.ofBytes_toUTF8`). Lines that could stand in
a text (`IsLines`) are the lines of what they were read as, and of nothing else (`split_eq_iff`); so
some lines of a text that are taken out of it are read as the same lines. -/

namespace Lexis.Repl

namespace Line

/-! ## Pieces -/

section

variable {α : Type} (isEnd : α → Bool)

theorem flatten_splitAfter (xs : List α) : (splitAfter isEnd xs).flatten = xs := by
  fun_induction splitAfter isEnd xs with
  | case1 => rfl
  | case2 x xs hx ih => simp [ih]
  | case3 x xs hx hnil ih =>
      rw [hnil] at ih
      simp [← ih]
  | case4 x xs hx first rest hcons ih =>
      rw [hcons] at ih
      simp [← ih]

/-- A piece that has another one behind it ends with an end. -/
theorem pairwise_splitAfter (xs : List α) :
    (splitAfter isEnd xs).Pairwise fun piece _ => piece.getLast?.any isEnd = true := by
  fun_induction splitAfter isEnd xs with
  | case1 => exact List.Pairwise.nil
  | case2 x xs hx ih => exact List.pairwise_cons.2 ⟨fun _ _ => hx, ih⟩
  | case3 x xs hx hnil ih => exact List.pairwise_singleton ..
  | case4 x xs hx first rest hcons ih =>
      rw [hcons, List.pairwise_cons] at ih
      obtain ⟨hfirst, hrest⟩ := ih
      refine List.pairwise_cons.2 ⟨fun piece hpiece => ?_, hrest⟩
      have hend := hfirst piece hpiece
      cases first with
      | nil => simp at hend
      | cons y first => rwa [List.getLast?_cons_cons]

/-- Each piece has an end at its last place at most. -/
theorem spec_of_mem_splitAfter {xs piece : List α} (h : piece ∈ splitAfter isEnd xs) :
    piece ≠ [] ∧ ∀ x ∈ piece.dropLast, isEnd x = false := by
  fun_induction splitAfter isEnd xs generalizing piece with
  | case1 => simp at h
  | case2 x xs hx ih =>
      rcases List.mem_cons.1 h with rfl | h
      · exact ⟨List.cons_ne_nil _ _, by simp⟩
      · exact ih h
  | case3 x xs hx hnil ih =>
      obtain rfl := List.mem_singleton.1 h
      exact ⟨List.cons_ne_nil _ _, by simp⟩
  | case4 x xs hx first rest hcons ih =>
      rw [hcons] at ih
      rcases List.mem_cons.1 h with rfl | h
      · obtain ⟨hne, hfirst⟩ := ih List.mem_cons_self
        refine ⟨List.cons_ne_nil _ _, ?_⟩
        rw [List.dropLast_cons_of_ne_nil hne]
        intro y hy
        rcases List.mem_cons.1 hy with rfl | hy
        · exact eq_false_of_ne_true hx
        · exact hfirst y hy
      · exact ih (List.mem_cons_of_mem _ h)

variable {isEnd}

theorem splitAfter_append {run : List α} (hne : run ≠ []) (hrun : ∀ x ∈ run, isEnd x = false)
    (xs : List α) :
    splitAfter isEnd (run ++ xs) =
      match splitAfter isEnd xs with
      | [] => [run]
      | first :: rest => (run ++ first) :: rest := by
  induction run with
  | nil => exact absurd rfl hne
  | cons x run ih =>
      have hx := hrun x List.mem_cons_self
      rw [List.cons_append, splitAfter, if_neg (by simp [hx])]
      cases run with
      | nil => rfl
      | cons y run =>
          rw [ih (List.cons_ne_nil _ _) fun z hz => hrun z (List.mem_cons_of_mem _ hz)]
          cases splitAfter isEnd xs <;> rfl

theorem splitAfter_append_cons {run : List α} (hrun : ∀ x ∈ run, isEnd x = false) {x : α}
    (hx : isEnd x = true) (xs : List α) :
    splitAfter isEnd (run ++ x :: xs) = (run ++ [x]) :: splitAfter isEnd xs := by
  cases run with
  | nil => rw [List.nil_append, splitAfter, if_pos hx, List.nil_append]
  | cons y run => rw [splitAfter_append (List.cons_ne_nil _ _) hrun, splitAfter, if_pos hx]

/-- Pieces with an end at their last places, and only there, are found again. -/
theorem splitAfter_flatten {pieces : List (List α)}
    (hpieces : ∀ piece ∈ pieces, piece ≠ [] ∧ ∀ x ∈ piece.dropLast, isEnd x = false)
    (hends : pieces.Pairwise fun piece _ => piece.getLast?.any isEnd = true) :
    splitAfter isEnd pieces.flatten = pieces := by
  induction pieces with
  | nil => rfl
  | cons piece pieces ih =>
      obtain ⟨hend, hends⟩ := List.pairwise_cons.1 hends
      obtain ⟨hne, hinit⟩ := hpieces piece List.mem_cons_self
      have hrest := ih (fun p hp => hpieces p (List.mem_cons_of_mem _ hp)) hends
      have hsplit : piece = piece.dropLast ++ [piece.getLast hne] :=
        (List.dropLast_concat_getLast hne).symm
      rw [List.flatten_cons]
      cases hlast : isEnd (piece.getLast hne) with
      | true =>
          rw [hsplit, List.append_assoc, List.singleton_append, splitAfter_append_cons hinit hlast,
            hrest]
      | false =>
          -- nothing is behind a piece without an end
          have hnil : pieces = [] := by
            refine List.eq_nil_iff_forall_not_mem.2 fun p hp => ?_
            have hany := hend p hp
            rw [List.getLast?_eq_some_getLast hne, Option.any_some, hlast] at hany
            exact absurd hany (by simp)
          have hall : ∀ x ∈ piece, isEnd x = false := by
            rw [hsplit]
            intro x hx
            rcases List.mem_append.1 hx with hx | hx
            · exact hinit x hx
            · rwa [List.mem_singleton.1 hx]
          rw [hnil, List.flatten_nil, splitAfter_append hne hall]
          rfl

end

/-! ## Lines -/

/-- Lines that could stand in a text. A return before a line feed belongs to the end of its line. -/
structure IsLines (lines : List Line) : Prop where
  not_newline : ∀ line ∈ lines, '\n' ∉ line.text
  not_return : ∀ line ∈ lines, line.ending = .lf → line.text.getLast? ≠ some '\r'
  raw_ne_nil : ∀ line ∈ lines, line.raw ≠ []
  /-- A line that has another one behind it has an end. -/
  pairwise : lines.Pairwise fun line _ => line.ending ≠ .none

theorem IsLines.sublist {lines lines' : List Line} (h : IsLines lines)
    (hsub : lines'.Sublist lines) : IsLines lines' where
  not_newline line hline := h.not_newline line (hsub.subset hline)
  not_return line hline := h.not_return line (hsub.subset hline)
  raw_ne_nil line hline := h.raw_ne_nil line (hsub.subset hline)
  pairwise := h.pairwise.sublist hsub

theorem raw_ofRaw (cs : List Char) : (ofRaw cs).raw = cs := by
  unfold ofRaw
  rw [← List.reverse_inj]
  split <;> next heq => simp [raw, LineEnd.text, heq]

theorem ending_ofRaw_ne_none {cs : List Char} (h : cs.getLast? = some '\n') :
    (ofRaw cs).ending ≠ .none := by
  rw [← List.head?_reverse, List.head?_eq_some_iff] at h
  obtain ⟨text, htext⟩ := h
  unfold ofRaw
  rw [htext]
  split
  · simp
  · simp
  · next _ hlf => exact (hlf text rfl).elim

theorem flatMap_raw_split (cs : List Char) : (split cs).flatMap raw = cs := by
  rw [split, List.flatMap_map]
  simp only [raw_ofRaw]
  rw [List.flatMap_id', flatten_splitAfter]

/-- A line that has another one behind it has an end. -/
theorem pairwise_split (cs : List Char) :
    (split cs).Pairwise fun line _ => line.ending ≠ .none := by
  refine List.Pairwise.map _ ?_ (pairwise_splitAfter (· = '\n') cs)
  intro piece _ hend
  obtain ⟨c, hlast, hc⟩ := (Option.any_eq_true ..).1 hend
  exact ending_ofRaw_ne_none (hlast.trans (congrArg some (of_decide_eq_true hc)))

/-- What the line that was read as `cs` holds, and how it ends. -/
theorem spec_ofRaw {cs : List Char} (h : '\n' ∉ cs.dropLast) :
    '\n' ∉ (ofRaw cs).text ∧
      ((ofRaw cs).ending = .lf → (ofRaw cs).text.getLast? ≠ some '\r') := by
  rw [← List.mem_reverse, ← List.tail_reverse] at h
  unfold ofRaw
  split
  · next text heq =>
      rw [heq] at h
      exact ⟨by simpa using h, by simp⟩
  · next text hreturn heq =>
      rw [heq] at h
      refine ⟨by simpa using h, fun _ hlast => ?_⟩
      rw [List.getLast?_reverse] at hlast
      obtain ⟨tail, rfl⟩ := List.head?_eq_some_iff.1 hlast
      exact hreturn tail rfl
  · next hreturn hnewline =>
      refine ⟨?_, by simp⟩
      rw [List.mem_reverse]
      intro hmem
      cases hcs : cs.reverse with
      | nil => simp [hcs] at hmem
      | cons c tail =>
          rw [hcs] at h hmem
          rcases List.mem_cons.1 hmem with rfl | hmem
          · exact hnewline tail hcs
          · exact h hmem

theorem isLines_split (cs : List Char) : IsLines (split cs) := by
  have hspec : ∀ line ∈ split cs, '\n' ∉ line.text ∧
      (line.ending = .lf → line.text.getLast? ≠ some '\r') ∧ line.raw ≠ [] := by
    intro line hline
    obtain ⟨piece, hpiece, rfl⟩ := List.mem_map.1 hline
    obtain ⟨hne, hinit⟩ := spec_of_mem_splitAfter _ hpiece
    have hnewline : '\n' ∉ piece.dropLast := fun hmem => by simpa using hinit _ hmem
    obtain ⟨htext, hreturn⟩ := spec_ofRaw hnewline
    rw [raw_ofRaw]
    exact ⟨htext, hreturn, hne⟩
  exact
    { not_newline := fun line hline => (hspec line hline).1
      not_return := fun line hline => (hspec line hline).2.1
      raw_ne_nil := fun line hline => (hspec line hline).2.2
      pairwise := pairwise_split cs }

theorem ofRaw_raw {line : Line} (hnewline : '\n' ∉ line.text)
    (hreturn : line.ending = .lf → line.text.getLast? ≠ some '\r') : ofRaw line.raw = line := by
  obtain ⟨text, ending⟩ := line
  cases ending with
  | crlf => simp [ofRaw, raw, LineEnd.text]
  | lf =>
      have hlast := hreturn rfl
      rw [← List.head?_reverse] at hlast
      simp only [ofRaw, raw, LineEnd.text, List.reverse_append, List.reverse_singleton,
        List.singleton_append]
      split
      · next tail heq => simp [(List.cons.inj heq).2] at hlast
      · next tail heq => simp [← (List.cons.inj heq).2]
      · next _ hlf => exact absurd rfl (hlf _)
  | none =>
      rw [← List.mem_reverse] at hnewline
      simp only [ofRaw, raw, LineEnd.text, List.append_nil]
      split
      · next tail heq => simp [heq] at hnewline
      · next tail heq => simp [heq] at hnewline
      · rw [List.reverse_reverse]

theorem newline_not_mem_dropLast_raw {line : Line} (h : '\n' ∉ line.text) :
    '\n' ∉ line.raw.dropLast := by
  obtain ⟨text, ending⟩ := line
  have htext : '\n' ∉ text := h
  cases ending with
  | none =>
      intro hmem
      have hraw := (List.dropLast_sublist _).subset hmem
      exact htext (by simpa [raw, LineEnd.text] using hraw)
  | lf => simpa [raw, LineEnd.text] using htext
  | crlf => simpa [raw, LineEnd.text] using htext

theorem getLast?_raw {line : Line} (h : line.ending ≠ .none) : line.raw.getLast? = some '\n' := by
  obtain ⟨text, ending⟩ := line
  cases ending with
  | none => exact absurd rfl h
  | lf => simp [raw, LineEnd.text]
  | crlf => simp [raw, LineEnd.text]

/-- The lines of a text are the lines that it was put together from. -/
theorem split_eq_iff {cs : List Char} {lines : List Line} :
    split cs = lines ↔ IsLines lines ∧ lines.flatMap raw = cs := by
  constructor
  · rintro rfl
    exact ⟨isLines_split cs, flatMap_raw_split cs⟩
  · rintro ⟨hlines, rfl⟩
    have hpieces : splitAfter (· = '\n') (lines.map raw).flatten = lines.map raw := by
      apply splitAfter_flatten
      · intro piece hpiece
        obtain ⟨line, hline, rfl⟩ := List.mem_map.1 hpiece
        refine ⟨hlines.raw_ne_nil line hline, fun c hc => decide_eq_false ?_⟩
        rintro rfl
        exact newline_not_mem_dropLast_raw (hlines.not_newline line hline) hc
      · refine List.Pairwise.map _ ?_ hlines.pairwise
        intro line _ hending
        rw [getLast?_raw hending]
        rfl
    rw [split, List.flatMap_def, hpieces, List.map_map, List.map_congr_left, List.map_id]
    intro line hline
    exact ofRaw_raw (hlines.not_newline line hline) (hlines.not_return line hline)

end Line

/-! ## Bytes -/

/-- A text without line feeds has none of their bytes. -/
theorem not_feed_of_mem_flatMap {cs : List Char} (h : '\n' ∉ cs) :
    ∀ b ∈ cs.flatMap String.utf8EncodeChar, decide (b = 10) = false := by
  intro b hb
  obtain ⟨c, hc, hb⟩ := List.mem_flatMap.1 hb
  refine decide_eq_false ?_
  rintro rfl
  exact h (Text.eq_newline_of_mem_utf8EncodeChar hb ▸ hc)

theorem splitAfter_flatMap_utf8EncodeChar (cs : List Char) :
    Line.splitAfter (· = 10) (cs.flatMap String.utf8EncodeChar) =
      (Line.splitAfter (· = '\n') cs).map (·.flatMap String.utf8EncodeChar) := by
  induction cs with
  | nil => rfl
  | cons c cs ih =>
      rw [List.flatMap_cons]
      by_cases hc : c = '\n'
      · subst hc
        show Line.splitAfter (· = 10) (10 :: cs.flatMap String.utf8EncodeChar) = _
        rw [Line.splitAfter, if_pos (by decide), Line.splitAfter, if_pos (by decide), ih]
        rfl
      · have hfeed : '\n' ∉ [c] := by simpa using Ne.symm hc
        have hrun := not_feed_of_mem_flatMap hfeed
        rw [List.flatMap_singleton] at hrun
        rw [Line.splitAfter_append String.utf8EncodeChar_ne_nil hrun, ih, Line.splitAfter,
          if_neg (by simpa using hc)]
        cases Line.splitAfter (· = '\n') cs <;> simp

/-- The bytes of a line are the first piece of those of an input that starts with it. -/
theorem splitAfter_raw_append {line : Line} (h : Line.IsLines [line]) {rest : List UInt8}
    (hend : line.ending = .none → rest = []) :
    Line.splitAfter (· = 10) (line.raw.flatMap String.utf8EncodeChar ++ rest) =
      line.raw.flatMap String.utf8EncodeChar :: Line.splitAfter (· = 10) rest := by
  have hnewline := h.not_newline line List.mem_cons_self
  by_cases hnone : line.ending = .none
  · have hraw : line.raw = line.text := by rw [Line.raw, hnone, LineEnd.text, List.append_nil]
    have hne := h.raw_ne_nil line List.mem_cons_self
    rw [hend hnone, hraw]
    rw [hraw] at hne
    obtain ⟨c, cs, htext⟩ := List.exists_cons_of_ne_nil hne
    have hbytes : line.text.flatMap String.utf8EncodeChar ≠ [] := by
      rw [htext, List.flatMap_cons]
      exact List.append_ne_nil_of_left_ne_nil String.utf8EncodeChar_ne_nil _
    rw [Line.splitAfter_append hbytes (not_feed_of_mem_flatMap hnewline)]
    rfl
  · obtain ⟨front, hraw⟩ := List.getLast?_eq_some_iff.1 (Line.getLast?_raw hnone)
    have hfront := Line.newline_not_mem_dropLast_raw hnewline
    rw [hraw, List.dropLast_concat] at hfront
    rw [hraw, List.flatMap_append, List.append_assoc]
    exact Line.splitAfter_append_cons (not_feed_of_mem_flatMap hfront) rfl _

namespace Input

theorem fromUTF8?_flatMap (cs : List Char) :
    String.fromUTF8? ⟨(cs.flatMap String.utf8EncodeChar).toArray⟩ = some (String.ofList cs) := by
  have hbytes : (⟨(cs.flatMap String.utf8EncodeChar).toArray⟩ : ByteArray) = cs.utf8Encode := by
    apply ByteArray.ext
    apply Array.toList_inj.1
    rw [List.utf8Encode, List.toList_data_toByteArray]
  rw [hbytes, String.fromUTF8?, dif_pos ByteArray.isValidUTF8_utf8Encode]
  rfl

theorem ofRawLines_map (pieces : List (List Char)) :
    ofRawLines (pieces.map (·.flatMap String.utf8EncodeChar)) =
      { lines := pieces.map Line.ofRaw } := by
  induction pieces with
  | nil => rfl
  | cons piece pieces ih =>
      rw [List.map_cons, ofRawLines, fromUTF8?_flatMap]
      simp only [ih, String.toList_ofList, List.map_cons]

/-- The lines of a text in UTF-8 are those of the text, and none of them is garbled. -/
theorem ofBytes_toUTF8 (text : String) : ofBytes text.toUTF8 = ofText text.toList := by
  obtain ⟨cs, rfl⟩ : ∃ cs, text = String.ofList cs := ⟨text.toList, String.ofList_toList.symm⟩
  have hbytes : (String.ofList cs).toUTF8.data.toList = cs.flatMap String.utf8EncodeChar :=
    List.toList_data_toByteArray
  rw [ofBytes, hbytes, splitAfter_flatMap_utf8EncodeChar, ofRawLines_map, String.toList_ofList]
  rfl

/-- The first line of an input is read as it is, whatever bytes follow it. -/
theorem ofBytes_append {line : Line} (h : Line.IsLines [line]) {rest : ByteArray}
    (hend : line.ending = .none → rest = .empty) :
    ofBytes ((String.ofList line.raw).toUTF8 ++ rest) =
      { ofBytes rest with lines := line :: (ofBytes rest).lines } := by
  have hline := Line.ofRaw_raw (h.not_newline line List.mem_cons_self)
    (h.not_return line List.mem_cons_self)
  have hbytes : (String.ofList line.raw).toUTF8.data.toList =
      line.raw.flatMap String.utf8EncodeChar := List.toList_data_toByteArray
  have hrest : line.ending = .none → rest.data.toList = [] := fun hnone => by
    rw [hend hnone]
    rfl
  rw [ofBytes, ByteArray.toList_data_append, hbytes, splitAfter_raw_append h hrest, ofRawLines,
    fromUTF8?_flatMap]
  simp only [String.toList_ofList, hline]
  rfl

end Input

end Lexis.Repl

import Lexis.Text.Size

set_option autoImplicit false

/-! # Line feeds in bytes

In the UTF-8 form of a text the byte of a line feed stands for a line feed only
(`Text.eq_newline_of_mem_utf8EncodeChar`). So the line feeds before an offset can be counted in the
bytes, wherever the offset is: on a boundary, inside a character or past the end. An offset splits
the text at the last boundary up to it (`Text.exists_split_at`), and the line feeds before the
offset are those before that boundary (`Text.feedsBefore_append`). -/

namespace Lexis.Text

theorem eq_newline_of_mem_utf8EncodeChar {c : Char} (h : (10 : UInt8) ∈ String.utf8EncodeChar c) :
    c = '\n' := by
  have hbyte (n : Nat) : (10 : UInt8) = UInt8.ofNat n ↔ n % 256 = 10 := by
    rw [← UInt8.toNat_inj]
    simp [eq_comm]
  unfold String.utf8EncodeChar at h
  simp only at h
  split at h
  · next hascii =>
      rw [List.mem_singleton, hbyte] at h
      apply Char.ext
      apply UInt32.toNat_inj.1
      show c.val.toNat = 10
      omega
  -- all bytes of a longer form have their highest bit set
  all_goals
    exfalso
    repeat' split at h
    all_goals
      simp only [List.mem_cons, List.not_mem_nil, or_false, hbyte] at h
      omega

/-! ## Splitting at an offset -/

/-- An offset is where the text behind `as` starts, or inside the first character of that. -/
structure SplitsAt (as bs : List Char) (offset : Nat) : Prop where
  size_le : size as ≤ offset
  lt_of_head? : ∀ c ∈ bs.head?, offset < size as + c.utf8Size

theorem splitsAt_size (as bs : List Char) : SplitsAt as bs (size as) where
  size_le := Nat.le_refl _
  lt_of_head? c _ := Nat.lt_add_of_pos_right c.utf8Size_pos

/-- Every offset splits a text; one past the end does so at the end. -/
theorem exists_split_at (cs : List Char) (offset : Nat) :
    ∃ as bs, cs = as ++ bs ∧ SplitsAt as bs offset := by
  induction cs generalizing offset with
  | nil => exact ⟨[], [], rfl, Nat.zero_le _, by simp⟩
  | cons c cs ih =>
      by_cases hle : c.utf8Size ≤ offset
      · obtain ⟨as, bs, rfl, hsplit⟩ := ih (offset - c.utf8Size)
        refine ⟨c :: as, bs, rfl, ?_, ?_⟩
        · have hsize := hsplit.size_le
          rw [size_cons]
          omega
        · intro d hd
          have hlt := hsplit.lt_of_head? d hd
          rw [size_cons]
          omega
      · refine ⟨[], c :: cs, rfl, Nat.zero_le _, ?_⟩
        intro d hd
        obtain rfl : c = d := by simpa using hd
        rw [size_nil]
        omega

theorem SplitsAt.min {as bs : List Char} {offset : Nat} (h : SplitsAt as bs offset) :
    SplitsAt as bs (min offset (size (as ++ bs))) where
  size_le := by
    have hsize := h.size_le
    rw [size_append]
    omega
  lt_of_head? c hc := Nat.lt_of_le_of_lt (Nat.min_le_left ..) (h.lt_of_head? c hc)

/-! ## Counting -/

/-- The number of line feeds among the bytes of a text before an offset. -/
def feedsBefore (cs : List Char) (offset : Nat) : Nat :=
  ((cs.flatMap String.utf8EncodeChar).take offset).count 10

theorem length_flatMap_utf8EncodeChar (cs : List Char) :
    (cs.flatMap String.utf8EncodeChar).length = size cs := by
  induction cs with
  | nil => rfl
  | cons c cs ih =>
      rw [List.flatMap_cons, List.length_append, String.length_utf8EncodeChar, ih, size_cons]

theorem count_flatMap_utf8EncodeChar (cs : List Char) :
    (cs.flatMap String.utf8EncodeChar).count 10 = cs.count '\n' := by
  induction cs with
  | nil => rfl
  | cons c cs ih =>
      rw [List.flatMap_cons, List.count_append, ih, List.count_cons]
      by_cases hc : c = '\n'
      · subst hc
        show 1 + _ = _
        rw [Nat.add_comm]
        rfl
      · have hbytes : (10 : UInt8) ∉ String.utf8EncodeChar c := by
          intro hmem
          exact hc (eq_newline_of_mem_utf8EncodeChar hmem)
        rw [List.count_eq_zero.2 hbytes]
        simp [hc]

/-- A part of the bytes of a character has no line feed. -/
theorem count_take_utf8EncodeChar {c : Char} {n : Nat} (h : n < c.utf8Size) :
    ((String.utf8EncodeChar c).take n).count 10 = 0 := by
  rw [List.count_eq_zero]
  intro hmem
  obtain rfl := eq_newline_of_mem_utf8EncodeChar (List.mem_of_mem_take hmem)
  obtain rfl : n = 0 := Nat.lt_one_iff.1 h
  simp at hmem

theorem feedsBefore_append {as bs : List Char} {offset : Nat} (h : SplitsAt as bs offset) :
    feedsBefore (as ++ bs) offset = as.count '\n' := by
  have hsize := h.size_le
  have hbytes : (as.flatMap String.utf8EncodeChar).take offset =
      as.flatMap String.utf8EncodeChar := by
    refine List.take_of_length_le ?_
    rwa [length_flatMap_utf8EncodeChar]
  have hinside : ((bs.flatMap String.utf8EncodeChar).take (offset - size as)).count 10 = 0 := by
    cases bs with
    | nil => simp
    | cons c bs =>
        have hlt := h.lt_of_head? c rfl
        rw [List.flatMap_cons, List.take_append_of_le_length]
        · exact count_take_utf8EncodeChar (by omega)
        · rw [String.length_utf8EncodeChar]
          omega
  rw [feedsBefore, List.flatMap_append, List.take_append, List.count_append, hbytes,
    length_flatMap_utf8EncodeChar, hinside, count_flatMap_utf8EncodeChar, Nat.add_zero]

theorem feedsBefore_size (as bs : List Char) : feedsBefore (as ++ bs) (size as) = as.count '\n' :=
  feedsBefore_append (splitsAt_size as bs)

end Lexis.Text

set_option autoImplicit false

/-! # Sizes and cuts in UTF-8 bytes

A text is a list of characters, and an offset into it counts the bytes of its UTF-8 form. An offset
is *on a boundary* when no character straddles it; only there can a text be cut. `cut?` finds the
cut, and `cut?_eq_some_iff` says that it finds exactly the cuts there are: the two parts make up
the text, and the first part has the size asked for. -/

namespace Lexis.Text

/-! ## Size -/

/-- The number of bytes of a text in UTF-8. -/
def size : List Char → Nat
  | [] => 0
  | c :: cs => c.utf8Size + size cs

@[simp] theorem size_nil : size [] = 0 := rfl

@[simp] theorem size_cons (c : Char) (cs : List Char) : size (c :: cs) = c.utf8Size + size cs := rfl

@[simp] theorem size_append (as bs : List Char) : size (as ++ bs) = size as + size bs := by
  induction as with
  | nil => simp
  | cons c as ih => simp [ih, Nat.add_assoc]

theorem length_le_size (cs : List Char) : cs.length ≤ size cs := by
  induction cs with
  | nil => simp
  | cons c cs ih =>
      have := c.utf8Size_pos
      simp only [List.length_cons, size_cons]
      omega

theorem size_pos {cs : List Char} (h : cs ≠ []) : 0 < size cs :=
  Nat.lt_of_lt_of_le (List.length_pos_iff.2 h) (length_le_size cs)

theorem size_toList (s : String) : size s.toList = s.utf8ByteSize := by
  have hlist : ∀ cs, size cs = (String.ofList cs).utf8ByteSize := by
    intro cs
    induction cs with
    | nil => rfl
    | cons c cs ih =>
        rw [size_cons, ih, String.ofList_cons, String.utf8ByteSize_append,
          String.utf8ByteSize_singleton]
  rw [hlist, String.ofList_toList]

/-! ## Cuts -/

/-- The parts of a text before and after an offset; `none` when the offset is past the end or inside
    a character. -/
def cut? : List Char → Nat → Option (List Char × List Char)
  | cs, 0 => some ([], cs)
  | [], _ + 1 => none
  | c :: cs, n + 1 =>
    if c.utf8Size ≤ n + 1 then
      (cut? cs (n + 1 - c.utf8Size)).map fun (before, after) => (c :: before, after)
    else none

theorem cut?_size_append (as bs : List Char) : cut? (as ++ bs) (size as) = some (as, bs) := by
  induction as with
  | nil => cases bs <;> rfl
  | cons c as ih =>
      have hc := c.utf8Size_pos
      obtain ⟨n, hn⟩ : ∃ n, size (c :: as) = n + 1 := ⟨c.utf8Size + size as - 1, by simp; omega⟩
      have hsub : n + 1 - c.utf8Size = size as := by simp at hn; omega
      rw [List.cons_append, hn, cut?, if_pos (by simp at hn; omega), hsub, ih]
      rfl

theorem cut?_eq_some_iff {cs as bs : List Char} {n : Nat} :
    cut? cs n = some (as, bs) ↔ cs = as ++ bs ∧ n = size as := by
  constructor
  · intro h
    fun_induction cut? cs n generalizing as bs with
    | case1 cs => simp_all
    | case2 n => simp at h
    | case3 n c cs hle ih =>
        obtain ⟨⟨before, after⟩, hcut, heq⟩ := Option.map_eq_some_iff.1 h
        simp only [Prod.mk.injEq] at heq
        obtain ⟨rfl, rfl⟩ := heq
        obtain ⟨rfl, hn⟩ := ih hcut
        exact ⟨rfl, by simp; omega⟩
    | case4 n c cs hlt => simp at h
  · rintro ⟨rfl, rfl⟩
    exact cut?_size_append as bs

/-- A text has one first part of a given size. -/
theorem append_inj_of_size {as bs cs ds : List Char} (h : as ++ bs = cs ++ ds)
    (hsize : size as = size cs) : as = cs ∧ bs = ds := by
  have hcut := cut?_size_append as bs
  rw [h, hsize, cut?_size_append] at hcut
  obtain ⟨hfirst, hrest⟩ := Prod.mk.inj (Option.some.inj hcut)
  exact ⟨hfirst.symm, hrest.symm⟩

/-- Whether an offset lies in a text and between characters. -/
def isBoundary (cs : List Char) (n : Nat) : Bool := (cut? cs n).isSome

theorem isBoundary_iff {cs : List Char} {n : Nat} :
    isBoundary cs n = true ↔ ∃ as bs, cs = as ++ bs ∧ n = size as := by
  rw [isBoundary, Option.isSome_iff_exists]
  constructor
  · rintro ⟨⟨as, bs⟩, hcut⟩
    exact ⟨as, bs, cut?_eq_some_iff.1 hcut⟩
  · rintro ⟨as, bs, h⟩
    exact ⟨(as, bs), cut?_eq_some_iff.2 h⟩

/-- The text from the offset `start` up to the offset `stop`; `none` unless both are on boundaries
    and in order. -/
def slice? (cs : List Char) (start stop : Nat) : Option (List Char) :=
  if start ≤ stop then do
    let (_, rest) ← cut? cs start
    let (middle, _) ← cut? rest (stop - start)
    some middle
  else none

end Lexis.Text

import Lexis.Proofs.Position
import Lexis.Proofs.Trace

set_option autoImplicit false

/-! # Moving texts

When text is put before a text, all places in it move, and what is found there stays the same. A
`Motion` moves places so that walking on from a moved place is moving the place walked to; then the
tokens and errors of the moved text are the moved tokens and errors (`tokens_place_apply`,
`errors_place_apply`). Whole lines before a text move it `down`; any text before it moves it by
`shift`, which also moves the columns of the first line. -/

namespace Lexis

/-! ## Motions -/

/-- A way to move every place of a text. -/
structure Motion where
  /-- How far offsets move. -/
  bytes : Nat
  apply : Position → Position
  offset_apply : ∀ p, (apply p).offset = bytes + p.offset
  next_apply : ∀ p c, p.Counted → (apply p).next c = apply (p.next c)

namespace Motion

/-- The motion of a text before which whole lines are put: `lines` of them, of `bytes` bytes. -/
def down (bytes lines : Nat) : Motion where
  bytes := bytes
  apply p := ⟨bytes + p.offset, p.line + lines, p.column⟩
  offset_apply _ := rfl
  next_apply p c _ := by
    unfold Position.next
    split <;> simp [Nat.add_assoc, Nat.add_comm, Nat.add_left_comm]

/-- The motion of a text that is put at `start`. -/
def shift (start : Position) : Motion where
  bytes := start.offset
  apply := start.shift
  offset_apply _ := rfl
  next_apply p c h := by
    obtain ⟨hline, hcolumn⟩ := h
    unfold Position.next Position.shift
    -- behind a line feed the columns of the text before it do not count any more
    by_cases hc : c = '\n'
    · simp only [hc, if_true, Position.mk.injEq]
      refine ⟨by omega, by omega, ?_⟩
      rw [if_neg (by omega)]
    · simp only [hc, if_false, Position.mk.injEq]
      refine ⟨by omega, trivial, ?_⟩
      split <;> omega

theorem after_apply (m : Motion) {p : Position} (h : p.Counted) (cs : List Char) :
    (m.apply p).after cs = m.apply (p.after cs) := by
  induction cs generalizing p with
  | nil => rfl
  | cons c cs ih => rw [Position.after_cons, m.next_apply p c h, ih (h.next c), Position.after_cons]

end Motion

/-- A token of a text that is moved. -/
def Token.move (m : Motion) (t : Token) : Token :=
  { t with start := m.apply t.start, stop := m.bytes + t.stop }

/-- An error of a text that is moved. -/
def LexError.move (m : Motion) (e : LexError) : LexError :=
  { e with start := m.apply e.start, stop := m.bytes + e.stop }

/-! ## Moved pieces -/

/-- A piece of a text that is moved. -/
def Placed.move {α : Type} (m : Motion) (p : Placed α) : Placed α := ⟨m.apply p.start, p.piece⟩

theorem place_apply {α : Type} (text : α → List Char) (m : Motion) {p : Position} (h : p.Counted)
    (as : List α) : place text (m.apply p) as = (place text p as).map (Placed.move m) := by
  induction as generalizing p with
  | nil => rfl
  | cons a as ih =>
      rw [place, m.after_apply h, ih (h.after _)]
      rfl

theorem Placed.token?_move (m : Motion) (p : Placed Segment) :
    (p.move m).token? = p.token?.map (Token.move m) := by
  unfold Placed.token?
  rw [Option.map_map]
  congr 1
  funext ⟨kind, literal?⟩
  simp [Token.move, Placed.move, m.offset_apply, Nat.add_assoc]

theorem Placed.ownError?_move (m : Motion) (p : Placed Segment) :
    (p.move m).ownError? = p.ownError?.map (LexError.move m) := by
  unfold Placed.ownError?
  rw [Option.map_map]
  congr 1
  funext ⟨cause, size⟩
  simp [LexError.move, Placed.move, m.offset_apply, Nat.add_assoc]

theorem Placed.escapeErrors_apply (m : Motion) {p : Position} (h : p.Counted)
    (items : List StringItem) :
    escapeErrors (m.apply p) items = (escapeErrors p items).map (LexError.move m) := by
  unfold escapeErrors
  rw [m.after_apply h, place_apply _ m (h.after _), List.filterMap_map, List.map_filterMap]
  congr 1
  funext item
  by_cases hvalue : item.piece.value? = none
  · simp [Placed.move, LexError.move, hvalue, m.offset_apply, Nat.add_assoc]
  · simp [Placed.move, hvalue]

theorem Placed.errors_move (m : Motion) {p : Placed Segment} (h : p.start.Counted) :
    (p.move m).errors = p.errors.map (LexError.move m) := by
  unfold Placed.errors
  rw [p.ownError?_move m, Placed.move, Placed.escapeErrors_apply m h, List.map_append]
  cases p.ownError? <;> rfl

/-! ## Moved traces -/

namespace Trace

theorem tokens_place_apply (m : Motion) {p : Position} (h : p.Counted) (segments : List Segment) :
    tokens (place Segment.text (m.apply p) segments) =
      (tokens (place Segment.text p segments)).map (Token.move m) := by
  unfold tokens
  rw [place_apply _ m h, List.filterMap_map, List.map_filterMap]
  congr 1
  funext placed
  exact placed.token?_move m

theorem errors_place_apply (m : Motion) {p : Position} (h : p.Counted) (segments : List Segment) :
    errors (place Segment.text (m.apply p) segments) =
      (errors (place Segment.text p segments)).map (LexError.move m) := by
  induction segments generalizing p with
  | nil => rfl
  | cons s segments ih =>
      rw [place, place, errors_cons, errors_cons, List.map_append, m.after_apply h,
        ih (h.after s.text), ← Placed.errors_move m h]
      rfl

end Trace

end Lexis

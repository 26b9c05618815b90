import Lexis.Position

set_option autoImplicit false

/-! # Cursors

A cursor stands between two characters of a source text. It holds the characters behind it (nearest
first), those ahead of it, and its position. Every operation either leaves it or moves it forward
by whole characters, so that what is behind and what is ahead always make up the source. A cursor
is a value: to go back is to take up an earlier one, which `Cursor.Run` models for sequences of
operations. -/

namespace Lexis

/-- A reading place in a source text. -/
structure Cursor where
  /-- The characters already read, nearest first. -/
  behind : List Char
  /-- The characters not yet read. -/
  ahead : List Char
  /-- The place between the two. -/
  position : Position
deriving DecidableEq, Repr

namespace Cursor

/-- A cursor at the start of a text. -/
def ofText (cs : List Char) : Cursor := ⟨[], cs, .origin⟩

/-- The whole text, read or not. -/
def source (k : Cursor) : List Char := k.behind.reverse ++ k.ahead

/-- The size of the whole text in bytes. -/
def sourceSize (k : Cursor) : Nat := Text.size k.behind + Text.size k.ahead

/-- Whether an offset into the whole text is on a boundary. The text behind the cursor is at hand
    backwards, and has its boundaries at the same places in either direction. -/
def isBoundary (k : Cursor) (offset : Nat) : Bool :=
  if offset ≤ k.position.offset then Text.isBoundary k.behind (k.position.offset - offset)
  else Text.isBoundary k.ahead (offset - k.position.offset)

/-- Whether everything has been read. -/
def isAtEnd (k : Cursor) : Bool := k.sourceSize ≤ k.position.offset

/-- The next character. -/
def peek (k : Cursor) : Option Char := k.ahead.head?

/-- The character behind the next one. -/
def peekNext (k : Cursor) : Option Char := k.ahead.tail.head?

/-- Read a character; at the end the cursor stays. -/
def advance (k : Cursor) : Cursor :=
  match k.ahead with
  | [] => k
  | c :: cs => ⟨c :: k.behind, cs, k.position.next c⟩

/-- With each character that is read there is less ahead. -/
theorem length_ahead_advance {k : Cursor} {p : Char → Bool} (h : k.peek.any p = true) :
    k.advance.ahead.length < k.ahead.length := by
  obtain ⟨behind, ahead, position⟩ := k
  cases ahead with
  | nil => exact absurd h (by simp [peek])
  | cons c cs => exact Nat.lt_succ_self cs.length

/-- Read the next character if it is `c`. -/
def matchChar (c : Char) (k : Cursor) : Bool × Cursor :=
  if k.peek = some c then (true, k.advance) else (false, k)

/-- Read characters as long as they satisfy `p`. -/
def eatWhile (p : Char → Bool) (k : Cursor) : Cursor :=
  if k.peek.any p = true then eatWhile p k.advance else k
termination_by k.ahead.length
decreasing_by exact length_ahead_advance ‹_›

/-- The text between an offset and the cursor; a fault if the offset is past the cursor or inside a
    character. -/
def sliceFrom (k : Cursor) (start : Nat) : Except Fault (List Char) :=
  if start ≤ k.position.offset then
    match Text.cut? k.behind (k.position.offset - start) with
    | some (text, _) => .ok text.reverse
    | none => .error .slice
  else .error .slice

/-! ## Sequences of operations -/

/-- One operation on a cursor. -/
inductive Op where
  | peek
  | peekNext
  | advance
  | matchChar (c : Char)
  | eatWhile (p : Char → Bool)
  | sliceFrom (start : Nat)
  | isBoundary (offset : Nat)
  | sourceSize
  /-- Remember the cursor. -/
  | save
  /-- Go back to the cursor remembered last, or to the one so many before it. -/
  | restore (back : Nat := 0)

/-- What an operation answers. -/
inductive Answer where
  | char (c? : Option Char)
  | flag (b : Bool)
  | text (cs : List Char)
  | fault (f : Fault)
  | number (n : Nat)
  | nothing
deriving DecidableEq, Repr

/-- The text of a slice, or the fault. -/
def Answer.ofSlice : Except Fault (List Char) → Answer
  | .ok cs => .text cs
  | .error f => .fault f

/-- A cursor in use, with the cursors to go back to. -/
structure Run where
  current : Cursor
  /-- The cursors remembered, the last one first. -/
  saved : List Cursor
deriving DecidableEq, Repr

namespace Run

/-- A run at the start of a text, which is remembered. -/
def ofText (cs : List Char) : Run := ⟨.ofText cs, [.ofText cs]⟩

/-- Perform an operation. -/
def step (r : Run) : Op → Answer × Run
  | .peek => (.char r.current.peek, r)
  | .peekNext => (.char r.current.peekNext, r)
  | .advance => (.char r.current.peek, { r with current := r.current.advance })
  | .matchChar c =>
    let (hit, k) := r.current.matchChar c
    (.flag hit, { r with current := k })
  | .eatWhile p =>
    let k := r.current.eatWhile p
    (.ofSlice (k.sliceFrom r.current.position.offset), { r with current := k })
  | .sliceFrom start => (.ofSlice (r.current.sliceFrom start), r)
  | .isBoundary offset => (.flag (r.current.isBoundary offset), r)
  | .sourceSize => (.number r.current.sourceSize, r)
  | .save => (.nothing, { r with saved := r.current :: r.saved })
  | .restore back => (.nothing, { r with current := r.saved.getD back r.current })

/-- Perform operations in turn; the answers come with the run behind each of them. -/
def trace (r : Run) : List Op → List (Answer × Run)
  | [] => []
  | op :: ops => r.step op :: trace (r.step op).2 ops

end Run

end Cursor

end Lexis

import Lexis.Fault
import Lexis.Text.Size

set_option autoImplicit false

/-! # Positions and spans

A position is a byte offset together with the line and column that a reader would name: both count
from one, and columns count characters. Walking over a text moves a position (`Position.after`);
`Position.after_append` says that walking in two stages is walking at once, and `offset_after` that
the offset moves by the size of the text. -/

namespace Lexis

/-- A place in a source text. -/
structure Position where
  /-- Bytes before the place. -/
  offset : Nat
  /-- Line, counted from one. -/
  line : Nat
  /-- Column, counted from one in characters. -/
  column : Nat
deriving DecidableEq, Repr

namespace Position

/-- The start of a text. -/
def origin : Position := ⟨0, 1, 1⟩

/-- The position behind a character: a line feed starts a line, all else moves one column on. -/
def next (p : Position) (c : Char) : Position :=
  if c = '\n' then ⟨p.offset + c.utf8Size, p.line + 1, 1⟩
  else ⟨p.offset + c.utf8Size, p.line, p.column + 1⟩

/-- The position behind a text. -/
def after (p : Position) (cs : List Char) : Position := cs.foldl next p

@[simp] theorem after_nil (p : Position) : p.after [] = p := rfl

@[simp] theorem after_cons (p : Position) (c : Char) (cs : List Char) :
    p.after (c :: cs) = (p.next c).after cs := rfl

theorem after_append (p : Position) (as bs : List Char) :
    p.after (as ++ bs) = (p.after as).after bs := List.foldl_append

@[simp] theorem offset_next (p : Position) (c : Char) :
    (p.next c).offset = p.offset + c.utf8Size := by
  unfold next
  split <;> rfl

@[simp] theorem offset_after (p : Position) (cs : List Char) :
    (p.after cs).offset = p.offset + Text.size cs := by
  induction cs generalizing p with
  | nil => simp
  | cons c cs ih => simp [ih, Nat.add_assoc]

/-- The position `q` of a text that itself starts at `p`: offsets and lines add up, and columns do
    on the first line only. -/
def shift (p q : Position) : Position :=
  { offset := p.offset + q.offset
    line := p.line + (q.line - 1)
    column := if q.line = 1 then p.column + (q.column - 1) else q.column }

end Position

/-- A range of bytes of a source text. -/
structure Span where
  /-- Offset of the first byte. -/
  start : Nat
  /-- Offset behind the last byte. -/
  stop : Nat
deriving DecidableEq, Repr

namespace Span

/-- Whether a span covers nothing. -/
def isEmpty (s : Span) : Bool := s.start = s.stop

/-- The number of bytes covered. -/
def length (s : Span) : Except Fault Nat :=
  if s.start ≤ s.stop then .ok (s.stop - s.start) else .error .reversedSpan

end Span

end Lexis

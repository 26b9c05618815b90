import Lexis.Cursor

set_option autoImplicit false

/-! # Cursors with limited counters

The offset, line and column of a position are counters of a machine, which hold no number above some
`limit`. Here a cursor moves only if the counters can hold the position it moves to; otherwise that
is a fault. -/

namespace Lexis

/-- The greatest number that a counter of 64 bits holds. -/
def maxCount : Nat := 0xffffffffffffffff

/-- A number, if a counter can hold it. -/
def Fault.count (limit n : Nat) : Except Fault Nat :=
  if n ≤ limit then .ok n else .error .overflow

/-- Whether the counters of a position can hold what is in them. -/
def Position.isWithin (limit : Nat) (p : Position) : Bool :=
  p.offset ≤ limit && p.line ≤ limit && p.column ≤ limit

namespace Cursor

/-- Read a character; at the end the cursor stays. -/
def advanceWithin (limit : Nat) (k : Cursor) : Except Fault Cursor :=
  if k.advance.position.isWithin limit then .ok k.advance else .error .overflow

/-- Read `n` characters, or as many as there are. -/
def skipWithin (limit : Nat) : Nat → Cursor → Except Fault Cursor
  | 0, k => .ok k
  | n + 1, k => do skipWithin limit n (← k.advanceWithin limit)

/-- Read the next character if it is `c`. -/
def matchWithin (limit : Nat) (c : Char) (k : Cursor) : Except Fault (Bool × Cursor) :=
  if k.peek = some c then do return (true, ← k.advanceWithin limit) else .ok (false, k)

/-- Read characters as long as they satisfy `p`. -/
def eatWithin (limit : Nat) (p : Char → Bool) (k : Cursor) : Except Fault Cursor :=
  k.skipWithin limit (k.ahead.takeWhile p).length

end Cursor

end Lexis

set_option autoImplicit false

/-! # Faults

What can go wrong inside the library itself, as opposed to in a source text: a broken invariant, a
slice that is not on boundaries, a span that ends before it starts, a counter that is too small, a
case that was thought to be impossible, a loop without end. Operations that could fault return
`Except Fault`. -/

namespace Lexis

/-- A condition that only a mistake in the calling code can produce. -/
inductive Fault where
  /-- An invariant does not hold. -/
  | invariant (description : String)
  /-- A slice of a text starts or stops inside a character, past the end, or in the wrong order. -/
  | slice
  /-- A span ends before it starts, so that it has no length. -/
  | reversedSpan
  /-- A counter cannot hold a number. -/
  | overflow
  /-- A case occurs that no text should lead to. -/
  | impossible
  /-- A loop does not move on, so that it would not end. -/
  | endless
deriving DecidableEq, Repr

/-- The text that a fault carries, if it has one. -/
def Fault.message? : Fault → Option String
  | .invariant description => some ("internal invariant violated: " ++ description)
  | _ => none

/-- Go on only if a condition holds. -/
def Fault.check (condition : Bool) (description : String) : Except Fault Unit :=
  if condition then .ok () else .error (.invariant description)

end Lexis

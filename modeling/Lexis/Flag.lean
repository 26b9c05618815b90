set_option autoImplicit false

/-! # Flags

A switch that is on or off, written as `1` or `0`. Numbers from outside are checked: anything else
is refused. -/

namespace Lexis

/-- A switch for a behaviour that is optional. -/
structure Flag where
  isEnabled : Bool
deriving DecidableEq, Repr, Inhabited

/-- Why a number is no flag. -/
inductive FlagError where
  | nonBinary (value : UInt32)
deriving DecidableEq, Repr

/-- The message of a refusal. -/
def FlagError.message : FlagError → String
  | nonBinary value => s!"flag value must be 0 or 1, got {value.toNat}"

namespace Flag

def enabled : Flag := ⟨true⟩

def disabled : Flag := ⟨false⟩

/-- The number that stands for a flag. -/
def bit (f : Flag) : UInt32 := if f.isEnabled then 1 else 0

/-- The flag that a number stands for. -/
def ofBit (value : UInt32) : Except FlagError Flag :=
  if value = 0 then .ok disabled
  else if value = 1 then .ok enabled
  else .error (.nonBinary value)

theorem ofBit_eq_ok_iff {value : UInt32} {f : Flag} : ofBit value = .ok f ↔ value = f.bit := by
  obtain ⟨b⟩ := f
  cases b <;> simp only [ofBit, bit, enabled, disabled] <;> grind

end Flag

end Lexis

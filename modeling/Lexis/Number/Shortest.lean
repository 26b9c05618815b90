import Lexis.Number.Binary64

set_option autoImplicit false

/-! # Shortest decimals

The fewest decimal digits that read back as a given binary64 number, and of those the ones nearest
to it. The numbers that read back form an interval around the value: it reaches half way to the
neighbours, and includes its ends if the significand is even. A grid of decimals with `n` digits
has a point in the interval only if one of the two grid points around the value is in it, so the
search tries these two for `n = 1, 2, …`; with seventeen digits there is always one. -/

namespace Lexis

/-- Decimal digits scaled by a power of ten: `0.d₁d₂… · 10 ^ (point)`, where `digits` is the integer
    `d₁d₂…` and `point` says where the decimal point stands, counted from before `d₁`. -/
structure DecimalDigits where
  /-- The digits, the first of them not zero. -/
  digits : List Char
  /-- How many digits stand before the decimal point. -/
  point : Int
deriving DecidableEq, Repr

/-- Which of two equally near decimals is taken. -/
inductive TieRule where
  | up
  | toEven
deriving DecidableEq, Repr

namespace Binary64

/-- The interval of reals that read back as a number, in quarters of its last place: the distances
    from the value down and up to the ends, and whether the ends belong to it. Below a power of two
    the neighbour is half as far. -/
structure Interval where
  below : Nat
  above : Nat
  closed : Bool
deriving DecidableEq, Repr

/-- The interval of the reals that read back as `x`. -/
def interval (x : Binary64) : Interval :=
  { below := if x.significand = leadingOne ∧ 0 < x.exponent then 1 else 2
    above := 2
    closed := x.significand % 2 = 0 }

/-- The least power `e` with `num < den · 10 ^ e`, for a positive ratio: as many as the whole part
    has digits, or one less than none for every further digit of the whole part of its inverse. -/
def decimalPoint (num den : Nat) : Int :=
  if den ≤ num then (Nat.toDigits 10 (num / den)).length
  else 1 - (Nat.toDigits 10 ((den - 1) / num)).length

/-- The digits of `n` at the given scale, without the zeros at its end. -/
def trimmedDigits (n : Nat) (point : Int) (count : Nat) : DecimalDigits :=
  let all := Nat.toDigits 10 n
  { digits := (all.reverse.dropWhile (· = '0')).reverse
    point := point + ((all.length : Int) - (count : Int)) }

/-- The decimal with `count` digits that reads back as the positive number `x` and is nearest to
    it, if any does. All quantities are multiples of a quarter of the last place of `x`, over a
    common denominator. -/
def withDigits? (tie : TieRule) (x : Binary64) (point : Int) (count : Nat) :
    Option DecimalDigits :=
  let range := x.interval
  -- `scale` and `grid` bring the value and the grid's step to integers
  let shift := point - (count : Int)
  let quarter := Nat.pow 2 x.exponent * (if shift < 0 then Nat.pow 10 (-shift).toNat else 1)
  let step := 4 * unitsInOne * (if shift < 0 then 1 else Nat.pow 10 shift.toNat)
  let value := 4 * x.significand * quarter
  let low := value / step
  let down := value - low * step
  let up := (low + 1) * step - value
  let reaches (distance bound : Nat) : Bool :=
    if range.closed then distance ≤ bound else distance < bound
  let lowHit := 0 < low && reaches down (range.below * quarter)
  let highHit := reaches up (range.above * quarter)
  let takeLow : Bool := down < up || (down = up && tie = .toEven && low % 2 = 0)
  if lowHit && (takeLow || !highHit) then some (trimmedDigits low point count)
  else if highHit then some (trimmedDigits (low + 1) point count)
  else none

/-- The shortest decimal that reads back as a positive number. -/
def shortest (tie : TieRule) (x : Binary64) : DecimalDigits :=
  let (num, den) := x.ratio
  let point := decimalPoint num den
  match (List.range 17).findSome? fun n => x.withDigits? tie point (n + 1) with
  | some d => d
  | none => trimmedDigits 0 0 1

end Binary64

end Lexis

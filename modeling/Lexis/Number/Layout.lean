import Lexis.Number.Shortest

set_option autoImplicit false

/-! # How decimals are laid out

A layout fixes what the digits alone do not: when a number is written positionally and when with an
exponent, how the exponent looks, and which of two equally short and near decimals is taken. Two
layouts are in use, `Layout.display` for listings and `Layout.dump` for dumps. -/

namespace Lexis

/-- The choices in writing a number. -/
structure Layout where
  /-- The least decimal exponent of the leading digit that is written positionally. -/
  least : Int
  /-- The greatest such exponent. -/
  greatest : Int
  /-- What stands before a positive exponent. -/
  plusSign : List Char
  /-- Which of two equally near decimals is taken. -/
  tie : TieRule
deriving DecidableEq, Repr

namespace Layout

/-- Listings write numbers from `0.0001` up to below `10 ^ 16` positionally and the exponents of
    others without a plus sign; of two equally near decimals the greater is taken. -/
def display : Layout := ⟨-4, 15, [], .up⟩

/-- Dumps write numbers from `0.00001` up to below `10 ^ 16` positionally and the exponents of
    others with a sign; of two equally near decimals the even one is taken. -/
def dump : Layout := ⟨-5, 15, ['+'], .toEven⟩

/-- Digits around a decimal point, with at least one on each side. -/
def positional (d : DecimalDigits) : List Char :=
  if d.point ≤ 0 then
    '0' :: '.' :: (List.replicate (-d.point).toNat '0' ++ d.digits)
  else
    let before := d.point.toNat
    let whole := d.digits.take before ++ List.replicate (before - d.digits.length) '0'
    let fraction := d.digits.drop before
    whole ++ '.' :: (if fraction = [] then ['0'] else fraction)

/-- Digits with an exponent; the point is written only if digits follow it. -/
def scientific (layout : Layout) (d : DecimalDigits) : List Char :=
  let exponent := d.point - 1
  let fraction := d.digits.drop 1
  let mantissa := d.digits.take 1 ++ (if fraction = [] then [] else '.' :: fraction)
  let sign := if exponent < 0 then ['-'] else layout.plusSign
  mantissa ++ 'e' :: (sign ++ Nat.toDigits 10 exponent.natAbs)

/-- The text of a number: the shortest digits that read back, laid out. -/
def write (layout : Layout) (x : Binary64) : List Char :=
  if x.word = 0 then ['0', '.', '0']
  else
    let d := x.shortest layout.tie
    if layout.least ≤ d.point - 1 ∧ d.point - 1 ≤ layout.greatest then positional d
    else layout.scientific d

end Layout

end Lexis

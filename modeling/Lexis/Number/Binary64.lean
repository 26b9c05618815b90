import Lexis.Text.Hex

set_option autoImplicit false

/-! # Binary64 numbers

The non-negative finite numbers of the 64-bit binary format. A number is its word: the words below
that of infinity, in the order of the values they stand for, so a number has one form and equality
is equality of words. The value of a word is `significand · 2 ^ (exponent - 1074)`.

`ofRatio?` rounds a ratio to the nearest number, a half to the even significand. It counts the
units of the last place that the ratio holds; when the count is rounded up to the next power of
two, adding it to the word carries into the exponent, which is the number wanted. -/

namespace Lexis

/-- The leading one that the fraction of a normal number leaves out: two to the power 52. -/
def leadingOne : Nat := 0x10000000000000

/-- How many of the least positive number make one: two to the power 1074. -/
def unitsInOne : Nat := Nat.pow 2 1074

/-- The word of infinity. -/
def infinityWord : Nat := 0x7ff0000000000000

/-- A non-negative finite binary64 number. -/
structure Binary64 where
  /-- The word: sign 0, eleven bits of exponent, 52 bits of fraction. -/
  word : Nat
  /-- The word is below that of infinity. -/
  finite : word < infinityWord
deriving DecidableEq, Repr

namespace Binary64

/-- The integer that is scaled: the fraction of the word, with the leading one that normal numbers
    leave out. -/
def significand (x : Binary64) : Nat :=
  if x.word < leadingOne then x.word else leadingOne + x.word % leadingOne

/-- The power of two that scales it, counted from `2 ^ (-1074)`. -/
def exponent (x : Binary64) : Nat := x.word / leadingOne - 1

/-- The value as a ratio of integers. -/
def ratio (x : Binary64) : Nat × Nat := (x.significand * Nat.pow 2 x.exponent, unitsInOne)

/-- The integer nearest to `num / den`, a half to the even neighbour. -/
def roundHalfEven (num den : Nat) : Nat :=
  let quotient := num / den
  let twice := 2 * (num % den)
  if twice < den then quotient
  else if twice = den then quotient + quotient % 2
  else quotient + 1

/-- The number nearest to `num / den`, a half to the even significand; `none` when that is beyond
    the largest finite number. -/
def ofRatio? (num den : Nat) : Option Binary64 :=
  let units := num * unitsInOne
  let exponent := Nat.log2 (units / den) - 52
  let word := exponent * leadingOne + roundHalfEven units (den * Nat.pow 2 exponent)
  if h : word < infinityWord then some ⟨word, h⟩ else none

/-- The product, rounded; `none` when it is beyond the largest finite number. -/
def mul? (x y : Binary64) : Option Binary64 :=
  ofRatio? (x.ratio.1 * y.ratio.1) (x.ratio.2 * y.ratio.2)

/-- Zero. -/
def zero : Binary64 := ⟨0, by decide⟩

/-- The quotient by a number that is at least one, rounded. It is finite, since it is no more than
    the dividend. -/
def div (x y : Binary64) : Binary64 :=
  (ofRatio? (x.ratio.1 * y.ratio.2) (x.ratio.2 * y.ratio.1)).getD zero

/-- The number nearest to the decimal `whole.fraction`, both runs of digits. -/
def ofDecimal? (whole fraction : List Char) : Option Binary64 :=
  ofRatio? (Nat.ofDigitChars 10 (whole ++ fraction) 0) (Nat.pow 10 fraction.length)

/-- The sixteen lower case hexadecimal digits of the word. -/
def hexWord (x : Binary64) : List Char :=
  let digits := Text.hexDigits x.word
  List.replicate (16 - digits.length) '0' ++ digits

end Binary64

end Lexis

import Lexis.Config.Error
import Lexis.Text.Blank
import Lexis.Text.Size

set_option autoImplicit false

/-! # Reading JSON tokens

A reader stands in a configuration document and counts the bytes behind it. It reads strings and
numbers; each reading function answers with the reader behind what it read, or with a cause and the
number of bytes at which reading stopped. Some causes are found by looking at the next byte and stop
before it, others by reading it and stop behind it; messages count a byte that was only looked at as
well (`Reader.atNext`). -/

namespace Lexis.Config

/-- Why reading stopped, and behind how many bytes. -/
structure Refusal where
  cause : ConfigError.Cause
  offset : Nat
deriving DecidableEq, Repr

/-- A refusal of a part of a text that starts `n` bytes in. -/
def Refusal.behind (n : Nat) (r : Refusal) : Refusal := { r with offset := n + r.offset }

/-- A place in a document. -/
structure Reader where
  ahead : List Char
  /-- The number of bytes read. -/
  offset : Nat
deriving DecidableEq, Repr

namespace Reader

/-- Read `n` characters. -/
def skip (r : Reader) (n : Nat) : Reader :=
  ⟨r.ahead.drop n, r.offset + Text.size (r.ahead.take n)⟩

/-- Read all characters at the front that satisfy `p`. -/
def skipWhile (r : Reader) (p : Char → Bool) : Reader := r.skip (r.ahead.takeWhile p).length

/-- Read blanks. -/
def skipBlanks (r : Reader) : Reader := r.skipWhile Text.isBlank

/-- Stop here. -/
def here (r : Reader) (cause : ConfigError.Cause) : Refusal := ⟨cause, r.offset⟩

/-- Stop at the next byte, which counts as read. -/
def atNext (r : Reader) (cause : ConfigError.Cause) : Refusal :=
  ⟨cause, if r.ahead.isEmpty then r.offset else r.offset + 1⟩

/-! ## Strings -/

/-- The number that four hexadecimal digits spell. A refusal comes with the number of bytes read. -/
def hexUnit (cs : List Char) : Except Refusal Nat :=
  if Text.size cs < 4 then .error ⟨.endOfString, Text.size cs⟩
  else if (cs.take 4).all Char.isHexDigit then .ok (Text.hexValue (cs.take 4))
  else .error ⟨.invalidEscape, 4⟩

/-- Whether a number is the first half of a surrogate pair. -/
def isLeading (n : Nat) : Bool := 0xd800 ≤ n && n ≤ 0xdbff

/-- Whether a number is the second half of a surrogate pair. -/
def isTrailing (n : Nat) : Bool := 0xdc00 ≤ n && n ≤ 0xdfff

/-- The second half of a surrogate pair, which is an escape of its own, behind the first one. -/
def secondHalf (first : Nat) : List Char → Except Refusal Char
  | [] => .error ⟨.endOfString, 0⟩
  | ['\\'] => .error ⟨.endOfString, 1⟩
  | '\\' :: 'u' :: cs => do
    let second ← (hexUnit cs).mapError (Refusal.behind 2)
    if isTrailing second then
      return Char.ofNat (0x10000 + (first - 0xd800) * 0x400 + (second - 0xdc00))
    else .error ⟨.loneSurrogate, 6⟩
  | '\\' :: _ => .error ⟨.endOfHexEscape, 2⟩
  | _ => .error ⟨.endOfHexEscape, 1⟩

/-- The characters that stand for another one behind a backslash. -/
def simpleEscapes : List (Char × Char) :=
  [('"', '"'), ('\\', '\\'), ('/', '/'), ('b', '\x08'), ('f', '\x0c'), ('n', '\n'), ('r', '\r'),
   ('t', '\t')]

/-- The character that an escape stands for, given the text behind its backslash, and how many
    characters of that text belong to it. -/
def readEscape : List Char → Except Refusal (Char × Nat)
  | [] => .error ⟨.endOfString, 0⟩
  | 'u' :: cs => do
    let unit ← (hexUnit cs).mapError (Refusal.behind 1)
    if isTrailing unit then .error ⟨.loneSurrogate, 5⟩
    else if isLeading unit then
      let c ← (secondHalf unit (cs.drop 4)).mapError (Refusal.behind 5)
      return (c, 11)
    else return (Char.ofNat unit, 5)
  | c :: _ =>
    match simpleEscapes.lookup c with
    | some value => .ok (value, 1)
    | none => .error ⟨.invalidEscape, 1⟩

/-- The string up to its closing quote, for a reader behind the opening one. -/
def readString (r : Reader) : Except Refusal (List Char × Reader) :=
  match _h : r.ahead with
  | [] => .error (r.here .endOfString)
  | c :: cs =>
    if c = '"' then .ok ([], r.skip 1)
    else if c = '\\' then
      match readEscape cs with
      | .error e => .error (.behind (r.offset + 1) e)
      | .ok (value, length) => do
        let (values, stop) ← readString (r.skip (length + 1))
        return (value :: values, stop)
    else if c.toNat < 0x20 then .error (r.atNext .controlCharacter)
    else do
      let (values, stop) ← readString (r.skip 1)
      return (c :: values, stop)
termination_by r.ahead.length
decreasing_by
  all_goals
    simp only [skip, List.length_drop, _h, List.length_cons]
    omega

/-! ## Numbers

Integers up to `2 ^ 64 - 1` are exact. Longer ones, and numbers with a fraction or an exponent, are
floats: the digits are gathered in a significand as long as it stays below `2 ^ 64`, the others only
count for the exponent, and the significand is scaled by a power of ten. The significand and the
power are rounded before they are multiplied or divided, and so is the result; the value can thus be
off by a last place. -/

/-- The greatest significand: the greatest unsigned 64-bit integer. -/
def maxSignificand : Nat := 0xffffffffffffffff

/-- The greatest power of ten that is a binary64 number. -/
def maxPower : Nat := 308

/-- The greatest exponent that a number may have: the greatest signed 32-bit integer. -/
def maxExponent : Nat := 0x7fffffff

/-- The greatest `n` for which `-n` is a signed 64-bit integer. -/
def maxNegative : Nat := 0x8000000000000000

/-- The binary64 number nearest to a power of ten. -/
def powerOfTen (n : Nat) : Binary64 := (Binary64.ofRatio? (Nat.pow 10 n) 1).getD .zero

/-- Divide by a power of ten, in steps of the greatest power there is. -/
def divPowerOfTen (x : Binary64) (n : Nat) : Binary64 :=
  if n ≤ maxPower then x.div (powerOfTen n)
  else if x = .zero then x
  else divPowerOfTen (x.div (powerOfTen maxPower)) (n - maxPower)
termination_by n
decreasing_by
  have : 0 < maxPower := by decide
  omega

/-- The float `significand · 10 ^ exponent`; `none` if it is too large. -/
def float? (significand : Nat) (exponent : Int) : Option Binary64 := do
  let x ← Binary64.ofRatio? significand 1
  if exponent < 0 then return divPowerOfTen x exponent.natAbs
  else if exponent.natAbs ≤ maxPower then x.mul? (powerOfTen exponent.natAbs)
  else if x = .zero then return x
  else none

/-- The digits of a number as far as they were gathered. -/
structure Decimal where
  isNegative : Bool
  significand : Nat
  exponent : Int
deriving DecidableEq, Repr

/-- The value of a digit. -/
def digitValue (c : Char) : Nat := c.toNat - '0'.toNat

/-- The number of leading digits that the significand can take up behind it, and the significand
    with them. -/
def gather (significand : Nat) : List Char → Nat × Nat
  | [] => (0, significand)
  | c :: cs =>
    let next := significand * 10 + digitValue c
    if next ≤ maxSignificand then
      let (count, result) := gather next cs
      (count + 1, result)
    else (0, significand)

/-- A float that ends here. -/
def finish (r : Reader) (d : Decimal) : Except Refusal (ConfigNumber × Reader) :=
  (float? d.significand d.exponent).elim (.error (r.here .numberOutOfRange)) fun x =>
    .ok (.float d.isNegative x, r)

/-- How many of the digits of an exponent can be read before it is too large; `none` if all can. -/
def exponentLimit? (exponent : Nat) : List Char → Option Nat
  | [] => none
  | c :: cs =>
    let next := exponent * 10 + digitValue c
    if next ≤ maxExponent then (exponentLimit? next cs).map (· + 1) else some 1

/-- The exponent of a number, for a reader behind the letter. -/
def readExponent (r : Reader) (d : Decimal) : Except Refusal (ConfigNumber × Reader) :=
  let isNegative := r.ahead.head? = some '-'
  let start := if r.ahead.head? = some '+' ∨ isNegative then r.skip 1 else r
  let digits := start.ahead.takeWhile Char.isDigit
  let stop := start.skip digits.length
  match start.ahead.head? with
  | none => .error (start.here .endOfValue)
  | some c =>
    if !c.isDigit then .error (start.atNext .invalidNumber)
    else
      match exponentLimit? 0 digits with
      | some count =>
        if d.significand ≠ 0 ∧ !isNegative then
          .error ((start.skip count).here .numberOutOfRange)
        else .ok (.float d.isNegative .zero, stop)
      | none =>
        let exponent : Int := Nat.ofDigitChars 10 digits 0
        finish stop
          { d with exponent := if isNegative then d.exponent - exponent else d.exponent + exponent }

/-- What may follow the digits of a float: an exponent, or nothing. -/
def readTail (r : Reader) (d : Decimal) : Except Refusal (ConfigNumber × Reader) :=
  match r.ahead with
  | 'e' :: _ | 'E' :: _ => readExponent (r.skip 1) d
  | _ => finish r d

/-- The fraction of a number, for a reader behind the point. Digits that the significand cannot take
    up are dropped. -/
def readFraction (r : Reader) (d : Decimal) : Except Refusal (ConfigNumber × Reader) :=
  let digits := r.ahead.takeWhile Char.isDigit
  let (count, significand) := gather d.significand digits
  if digits = [] then
    .error (if r.ahead = [] then r.atNext .endOfValue else r.atNext .invalidNumber)
  else
    readTail (r.skip digits.length)
      { d with significand := significand, exponent := d.exponent - count }

/-- The number that an integer without fraction and exponent is. -/
def ofInteger (isNegative : Bool) (n : Nat) (r : Reader) :
    Except Refusal (ConfigNumber × Reader) :=
  if !isNegative then .ok (.unsigned n, r)
  else if 0 < n ∧ n ≤ maxNegative then .ok (.negative n, r)
  else finish r ⟨true, n, 0⟩

/-- A number without its sign. -/
def readUnsigned (isNegative : Bool) (r : Reader) : Except Refusal (ConfigNumber × Reader) :=
  let digits := r.ahead.takeWhile Char.isDigit
  match digits with
  | [] => .error (if r.ahead = [] then r.here .endOfValue else r.atNext .invalidNumber)
  | '0' :: _ :: _ => .error ((r.skip 1).atNext .invalidNumber)
  | _ =>
    let stop := r.skip digits.length
    let (count, significand) := gather 0 digits
    let d : Decimal := ⟨isNegative, significand, digits.length - count⟩
    match stop.ahead with
    | '.' :: _ => readFraction (stop.skip 1) d
    | 'e' :: _ | 'E' :: _ => readExponent (stop.skip 1) d
    | _ =>
      if count = digits.length then ofInteger isNegative significand stop else finish stop d

/-- A number, which starts with a digit or a minus sign. -/
def readNumber (r : Reader) : Except Refusal (ConfigNumber × Reader) :=
  if r.ahead.head? = some '-' then readUnsigned true (r.skip 1) else readUnsigned false r

end Reader

end Lexis.Config

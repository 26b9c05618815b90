import Lexis.LexError
import Lexis.Segment.StringItem
import Lexis.Token.Basic

set_option autoImplicit false

/-! # Segments

A source text is a row of segments: blanks, comments, tokens, and text that is none of these. A
segment is what was read, without a place; `Segment.text` is the source text it was read from,
`Segment.token?` the kind and value of the token it makes, and `Segment.fault?` what is wrong with
it. Of the last two each segment has at most one, and blanks and comments have neither. -/

namespace Lexis

/-- A piece of source text, classified. -/
inductive Segment where
  /-- A space, tab, carriage return or line feed. -/
  | blank (c : Char)
  /-- Two slashes and the text up to the end of the line. -/
  | lineComment (body : List Char)
  /-- A comment between slash-star and star-slash. -/
  | blockComment (body : List Char)
  /-- A comment that is opened by slash-star and not closed. -/
  | openComment (body : List Char)
  | symbol (s : Symbol)
  /-- An identifier or keyword. -/
  | word (text : List Char)
  | integer (digits : List Char)
  /-- Digits, a point and digits. -/
  | decimal (whole fraction : List Char)
  | string (items : List StringItem)
  /-- A string that is not closed; `dangling` says whether a single backslash is left over. -/
  | openString (items : List StringItem) (dangling : Bool)
  /-- A character that starts nothing. -/
  | unexpected (c : Char)
deriving DecidableEq, Repr

namespace Segment

/-- The source text of a segment. -/
def text : Segment → List Char
  | blank c => [c]
  | lineComment body => '/' :: '/' :: body
  | blockComment body => '/' :: '*' :: (body ++ ['*', '/'])
  | openComment body => '/' :: '*' :: body
  | symbol s => s.spelling
  | word text => text
  | integer digits => digits
  | decimal whole fraction => whole ++ '.' :: fraction
  | string items => '"' :: (StringItem.textOf items ++ ['"'])
  | openString items dangling =>
    '"' :: (StringItem.textOf items ++ if dangling then ['\\'] else [])
  | unexpected c => [c]

/-- The greatest integer that a literal may have: the greatest signed 64-bit one. -/
def maxInteger : Nat := 0x7fffffffffffffff

/-- The value of an integer literal. -/
def integerValue? (digits : List Char) : Option Nat :=
  let n := Nat.ofDigitChars 10 digits 0
  if n ≤ maxInteger then some n else none

/-- The kind and value of the token that a segment makes. -/
def token? : Segment → Option (TokenKind × Option Literal)
  | symbol s => some (.symbol s, none)
  | word text => some (.ofWord (String.ofList text), none)
  | integer digits => (integerValue? digits).map fun n => (.number, some (.integer n))
  | decimal whole fraction =>
    (Binary64.ofDecimal? whole fraction).map fun x => (.number, some (.decimal x))
  | string items => some (.string, some (.string (String.ofList (StringItem.decode items))))
  | _ => none

/-- What is wrong with a segment as a whole, and how many of its bytes are in question: of what has
    no end, those that open it. -/
def fault? : Segment → Option (LexError.Cause × Nat)
  | openComment _ => some (.unterminatedBlockComment, 2)
  | openString _ _ => some (.unterminatedString, 1)
  | unexpected c => some (.unexpectedCharacter c, c.utf8Size)
  | integer digits =>
    if (integerValue? digits).isNone then
      some (.integerOutOfRange (String.ofList digits), Text.size digits)
    else none
  | decimal whole fraction =>
    if (Binary64.ofDecimal? whole fraction).isNone then
      let lexeme := whole ++ '.' :: fraction
      some (.decimalOutOfRange (String.ofList lexeme), Text.size lexeme)
    else none
  | _ => none

/-- The items inside a string, closed or not. -/
def items : Segment → List StringItem
  | string items => items
  | openString items _ => items
  | _ => []

end Segment

end Lexis

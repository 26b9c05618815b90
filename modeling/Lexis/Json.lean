import Lexis.Text.Hex

set_option autoImplicit false

/-! # JSON texts

A small type of JSON values and its writer. The two styles differ only in the blanks between the
tokens: `compact` has none, `pretty` puts every member on a line of its own, two spaces further in
than what holds it. -/

namespace Lexis

/-- A JSON value; a number is given by its text. -/
inductive Json where
  | number (text : List Char)
  | string (text : List Char)
  | array (items : List Json)
  | object (members : List (List Char × Json))

namespace Json

/-- How the tokens of a JSON text are set apart. -/
inductive Style where
  | compact
  | pretty
deriving DecidableEq, Repr

namespace Style

/-- What stands before a member, and before the bracket that closes members, at a given depth. -/
def lineBreak : Style → Nat → List Char
  | compact, _ => []
  | pretty, depth => '\n' :: List.replicate (2 * depth) ' '

/-- What stands between the name and the value of a member. -/
def colon : Style → List Char
  | compact => [':']
  | pretty => [':', ' ']

end Style

/-- The letter behind the backslash, for the control characters that have one. -/
def controlLetter? : Char → Option Char
  | '\x08' => some 'b'
  | '\x0c' => some 'f'
  | '\n' => some 'n'
  | '\r' => some 'r'
  | '\t' => some 't'
  | _ => none

/-- One character of a string. Only the quote, the backslash and control characters are escaped. -/
def escapeChar (c : Char) : List Char :=
  if c = '"' ∨ c = '\\' then ['\\', c]
  else if c.toNat < 0x20 then
    match controlLetter? c with
    | some letter => ['\\', letter]
    | none =>
      let digits := Text.hexDigits c.toNat
      '\\' :: 'u' :: (List.replicate (4 - digits.length) '0' ++ digits)
  else [c]

/-- A string in quotes. -/
def writeString (text : List Char) : List Char := '"' :: (text.flatMap escapeChar ++ ['"'])

mutual

/-- The text of a value whose members stand at depth `depth + 1`. -/
def write (style : Style) (depth : Nat) : Json → List Char
  | number text => text
  | string text => writeString text
  | array [] => ['[', ']']
  | array (item :: items) =>
    '[' :: (style.lineBreak (depth + 1) ++ write style (depth + 1) item
      ++ writeItems style depth items)
  | object [] => ['\x7b', '\x7d']
  | object ((key, value) :: members) =>
    '\x7b' :: (style.lineBreak (depth + 1) ++ writeString key ++ style.colon
      ++ write style (depth + 1) value ++ writeMembers style depth members)

/-- The items of an array behind the first one, and its closing bracket. -/
def writeItems (style : Style) (depth : Nat) : List Json → List Char
  | [] => style.lineBreak depth ++ [']']
  | item :: items =>
    ',' :: (style.lineBreak (depth + 1) ++ write style (depth + 1) item
      ++ writeItems style depth items)

/-- The members of an object behind the first one, and its closing brace. -/
def writeMembers (style : Style) (depth : Nat) : List (List Char × Json) → List Char
  | [] => style.lineBreak depth ++ ['\x7d']
  | (key, value) :: members =>
    ',' :: (style.lineBreak (depth + 1) ++ writeString key ++ style.colon
      ++ write style (depth + 1) value ++ writeMembers style depth members)

end

/-- A natural number. -/
def ofNat (n : Nat) : Json := number (Nat.toDigits 10 n)

/-- An object with the given members. -/
def record (members : List (String × Json)) : Json :=
  object (members.map fun (key, value) => (key.toList, value))

/-- The text of a value. -/
def render (style : Style) (value : Json) : String := String.ofList (value.write style 0)

end Json

end Lexis

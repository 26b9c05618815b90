import Lexis.Text.Hex

set_option autoImplicit false

/-! # Quoted text

How a text is displayed on one line: between double quotes, with `\0 \t \r \n \" \\` for those six
characters, `\u` and the code point in braces for the characters that would not show, and all
others as they are. Which characters do not show is a parameter: it is a table of a standard and
changes with it, while the quoted form reads back whatever the table says. -/

namespace Lexis.Text

/-- The character that stands after the backslash, for the six characters with a short escape. -/
def shortEscape? : Char → Option Char
  | '\x00' => some '0'
  | '\t' => some 't'
  | '\r' => some 'r'
  | '\n' => some 'n'
  | '"' => some '"'
  | '\\' => some '\\'
  | _ => none

/-- One character of a quoted text. -/
def quoteChar (hidden : Char → Bool) (c : Char) : List Char :=
  match shortEscape? c with
  | some e => ['\\', e]
  | none => if hidden c then '\\' :: 'u' :: '\x7b' :: (hexDigits c.toNat ++ ['\x7d']) else [c]

/-- A text between double quotes, escaped. -/
def quote (hidden : Char → Bool) (cs : List Char) : List Char :=
  '"' :: (cs.flatMap (quoteChar hidden) ++ ['"'])

end Lexis.Text

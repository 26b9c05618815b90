set_option autoImplicit false

/-! # Colours on a terminal

Text is coloured by control sequences: an escape character, an opening bracket, a number and an `m`.
Painting sets the colour before a text and takes it back behind it, and marks nothing else. -/

namespace Lexis

/-- A colour of text. -/
inductive Color where
  | red | green | yellow | blue | magenta | cyan | white
  | brightBlack | brightGreen | brightBlue | brightCyan | brightWhite
deriving DecidableEq, Repr

namespace Color

/-- The number that selects a colour. -/
def code : Color → Nat
  | red => 31
  | green => 32
  | yellow => 33
  | blue => 34
  | magenta => 35
  | cyan => 36
  | white => 37
  | brightBlack => 90
  | brightGreen => 92
  | brightBlue => 94
  | brightCyan => 96
  | brightWhite => 97

end Color

namespace Ansi

/-- The control sequence with a number. -/
def control (n : Nat) : List Char := '\x1b' :: '[' :: (Nat.toDigits 10 n ++ ['m'])

/-- How a piece of text is marked. -/
structure Style where
  color : Color
  isBold : Bool := false
deriving DecidableEq, Repr

namespace Style

/-- What stands before a piece of text. -/
def opening (s : Style) : List Char := (if s.isBold then control 1 else []) ++ control s.color.code

/-- What stands behind a piece of text: the colour goes back to the default, and with it, if need
    be, the weight. -/
def closing (s : Style) : List Char := control 39 ++ (if s.isBold then control 0 else [])

/-- Mark a piece of text. -/
def paint (s : Style) (text : List Char) : List Char := s.opening ++ text ++ s.closing

/-- Mark a piece of text. -/
def mark (s : Style) (text : String) : String := String.ofList (s.paint text.toList)

end Style

end Ansi

end Lexis

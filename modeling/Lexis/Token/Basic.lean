import Lexis.Number.Layout
import Lexis.Position
import Lexis.Text.Hidden
import Lexis.Text.Quoted
import Lexis.Token.Kind

set_option autoImplicit false

/-! # Tokens -/

namespace Lexis

/-- The value that a literal token stands for. -/
inductive Literal where
  | integer (n : Nat)
  | decimal (x : Binary64)
  | string (text : String)
deriving DecidableEq, Repr

namespace Literal

/-- A literal as it is listed: numbers in digits, strings quoted, where `hidden` says which
    characters are written by their code point. -/
def displayWith (hidden : Char → Bool) : Literal → String
  | integer n => String.ofList (Nat.toDigits 10 n)
  | decimal x => String.ofList (Layout.display.write x)
  | string text => String.ofList (Text.quote hidden text.toList)

/-- A literal as it is listed, with the characters that do not show written by their code point. -/
def display : Literal → String := displayWith Text.isHidden

end Literal

/-- A piece of source text with a meaning. -/
structure Token where
  kind : TokenKind
  /-- The source text of the token. -/
  lexeme : String
  /-- The value, for strings and numbers. -/
  literal? : Option Literal
  /-- Where the token starts. -/
  start : Position
  /-- The offset behind the token. -/
  stop : Nat
deriving DecidableEq, Repr

/-- The bytes that a token covers. -/
def Token.span (t : Token) : Span := ⟨t.start.offset, t.stop⟩

/-- A token of a text that itself starts at `p`. -/
def Token.shift (p : Position) (t : Token) : Token :=
  { t with start := p.shift t.start, stop := p.offset + t.stop }

end Lexis

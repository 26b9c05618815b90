import Lexis.Token.Keyword
import Lexis.Token.Symbol

set_option autoImplicit false

/-! # Kinds of tokens -/

namespace Lexis

/-- What a token is. -/
inductive TokenKind where
  | symbol (s : Symbol)
  | string
  | number
  | identifier
  | keyword (k : Keyword)
  /-- A terminator for those who want one; no text reads as it. -/
  | endOfInput
deriving DecidableEq, Repr

namespace TokenKind

/-- The name under which a kind is listed. -/
def name : TokenKind → String
  | symbol s => s.name
  | string => "String"
  | number => "Number"
  | identifier => "Identifier"
  | keyword k => k.name
  | endOfInput => "Eof"

/-- Whether a kind is a reserved word. -/
def isKeyword : TokenKind → Bool
  | keyword _ => true
  | _ => false

/-- Whether a kind is an operator. -/
def isOperator : TokenKind → Bool
  | symbol s => s.isOperator
  | _ => false

/-- The kind of a word: reserved, or an identifier. -/
def ofWord (text : String) : TokenKind :=
  match Keyword.ofText? text with
  | some k => keyword k
  | none => identifier

end TokenKind

end Lexis

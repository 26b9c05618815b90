import Lexis.Position

set_option autoImplicit false

/-! # Lexical errors

What can be wrong with a source text. None of these stops a scan: the text in question is skipped,
and the error says where it is. -/

namespace Lexis

/-- The kind of a problem in a source text, with the text in question where it matters. -/
inductive LexError.Cause where
  | unexpectedCharacter (c : Char)
  | unterminatedString
  | invalidEscape (sequence : String)
  | integerOutOfRange (lexeme : String)
  | decimalOutOfRange (lexeme : String)
  | unterminatedBlockComment
deriving DecidableEq, Repr

/-- A problem found in a source text. -/
structure LexError where
  cause : LexError.Cause
  /-- Where the text in question starts. -/
  start : Position
  /-- The offset behind it. -/
  stop : Nat
deriving DecidableEq, Repr

namespace LexError

/-- The name of a kind of problem. -/
def Cause.name : Cause → String
  | unexpectedCharacter _ => "UnexpectedCharacter"
  | unterminatedString => "UnterminatedString"
  | invalidEscape _ => "InvalidEscape"
  | integerOutOfRange _ => "IntegerOutOfRange"
  | decimalOutOfRange _ => "DecimalOutOfRange"
  | unterminatedBlockComment => "UnterminatedBlockComment"

/-- The text in question; what has no end has none. -/
def Cause.text? : Cause → Option String
  | unexpectedCharacter c => some (String.singleton c)
  | unterminatedString => none
  | invalidEscape sequence => some sequence
  | integerOutOfRange lexeme => some lexeme
  | decimalOutOfRange lexeme => some lexeme
  | unterminatedBlockComment => none

/-- Whether more input could mend the problem. -/
def Cause.isUnterminated : Cause → Bool
  | unterminatedString | unterminatedBlockComment => true
  | _ => false

/-- The bytes of the text in question. -/
def span (e : LexError) : Span := ⟨e.start.offset, e.stop⟩

/-- An error of a text that itself starts at `p`. -/
def shift (p : Position) (e : LexError) : LexError :=
  { e with start := p.shift e.start, stop := p.offset + e.stop }

/-- Whether more input could mend the problem. -/
def isUnterminated (e : LexError) : Bool := e.cause.isUnterminated

/-- The message of an error. -/
def message (e : LexError) : String :=
  let place := s!"line {e.start.line}, column {e.start.column}"
  match e.cause with
  | .unexpectedCharacter c => s!"unexpected character '{c}' at {place}"
  | .unterminatedString => s!"unterminated string starting at {place}"
  | .invalidEscape sequence => s!"invalid escape sequence '{sequence}' at {place}"
  | .integerOutOfRange lexeme => s!"integer literal '{lexeme}' at {place} does not fit in 64 bits"
  | .decimalOutOfRange lexeme =>
    s!"decimal literal '{lexeme}' at {place} is too large to represent"
  | .unterminatedBlockComment => s!"unterminated block comment starting at {place}"

end LexError

end Lexis

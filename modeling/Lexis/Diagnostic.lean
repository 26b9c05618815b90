import Lexis.Scanner.Basic

set_option autoImplicit false

/-! # Failures and diagnostics

Lexing a whole text either gives its tokens or fails with all of its errors. A diagnostic is what a
report shows of a failure: a message, a code to look it up by, help, labelled places in the source
text, and the diagnostics that it bundles. -/

namespace Lexis

/-- A place in a source text with a remark. -/
structure Label where
  text : String
  span : Span
deriving DecidableEq, Repr

/-- What a report shows of a single problem. -/
structure Diagnostic where
  message : String
  /-- The name under which the problem is documented. -/
  code : String
  help? : Option String
  labels : List Label
deriving DecidableEq, Repr

namespace LexError

/-- The documented name of a kind of problem. -/
def Cause.code : Cause → String
  | unexpectedCharacter _ => "aurora::lex::unexpected_character"
  | unterminatedString => "aurora::lex::unterminated_string"
  | invalidEscape _ => "aurora::lex::invalid_escape"
  | integerOutOfRange _ => "aurora::lex::integer_out_of_range"
  | decimalOutOfRange _ => "aurora::lex::decimal_out_of_range"
  | unterminatedBlockComment => "aurora::lex::unterminated_block_comment"

/-- How to mend a problem, where that can be said in general. -/
def Cause.help? : Cause → Option String
  | unterminatedString => some "add a closing '\"' before the end of the input"
  | invalidEscape _ =>
    some "valid escapes are \\n \\t \\r \\0 \\\\ \\\" \\' and \\u\x7b...\x7d"
  | unterminatedBlockComment => some "close the comment with '*/'"
  | _ => none

/-- The remark at the text in question. -/
def Cause.label : Cause → String
  | unexpectedCharacter _ => "not a valid token"
  | unterminatedString => "string opened here"
  | invalidEscape _ => "unknown escape"
  | integerOutOfRange _ => "too large"
  | decimalOutOfRange _ => "too large"
  | unterminatedBlockComment => "comment opened here"

/-- What a report shows of an error. -/
def diagnostic (e : LexError) : Diagnostic :=
  { message := e.message
    code := e.cause.code
    help? := e.cause.help?
    labels := [⟨e.cause.label, e.span⟩] }

end LexError

/-- All errors of a text that could not be lexed, with the text and its name. -/
structure LexFailure where
  name : String
  source : String
  errors : List LexError
deriving DecidableEq, Repr

namespace LexFailure

/-- The message of a failure as a whole. -/
def message (f : LexFailure) : String := s!"lexing failed with {f.errors.length} error(s)"

/-- The documented name of a failure as a whole. -/
def code : String := "aurora::lex"

/-- The messages of the errors. -/
def messages (f : LexFailure) : List String := f.errors.map LexError.message

/-- What a report shows of the errors, one by one. -/
def related (f : LexFailure) : List Diagnostic := f.errors.map LexError.diagnostic

/-- A report of a failure in plain text: its message, and a line for each error. -/
def plainText (f : LexFailure) : String :=
  let line (e : LexError) : String :=
    let help := (e.cause.help?.map fun h => s!" ({h})").getD ""
    s!"\n  {f.name}:{e.start.line}:{e.start.column}: {e.message}{help}"
  s!"{code}: {f.message}" ++ String.join (f.errors.map line)

end LexFailure

/-- The tokens of a text named `name`, or all of its errors. -/
def lexNamed (name source : String) : Except LexFailure (List Token) :=
  let (scanner, result) := ({} : Scanner).scan source
  if scanner.hadError then .error ⟨name, source, scanner.errors⟩ else .ok result.tokens

/-- The tokens of a text without a name, or all of its errors. -/
def lex (source : String) : Except LexFailure (List Token) := lexNamed "<input>" source

end Lexis

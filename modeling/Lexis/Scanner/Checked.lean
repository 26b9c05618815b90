import Lexis.Cursor.Within
import Lexis.Scanner.Basic

set_option autoImplicit false

/-! # Checked scans

A scan that trusts nothing. It drives a cursor over the source text, a character or a run of
characters at a time, with counters that hold no number above `limit`; it takes each lexeme and each
text in question from the source by its offsets; and it checks its invariants at every step. A fault
means that the library is wrong, never the source text. -/

namespace Lexis.Scanner

/-- What is found up to a cursor: a value, and the errors on the way to it. -/
structure Found (α : Type) where
  value : α
  errors : List LexError
  stop : Cursor

/-- What one step of a scan finds: the kind and value of a token, unless the text is none. -/
abbrev Step := Found (Option (TokenKind × Option Literal))

/-- An error about the bytes from a position to an offset; these have to be in order. -/
def checkedError (cause : LexError.Cause) (start : Position) (stop : Nat) :
    Except Fault LexError := do
  let e : LexError := ⟨cause, start, stop⟩
  let _ ← e.span.length
  return e

/-- The error about something that `size` bytes open and nothing closes. -/
def unclosed (limit : Nat) (cause : LexError.Cause) (start : Position) (size : Nat) :
    Except Fault LexError := do
  let stop ← Fault.count limit (start.offset + size)
  checkedError cause start stop

/-! ## Strings -/

/-- The error about an escape between two cursors. -/
def invalidEscape (start stop : Cursor) : Except Fault LexError := do
  let sequence ← stop.sliceFrom start.position.offset
  checkedError (.invalidEscape (String.ofList sequence)) start.position stop.position.offset

/-- The escape between two cursors that stands for a character, or for nothing and is an error. -/
def escaped (start stop : Cursor) : Option Char → Except Fault (Found (Option Char))
  | some c => .ok ⟨some c, [], stop⟩
  | none => do return ⟨none, [← invalidEscape start stop], stop⟩

/-- Read an escape by code point from behind its `u` on; it starts at `start`. -/
def scanUnicodeEscape (limit : Nat) (start k : Cursor) : Except Fault (Found (Option Char)) := do
  let (isOpened, k) ← k.matchWithin limit '\x7b'
  if isOpened then
    let stop ← k.eatWithin limit Char.isHexDigit
    let digits ← stop.sliceFrom k.position.offset
    let (isClosed, stop) ← stop.matchWithin limit '\x7d'
    escaped start stop (StringItem.unicode digits isClosed).value?
  else escaped start k none

/-- Read an escape from behind its backslash on; it starts at `start`. A backslash at the end of the
    text is left to the string, which is not closed then. -/
def scanEscape (limit : Nat) (start k : Cursor) : Except Fault (Found (Option Char)) :=
  match k.peek with
  | none => .ok ⟨none, [], k⟩
  | some c => do
    let k ← k.advanceWithin limit
    if c = 'u' then scanUnicodeEscape limit start k
    else escaped start k (StringItem.escape c).value?

/-- Read a character of a string, or an escape; `c` is the next character. -/
def scanItem (limit : Nat) (k : Cursor) (c : Char) : Except Fault (Found (Option Char)) := do
  let next ← k.advanceWithin limit
  if c = '\\' then scanEscape limit k next else return ⟨some c, [], next⟩

/-- Read the inside of a string and the quote that closes it; without that it has no value. -/
def scanInside (limit : Nat) (k : Cursor) : Except Fault (Found (Option (List Char))) :=
  match k.peek with
  | none => .ok ⟨none, [], k⟩
  | some c =>
    if c = '"' then do return ⟨some [], [], ← k.advanceWithin limit⟩
    else do
      let item ← scanItem limit k c
      if k.position.offset < item.stop.position.offset ∧ item.stop.position.offset ≤ limit then
        let rest ← scanInside limit item.stop
        return {
          value := rest.value.map (item.value.toList ++ ·)
          errors := item.errors ++ rest.errors
          stop := rest.stop }
      else .error .endless
termination_by limit - k.position.offset

/-- Read a string from behind its quote on. -/
def scanString (limit : Nat) (start k : Cursor) : Except Fault Step := do
  let inside ← scanInside limit k
  match inside.value with
  | some text =>
    return { inside with value := some (.string, some (.string (String.ofList text))) }
  | none => do
    let e ← unclosed limit .unterminatedString start.position 1
    return ⟨none, inside.errors ++ [e], inside.stop⟩

/-! ## Numbers and words -/

/-- The number that a text stands for, which has to be digits, a point and digits. -/
def decimalValue? (text : List Char) : Except Fault (Option Binary64) :=
  let whole := text.takeWhile (· ≠ '.')
  let fraction := (text.dropWhile (· ≠ '.')).tail
  if whole ≠ [] ∧ fraction ≠ [] ∧ whole.all Char.isDigit ∧ fraction.all Char.isDigit then
    .ok (Binary64.ofDecimal? whole fraction)
  else .error .impossible

/-- The number between two cursors; one that has no value is an error. -/
def number (start stop : Cursor) (cause : String → LexError.Cause) (lexeme : List Char)
    (value? : Option Literal) : Except Fault Step :=
  match value? with
  | some value => .ok ⟨some (.number, some value), [], stop⟩
  | none => do
    let e ← checkedError (cause (String.ofList lexeme)) start.position stop.position.offset
    return ⟨none, [e], stop⟩

/-- Read a number from behind its first digit on. -/
def scanNumber (limit : Nat) (start k : Cursor) : Except Fault Step := do
  let stop ← k.eatWithin limit Char.isDigit
  if stop.peek = some '.' ∧ (stop.peekNext.any Char.isDigit) = true then
    let stop ← (← stop.advanceWithin limit).eatWithin limit Char.isDigit
    let lexeme ← stop.sliceFrom start.position.offset
    let value? ← decimalValue? lexeme
    number start stop .decimalOutOfRange lexeme (value?.map .decimal)
  else
    let lexeme ← stop.sliceFrom start.position.offset
    number start stop .integerOutOfRange lexeme ((Segment.integerValue? lexeme).map .integer)

/-- Read a word from behind its first character on. -/
def scanWord (limit : Nat) (start k : Cursor) : Except Fault Step := do
  let stop ← k.eatWithin limit Text.isWordPart
  let lexeme ← stop.sliceFrom start.position.offset
  return ⟨some (.ofWord (String.ofList lexeme), none), [], stop⟩

/-! ## Symbols and comments -/

/-- Read the longest symbol from behind its first character `c` on; a character that starts none is
    an error. -/
def scanSymbol (limit : Nat) (start k : Cursor) (c : Char) : Except Fault Step :=
  match Symbol.read? (c :: k.ahead) with
  | some s => do
    return ⟨some (.symbol s, none), [], ← k.skipWithin limit (s.spelling.length - 1)⟩
  | none => do
    let e ← checkedError (.unexpectedCharacter c) start.position k.position.offset
    return ⟨none, [e], k⟩

/-- Read up to and with the first star-slash of the text ahead, and tell whether there is one. -/
def skipComment (limit : Nat) : List Char → Cursor → Except Fault (Bool × Cursor)
  | [], k => .ok (false, k)
  | c :: cs, k => do
    let next ← k.advanceWithin limit
    if c = '*' ∧ next.peek = some '/' then return (true, ← next.advanceWithin limit)
    else skipComment limit cs next

/-- Read a block comment from behind the star that opens it on. -/
def scanBlockComment (limit : Nat) (start k : Cursor) : Except Fault Step := do
  let (isClosed, stop) ← skipComment limit k.ahead k
  if isClosed then return ⟨none, [], stop⟩
  else do
    let e ← unclosed limit .unterminatedBlockComment start.position 2
    return ⟨none, [e], stop⟩

/-- Read what starts with a slash: a comment or a symbol. -/
def scanSlash (limit : Nat) (start k : Cursor) : Except Fault Step := do
  let (isLine, next) ← k.matchWithin limit '/'
  if isLine then return ⟨none, [], ← next.eatWithin limit (· ≠ '\n')⟩
  else do
    let (isBlock, next) ← k.matchWithin limit '*'
    if isBlock then scanBlockComment limit start next else scanSymbol limit start k '/'

/-! ## Steps and runs -/

/-- Read the next piece of the text; `c` is its first character. -/
def scanPiece (limit : Nat) (start : Cursor) (c : Char) : Except Fault Step := do
  let k ← start.advanceWithin limit
  if Text.isBlank c then return ⟨none, [], k⟩
  else if c = '"' then scanString limit start k
  else if c.isDigit then scanNumber limit start k
  else if Text.isWordStart c then scanWord limit start k
  else if c = '/' then scanSlash limit start k
  else scanSymbol limit start k c

/-- The token between two cursors, its lexeme cut from the source. -/
def checkedToken (start stop : Cursor) (kind : TokenKind) (literal? : Option Literal) :
    Except Fault Token := do
  let span : Span := ⟨start.position.offset, stop.position.offset⟩
  Fault.check (!span.isEmpty) "tokens are never zero-width"
  Fault.check (stop.isBoundary span.start && stop.isBoundary span.stop)
    "lexemes start and end on character boundaries"
  let lexeme ← stop.sliceFrom span.start
  return {
    kind := kind
    lexeme := String.ofList lexeme
    literal? := literal?
    start := start.position
    stop := span.stop }

/-- What a step from a cursor adds to a scan, and where it leads. -/
def checkedStep (limit : Nat) (log : Bool) (start : Cursor) : Except Fault (Scan × Cursor) :=
  match start.peek with
  | none => .ok ({}, start)
  | some c => do
    let step ← scanPiece limit start c
    let token? ←
      match step.value with
      | none => pure none
      | some (kind, literal?) => some <$> checkedToken start step.stop kind literal?
    let events := if log then step.errors.map .error ++ (token?.map .token).toList else []
    return ({ tokens := token?.toList, errors := step.errors, events := events }, step.stop)

/-- Scan from a cursor to the end of a source text of `size` bytes. The last two checks are also the
    reason why a scan ends: the cursor moves at every step, and not past the end. -/
def checkedRun (limit : Nat) (log : Bool) (size : Nat) (start : Cursor) : Except Fault Scan :=
  if size ≤ start.position.offset then .ok {}
  else do
    let (here, stop) ← checkedStep limit log start
    if start.position.offset < stop.position.offset then
      if stop.position.offset ≤ size then
        let rest ← checkedRun limit log size stop
        return {
          tokens := here.tokens ++ rest.tokens
          errors := here.errors ++ rest.errors
          events := here.events ++ rest.events }
      else .error (.invariant "cursor never moves past the end of the source")
    else .error (.invariant "every scan step must consume input")
termination_by size - start.position.offset

/-- Scan a source text with all checks, where counters hold no number above `limit`. -/
def scanWithin (limit : Nat) (s : Scanner) (source : String) : Except Fault (Scanner × Scan) := do
  let log := s.config.logLexingPass.isEnabled
  let cs := source.toList
  let result ← checkedRun limit log (Text.size cs) (.ofText cs)
  let result :=
    if log then
      { result with
        events := result.events ++ [.complete result.tokens.length result.errors.length] }
    else result
  return ({ s with errors := result.errors }, result)

/-- Scan a source text with all checks, where counters have 64 bits. -/
def scanChecked (s : Scanner) (source : String) : Except Fault (Scanner × Scan) :=
  s.scanWithin maxCount source

end Lexis.Scanner

import Lexis.Config.Reader
import Lexis.SourceMap

set_option autoImplicit false

/-! # Configuration documents

A configuration document is a JSON text: an object with at most the one field, or an array with at
most the one value. What is wrong with the value or the field, as opposed to the text, is found
without a place. Such a finding waits until the closing bracket has been looked for, and its place
is where that left the reader, whether the bracket was there or not. -/

namespace Lexis.Config

/-- A value, or what is wrong with it, to be reported where reading of the enclosing brackets
    ends. -/
abbrev Pending (α : Type) := Except ConfigError.Cause α

namespace Reader

/-! ## Values of the wrong type -/

/-- Read a word whose first letter is known; stop behind the first character that differs. -/
def expectWord (r : Reader) : List Char → Except Refusal Reader
  | [] => .ok r
  | c :: cs =>
    match r.ahead.head? with
    | none => .error (r.here .endOfValue)
    | some d => if d = c then expectWord (r.skip 1) cs else .error (r.atNext .expectedIdent)

/-- Read a value that is not of the type expected, and refuse it. Brackets are not read. -/
def refuseValue (r : Reader) (expected : String) : Refusal :=
  let refuse (stop : Reader) (found : ConfigValue) : Refusal :=
    stop.here (.invalidType found expected)
  let word (letters : List Char) (found : ConfigValue) : Refusal :=
    match (r.skip 1).expectWord letters with
    | .ok stop => refuse stop found
    | .error e => e
  match r.ahead.head? with
  | some 'n' => word ['u', 'l', 'l'] .null
  | some 't' => word ['r', 'u', 'e'] (.boolean true)
  | some 'f' => word ['a', 'l', 's', 'e'] (.boolean false)
  | some '"' =>
    match (r.skip 1).readString with
    | .ok (text, stop) => refuse stop (.string text)
    | .error e => e
  | some '[' => refuse r .sequence
  | some '\x7b' => refuse r .map
  | some c =>
    if c = '-' ∨ c.isDigit then
      match r.readNumber with
      | .ok (n, stop) => refuse stop (.number n)
      | .error e => e
    else r.atNext .expectedValue
  | none => r.atNext .expectedValue

/-! ## The flag -/

/-- The flag that an integer stands for. -/
def flagOf (n : Nat) : Pending Flag := (Flag.ofBit (UInt32.ofNat n)).mapError .badFlag

/-- Read the value of the field. -/
def readFlag (start : Reader) : Except Refusal (Pending Flag × Reader) :=
  let r := start.skipBlanks
  match r.ahead with
  | [] => .error (r.atNext .endOfValue)
  | c :: _ =>
    if c = '-' ∨ c.isDigit then do
      let (n, stop) ← r.readNumber
      match n with
      | .unsigned n =>
        if n < UInt32.size then return (flagOf n, stop)
        else .error (stop.here (.invalidInteger (.unsigned n)))
      | .negative n => .error (stop.here (.invalidInteger (.negative n)))
      | .float isNegative x =>
        .error (stop.here (.invalidType (.number (.float isNegative x)) "u32"))
    else .error (r.refuseValue "u32")

/-! ## Arrays -/

/-- Look for the end of an array behind its value. The reader is given in either case. -/
def endSequence (start : Reader) : Except Refusal Unit × Reader :=
  let r := start.skipBlanks
  match r.ahead with
  | [] => (.error (r.atNext .endOfList), r)
  | ']' :: _ => (.ok (), r.skip 1)
  | ',' :: _ =>
    let next := (r.skip 1).skipBlanks
    match next.ahead with
    | ']' :: _ => (.error (next.atNext .trailingComma), next)
    | _ => (.error (next.atNext .trailingCharacters), next)
  | _ => (.error (r.atNext .trailingCharacters), r)

/-- Read an array, for a reader behind the opening bracket. -/
def readSequence (start : Reader) : Except Refusal (ScanConfig × Reader) :=
  let r := start.skipBlanks
  match r.ahead with
  | [] => .error (r.atNext .endOfList)
  | ']' :: _ => .ok ({}, r.skip 1)
  | _ => do
    let (flag, behind) ← r.readFlag
    let (ending, stop) := behind.endSequence
    match flag with
    | .error cause => .error (stop.here cause)
    | .ok flag =>
      ending
      return ({ logLexingPass := flag }, stop)

/-! ## Objects -/

/-- Look for the end of an object. -/
def endMap (start : Reader) : Reader :=
  let r := start.skipBlanks
  if r.ahead.head? = some '\x7d' then r.skip 1 else r

/-- Refuse an object for what one of its members says. -/
def refuseMap (r : Reader) (cause : ConfigError.Cause) : Refusal := r.endMap.here cause

/-- Read a key, for a reader in front of its quote. Only the one field is known. -/
def readKey (r : Reader) : Except Refusal Reader := do
  let (key, behind) ← (r.skip 1).readString
  if key = ScanConfig.fieldName.toList then return behind
  else .error (behind.refuseMap (.unknownField key))

/-- Read a colon and the value behind it. -/
def readValue (start : Reader) : Except Refusal (Flag × Reader) :=
  let r := start.skipBlanks
  match r.ahead with
  | [] => .error (r.atNext .endOfObject)
  | ':' :: _ => do
    let (flag, behind) ← (r.skip 1).readFlag
    match flag with
    | .error cause => .error (behind.refuseMap cause)
    | .ok flag => return (flag, behind)
  | _ => .error (r.atNext .expectedColon)

/-- Read what follows the first member of an object. A second member is an error, since its key is
    either unknown or the same. -/
def readMapEnd (start : Reader) : Except Refusal Reader :=
  let r := start.skipBlanks
  match r.ahead with
  | [] => .error (r.atNext .endOfObject)
  | '\x7d' :: _ => .ok (r.skip 1)
  | ',' :: _ =>
    let next := (r.skip 1).skipBlanks
    match next.ahead with
    | [] => .error (next.atNext .endOfValue)
    | '"' :: _ => do
      let behind ← next.readKey
      .error (behind.refuseMap .duplicateField)
    | '\x7d' :: _ => .error (next.atNext .trailingComma)
    | _ => .error (next.atNext .keyMustBeString)
  | _ => .error (r.atNext .expectedCommaOrBrace)

/-- Read an object, for a reader behind the opening brace. -/
def readMap (start : Reader) : Except Refusal (ScanConfig × Reader) :=
  let r := start.skipBlanks
  match r.ahead with
  | [] => .error (r.atNext .endOfObject)
  | '\x7d' :: _ => .ok ({}, r.skip 1)
  | '"' :: _ => do
    let behind ← r.readKey
    let (flag, behind) ← behind.readValue
    let stop ← behind.readMapEnd
    return ({ logLexingPass := flag }, stop)
  | _ => .error (r.atNext .keyMustBeString)

/-! ## Documents -/

/-- Read a whole document. -/
def readDocument (start : Reader) : Except Refusal ScanConfig := do
  let r := start.skipBlanks
  let (config, behind) ←
    match r.ahead with
    | [] => .error (r.atNext .endOfValue)
    | '[' :: _ => (r.skip 1).readSequence
    | '\x7b' :: _ => (r.skip 1).readMap
    | _ => .error (r.refuseValue "struct ScanConfig")
  let stop := behind.skipBlanks
  if stop.ahead = [] then return config else .error (stop.atNext .trailingCharacters)

end Reader

/-- The place of a refusal in a text: the line, and the bytes of it that were read. -/
def Refusal.locate (text : List Char) (r : Refusal) : ConfigError :=
  let map := SourceMap.ofText text
  { cause := r.cause
    line := map.lineOf r.offset
    column := r.offset - map.lineStart r.offset }

end Lexis.Config

/-- The configuration that a document describes. -/
def Lexis.ScanConfig.ofDocument (text : String) : Except Lexis.ConfigError Lexis.ScanConfig :=
  (Lexis.Config.Reader.readDocument ⟨text.toList, 0⟩).mapError
    (Lexis.Config.Refusal.locate text.toList)

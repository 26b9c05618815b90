import Lexis.Config.Basic
import Lexis.Number.Layout
import Lexis.Text.Hidden
import Lexis.Text.Quoted

set_option autoImplicit false

/-! # Errors in configuration documents

Why a text is no configuration. An error has a cause and a place; the causes fall in three
categories: the text breaks off, it is not JSON, or it is JSON that does not describe a
configuration. -/

namespace Lexis

/-- A number in a configuration document. -/
inductive ConfigNumber where
  /-- An integer that is not negative. -/
  | unsigned (n : Nat)
  /-- The integer `-n`, for a positive `n`. -/
  | negative (n : Nat)
  | float (isNegative : Bool) (magnitude : Binary64)
deriving DecidableEq, Repr

/-- A value found in a configuration document where it does not belong. -/
inductive ConfigValue where
  | null
  | boolean (b : Bool)
  | number (n : ConfigNumber)
  | string (text : List Char)
  | sequence
  | map
deriving DecidableEq, Repr

namespace ConfigError

/-- Why a text is no configuration. -/
inductive Cause where
  | endOfValue
  | endOfList
  | endOfObject
  | endOfString
  | expectedColon
  | expectedCommaOrBrace
  | keyMustBeString
  | trailingComma
  | trailingCharacters
  | expectedValue
  | expectedIdent
  | invalidNumber
  | numberOutOfRange
  | invalidEscape
  /-- The second half of a surrogate pair without the first, or the first without the second. -/
  | loneSurrogate
  /-- The first half of a surrogate pair that no escape follows. -/
  | endOfHexEscape
  | controlCharacter
  | unknownField (key : List Char)
  | duplicateField
  | badFlag (e : FlagError)
  /-- An integer that is no 32-bit number. -/
  | invalidInteger (n : ConfigNumber)
  /-- A value of the wrong type. -/
  | invalidType (found : ConfigValue) (expected : String)
deriving DecidableEq, Repr

/-- The three ways in which a text can fail to be a configuration. -/
inductive Category where
  | syntactic
  | endOfText
  | data
deriving DecidableEq, Repr

/-- The category of a cause. -/
def Cause.category : Cause → Category
  | endOfValue | endOfList | endOfObject | endOfString => .endOfText
  | unknownField _ | duplicateField | badFlag _ | invalidInteger _ | invalidType _ _ => .data
  | _ => .syntactic

end ConfigError

/-- The text of a number. -/
def ConfigNumber.text : ConfigNumber → List Char
  | unsigned n => Nat.toDigits 10 n
  | negative n => '-' :: Nat.toDigits 10 n
  | float isNegative x => (if isNegative then ['-'] else []) ++ Layout.dump.write x

/-- What a number is called in a message. -/
def ConfigNumber.describe (n : ConfigNumber) : String :=
  let text := String.ofList n.text
  match n with
  | float _ _ => s!"floating point `{text}`"
  | _ => s!"integer `{text}`"

/-- What a value is called in a message. -/
def ConfigValue.describe : ConfigValue → String
  | null => "null"
  | boolean b => s!"boolean `{b}`"
  | number n => n.describe
  | string text => s!"string {String.ofList (Text.quote Text.isHidden text)}"
  | sequence => "sequence"
  | map => "map"

/-- The message of a cause. -/
def ConfigError.Cause.message : ConfigError.Cause → String
  | endOfValue => "EOF while parsing a value"
  | endOfList => "EOF while parsing a list"
  | endOfObject => "EOF while parsing an object"
  | endOfString => "EOF while parsing a string"
  | expectedColon => "expected `:`"
  | expectedCommaOrBrace => "expected `,` or `\x7d`"
  | keyMustBeString => "key must be a string"
  | trailingComma => "trailing comma"
  | trailingCharacters => "trailing characters"
  | expectedValue => "expected value"
  | expectedIdent => "expected ident"
  | invalidNumber => "invalid number"
  | numberOutOfRange => "number out of range"
  | invalidEscape => "invalid escape"
  | loneSurrogate => "lone leading surrogate in hex escape"
  | endOfHexEscape => "unexpected end of hex escape"
  | controlCharacter => "control character (\\u0000-\\u001F) found while parsing a string"
  | unknownField key =>
    s!"unknown field `{String.ofList key}`, expected `{ScanConfig.fieldName}`"
  | duplicateField => s!"duplicate field `{ScanConfig.fieldName}`"
  | badFlag e => e.message
  | invalidInteger n => s!"invalid value: {n.describe}, expected u32"
  | invalidType found expected => s!"invalid type: {found.describe}, expected {expected}"

/-- An error in a configuration document, and where reading stopped. -/
structure ConfigError where
  cause : ConfigError.Cause
  /-- The line, counted from one. -/
  line : Nat
  /-- The number of bytes of the line before the place. -/
  column : Nat
deriving DecidableEq, Repr

/-- The message of an error. -/
def ConfigError.message (e : ConfigError) : String :=
  s!"invalid scanner configuration: {e.cause.message} at line {e.line} column {e.column}"

end Lexis

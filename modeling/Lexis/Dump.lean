import Lexis.Json
import Lexis.Trace

set_option autoImplicit false

/-! # Dumps

The tokens of a scan as a JSON text, for other programs to read. -/

namespace Lexis

namespace Literal

/-- A literal in a dump: its kind names its value. A token without a value has `"Null"`. -/
def dump : Option Literal → Json
  | none => .string "Null".toList
  | some (integer n) => .record [("Integer", .ofNat n)]
  | some (decimal x) => .record [("Decimal", .number (Layout.dump.write x))]
  | some (string text) => .record [("Str", .string text.toList)]

end Literal

/-- A token in a dump. -/
def Token.dump (t : Token) : Json :=
  .record
    [("line", .ofNat t.start.line),
     ("column", .ofNat t.start.column),
     ("kind", .string t.kind.name.toList),
     ("lexeme", .string t.lexeme.toList),
     ("literal", Literal.dump t.literal?),
     ("span", .record [("start", .ofNat t.start.offset), ("end", .ofNat t.stop)])]

/-- The dump of a row of tokens. -/
def dump (style : Json.Style) (tokens : List Token) : String :=
  (Json.array (tokens.map Token.dump)).render style

end Lexis

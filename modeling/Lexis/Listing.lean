import Lexis.Ansi
import Lexis.Token.Basic

set_option autoImplicit false

/-! # Listings

The tokens of a scan for a person to read: one line per token, with its place, kind, lexeme and
value, in colours. -/

namespace Lexis

/-- The style in which the name of a kind is listed. -/
def TokenKind.nameStyle (k : TokenKind) : Ansi.Style :=
  match k with
  | .keyword _ => ⟨.blue, true⟩
  | .symbol s => ⟨if s.isOperator then .cyan else .brightBlack, false⟩
  | .string => ⟨.green, false⟩
  | .number => ⟨.magenta, false⟩
  | .identifier => ⟨.white, false⟩
  | .endOfInput => ⟨.brightBlack, false⟩

/-- The least width of a place in a listing. -/
def placeWidth : Nat := 7

/-- The place of a token, moved to the right so that places of usual length end in one column. -/
def Position.listed (p : Position) : List Char :=
  let text := Nat.toDigits 10 p.line ++ ':' :: Nat.toDigits 10 p.column
  List.replicate (placeWidth - text.length) ' ' ++ text

/-- The line of a token. -/
def Token.listed (t : Token) : String :=
  let place := Ansi.Style.paint ⟨.brightBlack, false⟩ t.start.listed
  let kind := t.kind.nameStyle.paint t.kind.name.toList
  let lexeme := Ansi.Style.paint ⟨.yellow, false⟩ ('\'' :: (t.lexeme.toList ++ ['\'']))
  let value :=
    match t.literal? with
    | none => []
    | some l => ' ' :: Ansi.Style.paint ⟨.brightWhite, false⟩ l.display.toList
  String.ofList (place ++ ' ' :: kind ++ ' ' :: lexeme ++ value)

end Lexis

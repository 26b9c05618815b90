import Lexis.LexError
import Lexis.Token.Basic

set_option autoImplicit false

/-! # Events

What a logged scan tells about its progress: each token, each error, and the totals at the end. -/

namespace Lexis

/-- A line of the log of a scan. -/
inductive Event where
  | token (t : Token)
  | error (e : LexError)
  | complete (tokens errors : Nat)
deriving DecidableEq, Repr

namespace Event

/-- The subject under which all events are logged. -/
def target : String := "aurora::lexer"

/-- How serious an event is. -/
def level : Event → String
  | token _ => "DEBUG"
  | error _ => "WARN"
  | complete _ _ => "INFO"

/-- The named values of an event. -/
def fields : Event → List (String × String)
  | token t =>
    [("message", "token"), ("kind", t.kind.name), ("lexeme", t.lexeme),
     ("line", toString t.start.line), ("column", toString t.start.column)]
  | error e => [("message", e.message)]
  | complete tokens errors =>
    [("message", "lexing pass complete"), ("tokens", toString tokens),
     ("errors", toString errors)]

end Event

end Lexis

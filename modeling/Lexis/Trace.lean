import Lexis.Event
import Lexis.Segment.Read

set_option autoImplicit false

/-! # Traces

A trace is the row of segments of a source text, each with the place where it starts. Places come
from the segments alone: each segment starts where the text of the one before it stops. Tokens,
errors and events are views of a trace; in each the segments keep their order, and what a segment
has to say about its inside comes before the token that it makes. -/

namespace Lexis

/-- Something with the place in the source text where it starts. -/
structure Placed (α : Type) where
  start : Position
  piece : α
deriving DecidableEq, Repr

/-- Place pieces one behind the other, where `text` is the source text of a piece. -/
def place {α : Type} (text : α → List Char) (start : Position) : List α → List (Placed α)
  | [] => []
  | piece :: pieces => ⟨start, piece⟩ :: place text (start.after (text piece)) pieces

namespace Placed

/-- The errors inside a string: one for each escape that means nothing. -/
def escapeErrors (start : Position) (items : List StringItem) : List LexError :=
  (place StringItem.text (start.after ['"']) items).filterMap fun p =>
    if p.piece.value?.isNone then
      some
        { cause := .invalidEscape (String.ofList p.piece.text)
          start := p.start
          stop := p.start.offset + Text.size p.piece.text }
    else none

/-- The error of a segment as a whole. -/
def ownError? (p : Placed Segment) : Option LexError :=
  p.piece.fault?.map fun (cause, size) => ⟨cause, p.start, p.start.offset + size⟩

/-- The errors of a segment, in the order in which they are found. -/
def errors (p : Placed Segment) : List LexError :=
  escapeErrors p.start p.piece.items ++ p.ownError?.toList

/-- The token of a segment. -/
def token? (p : Placed Segment) : Option Token :=
  p.piece.token?.map fun (kind, literal?) =>
    { kind := kind
      lexeme := String.ofList p.piece.text
      literal? := literal?
      start := p.start
      stop := p.start.offset + Text.size p.piece.text }

/-- The events of a segment: its errors, then its token. -/
def events (p : Placed Segment) : List Event :=
  p.errors.map .error ++ (p.token?.map .token).toList

end Placed

/-- The segments of a source text with their places. -/
abbrev Trace := List (Placed Segment)

namespace Trace

/-- The trace of a source text. -/
def ofText (cs : List Char) : Trace := place Segment.text .origin (Segment.readAll cs)

/-- The tokens, in source order. -/
def tokens (t : Trace) : List Token := t.filterMap Placed.token?

/-- The errors, in the order in which they are found. -/
def errors (t : Trace) : List LexError := t.flatMap Placed.errors

/-- The events of a logged scan. -/
def events (t : Trace) : List Event :=
  t.flatMap Placed.events ++ [.complete t.tokens.length t.errors.length]

end Trace

/-- The result of a scan. -/
structure Scan where
  tokens : List Token := []
  errors : List LexError := []
  /-- The log; empty unless it was asked for. -/
  events : List Event := []
deriving DecidableEq, Repr

namespace Scan

/-- The result of a scan that went through the trace `t`. -/
def ofTrace (log : Bool) (t : Trace) : Scan :=
  { tokens := t.tokens
    errors := t.errors
    events := if log then t.events else [] }

/-- Whether any error was found. -/
def hadError (s : Scan) : Bool := !s.errors.isEmpty

end Scan

/-- Scan a source text. -/
def scan (source : String) : Scan := .ofTrace false (.ofText source.toList)

end Lexis

import Lexis.Ansi
import Lexis.Trace

set_option autoImplicit false

/-! # Highlighting

A line of source text with its tokens in colours. The text between tokens, whatever it is, stays as
it is; a line without tokens is not changed at all. -/

namespace Lexis

/-- The style in which tokens of a kind are highlighted; identifiers and punctuation are not. -/
def TokenKind.highlight? : TokenKind → Option Ansi.Style
  | .keyword _ => some ⟨.blue, true⟩
  | .string => some ⟨.green, false⟩
  | .number => some ⟨.magenta, false⟩
  | .symbol s => if s.isOperator then some ⟨.cyan, false⟩ else none
  | .identifier => none
  | .endOfInput => none

/-- The lexeme of a token in its colour. -/
def Token.highlighted (t : Token) : List Char :=
  match t.kind.highlight? with
  | some style => style.paint t.lexeme.toList
  | none => t.lexeme.toList

/-- Cut a text that itself starts at the offset `start` at the offset `stop`. -/
def cutOrFault (start stop : Nat) (cs : List Char) : Except Fault (List Char × List Char) :=
  if start ≤ stop then
    match Text.cut? cs (stop - start) with
    | some parts => .ok parts
    | none => .error .slice
  else .error .slice

/-- The text of a line from the offset `start` on, with the tokens in it highlighted. The tokens
    have to be in order and apart. -/
def highlightFrom (start : Nat) (cs : List Char) : List Token → Except Fault (List Char)
  | [] => .ok cs
  | t :: ts => do
    let (gap, behindGap) ← cutOrFault start t.span.start cs
    let (_, behindToken) ← cutOrFault t.span.start t.span.stop behindGap
    let rest ← highlightFrom t.span.stop behindToken ts
    return gap ++ t.highlighted ++ rest

/-- A line with its tokens highlighted; `none` if it has none and can be used as it is. -/
def highlight? (line : String) : Except Fault (Option String) := do
  match (scan line).tokens with
  | [] => return none
  | tokens => return some (String.ofList (← highlightFrom 0 line.toList tokens))

/-- The prompt of a session. -/
def prompt : String := "> "

/-- A prompt in colours; `none` for any other than that of a session. -/
def highlightPrompt? (text : String) : Option String :=
  if text = prompt then some (Ansi.Style.mark ⟨.brightGreen, true⟩ ">" ++ " ") else none

end Lexis

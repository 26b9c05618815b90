import Lexis.Repl.Entry

set_option autoImplicit false

/-! # Sessions

A session keeps one scanner and the text of the entry that is open. Each line moves it on; it ends
with the command to exit, or with its input. -/

namespace Lexis

/-- What a run shows, and the status it ends with. -/
structure Outcome where
  outputs : List Output
  status : UInt32
deriving DecidableEq, Repr

namespace Repl

/-- A session between two lines. -/
structure Session where
  scanner : Scanner
  /-- The text of the entry that is open. -/
  opened : List Char := []
deriving DecidableEq, Repr

/-- The lines with which a session starts. -/
def banner : List Output :=
  [.line (versionLine "Aurora lexer"),
   .line (Ansi.Style.mark ⟨.brightBlack, false⟩ "Type .help for REPL commands")]

/-- The line with which a session ends at the end of its input. -/
def farewell : Output := .line (Ansi.Style.mark ⟨.brightBlack, false⟩ "bye")

/-- How a line moves a session on. -/
inductive Step where
  /-- The session goes on, with what it shows for the line. -/
  | next (session : Session) (outputs : List Output)
  | exit
deriving DecidableEq, Repr

namespace Session

/-- Add a line. -/
def step (read : Reading) (s : Session) (line : Line) : Step :=
  match addLine s.opened line with
  | .more opened => .next { s with opened := opened } []
  | .complete entry =>
    match Command.ofEntry entry with
    | .exit => .exit
    | command =>
      let (scanner, outputs) := reply read s.scanner command
      .next { scanner := scanner } outputs

/-- The path of the file that will be read if a line is added. -/
def wanted? (s : Session) (line : Line) : Option String :=
  match addLine s.opened line with
  | .more _ => none
  | .complete entry =>
    match Command.ofEntry entry with
    | .load path => some path
    | _ => none

/-- The end of a session with its input. -/
def finish (isGarbled : Bool) : Outcome :=
  if isGarbled then ⟨[.problem "repl error" ReadError.notText.message], 1⟩ else ⟨[farewell], 0⟩

/-- Go through lines to the end of a session. -/
def runLines (read : Reading) (isGarbled : Bool) (s : Session) : List Line → Outcome
  | [] => finish isGarbled
  | line :: lines =>
    match s.step read line with
    | .exit => ⟨[], 0⟩
    | .next s outputs =>
      let rest := s.runLines read isGarbled lines
      { rest with outputs := outputs ++ rest.outputs }

end Session

/-- A whole session. -/
def run (read : Reading) (config : ScanConfig) (input : Input) : Outcome :=
  let outcome := Session.runLines read input.isGarbled ⟨.ofConfig config, []⟩ input.lines
  { outcome with outputs := banner ++ outcome.outputs }

end Repl

end Lexis

import Lexis.Ansi
import Lexis.Diagnostic
import Lexis.Listing

set_option autoImplicit false

/-! # Output

What a run of the program shows: lines on the standard output, and on the side problems, reports of
lexical failures and the log. -/

namespace Lexis

/-- A piece of output. -/
inductive Output where
  /-- A line on the standard output. -/
  | line (text : String)
  /-- A problem with the run itself: what it hinders, and what it is. -/
  | problem (subject message : String)
  /-- A report of the errors in a source text. -/
  | report (failure : LexFailure)
  | log (event : Event)
deriving DecidableEq, Repr

namespace Output

/-- The line on the standard output, if that is where the output goes. -/
def line? : Output → Option String
  | line text => some text
  | _ => none

/-- The text of a problem, its subject in red. -/
def problem? : Output → Option String
  | problem subject message =>
    some (Ansi.Style.mark ⟨.red, true⟩ (subject ++ ":") ++ " " ++ message)
  | _ => none

/-- The failure that is reported, if any. -/
def report? : Output → Option LexFailure
  | report failure => some failure
  | _ => none

/-- The whole standard output. -/
def standard (outputs : List Output) : String :=
  String.join ((outputs.filterMap line?).map (· ++ "\n"))

/-- The problems. -/
def problems (outputs : List Output) : List String := outputs.filterMap problem?

/-- The reports. -/
def reports (outputs : List Output) : List LexFailure := outputs.filterMap report?

/-- What does not go to the standard output, as plain text. -/
def sideText : Output → Option String
  | line _ => none
  | problem subject message => (problem subject message).problem?
  | report failure => some failure.plainText
  | log event =>
    some (event.level ++ " " ++ Event.target ++ ": "
      ++ " ".intercalate (event.fields.map fun (name, value) => name ++ "=" ++ value))

end Output

/-- The name and version of the program. -/
def versionLine (name : String) : String :=
  Ansi.Style.mark ⟨.brightCyan, true⟩ name ++ " " ++ Ansi.Style.mark ⟨.brightBlack, false⟩ "0.1.0"

end Lexis

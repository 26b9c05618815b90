import Lexis.Cli.Run
import Lexis.Highlight

set_option autoImplicit false

/-! # The program

The outer layer: it reads files and the standard input, hands them to the library, and prints what
the library shows. -/

namespace Lexis.Main

/-- The number of a system error, some of which are given negated. -/
def systemNumber (code : UInt32) : UInt32 := if code < 0x80000000 then code else 0 - code

/-- The reason of a failure to read. -/
def readError : IO.Error → ReadError
  | .noFileOrDirectory _ _ _ => .notFound
  | .inappropriateType _ code details =>
    if systemNumber code = 20 then .notDirectory
    else if systemNumber code = 21 then .isDirectory
    else .other details
  | e => .other (toString e)

/-- Read a file as text. -/
def readFile (path : String) : IO (Except ReadError String) := do
  try
    return textOfBytes (← IO.FS.readBinFile path)
  catch e =>
    return .error (readError e)

/-- Read files, to be looked up by their paths. -/
def readFiles (paths : List String) : IO Reading := do
  let files ← paths.mapM fun path => return (path, ← readFile path)
  return fun path => (files.lookup path).getD (.error .notFound)

/-- Print a piece of output. -/
def emit (o : Output) : IO Unit :=
  match o.line? with
  | some text => IO.println text
  | none => (o.sideText.map IO.eprintln).getD (return)

/-- Print what a run shows, and give its status. -/
def finish (outcome : Outcome) : IO UInt32 := do
  outcome.outputs.forM emit
  return outcome.status

/-- Read a line of the standard input, up to and with its line feed. -/
partial def readLine (input : IO.FS.Stream) (bytes : ByteArray) : IO ByteArray := do
  let next ← input.read 1
  if next.isEmpty then return bytes
  else if next.toList = [10] then return bytes ++ next
  else readLine input (bytes ++ next)

/-- Go through the standard input. -/
partial def runSession (input : IO.FS.Stream) (session : Repl.Session) : IO UInt32 := do
  if ← input.isTty then
    IO.print ((highlightPrompt? prompt).getD prompt)
    (← IO.getStdout).flush
  let bytes ← readLine input .empty
  if bytes.isEmpty then finish (Repl.Session.finish false)
  else
    match textOfBytes bytes with
    | .error _ => finish (Repl.Session.finish true)
    | .ok text =>
      let line := Repl.Line.ofRaw text.toList
      let read ← readFiles (session.wanted? line).toList
      match session.step read line with
      | .exit => return 0
      | .next session outputs =>
        outputs.forM emit
        runSession input session

/-- Run the program with the given arguments. -/
def run (args : List String) : IO UInt32 := do
  match Cli.Options.parse args with
  | none => return 2
  | some options =>
    match Cli.start (← readFiles options.paths) options with
    | .done outcome => finish outcome
    | .session config =>
      Repl.banner.forM emit
      runSession (← IO.getStdin) ⟨.ofConfig config, []⟩

end Lexis.Main

def main (args : List String) : IO UInt32 := Lexis.Main.run args

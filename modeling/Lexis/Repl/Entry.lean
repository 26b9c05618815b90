import Lexis.Files
import Lexis.Output
import Lexis.Repl.Line
import Lexis.Text.Blank

set_option autoImplicit false

/-! # Entries

Lines are gathered into entries: an entry goes on as long as its text stops inside a string or a
block comment. What an entry asks for is a command if, trimmed, it is spelled like one, and else a
scan of its text as it is. -/

namespace Lexis

/-- Whether a source text stops inside a string or a block comment. -/
def needsMoreInput (source : String) : Bool := (scan source).errors.any LexError.isUnterminated

namespace Repl

/-! ## Gathering lines -/

/-- An entry that a line was added to. -/
inductive Progress where
  /-- The entry is complete. -/
  | complete (entry : List Char)
  /-- The entry goes on; its text so far, with the ends of its lines. -/
  | more (opened : List Char)
deriving DecidableEq, Repr

/-- Add a line to the text of an entry, which is empty before its first line. The end of a line
    belongs to the entry only if another line follows. -/
def addLine (opened : List Char) (line : Line) : Progress :=
  let text := opened ++ line.text
  if needsMoreInput (String.ofList text) then .more (text ++ line.ending.text)
  else .complete text

/-- A complete entry. -/
structure Entry where
  text : List Char
  /-- The end of its last line, which does not belong to it. -/
  ending : LineEnd
deriving DecidableEq, Repr

/-- An entry as it was read. -/
def Entry.raw (e : Entry) : List Char := e.text ++ e.ending.text

/-- The complete entries in a row of lines; what is open at the end is lost. -/
def entriesFrom (opened : List Char) : List Line → List Entry
  | [] => []
  | line :: lines =>
    match addLine opened line with
    | .complete text => ⟨text, line.ending⟩ :: entriesFrom [] lines
    | .more opened => entriesFrom opened lines

/-- The complete entries in a text. -/
def entriesOf (text : String) : List Entry := entriesFrom [] (Line.split text.toList)

/-! ## Commands -/

/-- What an entry asks for. -/
inductive Command where
  | nothing
  | exit
  | help
  | load (path : String)
  | scan (source : String)
deriving DecidableEq, Repr

/-- The beginning of a command to load a file. -/
def loadWord : List Char := ".load ".toList

/-- What an entry asks for. -/
def Command.ofEntry (entry : List Char) : Command :=
  let text := Text.trim entry
  if text = [] then nothing
  else if text = ".exit".toList then exit
  else if text = ".help".toList then help
  else if loadWord.isPrefixOf text then
    load (String.ofList (Text.trim (text.drop loadWord.length)))
  else scan (String.ofList entry)

/-! ## Replies -/

/-- Scan a text and show what was found: the log, the tokens, and a report if there are errors. -/
def showScan (scanner : Scanner) (name source : String) : Scanner × List Output :=
  let (scanner, result) := scanner.scan source
  let report := if scanner.hadError then [.report ⟨name, source, scanner.errors⟩] else []
  (scanner, result.events.map .log ++ result.tokens.map (fun t => .line t.listed) ++ report)

/-- The commands and what they do. -/
def helpLines : List String :=
  [".help                show commands",
   ".load <file>         scan a file",
   ".exit                exit REPL"]

/-- Do what a command asks for. -/
def reply (read : Reading) (scanner : Scanner) : Command → Scanner × List Output
  | .nothing => (scanner, [])
  | .exit => (scanner, [])
  | .help => (scanner, helpLines.map fun l => .line (Ansi.Style.mark ⟨.brightBlue, false⟩ l))
  | .load path =>
    match read path with
    | .ok source => showScan scanner path source
    | .error e => (scanner, [.problem "load error" e.message])
  | .scan source => showScan scanner "<repl>" source

end Repl

end Lexis

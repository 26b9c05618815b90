import Lexis.Cli.Options
import Lexis.Config.Document
import Lexis.Dump
import Lexis.Repl.Session

set_option autoImplicit false

/-! # Runs of the program

Without a source text on the command line the program is a session; with one, or with the name of a
file, it scans once and shows the tokens, as a listing or as a dump. The status is 0 if all went
well, 1 if there were errors in the source text or something could not be read, 2 if the command
line is refused. -/

namespace Lexis.Cli

/-- Why a run ends before anything was scanned. -/
inductive StartError where
  | config (e : ConfigError)
  | unreadableConfig (path : String) (e : ReadError)
  | unreadableFile (path : String) (e : ReadError)
deriving DecidableEq, Repr

/-- The message of such an end. The path of a source file is set off by its colour. -/
def StartError.message : StartError → String
  | config e => e.message
  | unreadableConfig path e => s!"could not read '{path}': {e.message}"
  | unreadableFile path e =>
    s!"could not read '{Ansi.Style.mark ⟨.yellow, false⟩ path}': {e.message}"

/-- A run that ends before anything was scanned. -/
def StartError.outcome (e : StartError) : Outcome := ⟨[.problem "error" e.message], 1⟩

/-- The configuration of a run: that of the document, if one is named, with logging turned on if
    that is asked for. -/
def loadConfig (read : Reading) (o : Options) : Except StartError ScanConfig := do
  let config ←
    match o.config? with
    | none => pure {}
    | some path => do
      let text ← (read path).mapError (.unreadableConfig path)
      (ScanConfig.ofDocument text).mapError .config
  return if o.logLexing then { config with logLexingPass := .enabled } else config

/-- The name and text of the source to be scanned once; `none` if there is none. A text on the
    command line comes before a file. -/
def loadSource (read : Reading) (o : Options) : Except StartError (Option (String × String)) :=
  match o.eval?, o.file? with
  | some source, _ => .ok (some ("<eval>", source))
  | none, some path => do
    let source ← (read path).mapError (.unreadableFile path)
    return some (path, source)
  | none, none => .ok none

/-- Scan once. -/
def runBatch (config : ScanConfig) (json : Bool) (name source : String) : Outcome :=
  let (scanner, result) := (Scanner.ofConfig config).scan source
  let lines := if json then [dump .pretty result.tokens] else result.tokens.map Token.listed
  let report := if scanner.hadError then [.report ⟨name, source, scanner.errors⟩] else []
  { outputs := result.events.map .log ++ lines.map .line ++ report
    status := if scanner.hadError then 1 else 0 }

/-- How a run goes on behind its options. -/
inductive Start where
  /-- The run is over. -/
  | done (outcome : Outcome)
  /-- The run is a session. -/
  | session (config : ScanConfig)
deriving DecidableEq, Repr

/-- Do what the options ask for, up to a session. -/
def start (read : Reading) (o : Options) : Start :=
  if o.version then .done ⟨[.line (versionLine "aurora")], 0⟩
  else
    match loadConfig read o with
    | .error e => .done e.outcome
    | .ok config =>
      match loadSource read o with
      | .error e => .done e.outcome
      | .ok (some (name, source)) => .done (runBatch config o.json name source)
      | .ok none => .session config

/-- A whole run: the files are read through `read`, and `input` is the standard input. -/
def run (read : Reading) (input : Repl.Input) (args : List String) : Outcome :=
  match Options.parse args with
  | none => ⟨[], 2⟩
  | some o =>
    match start read o with
    | .done outcome => outcome
    | .session config => Repl.run read config input

end Lexis.Cli

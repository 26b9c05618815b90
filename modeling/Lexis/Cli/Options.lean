set_option autoImplicit false

/-! # Command line options

The command line names at most one file and has options with a value (`--eval`, `--config`) and
switches (`--json`, `--log-lexing`, `--version`), each at most once. A value is the argument behind
its option or follows an equals sign; `--` ends the options. Anything else is refused. -/

namespace Lexis.Cli

/-- What a command line says. -/
structure Options where
  file? : Option String := none
  /-- The source text given on the command line. -/
  eval? : Option String := none
  /-- The path of the configuration document. -/
  config? : Option String := none
  json : Bool := false
  logLexing : Bool := false
  version : Bool := false
deriving DecidableEq, Repr

namespace Options

/-- Name the file. -/
def setFile (o : Options) (path : String) : Option Options :=
  if o.file?.isSome then none else some { o with file? := some path }

/-- Set an option that has a value. -/
def setValue (o : Options) (name value : String) : Option Options :=
  if name = "--eval" ∧ o.eval? = none then some { o with eval? := some value }
  else if name = "--config" ∧ o.config? = none then some { o with config? := some value }
  else none

/-- Set a switch. -/
def setSwitch (o : Options) (name : String) : Option Options :=
  if name = "--json" ∧ !o.json then some { o with json := true }
  else if name = "--log-lexing" ∧ !o.logLexing then some { o with logLexing := true }
  else if name = "--version" ∧ !o.version then some { o with version := true }
  else none

/-- Whether an option has a value. -/
def hasValue (name : String) : Bool := name = "--eval" || name = "--config"

/-- Whether an argument looks like an option; a single dash does not. -/
def isOption (arg : String) : Bool := arg.toList.head? = some '-' && arg ≠ "-"

/-- The parts of an argument before and behind its first equals sign. -/
def splitValue? (arg : String) : Option (String × String) :=
  match arg.toList.dropWhile (· ≠ '=') with
  | '=' :: value => some (String.ofList (arg.toList.takeWhile (· ≠ '=')), String.ofList value)
  | _ => none

/-- Name the files behind the end of the options. -/
def addFiles (o : Options) (args : List String) : Option Options :=
  args.foldlM setFile o

/-- Read arguments; `none` if they are refused. -/
def add (o : Options) : List String → Option Options
  | [] => some o
  | arg :: args =>
    if arg = "--" then o.addFiles args
    else if !isOption arg then do (← o.setFile arg).add args
    else
      match splitValue? arg with
      | some (name, value) => do (← o.setValue name value).add args
      | none =>
        if hasValue arg then
          match args with
          | value :: rest =>
            if isOption value then none else do (← o.setValue arg value).add rest
          | [] => none
        else do (← o.setSwitch arg).add args

/-- What a list of arguments says; `none` if it is refused. -/
def parse (args : List String) : Option Options := add {} args

/-- The paths of the files that a run may read before it scans. -/
def paths (o : Options) : List String := o.config?.toList ++ o.file?.toList

end Options

end Lexis.Cli

import Lexis.Config.Basic
import Lexis.Trace

set_option autoImplicit false

/-! # Scanners

A scanner has a configuration and remembers the errors of its last scan. It can be used any number
of times: each scan starts from nothing and replaces the errors of the one before. -/

namespace Lexis

/-- A scanner between two scans. -/
structure Scanner where
  config : ScanConfig := {}
  /-- The errors of the last scan, oldest first. -/
  errors : List LexError := []
deriving DecidableEq, Repr, Inhabited

namespace Scanner

/-- A scanner that has not scanned yet. -/
def ofConfig (config : ScanConfig) : Scanner := { config := config }

/-- Scan a source text; the scanner is left with the errors of this scan. -/
def scan (s : Scanner) (source : String) : Scanner × Scan :=
  let result := Scan.ofTrace s.config.logLexingPass.isEnabled (.ofText source.toList)
  ({ s with errors := result.errors }, result)

/-- Whether the last scan found errors. -/
def hadError (s : Scanner) : Bool := !s.errors.isEmpty

/-- The messages of the last scan's errors. -/
def errorMessages (s : Scanner) : List String := s.errors.map LexError.message

end Scanner

end Lexis

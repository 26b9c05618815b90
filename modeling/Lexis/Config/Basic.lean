import Lexis.Flag
import Lexis.Json

set_option autoImplicit false

/-! # Configurations of a scanner -/

namespace Lexis

/-- What is optional in a scan. -/
structure ScanConfig where
  /-- Whether a scan logs its tokens and errors. -/
  logLexingPass : Flag := .disabled
deriving DecidableEq, Repr, Inhabited

namespace ScanConfig

/-- The name of the flag in a configuration document. -/
def fieldName : String := "log_lexing_pass"

/-- A configuration as a document. -/
def document (config : ScanConfig) : String :=
  (Json.record [(fieldName, .ofNat config.logLexingPass.bit.toNat)]).render .compact

end ScanConfig

end Lexis

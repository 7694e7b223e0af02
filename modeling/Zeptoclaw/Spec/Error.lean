import Zeptoclaw.Lib.Text

/-!
# Errors

The variants of `ZeptoError` (`error.rs`) that the modelled functions return.
-/

namespace Zeptoclaw

inductive ZeptoError where
  | securityViolation (msg : Str)
  | tool (msg : Str)
  | config (msg : Str)
  | channel (msg : Str)
  | busClosed
  deriving DecidableEq, Repr

/-- The texts of `thiserror`. -/
def ZeptoError.display : ZeptoError → Str
  | .securityViolation msg => "Security violation: ".toList ++ msg
  | .tool msg => "Tool error: ".toList ++ msg
  | .config msg => "Configuration error: ".toList ++ msg
  | .channel msg => "Channel error: ".toList ++ msg
  | .busClosed => "Bus error: channel closed".toList

end Zeptoclaw

import Zeptoclaw.Spec.Cooldown

/-!
# Errors of a provider

What a call of an `LLMProvider` fails with, and how `is_retryable` (`providers/retry.rs`) and `should_rotate`
(`providers/rotation.rs`) judge it.
-/

namespace Zeptoclaw

open Text

inductive LlmError where
  -- `ProviderTyped`
  | typed (e : ProviderError)
  -- `Provider`
  | provider (msg : Str)
  -- every other error
  | other (msg : Str)
  deriving DecidableEq, Repr

/-- `ProviderError::is_retryable`. -/
def ProviderError.isRetryable : ProviderError → Bool
  | .rateLimit _ | .serverError _ | .timeout _ | .overloaded _ => true
  | _ => false

section Retryable

variable (toLowercase : Str → Str)

/-- One of the hints stands in the message, in lower case. -/
def hasHint (hints : List Str) (msg : Str) : Bool := hints.any fun h => contains (toLowercase msg) h

def isContextWindowExceeded (msg : Str) : Bool :=
  hasHint toLowercase
    ["exceeds the context window".toList,
      "context window of this model".toList,
      "maximum context length".toList,
      "context length exceeded".toList,
      "max_tokens is too large".toList] msg

def isAuthFailure (msg : Str) : Bool :=
  hasHint toLowercase
    ["invalid api key".toList,
      "incorrect api key".toList,
      "missing api key".toList,
      "api key not set".toList,
      "authentication failed".toList,
      "auth failed".toList,
      "unauthorized".toList,
      "forbidden".toList,
      "permission denied".toList,
      "access denied".toList,
      "invalid_token".toList] msg

def isModelNotFound (msg : Str) : Bool :=
  contains (toLowercase msg) "model".toList &&
    hasHint toLowercase
      ["not found".toList, "does not exist".toList, "unknown model".toList, "unsupported model".toList] msg

/-- `is_retryable`. -/
def LlmError.isRetryable : LlmError → Bool
  | .typed e => e.isRetryable
  | .provider msg =>
    if isContextWindowExceeded toLowercase msg || isAuthFailure toLowercase msg || isModelNotFound toLowercase msg then
      false
    else if hasHint toLowercase ["http 400".toList, "http 401".toList, "http 403".toList, "http 404".toList] msg then false
    else
      hasHint toLowercase
        ["rate limit".toList,
          "rate_limit".toList,
          "429".toList,
          "500".toList,
          "overload".toList,
          "server error".toList,
          "502".toList,
          "503".toList,
          "504".toList,
          "timeout".toList] msg
  | .other _ => false

end Retryable

/-- `should_rotate`. -/
def LlmError.shouldRotate : LlmError → Bool
  | .typed e => e.shouldFallback
  | .provider _ | .other _ => true

end Zeptoclaw

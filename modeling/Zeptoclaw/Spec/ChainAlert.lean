import Zeptoclaw.Lib.Text

/-!
# Suspicious sequences of tool calls

`ChainTracker` (`safety/chain_alert.rs`), with which the agent loop records the tool calls of one message. It
alerts and never blocks.
-/

namespace Zeptoclaw

/-- `DANGEROUS_CHAINS`: names in their order, and what the sequence may be. -/
def dangerousChains : List (List Str × Str) :=
  [(["filesystem_write".toList, "shell_execute".toList], "write-then-execute: possible code injection".toList),
    (["shell_execute".toList, "web_fetch".toList], "execute-then-fetch: possible data exfiltration".toList),
    (["longterm_memory".toList, "shell_execute".toList],
      "memory-then-execute: possible memory poisoning exploitation".toList)]

structure ChainTracker where
  history : List Str := []
  -- the patterns that have been alerted, by their index
  alerted : List Bool := List.replicate dangerousChains.length false
  deriving DecidableEq, Repr

/-- What is logged. -/
structure ChainAlert where
  description : Str
  tools : List Str
  deriving DecidableEq, Repr

namespace ChainTracker

/-- The names are looked for one after the other. -/
def containsSubsequence (haystack needle : List Str) : Bool :=
  haystack.foldl (fun needleIdx item => if needle[needleIdx]? = some item then needleIdx + 1 else needleIdx) 0 =
    needle.length

def checkPattern (t : ChainTracker × List ChainAlert) (chain : (List Str × Str) × ℕ) : ChainTracker × List ChainAlert :=
  if t.1.alerted.getD chain.2 false then t
  else if containsSubsequence t.1.history chain.1.1 then
    ({ t.1 with alerted := t.1.alerted.set chain.2 true }, t.2 ++ [⟨chain.1.2, t.1.history⟩])
  else t

def checkPatterns (t : ChainTracker) : ChainTracker × List ChainAlert := dangerousChains.zipIdx.foldl checkPattern (t, [])

/-- The tool calls of one iteration, and the alerts they lead to. -/
def record (t : ChainTracker) (toolNames : List Str) : ChainTracker × List ChainAlert :=
  checkPatterns { t with history := t.history ++ toolNames }

end ChainTracker

end Zeptoclaw

import Zeptoclaw.Spec.Session

/-!
# Session repair

The five passes of `session/repair.rs`, in their order. Each pass returns the
repaired list and the number of its repairs. Where the source pushes to `out` and
looks at `out.last()`, the pass here carries that last message as `prev`.
-/

namespace Zeptoclaw

open Text

/-- `RepairStats`. -/
structure RepairStats where
  orphanToolResultsRemoved : ℕ := 0
  emptyMessagesRemoved : ℕ := 0
  roleAlternationFixes : ℕ := 0
  duplicateMessagesRemoved : ℕ := 0
  truncationRepairs : ℕ := 0
  deriving DecidableEq, Repr

/-- The set of seen call identifiers after one more message. -/
def seenAfter (seen : List Str) (msg : Message) : List Str := seen ++ msg.callIds

/-- A tool result that answers none of the seen calls. -/
def isOrphan (seen : List Str) (msg : Message) : Bool :=
  msg.role == .tool &&
    match msg.toolCallId with
    | some id => !seen.contains id
    | none => true

/-- The loop of `remove_orphan_tool_results`. A message's own calls are seen before
the message itself is judged. -/
def removeOrphanToolResultsFrom : List Str → List Message → List Message × ℕ
  | _, [] => ([], 0)
  | seen, msg :: rest =>
    let (repaired, removed) := removeOrphanToolResultsFrom (seenAfter seen msg) rest
    if isOrphan (seenAfter seen msg) msg then (repaired, removed + 1) else (msg :: repaired, removed)

/-- `remove_orphan_tool_results`. -/
def removeOrphanToolResults (messages : List Message) : List Message × ℕ :=
  removeOrphanToolResultsFrom [] messages

/-- What `remove_empty_messages` keeps. -/
def keepsMessage (msg : Message) : Bool :=
  !(trim msg.content).isEmpty || msg.hasToolCalls || msg.role == .tool

/-- `remove_empty_messages`. -/
def removeEmptyMessages (messages : List Message) : List Message × ℕ :=
  (messages.filter keepsMessage, messages.countP fun msg => !keepsMessage msg)

/-- Only consecutive user or assistant messages of the same role are merged. -/
def mergesInto (prev msg : Message) : Bool :=
  (msg.role == .user || msg.role == .assistant) && prev.role == msg.role

/-- The previous message after `msg` is merged into it. Tool calls are kept for the
assistant only. -/
def mergeMessage (prev msg : Message) : Message :=
  { prev with
    content :=
      if msg.content.isEmpty then prev.content
      else (if prev.content.isEmpty then prev.content else prev.content ++ ['\n']) ++ msg.content
    toolCalls :=
      if msg.role == .assistant then
        match msg.toolCalls with
        | some calls => some (prev.toolCalls.getD [] ++ calls)
        | none => prev.toolCalls
      else prev.toolCalls }

/-- The loop of `fix_role_alternation` after a first message was pushed. -/
def fixRoleAlternationFrom : Message → List Message → List Message × ℕ
  | prev, [] => ([prev], 0)
  | prev, msg :: rest =>
    if mergesInto prev msg then
      let (out, fixed) := fixRoleAlternationFrom (mergeMessage prev msg) rest
      (out, fixed + 1)
    else
      let (out, fixed) := fixRoleAlternationFrom msg rest
      (prev :: out, fixed)

/-- `fix_role_alternation`. -/
def fixRoleAlternation : List Message → List Message × ℕ
  | [] => ([], 0)
  | msg :: rest => fixRoleAlternationFrom msg rest

/-- The comparison of `remove_consecutive_duplicates`; content parts are not looked at. -/
def isDuplicate (prev msg : Message) : Bool :=
  prev.role == msg.role && prev.content == msg.content && prev.toolCallId == msg.toolCallId &&
    prev.toolCalls == msg.toolCalls

/-- The loop of `remove_consecutive_duplicates` after a first message was pushed. -/
def removeConsecutiveDuplicatesFrom : Message → List Message → List Message × ℕ
  | prev, [] => ([prev], 0)
  | prev, msg :: rest =>
    if isDuplicate prev msg then
      let (out, removed) := removeConsecutiveDuplicatesFrom prev rest
      (out, removed + 1)
    else
      let (out, removed) := removeConsecutiveDuplicatesFrom msg rest
      (prev :: out, removed)

/-- `remove_consecutive_duplicates`. -/
def removeConsecutiveDuplicates : List Message → List Message × ℕ
  | [] => ([], 0)
  | msg :: rest => removeConsecutiveDuplicatesFrom msg rest

/-- The replacement character. -/
def replacementChar : Char := '\uFFFD'

/-- The marker of a cut text without its closing. -/
def truncatedMarker : Str := "[...truncated".toList

/-- The content and whether it changed, for one message of `repair_truncation_artifacts`. -/
def repairContent (content : Str) : Str × Bool :=
  let (content, cut) :=
    if content.getLast? = some replacementChar then (trimEndMatches replacementChar content, true)
    else (content, false)
  if truncatedMarker.isSuffixOf content then (content ++ "...]".toList, true) else (content, cut)

/-- One message of `repair_truncation_artifacts`. -/
def repairArtifact (msg : Message) : Message := { msg with content := (repairContent msg.content).1 }

/-- `repair_truncation_artifacts`. -/
def repairTruncationArtifacts (messages : List Message) : List Message × ℕ :=
  (messages.map repairArtifact, messages.countP fun msg => (repairContent msg.content).2)

/-- `repair_messages`. -/
def repairMessages (messages : List Message) : List Message × RepairStats :=
  let (messages, orphanRemoved) := removeOrphanToolResults messages
  let (messages, emptyRemoved) := removeEmptyMessages messages
  let (messages, altFixed) := fixRoleAlternation messages
  let (messages, dupRemoved) := removeConsecutiveDuplicates messages
  let (messages, truncRepaired) := repairTruncationArtifacts messages
  (messages,
    { orphanToolResultsRemoved := orphanRemoved
      emptyMessagesRemoved := emptyRemoved
      roleAlternationFixes := altFixed
      duplicateMessagesRemoved := dupRemoved
      truncationRepairs := truncRepaired })

end Zeptoclaw

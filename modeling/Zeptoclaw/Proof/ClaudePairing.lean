import Zeptoclaw.Spec.Claude
import Mathlib.Data.List.Forall2

/-!
# Tool calls and their results for the Claude provider

A conversation is read in turns: a user or assistant message, and the system and tool messages up
to the next one. `convertMessages_turns`: what a conversation becomes, turn by turn.
`convertMessages_paired`: where every turn with calls has one tool message per call, in order, the
calls and their results stay paired.
-/

namespace Zeptoclaw

namespace Claude

/-! ## Turns -/

/-- A user or an assistant message. -/
def opens (m : Message) : Bool := m.role == .user || m.role == .assistant

/-- The system and tool messages before the first turn. -/
def preamble (messages : List Message) : List Message := messages.takeWhile fun m => !opens m

/-- The user and assistant messages, each with the messages up to the next one. -/
def turns : List Message → List (Message × List Message)
  | [] => []
  | m :: messages => if opens m then (m, preamble messages) :: turns messages else turns messages

theorem preamble_cons_of_opens {m : Message} (h : opens m = true) (messages : List Message) : preamble (m :: messages) = [] :=
  List.takeWhile_cons_of_neg (by simp [h])

theorem preamble_cons_of_not_opens {m : Message} (h : opens m = false) (messages : List Message) :
    preamble (m :: messages) = m :: preamble messages := List.takeWhile_cons_of_pos (by simp [h])

/-- The preamble and the turns are the conversation. -/
theorem turns_flatten (messages : List Message) :
    messages = preamble messages ++ (turns messages).flatMap fun turn => turn.1 :: turn.2 := by
  induction messages with
  | nil => rfl
  | cons m messages ih =>
    unfold turns
    cases hm : opens m with
    | true =>
      rw [preamble_cons_of_opens hm, if_pos rfl, List.nil_append, List.flatMap_cons, List.cons_append, ← ih]
    | false => rw [preamble_cons_of_not_opens hm, if_neg (by simp), List.cons_append, ← ih]

/-! ## The conversion, turn by turn -/

/-- The block of a tool message that has the identifier of a call. -/
def resultBlock (m : Message) : Option ContentBlock :=
  if m.role = .tool then m.toolCallId.map fun id => .toolResult id m.content none else none

/-- The results of tool messages in one user message, if there are any. -/
def resultsMessage (results : List ContentBlock) : List ClaudeMessage :=
  if results.isEmpty then [] else [⟨"user".toList, .blocks results⟩]

theorem Conversion.flush_messages (c : Conversion) : c.flush.messages = c.messages ++ resultsMessage c.pendingToolResults := by
  unfold Conversion.flush resultsMessage
  split
  · exact (List.append_nil _).symm
  · rfl

theorem Conversion.flush_pending (c : Conversion) : c.flush.pendingToolResults = [] := by
  unfold Conversion.flush
  split
  · next h => exact List.isEmpty_iff.mp h
  · rfl

section Turns

variable (fromStr : Str → Option Json)

/-- What a user or an assistant message becomes. -/
def turnMessage (m : Message) : ClaudeMessage :=
  if m.role = .user then
    ⟨"user".toList, if m.hasImages then .blocks (m.contentParts.filterMap imageBlock) else .text m.content⟩
  else
    ⟨"assistant".toList, (m.toolCalls.map fun calls => Content.blocks (assistantBlocks fromStr m.content calls)).getD
      (.text m.content)⟩

/-- What a turn becomes. -/
def turnMessages (turn : Message × List Message) : List ClaudeMessage :=
  turnMessage fromStr turn.1 :: resultsMessage (turn.2.filterMap resultBlock)

/-- Pending results are flushed before a message that opens a turn. -/
theorem convertMessage_of_opens {m : Message} (h : opens m = true) (c : Conversion) :
    convertMessage fromStr c m = { c.flush with messages := c.flush.messages ++ [turnMessage fromStr m] } := by
  unfold opens at h
  cases hr : m.role with
  | user =>
    simp only [convertMessage, hr, turnMessage, if_true]
    split <;> rfl
  | assistant =>
    simp only [convertMessage, hr, turnMessage, reduceCtorEq, if_false]
    cases m.toolCalls <;> rfl
  | system => rw [hr] at h; cases h
  | tool => rw [hr] at h; cases h

/-- Other messages are kept back or leave nothing. -/
theorem convertMessage_of_not_opens {m : Message} (h : opens m = false) (c : Conversion) :
    (convertMessage fromStr c m).messages = c.messages ∧
      (convertMessage fromStr c m).pendingToolResults = c.pendingToolResults ++ (resultBlock m).toList := by
  unfold opens at h
  cases hr : m.role with
  | user => rw [hr] at h; cases h
  | assistant => rw [hr] at h; cases h
  | system =>
    simp only [convertMessage, hr, resultBlock, reduceCtorEq, if_false, Option.toList_none, List.append_nil, and_self]
  | tool =>
    simp only [convertMessage, hr, resultBlock, if_true]
    cases m.toolCallId with
    | some id => exact ⟨rfl, rfl⟩
    | none => exact ⟨rfl, (List.append_nil _).symm⟩

/-- **The loop**: what is pending and the preamble become one message, and each turn its own. -/
theorem foldl_convertMessage_messages : ∀ (messages : List Message) (c : Conversion),
    (messages.foldl (convertMessage fromStr) c).flush.messages =
      c.messages ++ resultsMessage (c.pendingToolResults ++ (preamble messages).filterMap resultBlock) ++
        (turns messages).flatMap (turnMessages fromStr) := by
  intro messages
  induction messages with
  | nil =>
    intro c
    simp only [List.foldl_nil, preamble, List.takeWhile_nil, List.filterMap_nil, turns, List.flatMap_nil, List.append_nil]
    exact c.flush_messages
  | cons m messages ih =>
    intro c
    rw [List.foldl_cons, ih]
    cases hm : opens m with
    | true =>
      have hturns : turns (m :: messages) = (m, preamble messages) :: turns messages := if_pos hm
      rw [convertMessage_of_opens fromStr hm, preamble_cons_of_opens hm, hturns]
      dsimp only
      rw [c.flush_pending, c.flush_messages]
      simp only [List.nil_append, List.filterMap_nil, List.append_nil, List.flatMap_cons, turnMessages, List.append_assoc,
        List.cons_append]
    | false =>
      have hturns : turns (m :: messages) = turns messages := if_neg (by simp [hm])
      obtain ⟨hmessages, hpending⟩ := convertMessage_of_not_opens fromStr hm c
      rw [hmessages, hpending, preamble_cons_of_not_opens hm, hturns, List.filterMap_cons]
      cases resultBlock m <;> simp only [Option.toList_none, Option.toList_some, List.append_nil, List.append_assoc,
        List.cons_append, List.nil_append]

/-- **Every conversation** becomes the results of its preamble and what its turns become. -/
theorem convertMessages_turns (messages : List Message) : (convertMessages fromStr messages).2 =
    resultsMessage ((preamble messages).filterMap resultBlock) ++ (turns messages).flatMap (turnMessages fromStr) := by
  have h := foldl_convertMessage_messages fromStr messages ⟨none, [], []⟩
  simp only [List.nil_append] at h
  exact h

/-! ## Calls and their results -/

/-- The calls of an assistant message. -/
def callsOf (m : Message) : List ToolCall := if m.role = .assistant then m.toolCalls.getD [] else []

/-- The tool messages of a turn. -/
def toolsOf (messages : List Message) : List Message := messages.filter fun m => m.role = .tool

/-- One tool message per call, in the order of the calls. -/
def Answers (calls : List ToolCall) (tools : List Message) : Prop :=
  List.Forall₂ (fun call tool => tool.toolCallId = some call.id) calls tools

/-- Every assistant message with calls is followed by the tool messages of its calls, and by no
other tool message, before the next user or assistant message. -/
def Paired (messages : List Message) : Prop :=
  ∀ turn ∈ turns messages, callsOf turn.1 ≠ [] → Answers (callsOf turn.1) (toolsOf turn.2)

/-- The result of a call. -/
def answerBlock (call : ToolCall) (tool : Message) : ContentBlock := .toolResult call.id tool.content none

/-- The calls in one assistant message and their results in one user message. -/
def pairedMessages (content : Str) (calls : List ToolCall) (tools : List Message) : List ClaudeMessage :=
  [⟨"assistant".toList, .blocks (assistantBlocks fromStr content calls)⟩,
    ⟨"user".toList, .blocks (List.zipWith answerBlock calls tools)⟩]

theorem filterMap_resultBlock (messages : List Message) :
    messages.filterMap resultBlock = (toolsOf messages).filterMap resultBlock := by
  unfold toolsOf
  rw [List.filterMap_filter]
  apply List.filterMap_congr
  intro m _
  unfold resultBlock
  by_cases hr : m.role = .tool <;> simp [hr]

theorem Answers.results {calls : List ToolCall} {tools : List Message} (h : Answers calls tools) :
    (∀ m ∈ tools, m.role = .tool) → tools.filterMap resultBlock = List.zipWith answerBlock calls tools := by
  induction h with
  | nil =>
    intro _
    rfl
  | cons hid _ ih =>
    rename_i call tool calls tools _
    intro hroles
    have hresult : resultBlock tool = some (answerBlock call tool) := by
      rw [resultBlock, if_pos (hroles tool List.mem_cons_self), hid]
      rfl
    rw [List.filterMap_cons, hresult, List.zipWith_cons_cons, ih fun m hm => hroles m (List.mem_cons_of_mem tool hm)]

/-- A turn whose calls are answered. -/
theorem turnMessages_answered {turn : Message × List Message} (hcalls : callsOf turn.1 ≠ [])
    (h : Answers (callsOf turn.1) (toolsOf turn.2)) :
    turnMessages fromStr turn = pairedMessages fromStr turn.1.content (callsOf turn.1) (toolsOf turn.2) := by
  have hresults : turn.2.filterMap resultBlock = List.zipWith answerBlock (callsOf turn.1) (toolsOf turn.2) := by
    rw [filterMap_resultBlock]
    exact h.results fun m hm => of_decide_eq_true (List.mem_filter.mp hm).2
  have hne : (List.zipWith answerBlock (callsOf turn.1) (toolsOf turn.2)).isEmpty = false := by
    have hlen := h.length_eq
    have hpos := List.length_pos_iff.mpr hcalls
    rw [← Bool.not_eq_true, List.isEmpty_iff, ← List.length_eq_zero_iff, List.length_zipWith]
    omega
  have hrole : turn.1.role = .assistant := by
    by_contra hrole
    exact hcalls (if_neg hrole)
  have hhead : turnMessage fromStr turn.1 =
      ⟨"assistant".toList, .blocks (assistantBlocks fromStr turn.1.content (callsOf turn.1))⟩ := by
    unfold callsOf at hcalls ⊢
    unfold turnMessage
    rw [if_pos hrole] at hcalls ⊢
    rw [hrole, if_neg (by decide)]
    cases hsome : turn.1.toolCalls with
    | some calls => rfl
    | none =>
      rw [hsome] at hcalls
      exact absurd rfl hcalls
  rw [turnMessages, hresults, resultsMessage, hne, hhead]
  rfl

/-- **Calls and results stay paired.** An assistant message with calls becomes one assistant
message with its calls in order, directly followed by one user message with exactly their results
in order. Every other user and assistant message becomes one message, in order. The turns, with
what stands before the first, are the whole conversation. -/
theorem convertMessages_paired {messages : List Message} (h : Paired messages) :
    messages = preamble messages ++ (turns messages).flatMap (fun turn => turn.1 :: turn.2) ∧
    (convertMessages fromStr messages).2 =
      resultsMessage ((preamble messages).filterMap resultBlock) ++ (turns messages).flatMap fun turn =>
        if callsOf turn.1 ≠ [] then pairedMessages fromStr turn.1.content (callsOf turn.1) (toolsOf turn.2)
        else turnMessage fromStr turn.1 :: resultsMessage (turn.2.filterMap resultBlock) := by
  refine ⟨turns_flatten messages, ?_⟩
  rw [convertMessages_turns]
  congr 1
  apply List.flatMap_congr
  intro turn hturn
  by_cases hcalls : callsOf turn.1 = []
  · rw [if_neg (not_not_intro hcalls), turnMessages]
  · rw [if_pos hcalls, turnMessages_answered fromStr hcalls (h turn hturn hcalls)]

end Turns

/-- Two calls and a warning between their results, then a question. -/
def answeredCalls : List Message :=
  [.assistantWithTools [] [⟨"t1".toList, "list".toList, []⟩, ⟨"t2".toList, "read".toList, []⟩],
    .toolResult "t1".toList "a.txt".toList, .system "slow down".toList, .toolResult "t2".toList "hello".toList,
    .user "and now?".toList]

theorem answeredCalls_paired : Paired answeredCalls := by
  intro turn hturn hcalls
  have hturns : turns answeredCalls =
      [(.assistantWithTools [] [⟨"t1".toList, "list".toList, []⟩, ⟨"t2".toList, "read".toList, []⟩],
        [.toolResult "t1".toList "a.txt".toList, .system "slow down".toList, .toolResult "t2".toList "hello".toList]),
      (.user "and now?".toList, [])] := rfl
  rw [hturns] at hturn
  simp only [List.mem_cons, List.not_mem_nil, or_false] at hturn
  rcases hturn with rfl | rfl
  · exact .cons rfl (.cons rfl .nil)
  · exact absurd rfl hcalls

/-- The results come directly behind the calls. -/
theorem convertMessages_paired_calls : (convertMessages (fun _ => none) answeredCalls).2 =
    [⟨"assistant".toList, .blocks [.toolUse "t1".toList "list".toList (.object []),
        .toolUse "t2".toList "read".toList (.object [])]⟩,
      ⟨"user".toList, .blocks [.toolResult "t1".toList "a.txt".toList none, .toolResult "t2".toList "hello".toList none]⟩,
      ⟨"user".toList, .text "and now?".toList⟩] :=
  (convertMessages_paired (fun _ => none) answeredCalls_paired).2.trans rfl

end Claude

end Zeptoclaw

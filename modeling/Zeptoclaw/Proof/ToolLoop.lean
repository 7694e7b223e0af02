import Zeptoclaw.Spec.ToolLoop

/-!
# No tool runs ungated

Every call that the tool loop executes was passed by the hooks, by the agent mode and by
`resolve_tool_approval` before, whatever the order in which the calls of a batch advance
(`runStep_gated`). The calls of the memory flush pass no gate at all, so a run is gated
exactly when its flush executes nothing (`processMessage_gated_iff`).
-/

namespace Zeptoclaw

variable {lib : AgentLib} {cfg : AgentConfig} {msg : InboundMessage} {trace : List GateEvent} {ref : CallRef}
  {call : ToolCall}

/-- The hooks let the call through. -/
def HookPassed (cfg : AgentConfig) (msg : InboundMessage) (trace : List GateEvent) (ref : CallRef)
    (call : ToolCall) : Prop :=
  ⟨ref, call, .hookPassed⟩ ∈ trace ∧ beforeTool cfg.hooks call.name msg.channel = none

/-- The agent mode lets the call through. -/
def ModePassed (cfg : AgentConfig) (msg : InboundMessage) (trace : List GateEvent) (ref : CallRef)
    (call : ToolCall) : Prop :=
  ⟨ref, call, .modePassed⟩ ∈ trace ∧ modeBlocks cfg (isTrustedLocalSession msg) call.name = none

/-- `resolve_tool_approval` lets the call through, and for a call on the hard floor the
handler answered `Approved`. -/
def ApprovalPassed (lib : AgentLib) (cfg : AgentConfig) (trace : List GateEvent) (ref : CallRef)
    (call : ToolCall) : Prop :=
  ⟨ref, call, .approvalPassed⟩ ∈ trace ∧
    (∃ answer, resolveToolApproval lib cfg.gate cfg.approvalHandler call.name (callArgs lib call) answer = none) ∧
    ((hardFloorCheck lib call.name (callArgs lib call)).isSome = true →
      ⟨ref, call, .handlerAnswered .approved⟩ ∈ trace)

/-- A call that passed all three gates. -/
def Cleared (lib : AgentLib) (cfg : AgentConfig) (msg : InboundMessage) (trace : List GateEvent)
    (ref : CallRef) (call : ToolCall) : Prop :=
  HookPassed cfg msg trace ref call ∧ ModePassed cfg msg trace ref call ∧ ApprovalPassed lib cfg trace ref call

/-- Every executed call passed the gates before. -/
def Gated (lib : AgentLib) (cfg : AgentConfig) (msg : InboundMessage) (trace : List GateEvent) : Prop :=
  ∀ pre e post, trace = pre ++ e :: post → e.kind = .executed → Cleared lib cfg msg pre e.ref e.call

/-! ## Traces that grow -/

theorem HookPassed.append (h : HookPassed cfg msg trace ref call) (more : List GateEvent) :
    HookPassed cfg msg (trace ++ more) ref call :=
  ⟨List.mem_append_left _ h.1, h.2⟩

theorem ModePassed.append (h : ModePassed cfg msg trace ref call) (more : List GateEvent) :
    ModePassed cfg msg (trace ++ more) ref call :=
  ⟨List.mem_append_left _ h.1, h.2⟩

theorem ApprovalPassed.append (h : ApprovalPassed lib cfg trace ref call) (more : List GateEvent) :
    ApprovalPassed lib cfg (trace ++ more) ref call :=
  ⟨List.mem_append_left _ h.1, h.2.1, fun hf => List.mem_append_left _ (h.2.2 hf)⟩

theorem Cleared.append (h : Cleared lib cfg msg trace ref call) (more : List GateEvent) :
    Cleared lib cfg msg (trace ++ more) ref call :=
  ⟨h.1.append more, h.2.1.append more, h.2.2.append more⟩

theorem gated_nil : Gated lib cfg msg [] := by
  intro pre e post h
  simp at h

theorem Gated.of_append {more : List GateEvent} (h : Gated lib cfg msg (trace ++ more)) :
    Gated lib cfg msg trace := by
  intro pre e post ht he
  exact h pre e (post ++ more) (by rw [ht]; simp) he

theorem Gated.append {more : List GateEvent} (h : Gated lib cfg msg trace)
    (hmore : ∀ e ∈ more, e.kind = .executed → Cleared lib cfg msg trace e.ref e.call) :
    Gated lib cfg msg (trace ++ more) := by
  intro pre e post ht he
  rcases List.append_eq_append_iff.1 ht with ⟨between, rfl, hm⟩ | ⟨between, htr, hm⟩
  · have hmem : e ∈ more := by rw [hm]; simp
    exact (hmore e hmem he).append between
  · cases between with
    | nil =>
      have hpre : pre = trace := by rw [htr]; simp
      have hmem : e ∈ more := by rw [← List.nil_append more, ← hm]; simp
      rw [hpre]
      exact hmore e hmem he
    | cons b between =>
      obtain ⟨rfl, -⟩ := List.cons.inj hm
      exact h pre _ between htr he

/-! ## One call -/

/-- What is known of a call by the stage it has reached. -/
def CallOk (lib : AgentLib) (cfg : AgentConfig) (msg : InboundMessage) (trace : List GateEvent)
    (ref : CallRef) (call : ToolCall) : CallStage → Prop
  | .hook => True
  | .mode => HookPassed cfg msg trace ref call
  | .approval => HookPassed cfg msg trace ref call ∧ ModePassed cfg msg trace ref call
  | .dryRun => Cleared lib cfg msg trace ref call
  | .execute => Cleared lib cfg msg trace ref call
  | .finished => True

theorem CallOk.append {stage : CallStage} (h : CallOk lib cfg msg trace ref call stage)
    (more : List GateEvent) : CallOk lib cfg msg (trace ++ more) ref call stage := by
  cases stage with
  | hook => trivial
  | mode => exact HookPassed.append h more
  | approval => exact ⟨h.1.append more, h.2.append more⟩
  | dryRun => exact Cleared.append h more
  | execute => exact Cleared.append h more
  | finished => trivial

/-- A call on the hard floor is let through only if the handler is asked and approves. -/
theorem resolveToolApproval_hardFloor {name : Str} {args : Json} {answer : ApprovalResponse}
    (h : resolveToolApproval lib cfg.gate cfg.approvalHandler name args answer = none)
    (hf : (hardFloorCheck lib name args).isSome = true) :
    cfg.approvalHandler = true ∧ asksHandler lib cfg.gate name args = true ∧ answer = .approved := by
  have hasks : asksHandler lib cfg.gate name args = true := by
    unfold asksHandler; rw [hf]; rfl
  have hnone : (hardFloorCheck lib name args).isNone = false := by
    rw [Option.isSome_iff_exists] at hf
    obtain ⟨rule, hr⟩ := hf
    rw [hr]; rfl
  unfold resolveToolApproval at h
  rw [hnone] at h
  simp only [Bool.false_and, Bool.false_eq_true, if_false] at h
  split at h
  · rename_i hh
    refine ⟨hh, hasks, ?_⟩
    cases answer with
    | approved => rfl
    | denied reason => cases h
    | timedOut => simp only at h; split at h <;> cases h
  · cases h

/-- **One step of a call**: it reaches the next stage only through the gate, and only a
cleared call is executed. -/
theorem callStep_ok (htrust : isTrustedLocalSession msg = false) {stage : CallStage}
    (hok : CallOk lib cfg msg trace ref call stage) (answer : ApprovalResponse) (outcome : KernelOutcome) :
    CallOk lib cfg msg
        (trace ++ (callStep lib cfg msg call stage answer outcome).2.map fun kind => ⟨ref, call, kind⟩) ref call
        (callStep lib cfg msg call stage answer outcome).1 ∧
      (.executed ∈ (callStep lib cfg msg call stage answer outcome).2 → Cleared lib cfg msg trace ref call) := by
  cases stage with
  | hook =>
    unfold callStep
    simp only
    cases hb : beforeTool cfg.hooks call.name msg.channel with
    | some message => exact ⟨trivial, fun h => by cases h⟩
    | none => exact ⟨⟨by simp, hb⟩, fun h => by simp at h⟩
  | mode =>
    unfold callStep
    simp only
    cases hm : modeBlocks cfg (isTrustedLocalSession msg) call.name with
    | some message => exact ⟨trivial, fun h => by cases h⟩
    | none => exact ⟨⟨HookPassed.append hok _, by simp, hm⟩, fun h => by simp at h⟩
  | approval =>
    unfold callStep
    simp only [htrust, Bool.false_eq_true, if_false]
    cases hr : resolveToolApproval lib cfg.gate cfg.approvalHandler call.name (callArgs lib call) answer with
    | some message =>
      refine ⟨trivial, fun h => ?_⟩
      simp only at h
      split at h <;> simp at h
    | none =>
      refine ⟨⟨hok.1.append _, hok.2.append _, by simp, ⟨answer, hr⟩, fun hf => ?_⟩, fun h => ?_⟩
      · obtain ⟨hh, ha, rfl⟩ := resolveToolApproval_hardFloor hr hf
        simp [hh, ha]
      · simp only at h
        split at h <;> simp at h
  | dryRun =>
    unfold callStep
    simp only
    split
    · exact ⟨trivial, fun h => by cases h⟩
    · exact ⟨Cleared.append hok _, fun h => by cases h⟩
  | execute =>
    refine ⟨?_, fun _ => hok⟩
    unfold callStep
    cases outcome with
    | blocked => trivial
    | passed =>
      simp only
      split
      · trivial
      · trivial
  | finished => exact ⟨trivial, fun h => by cases h⟩

/-! ## The run -/

/-- The calls of the batch at hand have come as far as the trace says. -/
def BatchOk (lib : AgentLib) (cfg : AgentConfig) (msg : InboundMessage) (st : RunState) : Prop :=
  ∀ calls sequential, st.stage = .batch calls sequential → ∀ index call stage,
    calls[index]? = some (call, stage) → CallOk lib cfg msg st.trace (.batch st.iteration index) call stage

/-- The invariant of a run. -/
def RunGated (lib : AgentLib) (cfg : AgentConfig) (msg : InboundMessage) (st : RunState) : Prop :=
  Gated lib cfg msg st.trace ∧ BatchOk lib cfg msg st

variable {st : RunState} {streaming : Bool}

/-- Outside a batch only the trace counts. -/
theorem RunGated.leave (h : RunGated lib cfg msg st) {stage : Stage}
    (hs : ∀ calls sequential, stage ≠ .batch calls sequential) :
    RunGated lib cfg msg { st with stage := stage } :=
  ⟨h.1, fun calls sequential hb => absurd hb (hs calls sequential)⟩

theorem startBatch_gated (h : RunGated lib cfg msg st) (calls : List ToolCall) (remaining : Option ℕ) :
    RunGated lib cfg msg (startBatch cfg msg streaming st calls remaining) := by
  unfold startBatch
  split
  · cases streaming <;> exact h.leave (by simp)
  split
  · exact h.leave (by simp)
  split
  · exact h.leave (by simp)
  · -- every call of the new batch still has all gates before it
    refine ⟨h.1, fun batch sequential hb index call stage hget => ?_⟩
    obtain ⟨rfl, -⟩ := Stage.batch.inj hb
    rw [List.getElem?_map] at hget
    obtain ⟨c, -, hc⟩ := Option.map_eq_some_iff.1 hget
    obtain ⟨-, rfl⟩ := Prod.mk.inj hc
    trivial

theorem advanceCall_gated (htrust : isTrustedLocalSession msg = false) (h : RunGated lib cfg msg st)
    {calls : List (ToolCall × CallStage)} {sequential : Bool} (hst : st.stage = .batch calls sequential)
    (index : ℕ) (answer : ApprovalResponse) (outcome : KernelOutcome) :
    RunGated lib cfg msg (advanceCall lib cfg msg st calls sequential index answer outcome) := by
  obtain ⟨hgated, hbatch⟩ := h
  unfold advanceCall
  cases hget : calls[index]? with
  | none => exact ⟨hgated, hbatch⟩
  | some c =>
    obtain ⟨call, stage⟩ := c
    simp only
    split
    · exact ⟨hgated, hbatch⟩
    · have hcall := hbatch calls sequential hst index call stage hget
      obtain ⟨hnext, hexec⟩ := callStep_ok htrust hcall answer outcome
      refine ⟨hgated.append fun e he hk => ?_, fun batch seq hb i c s hi => ?_⟩
      · obtain ⟨kind, hkind, rfl⟩ := List.mem_map.1 he
        simp only at hk
        exact hexec (hk ▸ hkind)
      · obtain ⟨rfl, -⟩ := Stage.batch.inj hb
        by_cases hidx : i = index
        · subst hidx
          have hlt : i < calls.length := (List.getElem?_eq_some_iff.1 hget).1
          rw [List.getElem?_set_self hlt] at hi
          obtain ⟨rfl, rfl⟩ := Prod.mk.inj (Option.some.inj hi)
          exact hnext
        · rw [List.getElem?_set_ne (Ne.symm hidx)] at hi
          exact (hbatch calls sequential hst i c s hi).append _

/-- **A step of the run keeps it gated.** -/
theorem runStep_gated (htrust : isTrustedLocalSession msg = false) (st : RunState) (input : RunInput)
    (h : RunGated lib cfg msg st) : RunGated lib cfg msg (runStep lib cfg msg streaming st input) := by
  unfold runStep
  split
  · exact h.leave (by simp)
  · exact startBatch_gated h _ _
  · rename_i hst; exact advanceCall_gated htrust h hst _ _ _
  · unfold finishBatch
    split
    · split
      · exact h.leave (by simp)
      · cases streaming <;> exact h.leave (by simp)
      · exact h.leave (by simp)
    · exact h
  · exact h.leave (by simp)
  · exact h

theorem runStep_trace (st : RunState) (input : RunInput) :
    st.trace <+: (runStep lib cfg msg streaming st input).trace := by
  unfold runStep
  split
  · exact List.prefix_rfl
  · unfold startBatch
    split
    · exact List.prefix_rfl
    split
    · exact List.prefix_rfl
    split
    · exact List.prefix_rfl
    · exact List.prefix_rfl
  · unfold advanceCall
    split
    · exact List.prefix_rfl
    split
    · exact List.prefix_rfl
    · exact List.prefix_append _ _
  · unfold finishBatch
    split
    · split
      · exact List.prefix_rfl
      · exact List.prefix_rfl
      · exact List.prefix_rfl
    · exact List.prefix_rfl
  · exact List.prefix_rfl
  · exact List.prefix_rfl

theorem runSteps_trace (lib : AgentLib) (cfg : AgentConfig) (msg : InboundMessage) (streaming : Bool) :
    ∀ (inputs : List RunInput) (st : RunState),
    st.trace <+: (runSteps (runStep lib cfg msg streaming) st inputs).trace := by
  intro inputs
  induction inputs with
  | nil => intro st; exact List.prefix_rfl
  | cons input inputs ih =>
    intro st
    exact (runStep_trace st input).trans (ih (runStep lib cfg msg streaming st input))

/-! ## The memory flush -/

/-- The flush turn is not made, or its response holds no call that it executes. -/
def FlushIdle (lib : AgentLib) (cfg : AgentConfig) (urgency : Option CompactionUrgency)
    (reply : Option (List ToolCall)) : Prop :=
  flushHappens cfg urgency = true → ∀ call ∈ reply.getD [], flushExecutes lib cfg call = false

theorem flushCalls_nil_iff : ∀ (calls : List ToolCall) (index : ℕ),
    flushCalls lib cfg index calls = [] ↔ ∀ call ∈ calls, flushExecutes lib cfg call = false := by
  intro calls
  induction calls with
  | nil => intro index; simp [flushCalls]
  | cons call calls ih =>
    intro index
    rw [flushCalls]
    by_cases hx : flushExecutes lib cfg call = true
    · simp [hx]
    · simp [hx, ih (index + 1)]

theorem flushCalls_executed : ∀ (calls : List ToolCall) (index : ℕ),
    ∀ e ∈ flushCalls lib cfg index calls, e.kind = .executed := by
  intro calls
  induction calls with
  | nil => intro index e he; cases he
  | cons call calls ih =>
    intro index e he
    rw [flushCalls] at he
    split at he
    · rcases List.mem_cons.1 he with rfl | he
      · rfl
      · exact ih _ e he
    · exact ih _ e he

theorem memoryFlush_nil_iff {urgency : Option CompactionUrgency} {reply : Option (List ToolCall)} :
    memoryFlush lib cfg urgency reply = [] ↔ FlushIdle lib cfg urgency reply := by
  unfold memoryFlush FlushIdle
  by_cases hf : flushHappens cfg urgency = true
  · rw [if_pos hf, flushCalls_nil_iff]
    exact ⟨fun h _ => h, fun h => h hf⟩
  · rw [if_neg hf]
    exact ⟨fun _ h => absurd h hf, fun _ => rfl⟩

/-- What the flush executes passed no gate. -/
theorem memoryFlush_gated {urgency : Option CompactionUrgency} {reply : Option (List ToolCall)}
    (h : Gated lib cfg msg (memoryFlush lib cfg urgency reply)) : memoryFlush lib cfg urgency reply = [] := by
  cases hm : memoryFlush lib cfg urgency reply with
  | nil => rfl
  | cons e rest =>
    exfalso
    have hk : e.kind = .executed := by
      unfold memoryFlush at hm
      split at hm
      · exact flushCalls_executed _ 0 e (by rw [hm]; simp)
      · cases hm
    have hclear := h [] e rest (by rw [hm]; rfl) hk
    cases hclear.1.1

theorem runMessage_gated_iff (htrust : isTrustedLocalSession msg = false) (streaming : Bool)
    (urgency : Option CompactionUrgency) (flushReply : Option (List ToolCall)) (inputs : List RunInput) :
    Gated lib cfg msg (runMessage lib cfg msg streaming urgency flushReply inputs).trace ↔
      FlushIdle lib cfg urgency flushReply := by
  rw [← memoryFlush_nil_iff]
  constructor
  · intro h
    obtain ⟨more, hmore⟩ := runSteps_trace lib cfg msg streaming inputs
      ⟨.chatting, 0, memoryFlush lib cfg urgency flushReply⟩
    have hprefix : Gated lib cfg msg (memoryFlush lib cfg urgency flushReply ++ more) := by
      rw [hmore]; exact h
    exact memoryFlush_gated hprefix.of_append
  · intro h
    have hstart : RunGated lib cfg msg ⟨.chatting, 0, memoryFlush lib cfg urgency flushReply⟩ := by
      rw [h]
      exact ⟨gated_nil, fun calls sequential hb => by cases hb⟩
    exact (run_preserves (runStep_gated htrust) inputs _ hstart).1

/-- **A run for a message that is not a trusted local session executes gated calls only,
exactly when its memory flush executes nothing.** -/
theorem processMessage_gated_iff (lib : AgentLib) (cfg : AgentConfig) (msg : InboundMessage)
    (htrust : isTrustedLocalSession msg = false) (urgency : Option CompactionUrgency)
    (flushReply : Option (List ToolCall)) (inputs : List RunInput) :
    (Gated lib cfg msg (processMessage lib cfg msg urgency flushReply inputs) ↔
      FlushIdle lib cfg urgency flushReply) ∧
    (Gated lib cfg msg (processMessageStreaming lib cfg msg urgency flushReply inputs) ↔
      FlushIdle lib cfg urgency flushReply) :=
  ⟨runMessage_gated_iff htrust false urgency flushReply inputs,
    runMessage_gated_iff htrust true urgency flushReply inputs⟩

/-! An agent in observer mode, which may read but not run commands, with `shell` behind the
approval gate and no approval handler. -/

def wipeCall : ToolCall := ⟨['1'], "shell".toList, "\x7b\"command\":\"rm -rf /\"\x7d".toList⟩

def rememberCall : ToolCall := ⟨['2'], "longterm_memory".toList, "\x7b\"action\":\"list\"\x7d".toList⟩

/-- The libraries, as they behave on the two calls. -/
def observerLib : AgentLib where
  fromStr text :=
    if text = wipeCall.arguments then .ok (.object [("command".toList, .string "rm -rf /".toList)])
    else if text = rememberCall.arguments then .ok (.object [("action".toList, .string "list".toList)])
    else .error "expected value at line 1 column 1".toList
  toStringPretty _ := []
  isMatch pattern text := pattern = r"\brm\s+(-[rRfF]+\s+)+/(\s|\*|$)".toList && text = "rm -rf /".toList

def observerConfig : AgentConfig where
  hooks := ⟨true, [⟨.block, ["shell".toList], [], none⟩]⟩
  agentMode := .observer
  gate := ⟨true, .requireForDangerous⟩
  approvalHandler := false
  registry name :=
    if name = "shell".toList then some .shell
    else if name = "longterm_memory".toList then some .memory
    else none
  dryRun := false
  maxToolIterations := 10
  provider := true

def telegramMessage : InboundMessage := .new "telegram".toList "7".toList "42".toList "Hello".toList

/-- With a flush that answers in text only, a memory call of the loop is executed and the
run is gated. -/
theorem processMessage_gated_remember :
    ⟨.batch 1 0, rememberCall, .executed⟩ ∈ processMessage observerLib observerConfig telegramMessage (some .normal)
      (some []) (.response (some [rememberCall]) none :: List.replicate 5 (.advance 0 .timedOut .passed)) ∧
    Gated observerLib observerConfig telegramMessage
      (processMessage observerLib observerConfig telegramMessage (some .normal)
        (some []) (.response (some [rememberCall]) none :: List.replicate 5 (.advance 0 .timedOut .passed))) :=
  ⟨by decide, (processMessage_gated_iff observerLib observerConfig telegramMessage (by decide) (some .normal)
    (some []) _).1.2 fun _ call hc => by cases hc⟩

/-- The flush response calls the shell, which the hooks, the mode and the approval gate
would each refuse, and the call is executed. -/
theorem processMessage_ungated :
    ¬ ∀ (lib : AgentLib) (cfg : AgentConfig) (msg : InboundMessage), isTrustedLocalSession msg = false →
      ∀ (urgency : Option CompactionUrgency) (flushReply : Option (List ToolCall)) (inputs : List RunInput),
        Gated lib cfg msg (processMessage lib cfg msg urgency flushReply inputs) ∧
          Gated lib cfg msg (processMessageStreaming lib cfg msg urgency flushReply inputs) := by
  intro h
  have hrun : processMessage observerLib observerConfig telegramMessage (some .normal) (some [wipeCall]) [] =
      [⟨.flush 0, wipeCall, .executed⟩] := by decide
  have hgated := (h observerLib observerConfig telegramMessage (by decide) (some .normal) (some [wipeCall]) []).1
  rw [hrun] at hgated
  cases (hgated [] _ [] rfl rfl).1.1

end Zeptoclaw

import Zeptoclaw.Spec.Transcript

/-!
# Calls and results stay paired

`savedSession_answered`: every session that `process_message` saves, whichever way the tool
loop ends, has the results of each message's tool calls right behind it.
-/

namespace Zeptoclaw

/-- Every assistant message with tool calls is immediately followed by one tool message per
call, in call order, with the call's identifier, and there are no other tool messages. -/
inductive CallsAnswered : List Message → Prop where
  | nil : CallsAnswered []
  | plain {m : Message} {ms : List Message} (hr : m.role ≠ .tool) (hc : m.role = .assistant → m.calls = [])
      (h : CallsAnswered ms) : CallsAnswered (m :: ms)
  | batch {m : Message} {results ms : List Message} (hr : m.role = .assistant)
      (htool : ∀ r ∈ results, r.role = .tool) (hids : results.map Message.toolCallId = m.callIds.map some)
      (h : CallsAnswered ms) : CallsAnswered (m :: (results ++ ms))

variable {ms ms' : List Message}

theorem CallsAnswered.append (h : CallsAnswered ms) (h' : CallsAnswered ms') : CallsAnswered (ms ++ ms') := by
  induction h with
  | nil => exact h'
  | plain hr hc _ ih => exact .plain hr hc ih
  | batch hr htool hids _ ih =>
    rw [List.cons_append, List.append_assoc]
    exact .batch hr htool hids ih

theorem answered_singleton {m : Message} (hr : m.role ≠ .tool) (hc : m.role = .assistant → m.calls = []) :
    CallsAnswered [m] := .plain hr hc .nil

theorem answered_assistant (reply : Str) : CallsAnswered [.assistant reply] :=
  answered_singleton (by simp [Message.assistant, Message.ofRole]) fun _ => rfl

/-! ## One iteration -/

theorem batchResults_ids (calls : List ToolCall) (outcomes : ℕ → ToolOutcome) :
    (batchResults calls outcomes).map Prod.fst = calls.map ToolCall.id := by
  apply List.ext_getElem?
  intro i
  rw [batchResults, List.getElem?_map, List.getElem?_mapIdx, List.getElem?_map, Option.map_map]
  rfl

/-- The assistant message of a batch with its results. -/
theorem answered_batchResults (content : Str) (calls : List ToolCall) (outcomes : ℕ → ToolOutcome) :
    CallsAnswered (.assistantWithTools content calls ::
      (batchResults calls outcomes).map fun r => .toolResult r.1 r.2.result) := by
  have hids : ((batchResults calls outcomes).map fun r => Message.toolResult r.1 r.2.result).map Message.toolCallId =
      (Message.assistantWithTools content calls).callIds.map some := by
    rw [List.map_map]
    show (batchResults calls outcomes).map (some ∘ Prod.fst) = (calls.map ToolCall.id).map some
    rw [← batchResults_ids calls outcomes, List.map_map]
  have htool : ∀ r ∈ (batchResults calls outcomes).map fun r => Message.toolResult r.1 r.2.result, r.role = .tool := by
    intro r hr
    obtain ⟨res, _, rfl⟩ := List.mem_map.mp hr
    rfl
  have h := CallsAnswered.batch (m := .assistantWithTools content calls) rfl htool hids .nil
  rwa [List.append_nil] at h

theorem LoopGuardAction.answered_message (verdict : LoopGuardAction) : CallsAnswered verdict.message.toList := by
  cases verdict
  case allow => exact .nil
  all_goals exact answered_singleton (by simp [Message.system, Message.ofRole]) fun _ => rfl

theorem checkLoopGuardOutcomes_answered : ∀ (verdicts : List (Option LoopGuardAction)) (ms : List Message),
    CallsAnswered ms → CallsAnswered (checkLoopGuardOutcomes ms verdicts).1 := by
  intro verdicts
  induction verdicts with
  | nil => intro ms h; exact h
  | cons verdict verdicts ih =>
    intro ms h
    cases verdict with
    | none => exact ih ms h
    | some verdict =>
      have hs := h.append verdict.answered_message
      rw [checkLoopGuardOutcomes]
      split
      · exact hs
      · exact ih _ hs

theorem guardBatch_answered (guard : Option (LoopGuardAction × (ℕ → Option LoopGuardAction))) (results : ℕ)
    (h : CallsAnswered ms) : CallsAnswered (guardBatch guard results ms).1 := by
  cases guard with
  | none => exact h
  | some guard =>
    have hcheck : CallsAnswered (checkLoopGuard guard.1 ms).1 := h.append guard.1.answered_message
    simp only [guardBatch]
    split
    · exact hcheck
    · have := checkLoopGuardOutcomes_answered ((List.range results).map guard.2) _ hcheck
      split <;> exact this

/-- The session at the end of an iteration. -/
def IterationEnd.session : IterationEnd → Option (List Message)
  | .done session _ | .next session _ => some session
  | .failed => none

/-- **Every way out of an iteration leaves calls and results paired.** -/
theorem iterate_answered (h : CallsAnswered ms) (response : LlmResponse) (input : IterationInput) :
    ∀ session, (iterate ms response input).session = some session → CallsAnswered session := by
  have hbatch : CallsAnswered (ms ++ [.assistantWithTools response.content (truncateBatch response.toolCalls input.remaining)] ++
      (batchResults (truncateBatch response.toolCalls input.remaining) input.outcomes).map
        fun r => .toolResult r.1 r.2.result) := by
    rw [List.append_assoc]
    exact h.append (answered_batchResults _ _ _)
  intro session hs
  rw [iterate] at hs
  by_cases hlimit : input.limitExceeded
  · rw [if_pos hlimit] at hs
    rwa [← Option.some.inj hs]
  rw [if_neg hlimit] at hs
  dsimp only at hs
  split at hs
  · rwa [← Option.some.inj hs]
  split at hs
  · -- the limit is reached
    split at hs
    · rwa [← Option.some.inj hs]
    · split at hs
      · cases hs
      · rwa [← Option.some.inj hs]
  · have hguard := guardBatch_answered input.guard
      (batchResults (truncateBatch response.toolCalls input.remaining) input.outcomes).length hbatch
    split at hs
    · rename_i heq
      rw [heq] at hguard
      rwa [← Option.some.inj hs]
    · rename_i heq
      rw [heq] at hguard
      split at hs
      · rwa [← Option.some.inj hs]
      · split at hs
        · cases hs
        · rwa [← Option.some.inj hs]

/-! ## The run -/

theorem toolLoop_answered (maxIterations : ℕ) : ∀ (inputs : List IterationInput) (iteration : ℕ) (ms : List Message)
    (response : LlmResponse), CallsAnswered ms →
      ∀ session reply, toolLoop maxIterations iteration ms response inputs = some (session, reply) → CallsAnswered session := by
  intro inputs
  induction inputs with
  | nil =>
    intro iteration ms response h session reply hs
    rw [toolLoop] at hs
    split at hs
    · cases hs
    · cases hs
      exact h
  | cons input inputs ih =>
    intro iteration ms response h session reply hs
    rw [toolLoop] at hs
    split at hs
    · have hiter := iterate_answered h response input
      split at hs
      · rename_i heq
        cases hs
        exact hiter _ (by rw [heq]; rfl)
      · cases hs
      · rename_i next answer heq
        exact ih _ _ _ (hiter next (by rw [heq]; rfl)) _ _ hs
    · cases hs
      exact h

theorem iterate_ne_failed (response : LlmResponse) {input : IterationInput} (h : input.answer.isSome) :
    iterate ms response input ≠ .failed := by
  obtain ⟨answer, hanswer⟩ := Option.isSome_iff_exists.mp h
  unfold iterate
  dsimp only
  rw [hanswer]
  split
  · exact nofun
  split
  · exact nofun
  split
  · split <;> exact nofun
  split
  · exact nofun
  · split <;> exact nofun

/-- The loop ends with a reply within `max_iterations`, if the provider does not fail. -/
theorem toolLoop_ends (maxIterations : ℕ) : ∀ (inputs : List IterationInput) (iteration : ℕ) (ms : List Message)
    (response : LlmResponse), maxIterations ≤ iteration + inputs.length → (∀ input ∈ inputs, input.answer.isSome) →
      (toolLoop maxIterations iteration ms response inputs).isSome := by
  intro inputs
  induction inputs with
  | nil =>
    intro iteration ms response hlen _
    have hstop : response.continues maxIterations iteration = false := by
      rw [LlmResponse.continues, decide_eq_false (by rw [List.length_nil] at hlen; omega), Bool.and_false]
    rw [toolLoop, hstop]
    rfl
  | cons input inputs ih =>
    intro iteration ms response hlen hanswers
    rw [toolLoop]
    split
    · split
      · rfl
      · rename_i heq
        exact absurd heq (iterate_ne_failed response (hanswers input List.mem_cons_self))
      · rename_i next answer _
        refine ih (iteration + 1) next answer ?_ fun later hlater => hanswers later (List.mem_cons_of_mem _ hlater)
        rw [List.length_cons] at hlen
        omega
    · rfl

/-- **The session that a run saves is paired**, if the session it starts from is. -/
theorem savedSession_answered (autoRepair : Bool) (maxIterations : ℕ) (source : SessionSource) (content : Str)
    (images : List ContentPart) (first : FirstAnswer) (inputs : List IterationInput)
    (h : CallsAnswered (source.load autoRepair)) :
    ∀ saved, savedSession autoRepair maxIterations source content images first inputs = some saved → CallsAnswered saved := by
  have huser : CallsAnswered (source.load autoRepair ++ [userMessage content images]) :=
    h.append (answered_singleton (by simp [userMessage, Message.user, Message.ofRole]) fun _ => rfl)
  intro saved hs
  unfold savedSession at hs
  cases first with
  | failed => cases hs
  | cacheHit reply =>
    rw [← Option.some.inj hs]
    exact huser.append (answered_assistant reply)
  | response r =>
    dsimp only at hs
    split at hs
    · cases hs
    · rename_i session reply heq
      rw [← Option.some.inj hs]
      exact (toolLoop_answered maxIterations inputs 0 _ r huser session reply heq).append (answered_assistant reply)

/-- Two calls, of which the limit leaves one. -/
def twoCalls : LlmResponse :=
  ⟨"on it".toList, [⟨"a".toList, "shell".toList, []⟩, ⟨"b".toList, "shell".toList, []⟩]⟩

/-- The guard warns, and the provider answers. -/
def warnedIteration : IterationInput where
  limitExceeded := false
  remaining := some 1
  limitReached := false
  outcomes := fun _ => ⟨"ok".toList, false⟩
  guard := some (.warn "again".toList none, fun _ => none)
  budgetExceeded := false
  answer := some ⟨"done".toList, []⟩

theorem savedSession_answered_warned :
    ∃ saved, savedSession true 5 (.cached [.user "hi".toList]) "go on".toList [] (.response twoCalls)
        [warnedIteration] = some saved ∧ saved.length = 6 ∧ CallsAnswered saved := by
  have hstart : CallsAnswered (SessionSource.load true (.cached [.user "hi".toList])) :=
    answered_singleton (by decide) fun _ => rfl
  have hsaved := savedSession_answered true 5 (.cached [.user "hi".toList]) "go on".toList [] (.response twoCalls)
    [warnedIteration] hstart
  exact ⟨_, rfl, rfl, hsaved _ rfl⟩

end Zeptoclaw

import Zeptoclaw.Proof.Acp
import Zeptoclaw.Proof.AcpHttp

/-!
# Prompts of the ACP channels and the interceptor of the bus

`acp_pendingQueued_iff`: in every state of a run every prompt that was published and is still pending
is in the queue of the bus, exactly if the interceptor never consumes the prompt of a session that is
pending. The channels call `publish_inbound`, which reports a consumed message like a queued one.
-/

namespace Zeptoclaw

/-! ## The channel over standard input -/

namespace AcpChannel

variable {cfg : AcpChannelConfig} {parse : AcpParse} {c c' : AcpChannel}

/-- A prompt that is pending and does not wait for the bus has its message in the queue. -/
def PendingQueued (c : AcpChannel) : Prop :=
  ∀ sessionId p, c.state.pending.lookup sessionId = some p → (∀ q, c.publishing = some q → q.number ≠ p.number) →
    ∃ msg, (p.number, msg) ∈ c.queue

/-- The interceptor does not consume the message of a prompt that is pending. -/
def NotIntercepted (c : AcpChannel) : AcpEvent → Prop
  | .published bus => ∀ q, c.publishing = some q → c.state.pending.lookup q.sessionId ≠ none → bus.consumes q.inbound = false
  | _ => True

/-- Nothing happens to the queue, and no prompt is accepted or published. -/
structure Outside (c c' : AcpChannel) : Prop where
  queue : c'.queue = c.queue
  publishing : c'.publishing = c.publishing
  accepted : c'.accepted = c.accepted

theorem Outside.refl (c : AcpChannel) : Outside c c := ⟨rfl, rfl, rfl⟩

theorem Outside.trans {d : AcpChannel} (h : Outside c c') (h' : Outside c' d) : Outside c d :=
  ⟨h'.queue.trans h.queue, h'.publishing.trans h.publishing, h'.accepted.trans h.accepted⟩

theorem outside_respondIfRequest (c : AcpChannel) (id : Option Json) (reply : AcpReply) :
    Outside c (c.respondIfRequest id reply) := by
  cases id with
  | none => exact .refl c
  | some id => exact ⟨rfl, rfl, rfl⟩

theorem outside_handleSessionNew (c : AcpChannel) (id params : Option Json) (now : ℕ) (newId : Str) :
    Outside c (c.handleSessionNew cfg parse id params now newId) := by
  unfold handleSessionNew
  split
  · exact ⟨rfl, rfl, rfl⟩
  · dsimp only
    split
    · exact ⟨rfl, rfl, rfl⟩
    · exact ⟨rfl, rfl, rfl⟩

theorem outside_handleSessionCancel (c : AcpChannel) (id params : Option Json) :
    Outside c (c.handleSessionCancel cfg parse id params) := by
  unfold handleSessionCancel
  split
  · exact outside_respondIfRequest c id _
  · split
    · exact outside_respondIfRequest c id _
    · have hmarked (sessionId : Str) : Outside c { c with state := markCancelled c.state sessionId } := ⟨rfl, rfl, rfl⟩
      exact (hmarked _).trans (outside_respondIfRequest _ id _)

theorem outside_handleSessionList (c : AcpChannel) (id params : Option Json) :
    Outside c (c.handleSessionList cfg parse id params) := by
  unfold handleSessionList
  split
  · exact ⟨rfl, rfl, rfl⟩
  · split
    · exact ⟨rfl, rfl, rfl⟩
    · split
      · exact ⟨rfl, rfl, rfl⟩
      · exact ⟨rfl, rfl, rfl⟩

theorem outside_sendChunk (c : AcpChannel) (sessionId content : Str) (now : ℕ) : Outside c (c.sendChunk sessionId content now) := by
  unfold sendChunk
  split
  · exact ⟨rfl, rfl, rfl⟩
  · exact .refl c

theorem outside_sendChunkEnd (c : AcpChannel) (sessionId : Str) : Outside c (c.sendChunkEnd sessionId) := by
  unfold sendChunkEnd
  split
  · split
    · exact .refl c
    · exact ⟨rfl, rfl, rfl⟩
  · exact .refl c

theorem outside_sendCustom (parse : AcpParse) (c : AcpChannel) (msg : OutboundMessage) (now : ℕ) :
    Outside c (c.sendCustom parse msg now).2 := by
  unfold sendCustom
  split
  · exact .refl c
  · split
    · exact .refl c
    · split
      · exact ⟨rfl, rfl, rfl⟩
      · exact .refl c

theorem outside_sendFull (c : AcpChannel) (msg : OutboundMessage) : Outside c (c.sendFull msg) := by
  unfold sendFull
  dsimp only
  split
  · exact ⟨rfl, rfl, rfl⟩
  · split
    · exact ⟨rfl, rfl, rfl⟩
    · split
      · exact ⟨rfl, rfl, rfl⟩
      · exact ⟨rfl, rfl, rfl⟩

theorem outside_send (c : AcpChannel) (msg : OutboundMessage) (now : ℕ) : Outside c (c.send parse msg now) := by
  unfold send
  split
  · exact .refl c
  · split
    · exact outside_sendChunk c _ _ now
    · exact outside_sendChunkEnd c _
    · have hcustom := outside_sendCustom parse c msg now
      split
      · next d heq =>
        rw [heq] at hcustom
        exact hcustom
      · next d heq =>
        rw [heq] at hcustom
        split
        · exact hcustom
        · exact hcustom.trans (outside_sendChunk d _ _ now)
    · split
      · exact outside_sendChunk c _ _ now
      · exact outside_sendFull c msg

/-- A prompt is accepted, and its message goes to the bus. -/
structure AcceptsNext (c c' : AcpChannel) : Prop where
  idle : c.publishing = none
  queue : c'.queue = c.queue
  publishing : ∃ q, c'.publishing = some q ∧ q.number = c.accepted.length
  accepted : c'.accepted.length = c.accepted.length + 1

theorem handleSessionPrompt_cases (hidle : c.publishing = none) (id : Json) (params : Option Json) (now : ℕ) :
    Outside c (c.handleSessionPrompt cfg parse id params now) ∨ AcceptsNext c (c.handleSessionPrompt cfg parse id params now) := by
  unfold handleSessionPrompt
  split
  · exact .inl ⟨rfl, rfl, rfl⟩
  · split
    · exact .inl ⟨rfl, rfl, rfl⟩
    · dsimp only
      split
      · exact .inl ⟨rfl, rfl, rfl⟩
      · exact .inr ⟨hidle, rfl, ⟨_, rfl, rfl⟩, List.length_append⟩

theorem handleLine_cases (hidle : c.publishing = none) (line : Line) (now : ℕ) (newId : Str) :
    Outside c (c.handleLine cfg parse line now newId) ∨ AcceptsNext c (c.handleLine cfg parse line now newId) := by
  unfold handleLine
  split
  · exact .inl (.refl c)
  · exact .inl ⟨rfl, rfl, rfl⟩
  · exact .inl ⟨rfl, rfl, rfl⟩
  · exact .inl (.refl c)
  · exact .inl ⟨rfl, rfl, rfl⟩
  · exact .inl ⟨rfl, rfl, rfl⟩
  · exact .inl (outside_handleSessionNew c _ _ now newId)
  · exact handleSessionPrompt_cases hidle _ _ now
  · exact .inl (outside_handleSessionCancel c _ _)
  · exact .inl (outside_handleSessionList c _ _)

/-- What an event does to the queue if it is not an answer of the bus. -/
theorem step_outside (cfg : AcpChannelConfig) (parse : AcpParse) (c : AcpChannel) (ev : AcpEvent) (h : ∀ bus, ev ≠ .published bus) :
    Outside c (c.step cfg parse ev) ∨ AcceptsNext c (c.step cfg parse ev) := by
  cases ev with
  | line text now newId =>
    simp only [step]
    split
    · next hreads => exact handleLine_cases (idle_of_reads hreads) _ now newId
    · exact .inl (.refl c)
  | published bus => exact absurd rfl (h bus)
  | outbound msg now => exact .inl (outside_send c msg now)
  | endOfInput =>
    simp only [step]
    split
    · exact .inl ⟨rfl, rfl, rfl⟩
    · exact .inl (.refl c)

/-- A prompt that is pending after an event was pending before, or is the one that was accepted. -/
theorem step_lookup (hc : c.Consistent) (ev : AcpEvent) {sessionId : Str} {p : PendingPrompt}
    (hp : (c.step cfg parse ev).state.pending.lookup sessionId = some p) :
    (∃ q, c.state.pending.lookup sessionId = some q ∧ q.number = p.number) ∨
      (p.number = c.accepted.length ∧ (c.step cfg parse ev).accepted.length = c.accepted.length + 1) := by
  rcases step_cases cfg parse hc ev with ⟨-, hkeeps⟩ | ⟨-, hbreaks⟩
  · cases hkeeps with
    | quiet h =>
      obtain ⟨q, hq, -, hnumber⟩ := h.lookup hp
      exact .inl ⟨q, hq, hnumber⟩
    | completes sid q h => exact .inl ⟨p, (h.lookup hp).2, rfl⟩
    | accepts sid id h =>
      rcases h.lookup hp with ⟨-, rfl⟩ | ⟨-, hold⟩
      · refine .inr ⟨rfl, ?_⟩
        rw [h.accepted, List.length_append, List.length_singleton]
      · exact .inl ⟨p, hold, rfl⟩
    | drains h =>
      rw [h.pending] at hp
      cases hp
  · cases hbreaks with
    | drops sid h => exact .inl ⟨p, (h.kept sessionId p hp).1, rfl⟩
    | repeats q h =>
      rw [h.pending] at hp
      exact .inl ⟨p, hp, rfl⟩

/-- What the bus and the channel do with a message that was published. -/
inductive FinishesPublish (q : Publishing) (bus : BusState) (c c' : AcpChannel) : Prop where
  | consumed (h : bus.consumes q.inbound = true) (queue : c'.queue = c.queue) (pending : c'.state.pending = c.state.pending)
  | failed (h : bus.consumes q.inbound = false) (queue : c'.queue = c.queue)
      (pending : c'.state.pending = c.state.pending.erase q.sessionId)
  | queued (h : bus.consumes q.inbound = false) (queue : c'.queue = c.queue ++ [(q.number, q.inbound)])
      (pending : c'.state.pending = c.state.pending)

theorem finishPublish_cases (c : AcpChannel) (q : Publishing) (bus : BusState) :
    (c.finishPublish q bus).publishing = none ∧ (c.finishPublish q bus).accepted = c.accepted ∧
      FinishesPublish q bus c (c.finishPublish q bus) := by
  have hpublishes := bus.publishes_publishInbound q.number q.inbound c.queue
  unfold finishPublish
  cases hbus : bus.publishInbound q.number q.inbound c.queue with
  | mk result queue =>
    rw [hbus] at hpublishes
    cases hpublishes with
    | consumed h => exact ⟨rfl, rfl, .consumed h rfl rfl⟩
    | failed h _ => exact ⟨rfl, rfl, .failed h rfl rfl⟩
    | queued h _ => exact ⟨rfl, rfl, .queued h rfl rfl⟩

/-- The queue has messages of accepted prompts, and not that of the prompt that waits for the bus. -/
structure Fresh (c : AcpChannel) : Prop where
  queue : ∀ e ∈ c.queue, e.1 < c.accepted.length
  publishing : ∀ q, c.publishing = some q → ∀ e ∈ c.queue, e.1 ≠ q.number

theorem step_fresh (c : AcpChannel) (ev : AcpEvent) (hc : c.Consistent) (hf : c.Fresh) : (c.step cfg parse ev).Fresh := by
  by_cases hev : ∃ bus, ev = .published bus
  · obtain ⟨bus, rfl⟩ := hev
    simp only [step]
    cases hq : c.publishing with
    | none => exact hf
    | some q =>
      obtain ⟨hnone, haccepted, hfinish⟩ := finishPublish_cases c q bus
      refine ⟨fun e he => ?_, fun q' hq' => ?_⟩
      · rw [haccepted]
        cases hfinish with
        | consumed _ hqueue _ => exact hf.queue e (hqueue ▸ he)
        | failed _ hqueue _ => exact hf.queue e (hqueue ▸ he)
        | queued _ hqueue _ =>
          rw [hqueue, List.mem_append, List.mem_singleton] at he
          rcases he with hold | rfl
          · exact hf.queue e hold
          · exact (List.getElem?_eq_some_iff.mp (hc.publishing q hq).1).1
      · rw [hnone] at hq'
        cases hq'
  · rcases step_outside cfg parse c ev (fun bus heq => hev ⟨bus, heq⟩) with h | h
    · refine ⟨?_, ?_⟩
      · rw [h.queue, h.accepted]
        exact hf.queue
      · rw [h.queue, h.publishing]
        exact hf.publishing
    · obtain ⟨q, hq, hnumber⟩ := h.publishing
      refine ⟨fun e he => ?_, fun q' hq' e he => ?_⟩
      · rw [h.queue] at he
        have hlt := hf.queue e he
        rw [h.accepted]
        omega
      · rw [h.queue] at he
        rw [hq] at hq'
        cases hq'
        have hlt := hf.queue e he
        omega

theorem pendingQueued_outside (hc : c.Consistent) (hq : c.PendingQueued) (ev : AcpEvent)
    (hev : ∀ bus, ev ≠ .published bus) : (c.step cfg parse ev).PendingQueued := by
  intro sessionId p hp hother
  rcases step_outside cfg parse c ev hev with h | h
  · rcases step_lookup hc ev hp with ⟨q, hold, hnumber⟩ | ⟨-, hgrows⟩
    · rw [h.publishing] at hother
      rw [h.queue, ← hnumber]
      exact hq sessionId q hold (hnumber ▸ hother)
    · rw [h.accepted] at hgrows
      omega
  · rcases step_lookup hc ev hp with ⟨q, hold, hnumber⟩ | ⟨hnew, -⟩
    · rw [h.queue, ← hnumber]
      refine hq sessionId q hold fun q' hq' => ?_
      rw [h.idle] at hq'
      cases hq'
    · obtain ⟨q, hpublishing, hnumber⟩ := h.publishing
      exact absurd (hnumber.trans hnew.symm) (hother q hpublishing)

/-- The entry of the prompt that waits for the bus is that of its own session. -/
theorem Consistent.session_publishing (hc : c.Consistent) {q : Publishing} (hq : c.publishing = some q) {sessionId : Str}
    {p : PendingPrompt} (hp : c.state.pending.lookup sessionId = some p) (hnumber : q.number = p.number) :
    sessionId = q.sessionId := by
  have haccepted := hc.pending sessionId p hp
  rw [← hnumber, (hc.publishing q hq).1] at haccepted
  exact (congrArg AcceptedPrompt.sessionId (Option.some.inj haccepted)).symm

/-- The message of a pending prompt is not consumed: then it is queued, or the prompt is not pending any more. -/
theorem pendingQueued_finishPublish (hc : c.Consistent) (hqueued : c.PendingQueued) {q : Publishing}
    (hq : c.publishing = some q) {bus : BusState}
    (hcond : c.state.pending.lookup q.sessionId ≠ none → bus.consumes q.inbound = false) :
    (c.finishPublish q bus).PendingQueued := by
  obtain ⟨-, -, hfinish⟩ := finishPublish_cases c q bus
  intro sessionId p hp _
  -- what was pending before is queued, unless it is this prompt
  have hold : c.state.pending.lookup sessionId = some p → q.number ≠ p.number → ∃ msg, (p.number, msg) ∈ c.queue := by
    intro hbefore hne
    refine hqueued sessionId p hbefore fun q' hq' => ?_
    rw [hq] at hq'
    cases hq'
    exact hne
  cases hfinish with
  | consumed h hqueue hpending =>
    rw [hpending] at hp
    rw [hqueue]
    refine hold hp fun hnumber => ?_
    rw [hc.session_publishing hq hp hnumber] at hp
    rw [hcond (hp ▸ Option.some_ne_none p)] at h
    cases h
  | failed _ hqueue hpending =>
    rw [hpending, Assoc.lookup_erase] at hp
    rw [hqueue]
    split at hp
    · cases hp
    · next hne => exact hold hp fun hnumber => hne (hc.session_publishing hq hp hnumber)
  | queued _ hqueue hpending =>
    rw [hqueue]
    by_cases hnumber : q.number = p.number
    · exact ⟨q.inbound, List.mem_append_right _ (hnumber ▸ List.mem_cons_self)⟩
    · obtain ⟨msg, hmsg⟩ := hold (hpending ▸ hp) hnumber
      exact ⟨msg, List.mem_append_left _ hmsg⟩

/-- A prompt that is pending after it was published has not been consumed. -/
theorem not_consumed_of_finishPublish (hc : c.Consistent) (hf : c.Fresh) {q : Publishing} (hq : c.publishing = some q)
    {bus : BusState} (hafter : (c.finishPublish q bus).PendingQueued) (hpresent : c.state.pending.lookup q.sessionId ≠ none) :
    bus.consumes q.inbound = false := by
  obtain ⟨hnone, -, hfinish⟩ := finishPublish_cases c q bus
  obtain ⟨p, hp⟩ := Option.ne_none_iff_exists'.mp hpresent
  cases hfinish with
  | consumed _ hqueue hpending =>
    have hidle : ∀ q', (c.finishPublish q bus).publishing = some q' → q'.number ≠ p.number := by
      intro q' hq'
      rw [hnone] at hq'
      cases hq'
    obtain ⟨msg, hmsg⟩ := hafter q.sessionId p (hpending ▸ hp) hidle
    rw [hqueue] at hmsg
    exact absurd ((hc.publishing q hq).2 p hp) (hf.publishing q hq _ hmsg)
  | failed h _ _ => exact h
  | queued h _ _ => exact h

/-- **Exactly the events with which the interceptor consumes no pending prompt keep the pending ones in the queue.** -/
theorem notIntercepted_iff_step (c : AcpChannel) (ev : AcpEvent) (hqueued : c.PendingQueued) (hinv : c.Consistent ∧ c.Fresh) :
    c.NotIntercepted ev ↔ (c.step cfg parse ev).PendingQueued := by
  obtain ⟨hc, hf⟩ := hinv
  cases ev with
  | line text now newId => exact ⟨fun _ => pendingQueued_outside hc hqueued _ (by rintro _ ⟨⟩), fun _ => trivial⟩
  | outbound msg now => exact ⟨fun _ => pendingQueued_outside hc hqueued _ (by rintro _ ⟨⟩), fun _ => trivial⟩
  | endOfInput => exact ⟨fun _ => pendingQueued_outside hc hqueued _ (by rintro _ ⟨⟩), fun _ => trivial⟩
  | published bus =>
    simp only [step, NotIntercepted]
    cases hq : c.publishing with
    | none => exact ⟨fun _ => hqueued, by rintro _ _ ⟨⟩⟩
    | some q =>
      refine ⟨fun hcond => pendingQueued_finishPublish hc hqueued hq (hcond q rfl), fun hafter q' hq' => ?_⟩
      cases hq'
      exact not_consumed_of_finishPublish hc hf hq hafter

theorem fresh_run (cfg : AcpChannelConfig) (parse : AcpParse) (events : List AcpEvent) :
    (runSteps (step cfg parse) {} events).Consistent ∧ (runSteps (step cfg parse) {} events).Fresh := by
  have hstep : ∀ (c : AcpChannel) (ev : AcpEvent), c.Consistent ∧ c.Fresh →
      (c.step cfg parse ev).Consistent ∧ (c.step cfg parse ev).Fresh :=
    fun c ev hinv => ⟨step_consistent c ev hinv.1, step_fresh c ev hinv.1 hinv.2⟩
  exact run_preserves hstep events {} ⟨consistent_new, fun _ h => (nomatch h), fun _ h => (nomatch h)⟩

/-- In every state of a run the pending prompts are queued, exactly if none is intercepted. -/
theorem pendingQueued_run_iff (cfg : AcpChannelConfig) (parse : AcpParse) (events : List AcpEvent) :
    (∀ before after, events = before ++ after → (runSteps (step cfg parse) {} before).PendingQueued) ↔
      StepsMeet (step cfg parse) NotIntercepted {} events := by
  have hstart : ({} : AcpChannel).PendingQueued := fun _ _ h => nomatch h
  have hinv : StepsMeet (step cfg parse) (fun c _ => c.Consistent ∧ c.Fresh) {} events :=
    stepsMeet_iff.mpr fun before _ _ _ => fresh_run cfg parse before
  exact (stepsMeet_iff_invariant_of notIntercepted_iff_step hstart hinv).symm

end AcpChannel

/-! ## The channel over HTTP -/

/-- The prompt is not published yet. -/
def HandlerPhase.isEarly : HandlerPhase → Bool
  | .pendingInserted | .senderInserted => true
  | .published | .waiting | .leaving _ | .leftPending _ | .done => false

theorem HandlerPhase.isEarly_of_isPublished {phase : HandlerPhase} (h : phase.isPublished = true) : phase.isEarly = false := by
  cases phase <;> first | rfl | cases h

theorem HandlerPhase.isPublished_of_not_holds {phase : HandlerPhase} (h : phase.holds = false) : phase.isPublished = false := by
  cases phase <;> first | rfl | cases h

theorem HandlerPhase.isEarly_of_not_holds {phase : HandlerPhase} (h : phase.holds = false) : phase.isEarly = false := by
  cases phase <;> first | rfl | cases h

namespace AcpHttpChannel

variable {base : BaseChannelConfig} {parse : AcpParse} {s s' : AcpHttpChannel} {ev : AcpHttpEvent}

/-- A prompt that was published and has the entry of its session in `pending` has its message in the queue. -/
def PendingQueued (s : AcpHttpChannel) : Prop :=
  ∀ (i : ℕ) (h : AcpHandler), s.handlers[i]? = some h → h.phase.isPublished = true → s.owner h.sessionId = some i →
    (i, h.inbound) ∈ s.queue

/-- The interceptor does not consume the message of the prompt. -/
def NotIntercepted (s : AcpHttpChannel) : AcpHttpEvent → Prop
  | .publish i bus => ∀ (h : AcpHandler), s.handlers[i]? = some h → h.phase = .senderInserted → bus.consumes h.inbound = false
  | _ => True

/-- The queue has messages of prompts that were published. -/
structure Fresh (s : AcpHttpChannel) : Prop where
  queue : ∀ e ∈ s.queue, e.1 < s.handlers.length
  early : ∀ (i : ℕ) (h : AcpHandler), s.handlers[i]? = some h → h.phase.isEarly = true → ∀ e ∈ s.queue, e.1 ≠ i

theorem Fresh.set (hf : s.Fresh) {i : ℕ} {h h' : AcpHandler} (hi : s.handlers[i]? = some h)
    (hset : s'.handlers = s.handlers.set i h') (hearly : h'.phase.isEarly = true → h.phase.isEarly = true)
    (hqueue : s'.queue = s.queue) : s'.Fresh := by
  constructor
  · rw [hset, hqueue, List.length_set]
    exact hf.queue
  · intro j k hj hk
    rw [hqueue]
    rcases handler_set hi hset hj with ⟨rfl, rfl⟩ | ⟨-, hold⟩
    · exact hf.early j h hi (hearly hk)
    · exact hf.early j k hold hk

/-- A message is put into the queue by a handler that is published then. -/
theorem Fresh.publishes (hf : s.Fresh) {i : ℕ} {h h' : AcpHandler} (hi : s.handlers[i]? = some h)
    (hset : s'.handlers = s.handlers.set i h') (hearly : h'.phase.isEarly = false) {msg : InboundMessage}
    (hqueue : s'.queue = s.queue ++ [(i, msg)]) : s'.Fresh := by
  constructor
  · intro e he
    rw [hqueue, List.mem_append, List.mem_singleton] at he
    rw [hset, List.length_set]
    rcases he with hold | rfl
    · exact hf.queue e hold
    · exact (List.getElem?_eq_some_iff.mp hi).1
  · intro j k hj hk e he
    rw [hqueue, List.mem_append, List.mem_singleton] at he
    rcases handler_set hi hset hj with ⟨rfl, rfl⟩ | ⟨hne, hold⟩
    · rw [hearly] at hk
      cases hk
    · rcases he with he | rfl
      · exact hf.early j k hold hk e he
      · exact Ne.symm hne

theorem Fresh.accepts (hf : s.Fresh) {h : AcpHandler} (hadd : s'.handlers = s.handlers ++ [h]) (hqueue : s'.queue = s.queue) :
    s'.Fresh := by
  constructor
  · intro e he
    rw [hqueue] at he
    rw [hadd, List.length_append]
    exact Nat.lt_add_right _ (hf.queue e he)
  · intro j k hj hk e he
    rw [hqueue] at he
    rcases handler_concat hadd hj with ⟨rfl, rfl⟩ | hold
    · exact Nat.ne_of_lt (hf.queue e he)
    · exact hf.early j k hold hk e he

theorem Effect.fresh (heffect : Effect ev s s') (hf : s.Fresh) : s'.Fresh := by
  cases heffect with
  | idle _ handlers queue =>
    refine ⟨?_, ?_⟩
    · rw [handlers, queue]
      exact hf.queue
    · rw [handlers, queue]
      exact hf.early
  | goesOn i h h' hi go _ handlers queue =>
    refine hf.set hi handlers (fun hearly => ?_) queue
    cases go with
    | published _ _ phase' =>
      rw [HandlerPhase.isEarly_of_isPublished phase'] at hearly
      cases hearly
    | samePhase _ phase => rw [← phase]; exact hearly
  | accepts h _ _ _ handlers _ _ queue => exact hf.accepts handlers queue
  | inserts i h h' hi phase _ _ handlers _ _ queue => exact hf.set hi handlers (fun _ => by rw [phase]; rfl) queue
  | publishes i bus h h' _ hi phase _ _ handlers result phase' publishes =>
    generalize hqueue : s'.queue = queue at publishes
    cases publishes with
    | consumed _ => exact hf.set hi handlers (fun _ => by rw [phase]; rfl) hqueue
    | failed _ _ => exact hf.set hi handlers (fun _ => by rw [phase]; rfl) hqueue
    | queued _ _ => exact hf.publishes hi handlers (by rw [phase']; rfl) hqueue
  | leaves i h h' hi _ phase' _ handlers _ _ queue =>
    refine hf.set hi handlers (fun hearly => ?_) queue
    rw [HandlerPhase.isEarly_of_not_holds phase'] at hearly
    cases hearly
  | removes i h h' _ hi _ phase' _ handlers _ _ queue =>
    refine hf.set hi handlers (fun hearly => ?_) queue
    rw [phase'] at hearly
    cases hearly

theorem PendingQueued.set (hq : s.PendingQueued) {i : ℕ} {h h' : AcpHandler} (hi : s.handlers[i]? = some h)
    (hset : s'.handlers = s.handlers.set i h') (same : SamePrompt h h')
    (hpublished : h'.phase.isPublished = true → h.phase.isPublished = true)
    (howner : ∀ sessionId j, s'.owner sessionId = some j → s.owner sessionId = some j) (hqueue : s'.queue = s.queue) :
    s'.PendingQueued := by
  intro j k hj hk hown
  rw [hqueue]
  rcases handler_set hi hset hj with ⟨rfl, rfl⟩ | ⟨-, hold⟩
  · rw [same.inbound]
    exact hq j h hi (hpublished hk) (same.sessionId ▸ howner _ _ hown)
  · exact hq j k hold hk (howner _ _ hown)

theorem PendingQueued.publishes (hq : s.PendingQueued) {i : ℕ} {h h' : AcpHandler} (hi : s.handlers[i]? = some h)
    (hset : s'.handlers = s.handlers.set i h') (same : SamePrompt h h')
    (howner : ∀ sessionId, s'.owner sessionId = s.owner sessionId) (hqueue : s'.queue = s.queue ++ [(i, h.inbound)]) :
    s'.PendingQueued := by
  intro j k hj hk hown
  rw [hqueue, List.mem_append]
  rcases handler_set hi hset hj with ⟨rfl, rfl⟩ | ⟨-, hold⟩
  · rw [same.inbound]
    exact .inr List.mem_cons_self
  · rw [howner] at hown
    exact .inl (hq j k hold hk hown)

theorem PendingQueued.accepts (hq : s.PendingQueued) {h : AcpHandler} (hphase : h.phase = .pendingInserted)
    (hadd : s'.handlers = s.handlers ++ [h])
    (howner : ∀ sessionId, s'.owner sessionId = if sessionId = h.sessionId then some s.handlers.length else s.owner sessionId)
    (hqueue : s'.queue = s.queue) : s'.PendingQueued := by
  intro j k hj hk hown
  rw [hqueue]
  rcases handler_concat hadd hj with ⟨rfl, rfl⟩ | hold
  · rw [hphase] at hk
    cases hk
  · rw [howner] at hown
    split at hown
    · have hlt := (List.getElem?_eq_some_iff.mp hold).1
      cases hown
      omega
    · exact hq j k hold hk hown

/-- A step with which the interceptor consumes no prompt keeps the pending ones in the queue. -/
theorem Effect.pendingQueued (heffect : Effect ev s s') (hq : s.PendingQueued) (hcond : s.NotIntercepted ev) : s'.PendingQueued := by
  cases heffect with
  | idle maps handlers queue =>
    intro i h hi hh hown
    rw [handlers] at hi
    rw [maps.owner] at hown
    rw [queue]
    exact hq i h hi hh hown
  | goesOn i h h' hi go maps handlers queue =>
    refine hq.set hi handlers go.same (fun hh => ?_) (fun sid j hj => by rw [← maps.owner sid]; exact hj) queue
    cases go with
    | published _ phase _ => exact phase
    | samePhase _ phase => rw [← phase]; exact hh
  | accepts h _ phase _ handlers owner _ queue => exact hq.accepts phase handlers owner queue
  | inserts i h h' hi _ phase' same handlers owner _ queue =>
    refine hq.set hi handlers same (fun hh => ?_) (fun sid j hj => by rw [← owner sid]; exact hj) queue
    rw [phase'] at hh
    cases hh
  | publishes i bus h h' event hi phase same maps handlers result phase' publishes =>
    have howner : ∀ sid j, s'.owner sid = some j → s.owner sid = some j := fun sid j hj => by rw [← maps.owner sid]; exact hj
    generalize hqueue : s'.queue = queue at publishes
    cases publishes with
    | consumed hconsumes =>
      rw [event] at hcond
      rw [hcond h hi phase] at hconsumes
      cases hconsumes
    | failed _ _ =>
      refine hq.set hi handlers same (fun hh => ?_) howner hqueue
      rw [phase'] at hh
      cases hh
    | queued _ _ => exact hq.publishes hi handlers same maps.owner hqueue
  | leaves i h h' hi _ phase' same handlers owner _ queue =>
    refine hq.set hi handlers same (fun hh => ?_) (fun sid j hj => ?_) queue
    · rw [HandlerPhase.isPublished_of_not_holds phase'] at hh
      cases hh
    · rw [owner] at hj
      split at hj
      · cases hj
      · exact hj
  | removes i h h' _ hi _ phase' same handlers owner _ queue =>
    refine hq.set hi handlers same (fun hh => ?_) (fun sid j hj => by rw [← owner sid]; exact hj) queue
    rw [phase'] at hh
    cases hh

/-- A prompt that is consumed is published, and its message is not queued. -/
theorem publish_consumed {i : ℕ} {bus : BusState} {h : AcpHandler} (hi : s.handlers[i]? = some h)
    (hphase : h.phase = .senderInserted) (hconsumes : bus.consumes h.inbound = true) :
    s.publish i bus = s.setHandler i { h with phase := .published } := by
  unfold publish atPhase BusState.publishInbound BusState.publishInboundWithStatus
  rw [hi]
  dsimp only
  rw [if_pos hphase, if_pos hconsumes]
  rfl

/-- **Exactly the steps with which the interceptor consumes no prompt keep the pending ones in the queue.** -/
theorem notIntercepted_iff_step (s : AcpHttpChannel) (ev : AcpHttpEvent) (hq : s.PendingQueued) (hinv : s.Consistent ∧ s.Fresh) :
    s.NotIntercepted ev ↔ (s.step base parse ev).PendingQueued := by
  refine ⟨(step_effect s ev).pendingQueued hq, fun hafter => ?_⟩
  cases ev with
  | publish i bus =>
    intro h hi hphase
    by_contra hconsumes
    rw [Bool.not_eq_false] at hconsumes
    -- the handler is published, and its message is not in the queue
    simp only [step, publish_consumed hi hphase hconsumes] at hafter
    have hlt := (List.getElem?_eq_some_iff.mp hi).1
    have howned := hinv.1.owned i h hi (by rw [hphase]; rfl)
    have hmem := hafter i { h with phase := .published } (List.getElem?_set_self hlt) rfl howned
    exact hinv.2.early i h hi (by rw [hphase]; rfl) _ hmem rfl
  | _ => trivial

theorem fresh_run (base : BaseChannelConfig) (parse : AcpParse) (sessions : List Str) (events : List AcpHttpEvent) :
    (runSteps (step base parse) { sessions } events).Consistent ∧ (runSteps (step base parse) { sessions } events).Fresh := by
  have hstep : ∀ (s : AcpHttpChannel) (ev : AcpHttpEvent), s.Consistent ∧ s.Fresh →
      (s.step base parse ev).Consistent ∧ (s.step base parse ev).Fresh :=
    fun s ev hinv => ⟨step_consistent s ev hinv.1, (step_effect s ev).fresh hinv.2⟩
  exact run_preserves hstep events { sessions } ⟨consistent_start sessions, fun _ h => (nomatch h), fun _ _ h => (nomatch h)⟩

/-- In every state of a run the pending prompts are queued, exactly if none is intercepted. -/
theorem pendingQueued_run_iff (base : BaseChannelConfig) (parse : AcpParse) (sessions : List Str) (events : List AcpHttpEvent) :
    (∀ before after, events = before ++ after → (runSteps (step base parse) { sessions } before).PendingQueued) ↔
      StepsMeet (step base parse) NotIntercepted { sessions } events := by
  have hstart : ({ sessions } : AcpHttpChannel).PendingQueued := fun _ _ h => nomatch h
  have hinv : StepsMeet (step base parse) (fun s _ => s.Consistent ∧ s.Fresh) { sessions } events :=
    stepsMeet_iff.mpr fun before _ _ _ => fresh_run base parse sessions before
  exact (stepsMeet_iff_invariant_of notIntercepted_iff_step hstart hinv).symm

end AcpHttpChannel

/-- **In every state of a run of either channel every prompt that was published and is pending is in the
queue of the bus, exactly if the interceptor consumes no prompt that is pending.** -/
theorem acp_pendingQueued_iff (cfg : AcpChannelConfig) (parse : AcpParse) (events : List AcpEvent) (base : BaseChannelConfig)
    (sessions : List Str) (httpEvents : List AcpHttpEvent) :
    ((∀ before after, events = before ++ after → (runSteps (AcpChannel.step cfg parse) {} before).PendingQueued) ↔
      StepsMeet (AcpChannel.step cfg parse) AcpChannel.NotIntercepted {} events) ∧
    ((∀ before after, httpEvents = before ++ after →
        (runSteps (AcpHttpChannel.step base parse) { sessions } before).PendingQueued) ↔
      StepsMeet (AcpHttpChannel.step base parse) AcpHttpChannel.NotIntercepted { sessions } httpEvents) :=
  ⟨AcpChannel.pendingQueued_run_iff cfg parse events, AcpHttpChannel.pendingQueued_run_iff base parse sessions httpEvents⟩

/-- An interceptor that consumes every message. -/
def consumingBus : BusState := { interceptor := some fun _ => true }

/-- A session is opened and prompted, and the prompt is consumed. -/
def consumedPrompt : AcpChannel :=
  runSteps (AcpChannel.step {} clientParse) {}
    [.line (clientLine .init) 0 [], .line (clientLine .sessionNew) 0 "A".toList, .line (clientLine .sessionPrompt) 0 [],
      .published consumingBus]

def consumedHttpPrompt : AcpHttpChannel :=
  helloChannel [.prompt (some (.number "1".toList)) (some helloParams), .insertSender 0, .publish 0 consumingBus]

/-- The prompts are then pending on both channels, and nothing was queued. -/
theorem acp_pending_not_queued : ¬ consumedPrompt.PendingQueued ∧ ¬ consumedHttpPrompt.PendingQueued := by
  constructor
  · intro h
    have hend : ((consumedPrompt.state.pending.lookup "acp_A".toList).isSome, consumedPrompt.publishing.isNone,
        consumedPrompt.queue.isEmpty) = (true, true, true) := by decide +kernel
    obtain ⟨hpending, hrest⟩ := Prod.mk.inj hend
    obtain ⟨hidle, hempty⟩ := Prod.mk.inj hrest
    obtain ⟨p, hp⟩ := Option.isSome_iff_exists.mp hpending
    rw [Option.isNone_iff_eq_none] at hidle
    obtain ⟨msg, hmsg⟩ := h _ p hp fun q hq => by rw [hidle] at hq; cases hq
    rw [List.isEmpty_iff.mp hempty] at hmsg
    cases hmsg
  · intro h
    have hphase : (consumedHttpPrompt.handlers[0]?).map (fun h => (h.phase, consumedHttpPrompt.owner h.sessionId)) =
        some (.published, some 0) := by decide +kernel
    have hempty : consumedHttpPrompt.queue = [] := List.eq_nil_of_length_eq_zero (by decide +kernel)
    obtain ⟨k, hk, hpair⟩ := Option.map_eq_some_iff.mp hphase
    obtain ⟨hpublished, howner⟩ := Prod.mk.inj hpair
    have hmem := h 0 k hk (by rw [hpublished]; rfl) howner
    rw [hempty] at hmem
    cases hmem

end Zeptoclaw

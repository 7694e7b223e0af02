import Zeptoclaw.Proof.AcpHttp

/-!
# Replies of the ACP channel over HTTP

`acpHttp_replies_inTime`: in every run in which no reply comes late, every fragment that is written
to a connection was produced for the prompt of this connection. Replies are routed by the session
alone: the reply to a prompt that timed out goes to the next one (`acpHttp_reply_misdelivered`).
-/

namespace Zeptoclaw

/-- A handler reads and writes only what was produced for its prompt. -/
structure AcpHandler.Own (i : ℕ) (h : AcpHandler) : Prop where
  buffer : ∀ e ∈ h.buffer, e.1 = i
  written : ∀ e ∈ h.written, ∀ origin, e.1 = some origin → origin = i

namespace AcpHandler.Own

variable {i : ℕ} {h : AcpHandler}

theorem setPhase (hown : h.Own i) (phase : HandlerPhase) : ({ h with phase } : AcpHandler).Own i := ⟨hown.buffer, hown.written⟩

/-- What a handler writes on its own account. -/
theorem write (hown : h.Own i) (frames : List SseFrame) :
    ({ h with written := h.written ++ frames.map fun f => (none, f) } : AcpHandler).Own i := by
  refine ⟨hown.buffer, fun e he origin horigin => ?_⟩
  rw [List.mem_append, List.mem_map] at he
  rcases he with hold | ⟨f, -, rfl⟩
  · exact hown.written e hold origin horigin
  · cases horigin

theorem leaveWith (hown : h.Own i) (through : ℕ) (message : Str) : (AcpHttpChannel.leaveWith h through message).Own i :=
  (hown.write _).setPhase (.leaving none)

/-- A fragment of its own goes from the buffer to the connection. -/
theorem receive (hown : h.Own i) {origin : ℕ} {fragment : PromptFragment} {rest : List (ℕ × PromptFragment)}
    (hbuffer : h.buffer = (origin, fragment) :: rest) (frames : List SseFrame) :
    ({ h with buffer := rest, written := h.written ++ frames.map fun f => (some origin, f) } : AcpHandler).Own i := by
  constructor
  · intro e he
    exact hown.buffer e (hbuffer ▸ List.mem_cons_of_mem _ he)
  · intro e he n hn
    rw [List.mem_append, List.mem_map] at he
    rcases he with hold | ⟨f, -, rfl⟩
    · exact hown.written e hold n hn
    · rw [← Option.some.inj hn]
      exact hown.buffer _ (hbuffer ▸ List.mem_cons_self)

theorem deliver (hown : h.Own i) {origin : ℕ} (horigin : i = origin) (fragment : PromptFragment) :
    ({ h with buffer := h.buffer ++ [(origin, fragment)] } : AcpHandler).Own i := by
  refine ⟨fun e he => ?_, hown.written⟩
  rw [List.mem_append, List.mem_singleton] at he
  rcases he with hold | rfl
  · exact hown.buffer e hold
  · exact horigin.symm

end AcpHandler.Own

namespace AcpHttpChannel

variable {base : BaseChannelConfig} {parse : AcpParse} {s s' : AcpHttpChannel} {ev : AcpHttpEvent}

/-- Whatever is on its way to a connection was produced for the prompt of this connection. -/
structure Routed (s : AcpHttpChannel) : Prop where
  outbox : ∀ e ∈ s.outbox, ∀ channel, s.pendingHttp.lookup e.2.chatId = some channel → channel = e.1
  inFlight : ∀ d, s.inFlight = some d → d.channel = d.origin
  handlers : ∀ (i : ℕ) (h : AcpHandler), s.handlers[i]? = some h → h.Own i

/-- No reply is late: a sender is stored when no message for its session is on the bus, and the agent
emits a message for a prompt when no other prompt has its sender stored for the session. -/
def InTime (s : AcpHttpChannel) : AcpHttpEvent → Prop
  | .insertSender i => ∀ (h : AcpHandler), s.handlers[i]? = some h → h.phase = .pendingInserted →
      ∀ e ∈ s.outbox, e.2.chatId ≠ h.sessionId
  | .emit i _ _ _ => ∀ msg, s.current i = some msg → ∀ channel, s.pendingHttp.lookup msg.chatId = some channel → channel = i
  | _ => True

/-! ## Steps -/

/-- No message, no sender and no delivery comes in. -/
theorem Routed.of_fewer (hr : s.Routed) (houtbox : ∀ e ∈ s'.outbox, e ∈ s.outbox)
    (hsenders : ∀ sid channel, s'.pendingHttp.lookup sid = some channel → s.pendingHttp.lookup sid = some channel)
    (hflight : s'.inFlight = s.inFlight ∨ s'.inFlight = none)
    (hhandlers : ∀ (i : ℕ) (h : AcpHandler), s'.handlers[i]? = some h → h.Own i) : s'.Routed := by
  refine ⟨fun e he channel hchannel => hr.outbox e (houtbox e he) channel (hsenders _ _ hchannel), ?_, hhandlers⟩
  intro d hd
  rcases hflight with heq | heq
  · exact hr.inFlight d (heq ▸ hd)
  · rw [heq] at hd
    cases hd

/-- A handler is replaced by one that only has what is its own. -/
theorem Routed.own_set (hr : s.Routed) {i : ℕ} {h h' : AcpHandler} (hi : s.handlers[i]? = some h) (hown : h'.Own i)
    (hset : s'.handlers = s.handlers.set i h') (j : ℕ) (k : AcpHandler) (hj : s'.handlers[j]? = some k) : k.Own j := by
  rcases handler_set hi hset hj with ⟨rfl, rfl⟩ | ⟨-, hold⟩
  · exact hown
  · exact hr.handlers j k hold

theorem Routed.setHandler (hr : s.Routed) {i : ℕ} {h h' : AcpHandler} (hi : s.handlers[i]? = some h) (hown : h'.Own i) :
    (s.setHandler i h').Routed :=
  hr.of_fewer (fun _ he => he) (fun _ _ h => h) (.inl rfl) (hr.own_set hi hown rfl)

theorem routed_acceptPrompt (hr : s.Routed) (id params : Option Json) : (s.acceptPrompt base parse id params).Routed := by
  unfold acceptPrompt
  split
  · exact hr.of_fewer (fun _ he => he) (fun _ _ h => h) (.inl rfl) hr.handlers
  · refine hr.of_fewer (fun _ he => he) (fun _ _ h => h) (.inl rfl) ?_
    intro j k hj
    rcases handler_concat rfl hj with ⟨rfl, rfl⟩ | hold
    · exact ⟨fun _ he => (nomatch he), fun _ he => (nomatch he)⟩
    · exact hr.handlers j k hold

theorem routed_insertSender (hr : s.Routed) (i : ℕ) (hin : s.InTime (.insertSender i)) : (s.insertSender i).Routed := by
  unfold insertSender
  refine atPhase_rule (P := Routed) hr fun h hi hphase => ?_
  refine ⟨fun e he channel hchannel => ?_, hr.inFlight, hr.own_set hi ((hr.handlers i h hi).setPhase .senderInserted) rfl⟩
  dsimp only at hchannel
  rw [Assoc.lookup_insert, if_neg (hin h hi hphase e he)] at hchannel
  exact hr.outbox e he channel hchannel

theorem routed_publish (hr : s.Routed) (i : ℕ) (bus : BusState) : (s.publish i bus).Routed := by
  unfold publish
  refine atPhase_rule (P := Routed) hr fun h hi _ => ?_
  exact hr.of_fewer (fun _ he => he) (fun _ _ h => h) (.inl rfl) (hr.own_set hi ((hr.handlers i h hi).setPhase _) rfl)

theorem routed_writeHeaders (hr : s.Routed) (i : ℕ) (ok : Bool) : (s.writeHeaders i ok).Routed := by
  unfold writeHeaders
  refine atPhase_rule (P := Routed) hr fun h hi _ => ?_
  exact hr.setHandler hi ((hr.handlers i h hi).setPhase _)

theorem routed_receive (hr : s.Routed) (i through : ℕ) : (s.receive i through).Routed := by
  unfold receive
  refine atPhase_rule (P := Routed) hr fun h hi _ => ?_
  split
  · exact hr
  · next hbuffer => exact hr.setHandler hi (((hr.handlers i h hi).receive hbuffer _).setPhase _)

theorem routed_closed (hr : s.Routed) (i through : ℕ) : (s.closed i through).Routed := by
  unfold closed
  refine atPhase_rule (P := Routed) hr fun h hi _ => ?_
  split
  · exact hr.setHandler hi ((hr.handlers i h hi).leaveWith through _)
  · exact hr

theorem routed_timeout (hr : s.Routed) (i through : ℕ) : (s.timeout i through).Routed := by
  unfold timeout
  refine atPhase_rule (P := Routed) hr fun h hi _ => ?_
  split
  · exact hr.setHandler hi ((hr.handlers i h hi).leaveWith through _)
  · exact hr

theorem routed_heartbeat (hr : s.Routed) (i : ℕ) (ok : Bool) : (s.heartbeat i ok).Routed := by
  unfold heartbeat
  refine atPhase_rule (P := Routed) hr fun h hi _ => ?_
  split
  · refine hr.setHandler hi ?_
    split
    · exact (hr.handlers i h hi).write [.heartbeat]
    · exact (hr.handlers i h hi).setPhase _
  · exact hr

theorem routed_removePending (hr : s.Routed) (i : ℕ) : (s.removePending i).Routed := by
  unfold removePending
  split
  · next h hi =>
    split
    · exact hr.of_fewer (fun _ he => he) (fun _ _ h => h) (.inl rfl) (hr.own_set hi ((hr.handlers i h hi).setPhase _) rfl)
    · exact hr
  · exact hr

theorem routed_removeSender (hr : s.Routed) (i : ℕ) : (s.removeSender i).Routed := by
  unfold removeSender
  split
  · next h hi =>
    split
    · next error _ =>
      refine hr.of_fewer (fun _ he => he) (fun sid channel hchannel => ?_) (.inl rfl) (hr.own_set hi ?_ rfl)
      · dsimp only at hchannel
        rw [Assoc.lookup_erase] at hchannel
        split at hchannel
        · cases hchannel
        · exact hchannel
      · have hwrite := ((hr.handlers i h hi).write (error.toList.map fun e =>
          SseFrame.response ⟨h.requestId, .error (-32603) ("internal error: ".toList ++ e.display)⟩)).setPhase .done
        rw [List.map_map] at hwrite
        exact hwrite
    · exact hr
  · exact hr

theorem routed_cancel (hr : s.Routed) (sessionId : Str) : (s.cancel sessionId).Routed := by
  unfold cancel
  split
  · exact hr.of_fewer (fun _ he => he) (fun _ _ h => h) (.inl rfl) hr.handlers
  · exact hr

theorem routed_emit (hr : s.Routed) (i : ℕ) (content : Str) (metadata : List (Str × Str)) (kind : OutboundMessageKind)
    (hin : s.InTime (.emit i content metadata kind)) : (s.emit i content metadata kind).Routed := by
  unfold emit
  split
  · next msg hmsg =>
    refine ⟨fun e he channel hchannel => ?_, hr.inFlight, hr.handlers⟩
    rw [List.mem_append, List.mem_singleton] at he
    rcases he with hold | rfl
    · exact hr.outbox e hold channel hchannel
    · exact hin msg hmsg channel hchannel
  · exact hr

theorem routed_finish (hr : s.Routed) (i : ℕ) : (s.finish i).Routed := by
  unfold finish
  split
  · exact hr.of_fewer (fun _ he => he) (fun _ _ h => h) (.inl rfl) hr.handlers
  · exact hr

theorem routed_dispatch (hr : s.Routed) : (s.dispatch parse).Routed := by
  unfold dispatch
  split
  · next origin msg rest hflight houtbox =>
    have hrest : ({ s with outbox := rest } : AcpHttpChannel).Routed := by
      refine hr.of_fewer (fun e he => ?_) (fun _ _ h => h) (.inl rfl) hr.handlers
      rw [houtbox]
      exact List.mem_cons_of_mem _ he
    dsimp only
    split
    · exact hrest
    · split
      · next channel fragment hchannel hfragment =>
        refine ⟨hrest.outbox, fun d hd => ?_, hr.handlers⟩
        cases hd
        exact hr.outbox (origin, msg) (houtbox ▸ List.mem_cons_self) channel hchannel
      · exact hrest
  · exact hr

theorem routed_deliver (hr : s.Routed) : s.deliver.Routed := by
  unfold deliver
  split
  · exact hr
  · next d hd =>
    split
    · exact hr
    · next h hi =>
      split
      · exact hr.of_fewer (fun _ he => he) (fun _ _ h => h) (.inr rfl) hr.handlers
      · split
        · have hown := (hr.handlers d.channel h hi).deliver (hr.inFlight d hd) d.fragment
          exact hr.of_fewer (fun _ he => he) (fun _ _ h => h) (.inr rfl) (hr.own_set hi hown rfl)
        · exact hr

/-- **A step with no late reply keeps everything on its way to where it belongs.** -/
theorem step_routed (s : AcpHttpChannel) (ev : AcpHttpEvent) (hr : s.Routed) (hin : s.InTime ev) :
    (s.step base parse ev).Routed := by
  cases ev with
  | prompt id params => exact routed_acceptPrompt hr id params
  | insertSender i => exact routed_insertSender hr i hin
  | publish i bus => exact routed_publish hr i bus
  | headers i ok => exact routed_writeHeaders hr i ok
  | receive i through => exact routed_receive hr i through
  | closed i through => exact routed_closed hr i through
  | timeout i through => exact routed_timeout hr i through
  | heartbeat i ok => exact routed_heartbeat hr i ok
  | removePending i => exact routed_removePending hr i
  | removeSender i => exact routed_removeSender hr i
  | cancel sessionId => exact routed_cancel hr sessionId
  | emit i content metadata kind => exact routed_emit hr i content metadata kind hin
  | finish i => exact routed_finish hr i
  | dispatch => exact routed_dispatch hr
  | deliver => exact routed_deliver hr

theorem routed_start (sessions : List Str) : ({ sessions } : AcpHttpChannel).Routed :=
  ⟨fun _ h => (nomatch h), fun _ h => (nomatch h), fun _ _ h => (nomatch h)⟩

end AcpHttpChannel

open AcpHttpChannel

/-- **In every run in which no reply is late, every fragment that a handler wrote to its connection was
produced for its own prompt.** -/
theorem acpHttp_replies_inTime (base : BaseChannelConfig) (parse : AcpParse) (sessions : List Str) (events : List AcpHttpEvent)
    (hin : StepsMeet (step base parse) InTime { sessions } events) (i : ℕ) (h : AcpHandler)
    (hi : (runSteps (step base parse) { sessions } events).handlers[i]? = some h) :
    ∀ e ∈ h.written, ∀ origin, e.1 = some origin → origin = i :=
  ((run_invariant step_routed events { sessions } (routed_start sessions) hin).handlers i h hi).written

/-- The prompt that is answered in time. -/
theorem acpHttp_replies_answered : ∃ h, (helloChannel answeredPrompt).handlers[0]? = some h ∧ h.written.length = 2 ∧
    ∀ e ∈ h.written, ∀ origin, e.1 = some origin → origin = 0 := by
  have hwritten : ((helloChannel answeredPrompt).handlers[0]?).map (fun h => h.written.length) = some 2 := by decide +kernel
  obtain ⟨h, hi, hlen⟩ := Option.map_eq_some_iff.mp hwritten
  refine ⟨h, hi, hlen, acpHttp_replies_inTime {} helloParse _ _ ?_ 0 h hi⟩
  have hempty : (helloChannel (answeredPrompt.take 1)).outbox = [] := List.eq_nil_of_length_eq_zero (by decide +kernel)
  have hsender : (((helloChannel (answeredPrompt.take 4)).current 0).bind fun msg =>
      (helloChannel (answeredPrompt.take 4)).pendingHttp.lookup msg.chatId) = some 0 := by decide +kernel
  refine ⟨trivial, ?_, trivial, trivial, ?_, trivial, trivial, trivial, trivial, trivial, trivial⟩
  · intro k _ _ e he
    have he' : e ∈ (helloChannel (answeredPrompt.take 1)).outbox := he
    rw [hempty] at he'
    cases he'
  · intro msg hmsg channel hchannel
    have hmsg' : (helloChannel (answeredPrompt.take 4)).current 0 = some msg := hmsg
    have hchannel' : (helloChannel (answeredPrompt.take 4)).pendingHttp.lookup msg.chatId = some channel := hchannel
    rw [hmsg', Option.bind_some, hchannel'] at hsender
    exact Option.some.inj hsender

/-- The first prompt times out, and the agent replies to it when the second one is waiting. -/
def lateReply : AcpHttpChannel :=
  helloChannel [.prompt (some (.number "1".toList)) (some helloParams), .insertSender 0, .publish 0 {}, .headers 0 true,
    .timeout 0 1, .removePending 0, .removeSender 0, nextPrompt, .insertSender 1, .publish 1 {}, .headers 1 true,
    .emit 0 "late".toList [] .full, .dispatch, .deliver, .receive 1 2]

/-- The second connection then gets the reply to the first prompt. -/
theorem acpHttp_reply_misdelivered :
    ¬ ∀ i (h : AcpHandler), lateReply.handlers[i]? = some h → ∀ e ∈ h.written, ∀ origin, e.1 = some origin → origin = i := by
  intro hall
  have hwrites : (lateReply.handlers[1]?).map (fun h => h.written.map Prod.fst) = some [some 0, some 0] := by decide +kernel
  obtain ⟨h, hi, hwritten⟩ := Option.map_eq_some_iff.mp hwrites
  have hmem : some 0 ∈ h.written.map Prod.fst := by
    rw [hwritten]
    exact List.mem_cons_self
  obtain ⟨e, he, horigin⟩ := List.mem_map.mp hmem
  exact absurd (hall 1 h hi e he 0 horigin) (by decide)

end Zeptoclaw

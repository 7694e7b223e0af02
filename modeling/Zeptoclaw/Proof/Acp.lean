import Zeptoclaw.Proof.AcpPrompt
import Zeptoclaw.Spec.Bus

/-!
# Prompts on the ACP channel are answered once

`acp_answeredOnce_iff`: in every state of a run, every accepted prompt is pending without a response
or has left the table with one response of its id, exactly if no `session/new` of the run sweeps a
session with a pending prompt, and no publication fails for a prompt that was answered meanwhile.
-/

namespace Zeptoclaw

namespace AcpChannel

variable {cfg : AcpChannelConfig} {parse : AcpParse} {c c' : AcpChannel}

/-! ## The effect of every event -/

theorem completions_respond (n : ℕ) (c : AcpChannel) (id : Option Json) (reply : AcpReply) :
    completions n (c.respond id reply).stdout = completions n c.stdout := by
  unfold respond
  rw [completions_append]
  exact List.append_nil _

theorem completions_notify (n : ℕ) (c : AcpChannel) (sessionId : Str) (update : SessionUpdate) :
    completions n (c.notify sessionId update).stdout = completions n c.stdout := by
  unfold notify
  rw [completions_append]
  exact List.append_nil _

theorem completions_complete (n : ℕ) (c : AcpChannel) (number : ℕ) (requestId : Json) (reply : AcpReply) :
    completions n (c.complete number requestId reply).stdout =
      completions n c.stdout ++ if number = n then [⟨some requestId, reply⟩] else [] := by
  unfold complete
  rw [completions_append]
  congr 1
  by_cases h : number = n
  · rw [if_pos h]
    simp [completions, Written.completion, h]
  · rw [if_neg h]
    simp [completions, Written.completion, h]

theorem pending_touch (s : AcpState) (sessionId : Str) (now : ℕ) : (s.touch sessionId now).pending = s.pending := by
  unfold AcpState.touch
  split
  · rfl
  · rfl

theorem isLive_touch (s : AcpState) (sessionId : Str) (now : ℕ) (sid : Str) : (s.touch sessionId now).isLive sid = s.isLive sid := by
  unfold AcpState.touch
  split
  · next entry hentry =>
    unfold AcpState.isLive
    dsimp only
    rw [Assoc.lookup_insert]
    split
    · next heq => rw [heq, hentry, Option.isSome_some, Option.isSome_some]
    · rfl
  · rfl

/-- The table is as it was, and no prompt is completed. -/
theorem quiet_of (hpending : c'.state.pending = c.state.pending)
    (hlive : ∀ sessionId, c.state.isLive sessionId = true → c'.state.isLive sessionId = true)
    (hcompletions : ∀ n, completions n c'.stdout = completions n c.stdout) (haccepted : c'.accepted = c.accepted)
    (hpublishing : c'.publishing = c.publishing ∨ c'.publishing = none) : Quiet c c' :=
  ⟨fun sessionId => by rw [hpending], fun sessionId _ _ h => hlive sessionId h, hcompletions, haccepted, hpublishing⟩

theorem quiet_refl (c : AcpChannel) : Quiet c c := quiet_of rfl (fun _ h => h) (fun _ => rfl) rfl (.inl rfl)

theorem quiet_respond (c : AcpChannel) (id : Option Json) (reply : AcpReply) : Quiet c (c.respond id reply) :=
  quiet_of rfl (fun _ h => h) (fun n => completions_respond n c id reply) rfl (.inl rfl)

theorem quiet_respondIfRequest (c : AcpChannel) (id : Option Json) (reply : AcpReply) :
    Quiet c (c.respondIfRequest id reply) := by
  cases id with
  | none => exact quiet_refl c
  | some id => exact quiet_respond c (some id) reply

theorem quiet_touched (c : AcpChannel) (sessionId : Str) (now : ℕ) :
    Quiet c { c with state := c.state.touch sessionId now } :=
  quiet_of (pending_touch c.state sessionId now) (fun sid h => by rw [isLive_touch]; exact h) (fun _ => rfl) rfl (.inl rfl)

theorem Quiet.trans {d : AcpChannel} (h : Quiet c c') (h' : Quiet c' d) : Quiet c d := by
  refine ⟨fun sid => (h'.pending sid).trans (h.pending sid), ?_, fun n => (h'.completions n).trans (h.completions n),
    h'.accepted.trans h.accepted, ?_⟩
  · intro sid p hp hlive
    obtain ⟨q, hq, -⟩ := h.lookup_back hp
    exact h'.live sid q hq (h.live sid p hp hlive)
  · rcases h'.publishing with hsame | hnone
    · rw [hsame]
      exact h.publishing
    · exact .inr hnone

theorem quiet_handleInitialize (c : AcpChannel) (id params : Option Json) :
    Quiet c (c.handleInitialize parse id params) :=
  quiet_of rfl (fun _ h => h) (fun n => completions_respond n _ id _) rfl (.inl rfl)

theorem quiet_markCancelled (c : AcpChannel) (sessionId : Str) :
    Quiet c { c with state := markCancelled c.state sessionId } := by
  unfold markCancelled
  split
  · split
    · next p hp =>
      refine ⟨fun sid => ?_, fun _ _ _ h => h, fun _ => rfl, rfl, .inl rfl⟩
      dsimp only
      rw [Assoc.lookup_insert]
      split
      · next heq => rw [heq, hp]; rfl
      · rfl
    · exact quiet_refl c
  · exact quiet_refl c

theorem quiet_handleSessionCancel (c : AcpChannel) (id params : Option Json) :
    Quiet c (c.handleSessionCancel cfg parse id params) := by
  unfold handleSessionCancel
  split
  · exact quiet_respondIfRequest c id _
  · split
    · exact quiet_respondIfRequest c id _
    · exact (quiet_markCancelled c _).trans (quiet_respondIfRequest _ id _)

theorem quiet_handleSessionList (c : AcpChannel) (id params : Option Json) :
    Quiet c (c.handleSessionList cfg parse id params) := by
  unfold handleSessionList
  split
  · exact quiet_respond c id _
  · split
    · exact quiet_respond c id _
    · split
      · exact quiet_respond c id _
      · exact quiet_respond c id _

theorem keeps_handleSessionPrompt (c : AcpChannel) (id : Json) (params : Option Json) (now : ℕ) :
    Keeps c (c.handleSessionPrompt cfg parse id params now) := by
  unfold handleSessionPrompt
  split
  · exact .quiet (quiet_respond c _ _)
  · next sessionId content _ =>
    by_cases hlive : c.state.isLive sessionId = true
    · have hdead : ¬ (!c.state.isLive sessionId) = true := by simp [hlive]
      rw [if_neg hdead]
      dsimp only
      rw [pending_touch]
      cases hpending : c.state.pending.lookup sessionId with
      | some p => exact .quiet ((quiet_touched c sessionId now).trans (quiet_respond _ _ _))
      | none =>
        refine .accepts sessionId id ⟨hpending, hlive, ?_, ?_, rfl, rfl, ?_⟩
        · rfl
        · exact fun sid => isLive_touch c.state sessionId now sid
        · intro p hp
          cases hp
          exact ⟨rfl, rfl, rfl⟩
    · have hdead : (!c.state.isLive sessionId) = true := by simpa using hlive
      rw [if_pos hdead]
      exact .quiet (quiet_respond c _ _)

/-- The sessions that the sweep of `session/new` removes. -/
def sweptSessions (cfg : AcpChannelConfig) (now : ℕ) (s : AcpState) : List Str :=
  match cfg.sessionTtlSecs with
  | some ttl => s.expired (ttl * 1000000000) now
  | none => []

theorem pending_sweep (now : ℕ) (s : AcpState) (sessionId : Str) :
    (sweep cfg now s).pending.lookup sessionId =
      if sessionId ∈ sweptSessions cfg now s then none else s.pending.lookup sessionId := by
  unfold sweep sweptSessions
  cases cfg.sessionTtlSecs with
  | none => rw [if_neg List.not_mem_nil]
  | some ttl =>
    simp only [AcpState.sweepExpired, Assoc.lookup_retain]
    split
    · next hmem => cases s.pending.lookup sessionId <;> simp [hmem]
    · next hmem => cases s.pending.lookup sessionId <;> simp [hmem]

theorem isLive_sweep (now : ℕ) (s : AcpState) {sessionId : Str} (h : sessionId ∉ sweptSessions cfg now s)
    (hlive : s.isLive sessionId = true) : (sweep cfg now s).isLive sessionId = true := by
  unfold sweep
  unfold sweptSessions at h
  cases httl : cfg.sessionTtlSecs with
  | none => exact hlive
  | some ttl =>
    rw [httl] at h
    unfold AcpState.isLive at hlive ⊢
    obtain ⟨entry, hentry⟩ := Option.isSome_iff_exists.mp hlive
    simp only [AcpState.sweepExpired, Assoc.lookup_retain, hentry]
    simp [h]

/-- `session/new` behind its checks: the sweep, then a response with or without a new session. -/
theorem handleSessionNew_ok (id : Option Json) {params : Option Json} (now : ℕ) (newId : Str) {cwd : Str}
    (h : c.sessionNewChecks cfg parse params = .ok cwd) :
    let c' := c.handleSessionNew cfg parse id params now newId
    c'.state.pending = (sweep cfg now c.state).pending ∧
      (∀ sessionId, (sweep cfg now c.state).isLive sessionId = true → c'.state.isLive sessionId = true) ∧
      (∀ n, completions n c'.stdout = completions n c.stdout) ∧ c'.accepted = c.accepted ∧ c'.publishing = c.publishing := by
  unfold handleSessionNew
  rw [h]
  dsimp only
  split
  · exact ⟨rfl, fun _ hlive => hlive, fun n => completions_respond n _ id _, rfl, rfl⟩
  · refine ⟨rfl, fun sessionId hlive => ?_, fun n => completions_respond n _ id _, rfl, rfl⟩
    simp only [AcpState.isLive, respond] at hlive ⊢
    rw [Assoc.lookup_insert]
    split
    · rfl
    · exact hlive

theorem quiet_handleSessionNew_error {id params : Option Json} {now : ℕ} {newId : Str} {reply : AcpReply}
    (h : c.sessionNewChecks cfg parse params = .error reply) : Quiet c (c.handleSessionNew cfg parse id params now newId) := by
  unfold handleSessionNew
  rw [h]
  exact quiet_respond c id reply

theorem quiet_handleSessionNew {id params : Option Json} {now : ℕ} {newId cwd : Str}
    (h : c.sessionNewChecks cfg parse params = .ok cwd)
    (hnone : ∀ sessionId ∈ sweptSessions cfg now c.state, c.state.pending.lookup sessionId = none) :
    Quiet c (c.handleSessionNew cfg parse id params now newId) := by
  obtain ⟨hpending, hlive, hcompletions, haccepted, hpublishing⟩ := handleSessionNew_ok id now newId h
  refine ⟨fun sid => ?_, fun sid p hp hl => ?_, hcompletions, haccepted, .inl hpublishing⟩
  · rw [hpending, pending_sweep]
    split
    · next hmem => rw [hnone sid hmem]
    · rfl
  · refine hlive sid (isLive_sweep now c.state (fun hmem => ?_) hl)
    rw [hnone sid hmem] at hp
    cases hp

theorem drops_handleSessionNew (hc : c.Consistent) {id params : Option Json} {now : ℕ} {newId cwd sessionId : Str}
    (h : c.sessionNewChecks cfg parse params = .ok cwd) (hmem : sessionId ∈ sweptSessions cfg now c.state)
    (hpending : c.state.pending.lookup sessionId ≠ none) :
    Drops c (c.handleSessionNew cfg parse id params now newId) sessionId := by
  obtain ⟨hswept, hlive, hcompletions, haccepted, hpublishing⟩ := handleSessionNew_ok id now newId h
  refine ⟨Option.isSome_iff_ne_none.mpr hpending, ?_, fun sid p hp => ?_, hcompletions, haccepted, hpublishing⟩
  · rw [hswept, pending_sweep, if_pos hmem]
  · rw [hswept, pending_sweep] at hp
    split at hp
    · cases hp
    · next hkept => exact ⟨hp, hlive sid (isLive_sweep now c.state hkept (hc.live sid p hp))⟩

/-! Outbound messages. -/

theorem quiet_sendChunk (c : AcpChannel) (sessionId content : Str) (now : ℕ) : Quiet c (c.sendChunk sessionId content now) := by
  unfold sendChunk
  split
  · refine (quiet_touched c sessionId now).trans ?_
    exact quiet_of rfl (fun _ h => h) (fun n => completions_notify n _ sessionId _) rfl (.inl rfl)
  · exact quiet_refl c

/-- A pending prompt is erased and completed, after other writes. -/
theorem completes_of {d : AcpChannel} {sessionId : Str} {p : PendingPrompt} {reply : AcpReply}
    (hp : c.state.pending.lookup sessionId = some p) (hpending : d.state.pending = c.state.pending.erase sessionId)
    (hlive : ∀ sid, d.state.isLive sid = c.state.isLive sid) (hcompletions : ∀ n, completions n d.stdout = completions n c.stdout)
    (haccepted : d.accepted = c.accepted) (hpublishing : d.publishing = c.publishing ∨ d.publishing = none) :
    Completes c (d.complete p.number p.requestId reply) sessionId p := by
  refine ⟨hp, hpending, hlive, ⟨⟨some p.requestId, reply⟩, rfl, fun n => ?_⟩, haccepted, hpublishing⟩
  rw [completions_complete, hcompletions]

theorem keeps_sendChunkEnd (c : AcpChannel) (sessionId : Str) : Keeps c (c.sendChunkEnd sessionId) := by
  unfold sendChunkEnd
  split
  · split
    · exact .quiet (quiet_refl c)
    · next p hp => exact .completes sessionId p (completes_of hp rfl (fun _ => rfl) (fun _ => rfl) rfl (.inl rfl))
  · exact .quiet (quiet_refl c)

theorem quiet_sendCustom (parse : AcpParse) (c : AcpChannel) (msg : OutboundMessage) (now : ℕ) :
    Quiet c (c.sendCustom parse msg now).2 := by
  unfold sendCustom
  split
  · exact quiet_refl c
  · split
    · exact quiet_refl c
    · split
      · refine (quiet_touched c msg.chatId now).trans ?_
        exact quiet_of rfl (fun _ h => h) (fun n => completions_notify n _ msg.chatId _) rfl (.inl rfl)
      · exact quiet_refl c

theorem keeps_sendFull (hc : c.Consistent) (msg : OutboundMessage) : Keeps c (c.sendFull msg) := by
  unfold sendFull
  cases hp : c.state.pending.lookup msg.chatId with
  | none =>
    have hsame : ∀ sid, (c.state.pending.erase msg.chatId).lookup sid = c.state.pending.lookup sid :=
      Assoc.same_erase_iff.mpr hp
    refine .quiet ?_
    dsimp only
    split
    · exact ⟨fun sid => by rw [hsame sid], fun _ _ _ h => h, fun _ => rfl, rfl, .inl rfl⟩
    · exact ⟨fun sid => by rw [notify, hsame sid], fun _ _ _ h => h, fun n => completions_notify n _ msg.chatId _, rfl, .inl rfl⟩
  | some p =>
    -- the session of a pending prompt is live
    have hlive : c.state.isLive msg.chatId = true := hc.live _ p hp
    have hdead : ¬ (!AcpState.isLive msg.chatId { c.state with pending := c.state.pending.erase msg.chatId }) = true := by
      rw [Bool.not_eq_true, Bool.not_eq_false']
      exact hlive
    refine .completes msg.chatId p ?_
    dsimp only
    rw [if_neg hdead]
    split
    · exact completes_of hp rfl (fun _ => rfl) (fun _ => rfl) rfl (.inl rfl)
    · exact completes_of hp rfl (fun _ => rfl) (fun n => completions_notify n _ msg.chatId _) rfl (.inl rfl)

theorem keeps_send (hc : c.Consistent) (msg : OutboundMessage) (now : ℕ) : Keeps c (c.send parse msg now) := by
  unfold send
  split
  · exact .quiet (quiet_refl c)
  · split
    · exact .quiet (quiet_sendChunk c _ _ now)
    · exact keeps_sendChunkEnd c _
    · have hcustom := quiet_sendCustom parse c msg now
      split
      · next d heq =>
        rw [heq] at hcustom
        exact .quiet hcustom
      · next d heq =>
        rw [heq] at hcustom
        split
        · exact .quiet hcustom
        · exact .quiet (hcustom.trans (quiet_sendChunk d _ _ now))
    · split
      · exact .quiet (quiet_sendChunk c _ _ now)
      · exact keeps_sendFull hc msg

/-! The answer of the bus. -/

/-- The bus takes no message any more, and the interceptor did not want this one. -/
def PublishFails (bus : BusState) (p : Publishing) : Prop := bus.consumes p.inbound = false ∧ bus.closed = true

theorem quiet_finishPublish {p : Publishing} {bus : BusState} (h : ¬ PublishFails bus p) : Quiet c (c.finishPublish p bus) := by
  have hpublishes := bus.publishes_publishInbound p.number p.inbound c.queue
  unfold finishPublish
  cases hbus : bus.publishInbound p.number p.inbound c.queue with
  | mk result queue =>
    rw [hbus] at hpublishes
    cases hpublishes with
    | consumed _ => exact quiet_of rfl (fun _ hlive => hlive) (fun _ => rfl) rfl (.inr rfl)
    | failed hconsumes hclosed => exact absurd ⟨hconsumes, hclosed⟩ h
    | queued _ _ => exact quiet_of rfl (fun _ hlive => hlive) (fun _ => rfl) rfl (.inr rfl)

theorem finishPublish_fails {p : Publishing} {bus : BusState} (h : PublishFails bus p) :
    ∃ reply, c.finishPublish p bus =
      ({ c with publishing := none, state.pending := c.state.pending.erase p.sessionId } : AcpChannel).complete p.number
        p.requestId reply := by
  obtain ⟨hconsumes, hclosed⟩ := h
  have hpublishes := bus.publishes_publishInbound p.number p.inbound c.queue
  unfold finishPublish
  cases hbus : bus.publishInbound p.number p.inbound c.queue with
  | mk result queue =>
    rw [hbus] at hpublishes
    cases hpublishes with
    | consumed hyes =>
      rw [hconsumes] at hyes
      cases hyes
    | failed _ _ => exact ⟨_, rfl⟩
    | queued _ hopen =>
      rw [hclosed] at hopen
      cases hopen

theorem completes_finishPublish (hc : c.Consistent) {p : Publishing} {bus : BusState} (hp : c.publishing = some p)
    (h : PublishFails bus p) {q : PendingPrompt} (hq : c.state.pending.lookup p.sessionId = some q) :
    Completes c (c.finishPublish p bus) p.sessionId q := by
  obtain ⟨haccepted, hnumber⟩ := hc.publishing p hp
  have hsame := hc.pending p.sessionId q hq
  rw [hnumber q hq, haccepted] at hsame
  have hrequest : p.requestId = q.requestId := congrArg AcceptedPrompt.requestId (Option.some.inj hsame)
  obtain ⟨reply, heq⟩ := finishPublish_fails (c := c) h
  rw [heq, hrequest, ← hnumber q hq]
  exact completes_of hq rfl (fun _ => rfl) (fun _ => rfl) rfl (.inr rfl)

theorem repeats_finishPublish {p : Publishing} {bus : BusState} (hp : c.publishing = some p) (h : PublishFails bus p)
    (hq : c.state.pending.lookup p.sessionId = none) : Repeats c (c.finishPublish p bus) p := by
  obtain ⟨reply, heq⟩ := finishPublish_fails (c := c) h
  rw [heq]
  refine ⟨hp, hq, Assoc.same_erase_iff.mpr hq, fun _ => rfl, ⟨⟨some p.requestId, reply⟩, fun n => ?_⟩, rfl, rfl⟩
  rw [completions_complete]

/-! ## Runs -/

/-- An event that drops no prompt and answers none twice: a `session/new` sweeps no session with a
pending prompt, and a publication does not fail for a prompt that was answered meanwhile. -/
def AnswersOnce (cfg : AcpChannelConfig) (parse : AcpParse) (c : AcpChannel) : AcpEvent → Prop
  | .line text now _ => ∀ id params cwd, c.reads = true → readLine parse text = .request .sessionNew id params →
      c.sessionNewChecks cfg parse params = .ok cwd →
      ∀ sessionId ∈ sweptSessions cfg now c.state, c.state.pending.lookup sessionId = none
  | .published bus => ∀ p, c.publishing = some p → PublishFails bus p → c.state.pending.lookup p.sessionId ≠ none
  | .outbound _ _ => True
  | .endOfInput => True

theorem keeps_handleLine (c : AcpChannel) (line : Line) (now : ℕ) (newId : Str)
    (h : ∀ id params, line ≠ .request .sessionNew id params) : Keeps c (c.handleLine cfg parse line now newId) := by
  unfold handleLine
  split
  · exact .quiet (quiet_refl c)
  · exact .quiet (quiet_respond c _ _)
  · exact .quiet (quiet_respond c _ _)
  · exact .quiet (quiet_refl c)
  · exact .quiet (quiet_respond c _ _)
  · exact .quiet (quiet_handleInitialize c _ _)
  · exact absurd rfl (h _ _)
  · exact keeps_handleSessionPrompt c _ _ now
  · exact .quiet (quiet_handleSessionCancel c _ _)
  · exact .quiet (quiet_handleSessionList c _ _)

theorem idle_of_reads (h : c.reads = true) : c.publishing = none := by
  simp only [reads, Bool.and_eq_true, Option.isNone_iff_eq_none] at h
  exact h.2

theorem drains_drain (h : c.reads = true) : Drains c c.drain :=
  ⟨rfl, fun n => completions_append n c.stdout _, rfl, idle_of_reads (c := c) h⟩

theorem step_line_cases (hc : c.Consistent) (text : Str) (now : ℕ) (newId : Str) :
    (c.AnswersOnce cfg parse (.line text now newId) ∧ Keeps c (c.step cfg parse (.line text now newId))) ∨
      (¬ c.AnswersOnce cfg parse (.line text now newId) ∧ Breaks c (c.step cfg parse (.line text now newId))) := by
  by_cases hreads : c.reads = true
  · have hstep : c.step cfg parse (.line text now newId) = c.handleLine cfg parse (readLine parse text) now newId := if_pos hreads
    rw [hstep]
    by_cases hnew : ∃ id params, readLine parse text = .request .sessionNew id params
    · obtain ⟨id, params, hline⟩ := hnew
      rw [hline]
      cases hchecks : c.sessionNewChecks cfg parse params with
      | error reply =>
        refine .inl ⟨?_, .quiet (quiet_handleSessionNew_error hchecks)⟩
        intro id' params' cwd _ hline' hok
        rw [hline] at hline'
        cases hline'
        rw [hchecks] at hok
        cases hok
      | ok cwd =>
        by_cases hnone : ∀ sessionId ∈ sweptSessions cfg now c.state, c.state.pending.lookup sessionId = none
        · exact .inl ⟨fun _ _ _ _ _ _ => hnone, .quiet (quiet_handleSessionNew hchecks hnone)⟩
        · refine .inr ⟨fun hall => hnone (hall id params cwd hreads hline hchecks), ?_⟩
          simp only [not_forall] at hnone
          obtain ⟨sessionId, hmem, hpending⟩ := hnone
          exact .drops sessionId (drops_handleSessionNew hc hchecks hmem hpending)
    · refine .inl ⟨?_, keeps_handleLine c _ now newId fun id params h => hnew ⟨id, params, h⟩⟩
      intro id params cwd _ hline _
      exact absurd ⟨id, params, hline⟩ hnew
  · have hstep : c.step cfg parse (.line text now newId) = c := if_neg hreads
    rw [hstep]
    exact .inl ⟨fun _ _ _ hyes => absurd hyes hreads, .quiet (quiet_refl c)⟩

theorem step_published_cases (hc : c.Consistent) (bus : BusState) :
    (c.AnswersOnce cfg parse (.published bus) ∧ Keeps c (c.step cfg parse (.published bus))) ∨
      (¬ c.AnswersOnce cfg parse (.published bus) ∧ Breaks c (c.step cfg parse (.published bus))) := by
  simp only [step, AnswersOnce]
  cases hp : c.publishing with
  | none => exact .inl ⟨by rintro _ ⟨⟩, .quiet (quiet_refl c)⟩
  | some p =>
    dsimp only
    by_cases hfails : PublishFails bus p
    · cases hq : c.state.pending.lookup p.sessionId with
      | none =>
        refine .inr ⟨fun hall => hall p rfl hfails hq, .repeats p (repeats_finishPublish hp hfails hq)⟩
      | some q =>
        refine .inl ⟨?_, .completes p.sessionId q (completes_finishPublish hc hp hfails hq)⟩
        intro p' hp' _
        cases hp'
        rw [hq]
        exact Option.some_ne_none q
    · refine .inl ⟨?_, .quiet (quiet_finishPublish hfails)⟩
      intro p' hp' hfails'
      cases hp'
      exact absurd hfails' hfails

/-- **An event keeps the prompts in order or breaks it, as the condition says.** -/
theorem step_cases (cfg : AcpChannelConfig) (parse : AcpParse) (hc : c.Consistent) (ev : AcpEvent) :
    (c.AnswersOnce cfg parse ev ∧ Keeps c (c.step cfg parse ev)) ∨
      (¬ c.AnswersOnce cfg parse ev ∧ Breaks c (c.step cfg parse ev)) := by
  cases ev with
  | line text now newId => exact step_line_cases hc text now newId
  | published bus => exact step_published_cases hc bus
  | outbound msg now => exact .inl ⟨trivial, keeps_send hc msg now⟩
  | endOfInput =>
    by_cases hreads : c.reads = true
    · have hstep : c.step cfg parse .endOfInput = c.drain := if_pos hreads
      rw [hstep]
      exact .inl ⟨trivial, .drains (drains_drain hreads)⟩
    · have hstep : c.step cfg parse .endOfInput = c := if_neg hreads
      rw [hstep]
      exact .inl ⟨trivial, .quiet (quiet_refl c)⟩

theorem step_consistent (c : AcpChannel) (ev : AcpEvent) (hc : c.Consistent) : (c.step cfg parse ev).Consistent := by
  rcases step_cases cfg parse hc ev with ⟨-, h⟩ | ⟨-, h⟩
  · exact h.consistent hc
  · exact h.consistent hc

theorem answersOnce_iff_step (c : AcpChannel) (ev : AcpEvent) (hs : c.AnsweredOnce) (hc : c.Consistent) :
    c.AnswersOnce cfg parse ev ↔ (c.step cfg parse ev).AnsweredOnce := by
  rcases step_cases cfg parse hc ev with ⟨hyes, h⟩ | ⟨hno, h⟩
  · exact ⟨fun _ => h.answeredOnce hc hs, fun _ => hyes⟩
  · exact ⟨fun hyes => absurd hyes hno, fun hs' => absurd hs' (h.not_answeredOnce hc hs)⟩

theorem consistent_new : ({} : AcpChannel).Consistent :=
  ⟨fun _ _ h => (nomatch h), fun _ _ h => (nomatch h), fun _ _ => rfl, fun _ h => (nomatch h)⟩

theorem consistent_run (cfg : AcpChannelConfig) (parse : AcpParse) (events : List AcpEvent) :
    (runSteps (step cfg parse) {} events).Consistent := run_preserves step_consistent events _ consistent_new

end AcpChannel

/-- **In every state of a run every accepted prompt is answered once, exactly if no `session/new` of
the run sweeps a session with a pending prompt, and no publication fails for a prompt that was
answered meanwhile.** -/
theorem acp_answeredOnce_iff (cfg : AcpChannelConfig) (parse : AcpParse) (events : List AcpEvent) :
    (∀ before after, events = before ++ after → (runSteps (AcpChannel.step cfg parse) {} before).AnsweredOnce) ↔
      StepsMeet (AcpChannel.step cfg parse) (AcpChannel.AnswersOnce cfg parse) {} events := by
  have hstart : ({} : AcpChannel).AnsweredOnce :=
    AcpChannel.answeredOnce_of_settled AcpChannel.consistent_new fun _ _ h => nomatch h
  have hconsistent : StepsMeet (AcpChannel.step cfg parse) (fun c _ => c.Consistent) {} events :=
    stepsMeet_iff.mpr fun before _ _ _ => AcpChannel.consistent_run cfg parse before
  exact (stepsMeet_iff_invariant_of AcpChannel.answersOnce_iff_step hstart hconsistent).symm

/-! ## A prompt that is dropped -/

/-- The lines of a client: `initialize`, `session/new` and a prompt. -/
def clientLine : AcpMethod → Str
  | .init => "\x7b\"jsonrpc\":\"2.0\",\"id\":1,\"method\":\"initialize\"\x7d".toList
  | .sessionNew =>
    "\x7b\"jsonrpc\":\"2.0\",\"id\":2,\"method\":\"session/new\",\"params\":\x7b\"cwd\":\"/\"\x7d\x7d".toList
  | _ =>
    ("\x7b\"jsonrpc\":\"2.0\",\"id\":3,\"method\":\"session/prompt\",\"params\":\x7b\"sessionId\":\"acp_A\"," ++
      "\"prompt\":[\x7b\"type\":\"text\",\"text\":\"hi\"\x7d]\x7d\x7d").toList

/-- `serde_json` on these lines. -/
def clientParse : AcpParse where
  request line :=
    if line = clientLine .init then .ok ⟨"2.0".toList, some (.number "1".toList), "initialize".toList, none⟩
    else if line = clientLine .sessionNew then
      .ok ⟨"2.0".toList, some (.number "2".toList), "session/new".toList, some (.object [("cwd".toList, .string "/".toList)])⟩
    else if line = clientLine .sessionPrompt then
      .ok ⟨"2.0".toList, some (.number "3".toList), "session/prompt".toList, some (.object
        [("sessionId".toList, .string "acp_A".toList), ("prompt".toList, .array [.object
          [("type".toList, .string "text".toList), ("text".toList, .string "hi".toList)]])])⟩
    else .error "expected value at line 1 column 1".toList
  initParams _ := none
  sessionNew params := some (params.strField "cwd".toList)
  sessionPrompt params := (params.strField "sessionId".toList).map fun sessionId => ⟨sessionId, [.text "hi".toList]⟩
  sessionCancel params := params.strField "sessionId".toList
  sessionList params := .ok (params.strField "cwd".toList)
  payload _ := none

/-- A session is opened and prompted, and another one is opened when the first has been idle for a
minute and the agent has not replied. -/
def idleMinute : List AcpEvent :=
  [.line (clientLine .init) 0 [], .line (clientLine .sessionNew) 0 "A".toList, .line (clientLine .sessionPrompt) 0 [],
    .published {}, .line (clientLine .sessionNew) 60000000000 "B".toList]

def idleMinuteChannel : AcpChannel :=
  runSteps (AcpChannel.step { sessionTtlSecs := some 60 } clientParse) {} idleMinute

/-- The prompt is then gone from the table, and no response was written. -/
theorem acp_prompt_dropped : ¬ idleMinuteChannel.AnsweredOnce := by
  intro h
  have hend : ((idleMinuteChannel.accepted[0]?).map AcceptedPrompt.sessionId,
      (idleMinuteChannel.state.pending.lookup "acp_A".toList).isNone,
      (AcpChannel.completions 0 idleMinuteChannel.stdout).length) = (some "acp_A".toList, true, 0) := by decide +kernel
  obtain ⟨haccepted, hrest⟩ := Prod.mk.inj hend
  obtain ⟨hgone, hsilent⟩ := Prod.mk.inj hrest
  obtain ⟨a, ha, hsession⟩ := Option.map_eq_some_iff.mp haccepted
  rcases h.settled 0 a ha with ⟨⟨p, hp, -⟩, -⟩ | ⟨-, r, hr, -⟩
  · rw [hsession] at hp
    rw [hp] at hgone
    cases hgone
  · rw [hr] at hsilent
    cases hsilent

end Zeptoclaw

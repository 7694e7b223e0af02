import Zeptoclaw.Lib.Run
import Zeptoclaw.Spec.Bus
import Zeptoclaw.Spec.AcpHttp

/-!
# Handlers of the ACP channel over HTTP and their senders

`acpHttp_ownSender`: in every run in which no handler removes the sender of another pending one from
`pending_http`, a handler that waits for fragments finds its own sender there. The map is keyed by
the session alone, so the handler of a finished prompt can remove the sender of its successor
(`acpHttp_successor_disconnected`).
-/

namespace Zeptoclaw

/-- The handler has an entry in `pending`. -/
def HandlerPhase.holds : HandlerPhase → Bool
  | .pendingInserted | .senderInserted | .published | .waiting | .leaving _ => true
  | .leftPending _ | .done => false

/-- The handler has put its sender into `pending_http`, and still has its entry in `pending`. -/
def HandlerPhase.registered : HandlerPhase → Bool
  | .senderInserted | .published | .waiting | .leaving _ => true
  | .pendingInserted | .leftPending _ | .done => false

/-- The bus has taken the prompt, and the handler still has its entry in `pending`. -/
def HandlerPhase.isPublished : HandlerPhase → Bool
  | .published | .waiting | .leaving none => true
  | .pendingInserted | .senderInserted | .leaving (some _) | .leftPending _ | .done => false

theorem HandlerPhase.registered_of_isPublished {phase : HandlerPhase} (h : phase.isPublished = true) :
    phase.registered = true := by
  cases phase <;> first | rfl | cases h

theorem HandlerPhase.holds_of_registered {phase : HandlerPhase} (h : phase.registered = true) : phase.holds = true := by
  cases phase <;> first | rfl | cases h

namespace AcpHttpChannel

variable {base : BaseChannelConfig} {parse : AcpParse} {s s' : AcpHttpChannel} {ev : AcpHttpEvent}

/-! ## What a step does to the handlers, the two maps and the queue -/

/-- Who put the entry of a session into `pending`. -/
def owner (s : AcpHttpChannel) (sessionId : Str) : Option ℕ := (s.pending.lookup sessionId).map HttpPending.owner

/-- Neither map is changed. -/
structure SameMaps (s s' : AcpHttpChannel) : Prop where
  owner : ∀ sessionId, s'.owner sessionId = s.owner sessionId
  pendingHttp : s'.pendingHttp = s.pendingHttp

/-- A handler works on the same prompt. -/
structure SamePrompt (h h' : AcpHandler) : Prop where
  sessionId : h'.sessionId = h.sessionId
  inbound : h'.inbound = h.inbound

/-- A handler that is published goes on, or nothing is changed but what it reads and writes. -/
inductive GoesOn (h h' : AcpHandler) : Prop where
  | published (same : SamePrompt h h') (phase : h.phase.isPublished = true) (phase' : h'.phase.isPublished = true)
  | samePhase (same : SamePrompt h h') (phase : h'.phase = h.phase)

/-- The phase after the bus has answered. -/
def publishedPhase : Except ZeptoError Unit → HandlerPhase
  | .ok () => .published
  | .error e => .leaving (some (.channel ("ACP-HTTP: failed to publish inbound: ".toList ++ e.display)))

/-- What a step does. -/
inductive Effect (ev : AcpHttpEvent) (s s' : AcpHttpChannel) : Prop where
  | idle (maps : SameMaps s s') (handlers : s'.handlers = s.handlers) (queue : s'.queue = s.queue)
  | goesOn (i : ℕ) (h h' : AcpHandler) (hi : s.handlers[i]? = some h) (go : GoesOn h h') (maps : SameMaps s s')
      (handlers : s'.handlers = s.handlers.set i h') (queue : s'.queue = s.queue)
  | accepts (h : AcpHandler) (free : s.owner h.sessionId = none) (phase : h.phase = .pendingInserted)
      (inbound : h.inbound.chatId = h.sessionId) (handlers : s'.handlers = s.handlers ++ [h])
      (owner : ∀ sessionId, s'.owner sessionId = if sessionId = h.sessionId then some s.handlers.length else s.owner sessionId)
      (pendingHttp : s'.pendingHttp = s.pendingHttp) (queue : s'.queue = s.queue)
  | inserts (i : ℕ) (h h' : AcpHandler) (hi : s.handlers[i]? = some h) (phase : h.phase = .pendingInserted)
      (phase' : h'.phase = .senderInserted) (same : SamePrompt h h') (handlers : s'.handlers = s.handlers.set i h')
      (owner : ∀ sessionId, s'.owner sessionId = s.owner sessionId)
      (pendingHttp : s'.pendingHttp = s.pendingHttp.insert h.sessionId i) (queue : s'.queue = s.queue)
  | publishes (i : ℕ) (bus : BusState) (h h' : AcpHandler) (event : ev = .publish i bus) (hi : s.handlers[i]? = some h)
      (phase : h.phase = .senderInserted) (same : SamePrompt h h') (maps : SameMaps s s')
      (handlers : s'.handlers = s.handlers.set i h') (result : Except ZeptoError Unit) (phase' : h'.phase = publishedPhase result)
      (publishes : bus.Publishes i h.inbound s.queue result s'.queue)
  | leaves (i : ℕ) (h h' : AcpHandler) (hi : s.handlers[i]? = some h) (phase : h.phase.holds = true)
      (phase' : h'.phase.holds = false) (same : SamePrompt h h') (handlers : s'.handlers = s.handlers.set i h')
      (owner : ∀ sessionId, s'.owner sessionId = if sessionId = h.sessionId then none else s.owner sessionId)
      (pendingHttp : s'.pendingHttp = s.pendingHttp) (queue : s'.queue = s.queue)
  | removes (i : ℕ) (h h' : AcpHandler) (event : ev = .removeSender i) (hi : s.handlers[i]? = some h)
      (phase : ∃ error, h.phase = .leftPending error) (phase' : h'.phase = .done) (same : SamePrompt h h')
      (handlers : s'.handlers = s.handlers.set i h') (owner : ∀ sessionId, s'.owner sessionId = s.owner sessionId)
      (pendingHttp : s'.pendingHttp = s.pendingHttp.erase h.sessionId) (queue : s'.queue = s.queue)

theorem Effect.refl (s : AcpHttpChannel) : Effect ev s s := .idle ⟨fun _ => rfl, rfl⟩ rfl rfl

/-- What holds of the state as it is and after the step of a handler in this phase. -/
theorem atPhase_rule {P : AcpHttpChannel → Prop} {i : ℕ} {phase : HandlerPhase} {f : AcpHandler → AcpHttpChannel} (hs : P s)
    (hf : ∀ h : AcpHandler, s.handlers[i]? = some h → h.phase = phase → P (f h)) : P (s.atPhase i phase f) := by
  unfold atPhase
  split
  · next h hi =>
    split
    · next hphase => exact hf h hi hphase
    · exact hs
  · exact hs

/-- A step that only changes one handler. -/
theorem effect_setHandler {i : ℕ} {h h' : AcpHandler} (hi : s.handlers[i]? = some h) (go : GoesOn h h') :
    Effect ev s (s.setHandler i h') := .goesOn i h h' hi go ⟨fun _ => rfl, rfl⟩ rfl rfl

/-- A handler that is after its headers stays there, or leaves without an error. -/
theorem GoesOn.of_phase {h h' : AcpHandler} (same : SamePrompt h h') (hphase : h.phase = .waiting)
    (hphase' : h'.phase = .waiting ∨ h'.phase = .leaving none) : GoesOn h h' := by
  refine .published same (by rw [hphase]; rfl) ?_
  rcases hphase' with hp | hp
  · rw [hp]
    rfl
  · rw [hp]
    rfl

theorem effect_acceptPrompt (id params : Option Json) : Effect ev s (s.acceptPrompt base parse id params) := by
  unfold acceptPrompt
  cases hchecks : s.promptChecks base parse params with
  | error reply => exact .idle ⟨fun _ => rfl, rfl⟩ rfl rfl
  | ok prompt =>
    obtain ⟨sessionId, content⟩ := prompt
    have hfree : s.owner sessionId = none := by
      unfold promptChecks at hchecks
      split at hchecks
      · cases hchecks
      · split at hchecks
        · cases hchecks
        · split at hchecks
          · cases hchecks
          · split at hchecks
            · cases hchecks
            · next hnone =>
              cases hchecks
              rw [Bool.not_eq_true, Option.isSome_eq_false_iff, Option.isNone_iff_eq_none] at hnone
              rw [owner, hnone]
              rfl
    refine .accepts _ hfree rfl rfl rfl (fun sid => ?_) rfl rfl
    unfold owner
    dsimp only
    rw [Assoc.lookup_insert]
    split
    · rfl
    · rfl

theorem effect_insertSender (i : ℕ) : Effect ev s (s.insertSender i) := by
  unfold insertSender
  refine atPhase_rule (P := Effect ev s) (.refl s) fun h hi hphase => ?_
  exact .inserts i h { h with phase := .senderInserted } hi hphase rfl ⟨rfl, rfl⟩ rfl (fun _ => rfl) rfl rfl

theorem effect_publish (i : ℕ) (bus : BusState) : Effect (.publish i bus) s (s.publish i bus) := by
  unfold publish
  refine atPhase_rule (P := Effect (.publish i bus) s) (.refl s) fun h hi hphase => ?_
  have hpublishes := bus.publishes_publishInbound i h.inbound s.queue
  cases hbus : bus.publishInbound i h.inbound s.queue with
  | mk result queue =>
    rw [hbus] at hpublishes
    exact .publishes i bus h { h with phase := publishedPhase result } rfl hi hphase ⟨rfl, rfl⟩ ⟨fun _ => rfl, rfl⟩ rfl
      result rfl hpublishes

theorem effect_writeHeaders (i : ℕ) (ok : Bool) : Effect ev s (s.writeHeaders i ok) := by
  unfold writeHeaders
  refine atPhase_rule (P := Effect ev s) (.refl s) fun h hi hphase => ?_
  refine effect_setHandler hi (.published ⟨rfl, rfl⟩ (by rw [hphase]; rfl) ?_)
  cases ok with
  | true => rfl
  | false => rfl

theorem effect_receive (i through : ℕ) : Effect ev s (s.receive i through) := by
  unfold receive
  refine atPhase_rule (P := Effect ev s) (.refl s) fun h hi hphase => ?_
  split
  · exact .refl s
  · refine effect_setHandler hi (.of_phase ⟨rfl, rfl⟩ hphase ?_)
    dsimp only
    split
    · exact .inr rfl
    · exact .inl rfl

theorem effect_closed (i through : ℕ) : Effect ev s (s.closed i through) := by
  unfold closed
  refine atPhase_rule (P := Effect ev s) (.refl s) fun h hi hphase => ?_
  split
  · exact effect_setHandler hi (.of_phase ⟨rfl, rfl⟩ hphase (.inr rfl))
  · exact .refl s

theorem effect_timeout (i through : ℕ) : Effect ev s (s.timeout i through) := by
  unfold timeout
  refine atPhase_rule (P := Effect ev s) (.refl s) fun h hi hphase => ?_
  split
  · exact effect_setHandler hi (.of_phase ⟨rfl, rfl⟩ hphase (.inr rfl))
  · exact .refl s

theorem effect_heartbeat (i : ℕ) (ok : Bool) : Effect ev s (s.heartbeat i ok) := by
  unfold heartbeat
  refine atPhase_rule (P := Effect ev s) (.refl s) fun h hi hphase => ?_
  split
  · refine effect_setHandler hi ?_
    split
    · exact .of_phase ⟨rfl, rfl⟩ hphase (.inl hphase)
    · exact .of_phase ⟨rfl, rfl⟩ hphase (.inr rfl)
  · exact .refl s

theorem effect_removePending (i : ℕ) : Effect ev s (s.removePending i) := by
  unfold removePending
  split
  · next h hi =>
    split
    · next error hphase =>
      refine .leaves i h { h with phase := .leftPending error } hi ?_ rfl ⟨rfl, rfl⟩ rfl (fun sid => ?_) rfl rfl
      · rw [hphase]
        rfl
      · unfold owner
        dsimp only [setHandler]
        rw [Assoc.lookup_erase]
        split
        · rfl
        · rfl
    · exact .refl s
  · exact .refl s

theorem effect_removeSender (i : ℕ) : Effect (.removeSender i) s (s.removeSender i) := by
  unfold removeSender
  split
  · next h hi =>
    split
    · next error hphase =>
      refine .removes i h { h with phase := .done, written := _ } rfl hi ⟨error, hphase⟩ rfl ⟨rfl, rfl⟩ rfl (fun _ => rfl) rfl rfl
    · exact .refl s
  · exact .refl s

theorem effect_cancel (sessionId : Str) : Effect ev s (s.cancel sessionId) := by
  unfold cancel
  split
  · next p hp =>
    refine .idle ⟨fun sid => ?_, rfl⟩ rfl rfl
    unfold owner
    dsimp only
    rw [Assoc.lookup_insert]
    split
    · next heq =>
      rw [heq, hp]
      rfl
    · rfl
  · exact .refl s

theorem effect_emit (i : ℕ) (content : Str) (metadata : List (Str × Str)) (kind : OutboundMessageKind) :
    Effect ev s (s.emit i content metadata kind) := by
  unfold emit
  split
  · exact .idle ⟨fun _ => rfl, rfl⟩ rfl rfl
  · exact .refl s

theorem effect_finish (i : ℕ) : Effect ev s (s.finish i) := by
  unfold finish
  split
  · exact .idle ⟨fun _ => rfl, rfl⟩ rfl rfl
  · exact .refl s

theorem effect_dispatch : Effect ev s (s.dispatch parse) := by
  unfold dispatch
  split
  · dsimp only
    split
    · exact .idle ⟨fun _ => rfl, rfl⟩ rfl rfl
    · split
      · exact .idle ⟨fun _ => rfl, rfl⟩ rfl rfl
      · exact .idle ⟨fun _ => rfl, rfl⟩ rfl rfl
  · exact .refl s

theorem effect_deliver : Effect ev s s.deliver := by
  unfold deliver
  split
  · exact .refl s
  · next d hd =>
    split
    · exact .refl s
    · next h hi =>
      split
      · exact .idle ⟨fun _ => rfl, rfl⟩ rfl rfl
      · split
        · exact .goesOn d.channel h { h with buffer := h.buffer ++ [(d.origin, d.fragment)] } hi
            (.samePhase ⟨rfl, rfl⟩ rfl) ⟨fun _ => rfl, rfl⟩ rfl rfl
        · exact .refl s

theorem step_effect (s : AcpHttpChannel) (ev : AcpHttpEvent) : Effect ev s (s.step base parse ev) := by
  cases ev with
  | prompt id params => exact effect_acceptPrompt id params
  | insertSender i => exact effect_insertSender i
  | publish i bus => exact effect_publish i bus
  | headers i ok => exact effect_writeHeaders i ok
  | receive i through => exact effect_receive i through
  | closed i through => exact effect_closed i through
  | timeout i through => exact effect_timeout i through
  | heartbeat i ok => exact effect_heartbeat i ok
  | removePending i => exact effect_removePending i
  | removeSender i => exact effect_removeSender i
  | cancel sessionId => exact effect_cancel sessionId
  | emit i content metadata kind => exact effect_emit i content metadata kind
  | finish i => exact effect_finish i
  | dispatch => exact effect_dispatch
  | deliver => exact effect_deliver

/-! ## What holds in every state -/

/-- A handler after one of them was replaced. -/
theorem handler_set {i j : ℕ} {h h' k : AcpHandler} (hi : s.handlers[i]? = some h) (hset : s'.handlers = s.handlers.set i h')
    (hj : s'.handlers[j]? = some k) : (j = i ∧ k = h') ∨ (j ≠ i ∧ s.handlers[j]? = some k) := by
  rw [hset] at hj
  by_cases hji : j = i
  · rw [hji, List.getElem?_set_self (List.getElem?_eq_some_iff.mp hi).1] at hj
    exact .inl ⟨hji, (Option.some.inj hj).symm⟩
  · rw [List.getElem?_set_ne (Ne.symm hji)] at hj
    exact .inr ⟨hji, hj⟩

/-- A handler after one was added. -/
theorem handler_concat {j : ℕ} {h k : AcpHandler} (hadd : s'.handlers = s.handlers ++ [h]) (hj : s'.handlers[j]? = some k) :
    (j = s.handlers.length ∧ k = h) ∨ s.handlers[j]? = some k := by
  rw [hadd, List.getElem?_append] at hj
  split at hj
  · exact .inr hj
  · have hlt := (List.getElem?_eq_some_iff.mp hj).1
    rw [List.length_singleton] at hlt
    have hzero : j - s.handlers.length = 0 := by omega
    rw [hzero] at hj
    exact .inl ⟨by omega, (Option.some.inj hj).symm⟩

/-- What holds in every state: the entry of a session in `pending` is that of the handler that has not
left it, and no handler finds the sender of another one in its place before it leaves. -/
structure Consistent (s : AcpHttpChannel) : Prop where
  chatId : ∀ (i : ℕ) (h : AcpHandler), s.handlers[i]? = some h → h.inbound.chatId = h.sessionId
  owned : ∀ (i : ℕ) (h : AcpHandler), s.handlers[i]? = some h → h.phase.holds = true → s.owner h.sessionId = some i
  sender : ∀ (i : ℕ) (h : AcpHandler), s.handlers[i]? = some h → h.phase.registered = true →
    ∀ j, s.pendingHttp.lookup h.sessionId = some j → j = i

theorem Consistent.chatId_set (hc : s.Consistent) {i : ℕ} {h h' : AcpHandler} (hi : s.handlers[i]? = some h)
    (hset : s'.handlers = s.handlers.set i h') (same : SamePrompt h h') (j : ℕ) (k : AcpHandler)
    (hj : s'.handlers[j]? = some k) : k.inbound.chatId = k.sessionId := by
  rcases handler_set hi hset hj with ⟨rfl, rfl⟩ | ⟨-, hold⟩
  · rw [same.inbound, same.sessionId]
    exact hc.chatId j h hi
  · exact hc.chatId j k hold

/-- A handler that works on the same prompt is still consistent if the maps are as they were. -/
theorem Consistent.set (hc : s.Consistent) {i : ℕ} {h h' : AcpHandler} (hi : s.handlers[i]? = some h)
    (hset : s'.handlers = s.handlers.set i h') (same : SamePrompt h h') (maps : SameMaps s s')
    (hholds : h'.phase.holds = true → h.phase.holds = true)
    (hregistered : h'.phase.registered = true → h.phase.registered = true) : s'.Consistent := by
  constructor
  · exact hc.chatId_set hi hset same
  · intro j k hj hk
    rw [maps.owner]
    rcases handler_set hi hset hj with ⟨rfl, rfl⟩ | ⟨-, hold⟩
    · rw [same.sessionId]
      exact hc.owned j h hi (hholds hk)
    · exact hc.owned j k hold hk
  · intro j k hj hk
    rw [maps.pendingHttp]
    rcases handler_set hi hset hj with ⟨rfl, rfl⟩ | ⟨-, hold⟩
    · rw [same.sessionId]
      exact hc.sender j h hi (hregistered hk)
    · exact hc.sender j k hold hk

/-- Two handlers that have their entries in `pending` are in different sessions. -/
theorem Consistent.eq_of_holds (hc : s.Consistent) {i j : ℕ} {h k : AcpHandler} (hi : s.handlers[i]? = some h)
    (hj : s.handlers[j]? = some k) (hh : h.phase.holds = true) (hk : k.phase.holds = true)
    (hsame : k.sessionId = h.sessionId) : j = i := by
  have howner := hc.owned j k hj hk
  rw [hsame, hc.owned i h hi hh] at howner
  exact (Option.some.inj howner).symm

theorem GoesOn.same {h h' : AcpHandler} (go : GoesOn h h') : SamePrompt h h' := by
  cases go with
  | published same _ _ => exact same
  | samePhase same _ => exact same

theorem GoesOn.holds {h h' : AcpHandler} (go : GoesOn h h') (hh : h'.phase.holds = true) : h.phase.holds = true := by
  cases go with
  | published _ phase _ => exact HandlerPhase.holds_of_registered (HandlerPhase.registered_of_isPublished phase)
  | samePhase _ phase => rw [← phase]; exact hh

theorem GoesOn.registered {h h' : AcpHandler} (go : GoesOn h h') (hh : h'.phase.registered = true) :
    h.phase.registered = true := by
  cases go with
  | published _ phase _ => exact HandlerPhase.registered_of_isPublished phase
  | samePhase _ phase => rw [← phase]; exact hh

theorem Consistent.inserts (hc : s.Consistent) {i : ℕ} {h h' : AcpHandler} (hi : s.handlers[i]? = some h)
    (hphase : h.phase = .pendingInserted) (same : SamePrompt h h') (hset : s'.handlers = s.handlers.set i h')
    (howner : ∀ sessionId, s'.owner sessionId = s.owner sessionId)
    (hinsert : s'.pendingHttp = s.pendingHttp.insert h.sessionId i) : s'.Consistent := by
  have hholds : h.phase.holds = true := by rw [hphase]; rfl
  constructor
  · exact hc.chatId_set hi hset same
  · intro j k hj hk
    rw [howner]
    rcases handler_set hi hset hj with ⟨rfl, rfl⟩ | ⟨-, hold⟩
    · rw [same.sessionId]
      exact hc.owned j h hi hholds
    · exact hc.owned j k hold hk
  · intro j k hj hk n hn
    rw [hinsert, Assoc.lookup_insert] at hn
    rcases handler_set hi hset hj with ⟨rfl, rfl⟩ | ⟨hne, hold⟩
    · rw [same.sessionId, if_pos rfl] at hn
      exact (Option.some.inj hn).symm
    · have hother : k.sessionId ≠ h.sessionId := fun heq =>
        hne (hc.eq_of_holds hi hold hholds (HandlerPhase.holds_of_registered hk) heq)
      rw [if_neg hother] at hn
      exact hc.sender j k hold hk n hn

theorem Consistent.accepts (hc : s.Consistent) {h : AcpHandler} (hfree : s.owner h.sessionId = none)
    (hphase : h.phase = .pendingInserted) (hinbound : h.inbound.chatId = h.sessionId)
    (hadd : s'.handlers = s.handlers ++ [h])
    (howner : ∀ sessionId, s'.owner sessionId = if sessionId = h.sessionId then some s.handlers.length else s.owner sessionId)
    (hsenders : s'.pendingHttp = s.pendingHttp) : s'.Consistent := by
  constructor
  · intro j k hj
    rcases handler_concat hadd hj with ⟨rfl, rfl⟩ | hold
    · exact hinbound
    · exact hc.chatId j k hold
  · intro j k hj hk
    rw [howner]
    rcases handler_concat hadd hj with ⟨rfl, rfl⟩ | hold
    · rw [if_pos rfl]
    · have howned := hc.owned j k hold hk
      have hother : k.sessionId ≠ h.sessionId := by
        intro heq
        rw [heq, hfree] at howned
        cases howned
      rw [if_neg hother]
      exact howned
  · intro j k hj hk n hn
    rw [hsenders] at hn
    rcases handler_concat hadd hj with ⟨rfl, rfl⟩ | hold
    · rw [hphase] at hk
      cases hk
    · exact hc.sender j k hold hk n hn

theorem Consistent.leaves (hc : s.Consistent) {i : ℕ} {h h' : AcpHandler} (hi : s.handlers[i]? = some h)
    (hphase : h.phase.holds = true) (hphase' : h'.phase.holds = false) (same : SamePrompt h h')
    (hset : s'.handlers = s.handlers.set i h')
    (howner : ∀ sessionId, s'.owner sessionId = if sessionId = h.sessionId then none else s.owner sessionId)
    (hsenders : s'.pendingHttp = s.pendingHttp) : s'.Consistent := by
  have hleft : ¬ h'.phase.holds = true := by rw [hphase']; decide
  constructor
  · exact hc.chatId_set hi hset same
  · intro j k hj hk
    rcases handler_set hi hset hj with ⟨rfl, rfl⟩ | ⟨hne, hold⟩
    · exact absurd hk hleft
    · have hother : k.sessionId ≠ h.sessionId := fun heq => hne (hc.eq_of_holds hi hold hphase hk heq)
      rw [howner, if_neg hother]
      exact hc.owned j k hold hk
  · intro j k hj hk n hn
    rw [hsenders] at hn
    rcases handler_set hi hset hj with ⟨rfl, rfl⟩ | ⟨-, hold⟩
    · exact absurd (HandlerPhase.holds_of_registered hk) hleft
    · exact hc.sender j k hold hk n hn

theorem Consistent.removes (hc : s.Consistent) {i : ℕ} {h h' : AcpHandler} (hi : s.handlers[i]? = some h)
    (hphase' : h'.phase = .done) (same : SamePrompt h h') (hset : s'.handlers = s.handlers.set i h')
    (howner : ∀ sessionId, s'.owner sessionId = s.owner sessionId)
    (herase : s'.pendingHttp = s.pendingHttp.erase h.sessionId) : s'.Consistent := by
  constructor
  · exact hc.chatId_set hi hset same
  · intro j k hj hk
    rw [howner]
    rcases handler_set hi hset hj with ⟨rfl, rfl⟩ | ⟨-, hold⟩
    · rw [hphase'] at hk
      cases hk
    · exact hc.owned j k hold hk
  · intro j k hj hk n hn
    rcases handler_set hi hset hj with ⟨rfl, rfl⟩ | ⟨-, hold⟩
    · rw [hphase'] at hk
      cases hk
    · rw [herase, Assoc.lookup_erase] at hn
      split at hn
      · cases hn
      · exact hc.sender j k hold hk n hn

theorem Effect.consistent (heffect : Effect ev s s') (hc : s.Consistent) : s'.Consistent := by
  cases heffect with
  | idle maps handlers _ =>
    refine ⟨?_, ?_, ?_⟩
    · rw [handlers]
      exact hc.chatId
    · intro i h hi hh
      rw [handlers] at hi
      rw [maps.owner]
      exact hc.owned i h hi hh
    · rw [handlers, maps.pendingHttp]
      exact hc.sender
  | goesOn i h h' hi go maps handlers _ => exact hc.set hi handlers go.same maps go.holds go.registered
  | accepts h free phase inbound handlers owner pendingHttp _ => exact hc.accepts free phase inbound handlers owner pendingHttp
  | inserts i h h' hi phase _ same handlers owner pendingHttp _ => exact hc.inserts hi phase same handlers owner pendingHttp
  | publishes i bus h h' _ hi phase same maps handlers result _ _ =>
    exact hc.set hi handlers same maps (fun _ => by rw [phase]; rfl) (fun _ => by rw [phase]; rfl)
  | leaves i h h' hi phase phase' same handlers owner pendingHttp _ =>
    exact hc.leaves hi phase phase' same handlers owner pendingHttp
  | removes i h h' _ hi _ phase' same handlers owner pendingHttp _ => exact hc.removes hi phase' same handlers owner pendingHttp

theorem step_consistent (s : AcpHttpChannel) (ev : AcpHttpEvent) (hc : s.Consistent) : (s.step base parse ev).Consistent :=
  (step_effect s ev).consistent hc

theorem consistent_start (sessions : List Str) : ({ sessions } : AcpHttpChannel).Consistent :=
  ⟨fun _ _ h => (nomatch h), fun _ _ h => (nomatch h), fun _ _ h => (nomatch h)⟩

/-! ## Senders -/

/-- Every handler that has its entry in `pending` and has stored its sender finds it there. -/
def OwnSender (s : AcpHttpChannel) : Prop :=
  ∀ (i : ℕ) (h : AcpHandler), s.handlers[i]? = some h → h.phase.registered = true → s.pendingHttp.lookup h.sessionId = some i

/-- A handler that is about to remove the sender of its session does not find that of another one that
has its entry in `pending`. -/
def RemovesOwn (s : AcpHttpChannel) : AcpHttpEvent → Prop
  | .removeSender i => ∀ (h : AcpHandler), s.handlers[i]? = some h → (∃ error, h.phase = .leftPending error) →
      ∀ j, s.pendingHttp.lookup h.sessionId = some j → ∀ (k : AcpHandler), s.handlers[j]? = some k → k.phase.registered = true →
        j = i
  | _ => True

theorem OwnSender.set (hown : s.OwnSender) {i : ℕ} {h h' : AcpHandler} (hi : s.handlers[i]? = some h)
    (hset : s'.handlers = s.handlers.set i h') (same : SamePrompt h h') (hsenders : s'.pendingHttp = s.pendingHttp)
    (hregistered : h'.phase.registered = true → h.phase.registered = true) : s'.OwnSender := by
  intro j k hj hk
  rw [hsenders]
  rcases handler_set hi hset hj with ⟨rfl, rfl⟩ | ⟨-, hold⟩
  · rw [same.sessionId]
    exact hown j h hi (hregistered hk)
  · exact hown j k hold hk

/-- **A step that removes no sender of another pending handler leaves every handler with its own one.** -/
theorem Effect.ownSender (heffect : Effect ev s s') (hc : s.Consistent) (hown : s.OwnSender) (hremoves : s.RemovesOwn ev) :
    s'.OwnSender := by
  cases heffect with
  | idle maps handlers _ =>
    intro i h hi hh
    rw [handlers] at hi
    rw [maps.pendingHttp]
    exact hown i h hi hh
  | goesOn i h h' hi go maps handlers _ => exact hown.set hi handlers go.same maps.pendingHttp go.registered
  | accepts h _ phase _ handlers _ pendingHttp _ =>
    intro j k hj hk
    rw [pendingHttp]
    rcases handler_concat handlers hj with ⟨rfl, rfl⟩ | hold
    · rw [phase] at hk
      cases hk
    · exact hown j k hold hk
  | inserts i h h' hi phase _ same handlers _ pendingHttp _ =>
    intro j k hj hk
    rw [pendingHttp, Assoc.lookup_insert]
    rcases handler_set hi handlers hj with ⟨rfl, rfl⟩ | ⟨hne, hold⟩
    · rw [same.sessionId, if_pos rfl]
    · -- the session of the handler that stores its sender has no other registered one
      have hother : k.sessionId ≠ h.sessionId := fun heq =>
        hne (hc.eq_of_holds hi hold (by rw [phase]; rfl) (HandlerPhase.holds_of_registered hk) heq)
      rw [if_neg hother]
      exact hown j k hold hk
  | publishes i bus h h' _ hi phase same maps handlers _ _ _ =>
    exact hown.set hi handlers same maps.pendingHttp fun _ => by rw [phase]; rfl
  | leaves i h h' hi _ phase' same handlers _ pendingHttp _ =>
    refine hown.set hi handlers same pendingHttp fun hk => ?_
    rw [HandlerPhase.holds_of_registered hk] at phase'
    cases phase'
  | removes i h h' event hi phase phase' same handlers _ pendingHttp _ =>
    intro j k hj hk
    rcases handler_set hi handlers hj with ⟨rfl, rfl⟩ | ⟨hne, hold⟩
    · rw [phase'] at hk
      cases hk
    · have hsender := hown j k hold hk
      have hother : k.sessionId ≠ h.sessionId := by
        intro heq
        rw [heq] at hsender
        rw [event] at hremoves
        exact hne (hremoves h hi phase j hsender k hold hk)
      rw [pendingHttp, Assoc.lookup_erase, if_neg hother]
      exact hsender

end AcpHttpChannel

open AcpHttpChannel

/-- **In every run in which no handler removes the sender of another one that is pending, a handler that
waits for fragments finds its own sender in `pending_http`.** -/
theorem acpHttp_ownSender (base : BaseChannelConfig) (parse : AcpParse) (sessions : List Str) (events : List AcpHttpEvent)
    (hremoves : StepsMeet (step base parse) RemovesOwn { sessions } events) (i : ℕ) (h : AcpHandler)
    (hi : (runSteps (step base parse) { sessions } events).handlers[i]? = some h) (hwaiting : h.phase = .waiting) :
    (runSteps (step base parse) { sessions } events).pendingHttp.lookup h.sessionId = some i := by
  have hstep : ∀ (s : AcpHttpChannel) (ev : AcpHttpEvent), s.Consistent ∧ s.OwnSender → s.RemovesOwn ev →
      (s.step base parse ev).Consistent ∧ (s.step base parse ev).OwnSender :=
    fun s ev hs hcond => ⟨step_consistent s ev hs.1, (step_effect s ev).ownSender hs.1 hs.2 hcond⟩
  have hrun := run_invariant hstep events { sessions } ⟨consistent_start sessions, fun _ _ hnone => (nomatch hnone)⟩ hremoves
  exact hrun.2 i h hi (by rw [hwaiting]; rfl)

/-! ## Two prompts in one session -/

/-- The parameters of a prompt. -/
def helloParams : Json := .object
  [("sessionId".toList, .string "acp_A".toList),
    ("prompt".toList, .array [.object [("type".toList, .string "text".toList), ("text".toList, .string "hi".toList)]])]

/-- `serde_json` on these parameters. -/
def helloParse : AcpParse where
  request _ := .error "expected value at line 1 column 1".toList
  initParams _ := none
  sessionNew _ := none
  sessionPrompt params := (params.strField "sessionId".toList).map fun sessionId => ⟨sessionId, [.text "hi".toList]⟩
  sessionCancel params := params.strField "sessionId".toList
  sessionList params := .ok (params.strField "cwd".toList)
  payload _ := none

/-- A prompt is accepted, published and answered, up to the last frame. -/
def answeredPrompt : List AcpHttpEvent :=
  [.prompt (some (.number "1".toList)) (some helloParams), .insertSender 0, .publish 0 {}, .headers 0 true,
    .emit 0 "ok".toList [] .full, .finish 0, .dispatch, .deliver, .receive 0 2, .removePending 0]

/-- The next prompt of the client. -/
def nextPrompt : AcpHttpEvent := .prompt (some (.number "2".toList)) (some helloParams)

def helloChannel (events : List AcpHttpEvent) : AcpHttpChannel :=
  runSteps (step {} helloParse) { sessions := ["acp_A".toList] } events

/-- The first handler removes its own sender, and the client asks again after that. -/
def inTurn : AcpHttpChannel :=
  helloChannel (answeredPrompt ++ [.removeSender 0, nextPrompt, .insertSender 1, .publish 1 {}, .headers 1 true])

/-- The client asks again before the first handler removes the sender of the session. -/
def overlapping : AcpHttpChannel :=
  helloChannel (answeredPrompt ++ [nextPrompt, .insertSender 1, .removeSender 0, .publish 1 {}, .headers 1 true])

theorem acpHttp_ownSender_inTurn :
    ∃ h, inTurn.handlers[1]? = some h ∧ h.phase = .waiting ∧ inTurn.pendingHttp.lookup h.sessionId = some 1 := by
  have hwaits : (inTurn.handlers[1]?).map AcpHandler.phase = some .waiting := by decide +kernel
  obtain ⟨h, hi, hwaiting⟩ := Option.map_eq_some_iff.mp hwaits
  refine ⟨h, hi, hwaiting, acpHttp_ownSender {} helloParse _ _ ?_ 1 h hi hwaiting⟩
  have hown : (((helloChannel answeredPrompt).handlers[0]?).bind fun h =>
      (helloChannel answeredPrompt).pendingHttp.lookup h.sessionId) = some 0 := by decide +kernel
  refine ⟨trivial, trivial, trivial, trivial, trivial, trivial, trivial, trivial, trivial, trivial, ?_, trivial, trivial,
    trivial, trivial, trivial⟩
  intro k hk _ j hj _ _ _
  have hk' : (helloChannel answeredPrompt).handlers[0]? = some k := hk
  have hj' : (helloChannel answeredPrompt).pendingHttp.lookup k.sessionId = some j := hj
  rw [hk', Option.bind_some, hj'] at hown
  exact Option.some.inj hown

/-- The sender that the first handler removes is then that of the second one. -/
theorem acpHttp_successor_disconnected :
    ¬ ∀ i (h : AcpHandler), overlapping.handlers[i]? = some h → h.phase = .waiting →
      overlapping.pendingHttp.lookup h.sessionId = some i := by
  intro hall
  have hwaits : (overlapping.handlers[1]?).map AcpHandler.phase = some .waiting := by decide +kernel
  have hgone : ((overlapping.handlers[1]?).bind fun h => overlapping.pendingHttp.lookup h.sessionId) = none := by
    decide +kernel
  obtain ⟨h, hi, hwaiting⟩ := Option.map_eq_some_iff.mp hwaits
  rw [hi, Option.bind_some, hall 1 h hi hwaiting] at hgone
  cases hgone

end Zeptoclaw

import Zeptoclaw.Spec.Queue

/-!
# Queued messages: what draining keeps, and when the queue is emptied

`drainPendingMessages_preserves_iff`: replaying the messages keeps everything; collecting
them into one keeps their texts, and the rest only if there was nothing else to keep.
`queue_not_stranded`: no message is left behind in a run in which direct callers never
walk away from a queue that nobody else will look at.
-/

namespace Zeptoclaw

open Text

/-! ## Draining -/

/-- The published messages are routed to the session and carry the texts of the pending
ones in order, their attachments and, with pairing on, their tokens. -/
structure DrainPreserves (pairing : Bool) (key : Str) (pending out : List InboundMessage) : Prop where
  routed : ∀ m ∈ out, m.sessionKey = key
  texts : InOrder (pending.map InboundMessage.content) (out.flatMap InboundMessage.content)
  media : (pending.flatMap InboundMessage.media).Sublist (out.flatMap InboundMessage.media)
  accepted : pairing = true → ∀ p ∈ pending, ∀ token, p.authToken = some token →
    ∃ m ∈ out, p.content <:+: m.content ∧ m.authToken = some token

theorem inOrder_flatMap (pending : List InboundMessage) :
    InOrder (pending.map InboundMessage.content) (pending.flatMap InboundMessage.content) := by
  induction pending with
  | nil => trivial
  | cons m rest ih => exact ih.cons [] m.content

theorem inOrder_numbered : ∀ (pending : List InboundMessage) (n : ℕ),
    InOrder (pending.map InboundMessage.content) (['\n'].intercalate (numbered n pending)) := by
  intro pending
  induction pending with
  | nil => intro n; trivial
  | cons m rest ih =>
    intro n
    cases rest with
    | nil =>
      have h : InOrder [] ([] : Str) := trivial
      have hone := h.cons ((toString n).toList ++ ". ".toList) m.content
      simpa [numbered, List.intercalate] using hone
    | cons m' rest' =>
      have hrest := (ih (n + 1)).prepend ['\n']
      have hcons := hrest.cons ((toString n).toList ++ ". ".toList) m.content
      simpa [numbered, List.intercalate] using hcons

/-- Collecting keeps the texts. -/
theorem inOrder_collectedContent (pending : List InboundMessage) :
    InOrder (pending.map InboundMessage.content) (collectedContent pending) :=
  (inOrder_numbered pending 1).prepend _

theorem followup_preserves (pairing : Bool) (p : PendingMessages) (key : Str) :
    DrainPreserves pairing key (p.get key) (p.get key) where
  routed := p.keyed key
  texts := inOrder_flatMap _
  media := List.Sublist.refl _
  accepted := fun _ m hm _ ht => ⟨m, hm, List.infix_rfl, ht⟩

/-- **What draining preserves**: everything when the messages are replayed or there are
none; when they are collected, everything if the session has the key that is derived from
the channel and the chat and no message has an attachment or, with pairing on, a token. -/
theorem drainPendingMessages_preserves_iff (mode : MessageQueueMode) (pairing : Bool) (msg : InboundMessage)
    (p : PendingMessages) :
    DrainPreserves pairing msg.sessionKey (p.get msg.sessionKey) (drainPendingMessages mode msg p).1 ↔
      mode = .followup ∨ p.get msg.sessionKey = [] ∨
        (InboundMessage.defaultSessionKey msg.channel msg.chatId = msg.sessionKey ∧
          ∀ m ∈ p.get msg.sessionKey, m.media = [] ∧ (pairing = true → m.authToken = none)) := by
  unfold drainPendingMessages republished
  simp only
  by_cases hnil : p.get msg.sessionKey = []
  · rw [if_pos hnil, hnil]
    refine ⟨fun _ => .inr (.inl rfl), fun _ => ⟨?_, trivial, List.Sublist.refl _, ?_⟩⟩
    · intro m hm; cases hm
    · intro _ m hm; cases hm
  rw [if_neg hnil]
  cases mode with
  | followup => exact ⟨fun _ => .inl rfl, fun _ => followup_preserves pairing p msg.sessionKey⟩
  | collect =>
    constructor
    · intro h
      refine .inr (.inr ⟨h.routed _ (List.mem_singleton.2 rfl), fun m hm => ⟨?_, fun hpair => ?_⟩⟩)
      · -- the collected message has no attachments
        have hmedia : ∀ x ∈ p.get msg.sessionKey, x.media = [] := by
          simpa [InboundMessage.new] using h.media
        exact hmedia m hm
      · by_contra hne
        obtain ⟨token, ht⟩ := Option.ne_none_iff_exists'.1 hne
        obtain ⟨out, hout, -, htoken⟩ := h.accepted hpair m hm token ht
        rw [List.mem_singleton.1 hout] at htoken
        cases htoken
    · rintro (h | h | ⟨hkey, hrest⟩)
      · cases h
      · exact absurd h hnil
      · refine ⟨?_, ?_, ?_, ?_⟩
        · intro m hm
          rw [List.mem_singleton.1 hm]
          exact hkey
        · simpa [InboundMessage.new] using inOrder_collectedContent (p.get msg.sessionKey)
        · have hmedia : (p.get msg.sessionKey).flatMap InboundMessage.media = [] :=
            List.flatMap_eq_nil_iff.2 fun m hm => (hrest m hm).1
          rw [hmedia]
          exact List.nil_sublist _
        · intro hpair m hm token ht
          rw [(hrest m hm).2 hpair] at ht
          cases ht

/-- A photo, queued for a session that is busy. -/
def photoMessage : InboundMessage :=
  { InboundMessage.new "telegram".toList "7".toList "42".toList "Look".toList with
    media := [⟨.image, none, some [255, 216], none, none⟩] }

/-- Collecting loses the photo. -/
theorem drainPendingMessages_loses_media :
    ¬ ∀ (mode : MessageQueueMode) (pairing : Bool) (msg : InboundMessage) (p : PendingMessages),
      DrainPreserves pairing msg.sessionKey (p.get msg.sessionKey) (drainPendingMessages mode msg p).1 := by
  intro h
  have hmedia := (h .collect false photoMessage (.push .empty photoMessage)).media
  exact absurd hmedia (by decide)

/-! ## Stranded messages -/

/-- The message that the loop has at hand and has still to test, or will drain after. -/
def LoopPhase.serving : LoopPhase → Option InboundMessage
  | .consumed msg | .waiting msg | .running msg | .draining msg => some msg
  | _ => none

section Stranded

variable {ι : Type*} {mode : MessageQueueMode} {s s' : QueueState ι}

/-- When the loop is idle, nothing is pending for a session whose lock nobody holds or
waits for. -/
def NotStranded (s : QueueState ι) : Prop :=
  ∀ key, s.loop = .idle → ¬ s.busy key → s.pending.get key = []

/-- Nothing is pending for the session, or the loop has a message of it at hand. -/
def Attended (s : QueueState ι) (key : Str) : Prop :=
  s.pending.get key = [] ∨ ∃ msg, s.loop.serving = some msg ∧ msg.sessionKey = key

/-- A direct caller that is the last to hold or to wait for a session's lock leaves only a
session that is attended to, and the loop queues a message only while the session is busy. -/
def LeavesAttended [DecidableEq ι] (s : QueueState ι) : QueueInput ι → Prop
  | .release caller key => s.lock key = .direct caller → s.waiters key ≠ [] ∨ Attended s key
  | .abandon caller key => s.lock key ≠ .free ∨ (s.waiters key).erase caller ≠ [] ∨ Attended s key
  | .push => ∀ msg, s.loop = .queueing msg → s.busy msg.sessionKey
  | _ => True

/-- The invariant: every session is busy or attended to. -/
def QueueOk (s : QueueState ι) : Prop := ∀ key, s.busy key ∨ Attended s key

theorem QueueOk.notStranded (h : QueueOk s) : NotStranded s := by
  intro key hidle hfree
  rcases h key with hb | hp | ⟨msg, hl, -⟩
  · exact absurd hb hfree
  · exact hp
  · rw [hidle] at hl
    cases hl

/-- A loop without a message at hand attends to nothing. -/
theorem QueueOk.unserved (h : QueueOk s) (hl : s.loop.serving = none) (key : Str) :
    s.busy key ∨ s.pending.get key = [] := by
  rcases h key with hb | hp | ⟨msg, hm, -⟩
  · exact .inl hb
  · exact .inr hp
  · rw [hl] at hm
    cases hm

/-- A loop attends to the session of its message only. -/
theorem QueueOk.served (h : QueueOk s) {msg : InboundMessage} (hl : s.loop.serving = some msg) {key : Str}
    (hkey : key ≠ msg.sessionKey) : s.busy key ∨ s.pending.get key = [] := by
  rcases h key with hb | hp | ⟨m, hm, rfl⟩
  · exact .inl hb
  · exact .inr hp
  · rw [hl] at hm
    cases hm
    exact absurd rfl hkey

theorem busy_setLock {key key' : Str} {holder : Holder ι} (hne : key ≠ key') (h : s.busy key) :
    (s.setLock key' holder).busy key := by
  simpa [QueueState.busy, QueueState.setLock, Function.update_of_ne hne] using h

theorem busy_setWaiters {key key' : Str} {waiters : List ι} (hne : key ≠ key') (h : s.busy key) :
    (s.setWaiters key' waiters).busy key := by
  simpa [QueueState.busy, QueueState.setWaiters, Function.update_of_ne hne] using h

/-- The loop queues a message of a busy session. -/
theorem push_ok (h : QueueOk s) {msg : InboundMessage} (hl : s.loop = .queueing msg) (hb : s.busy msg.sessionKey) :
    QueueOk { s with loop := .idle, pending := s.pending.push msg } := by
  intro key
  by_cases hk : key = msg.sessionKey
  · rw [hk]
    exact .inl hb
  · rcases h.unserved (by rw [hl]; rfl) key with hbusy | hp
    · exact .inl hbusy
    · refine .inr (.inl ?_)
      show (if key = msg.sessionKey then _ else s.pending.get key) = []
      rw [if_neg hk]
      exact hp

/-- The loop goes on with its message, whatever it does with that session's lock. -/
theorem keep_serving (h : QueueOk s) {msg : InboundMessage} (hl : s.loop.serving = some msg) {loop : LoopPhase}
    (hloop : loop.serving = some msg) (holder : Holder ι) :
    QueueOk { s.setLock msg.sessionKey holder with loop := loop } := by
  intro key
  by_cases hk : key = msg.sessionKey
  · exact .inr (.inr ⟨msg, hloop, hk.symm⟩)
  · rcases h.served hl hk with hbusy | hp
    · exact .inl (busy_setLock hk hbusy)
    · exact .inr (.inl hp)

/-- A direct caller changes a session's lock and its waiters; the session is then busy, or
attended to as it was. -/
theorem direct_ok (h : QueueOk s) (key : Str) (holder : Holder ι) (waiters : List ι)
    (hkey : ((s.setLock key holder).setWaiters key waiters).busy key ∨ Attended s key) :
    QueueOk ((s.setLock key holder).setWaiters key waiters) := by
  intro k
  by_cases hk : k = key
  · rw [hk]
    exact hkey
  · rcases h k with hb | ha
    · exact .inl (busy_setWaiters hk (busy_setLock hk hb))
    · exact .inr ha

variable [DecidableEq ι]

/-- The loop tests a session: it is busy, or the loop goes on with its message. -/
theorem testSession_ok (h : QueueOk s) {msg : InboundMessage} (hl : s.loop = .consumed msg) :
    QueueOk (testSession s msg) := by
  unfold testSession
  intro key
  have hother : key ≠ msg.sessionKey → s.busy key ∨ s.pending.get key = [] :=
    h.served (by rw [hl]; rfl)
  split_ifs with hbusy
  · by_cases hk : key = msg.sessionKey
    · rw [hk]
      exact .inl hbusy
    · exact (hother hk).imp id .inl
  · by_cases hk : key = msg.sessionKey
    · exact .inr (.inr ⟨msg, rfl, hk.symm⟩)
    · exact (hother hk).imp id .inl

/-- The loop drains the session of its message and is idle again. -/
theorem drain_ok (h : QueueOk s) {msg : InboundMessage} (hl : s.loop = .draining msg) :
    QueueOk (loopStep mode s .drain) := by
  simp only [loopStep, hl, drainPendingMessages]
  intro key
  by_cases hk : key = msg.sessionKey
  · refine .inr (.inl ?_)
    show (if key = msg.sessionKey then [] else _) = []
    rw [if_pos hk]
  · rcases h.served (by rw [hl]; rfl) hk with hbusy | hp
    · exact .inl hbusy
    · refine .inr (.inl ?_)
      show (if key = msg.sessionKey then [] else s.pending.get key) = []
      rw [if_neg hk]
      exact hp

/-- Every step of the loop keeps the invariant. -/
theorem loopStep_ok (h : QueueOk s) {input : QueueInput ι} (hc : LeavesAttended s input) :
    QueueOk (loopStep mode s input) := by
  cases input with
  | consume accepted =>
    simp only [loopStep]
    split
    · next hl _ =>
      intro key
      exact (h.unserved (by rw [hl]; rfl) key).imp id .inl
    · exact h
  | test =>
    simp only [loopStep]
    split
    · next hl => exact testSession_ok h hl
    · exact h
  | push =>
    simp only [loopStep]
    split
    · next msg hl => exact push_ok h hl (hc msg hl)
    · exact h
  | acquire =>
    simp only [loopStep]
    split
    · next msg hl =>
      split_ifs
      · exact keep_serving h (by rw [hl]; rfl) rfl .loop
      · exact h
    · exact h
  | finish =>
    simp only [loopStep]
    split
    · next msg hl => exact keep_serving h (by rw [hl]; rfl) rfl .free
    · exact h
  | timeout =>
    simp only [loopStep]
    split
    · next msg hl =>
      have hkeep : QueueOk { s.setLock msg.sessionKey (s.lock msg.sessionKey) with loop := .draining msg } :=
        keep_serving h (by rw [hl]; rfl) rfl _
      simpa [QueueState.setLock] using hkeep
    · exact h
  | drain =>
    cases hl : s.loop with
    | draining msg => exact drain_ok h hl
    | _ => simp only [loopStep, hl]; exact h
  | _ => exact h

/-- **Every step that leaves no session unattended keeps the invariant.** -/
theorem queueStep_ok (h : QueueOk s) {input : QueueInput ι} (hc : LeavesAttended s input) :
    QueueOk (queueStep mode s input) := by
  cases input with
  | publish msg => exact h
  | arrive caller key =>
    have hkeep := direct_ok h key (s.lock key) (s.waiters key ++ [caller])
      (.inl (.inr (by simp [QueueState.setWaiters])))
    simpa [queueStep, QueueState.setLock] using hkeep
  | take caller key =>
    simp only [queueStep]
    split_ifs with htake
    · exact direct_ok h key _ _ (.inl (.inl (by simp [QueueState.setLock, QueueState.setWaiters])))
    · exact h
  | release caller key =>
    simp only [queueStep]
    split_ifs with hheld
    · have hkeep := direct_ok h key .free (s.waiters key) (by
        rcases hc hheld with hw | ha
        · exact .inl (.inr (by simpa [QueueState.setWaiters] using hw))
        · exact .inr ha)
      simpa [QueueState.setWaiters, QueueState.setLock] using hkeep
    · exact h
  | abandon caller key =>
    have hkeep := direct_ok h key (s.lock key) ((s.waiters key).erase caller) (by
      rcases hc with hl | hw | ha
      · exact .inl (.inl (by simpa [QueueState.setWaiters, QueueState.setLock] using hl))
      · exact .inl (.inr (by simpa [QueueState.setWaiters] using hw))
      · exact .inr ha)
    simpa [queueStep, QueueState.setLock] using hkeep
  | _ => exact loopStep_ok h hc

/-- **No queued message is stranded** in a run whose steps leave no session unattended. -/
theorem queue_not_stranded (mode : MessageQueueMode) (inputs : List (QueueInput ι))
    (hmeet : StepsMeet (queueStep mode) LeavesAttended .init inputs) :
    NotStranded (runSteps (queueStep mode) .init inputs) := by
  have hinit : QueueOk (.init : QueueState ι) := fun key => .inr (.inl rfl)
  have hstep : ∀ (s : QueueState ι) (input : QueueInput ι), QueueOk s → LeavesAttended s input →
      QueueOk (queueStep mode s input) := fun _ _ h hc => queueStep_ok h hc
  exact (run_invariant hstep inputs .init hinit hmeet).notStranded

end Stranded

/-! A spawned run holds the lock of the session for which the loop gets a message. -/

def helloMessage : InboundMessage := .new "cli".toList "user".toList "1".toList "Hello".toList

/-- The loop finds the session busy and queues the message. -/
def queuedRun : List (QueueInput ℕ) :=
  [.arrive 0 helloMessage.sessionKey, .take 0 helloMessage.sessionKey, .publish helloMessage, .consume true, .test, .push]

/-- While the spawned run is still going, nothing is stranded. -/
theorem queue_not_stranded_running : NotStranded (runSteps (queueStep .collect) .init queuedRun) := by
  refine queue_not_stranded .collect queuedRun ?_
  refine ⟨trivial, trivial, trivial, trivial, trivial, ?_, trivial⟩
  intro msg hmsg
  cases hmsg
  exact .inl (by decide)

/-- It ends, and nobody drains the queue. -/
theorem queue_stranded :
    ¬ ∀ (mode : MessageQueueMode) (inputs : List (QueueInput ℕ)), NotStranded (runSteps (queueStep mode) .init inputs) := by
  intro h
  have hnil := h .collect (queuedRun ++ [.release 0 helloMessage.sessionKey]) helloMessage.sessionKey rfl (by decide)
  exact absurd hnil (by decide)

end Zeptoclaw

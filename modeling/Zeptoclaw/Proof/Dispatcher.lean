import Zeptoclaw.Lib.Run
import Zeptoclaw.Spec.ChannelManager

/-!
# Where an outbound message is

* `dispatch_conserves`: over every interleaving of publishers, of the manager and of any number
  of dispatcher tasks, each published message is at one place: sent or dropped, held by one
  task, or in the queue; it is dropped only if its channel is not registered then.
* `dispatch_order`: if a dispatcher is only spawned when the one before it has ended, a channel
  is sent its messages in the order of their publication.
-/

namespace Zeptoclaw

/-- A task goes from one phase to the next, with the queue before and after it and what it is through with. -/
inductive TaskMove (channels : List Str) : DispatchPhase → List OutboundMessage →
    DispatchPhase → List OutboundMessage → List (OutboundMessage × Bool) → Prop
  | shutdown (out : List OutboundMessage) : TaskMove channels .waiting out .stopped out []
  | consume (msg : OutboundMessage) (rest : List OutboundMessage) :
    TaskMove channels .waiting (msg :: rest) (.taken msg) rest []
  | found {msg : OutboundMessage} (h : msg.channel ∈ channels) (out : List OutboundMessage) :
    TaskMove channels (.taken msg) out (.sending msg) out []
  | dropped {msg : OutboundMessage} (h : msg.channel ∉ channels) (out : List OutboundMessage) :
    TaskMove channels (.taken msg) out .waiting out [(msg, false)]
  | sent (msg : OutboundMessage) (out : List OutboundMessage) :
    TaskMove channels (.sending msg) out .waiting out [(msg, true)]

/-- A move of a task neither loses nor doubles a message, nor does it reorder them. -/
theorem TaskMove.conserves {channels : List Str} {p q : DispatchPhase} {out out' : List OutboundMessage}
    {new : List (OutboundMessage × Bool)} (h : TaskMove channels p out q out' new) :
    p.held ++ out = new.map Prod.fst ++ (q.held ++ out') := by
  cases h <;> rfl

section TaskMove

variable {channels : List Str} {p q : DispatchPhase} {out out' : List OutboundMessage} {new : List (OutboundMessage × Bool)}

theorem TaskMove.ne_stopped (h : TaskMove channels p out q out' new) : p ≠ .stopped := by
  cases h <;> exact fun heq => by cases heq

theorem TaskMove.eq_sending (h : TaskMove channels p out q out' new) {msg : OutboundMessage} (hmsg : (msg, true) ∈ new) :
    p = .sending msg := by
  cases h with
  | sent =>
    cases List.mem_singleton.mp hmsg
    rfl
  | dropped => cases List.mem_singleton.mp hmsg
  | shutdown | consume | found => exact absurd hmsg List.not_mem_nil

theorem TaskMove.channel_of_dropped (h : TaskMove channels p out q out' new) {msg : OutboundMessage}
    (hmsg : (msg, false) ∈ new) : msg.channel ∉ channels := by
  cases h with
  | dropped hmem =>
    cases List.mem_singleton.mp hmsg
    exact hmem
  | sent => cases List.mem_singleton.mp hmsg
  | shutdown | consume | found => exact absurd hmsg List.not_mem_nil

theorem TaskMove.channel_of_sending {msg : OutboundMessage} (h : TaskMove channels p out (.sending msg) out' new) :
    msg.channel ∈ channels := by
  cases h with
  | found hmem => exact hmem

end TaskMove

/-- What a step can do. -/
theorem dispatchStep_cases (s : Dispatch) (input : DispatchInput) :
    dispatchStep s input = s ∨
    (∃ name, dispatchStep s input = { s with channels := name :: s.channels }) ∨
    (∃ msg, dispatchStep s input = { s with outbound := s.outbound ++ [msg], published := s.published ++ [msg] }) ∨
    (input = .spawn ∧ dispatchStep s input = { s with tasks := s.tasks ++ [.waiting] }) ∨
    ∃ before p q after out' new, s.tasks = before ++ p :: after ∧ TaskMove s.channels p s.outbound q out' new ∧
      dispatchStep s input =
        { s with tasks := before ++ q :: after, outbound := out', handled := s.handled ++ new } := by
  cases input with
  | register name => exact Or.inr (Or.inl ⟨name, rfl⟩)
  | publish msg => exact Or.inr (Or.inr (Or.inl ⟨msg, rfl⟩))
  | spawn => exact Or.inr (Or.inr (Or.inr (Or.inl ⟨rfl, rfl⟩)))
  | shutdown task =>
    simp only [dispatchStep]
    split
    · next h =>
      obtain ⟨before, after, -, htasks, hset⟩ := exists_split_of_getElem? h
      refine Or.inr (Or.inr (Or.inr (Or.inr ⟨before, _, .stopped, after, _, _, htasks, .shutdown _, ?_⟩)))
      rw [Dispatch.setTask, hset, List.append_nil]
    · exact Or.inl rfl
  | consume task =>
    simp only [dispatchStep]
    split
    · next msg rest h hout =>
      obtain ⟨before, after, -, htasks, hset⟩ := exists_split_of_getElem? h
      refine Or.inr (Or.inr (Or.inr (Or.inr ⟨before, _, .taken msg, after, rest, [], htasks, hout ▸ .consume msg rest, ?_⟩)))
      rw [Dispatch.setTask, hset, List.append_nil]
    · exact Or.inl rfl
  | lookup task =>
    simp only [dispatchStep]
    split
    · next msg h =>
      obtain ⟨before, after, -, htasks, hset⟩ := exists_split_of_getElem? h
      split
      · next hmem =>
        refine Or.inr (Or.inr (Or.inr (Or.inr ⟨before, _, .sending msg, after, _, _, htasks, .found hmem _, ?_⟩)))
        rw [Dispatch.setTask, hset, List.append_nil]
      · next hmem =>
        refine Or.inr (Or.inr (Or.inr (Or.inr ⟨before, _, .waiting, after, _, _, htasks, .dropped hmem _, ?_⟩)))
        rw [Dispatch.setTask, hset]
        rfl
    · exact Or.inl rfl
  | send task =>
    simp only [dispatchStep]
    split
    · next msg h =>
      obtain ⟨before, after, -, htasks, hset⟩ := exists_split_of_getElem? h
      refine Or.inr (Or.inr (Or.inr (Or.inr ⟨before, _, .waiting, after, _, _, htasks, .sent msg _, ?_⟩)))
      rw [Dispatch.setTask, hset]
      rfl
    · exact Or.inl rfl

namespace Dispatch

/-- The messages that the tasks hold. -/
def held (s : Dispatch) : List OutboundMessage := s.tasks.flatMap DispatchPhase.held

/-- The published messages, by where they are: handled, held or in the queue. -/
def places (s : Dispatch) : List OutboundMessage := s.handled.map Prod.fst ++ (s.held ++ s.outbound)

/-- Each published message is at one place, and what was sent has a channel. -/
structure Conserved (s : Dispatch) : Prop where
  placed : s.places.Perm s.published
  sent : ∀ msg, (msg, true) ∈ s.handled → msg.channel ∈ s.channels
  sending : ∀ msg, .sending msg ∈ s.tasks → msg.channel ∈ s.channels

theorem Conserved.move {s : Dispatch} (hs : s.Conserved) {before after : List DispatchPhase} {p q : DispatchPhase}
    {out' : List OutboundMessage} {new : List (OutboundMessage × Bool)} (htasks : s.tasks = before ++ p :: after)
    (hmove : TaskMove s.channels p s.outbound q out' new) :
    Conserved { s with tasks := before ++ q :: after, outbound := out', handled := s.handled ++ new } where
  placed := by
    refine List.Perm.trans ?_ hs.placed
    rw [List.perm_iff_count]
    intro msg
    have hcount := congrArg (List.count msg) hmove.conserves
    simp only [List.count_append] at hcount
    simp only [Dispatch.places, Dispatch.held, htasks, List.map_append, List.flatMap_append, List.flatMap_cons,
      List.count_append]
    omega
  sent := by
    intro msg hmsg
    rcases List.mem_append.mp hmsg with hmsg | hmsg
    · exact hs.sent msg hmsg
    · refine hs.sending msg ?_
      rw [htasks, hmove.eq_sending hmsg]
      exact List.mem_append_right _ List.mem_cons_self
  sending := by
    intro msg hmsg
    have hold : ∀ t ∈ before ++ after, t ∈ s.tasks := by
      intro t ht
      rw [htasks]
      exact List.mem_append.mpr ((List.mem_append.mp ht).imp_right (List.mem_cons_of_mem p))
    rcases List.mem_append.mp hmsg with hmsg | hmsg
    · exact hs.sending msg (hold _ (List.mem_append_left _ hmsg))
    · rcases List.mem_cons.mp hmsg with rfl | hmsg
      · exact hmove.channel_of_sending
      · exact hs.sending msg (hold _ (List.mem_append_right _ hmsg))

theorem Conserved.step {s : Dispatch} (hs : s.Conserved) (input : DispatchInput) : (dispatchStep s input).Conserved := by
  rcases dispatchStep_cases s input with h | ⟨name, h⟩ | ⟨msg, h⟩ | ⟨-, h⟩ |
    ⟨before, p, q, after, out', new, htasks, hmove, h⟩ <;> rw [h]
  · exact hs
  · exact ⟨hs.placed, fun msg hmsg => List.mem_cons_of_mem _ (hs.sent msg hmsg),
      fun msg hmsg => List.mem_cons_of_mem _ (hs.sending msg hmsg)⟩
  · refine ⟨?_, hs.sent, hs.sending⟩
    have hplaced := hs.placed.append_right [msg]
    rw [places, List.append_assoc, List.append_assoc] at hplaced
    exact hplaced
  · refine ⟨?_, hs.sent, fun msg hmsg => ?_⟩
    · have hplaced := hs.placed
      rw [places, held] at hplaced ⊢
      rw [List.flatMap_append]
      exact (List.append_nil (s.tasks.flatMap DispatchPhase.held)).symm ▸ hplaced
    · rcases List.mem_append.mp hmsg with hmsg | hmsg
      · exact hs.sending msg hmsg
      · cases List.mem_singleton.mp hmsg
  · exact hs.move htasks hmove

/-- What a step is through with is sent if its channel is registered, and dropped if it is not. -/
def HandlesByChannel (s : Dispatch) (input : DispatchInput) : Prop :=
  ∃ new, (dispatchStep s input).handled = s.handled ++ new ∧
    ∀ msg sent, (msg, sent) ∈ new → (sent = true ↔ msg.channel ∈ s.channels)

theorem Conserved.handlesByChannel {s : Dispatch} (hs : s.Conserved) (input : DispatchInput) : s.HandlesByChannel input := by
  have hnone : (dispatchStep s input).handled = s.handled → s.HandlesByChannel input :=
    fun h => ⟨[], by rw [h, List.append_nil], fun _ _ hmsg => absurd hmsg List.not_mem_nil⟩
  rcases dispatchStep_cases s input with h | ⟨name, h⟩ | ⟨msg, h⟩ | ⟨-, h⟩ |
    ⟨before, p, q, after, out', new, htasks, hmove, h⟩
  · exact hnone (by rw [h])
  · exact hnone (by rw [h])
  · exact hnone (by rw [h])
  · exact hnone (by rw [h])
  · refine ⟨new, by rw [h], fun msg sent hmsg => ?_⟩
    cases sent with
    | true =>
      refine iff_of_true rfl (hs.sending msg ?_)
      rw [htasks, hmove.eq_sending hmsg]
      exact List.mem_append_right _ List.mem_cons_self
    | false => exact iff_of_false Bool.false_ne_true (hmove.channel_of_dropped hmsg)

end Dispatch

/-- **No outbound message is lost or sent twice**, in whatever order publishers, the manager and
the dispatcher tasks take their steps: what a task is through with was sent if its channel was
registered at that time, and dropped if it was not. -/
theorem dispatch_conserves (names : List Str) (inputs : List DispatchInput) :
    (runSteps dispatchStep { channels := names } inputs).Conserved ∧
      StepsMeet dispatchStep Dispatch.HandlesByChannel { channels := names } inputs := by
  have hstart : Dispatch.Conserved { channels := names } :=
    ⟨List.Perm.refl _, fun _ h => absurd h List.not_mem_nil, fun _ h => absurd h List.not_mem_nil⟩
  have hrun : ∀ inputs, (runSteps dispatchStep { channels := names } inputs).Conserved :=
    fun inputs => run_preserves (fun _ input hs => hs.step input) inputs _ hstart
  refine ⟨hrun inputs, stepsMeet_iff.mpr fun before input after _ => ?_⟩
  exact (hrun before).handlesByChannel input

/-! ## One dispatcher at a time -/

namespace Dispatch

/-- What was sent on a channel. -/
def sentOn (s : Dispatch) (name : Str) : List OutboundMessage :=
  (s.handled.filter fun h => h.2 && decide (h.1.channel = name)).map Prod.fst

/-- At most one task is in its loop, what it is through with comes before what it holds and what is in the
queue, and only messages without a channel were dropped. -/
structure Ordered (names : List Str) (s : Dispatch) : Prop where
  alone : AtMostOne (· ≠ .stopped) s.tasks
  placed : s.places = s.published
  channels : ∀ name ∈ names, name ∈ s.channels
  dropped : ∀ msg, (msg, false) ∈ s.handled → msg.channel ∉ names

/-- A dispatcher is spawned when the tasks before it have ended. -/
def SpawnsAlone (s : Dispatch) (input : DispatchInput) : Prop :=
  input = .spawn → ∀ p ∈ s.tasks, p = .stopped

theorem held_stopped {tasks : List DispatchPhase} (h : ∀ p ∈ tasks, p = .stopped) :
    tasks.flatMap DispatchPhase.held = [] := by
  rw [List.flatMap_eq_nil_iff]
  intro p hp
  rw [h p hp]
  rfl

theorem Ordered.move {names : List Str} {s : Dispatch} (hs : s.Ordered names) {before after : List DispatchPhase}
    {p q : DispatchPhase} {out' : List OutboundMessage} {new : List (OutboundMessage × Bool)}
    (htasks : s.tasks = before ++ p :: after) (hmove : TaskMove s.channels p s.outbound q out' new) :
    Ordered names { s with tasks := before ++ q :: after, outbound := out', handled := s.handled ++ new } := by
  have halone := hs.alone
  rw [htasks] at halone
  have hothers := halone.others hmove.ne_stopped
  have hbefore : ∀ t ∈ before, t = .stopped := fun t ht => not_not.mp (hothers t (List.mem_append_left _ ht))
  have hafter : ∀ t ∈ after, t = .stopped := fun t ht => not_not.mp (hothers t (List.mem_append_right _ ht))
  refine ⟨halone.replace fun _ => hothers, ?_, hs.channels, fun msg hmsg => ?_⟩
  · refine Eq.trans ?_ hs.placed
    unfold places held
    rw [htasks]
    simp only [List.flatMap_append, List.flatMap_cons, held_stopped hbefore, held_stopped hafter, List.nil_append,
      List.append_nil, List.map_append, List.append_assoc]
    rw [hmove.conserves]
  · rcases List.mem_append.mp hmsg with hmsg | hmsg
    · exact hs.dropped msg hmsg
    · exact fun hname => hmove.channel_of_dropped hmsg (hs.channels _ hname)

theorem Ordered.step {names : List Str} {s : Dispatch} (hs : s.Ordered names) {input : DispatchInput}
    (hspawn : s.SpawnsAlone input) : (dispatchStep s input).Ordered names := by
  rcases dispatchStep_cases s input with h | ⟨name, h⟩ | ⟨msg, h⟩ | ⟨hin, h⟩ |
    ⟨before, p, q, after, out', new, htasks, hmove, h⟩ <;> rw [h]
  · exact hs
  · exact ⟨hs.alone, hs.placed, fun n hn => List.mem_cons_of_mem _ (hs.channels n hn), hs.dropped⟩
  · refine ⟨hs.alone, ?_, hs.channels, hs.dropped⟩
    change s.handled.map Prod.fst ++ (s.held ++ (s.outbound ++ [msg])) = s.published ++ [msg]
    rw [← hs.placed, places, List.append_assoc, List.append_assoc]
  · have hstopped := hspawn hin
    refine ⟨hs.alone.concat fun _ p hp => not_not_intro (hstopped p hp), ?_, hs.channels, hs.dropped⟩
    · refine Eq.trans ?_ hs.placed
      unfold places held
      rw [List.flatMap_append, held_stopped hstopped]
      rfl
  · exact hs.move htasks hmove

/-- What was sent on a channel, and what is still to be sent on it. -/
theorem Ordered.sentOn {names : List Str} {s : Dispatch} (hs : s.Ordered names) {name : Str} (hname : name ∈ names) :
    s.sentOn name ++ (s.held ++ s.outbound).filter (fun msg => decide (msg.channel = name)) =
      s.published.filter fun msg => decide (msg.channel = name) := by
  have hfilter : s.handled.filter (fun h => h.2 && decide (h.1.channel = name)) =
      s.handled.filter ((fun msg => decide (msg.channel = name)) ∘ Prod.fst) := by
    refine List.filter_congr fun h hh => ?_
    obtain ⟨msg, sent⟩ := h
    cases sent with
    | true => exact Bool.true_and _
    | false =>
      have hne : msg.channel ≠ name := fun heq => hs.dropped msg hh (heq ▸ hname)
      rw [Bool.false_and, Function.comp_apply, decide_eq_false hne]
  rw [← hs.placed, places, List.filter_append, List.filter_append, List.filter_append, List.filter_map, ← hfilter]
  rfl

end Dispatch

/-- **A channel is sent its messages in the order in which they were published**, over every run in
which a dispatcher is spawned only when the earlier ones have ended. -/
theorem dispatch_order {names : List Str} {name : Str} (hname : name ∈ names) {inputs : List DispatchInput}
    (hspawn : StepsMeet dispatchStep Dispatch.SpawnsAlone { channels := names } inputs) :
    (runSteps dispatchStep { channels := names } inputs).sentOn name ++
        ((runSteps dispatchStep { channels := names } inputs).held ++
          (runSteps dispatchStep { channels := names } inputs).outbound).filter (fun msg => decide (msg.channel = name)) =
      (runSteps dispatchStep { channels := names } inputs).published.filter fun msg => decide (msg.channel = name) := by
  have hstart : Dispatch.Ordered names { channels := names } :=
    ⟨List.Pairwise.nil, rfl, fun _ h => h, fun _ h => absurd h List.not_mem_nil⟩
  have hend : Dispatch.Ordered names (runSteps dispatchStep { channels := names } inputs) :=
    run_invariant (fun s input hs hmeet => hs.step hmeet) inputs _ hstart hspawn
  exact hend.sentOn hname

/-- Two messages for `m` around one for no channel; the dispatcher is stopped and another one spawned between them. -/
def dispatchInputs : List DispatchInput :=
  [.publish ⟨['m'], [], ['a'], none, [], .full⟩, .spawn, .consume 0, .publish ⟨['x'], [], [], none, [], .full⟩, .lookup 0,
    .send 0, .shutdown 0, .publish ⟨['m'], [], ['b'], none, [], .full⟩, .spawn, .consume 1, .lookup 1, .consume 1]

theorem dispatch_order_example : StepsMeet dispatchStep Dispatch.SpawnsAlone { channels := [['m']] } dispatchInputs ∧
    (runSteps dispatchStep { channels := [['m']] } dispatchInputs).sentOn ['m'] ++
        ((runSteps dispatchStep { channels := [['m']] } dispatchInputs).held ++
          (runSteps dispatchStep { channels := [['m']] } dispatchInputs).outbound).filter
            (fun msg => decide (msg.channel = ['m'])) =
      (runSteps dispatchStep { channels := [['m']] } dispatchInputs).published.filter
        fun msg => decide (msg.channel = ['m']) :=
  have hspawn : StepsMeet dispatchStep Dispatch.SpawnsAlone { channels := [['m']] } dispatchInputs := by
    refine ⟨?_, ?_, ?_, ?_, ?_, ?_, ?_, ?_, ?_, ?_, ?_, ?_, trivial⟩ <;> intro h <;> first | decide | cases h
  ⟨hspawn, dispatch_order List.mem_cons_self hspawn⟩

end Zeptoclaw

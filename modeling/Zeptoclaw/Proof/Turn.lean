import Zeptoclaw.Spec.Turn

/-!
# What is streamed, what is stored, and what is lost

`finishTurn_stored_iff`: a completed turn stores what it delivered exactly when the
forwarding task sees `Done` with the text that was streamed (or, without deltas, that was
sent as a whole). `turns_kept`: the stored session has the messages of every run that saved,
as long as no run saves a session that another one has saved since it was loaded.
-/

namespace Zeptoclaw

open Text

/-! ## What a turn stores -/

/-- The text that a channel gets. -/
def deliveredText (published : List Outbound) : Str := published.flatMap Outbound.content

/-- A completed turn saves the user message and, at the end, the delivered text. -/
def StoredAsStreamed (user : Message) (t : TurnEnd) : Prop :=
  ∀ published, t.published = some published →
    ∃ before between, t.saved = some (before ++ user :: between ++ [.assistant (deliveredText published)])

/-- The deltas that come first. -/
def leadingDeltas : List StreamEvent → List Str
  | .delta text :: events => text :: leadingDeltas events
  | _ => []

def afterDeltas : List StreamEvent → List StreamEvent
  | .delta _ :: events => afterDeltas events
  | events => events

section Stored

variable (extract : Str → Str) (channel : Str)

/-- The text of a reply that was not streamed. -/
def fullReply (content : Str) : Str :=
  let reply := resolveStreamedResponseText [] content
  if supportsCustomUiChannel channel then extract reply else reply

/-- After the deltas comes an error, or `Done` with their text; without deltas the text of
`Done` is sent as it is. The session still has the user message. -/
def EndsAsStreamed (user : Message) (session : List Message) (events : List StreamEvent) : Prop :=
  match afterDeltas events with
  | .error _ :: _ => True
  | .done content _ :: _ =>
    user ∈ session ∧
      if leadingDeltas events = [] then fullReply extract channel content = content
      else (leadingDeltas events).flatten = content
  | _ => False

theorem leadingDeltas_append (events : List StreamEvent) :
    events = (leadingDeltas events).map .delta ++ afterDeltas events := by
  fun_induction leadingDeltas events with
  | case1 text events ih => rw [List.map_cons, List.cons_append, afterDeltas, ← ih]
  | case2 events hne =>
    unfold afterDeltas
    split
    · next text rest => exact absurd rfl (hne text rest)
    · rfl

theorem afterDeltas_ne_delta (events : List StreamEvent) (text : Str) (rest : List StreamEvent) :
    afterDeltas events ≠ .delta text :: rest := by
  fun_induction afterDeltas events with
  | case1 _ events ih => exact ih
  | case2 events hne => exact fun h => hne text rest h

theorem forward_deltas (session : List Message) (rest : List StreamEvent) : ∀ deltas : List Str,
    forward session (deltas.map .delta ++ rest) =
      ((forward session rest).1, deltas.map .delta ++ (forward session rest).2) := by
  intro deltas
  induction deltas with
  | nil => rfl
  | cons text deltas ih => rw [List.map_cons, List.cons_append, forward, ih]; rfl

theorem consume_deltas (rest : List StreamEvent) : ∀ (deltas : List Str) (c : Consumer),
    consume c (deltas.map .delta ++ rest) =
      consume { c with
        hadDelta := c.hadDelta || !deltas.isEmpty
        streamedContent := c.streamedContent ++ deltas.flatten
        published := c.published ++ deltas.map .chunk } rest := by
  intro deltas
  induction deltas with
  | nil => intro c; simp
  | cons text deltas ih =>
    intro c
    rw [List.map_cons, List.cons_append, consume, ih]
    simp

/-- The consumer behind the deltas. -/
def afterConsuming (deltas : List Str) : Consumer := ⟨!deltas.isEmpty, [], deltas.flatten, deltas.map .chunk⟩

/-- A turn, by what comes behind its deltas. -/
theorem finishTurn_eq (session : List Message) (events : List StreamEvent) :
    finishTurn extract channel session events =
      match consume (afterConsuming (leadingDeltas events)) (forward session (afterDeltas events)).2 with
      | .ok c => ⟨some (c.published ++ [lastOutbound extract channel c]), (forward session (afterDeltas events)).1⟩
      | .error _ => ⟨none, (forward session (afterDeltas events)).1⟩ := by
  have hsplit := leadingDeltas_append events
  have hforward := forward_deltas session (afterDeltas events) (leadingDeltas events)
  rw [← hsplit] at hforward
  unfold finishTurn
  rw [hforward]
  simp only [consume_deltas, Bool.false_or, List.nil_append]
  rfl

theorem deliveredText_chunks (deltas : List Str) : deliveredText (deltas.map .chunk) = deltas.flatten := by
  unfold deliveredText
  induction deltas with
  | nil => rfl
  | cons text deltas ih => rw [List.map_cons, List.flatMap_cons, ih]; rfl

theorem deliveredText_append (a b : List Outbound) : deliveredText (a ++ b) = deliveredText a ++ deliveredText b :=
  List.flatMap_append

/-- What a turn that ends with `Done` delivers. -/
theorem deliveredText_done (deltas : List Str) (content : Str) :
    deliveredText (deltas.map .chunk ++
        [lastOutbound extract channel { afterConsuming deltas with
          finalContent := resolveStreamedResponseText deltas.flatten content }]) =
      if deltas = [] then fullReply extract channel content else deltas.flatten := by
  rw [deliveredText_append, deliveredText_chunks]
  cases deltas with
  | nil =>
    rw [if_pos rfl]
    unfold deliveredText fullReply lastOutbound afterConsuming
    simp [Outbound.content]
  | cons text deltas =>
    rw [if_neg (List.cons_ne_nil text deltas)]
    unfold deliveredText lastOutbound afterConsuming
    simp [Outbound.content]

theorem Message.assistant_injective {a b : Str} (h : Message.assistant a = Message.assistant b) : a = b :=
  congrArg Message.content h

/-- **A completed turn stores what it delivered** exactly under this condition on the
events and on the session before the final call. -/
theorem finishTurn_stored_iff (user : Message) (session : List Message) (events : List StreamEvent) :
    StoredAsStreamed user (finishTurn extract channel session events) ↔
      EndsAsStreamed extract channel user session events := by
  rw [finishTurn_eq]
  unfold EndsAsStreamed
  match hrest : afterDeltas events with
  | .delta text :: rest => exact absurd hrest (afterDeltas_ne_delta events text rest)
  | .error message :: rest =>
    exact ⟨fun _ => trivial, fun _ published h => nomatch h⟩
  | .toolCalls calls :: rest =>
    refine ⟨fun h => ?_, False.elim⟩
    obtain ⟨_, _, hsaved⟩ := h _ rfl
    cases hsaved
  | [] =>
    refine ⟨fun h => ?_, False.elim⟩
    obtain ⟨_, _, hsaved⟩ := h _ rfl
    cases hsaved
  | .done content usage :: rest =>
    -- the two cases of the condition say that the delivered text is the stored one
    have htext : deliveredText _ = _ := deliveredText_done extract channel (leadingDeltas events) content
    have hif : (if leadingDeltas events = [] then fullReply extract channel content = content
        else (leadingDeltas events).flatten = content) ↔
        (if leadingDeltas events = [] then fullReply extract channel content else (leadingDeltas events).flatten) =
          content := by
      split <;> rfl
    dsimp only
    rw [hif, ← htext]
    constructor
    · intro h
      obtain ⟨before, between, hsaved⟩ := h _ rfl
      obtain ⟨hsession, hlast⟩ := List.append_inj' (Option.some.inj hsaved) rfl
      have hcontent := Message.assistant_injective (List.head_eq_of_cons_eq hlast)
      exact ⟨hsession ▸ List.mem_append_right before List.mem_cons_self, hcontent.symm⟩
    · rintro ⟨huser, hcontent⟩ published hpublished
      obtain ⟨before, between, rfl⟩ := List.append_of_mem huser
      refine ⟨before, between, ?_⟩
      rw [← Option.some.inj hpublished]
      exact congrArg (fun t => some (before ++ user :: between ++ [Message.assistant t])) hcontent.symm

/-- `Done` without the text that was streamed: the channel has seen `Hello`, the session
has an empty reply. -/
theorem finishTurn_not_stored :
    ¬ ∀ (session : List Message) (events : List StreamEvent),
      .user "hi".toList ∈ session →
        StoredAsStreamed (.user "hi".toList) (finishTurn id "telegram".toList session events) := by
  intro h
  obtain ⟨before, between, hsaved⟩ := h [.user "hi".toList] [.delta "Hello".toList, .done [] none]
    List.mem_cons_self [.chunk "Hello".toList, .chunkEnd] rfl
  obtain ⟨-, hlast⟩ := List.append_inj' (Option.some.inj hsaved) rfl
  exact absurd hlast (by decide)

end Stored

/-! ## What the runs of a session keep -/

section Turns

variable {ι : Type*} {user : ι → Message} {s : TurnState ι}

/-- The stored session has the user message and the reply of every run that saved. -/
def TurnsKept (user : ι → Message) (s : TurnState ι) : Prop :=
  ∀ r reply, (s.runs r).saved = some reply →
    ⟨user r, some r⟩ ∈ s.stored ∧ ⟨.assistant reply, some r⟩ ∈ s.stored

/-- A run saves only if nothing was saved since it loaded the session, and compaction keeps
the user messages and replies. -/
def SavesFresh (s : TurnState ι) : TurnInput ι → Prop
  | .save r _ => (s.runs r).phase = .loaded → (s.runs r).loadedAt = s.saves
  | .deferredSave r _ => (s.runs r).phase = .deferred → (s.runs r).loadedAt = s.saves
  | .compact r recovered => (s.runs r).phase = .loaded → ∀ m ∈ (s.runs r).session, m.turn ≠ none → m ∈ recovered
  | _ => True

/-- The session of a run that has not saved yet: it has the user message and, unless it is
out of date, the turns that are stored. -/
structure RunCurrent (user : ι → Message) (s : TurnState ι) (r : ι) (run : TurnRun ι) : Prop where
  user_mem : ⟨user r, some r⟩ ∈ run.session
  turns_mem : run.loadedAt = s.saves → ∀ m ∈ s.stored, m.turn ≠ none → m ∈ run.session

/-- The invariant of the runs for one session key. -/
structure TurnsOk (user : ι → Message) (s : TurnState ι) : Prop where
  kept : TurnsKept user s
  past : ∀ r, (s.runs r).loadedAt ≤ s.saves
  current : ∀ r, (s.runs r).phase = .loaded ∨ (s.runs r).phase = .deferred → RunCurrent user s r (s.runs r)

theorem TurnsOk.setLock (h : TurnsOk user s) (lock : Option ι) : TurnsOk user { s with lock } :=
  ⟨h.kept, h.past, fun r hr => ⟨(h.current r hr).user_mem, (h.current r hr).turns_mem⟩⟩

theorem TurnsOk.init (stored : List Message) : TurnsOk user (TurnState.init (ι := ι) stored) where
  kept _ _ h := nomatch h
  past _ := Nat.le_refl 0
  current _ h := by rcases h with h | h <;> cases h

variable [DecidableEq ι]

theorem TurnState.setRun_self (r : ι) (run : TurnRun ι) : (s.setRun r run).runs r = run := by
  simp only [TurnState.setRun, Function.update_self]

theorem TurnState.setRun_of_ne {r r' : ι} (h : r' ≠ r) (run : TurnRun ι) : (s.setRun r run).runs r' = s.runs r' := by
  simp only [TurnState.setRun, Function.update_of_ne h]

/-- A step that changes one run and saves nothing. -/
theorem TurnsOk.setRun (h : TurnsOk user s) {r : ι} {run : TurnRun ι} (hsaved : run.saved = (s.runs r).saved)
    (hpast : run.loadedAt ≤ s.saves)
    (hcurrent : run.phase = .loaded ∨ run.phase = .deferred → RunCurrent user s r run) : TurnsOk user (s.setRun r run) := by
  refine ⟨fun r' reply hr' => ?_, fun r' => ?_, fun r' hr' => ?_⟩
  · by_cases heq : r' = r
    · subst heq
      rw [TurnState.setRun_self, hsaved] at hr'
      exact h.kept r' reply hr'
    · rw [TurnState.setRun_of_ne heq] at hr'
      exact h.kept r' reply hr'
  · by_cases heq : r' = r
    · subst heq
      rw [TurnState.setRun_self]
      exact hpast
    · rw [TurnState.setRun_of_ne heq]
      exact h.past r'
  · by_cases heq : r' = r
    · subst heq
      rw [TurnState.setRun_self] at hr' ⊢
      exact ⟨(hcurrent hr').user_mem, (hcurrent hr').turns_mem⟩
    · rw [TurnState.setRun_of_ne heq] at hr' ⊢
      exact ⟨(h.current r' hr').user_mem, (h.current r' hr').turns_mem⟩

/-- A run ends without saving. -/
theorem TurnsOk.endRun (h : TurnsOk user s) (r : ι) : TurnsOk user (s.setRun r { s.runs r with phase := .ended }) :=
  h.setRun rfl (h.past r) fun hp => by rcases hp with hp | hp <;> cases hp

/-- **A run saves a session that is up to date.** -/
theorem TurnsOk.saveRun (h : TurnsOk user s) {r : ι} (hp : (s.runs r).phase = .loaded ∨ (s.runs r).phase = .deferred)
    (hfresh : (s.runs r).loadedAt = s.saves) (reply : Str) : TurnsOk user (s.saveRun r reply) := by
  have hcur := h.current r hp
  refine ⟨fun r' reply' hr' => ?_, fun r' => ?_, fun r' hr' => ?_⟩
  · by_cases heq : r' = r
    · subst heq
      simp only [TurnState.saveRun, TurnState.setRun, Function.update_self, Option.some.injEq] at hr'
      subst hr'
      exact ⟨List.mem_append_left _ hcur.user_mem, List.mem_append_right _ (List.mem_singleton.mpr rfl)⟩
    · simp only [TurnState.saveRun, TurnState.setRun, Function.update_of_ne heq] at hr'
      obtain ⟨huser, hreply⟩ := h.kept r' reply' hr'
      have huser' := hcur.turns_mem hfresh _ huser (Option.some_ne_none r')
      have hreply' := hcur.turns_mem hfresh _ hreply (Option.some_ne_none r')
      exact ⟨List.mem_append_left _ huser', List.mem_append_left _ hreply'⟩
  · have hle : (s.runs r').loadedAt ≤ s.saves + 1 := Nat.le_succ_of_le (h.past r')
    by_cases heq : r' = r
    · subst heq
      simpa only [TurnState.saveRun, TurnState.setRun, Function.update_self] using hle
    · simpa only [TurnState.saveRun, TurnState.setRun, Function.update_of_ne heq] using hle
  · by_cases heq : r' = r
    · subst heq
      simp [TurnState.saveRun, TurnState.setRun, Function.update_self] at hr'
    · simp only [TurnState.saveRun, TurnState.setRun, Function.update_of_ne heq] at hr' ⊢
      -- every other run is out of date now
      have hpast := h.past r'
      exact ⟨(h.current r' hr').user_mem, fun hloaded => by dsimp only at hloaded; omega⟩

theorem turnStep_ok {streaming : ι → Bool} (s : TurnState ι) (input : TurnInput ι) (h : TurnsOk user s)
    (hcond : SavesFresh s input) : TurnsOk user (turnStep user streaming s input) := by
  cases input with
  | lock r =>
    dsimp only [turnStep]
    split
    · have hrun : TurnsOk user (s.setRun r { s.runs r with phase := .locked }) :=
        h.setRun rfl (h.past r) fun hp => by rcases hp with hp | hp <;> cases hp
      exact hrun.setLock _
    · exact h
  | load r =>
    dsimp only [turnStep]
    split
    · refine h.setRun rfl (Nat.le_refl _) fun _ => ⟨List.mem_append_right _ (List.mem_singleton.mpr rfl), ?_⟩
      intro _ m hm _
      exact List.mem_append_left _ hm
    · exact h
  | add r message =>
    dsimp only [turnStep]
    split
    · next hp =>
      have hcur := h.current r (.inl hp)
      refine h.setRun rfl (h.past r) fun _ => ⟨List.mem_append_left _ hcur.user_mem, fun hloaded m hm ht => ?_⟩
      exact List.mem_append_left _ (hcur.turns_mem hloaded m hm ht)
    · exact h
  | compact r recovered =>
    dsimp only [turnStep]
    split
    · next hp =>
      have hcur := h.current r (.inl hp)
      refine h.setRun rfl (h.past r) fun _ => ⟨hcond hp _ hcur.user_mem (Option.some_ne_none r), fun hloaded m hm ht => ?_⟩
      exact hcond hp m (hcur.turns_mem hloaded m hm ht) ht
    · exact h
  | save r reply =>
    dsimp only [turnStep]
    split
    · next hp => exact TurnsOk.setLock (h.saveRun (.inl hp) (hcond hp) reply) _
    · exact h
  | spawn r =>
    dsimp only [turnStep]
    split
    · next hp =>
      have hcur := h.current r (.inl hp.1)
      have hrun : TurnsOk user (s.setRun r { s.runs r with phase := .deferred }) :=
        h.setRun rfl (h.past r) fun _ => ⟨hcur.user_mem, hcur.turns_mem⟩
      exact hrun.setLock _
    · exact h
  | deferredSave r reply =>
    dsimp only [turnStep]
    split
    · next hp => exact h.saveRun (.inr hp) (hcond hp) reply
    · exact h
  | dropTask r =>
    dsimp only [turnStep]
    split
    · exact h.endRun r
    · exact h
  | abort r =>
    dsimp only [turnStep]
    split
    · exact TurnsOk.setLock (h.endRun r) _
    · exact h

/-- **No turn is lost**: the stored session has the user message and the reply of every run
that saved, when every run saves a session that is up to date. -/
theorem turns_kept (user : ι → Message) (streaming : ι → Bool) (stored : List Message) (inputs : List (TurnInput ι))
    (hmeet : StepsMeet (turnStep user streaming) SavesFresh (.init stored) inputs) :
    TurnsKept user (runSteps (turnStep user streaming) (.init stored) inputs) :=
  (run_invariant turnStep_ok inputs _ (.init stored) hmeet).kept

/-- The two users of the runs below. -/
def twoUsers (r : Bool) : Message := if r then .user "second".toList else .user "first".toList

/-- A streaming run whose deferred save comes before the next run begins. -/
theorem turns_kept_in_order :
    TurnsKept twoUsers (runSteps (turnStep twoUsers fun r => !r) (.init [])
      [.lock false, .load false, .spawn false, .deferredSave false "one".toList, .lock true, .load true,
        .save true "two".toList]) :=
  turns_kept twoUsers (fun r => !r) [] _ (by
    simp [StepsMeet, SavesFresh, turnStep, TurnState.init, TurnState.setRun, TurnState.saveRun, Function.update])

/-- The deferred save of a streaming run overwrites the turn that came in between. -/
theorem turns_lost :
    ¬ ∀ inputs : List (TurnInput Bool),
      TurnsKept twoUsers (runSteps (turnStep twoUsers fun r => !r) (.init []) inputs) := by
  intro h
  have hkept := h [.lock false, .load false, .spawn false, .lock true, .load true, .save true "two".toList,
    .deferredSave false "one".toList] true "two".toList (by decide)
  exact absurd hkept.1 (by decide)

end Turns

end Zeptoclaw

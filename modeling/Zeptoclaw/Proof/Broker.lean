import Zeptoclaw.Spec.Broker
import Mathlib.Data.Nat.Find

/-!
# What the approval broker keeps

`broker_bookkeeping`: in every run a request gets at most one decision, queues are ordered
by registration and not empty, operations stay within their thread, and `resolve_all`
takes exactly the entries that are not hard-floor. `resolveFifo_delivers_iff`: a plain
reply reaches the oldest request that waits exactly if that request is in front of the
queue; entries of requests that timed out stay there until the sweep.
-/

namespace Zeptoclaw

namespace ApprovalBroker

variable {b : ApprovalBroker} {t : ThreadKey} {approved : Bool}

/-! ## Sending -/

/-- The decision is sent to each of the entries. -/
def deliver (b : ApprovalBroker) (approved : Bool) (out : List PendingEntry) : ApprovalBroker :=
  { b with
    sent := b.sent ++ out.map fun e => (e.tx, approved)
    receivers := fun tx =>
      if b.receivers tx = .waiting ∧ tx ∈ out.map PendingEntry.tx then .received approved else b.receivers tx }

theorem deliver_nil (b : ApprovalBroker) (approved : Bool) : b.deliver approved [] = b := by
  simp [deliver]

theorem send_fst (b : ApprovalBroker) (approved : Bool) (e : PendingEntry) :
    (b.send approved e).1 = b.deliver approved [e] := by
  unfold send
  dsimp only
  split
  · rename_i hw
    refine ApprovalBroker.ext rfl rfl (funext fun tx => ?_) rfl
    by_cases htx : tx = e.tx
    · simp [deliver, hw, htx]
    · simp [deliver, htx]
  · rename_i hw
    refine ApprovalBroker.ext rfl rfl (funext fun tx => ?_) rfl
    by_cases htx : tx = e.tx
    · simp [deliver, hw, htx]
    · simp [deliver, htx]

theorem deliver_cons (b : ApprovalBroker) (approved : Bool) (e : PendingEntry) (out : List PendingEntry) :
    (b.deliver approved [e]).deliver approved out = b.deliver approved (e :: out) := by
  refine ApprovalBroker.ext rfl rfl (funext fun tx => ?_) ?_
  · by_cases hw : b.receivers tx = .waiting
    · by_cases htx : tx = e.tx
      · subst htx
        simp [deliver, hw]
      · simp [deliver, hw, htx]
    · simp [deliver, hw]
  · simp [deliver]

theorem foldl_send : ∀ (out : List PendingEntry) (b : ApprovalBroker),
    out.foldl (fun b e => (b.send approved e).1) b = b.deliver approved out := by
  intro out
  induction out with
  | nil => intro b; exact (deliver_nil b approved).symm
  | cons e out ih =>
    intro b
    rw [List.foldl_cons, ih, send_fst, deliver_cons]

theorem drain_eq : ∀ q : List PendingEntry,
    drain q = (q.filter fun e => e.hardFloor, q.filter fun e => !e.hardFloor) := by
  intro q
  induction q with
  | nil => rfl
  | cons e q ih =>
    rw [drain, ih]
    cases h : e.hardFloor <;> simp [h]

/-! ## What an operation can do -/

theorem lookup_putQueue (pending : Pending) (t t' : ThreadKey) (q : List PendingEntry) :
    (putQueue pending t q).lookup t' =
      if t' = t then (if q.isEmpty then none else some q) else pending.lookup t' := by
  unfold putQueue
  split
  · rw [Assoc.lookup_erase]
  · rw [Assoc.lookup_insert]

theorem queue_putQueue (t' : ThreadKey) (q : List PendingEntry) :
    ({ b with pending := putQueue b.pending t q } : ApprovalBroker).queue t' = if t' = t then q else b.queue t' := by
  simp only [queue, lookup_putQueue]
  by_cases ht : t' = t
  · rw [if_pos ht, if_pos ht]
    cases q <;> rfl
  · rw [if_neg ht, if_neg ht]

/-- A queue is cut into the entries that stay and those that are taken out. -/
structure Splits (q kept out : List PendingEntry) : Prop where
  sub : kept.Sublist q
  perm : (kept ++ out).Perm q

/-- `c` is `b` with some entries of a thread resolved. -/
def Resolves (b : ApprovalBroker) (t : ThreadKey) (approved : Bool) (c : ApprovalBroker) : Prop :=
  c = b ∨ ∃ q kept out, b.pending.lookup t = some q ∧ Splits q kept out ∧
    c = ({ b with pending := putQueue b.pending t kept } : ApprovalBroker).deliver approved out

theorem resolveFifo_resolves (b : ApprovalBroker) (t : ThreadKey) (approved : Bool) :
    Resolves b t approved (b.resolveFifo t approved).1 := by
  unfold resolveFifo
  split
  · exact .inl rfl
  · exact .inl rfl
  · rename_i e rest hq
    exact .inr ⟨_, rest, [e], hq, ⟨List.sublist_cons_self e rest, List.perm_append_singleton e rest⟩,
      send_fst _ approved e⟩

theorem resolveById_resolves (b : ApprovalBroker) (t : ThreadKey) (id : Str) (approved : Bool) :
    Resolves b t approved (b.resolveById t id approved).1 := by
  unfold resolveById
  split
  · exact .inl rfl
  rename_i q hq
  split
  · exact .inl rfl
  rename_i e he
  refine .inr ⟨q, _, [e], hq, ⟨List.eraseP_sublist, ?_⟩, send_fst _ approved e⟩
  obtain ⟨hp, front, back, rfl, hfront⟩ := List.find?_eq_some_iff_append.mp he
  have hnot : ∀ a ∈ front, ¬ (decide (a.requestId = id)) = true := by
    intro a ha
    simpa using hfront a ha
  have herase : (e :: back).eraseP (fun e => decide (e.requestId = id)) = back := by
    simp [of_decide_eq_true hp]
  rw [List.eraseP_append_right _ hnot, herase, List.append_assoc]
  exact (List.perm_append_left_iff front).mpr (List.perm_append_singleton e back)

theorem resolveAll_resolves (b : ApprovalBroker) (t : ThreadKey) (approved : Bool) :
    Resolves b t approved (b.resolveAll t approved).1 := by
  unfold resolveAll
  split
  · exact .inl rfl
  rename_i q hq
  rw [drain_eq]
  dsimp only
  exact .inr ⟨q, _, _, hq, ⟨List.filter_sublist, List.filter_append_perm _ q⟩, foldl_send _ _⟩

/-! ## The invariant -/

/-- An entry of the queue of a thread. -/
structure EntryOk (b : ApprovalBroker) (t : ThreadKey) (e : PendingEntry) : Prop where
  registered : b.registered[e.tx]? = some t
  unsent : e.tx ∉ b.sent.map Prod.fst

/-- The invariant of the broker. -/
structure BrokerOk (b : ApprovalBroker) : Prop where
  entries : ∀ t, ∀ e ∈ b.queue t, EntryOk b t e
  ordered : ∀ t, (b.queue t).Pairwise fun e e' => e.tx < e'.tx
  nonempty : ∀ t, b.pending.lookup t ≠ some []
  waiting : ∀ tx t, b.registered[tx]? = some t → b.receivers tx = .waiting → ∃ e ∈ b.queue t, e.tx = tx
  sent : ∀ tx ∈ b.sent.map Prod.fst, tx < b.registered.length
  once : (b.sent.map Prod.fst).Nodup

theorem new_ok : BrokerOk new where
  entries := fun _ _ h => nomatch h
  ordered := fun _ => .nil
  nonempty := fun _ h => nomatch h
  waiting := fun _ _ h => nomatch h
  sent := fun _ h => nomatch h
  once := .nil

theorem BrokerOk.tx_lt (h : BrokerOk b) {e : PendingEntry} (he : e ∈ b.queue t) : e.tx < b.registered.length :=
  (List.getElem?_eq_some_iff.mp (h.entries t e he).registered).1

/-- No two entries of a queue have the same number. -/
theorem BrokerOk.nodup (h : BrokerOk b) (t : ThreadKey) : ((b.queue t).map PendingEntry.tx).Nodup :=
  List.pairwise_map.mpr ((h.ordered t).imp fun hlt => Nat.ne_of_lt hlt)

theorem queue_of_lookup {q : List PendingEntry} (hq : b.pending.lookup t = some q) : b.queue t = q := by
  rw [queue, hq, Option.getD_some]

section Resolve

variable {q kept out : List PendingEntry}

/-- The broker after some entries of a thread are taken out and resolved. -/
abbrev resolved (b : ApprovalBroker) (t : ThreadKey) (approved : Bool) (kept out : List PendingEntry) : ApprovalBroker :=
  ({ b with pending := putQueue b.pending t kept } : ApprovalBroker).deliver approved out

theorem queue_resolved (t' : ThreadKey) :
    (resolved b t approved kept out).queue t' = if t' = t then kept else b.queue t' :=
  queue_putQueue t' kept

theorem sent_resolved : (resolved b t approved kept out).sent.map Prod.fst =
    b.sent.map Prod.fst ++ out.map PendingEntry.tx := by
  show (b.sent ++ out.map fun e => (e.tx, approved)).map Prod.fst = _
  rw [List.map_append, List.map_map]
  rfl

theorem resolved_sublist (hq : b.pending.lookup t = some q) (hs : Splits q kept out) (t' : ThreadKey) :
    ((resolved b t approved kept out).queue t').Sublist (b.queue t') := by
  rw [queue_resolved]
  split
  · rename_i ht
    rw [ht, queue_of_lookup hq]
    exact hs.sub
  · exact List.Sublist.refl _

/-- What is taken out was in the queue. -/
theorem Splits.mem_queue (hq : b.pending.lookup t = some q) (hs : Splits q kept out) {e : PendingEntry} (he : e ∈ out) :
    e ∈ b.queue t := by
  rw [queue_of_lookup hq]
  exact hs.perm.subset (List.mem_append_right kept he)

/-- What stays and what is taken out have different numbers. -/
theorem BrokerOk.splits_nodup (h : BrokerOk b) (hq : b.pending.lookup t = some q) (hs : Splits q kept out) :
    (kept.map PendingEntry.tx ++ out.map PendingEntry.tx).Nodup := by
  have hnodup := h.nodup t
  rw [queue_of_lookup hq, ← (hs.perm.map PendingEntry.tx).nodup_iff, List.map_append] at hnodup
  exact hnodup

/-- An entry that stays is not among those that are taken out. -/
theorem BrokerOk.resolved_entries (h : BrokerOk b) (hq : b.pending.lookup t = some q) (hs : Splits q kept out)
    (t' : ThreadKey) (e : PendingEntry) (he : e ∈ (resolved b t approved kept out).queue t') :
    EntryOk (resolved b t approved kept out) t' e := by
  have hb := h.entries t' e ((resolved_sublist hq hs t').subset he)
  refine ⟨hb.registered, ?_⟩
  rw [sent_resolved, List.mem_append, not_or]
  refine ⟨hb.unsent, fun hmem => ?_⟩
  obtain ⟨e', he', htx⟩ := List.mem_map.mp hmem
  have hsame : t' = t := by
    have hreg := hb.registered
    rw [← htx, (h.entries t e' (hs.mem_queue hq he')).registered] at hreg
    exact (Option.some.inj hreg).symm
  rw [queue_resolved, if_pos hsame] at he
  exact (List.nodup_append.mp (h.splits_nodup hq hs)).2.2 _ (List.mem_map_of_mem he) _ hmem rfl

/-- A request that still waits was not taken out. -/
theorem resolved_waiting {tx : ℕ} (hw : (resolved b t approved kept out).receivers tx = .waiting) :
    b.receivers tx = .waiting ∧ tx ∉ out.map PendingEntry.tx := by
  by_cases hcond : b.receivers tx = .waiting ∧ tx ∈ out.map PendingEntry.tx
  · have hreceived : (resolved b t approved kept out).receivers tx = .received approved := if_pos hcond
    rw [hreceived] at hw
    cases hw
  · have hsame : (resolved b t approved kept out).receivers tx = b.receivers tx := if_neg hcond
    rw [hsame] at hw
    exact ⟨hw, fun hmem => hcond ⟨hw, hmem⟩⟩

/-- Some entries of a thread are resolved. -/
theorem BrokerOk.resolve (h : BrokerOk b) (hq : b.pending.lookup t = some q) (hs : Splits q kept out) :
    BrokerOk (resolved b t approved kept out) := by
  refine ⟨h.resolved_entries hq hs, fun t' => (h.ordered t').sublist (resolved_sublist hq hs t'), ?_, ?_, ?_, ?_⟩
  · intro t'
    show (putQueue b.pending t kept).lookup t' ≠ some []
    rw [lookup_putQueue]
    split
    · cases kept <;> simp
    · exact h.nonempty t'
  · intro tx t' hreg hw
    obtain ⟨hwait, hnot⟩ := resolved_waiting hw
    obtain ⟨e, he, htx⟩ := h.waiting tx t' hreg hwait
    refine ⟨e, ?_, htx⟩
    rw [queue_resolved]
    split
    · rename_i ht
      rw [ht, queue_of_lookup hq] at he
      obtain hk | ho := List.mem_append.mp (hs.perm.symm.subset he)
      · exact hk
      · exact absurd (htx ▸ List.mem_map_of_mem ho) hnot
    · exact he
  · intro tx htx
    rw [sent_resolved] at htx
    obtain htx | htx := List.mem_append.mp htx
    · exact h.sent tx htx
    · obtain ⟨e, he, rfl⟩ := List.mem_map.mp htx
      exact h.tx_lt (hs.mem_queue hq he)
  · rw [sent_resolved, List.nodup_append]
    refine ⟨h.once, (List.nodup_append.mp (h.splits_nodup hq hs)).2.1, ?_⟩
    rintro tx htx _ hmem rfl
    obtain ⟨e, he, rfl⟩ := List.mem_map.mp hmem
    exact (h.entries t e (hs.mem_queue hq he)).unsent htx

end Resolve

theorem BrokerOk.resolves (h : BrokerOk b) {c : ApprovalBroker} (hr : Resolves b t approved c) : BrokerOk c := by
  obtain rfl | ⟨q, kept, out, hq, hs, rfl⟩ := hr
  · exact h
  · exact h.resolve hq hs

theorem queue_register (t t' : ThreadKey) (id : Str) (hardFloor : Bool) (now : ℕ) :
    (b.register t id hardFloor now).queue t' =
      if t' = t then b.queue t ++ [⟨id, hardFloor, now, b.registered.length⟩] else b.queue t' := by
  simp only [queue, ApprovalBroker.register, Assoc.lookup_insert]
  by_cases ht : t' = t
  · rw [if_pos ht, if_pos ht, Option.getD_some]
  · rw [if_neg ht, if_neg ht]

section Register

variable {id : Str} {hardFloor : Bool} {now : ℕ}

/-- The entries that were there stay as they are. -/
theorem EntryOk.register {t' : ThreadKey} {e : PendingEntry} (h : EntryOk b t' e) (hlt : e.tx < b.registered.length) :
    EntryOk (b.register t id hardFloor now) t' e := by
  refine ⟨?_, h.unsent⟩
  show (b.registered ++ [t])[e.tx]? = some t'
  rw [List.getElem?_append_left hlt]
  exact h.registered

/-- The new entry. -/
theorem BrokerOk.entryOk_new (h : BrokerOk b) (t : ThreadKey) :
    EntryOk (b.register t id hardFloor now) t ⟨id, hardFloor, now, b.registered.length⟩ := by
  refine ⟨?_, fun hmem => ?_⟩
  · show (b.registered ++ [t])[b.registered.length]? = some t
    simp
  · exact absurd (h.sent _ hmem) (lt_irrefl _)

theorem BrokerOk.register_entries (h : BrokerOk b) (t' : ThreadKey) (e : PendingEntry)
    (he : e ∈ (b.register t id hardFloor now).queue t') : EntryOk (b.register t id hardFloor now) t' e := by
  rw [queue_register] at he
  split at he
  · rename_i ht
    subst ht
    obtain he | he := List.mem_append.mp he
    · exact (h.entries t' e he).register (h.tx_lt he)
    · rw [List.mem_singleton.mp he]
      exact h.entryOk_new t'
  · exact (h.entries t' e he).register (h.tx_lt he)

theorem BrokerOk.register_waiting (h : BrokerOk b) {tx : ℕ} {t' : ThreadKey}
    (hr : (b.register t id hardFloor now).registered[tx]? = some t')
    (hw : (b.register t id hardFloor now).receivers tx = .waiting) :
    ∃ e ∈ (b.register t id hardFloor now).queue t', e.tx = tx := by
  have hr' : (b.registered ++ [t])[tx]? = some t' := hr
  rw [queue_register]
  by_cases htx : tx = b.registered.length
  · -- the request itself
    have ht : t' = t := by
      rw [htx] at hr'
      simpa using hr'.symm
    rw [if_pos ht]
    exact ⟨⟨id, hardFloor, now, b.registered.length⟩, List.mem_append_right _ (List.mem_singleton_self _), htx.symm⟩
  · have hlt : tx < b.registered.length := by
      have hlen := (List.getElem?_eq_some_iff.mp hr').1
      rw [List.length_append, List.length_singleton] at hlen
      omega
    rw [List.getElem?_append_left hlt] at hr'
    have hsame : (b.register t id hardFloor now).receivers tx = b.receivers tx := Function.update_of_ne htx _ _
    rw [hsame] at hw
    obtain ⟨e, he, hetx⟩ := h.waiting tx t' hr' hw
    refine ⟨e, ?_, hetx⟩
    split
    · rename_i ht
      exact List.mem_append_left _ (ht ▸ he)
    · exact he

theorem BrokerOk.register (h : BrokerOk b) (t : ThreadKey) (id : Str) (hardFloor : Bool) (now : ℕ) :
    BrokerOk (b.register t id hardFloor now) := by
  refine ⟨h.register_entries, ?_, ?_, fun tx t' => h.register_waiting, ?_, h.once⟩
  · intro t'
    rw [queue_register]
    split
    · refine List.pairwise_append.mpr ⟨h.ordered t, List.pairwise_singleton _ _, ?_⟩
      intro e he e' he'
      obtain rfl := List.mem_singleton.mp he'
      exact h.tx_lt he
    · exact h.ordered t'
  · intro t'
    show AList.lookup t' (AList.insert t _ b.pending) ≠ some []
    rw [Assoc.lookup_insert]
    split
    · simp
    · exact h.nonempty t'
  · intro tx htx
    show tx < (b.registered ++ [t]).length
    rw [List.length_append, List.length_singleton]
    exact Nat.lt_succ_of_lt (h.sent tx htx)

end Register

theorem queue_sweepExpired (now maxAge : ℕ) (t : ThreadKey) :
    (b.sweepExpired now maxAge).1.queue t = (b.queue t).filter fun e => !agedOut now maxAge e := by
  simp only [queue, ApprovalBroker.sweepExpired, Assoc.lookup_retainMap]
  cases b.pending.lookup t with
  | none => rfl
  | some q =>
    simp only [Option.bind_some, Option.getD_some, sweepQueue]
    split
    · rename_i hempty
      rw [List.isEmpty_iff.mp hempty]
      rfl
    · rfl

theorem mem_sweptEntries {now maxAge : ℕ} {e : PendingEntry} (he : e ∈ b.queue t) (ha : agedOut now maxAge e = true) :
    e ∈ b.sweptEntries now maxAge := by
  unfold queue at he
  cases hq : b.pending.lookup t with
  | none => rw [hq] at he; cases he
  | some q =>
    rw [hq] at he
    exact List.mem_flatMap.mpr ⟨⟨t, q⟩, AList.mem_lookup_iff.mp hq, List.mem_filter.mpr ⟨he, ha⟩⟩

theorem BrokerOk.sweepExpired (h : BrokerOk b) (now maxAge : ℕ) : BrokerOk (b.sweepExpired now maxAge).1 := by
  have hc := queue_sweepExpired (b := b) now maxAge
  refine ⟨?_, ?_, ?_, ?_, h.sent, h.once⟩
  · intro t e he
    rw [hc] at he
    have hb := h.entries t e (List.mem_of_mem_filter he)
    exact ⟨hb.registered, hb.unsent⟩
  · intro t
    rw [hc]
    exact (h.ordered t).filter _
  · intro t
    show (b.pending.retainMap fun _ queue => sweepQueue now maxAge queue).lookup t ≠ some []
    rw [Assoc.lookup_retainMap]
    cases b.pending.lookup t with
    | none => simp
    | some q =>
      simp only [Option.bind_some, sweepQueue]
      split
      · simp
      · rename_i hne
        intro heq
        rw [Option.some.inj heq] at hne
        exact hne rfl
  · intro tx t hr hw
    have hw' : b.receivers tx = .waiting ∧ tx ∉ (b.sweptEntries now maxAge).map PendingEntry.tx := by
      by_cases hcond : b.receivers tx = .waiting ∧ tx ∈ (b.sweptEntries now maxAge).map PendingEntry.tx
      · have : (b.sweepExpired now maxAge).1.receivers tx = .closed := if_pos hcond
        rw [this] at hw
        cases hw
      · have : (b.sweepExpired now maxAge).1.receivers tx = b.receivers tx := if_neg hcond
        rw [this] at hw
        exact ⟨hw, fun hmem => hcond ⟨hw, hmem⟩⟩
    obtain ⟨e, he, rfl⟩ := h.waiting tx t hr hw'.1
    refine ⟨e, ?_, rfl⟩
    rw [hc, List.mem_filter]
    refine ⟨he, ?_⟩
    cases ha : agedOut now maxAge e with
    | false => rfl
    | true => exact absurd (List.mem_map_of_mem (mem_sweptEntries he ha)) hw'.2

theorem BrokerOk.dropReceiver (h : BrokerOk b) (tx : ℕ) : BrokerOk (b.dropReceiver tx) := by
  unfold ApprovalBroker.dropReceiver
  split
  · refine ⟨fun t e he => ⟨(h.entries t e he).registered, (h.entries t e he).unsent⟩, h.ordered, h.nonempty, ?_, h.sent,
      h.once⟩
    intro tx' t' hreg hw
    refine h.waiting tx' t' hreg ?_
    by_cases htx : tx' = tx
    · simp [htx] at hw
    · simpa [htx] using hw
  · exact h

/-- **One operation keeps the invariant.** -/
theorem brokerStep_ok (b : ApprovalBroker) (input : BrokerInput) (h : BrokerOk b) : BrokerOk (brokerStep b input) := by
  cases input with
  | register t id hardFloor now => exact h.register t id hardFloor now
  | resolveById t id approved => exact h.resolves (resolveById_resolves b t id approved)
  | resolveFifo t approved => exact h.resolves (resolveFifo_resolves b t approved)
  | resolveAll t approved => exact h.resolves (resolveAll_resolves b t approved)
  | sweepExpired now maxAge => exact h.sweepExpired now maxAge
  | dropReceiver tx => exact h.dropReceiver tx

theorem run_ok (inputs : List BrokerInput) : BrokerOk (runSteps brokerStep new inputs) :=
  run_preserves brokerStep_ok inputs new new_ok

/-! ## Bookkeeping -/

/-- The entry that an operation adds to the queue of a thread. -/
def added (b : ApprovalBroker) (t : ThreadKey) : BrokerInput → List PendingEntry
  | .register t' id hardFloor now => if t = t' then [⟨id, hardFloor, now, b.registered.length⟩] else []
  | _ => []

/-- What `resolve_all` is for: it takes the entries that are not hard-floor. -/
structure ResolvesAll (b : ApprovalBroker) (t : ThreadKey) (approved : Bool) (r : ApprovalBroker × ℕ) : Prop where
  kept : r.1.queue t = (b.queue t).filter fun e => e.hardFloor
  sent : r.1.sent = b.sent ++ ((b.queue t).filter fun e => !e.hardFloor).map fun e => (e.tx, approved)
  delivered : ∀ e ∈ b.queue t, e.hardFloor = false → b.receivers e.tx = .waiting →
    r.1.receivers e.tx = .received approved
  hardFloor : ∀ e ∈ b.queue t, e.hardFloor = true →
    e.tx ∉ r.1.sent.map Prod.fst ∧ r.1.receivers e.tx = b.receivers e.tx
  count : r.2 + (r.1.queue t).length = (b.queue t).length

/-- The bookkeeping of the broker. -/
structure Bookkept (b : ApprovalBroker) : Prop where
  /-- A request gets at most one decision. -/
  once : (b.sent.map Prod.fst).Nodup
  nonempty : ∀ t, b.pending.lookup t ≠ some []
  /-- Queues are in the order of registration. -/
  ordered : ∀ t, (b.queue t).Pairwise fun e e' => e.tx < e'.tx
  frame : ∀ input t, input.thread? = some t →
    ∀ t', t' ≠ t → (brokerStep b input).pending.lookup t' = b.pending.lookup t'
  survivors : ∀ input t, ((brokerStep b input).queue t).Sublist (b.queue t ++ b.added t input)
  resolveAll : ∀ t approved, ResolvesAll b t approved (b.resolveAll t approved)

theorem Resolves.frame {c : ApprovalBroker} (h : Resolves b t approved c) {t' : ThreadKey} (ht : t' ≠ t) :
    c.pending.lookup t' = b.pending.lookup t' := by
  obtain rfl | ⟨q, kept, out, -, -, rfl⟩ := h
  · rfl
  · show (putQueue b.pending t kept).lookup t' = b.pending.lookup t'
    rw [lookup_putQueue, if_neg ht]

theorem Resolves.sublist {c : ApprovalBroker} (h : Resolves b t approved c) (t' : ThreadKey) :
    (c.queue t').Sublist (b.queue t') := by
  obtain rfl | ⟨q, kept, out, hq, hs, rfl⟩ := h
  · exact List.Sublist.refl _
  · exact resolved_sublist hq hs t'

theorem brokerStep_frame (b : ApprovalBroker) (input : BrokerInput) {t : ThreadKey} (ht : input.thread? = some t)
    {t' : ThreadKey} (hne : t' ≠ t) : (brokerStep b input).pending.lookup t' = b.pending.lookup t' := by
  cases input with
  | register thread id hardFloor now =>
    cases ht
    show AList.lookup t' (AList.insert t _ b.pending) = _
    rw [Assoc.lookup_insert, if_neg hne]
  | resolveById thread id approved => cases ht; exact (resolveById_resolves b t id approved).frame hne
  | resolveFifo thread approved => cases ht; exact (resolveFifo_resolves b t approved).frame hne
  | resolveAll thread approved => cases ht; exact (resolveAll_resolves b t approved).frame hne
  | sweepExpired now maxAge => cases ht
  | dropReceiver tx => cases ht

theorem brokerStep_survivors (b : ApprovalBroker) (input : BrokerInput) (t : ThreadKey) :
    ((brokerStep b input).queue t).Sublist (b.queue t ++ b.added t input) := by
  cases input with
  | register thread id hardFloor now =>
    show ((b.register thread id hardFloor now).queue t).Sublist _
    rw [queue_register, added]
    by_cases ht : t = thread
    · rw [if_pos ht, if_pos ht, ht]
    · rw [if_neg ht, if_neg ht, List.append_nil]
  | resolveById thread id approved =>
    exact (Resolves.sublist (resolveById_resolves b thread id approved) t).trans (List.sublist_append_left _ _)
  | resolveFifo thread approved =>
    exact (Resolves.sublist (resolveFifo_resolves b thread approved) t).trans (List.sublist_append_left _ _)
  | resolveAll thread approved =>
    exact (Resolves.sublist (resolveAll_resolves b thread approved) t).trans (List.sublist_append_left _ _)
  | sweepExpired now maxAge =>
    show ((b.sweepExpired now maxAge).1.queue t).Sublist _
    rw [queue_sweepExpired]
    exact List.filter_sublist.trans (List.sublist_append_left _ _)
  | dropReceiver tx =>
    have : (b.dropReceiver tx).queue t = b.queue t := by
      unfold ApprovalBroker.dropReceiver
      split <;> rfl
    show ((b.dropReceiver tx).queue t).Sublist _
    rw [this]
    exact List.sublist_append_left _ _

theorem resolveAll_eq {q : List PendingEntry} (hq : b.pending.lookup t = some q) :
    b.resolveAll t approved =
      (({ b with pending := putQueue b.pending t (q.filter fun e => e.hardFloor) } : ApprovalBroker).deliver approved
        (q.filter fun e => !e.hardFloor), (q.filter fun e => !e.hardFloor).length) := by
  simp only [resolveAll, hq, drain_eq, foldl_send]

theorem BrokerOk.resolveAll (h : BrokerOk b) (t : ThreadKey) (approved : Bool) :
    ResolvesAll b t approved (b.resolveAll t approved) := by
  have hok : BrokerOk (b.resolveAll t approved).1 := h.resolves (resolveAll_resolves b t approved)
  cases hq : b.pending.lookup t with
  | none =>
    have hqueue : b.queue t = [] := by rw [queue, hq]; rfl
    have hr : b.resolveAll t approved = (b, 0) := by rw [ApprovalBroker.resolveAll, hq]
    constructor <;> simp [hr, hqueue]
  | some q =>
    have hqueue : b.queue t = q := queue_of_lookup hq
    have hr : b.resolveAll t approved = _ := resolveAll_eq hq
    have hkept : (b.resolveAll t approved).1.queue t = q.filter fun e => e.hardFloor := by
      rw [hr]
      exact (queue_putQueue (b := b) t _).trans (if_pos rfl)
    refine ⟨?_, ?_, ?_, ?_, ?_⟩
    · rw [hkept, hqueue]
    · rw [hr, hqueue]
      rfl
    · intro e he hhard hw
      rw [hr]
      rw [hqueue] at he
      exact if_pos ⟨hw, List.mem_map_of_mem (List.mem_filter.mpr ⟨he, by rw [hhard]; rfl⟩)⟩
    · intro e he hhard
      have hstays : e ∈ (b.resolveAll t approved).1.queue t := by
        rw [hkept]
        rw [hqueue] at he
        exact List.mem_filter.mpr ⟨he, hhard⟩
      have hunsent := (hok.entries t e hstays).unsent
      refine ⟨hunsent, ?_⟩
      rw [hr] at hunsent ⊢
      refine if_neg fun hcond => hunsent ?_
      show e.tx ∈ (b.sent ++ _).map Prod.fst
      rw [List.map_append, List.map_map]
      exact List.mem_append_right _ hcond.2
    · rw [hkept, hqueue, hr]
      have := List.length_eq_length_filter_add (l := q) fun e => e.hardFloor
      omega

/-- **The broker's bookkeeping holds in every run.** -/
theorem broker_bookkeeping (inputs : List BrokerInput) : Bookkept (runSteps brokerStep new inputs) := by
  have h := run_ok inputs
  exact {
    once := h.once
    nonempty := h.nonempty
    ordered := h.ordered
    frame := fun input t ht t' hne => brokerStep_frame _ input ht hne
    survivors := brokerStep_survivors _
    resolveAll := h.resolveAll }

/-! ## Replies -/

/-- A request of the thread whose handler still waits. -/
def Waits (b : ApprovalBroker) (t : ThreadKey) (tx : ℕ) : Prop :=
  b.registered[tx]? = some t ∧ b.receivers tx = .waiting

/-- The oldest request of the thread that still waits. -/
def OldestWaiting (b : ApprovalBroker) (t : ThreadKey) (tx : ℕ) : Prop :=
  b.Waits t tx ∧ ∀ tx' < tx, ¬ b.Waits t tx'

/-- A plain reply reaches the oldest request that still waits. -/
def Delivers (b : ApprovalBroker) (t : ThreadKey) (approved : Bool) : Prop :=
  ∀ tx, b.OldestWaiting t tx → (b.resolveFifo t approved).1.receivers tx = .received approved

/-- If a request waits, the request in front of the queue does: no request that timed out
or was cancelled is still there. -/
def FrontWaits (b : ApprovalBroker) (t : ThreadKey) : Prop :=
  (∃ tx, b.Waits t tx) → ∃ e, (b.queue t).head? = some e ∧ b.receivers e.tx = .waiting

theorem exists_oldestWaiting {tx : ℕ} (h : b.Waits t tx) : ∃ tx, b.OldestWaiting t tx := by
  classical
  have hex : ∃ tx, b.Waits t tx := ⟨tx, h⟩
  exact ⟨Nat.find hex, Nat.find_spec hex, fun _ hlt => Nat.find_min hex hlt⟩

/-- Only the front of the queue is sent the reply. -/
theorem resolveFifo_receivers {e : PendingEntry} {rest : List PendingEntry}
    (hq : b.queue t = e :: rest) (tx : ℕ) :
    (b.resolveFifo t approved).1.receivers tx =
      if b.receivers tx = .waiting ∧ tx = e.tx then .received approved else b.receivers tx := by
  have hl : b.pending.lookup t = some (e :: rest) := by
    unfold queue at hq
    cases hl : b.pending.lookup t with
    | none => rw [hl] at hq; cases hq
    | some q => rw [hl] at hq; exact congrArg some hq
  simp only [resolveFifo, hl, send_fst, deliver, List.map_cons, List.map_nil, List.mem_singleton]

/-- The queue of a thread with a request that waits has a front, which is not younger. -/
theorem BrokerOk.front_le (h : BrokerOk b) {tx : ℕ} (hw : b.Waits t tx) :
    ∃ e rest, b.queue t = e :: rest ∧ e.tx ≤ tx := by
  obtain ⟨e', he', rfl⟩ := h.waiting tx t hw.1 hw.2
  have hord := h.ordered t
  cases hq : b.queue t with
  | nil => rw [hq] at he'; cases he'
  | cons e rest =>
    rw [hq] at he' hord
    refine ⟨e, rest, rfl, ?_⟩
    obtain rfl | hmem := List.mem_cons.mp he'
    · exact le_refl _
    · exact ((List.pairwise_cons.mp hord).1 e' hmem).le

/-- **A plain reply reaches the oldest request that waits exactly if no request that gave
up is in front of the queue.** -/
theorem resolveFifo_delivers_iff (inputs : List BrokerInput) (t : ThreadKey) (approved : Bool) :
    Delivers (runSteps brokerStep new inputs) t approved ↔ FrontWaits (runSteps brokerStep new inputs) t := by
  have h := run_ok inputs
  generalize runSteps brokerStep new inputs = b at h
  constructor
  · rintro hd ⟨tx, hw⟩
    obtain ⟨oldest, ho⟩ := exists_oldestWaiting hw
    obtain ⟨e, rest, hq, -⟩ := h.front_le ho.1
    refine ⟨e, by rw [hq]; rfl, ?_⟩
    have hrec := hd oldest ho
    rw [resolveFifo_receivers hq] at hrec
    by_cases heq : oldest = e.tx
    · rw [← heq]
      exact ho.1.2
    · -- the reply went to the front, and the oldest request waits on
      rw [if_neg fun hc => heq hc.2, ho.1.2] at hrec
      cases hrec
  · intro hf tx ho
    obtain ⟨e, rest, hq, hle⟩ := h.front_le ho.1
    obtain ⟨e', hhead, hwait⟩ := hf ⟨tx, ho.1⟩
    rw [hq, List.head?_cons, Option.some_inj] at hhead
    subst hhead
    have hfront : b.Waits t e.tx := ⟨(h.entries t e (by rw [hq]; exact List.mem_cons_self)).registered, hwait⟩
    have heq : tx = e.tx := by
      have := ho.2 e.tx
      by_contra hne
      exact this (by omega) hfront
    rw [resolveFifo_receivers hq, if_pos ⟨ho.1.2, heq⟩]

/-- A request times out, and another one registers: the reply to it is lost. -/
theorem resolveFifo_lost : ¬ ∀ (inputs : List BrokerInput) (t : ThreadKey) (approved : Bool),
    Delivers (runSteps brokerStep new inputs) t approved := by
  intro hall
  let t : ThreadKey := ⟨[], []⟩
  have h := hall [.register t ['a'] false 0, .dropReceiver 0, .register t ['b'] false 120] t true 1
  have hold : OldestWaiting (runSteps brokerStep new
      [.register t ['a'] false 0, .dropReceiver 0, .register t ['b'] false 120]) t 1 := by
    refine ⟨⟨rfl, rfl⟩, fun tx hlt hw => ?_⟩
    obtain rfl : tx = 0 := by omega
    exact absurd hw.2 (by decide)
  exact absurd (h hold) (by decide)

end ApprovalBroker

end Zeptoclaw

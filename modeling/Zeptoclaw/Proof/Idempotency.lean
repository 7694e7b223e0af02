import Zeptoclaw.Lib.History
import Zeptoclaw.Spec.Recent

/-!
# Webhook calls that are accepted once

A key that was accepted is in the store until it expires, unless it was evicted: then it was the
oldest of a full store, and all the others are keys that were accepted no earlier. So a key is
accepted a second time before it expires only after as many others as the store can hold
(`idempotency_guarantee`).
-/

namespace Zeptoclaw

/-- A call of `check_and_record`; the order is the one in which the map is iterated. -/
structure KeyEvent where
  key : Str
  now : ℤ
  iter : IterOrder Str ℤ

structure KeyCall where
  key : Str
  time : ℤ
  accepted : Bool
  deriving DecidableEq, Repr

structure IdempotencyRun where
  store : IdempotencyStore
  calls : List KeyCall := []

namespace IdempotencyRun

def step (r : IdempotencyRun) (e : KeyEvent) : IdempotencyRun :=
  ⟨(r.store.checkAndRecord e.key e.now e.iter).2,
    r.calls ++ [⟨e.key, e.now, (r.store.checkAndRecord e.key e.now e.iter).1⟩]⟩

def start (ttl maxEntries : ℕ) : IdempotencyRun := ⟨{ ttl, maxEntries }, []⟩

end IdempotencyRun

/-- The keys that were accepted, in order. -/
def acceptedKeys (calls : List KeyCall) : List (Str × ℤ) := (calls.filter KeyCall.accepted).map fun c => (c.key, c.time)

/-- The other keys that were accepted at a time or later. -/
def otherKeysFrom (key : Str) (time : ℤ) (accepted : List (Str × ℤ)) : ℕ :=
  otherKeys key (accepted.filter fun a => decide (time ≤ a.2))

theorem acceptedKeys_concat (calls : List KeyCall) (c : KeyCall) :
    acceptedKeys (calls ++ [c]) = acceptedKeys calls ++ if c.accepted = true then [(c.key, c.time)] else [] :=
  map_filter_concat _ _ calls c

theorem otherKeysFrom_mono (key : Str) (time : ℤ) {accepted accepted' : List (Str × ℤ)} (h : accepted ⊆ accepted') :
    otherKeysFrom key time accepted ≤ otherKeysFrom key time accepted' := by
  apply otherKeys_mono
  intro a ha
  obtain ⟨hmem, htime⟩ := List.mem_filter.mp ha
  exact List.mem_filter.mpr ⟨h hmem, htime⟩

/-! ## One call -/

namespace IdempotencyStore

variable {store : IdempotencyStore} {key : Str} {now : ℤ}

/-- The entries that have not expired. -/
def young (store : IdempotencyStore) (now : ℤ) : Assoc Str ℤ :=
  store.entries.retain fun _ recordedAt => decide (now - store.ttl < recordedAt)

theorem not_isDuplicate {t : ℤ} (h : store.isDuplicate key now = false) (hkey : store.entries.lookup key = some t)
    (hpast : t ≤ now) : store.ttl ≤ now - t := by
  unfold isDuplicate at h
  rw [hkey] at h
  have := of_decide_eq_false h
  omega

/-- A key that is new is not among the entries that are left. -/
theorem notMem_young (h : store.isDuplicate key now = false) (hpast : ∀ k t, store.entries.lookup k = some t → t ≤ now) :
    key ∉ store.young now := by
  intro hmem
  obtain ⟨t, hkey, hyoung⟩ := Assoc.mem_retain hmem
  have hold := not_isDuplicate h hkey (hpast key t hkey)
  rw [decide_eq_true_eq] at hyoung
  omega

/-- The key that is evicted is in the map, and none is older. -/
theorem oldestKey_spec {iter : IterOrder Str ℤ} {entries : Assoc Str ℤ} {oldest : Str}
    (h : oldestKey iter entries = some oldest) :
    ∃ t, entries.lookup oldest = some t ∧ ∀ k v, entries.lookup k = some v → t ≤ v := by
  unfold oldestKey at h
  obtain ⟨⟨k, t⟩, hmin, rfl⟩ := Option.map_eq_some_iff.mp h
  have hmem := (iter.perm entries.entries).mem_iff.mp (List.argmin_mem hmin)
  refine ⟨t, AList.mem_lookup_iff.mpr hmem, ?_⟩
  intro k' v hv
  have hmem' := (iter.perm entries.entries).mem_iff.mpr (AList.mem_lookup_iff.mp hv)
  exact List.le_of_mem_argmin hmem' hmin

theorem oldestKey_isSome (iter : IterOrder Str ℤ) {entries : Assoc Str ℤ} (h : entries.entries ≠ []) :
    ∃ oldest, oldestKey iter entries = some oldest := by
  unfold oldestKey
  cases hmin : (iter.order entries.entries).argmin Sigma.snd with
  | some e => exact ⟨e.1, rfl⟩
  | none =>
    rw [List.argmin_eq_none] at hmin
    have hperm := iter.perm entries.entries
    rw [hmin] at hperm
    exact absurd hperm.nil_eq.symm h

/-- The eviction makes room: nothing changes if there is room, or the oldest key is gone. -/
theorem evict_cases (iter : IterOrder Str ℤ) {maxEntries : ℕ} (hmax : 1 ≤ maxEntries) (entries : Assoc Str ℤ) :
    (entries.entries.length < maxEntries ∧ evict iter maxEntries entries = entries) ∨
    ∃ oldest t, maxEntries ≤ entries.entries.length ∧ entries.lookup oldest = some t ∧
      (∀ k v, entries.lookup k = some v → t ≤ v) ∧ evict iter maxEntries entries = entries.erase oldest := by
  unfold evict
  by_cases hfull : maxEntries ≤ entries.entries.length
  · have hne : entries.entries ≠ [] := by
      rw [← List.length_pos_iff]
      omega
    obtain ⟨oldest, holdest⟩ := oldestKey_isSome iter hne
    obtain ⟨t, hkey, hmin⟩ := oldestKey_spec holdest
    rw [if_pos hfull, holdest]
    exact .inr ⟨oldest, t, hfull, hkey, hmin, rfl⟩
  · rw [if_neg hfull]
    exact .inl ⟨by omega, rfl⟩

theorem checkAndRecord_cases (store : IdempotencyStore) (key : Str) (now : ℤ) (iter : IterOrder Str ℤ) :
    (store.isDuplicate key now = true ∧ store.checkAndRecord key now iter = (false, store)) ∨
    (store.isDuplicate key now = false ∧ store.checkAndRecord key now iter =
      (true, { store with entries := (evict iter store.maxEntries (store.young now)).insert key now })) := by
  unfold checkAndRecord
  cases h : store.isDuplicate key now with
  | true => exact .inl ⟨rfl, rfl⟩
  | false => exact .inr ⟨rfl, rfl⟩

end IdempotencyStore

/-! ## The invariant -/

open IdempotencyStore

variable {ttl maxEntries : ℕ} {now : ℤ} {r : IdempotencyRun}

/-- What became of a key that was accepted: it is stored, or has expired, or was evicted. -/
def KeptOrGone (ttl maxEntries : ℕ) (now : ℤ) (entries : Assoc Str ℤ) (accepted : List (Str × ℤ)) : Prop :=
  ∀ key time, (key, time) ∈ accepted →
    entries.lookup key = some time ∨ ttl ≤ now - time ∨ maxEntries ≤ otherKeysFrom key time accepted

/-- A key is accepted again before it expires only after enough others. -/
def AcceptedOnce (ttl maxEntries : ℕ) (calls : List KeyCall) : Prop :=
  ∀ pre c post, calls = pre ++ c :: post → ∀ time, (c.key, time) ∈ acceptedKeys pre → c.time - time < ttl →
    c.accepted = true → maxEntries ≤ otherKeysFrom c.key time (acceptedKeys pre)

structure IdempotencyOk (ttl maxEntries : ℕ) (now : ℤ) (r : IdempotencyRun) : Prop where
  ttl_eq : r.store.ttl = ttl
  max_eq : r.store.maxEntries = maxEntries
  bounded : r.store.entries.entries.length ≤ maxEntries
  past : ∀ a ∈ acceptedKeys r.calls, a.2 ≤ now
  stored : ∀ key time, r.store.entries.lookup key = some time → (key, time) ∈ acceptedKeys r.calls
  kept : KeptOrGone ttl maxEntries now r.store.entries (acceptedKeys r.calls)
  once : AcceptedOnce ttl maxEntries r.calls

theorem idempotencyOk_start (ttl maxEntries : ℕ) (now : ℤ) :
    IdempotencyOk ttl maxEntries now (.start ttl maxEntries) := by
  constructor
  case ttl_eq => rfl
  case max_eq => rfl
  case bounded => exact Nat.zero_le _
  case past => exact fun a ha => (nomatch ha)
  case stored =>
    intro key time h
    cases h
  case kept => exact fun key time h => (nomatch h)
  case once =>
    intro pre c post h
    simp [IdempotencyRun.start] at h

/-- Entries whose times are those at which they were accepted, at a time or later, and a key that is not
among them. -/
theorem otherKeysFrom_of_entries {key : Str} {time : ℤ} {accepted : List (Str × ℤ)} {entries : Assoc Str ℤ}
    (hkey : key ∉ entries) (hmem : ∀ k v, entries.lookup k = some v → (k, v) ∈ accepted ∧ time ≤ v) :
    entries.entries.length ≤ otherKeysFrom key time accepted := by
  have hnodup : (entries.pairs.map Prod.fst).Nodup := by
    rw [Assoc.pairs_fst]
    exact AList.keys_nodup entries
  have hnot : key ∉ entries.pairs.map Prod.fst := by
    rw [Assoc.pairs_fst]
    exact fun h => hkey (AList.mem_keys.mpr h)
  rw [← Assoc.length_pairs, ← otherKeys_eq_length hnodup hnot]
  apply otherKeys_mono
  rintro ⟨k, v⟩ hkv
  obtain ⟨hin, hle⟩ := hmem k v (Assoc.mem_pairs.mp hkv)
  exact List.mem_filter.mpr ⟨hin, decide_eq_true hle⟩

theorem AcceptedOnce.concat {calls : List KeyCall} {c : KeyCall} (h : AcceptedOnce ttl maxEntries calls)
    (hc : ∀ time, (c.key, time) ∈ acceptedKeys calls → c.time - time < ttl → c.accepted = true →
      maxEntries ≤ otherKeysFrom c.key time (acceptedKeys calls)) : AcceptedOnce ttl maxEntries (calls ++ [c]) :=
  forall_cut_concat
    (P := fun pre c => ∀ time, (c.key, time) ∈ acceptedKeys pre → c.time - time < ttl → c.accepted = true →
      maxEntries ≤ otherKeysFrom c.key time (acceptedKeys pre)) h hc

section Call

variable {later : ℤ} {key : Str}

theorem IdempotencyOk.lookup_past (h : IdempotencyOk ttl maxEntries now r) (hle : now ≤ later) {k : Str} {t : ℤ}
    (hk : r.store.entries.lookup k = some t) : t ≤ later := le_trans (h.past _ (h.stored k t hk)) hle

/-- A call of a key that is stored. -/
theorem IdempotencyOk.again (h : IdempotencyOk ttl maxEntries now r) (hle : now ≤ later) :
    IdempotencyOk ttl maxEntries later ⟨r.store, r.calls ++ [⟨key, later, false⟩]⟩ := by
  have haccepted : acceptedKeys (r.calls ++ [⟨key, later, false⟩]) = acceptedKeys r.calls := by
    rw [acceptedKeys_concat, if_neg Bool.false_ne_true, List.append_nil]
  refine ⟨h.ttl_eq, h.max_eq, h.bounded, ?_, ?_, ?_, h.once.concat fun _ _ _ hfalse => (nomatch hfalse)⟩
  · rw [haccepted]
    exact fun a ha => le_trans (h.past a ha) hle
  · rw [haccepted]
    exact h.stored
  · rw [haccepted]
    intro k t hk
    rcases h.kept k t hk with hstored | hexp | hmany
    · exact .inl hstored
    · exact .inr (.inl (by omega))
    · exact .inr (.inr hmany)

theorem IdempotencyOk.lookup_young (h : IdempotencyOk ttl maxEntries now r) {k : Str} {t : ℤ}
    (hk : (r.store.young later).lookup k = some t) : (k, t) ∈ acceptedKeys r.calls := by
  unfold young at hk
  rw [Assoc.lookup_retain, Option.filter_eq_some_iff] at hk
  exact h.stored k t hk.1

/-- A new key leaves the others stored, or expired, or evicted. -/
theorem IdempotencyOk.kept_fresh (h : IdempotencyOk ttl maxEntries now r) (hle : now ≤ later)
    (hnew : r.store.isDuplicate key later = false) {entries : Assoc Str ℤ}
    (hgone : ∀ k t, (r.store.young later).lookup k = some t → entries.lookup k = some t ∨
      maxEntries ≤ otherKeysFrom k t (acceptedKeys r.calls ++ [(key, later)])) :
    KeptOrGone ttl maxEntries later (entries.insert key later) (acceptedKeys r.calls ++ [(key, later)]) := by
  have hpast : ∀ k t, r.store.entries.lookup k = some t → t ≤ later := fun k t hk => h.lookup_past hle hk
  intro k t hk
  rw [Assoc.lookup_insert]
  rcases List.mem_append.mp hk with hk | hk
  · rcases h.kept k t hk with hstored | hexp | hmany
    · have hold := hpast k t hstored
      by_cases hyoung : later - r.store.ttl < t
      · have hlookup : (r.store.young later).lookup k = some t := by
          unfold young
          rw [Assoc.lookup_retain, hstored, Option.filter_some, if_pos (decide_eq_true hyoung)]
        have hne : k ≠ key := by
          rintro rfl
          apply notMem_young hnew hpast
          rw [← AList.lookup_isSome, hlookup]
          rfl
        rw [if_neg hne]
        rcases hgone k t hlookup with hleft | hmany
        · exact .inl hleft
        · exact .inr (.inr hmany)
      · rw [h.ttl_eq] at hyoung
        exact .inr (.inl (by omega))
    · exact .inr (.inl (by omega))
    · exact .inr (.inr (le_trans hmany (otherKeysFrom_mono k t (List.subset_append_left _ _))))
  · cases List.mem_singleton.mp hk
    exact .inl (if_pos rfl)

/-- The entries of a store that has accepted the key, with room made for it. -/
theorem IdempotencyOk.fresh (h : IdempotencyOk ttl maxEntries now r) (hle : now ≤ later)
    (hnew : r.store.isDuplicate key later = false) {entries : Assoc Str ℤ} (hlen : entries.entries.length < maxEntries)
    (hsub : ∀ k v, entries.lookup k = some v → (r.store.young later).lookup k = some v)
    (hgone : ∀ k t, (r.store.young later).lookup k = some t → entries.lookup k = some t ∨
      maxEntries ≤ otherKeysFrom k t (acceptedKeys r.calls ++ [(key, later)])) :
    IdempotencyOk ttl maxEntries later ⟨{ r.store with entries := entries.insert key later },
      r.calls ++ [⟨key, later, true⟩]⟩ := by
  have hpast : ∀ k t, r.store.entries.lookup k = some t → t ≤ later := fun k t hk => h.lookup_past hle hk
  have hfree : key ∉ entries := by
    intro hmem
    obtain ⟨v, hv⟩ := Option.isSome_iff_exists.mp (AList.lookup_isSome.mpr hmem)
    apply notMem_young hnew hpast
    rw [← AList.lookup_isSome, hsub key v hv]
    rfl
  have haccepted : acceptedKeys (r.calls ++ [⟨key, later, true⟩]) = acceptedKeys r.calls ++ [(key, later)] := by
    rw [acceptedKeys_concat, if_pos rfl]
  constructor
  case ttl_eq => exact h.ttl_eq
  case max_eq => exact h.max_eq
  case bounded =>
    show (entries.insert key later).entries.length ≤ maxEntries
    rw [Assoc.length_insert hfree]
    omega
  case past =>
    intro a ha
    rw [haccepted, List.mem_append, List.mem_singleton] at ha
    rcases ha with ha | rfl
    · exact le_trans (h.past a ha) hle
    · exact le_refl _
  case stored =>
    intro k t hk
    have hk : (entries.insert key later).lookup k = some t := hk
    rw [Assoc.lookup_insert] at hk
    rw [haccepted]
    split at hk
    · rename_i heq
      cases hk
      rw [heq]
      exact List.mem_append_right _ (List.mem_singleton_self _)
    · exact List.mem_append_left _ (h.lookup_young (hsub k t hk))
  case kept =>
    rw [haccepted]
    exact h.kept_fresh hle hnew hgone
  case once =>
    refine h.once.concat ?_
    intro time hmem hyoung _
    rcases h.kept key time hmem with hstored | hexp | hmany
    · have hold := not_isDuplicate hnew hstored (hpast key time hstored)
      rw [h.ttl_eq] at hold
      have hyoung : later - time < ttl := hyoung
      omega
    · have hyoung : later - time < ttl := hyoung
      omega
    · exact hmany

theorem lookup_erase_some {entries : Assoc Str ℤ} {oldest k : Str} {v : ℤ} (h : (entries.erase oldest).lookup k = some v) :
    entries.lookup k = some v := by
  rw [Assoc.lookup_erase] at h
  split at h
  · cases h
  · exact h

/-- The oldest key of a full store has all the others behind it, and the new one. -/
theorem IdempotencyOk.oldest_count (h : IdempotencyOk ttl maxEntries now r) (hle : now ≤ later)
    (hnew : r.store.isDuplicate key later = false) {oldest : Str} {t : ℤ}
    (hkey : (r.store.young later).lookup oldest = some t)
    (hmin : ∀ k v, (r.store.young later).lookup k = some v → t ≤ v)
    (hfull : maxEntries ≤ (r.store.young later).entries.length) :
    maxEntries ≤ otherKeysFrom oldest t (acceptedKeys r.calls ++ [(key, later)]) := by
  have hfresh : key ∉ r.store.young later := notMem_young hnew fun k u hk => h.lookup_past hle hk
  have hmem : oldest ∈ r.store.young later := by
    rw [← AList.lookup_isSome, hkey]
    rfl
  have hfree : key ∉ (r.store.young later).erase oldest := by
    rw [AList.mem_erase]
    exact fun hin => hfresh hin.2
  have hnot : oldest ∉ ((r.store.young later).erase oldest).insert key later := by
    rw [AList.mem_insert, AList.mem_erase]
    rintro (rfl | ⟨hself, -⟩)
    · exact hfresh hmem
    · exact hself rfl
  have hothers : ∀ k v, (((r.store.young later).erase oldest).insert key later).lookup k = some v →
      (k, v) ∈ acceptedKeys r.calls ++ [(key, later)] ∧ t ≤ v := by
    intro k v hk
    rw [Assoc.lookup_insert] at hk
    split at hk
    · next heq =>
      cases hk
      rw [heq]
      refine ⟨List.mem_append_right _ (List.mem_singleton_self _), ?_⟩
      exact le_trans (h.past _ (h.lookup_young hkey)) hle
    · have hold := lookup_erase_some hk
      exact ⟨List.mem_append_left _ (h.lookup_young hold), hmin k v hold⟩
  have hcount := otherKeysFrom_of_entries hnot hothers
  rw [Assoc.length_insert hfree, Assoc.length_erase hmem] at hcount
  omega

/-- A call of a new key that pushes out the oldest one. -/
theorem IdempotencyOk.evicted (h : IdempotencyOk ttl maxEntries now r) (hmax : 1 ≤ maxEntries) (hle : now ≤ later)
    (hnew : r.store.isDuplicate key later = false) {oldest : Str} {t : ℤ}
    (hkey : (r.store.young later).lookup oldest = some t)
    (hmin : ∀ k v, (r.store.young later).lookup k = some v → t ≤ v)
    (hfull : maxEntries ≤ (r.store.young later).entries.length) :
    IdempotencyOk ttl maxEntries later
      ⟨{ r.store with entries := ((r.store.young later).erase oldest).insert key later }, r.calls ++ [⟨key, later, true⟩]⟩ := by
  have hlen : (r.store.young later).entries.length ≤ maxEntries := le_trans List.filter_sublist.length_le h.bounded
  have hmem : oldest ∈ r.store.young later := by
    rw [← AList.lookup_isSome, hkey]
    rfl
  refine h.fresh hle hnew ?_ (fun k v hk => lookup_erase_some hk) ?_
  · rw [Assoc.length_erase hmem]
    omega
  · intro k u hk
    by_cases hne : k = oldest
    · right
      subst hne
      obtain rfl : t = u := Option.some.inj (hkey.symm.trans hk)
      exact h.oldest_count hle hnew hkey hmin hfull
    · left
      rw [Assoc.lookup_erase, if_neg hne]
      exact hk

end Call

theorem step_idempotencyOk (hmax : 1 ≤ maxEntries) (now : ℤ) (r : IdempotencyRun) (e : KeyEvent)
    (h : IdempotencyOk ttl maxEntries now r) (hle : now ≤ e.now) :
    IdempotencyOk ttl maxEntries e.now (r.step e) := by
  obtain ⟨key, later, iter⟩ := e
  have hle : now ≤ later := hle
  unfold IdempotencyRun.step
  rcases r.store.checkAndRecord_cases key later iter with ⟨-, heq⟩ | ⟨hnew, heq⟩
  · rw [heq]
    exact h.again hle
  · have hmax' : 1 ≤ r.store.maxEntries := by
      rw [h.max_eq]
      exact hmax
    rw [heq]
    rcases evict_cases iter hmax' (r.store.young later) with ⟨hroom, hevict⟩ | ⟨oldest, t, hfull, hkey, hmin, hevict⟩
    · rw [hevict]
      rw [h.max_eq] at hroom
      exact h.fresh hle hnew hroom (fun _ _ hk => hk) fun _ _ hk => .inl hk
    · rw [hevict]
      rw [h.max_eq] at hfull
      exact h.evicted hmax hle hnew hkey hmin hfull

/-- **Every key is accepted once**, over every run and whichever of the oldest keys is evicted: the store never holds
more than `maxEntries` keys, and a key that was accepted less than `ttl` ago is accepted again only if at
least `maxEntries` other keys were accepted since the time of its acceptance; else the call returns false. -/
theorem idempotency_guarantee (ttl : ℕ) {maxEntries : ℕ} (hmax : 1 ≤ maxEntries) {events : List KeyEvent}
    (htimes : (events.map KeyEvent.now).Pairwise (· ≤ ·)) :
    let r := runSteps IdempotencyRun.step (.start ttl maxEntries) events
    r.store.entries.entries.length ≤ maxEntries ∧
      ∀ pre c post, r.calls = pre ++ c :: post → ∀ time, (c.key, time) ∈ acceptedKeys pre → c.time - time < ttl →
        (c.accepted = true → maxEntries ≤ otherKeysFrom c.key time (acceptedKeys pre)) ∧
        (otherKeysFrom c.key time (acceptedKeys pre) < maxEntries → c.accepted = false) := by
  obtain ⟨u, hok⟩ := run_ordered_start (idempotencyOk_start ttl maxEntries) (step_idempotencyOk hmax) events htimes
  refine ⟨hok.bounded, ?_⟩
  intro pre c post heq time hmem hyoung
  have honce := hok.once pre c post heq time hmem hyoung
  refine ⟨honce, ?_⟩
  intro hfew
  cases hacc : c.accepted with
  | false => rfl
  | true => exact absurd (honce hacc) (Nat.not_le.mpr hfew)

/-- The order of the entries. -/
def listOrder : IterOrder Str ℤ := ⟨id, fun l => List.Perm.refl l⟩

/-- A key, its repetition, another one, and the first one again. -/
def threeKeys : List KeyEvent :=
  [⟨"a".toList, 0, listOrder⟩, ⟨"a".toList, 1, listOrder⟩, ⟨"b".toList, 2, listOrder⟩, ⟨"a".toList, 3, listOrder⟩]

def threeCalls : List KeyCall := [⟨"a".toList, 0, true⟩, ⟨"a".toList, 1, false⟩, ⟨"b".toList, 2, true⟩]

/-- In a store for one key, the second key pushes out the first. -/
theorem idempotency_guarantee_evicted :
    (runSteps IdempotencyRun.step (.start 100 1) threeKeys).calls = threeCalls ++ [⟨"a".toList, 3, true⟩] ∧
    1 ≤ otherKeysFrom "a".toList 0 (acceptedKeys threeCalls) := by
  have hcalls : (runSteps IdempotencyRun.step (.start 100 1) threeKeys).calls =
      threeCalls ++ [⟨"a".toList, 3, true⟩] := by decide +kernel
  have hbefore : ("a".toList, 0) ∈ acceptedKeys threeCalls := by decide
  have hguarantee := (idempotency_guarantee 100 (le_refl 1) (by decide)).2 _ _ [] hcalls 0 hbefore (by decide)
  exact ⟨hcalls, hguarantee.1 rfl⟩

end Zeptoclaw

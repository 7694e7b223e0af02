import Zeptoclaw.Lib.History
import Zeptoclaw.Spec.Recent

/-!
# The events the bridge takes for new

The deque is the end of the list of all events that were accepted. What is in front of it has
expired, or has as many other events behind it as the deque can hold. So the deduplicator's
answers are those of the whole history (`dedup_exact`).
-/

namespace Zeptoclaw

/-- A call of `is_new`, and its answer. -/
structure SeenCall where
  id : Str
  time : ℤ
  new : Bool
  deriving DecidableEq, Repr

structure DedupRun where
  dedup : Deduplicator
  calls : List SeenCall := []

namespace DedupRun

def step (r : DedupRun) (e : Str × ℤ) : DedupRun :=
  ⟨(r.dedup.isNew e.1 e.2).2, r.calls ++ [⟨e.1, e.2, (r.dedup.isNew e.1 e.2).1⟩]⟩

def start (maxEntries ttlSecs : ℕ) : DedupRun := ⟨{ maxEntries, ttlSecs }, []⟩

end DedupRun

/-- The events that were accepted, in order. -/
def acceptedEvents (calls : List SeenCall) : List (Str × ℤ) :=
  (calls.filter SeenCall.new).map fun c => (c.id, c.time)

/-- The event was accepted less than `ttlSecs` ago, and fewer than `maxEntries` other events since. -/
def RecentlySeen (maxEntries ttlSecs : ℕ) (accepted : List (Str × ℤ)) (id : Str) (now : ℤ) : Prop :=
  ∃ before time since, accepted = before ++ (id, time) :: since ∧ Deduplicator.secsSince now time < ttlSecs ∧
    otherKeys id since < maxEntries

/-- Every answer is that of the calls before it. -/
def ExactAnswers (maxEntries ttlSecs : ℕ) (calls : List SeenCall) : Prop :=
  ∀ pre c post, calls = pre ++ c :: post →
    (c.new = false ↔ RecentlySeen maxEntries ttlSecs (acceptedEvents pre) c.id c.time)

theorem acceptedEvents_concat (calls : List SeenCall) (c : SeenCall) :
    acceptedEvents (calls ++ [c]) = acceptedEvents calls ++ if c.new = true then [(c.id, c.time)] else [] :=
  map_filter_concat _ _ calls c

/-! ## One call -/

namespace Deduplicator

theorem secsSince_mono {now later : ℤ} (h : now ≤ later) (ts : ℤ) : secsSince now ts ≤ secsSince later ts := by
  unfold secsSince
  omega

theorem secsSince_anti (now : ℤ) {ts ts' : ℤ} (h : ts ≤ ts') : secsSince now ts' ≤ secsSince now ts := by
  unfold secsSince
  omega

/-- The entry has expired. -/
def expired (ttlSecs : ℕ) (now : ℤ) (e : Str × ℤ) : Bool := decide (ttlSecs ≤ secsSince now e.2)

variable {d : Deduplicator} {now : ℤ}

theorem prune_eq (h : d.seen.Pairwise fun a b => a.2 ≤ b.2) : d.prune now = d.seen.filter fun e => !expired d.ttlSecs now e := by
  unfold prune
  apply dropWhile_eq_filter
  refine h.imp fun hab hb => ?_
  rw [decide_eq_true_eq] at hb ⊢
  exact le_trans hb (secsSince_anti now hab)

/-- An event that is in the deque is not new; a new one is put at its end, and the oldest one
is dropped if there are too many. -/
theorem isNew_cases (d : Deduplicator) (id : Str) (now : ℤ) :
    (id ∈ (d.prune now).map Prod.fst ∧ d.isNew id now = (false, { d with seen := d.prune now })) ∨
    (id ∉ (d.prune now).map Prod.fst ∧ (d.prune now).length < d.maxEntries ∧
      d.isNew id now = (true, { d with seen := d.prune now ++ [(id, now)] })) ∨
    (id ∉ (d.prune now).map Prod.fst ∧ d.maxEntries ≤ (d.prune now).length ∧
      d.isNew id now = (true, { d with seen := (d.prune now).drop 1 ++ [(id, now)] })) := by
  have hany : ((d.prune now).any fun e => decide (e.1 = id)) = true ↔ id ∈ (d.prune now).map Prod.fst := by
    rw [List.any_eq_true, List.mem_map]
    simp only [decide_eq_true_eq]
  unfold isNew
  dsimp only
  split
  · rename_i h
    exact .inl ⟨hany.mp h, rfl⟩
  · rename_i h
    have hnew : id ∉ (d.prune now).map Prod.fst := fun hmem => h (hany.mpr hmem)
    by_cases hfull : d.maxEntries ≤ (d.prune now).length
    · rw [if_pos hfull]
      exact .inr (.inr ⟨hnew, hfull, rfl⟩)
    · rw [if_neg hfull]
      exact .inr (.inl ⟨hnew, by omega, rfl⟩)

end Deduplicator

/-! ## The invariant -/

open Deduplicator

variable {maxEntries ttlSecs : ℕ}

/-- What is in front of the deque has expired, or has too many other events behind it. -/
def Forgotten (maxEntries ttlSecs : ℕ) (now : ℤ) (gone seen : List (Str × ℤ)) : Prop :=
  ∀ before e since, gone = before ++ e :: since →
    expired ttlSecs now e = true ∨ maxEntries ≤ otherKeys e.1 (since ++ seen)

theorem Forgotten.later {now later : ℤ} {gone seen : List (Str × ℤ)} (h : Forgotten maxEntries ttlSecs now gone seen)
    (hle : now ≤ later) : Forgotten maxEntries ttlSecs later gone seen := by
  intro before e since hgone
  rcases h before e since hgone with hexp | hmany
  · left
    unfold expired at hexp ⊢
    rw [decide_eq_true_eq] at hexp ⊢
    exact le_trans hexp (secsSince_mono hle e.2)
  · exact .inr hmany

/-- The front of the deque is dropped. -/
theorem Forgotten.drop {now : ℤ} {gone front seen : List (Str × ℤ)}
    (h : Forgotten maxEntries ttlSecs now gone (front ++ seen)) (hfront : Forgotten maxEntries ttlSecs now front seen) :
    Forgotten maxEntries ttlSecs now (gone ++ front) seen := by
  intro before e since heq
  rcases append_eq_cut heq with ⟨rest, hgone, rfl⟩ | ⟨middle, -, hmiddle⟩
  · rw [List.append_assoc]
    exact h before e rest hgone
  · exact hfront middle e since hmiddle

theorem Forgotten.push {now : ℤ} {gone seen : List (Str × ℤ)} (h : Forgotten maxEntries ttlSecs now gone seen)
    (e : Str × ℤ) : Forgotten maxEntries ttlSecs now gone (seen ++ [e]) := by
  intro before e' since hgone
  rcases h before e' since hgone with hexp | hmany
  · exact .inl hexp
  · refine .inr (le_trans hmany (otherKeys_mono _ ?_))
    rw [← List.append_assoc]
    exact List.subset_append_left _ _

structure DedupOk (maxEntries ttlSecs : ℕ) (now : ℤ) (r : DedupRun) : Prop where
  max_eq : r.dedup.maxEntries = maxEntries
  ttl_eq : r.dedup.ttlSecs = ttlSecs
  answers : ExactAnswers maxEntries ttlSecs r.calls
  bounded : r.dedup.seen.length ≤ maxEntries
  distinct : (r.dedup.seen.map Prod.fst).Nodup
  sorted : (acceptedEvents r.calls).Pairwise fun a b => a.2 ≤ b.2
  past : ∀ e ∈ acceptedEvents r.calls, e.2 ≤ now
  forgotten : ∃ gone, acceptedEvents r.calls = gone ++ r.dedup.seen ∧
    Forgotten maxEntries ttlSecs now gone r.dedup.seen

theorem dedupOk_start (maxEntries ttlSecs : ℕ) (now : ℤ) : DedupOk maxEntries ttlSecs now (.start maxEntries ttlSecs) := by
  refine ⟨rfl, rfl, ?_, Nat.zero_le _, List.nodup_nil, List.Pairwise.nil, fun e he => (nomatch he), [], rfl, ?_⟩
  · intro pre c post h
    simp [DedupRun.start] at h
  · intro before e since h
    simp at h

variable {now : ℤ} {r : DedupRun}

theorem DedupOk.seen_sorted (h : DedupOk maxEntries ttlSecs now r) : r.dedup.seen.Pairwise fun a b => a.2 ≤ b.2 := by
  obtain ⟨gone, hgone, -⟩ := h.forgotten
  have hsorted := h.sorted
  rw [hgone] at hsorted
  exact (List.pairwise_append.mp hsorted).2.1

/-- The pruned deque is the end of the accepted events, too. -/
theorem DedupOk.prune_forgotten (h : DedupOk maxEntries ttlSecs now r) {later : ℤ} (hle : now ≤ later) :
    ∃ gone, acceptedEvents r.calls = gone ++ r.dedup.prune later ∧
      Forgotten maxEntries ttlSecs later gone (r.dedup.prune later) := by
  obtain ⟨gone, hgone, hforgotten⟩ := h.forgotten
  set front := r.dedup.seen.takeWhile fun e => decide (r.dedup.ttlSecs ≤ secsSince later e.2) with hfront
  have hcut : front ++ r.dedup.prune later = r.dedup.seen := List.takeWhile_append_dropWhile
  refine ⟨gone ++ front, by rw [hgone, List.append_assoc, hcut], ?_⟩
  refine Forgotten.drop (by rw [hcut]; exact hforgotten.later hle) ?_
  intro before e since heq
  left
  have hmem : e ∈ front := by rw [heq]; simp
  have hexp := List.mem_takeWhile_imp hmem
  rw [h.ttl_eq] at hexp
  exact hexp

/-- **An event is in the pruned deque exactly if it was seen recently.** -/
theorem DedupOk.recentlySeen_iff (h : DedupOk maxEntries ttlSecs now r) {later : ℤ} (hle : now ≤ later) (id : Str) :
    id ∈ (r.dedup.prune later).map Prod.fst ↔
      RecentlySeen maxEntries ttlSecs (acceptedEvents r.calls) id later := by
  obtain ⟨gone, hgone, hforgotten⟩ := h.prune_forgotten hle
  have hprune : r.dedup.prune later = r.dedup.seen.filter fun e => !expired r.dedup.ttlSecs later e :=
    prune_eq h.seen_sorted
  rw [h.ttl_eq] at hprune
  constructor
  · intro hmem
    obtain ⟨⟨id, time⟩, he, rfl⟩ := List.mem_map.mp hmem
    obtain ⟨front, since, hseen⟩ := List.append_of_mem he
    refine ⟨gone ++ front, time, since, by rw [hgone, hseen, List.append_assoc], ?_, ?_⟩
    · rw [hprune] at he
      have hkeep := (List.mem_filter.mp he).2
      unfold expired at hkeep
      simpa using hkeep
    · have hlen : (r.dedup.prune later).length ≤ r.dedup.seen.length := (List.dropWhile_sublist _).length_le
      have hbound := h.bounded
      have hcount := otherKeys_le_length id since
      have hsplit := congrArg List.length hseen
      rw [List.length_append, List.length_cons] at hsplit
      show otherKeys id since < maxEntries
      omega
  · rintro ⟨before, time, since, heq, hyoung, hfew⟩
    rw [hgone] at heq
    rcases append_eq_cut heq with ⟨rest, hgone, rfl⟩ | ⟨front, -, hseen⟩
    · exfalso
      rcases hforgotten before (id, time) rest hgone with hexp | hmany
      · unfold expired at hexp
        rw [decide_eq_true_eq] at hexp
        exact absurd hexp (Nat.not_le.mpr hyoung)
      · exact absurd hmany (Nat.not_le.mpr hfew)
    · rw [hseen]
      exact List.mem_map.mpr ⟨(id, time), by simp, rfl⟩

theorem ExactAnswers.concat {calls : List SeenCall} {c : SeenCall} (h : ExactAnswers maxEntries ttlSecs calls)
    (hc : c.new = false ↔ RecentlySeen maxEntries ttlSecs (acceptedEvents calls) c.id c.time) :
    ExactAnswers maxEntries ttlSecs (calls ++ [c]) :=
  forall_cut_concat
    (P := fun pre (c : SeenCall) => c.new = false ↔ RecentlySeen maxEntries ttlSecs (acceptedEvents pre) c.id c.time) h hc

/-- A call of an event that is in the deque. -/
theorem DedupOk.again (h : DedupOk maxEntries ttlSecs now r) {later : ℤ} (hle : now ≤ later) {id : Str}
    (hmem : id ∈ (r.dedup.prune later).map Prod.fst) :
    DedupOk maxEntries ttlSecs later ⟨{ r.dedup with seen := r.dedup.prune later }, r.calls ++ [⟨id, later, false⟩]⟩ := by
  have hsub : (r.dedup.prune later).Sublist r.dedup.seen := List.dropWhile_sublist _
  have haccepted : acceptedEvents (r.calls ++ [⟨id, later, false⟩]) = acceptedEvents r.calls := by
    rw [acceptedEvents_concat, if_neg Bool.false_ne_true, List.append_nil]
  constructor
  case max_eq => exact h.max_eq
  case ttl_eq => exact h.ttl_eq
  case answers => exact h.answers.concat (iff_of_true rfl ((h.recentlySeen_iff hle id).mp hmem))
  case bounded => exact le_trans hsub.length_le h.bounded
  case distinct => exact h.distinct.sublist (hsub.map Prod.fst)
  case sorted => rw [haccepted]; exact h.sorted
  case past =>
    rw [haccepted]
    exact fun e he => le_trans (h.past e he) hle
  case forgotten =>
    rw [haccepted]
    exact h.prune_forgotten hle

/-- A call of a new event, with the deque it leaves. -/
theorem DedupOk.fresh (h : DedupOk maxEntries ttlSecs now r) {later : ℤ} (hle : now ≤ later) {id : Str}
    (hnew : id ∉ (r.dedup.prune later).map Prod.fst) {gone seen : List (Str × ℤ)}
    (hgone : acceptedEvents r.calls = gone ++ seen) (hsub : seen.Sublist (r.dedup.prune later))
    (hlen : seen.length < maxEntries) (hforgotten : Forgotten maxEntries ttlSecs later gone (seen ++ [(id, later)])) :
    DedupOk maxEntries ttlSecs later
      ⟨{ r.dedup with seen := seen ++ [(id, later)] }, r.calls ++ [⟨id, later, true⟩]⟩ := by
  have hprune : (r.dedup.prune later).Sublist r.dedup.seen := List.dropWhile_sublist _
  have haccepted : acceptedEvents (r.calls ++ [⟨id, later, true⟩]) = acceptedEvents r.calls ++ [(id, later)] := by
    rw [acceptedEvents_concat, if_pos rfl]
  have hpast : ∀ e ∈ acceptedEvents r.calls, e.2 ≤ later := fun e he => le_trans (h.past e he) hle
  constructor
  case max_eq => exact h.max_eq
  case ttl_eq => exact h.ttl_eq
  case answers =>
    refine h.answers.concat (iff_of_false Bool.noConfusion ?_)
    exact fun hseen => hnew ((h.recentlySeen_iff hle id).mpr hseen)
  case bounded =>
    show (seen ++ [(id, later)]).length ≤ maxEntries
    rw [List.length_append, List.length_singleton]
    omega
  case distinct =>
    refine nodup_keys_concat (h.distinct.sublist ((hsub.trans hprune).map Prod.fst)) ?_
    exact fun hmem => hnew ((hsub.map Prod.fst).subset hmem)
  case sorted =>
    rw [haccepted, pairwise_concat]
    exact ⟨h.sorted, hpast⟩
  case past =>
    intro e he
    rw [haccepted, List.mem_append, List.mem_singleton] at he
    rcases he with he | rfl
    · exact hpast e he
    · exact le_refl _
  case forgotten => exact ⟨gone, by rw [haccepted, hgone, List.append_assoc], hforgotten⟩

/-- The oldest of a full deque has as many other events behind it as the deque holds. -/
theorem forgotten_oldest {id : Str} {later : ℤ} {e : Str × ℤ} {rest : List (Str × ℤ)}
    (hdistinct : ((e :: rest).map Prod.fst).Nodup) (hnew : id ∉ (e :: rest).map Prod.fst)
    (hfull : maxEntries ≤ (e :: rest).length) : Forgotten maxEntries ttlSecs later [e] (rest ++ [(id, later)]) := by
  intro before e' since heq
  obtain ⟨rfl, rfl, rfl⟩ : before = [] ∧ e = e' ∧ since = [] := by
    cases before with
    | nil =>
      obtain ⟨rfl, hnil⟩ := List.cons.inj heq
      exact ⟨rfl, rfl, hnil.symm⟩
    | cons b before => simp at heq
  right
  rw [List.map_cons, List.nodup_cons] at hdistinct
  rw [List.map_cons, List.mem_cons, not_or] at hnew
  rw [List.nil_append, otherKeys_eq_length]
  · rw [List.length_append, List.length_singleton]
    rw [List.length_cons] at hfull
    exact hfull
  · exact nodup_keys_concat hdistinct.2 hnew.2
  · rw [List.map_append, List.mem_append, not_or]
    refine ⟨hdistinct.1, ?_⟩
    intro hmem
    exact hnew.1 (List.mem_singleton.mp hmem).symm

theorem step_dedupOk (hmax : 1 ≤ maxEntries) (now : ℤ) (r : DedupRun) (e : Str × ℤ)
    (h : DedupOk maxEntries ttlSecs now r) (hle : now ≤ e.2) : DedupOk maxEntries ttlSecs e.2 (r.step e) := by
  obtain ⟨id, later⟩ := e
  obtain ⟨gone, hgone, hforgotten⟩ := h.prune_forgotten hle
  unfold DedupRun.step
  rcases r.dedup.isNew_cases id later with ⟨hmem, heq⟩ | ⟨hnew, hlen, heq⟩ | ⟨hnew, hfull, heq⟩
  · rw [heq]
    exact h.again hle hmem
  · rw [heq]
    rw [h.max_eq] at hlen
    exact h.fresh hle hnew hgone (List.Sublist.refl _) hlen (hforgotten.push _)
  · rw [heq]
    rw [h.max_eq] at hfull
    have hprune : (r.dedup.prune later).Sublist r.dedup.seen := List.dropWhile_sublist _
    have hbound := le_trans hprune.length_le h.bounded
    have hdistinct := h.distinct.sublist (hprune.map Prod.fst)
    cases hseen : r.dedup.prune later with
    | nil =>
      rw [hseen, List.length_nil] at hfull
      omega
    | cons oldest rest =>
      rw [hseen] at hgone hforgotten hnew hdistinct hbound hfull
      rw [List.drop_one, List.tail_cons]
      rw [List.length_cons] at hbound
      have hcut : acceptedEvents r.calls = (gone ++ [oldest]) ++ rest := by
        rw [hgone, List.append_assoc]
        rfl
      have hsub : rest.Sublist (r.dedup.prune later) := by
        rw [hseen]
        exact List.sublist_cons_self _ _
      have hpushed : Forgotten maxEntries ttlSecs later gone ([oldest] ++ (rest ++ [(id, later)])) := hforgotten.push _
      have hdropped := hpushed.drop (forgotten_oldest hdistinct hnew hfull)
      exact h.fresh hle (by rw [hseen]; exact hnew) hcut hsub (by omega) hdropped

/-- **The deduplicator against the whole history**, over every run: the deque holds at most `maxEntries` events,
each once and in the order of time, and an event is not new exactly if it was accepted less than `ttlSecs`
whole seconds ago and fewer than `maxEntries` other events since. -/
theorem dedup_exact {maxEntries : ℕ} (ttlSecs : ℕ) (hmax : 1 ≤ maxEntries) {events : List (Str × ℤ)}
    (htimes : (events.map Prod.snd).Pairwise (· ≤ ·)) :
    let r := runSteps DedupRun.step (.start maxEntries ttlSecs) events
    r.dedup.seen.length ≤ maxEntries ∧ (r.dedup.seen.map Prod.fst).Nodup ∧
      (r.dedup.seen.Pairwise fun a b => a.2 ≤ b.2) ∧
      ∀ pre c post, r.calls = pre ++ c :: post →
        (c.new = false ↔ RecentlySeen maxEntries ttlSecs (acceptedEvents pre) c.id c.time) := by
  obtain ⟨u, hok⟩ := run_ordered_start (dedupOk_start maxEntries ttlSecs) (step_dedupOk hmax) events htimes
  exact ⟨hok.bounded, hok.distinct, hok.seen_sorted, hok.answers⟩

/-- With room for two events, the third one pushes out the first. -/
def fourEvents : List (Str × ℤ) := [("a".toList, 0), ("a".toList, 1), ("b".toList, 2), ("c".toList, 3), ("a".toList, 4)]

theorem dedup_exact_four : (runSteps DedupRun.step (.start 2 600) fourEvents).calls.map SeenCall.new =
      [true, false, true, true, true] ∧
    (runSteps DedupRun.step (.start 2 600) fourEvents).dedup.seen.length ≤ 2 :=
  ⟨by decide +kernel, (dedup_exact 600 (by decide) (by decide)).1⟩

end Zeptoclaw

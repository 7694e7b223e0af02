import Zeptoclaw.Lib.History
import Zeptoclaw.Spec.Recent
import Mathlib.Data.List.Count

/-!
# The rate limiter against the whole history

The queue of an address holds those of its allowed requests that may still count: a request
that was dropped, by a check or by a sweep, counts at no later time. So the verdict of a check
is that of the history of all checks, and sweeps change none (`rate_limit_exact`). The gateway has
two limiters, and each of them runs on its own (`gateway_limits_exact`).
-/

namespace Zeptoclaw

/-! ## Runs -/

inductive LimiterEvent where
  | check (ip : IpAddr) (now : ℤ)
  | sweep (now : ℤ)
  deriving DecidableEq, Repr

namespace LimiterEvent

def now : LimiterEvent → ℤ
  | .check _ now => now
  | .sweep now => now

/-- The address and the time of a check. -/
def checked : LimiterEvent → Option (IpAddr × ℤ)
  | .check ip now => some (ip, now)
  | .sweep _ => none

end LimiterEvent

structure Verdict where
  ip : IpAddr
  time : ℤ
  allowed : Bool
  deriving DecidableEq, Repr

/-- The limiter, and the verdicts it has given. -/
structure LimiterRun where
  limiter : SlidingWindowRateLimiter
  verdicts : List Verdict := []

namespace LimiterRun

def step (r : LimiterRun) : LimiterEvent → LimiterRun
  | .check ip now => ⟨(r.limiter.check ip now).2, r.verdicts ++ [⟨ip, now, (r.limiter.check ip now).1⟩]⟩
  | .sweep now => { r with limiter := r.limiter.sweep now }

def start (limit window : ℕ) : LimiterRun := ⟨{ limit, window }, []⟩

end LimiterRun

/-! ## The history -/

/-- The times at which an address was allowed. -/
def allowedTimes (ip : IpAddr) (verdicts : List Verdict) : List ℤ :=
  (verdicts.filter fun v => decide (v.ip = ip) && v.allowed).map Verdict.time

/-- The earlier checks of the address that were allowed within the window before a time. -/
def recentAllowed (window : ℕ) (verdicts : List Verdict) (ip : IpAddr) (t : ℤ) : ℕ :=
  verdicts.countP fun v => decide (v.ip = ip) && v.allowed && decide (t - window < v.time)

/-- Every verdict is that of the checks before it. -/
def ExactVerdicts (limit window : ℕ) (verdicts : List Verdict) : Prop :=
  ∀ pre v post, verdicts = pre ++ v :: post → (v.allowed = true ↔ recentAllowed window pre v.ip v.time < limit)

theorem recentAllowed_eq (window : ℕ) (verdicts : List Verdict) (ip : IpAddr) (t : ℤ) :
    recentAllowed window verdicts ip t = ((allowedTimes ip verdicts).filter fun u => decide (t - window < u)).length := by
  unfold recentAllowed allowedTimes
  rw [List.filter_map, List.length_map, List.filter_filter, List.countP_eq_length_filter]
  congr 1
  apply List.filter_congr
  intro v _
  exact Bool.and_comm _ _

theorem allowedTimes_concat (ip : IpAddr) (verdicts : List Verdict) (v : Verdict) :
    allowedTimes ip (verdicts ++ [v]) = allowedTimes ip verdicts ++ if v.ip = ip ∧ v.allowed = true then [v.time] else [] := by
  unfold allowedTimes
  rw [map_filter_concat]
  simp only [Bool.and_eq_true, decide_eq_true_eq]

theorem ExactVerdicts.prefix {limit window : ℕ} {pre post : List Verdict}
    (h : ExactVerdicts limit window (pre ++ post)) : ExactVerdicts limit window pre := by
  intro pre' v post' heq
  exact h pre' v (post' ++ post) (by rw [heq, List.append_assoc, List.cons_append])

theorem ExactVerdicts.concat {limit window : ℕ} {verdicts : List Verdict} {v : Verdict}
    (h : ExactVerdicts limit window verdicts)
    (hv : v.allowed = true ↔ recentAllowed window verdicts v.ip v.time < limit) :
    ExactVerdicts limit window (verdicts ++ [v]) :=
  forall_cut_concat (P := fun pre (v : Verdict) => v.allowed = true ↔ recentAllowed window pre v.ip v.time < limit) h hv

/-- The checks determine their verdicts. -/
theorem ExactVerdicts.unique {limit window : ℕ} {a b : List Verdict} (ha : ExactVerdicts limit window a)
    (hb : ExactVerdicts limit window b) (hsame : a.map (fun v => (v.ip, v.time)) = b.map fun v => (v.ip, v.time)) : a = b := by
  induction a using List.reverseRecOn generalizing b with
  | nil => exact (List.map_eq_nil_iff.mp hsame.symm).symm
  | append_singleton a v ih =>
    rcases List.eq_nil_or_concat b with rfl | ⟨b, w, rfl⟩
    · simp at hsame
    rw [List.concat_eq_append] at hb hsame ⊢
    rw [List.map_append, List.map_append] at hsame
    obtain ⟨hfront, hlast⟩ := List.append_inj' hsame rfl
    obtain rfl := ih ha.prefix hb.prefix hfront
    have hv := ha a v [] rfl
    have hw := hb a w [] rfl
    obtain ⟨hip, htime⟩ := Prod.mk.inj (List.singleton_inj.mp hlast)
    rw [← hip, ← htime] at hw
    have hallowed : v.allowed = w.allowed := by rw [Bool.eq_iff_iff, hv, hw]
    obtain ⟨ip, time, allowed⟩ := v
    obtain ⟨ip', time', allowed'⟩ := w
    cases hip
    cases htime
    cases hallowed
    rfl

/-! ## The queues -/

namespace SlidingWindowRateLimiter

variable {rl : SlidingWindowRateLimiter}

/-- The queue of an address; an address without an entry has none. -/
def queue (rl : SlidingWindowRateLimiter) (ip : IpAddr) : List ℤ := (rl.entries.lookup ip).getD []

theorem dropExpired_eq {timestamps : List ℤ} (h : timestamps.Pairwise (· ≤ ·)) (cutoff : ℤ) :
    dropExpired cutoff timestamps = timestamps.filter fun t => decide (cutoff < t) := by
  have hkeep : ∀ t : ℤ, (!decide (t ≤ cutoff)) = decide (cutoff < t) := by
    intro t
    rw [← decide_not, decide_eq_decide]
    omega
  unfold dropExpired
  rw [dropWhile_eq_filter]
  · exact List.filter_congr fun t _ => hkeep t
  · refine h.imp fun hab hb => ?_
    rw [decide_eq_true_eq] at hb ⊢
    omega

/-- What a later window keeps, it keeps of what an earlier one has kept. -/
theorem filter_later {c c' : ℤ} (h : c ≤ c') (l : List ℤ) :
    (l.filter fun t => decide (c < t)).filter (fun t => decide (c' < t)) = l.filter fun t => decide (c' < t) := by
  rw [List.filter_filter]
  apply List.filter_congr
  intro t _
  rw [← Bool.decide_and, decide_eq_decide]
  omega

theorem check_fst (h : rl.limit ≠ 0) (ip : IpAddr) (now : ℤ) :
    (rl.check ip now).1 = decide ((dropExpired (now - rl.window) (rl.queue ip)).length < rl.limit) := by
  unfold check queue
  rw [if_neg h]
  dsimp only
  split
  · rename_i hle
    exact (decide_eq_false (by omega)).symm
  · rename_i hlt
    exact (decide_eq_true (by omega)).symm

theorem check_queue (h : rl.limit ≠ 0) (ip other : IpAddr) (now : ℤ) :
    (rl.check ip now).2.queue other =
      if other = ip then
        dropExpired (now - rl.window) (rl.queue ip) ++ if (rl.check ip now).1 = true then [now] else []
      else rl.queue other := by
  unfold check queue
  rw [if_neg h]
  dsimp only
  split
  · rw [Assoc.lookup_insert]
    split
    · rw [if_neg Bool.false_ne_true, List.append_nil]
      rfl
    · rfl
  · rw [Assoc.lookup_insert]
    split
    · rw [if_pos rfl]
      rfl
    · rfl

theorem check_limits (ip : IpAddr) (now : ℤ) :
    (rl.check ip now).2.limit = rl.limit ∧ (rl.check ip now).2.window = rl.window := by
  unfold check
  dsimp only
  split
  · exact ⟨rfl, rfl⟩
  · split <;> exact ⟨rfl, rfl⟩

theorem sweep_queue (ip : IpAddr) (now : ℤ) :
    (rl.sweep now).queue ip = dropExpired (now - rl.window) (rl.queue ip) := by
  unfold sweep queue
  dsimp only
  rw [Assoc.lookup_retainMap]
  cases rl.entries.lookup ip with
  | none => rfl
  | some timestamps =>
    rw [Option.bind_some, Option.getD_some]
    cases dropExpired (now - rl.window) timestamps with
    | nil => rfl
    | cons t rest => rfl

end SlidingWindowRateLimiter

/-! ## The invariant -/

/-- The queue of an address has all its allowed requests that count now or later. -/
structure LimiterOk (limit window : ℕ) (now : ℤ) (r : LimiterRun) : Prop where
  limit_eq : r.limiter.limit = limit
  window_eq : r.limiter.window = window
  exact_verdicts : ExactVerdicts limit window r.verdicts
  sorted : ∀ ip, (r.limiter.queue ip).Pairwise (· ≤ ·)
  past : ∀ ip, ∀ t ∈ r.limiter.queue ip, t ≤ now
  kept : ∀ ip t, now ≤ t → (r.limiter.queue ip).filter (fun u => decide (t - window < u)) =
    (allowedTimes ip r.verdicts).filter fun u => decide (t - window < u)

open SlidingWindowRateLimiter

section Run

variable {limit window : ℕ} {now : ℤ} {r : LimiterRun}

theorem limiterOk_start (limit window : ℕ) (now : ℤ) : LimiterOk limit window now (.start limit window) := by
  refine ⟨rfl, rfl, ?_, fun _ => List.Pairwise.nil, fun _ t ht => (nomatch ht), fun _ _ _ => rfl⟩
  intro pre v post h
  simp [LimiterRun.start] at h

/-- A queue without what has expired by then. -/
theorem LimiterOk.drop (h : LimiterOk limit window now r) {later : ℤ} (hle : now ≤ later) (ip : IpAddr) :
    dropExpired (later - window) (r.limiter.queue ip) =
      (allowedTimes ip r.verdicts).filter fun u => decide (later - window < u) := by
  rw [dropExpired_eq (h.sorted ip), h.kept ip later hle]

theorem LimiterOk.drop_sorted (h : LimiterOk limit window now r) (cutoff : ℤ) (ip : IpAddr) :
    (dropExpired cutoff (r.limiter.queue ip)).Pairwise (· ≤ ·) := (h.sorted ip).sublist (List.dropWhile_sublist _)

theorem LimiterOk.drop_past (h : LimiterOk limit window now r) {cutoff : ℤ} {ip : IpAddr} {t : ℤ}
    (ht : t ∈ dropExpired cutoff (r.limiter.queue ip)) : t ≤ now := h.past ip t ((List.dropWhile_sublist _).subset ht)

/-- What was dropped by then does not count later. -/
theorem LimiterOk.drop_kept (h : LimiterOk limit window now r) {later t : ℤ} (hle : now ≤ later) (ht : later ≤ t)
    (ip : IpAddr) : (dropExpired (later - window) (r.limiter.queue ip)).filter (fun u => decide (t - window < u)) =
      (allowedTimes ip r.verdicts).filter fun u => decide (t - window < u) := by
  rw [h.drop hle]
  exact filter_later (by omega) _

theorem LimiterOk.sweep (h : LimiterOk limit window now r) {later : ℤ} (hle : now ≤ later) :
    LimiterOk limit window later (r.step (.sweep later)) := by
  have hqueue : ∀ ip, (r.limiter.sweep later).queue ip = dropExpired (later - window) (r.limiter.queue ip) := by
    intro ip
    rw [sweep_queue, h.window_eq]
  constructor
  case limit_eq => exact h.limit_eq
  case window_eq => exact h.window_eq
  case exact_verdicts => exact h.exact_verdicts
  case sorted =>
    intro ip
    show ((r.limiter.sweep later).queue ip).Pairwise (· ≤ ·)
    rw [hqueue]
    exact h.drop_sorted _ ip
  case past =>
    intro ip t ht
    have ht : t ∈ (r.limiter.sweep later).queue ip := ht
    rw [hqueue] at ht
    exact le_trans (h.drop_past ht) hle
  case kept =>
    intro ip t ht
    show ((r.limiter.sweep later).queue ip).filter _ = _
    rw [hqueue]
    exact h.drop_kept hle ht ip

theorem LimiterOk.check (h : LimiterOk limit window now r) (hlimit : 1 ≤ limit) {later : ℤ} (hle : now ≤ later)
    (ip : IpAddr) : LimiterOk limit window later (r.step (.check ip later)) := by
  have hne : r.limiter.limit ≠ 0 := by
    rw [h.limit_eq]
    omega
  set allowed := (r.limiter.check ip later).1 with hallowed
  have hqueue : ∀ other, (r.limiter.check ip later).2.queue other = if other = ip then
      dropExpired (later - window) (r.limiter.queue ip) ++ if allowed = true then [later] else []
      else r.limiter.queue other := by
    intro other
    rw [check_queue hne, h.window_eq]
  have hlimits : (r.limiter.check ip later).2.limit = r.limiter.limit ∧ (r.limiter.check ip later).2.window = r.limiter.window :=
    check_limits ip later
  constructor
  case limit_eq => exact hlimits.1.trans h.limit_eq
  case window_eq => exact hlimits.2.trans h.window_eq
  case exact_verdicts =>
    refine h.exact_verdicts.concat ?_
    rw [check_fst hne, h.window_eq, h.limit_eq, h.drop hle, decide_eq_true_eq, recentAllowed_eq]
  case sorted =>
    intro other
    show ((r.limiter.check ip later).2.queue other).Pairwise (· ≤ ·)
    rw [hqueue]
    split
    · cases allowed with
      | false =>
        rw [if_neg Bool.false_ne_true, List.append_nil]
        exact h.drop_sorted _ ip
      | true =>
        rw [if_pos rfl, pairwise_concat]
        exact ⟨h.drop_sorted _ ip, fun t ht => le_trans (h.drop_past ht) hle⟩
    · exact h.sorted other
  case past =>
    intro other t ht
    have ht : t ∈ (r.limiter.check ip later).2.queue other := ht
    rw [hqueue] at ht
    split at ht
    · rcases List.mem_append.mp ht with ht | ht
      · exact le_trans (h.drop_past ht) hle
      · split at ht
        · rw [List.mem_singleton.mp ht]
        · cases ht
    · exact le_trans (h.past other t ht) hle
  case kept =>
    intro other t ht
    show ((r.limiter.check ip later).2.queue other).filter _ =
      (allowedTimes other (r.verdicts ++ [⟨ip, later, allowed⟩])).filter _
    rw [hqueue, allowedTimes_concat, List.filter_append]
    by_cases hip : other = ip
    · subst hip
      rw [if_pos rfl, List.filter_append, h.drop_kept hle ht]
      congr 1
      by_cases ha : allowed = true
      · rw [if_pos ha, if_pos ⟨rfl, ha⟩]
      · rw [if_neg ha, if_neg fun hc => ha hc.2]
    · rw [if_neg hip, if_neg fun hc => hip hc.1.symm, List.filter_nil, List.append_nil]
      exact h.kept other t (le_trans hle ht)

theorem step_limiterOk (hlimit : 1 ≤ limit) (now : ℤ) (r : LimiterRun) (e : LimiterEvent)
    (h : LimiterOk limit window now r) (hle : now ≤ e.now) : LimiterOk limit window e.now (r.step e) := by
  cases e with
  | check ip later => exact h.check hlimit hle ip
  | sweep later => exact h.sweep hle

/-- The verdicts are of the checks, in their order. -/
theorem run_verdicts (events : List LimiterEvent) : ∀ r : LimiterRun,
    ((runSteps LimiterRun.step r events).verdicts.map fun v => (v.ip, v.time)) =
      (r.verdicts.map fun v => (v.ip, v.time)) ++ events.filterMap LimiterEvent.checked := by
  induction events with
  | nil => exact fun r => (List.append_nil _).symm
  | cons e events ih =>
    intro r
    have hrun : runSteps LimiterRun.step r (e :: events) = runSteps LimiterRun.step (r.step e) events := rfl
    rw [hrun, ih]
    cases e with
    | check ip now =>
      show ((r.verdicts ++ [_]).map _) ++ _ = _
      rw [List.map_append, List.append_assoc]
      rfl
    | sweep now => rfl

/-- The verdicts of every run are those of its history. -/
theorem limiter_exactVerdicts (hlimit : 1 ≤ limit) {events : List LimiterEvent}
    (htimes : (events.map LimiterEvent.now).Pairwise (· ≤ ·)) :
    ExactVerdicts limit window (runSteps LimiterRun.step (.start limit window) events).verdicts := by
  obtain ⟨u, hok⟩ := run_ordered_start (limiterOk_start limit window) (step_limiterOk hlimit) events htimes
  exact hok.exact_verdicts

end Run

/-- **The limit is exact over every run**: a check is allowed exactly if fewer than `limit` earlier checks of
the address were allowed within the window, and calls with the same checks and other sweeps have
the same verdicts. -/
theorem rate_limit_exact {limit : ℕ} (window : ℕ) (hlimit : 1 ≤ limit) {events : List LimiterEvent}
    (htimes : (events.map LimiterEvent.now).Pairwise (· ≤ ·)) :
    (∀ pre v post, (runSteps LimiterRun.step (.start limit window) events).verdicts = pre ++ v :: post →
      (v.allowed = true ↔ recentAllowed window pre v.ip v.time < limit)) ∧
    ∀ events' : List LimiterEvent, (events'.map LimiterEvent.now).Pairwise (· ≤ ·) →
      events'.filterMap LimiterEvent.checked = events.filterMap LimiterEvent.checked →
      (runSteps LimiterRun.step (.start limit window) events').verdicts =
        (runSteps LimiterRun.step (.start limit window) events).verdicts := by
  refine ⟨limiter_exactVerdicts hlimit htimes, ?_⟩
  intro events' htimes' hsame
  apply (limiter_exactVerdicts hlimit htimes').unique (limiter_exactVerdicts hlimit htimes)
  rw [run_verdicts, run_verdicts, hsame]

/-- Four checks of one address. -/
def fourChecks : List LimiterEvent :=
  [.check (.v4 ⟨127, 0, 0, 1⟩) 0, .check (.v4 ⟨127, 0, 0, 1⟩) 4, .check (.v4 ⟨127, 0, 0, 1⟩) 9, .check (.v4 ⟨127, 0, 0, 1⟩) 10]

/-- At time 10 the request of time 0 no longer counts, with a sweep or without. -/
theorem rate_limit_exact_four :
    (runSteps LimiterRun.step (.start 2 10) fourChecks).verdicts.map Verdict.allowed = [true, true, false, true] ∧
    (runSteps LimiterRun.step (.start 2 10) (fourChecks ++ [.sweep 30])).verdicts =
      (runSteps LimiterRun.step (.start 2 10) fourChecks).verdicts :=
  ⟨by decide +kernel, (rate_limit_exact 10 (by decide) (by decide)).2 _ (by decide) (by decide)⟩

/-! ## The two limiters of the gateway -/

inductive GatewayEvent where
  | pair (ip : IpAddr) (now : ℤ)
  | webhook (ip : IpAddr) (now : ℤ)
  | sweep (now : ℤ)
  deriving DecidableEq, Repr

namespace GatewayEvent

def now : GatewayEvent → ℤ
  | .pair _ now => now
  | .webhook _ now => now
  | .sweep now => now

/-- What the limiter of the pairing requests has to do. -/
def toPair : GatewayEvent → Option LimiterEvent
  | .pair ip now => some (.check ip now)
  | .webhook _ _ => none
  | .sweep now => some (.sweep now)

/-- What the limiter of the webhook calls has to do. -/
def toWebhook : GatewayEvent → Option LimiterEvent
  | .pair _ _ => none
  | .webhook ip now => some (.check ip now)
  | .sweep now => some (.sweep now)

end GatewayEvent

/-- The limiters of the gateway, and the verdicts of each. -/
structure GatewayLimits where
  gateway : GatewayRateLimiter
  pairVerdicts : List Verdict := []
  webhookVerdicts : List Verdict := []

namespace GatewayLimits

def step (r : GatewayLimits) : GatewayEvent → GatewayLimits
  | .pair ip now =>
    let (allowed, gateway) := r.gateway.checkPair ip now
    { r with gateway, pairVerdicts := r.pairVerdicts ++ [⟨ip, now, allowed⟩] }
  | .webhook ip now =>
    let (allowed, gateway) := r.gateway.checkWebhook ip now
    { r with gateway, webhookVerdicts := r.webhookVerdicts ++ [⟨ip, now, allowed⟩] }
  | .sweep now => { r with gateway := r.gateway.sweep now }

def start (pairPerMin webhookPerMin window : ℕ) : GatewayLimits := { gateway := .new pairPerMin webhookPerMin window }

def pairRun (r : GatewayLimits) : LimiterRun := ⟨r.gateway.pair, r.pairVerdicts⟩

def webhookRun (r : GatewayLimits) : LimiterRun := ⟨r.gateway.webhook, r.webhookVerdicts⟩

theorem pairRun_step (r : GatewayLimits) (e : GatewayEvent) :
    (r.step e).pairRun = e.toPair.elim r.pairRun r.pairRun.step := by
  cases e <;> rfl

theorem webhookRun_step (r : GatewayLimits) (e : GatewayEvent) :
    (r.step e).webhookRun = e.toWebhook.elim r.webhookRun r.webhookRun.step := by
  cases e <;> rfl

end GatewayLimits

/-- The events of one limiter are in the order of those of the gateway. -/
theorem limiterTimes_sorted {f : GatewayEvent → Option LimiterEvent} (hf : ∀ e e', f e = some e' → e'.now = e.now)
    {events : List GatewayEvent} (htimes : (events.map GatewayEvent.now).Pairwise (· ≤ ·)) :
    ((events.filterMap f).map LimiterEvent.now).Pairwise (· ≤ ·) := by
  rw [List.pairwise_map] at htimes ⊢
  refine List.Pairwise.filterMap f ?_ htimes
  intro a b hab a' ha b' hb
  rw [hf a a' ha, hf b b' hb]
  exact hab

/-- **Each of the two limits is exact**, whatever the requests that the other one is for. -/
theorem gateway_limits_exact {pairPerMin webhookPerMin : ℕ} (window : ℕ) (hpair : 1 ≤ pairPerMin)
    (hwebhook : 1 ≤ webhookPerMin) {events : List GatewayEvent}
    (htimes : (events.map GatewayEvent.now).Pairwise (· ≤ ·)) :
    ExactVerdicts pairPerMin window
        (runSteps GatewayLimits.step (.start pairPerMin webhookPerMin window) events).pairVerdicts ∧
      ExactVerdicts webhookPerMin window
        (runSteps GatewayLimits.step (.start pairPerMin webhookPerMin window) events).webhookVerdicts := by
  have hpairRun := run_project GatewayLimits.pairRun_step events (.start pairPerMin webhookPerMin window)
  have hwebhookRun := run_project GatewayLimits.webhookRun_step events (.start pairPerMin webhookPerMin window)
  constructor
  · change ExactVerdicts pairPerMin window (GatewayLimits.pairRun _).verdicts
    rw [hpairRun]
    refine limiter_exactVerdicts hpair (limiterTimes_sorted ?_ htimes)
    rintro (_ | _ | _) e' he <;> cases he <;> rfl
  · change ExactVerdicts webhookPerMin window (GatewayLimits.webhookRun _).verdicts
    rw [hwebhookRun]
    refine limiter_exactVerdicts hwebhook (limiterTimes_sorted ?_ htimes)
    rintro (_ | _ | _) e' he <;> cases he <;> rfl

end Zeptoclaw

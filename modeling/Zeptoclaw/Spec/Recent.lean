import Zeptoclaw.Lib.Assoc
import Zeptoclaw.Spec.Http
import Mathlib.Data.List.MinMax

/-!
# What is remembered for a while

Three stores that forget: the requests of each address (`gateway/rate_limit.rs`), the keys of
webhook calls (`gateway/idempotency.rs`) and the events of the bridge (`r8r_bridge/dedup.rs`).
Instants are in nanoseconds and what a reading of the clock gives is an argument. `Instant` on
Linux goes far below the start of its clock, so that the end of a window always exists.
-/

namespace Zeptoclaw

/-! ## The rate limiter -/

structure SlidingWindowRateLimiter where
  limit : ℕ
  window : ℕ
  entries : Assoc IpAddr (List ℤ) := ∅

namespace SlidingWindowRateLimiter

/-- The loop that removes expired timestamps from the front. -/
def dropExpired (cutoff : ℤ) (timestamps : List ℤ) : List ℤ :=
  timestamps.dropWhile fun t => decide (t ≤ cutoff)

/-- The verdict, and the limiter after it. -/
def check (rl : SlidingWindowRateLimiter) (ip : IpAddr) (now : ℤ) : Bool × SlidingWindowRateLimiter :=
  if rl.limit = 0 then (true, rl)
  else
    let cutoff := now - rl.window
    let timestamps := dropExpired cutoff ((rl.entries.lookup ip).getD [])
    if rl.limit ≤ timestamps.length then (false, { rl with entries := rl.entries.insert ip timestamps })
    else (true, { rl with entries := rl.entries.insert ip (timestamps ++ [now]) })

def sweep (rl : SlidingWindowRateLimiter) (now : ℤ) : SlidingWindowRateLimiter :=
  let cutoff := now - rl.window
  { rl with entries := rl.entries.retainMap fun _ timestamps =>
      let timestamps := dropExpired cutoff timestamps
      if timestamps.isEmpty then none else some timestamps }

end SlidingWindowRateLimiter

structure GatewayRateLimiter where
  pair : SlidingWindowRateLimiter
  webhook : SlidingWindowRateLimiter

namespace GatewayRateLimiter

def new (pairPerMin webhookPerMin window : ℕ) : GatewayRateLimiter :=
  ⟨{ limit := pairPerMin, window }, { limit := webhookPerMin, window }⟩

def checkPair (g : GatewayRateLimiter) (ip : IpAddr) (now : ℤ) : Bool × GatewayRateLimiter :=
  let (allowed, pair) := g.pair.check ip now
  (allowed, { g with pair })

def checkWebhook (g : GatewayRateLimiter) (ip : IpAddr) (now : ℤ) : Bool × GatewayRateLimiter :=
  let (allowed, webhook) := g.webhook.check ip now
  (allowed, { g with webhook })

def sweep (g : GatewayRateLimiter) (now : ℤ) : GatewayRateLimiter := ⟨g.pair.sweep now, g.webhook.sweep now⟩

end GatewayRateLimiter

/-! ## The idempotency store -/

/-- An order in which a map may be iterated. -/
structure IterOrder (κ ν : Type) where
  order : List (Σ _ : κ, ν) → List (Σ _ : κ, ν)
  perm : ∀ l, (order l).Perm l

structure IdempotencyStore where
  entries : Assoc Str ℤ := ∅
  ttl : ℕ
  maxEntries : ℕ

namespace IdempotencyStore

/-- The oldest key, the first one in the order of the iteration. -/
def oldestKey (iter : IterOrder Str ℤ) (entries : Assoc Str ℤ) : Option Str :=
  -- the order of the integers that computes
  (@List.argmin _ _ Int.instLinearOrder.toPreorder Int.decLt Sigma.snd (iter.order entries.entries)).map Sigma.fst

def isDuplicate (store : IdempotencyStore) (key : Str) (now : ℤ) : Bool :=
  match store.entries.lookup key with
  | some recordedAt => decide ((now - recordedAt).toNat < store.ttl)
  | none => false

/-- The eviction of the oldest entry at capacity. -/
def evict (iter : IterOrder Str ℤ) (maxEntries : ℕ) (entries : Assoc Str ℤ) : Assoc Str ℤ :=
  if maxEntries ≤ entries.entries.length then
    match oldestKey iter entries with
    | some key => entries.erase key
    | none => entries
  else entries

/-- Whether the key is new, and the store after the call. -/
def checkAndRecord (store : IdempotencyStore) (key : Str) (now : ℤ) (iter : IterOrder Str ℤ) :
    Bool × IdempotencyStore :=
  if store.isDuplicate key now then (false, store)
  else
    let cutoff := now - store.ttl
    let entries := store.entries.retain fun _ recordedAt => decide (cutoff < recordedAt)
    (true, { store with entries := (evict iter store.maxEntries entries).insert key now })

end IdempotencyStore

/-! ## The deduplicator -/

structure Deduplicator where
  seen : List (Str × ℤ) := []
  maxEntries : ℕ
  ttlSecs : ℕ

namespace Deduplicator

/-- `duration_since(ts).as_secs()`: whole seconds, zero if the instant is not in the past. -/
def secsSince (now ts : ℤ) : ℕ := (now - ts).toNat / 1000000000

def prune (d : Deduplicator) (now : ℤ) : List (Str × ℤ) :=
  d.seen.dropWhile fun e => decide (d.ttlSecs ≤ secsSince now e.2)

/-- Whether the event is new, and the deduplicator after the call. -/
def isNew (d : Deduplicator) (eventId : Str) (now : ℤ) : Bool × Deduplicator :=
  let seen := d.prune now
  if seen.any fun e => decide (e.1 = eventId) then (false, { d with seen })
  else
    let seen := if d.maxEntries ≤ seen.length then seen.drop 1 else seen
    (true, { d with seen := seen ++ [(eventId, now)] })

end Deduplicator

end Zeptoclaw

import Zeptoclaw.Lib.Assoc
import Zeptoclaw.Lib.Run
import Zeptoclaw.Lib.Utf8
import Zeptoclaw.Spec.Bus
import Zeptoclaw.Spec.Session
import Mathlib.Data.List.MinMax

/-!
# The response cache

`cache/response_cache.rs` and the places of `process_message` (`agent/loop.rs`) that read
and fill it. SHA-256 is a parameter. The order of the slots is the iteration order of the
map; every slot also notes which call stored it, which the program does not.
-/

namespace Zeptoclaw

open Text Utf8

/-! ## The key -/

/-- `u64::to_le_bytes`. -/
def toLeBytes (n : ℕ) : Bytes := (List.range 8).map fun i => UInt8.ofNat (n / 256 ^ i % 256)

/-- A text behind its length. -/
def framed (s : Str) : Bytes := toLeBytes (encode s).length ++ encode s

/-- What `cache_key` hashes. -/
def cacheKeyBytes (model systemPrompt userPrompt : Str) : Bytes := framed model ++ framed systemPrompt ++ framed userPrompt

def hexDigit (n : ℕ) : Char := "0123456789abcdef".toList.getD n '0'

/-- `hex::encode`. -/
def hexEncode (bytes : Bytes) : Str := bytes.flatMap fun b => [hexDigit (b.toNat / 16), hexDigit (b.toNat % 16)]

def cacheKey (sha256 : Bytes → Bytes) (model systemPrompt userPrompt : Str) : Str :=
  hexEncode (sha256 (cacheKeyBytes model systemPrompt userPrompt))

/-! ## The cache -/

structure CacheEntry where
  response : Str
  tokenCount : ℕ
  createdAt : ℕ
  accessedAt : ℕ
  hitCount : ℕ
  deriving DecidableEq, Repr

/-- An entry under its key. -/
structure CacheSlot (ι : Type*) where
  key : Str
  entry : CacheEntry
  -- the call that stored the entry; none if it was loaded from the disk
  storedBy : Option ι
  deriving DecidableEq, Repr

structure CacheConfig where
  ttlSecs : ℕ
  maxEntries : ℕ
  deriving DecidableEq, Repr

namespace ResponseCache

variable {ι : Type*} (cfg : CacheConfig)

def expired (now : ℕ) (slot : CacheSlot ι) : Bool := cfg.ttlSecs < now - slot.entry.createdAt

def remove (key : Str) (slots : List (CacheSlot ι)) : List (CacheSlot ι) := slots.filter fun s => s.key ≠ key

/-- A hit is noted in the entry. -/
def touch (now : ℕ) (slot : CacheSlot ι) : CacheSlot ι :=
  { slot with entry := { slot.entry with accessedAt := now, hitCount := min (slot.entry.hitCount + 1) (2 ^ 32 - 1) } }

/-- The slots after a look-up, and the one that was hit. -/
def get (now : ℕ) (key : Str) (slots : List (CacheSlot ι)) : List (CacheSlot ι) × Option (CacheSlot ι) :=
  match slots.find? fun s => s.key = key with
  | none => (slots, none)
  | some slot =>
    if expired cfg now slot then (remove key slots, none)
    else (slots.map fun s => if s.key = key then touch now s else s, some slot)

def evictExpired (now : ℕ) (slots : List (CacheSlot ι)) : List (CacheSlot ι) := slots.filter fun s => !expired cfg now s

def evictLru (slots : List (CacheSlot ι)) : List (CacheSlot ι) :=
  match slots.argmin fun s => s.entry.accessedAt with
  | some slot => remove slot.key slots
  | none => slots

/-- The loop of `put`: every round removes a slot. -/
def evictWhileFull (max : ℕ) : ℕ → List (CacheSlot ι) → List (CacheSlot ι)
  | 0, slots => slots
  | fuel + 1, slots => if max ≤ slots.length then evictWhileFull max fuel (evictLru slots) else slots

/-- `HashMap::insert`. -/
def insert (slot : CacheSlot ι) (slots : List (CacheSlot ι)) : List (CacheSlot ι) :=
  if slots.any fun s => s.key = slot.key then slots.map fun s => if s.key = slot.key then slot else s
  else slots ++ [slot]

def put (now : ℕ) (key response : Str) (tokenCount : ℕ) (call : ι) (slots : List (CacheSlot ι)) : List (CacheSlot ι) :=
  let kept := evictExpired cfg now slots
  let room := evictWhileFull (max cfg.maxEntries 1) kept.length kept
  insert ⟨key, ⟨response, tokenCount, now, now, 0⟩, some call⟩ room

def clear (_ : List (CacheSlot ι)) : List (CacheSlot ι) := []

end ResponseCache

/-! ## Accesses by key -/

/-- An order in which the slots may be iterated. -/
structure SlotOrder where
  order : List (CacheSlot Unit) → List (CacheSlot Unit)
  perm : ∀ slots, (order slots).Perm slots

/-- A call of the cache, at a time. `put` iterates the map in an order of its own. -/
inductive CacheAccess where
  | put (now : ℕ) (key response : Str) (tokenCount : ℕ) (iter : SlotOrder)
  | get (now : ℕ) (key : Str)
  | clear (now : ℕ)

namespace CacheAccess

/-- When a `put` for the key was made, and its response. -/
def stored (key : Str) : CacheAccess → Option (ℕ × Str)
  | put now key' response _ _ => if key' = key then some (now, response) else none
  | get _ _ => none
  | clear _ => none

/-- The slots after the call. -/
def apply (cfg : CacheConfig) (slots : List (CacheSlot Unit)) : CacheAccess → List (CacheSlot Unit)
  | put now key response tokenCount iter => ResponseCache.put cfg now key response tokenCount () (iter.order slots)
  | get now key => (ResponseCache.get cfg now key slots).1
  | clear _ => ResponseCache.clear slots

/-- The latest `put` for the key; what the file holds was put by an earlier process. -/
def latestPut (file : Assoc Str CacheEntry) (accesses : List CacheAccess) (key : Str) : Option (ℕ × Str) :=
  (accesses.filterMap (stored key)).getLast?.or ((file.lookup key).map fun e => (e.createdAt, e.response))

end CacheAccess

/-- The slots of a cache that is opened on a file. -/
def ResponseCache.withPath (file : Assoc Str CacheEntry) : List (CacheSlot Unit) :=
  file.pairs.map fun e => ⟨e.1, e.2, none⟩

/-! ## The calls of `process_message` -/

/-- A call of `process_message`, once its request is built. -/
structure CachedCall where
  msg : InboundMessage
  -- the content of the user message
  resolvedUserPrompt : Str
  -- what the provider is sent
  messages : List Message
  deriving DecidableEq, Repr

/-- `build_messages_with_overrides`, with the user message already in the history, and the
filter of `build_resolved_messages`. -/
def buildMessages (systemPrompt : Str) (history : List Message) : List Message :=
  (Message.system systemPrompt :: history).filter fun m =>
    !(m.role = .user && m.content.isEmpty && !m.hasImages)

/-- `resolve_model_for_message`. -/
def resolveModelForMessage (defaultModel : Str) (msg : InboundMessage) : Str :=
  ((msg.get "model_override".toList).filter fun m => !m.isEmpty).getD defaultModel

namespace CachedCall

variable (call : CachedCall)

def systemPrompt : Str := ((call.messages.head?.filter fun m => m.role = .system).map Message.content).getD []

/-- The key of a call has the configured model, not the one of the request. -/
def key (sha256 : Bytes → Bytes) (defaultModel : Str) : Str :=
  cacheKey sha256 defaultModel call.systemPrompt call.resolvedUserPrompt

end CachedCall

/-- An access of a call to the cache, at a time. -/
inductive CacheInput (ι : Type*) where
  | lookup (call : ι) (now : ℕ)
  -- a response without tool calls
  | store (call : ι) (now : ℕ) (response : Str) (tokenCount : ℕ)

structure CacheState (ι : Type*) where
  slots : List (CacheSlot ι)
  -- the calls that were answered from the cache, with the slot they hit
  served : List (ι × CacheSlot ι)

/-- The cache file. -/
def CacheState.load {ι : Type*} (entries : List (Str × CacheEntry)) : CacheState ι :=
  ⟨entries.map fun e => ⟨e.1, e.2, none⟩, []⟩

/-- The accesses interleave as they like: each takes the lock of the cache. -/
def cacheStep {ι : Type*} (cfg : CacheConfig) (key : ι → Str) (s : CacheState ι) : CacheInput ι → CacheState ι
  | .lookup call now =>
    let found := ResponseCache.get cfg now (key call) s.slots
    ⟨found.1, s.served ++ found.2.toList.map fun slot => (call, slot)⟩
  | .store call now response tokenCount =>
    { s with slots := ResponseCache.put cfg now (key call) response tokenCount call s.slots }

end Zeptoclaw

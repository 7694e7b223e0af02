import Zeptoclaw.Spec.Cache

/-!
# Hits of the response cache

`cacheHit_same_prompts`: a call that is answered with the entry of another one has the same
leading system prompt and the same user prompt. The history and the model that the request
would have had play no part in the key (`cacheHit_ignores_history`).
-/

namespace Zeptoclaw

open Text Utf8

/-! ## The key -/

theorem toLeBytes_eq (n : ℕ) :
    toLeBytes n = [UInt8.ofNat (n % 256), UInt8.ofNat (n / 256 % 256), UInt8.ofNat (n / 65536 % 256),
      UInt8.ofNat (n / 16777216 % 256), UInt8.ofNat (n / 4294967296 % 256), UInt8.ofNat (n / 1099511627776 % 256),
      UInt8.ofNat (n / 281474976710656 % 256), UInt8.ofNat (n / 72057594037927936 % 256)] := by
  simp [toLeBytes, List.range_succ]

theorem length_toLeBytes (n : ℕ) : (toLeBytes n).length = 8 := by simp [toLeBytes]

theorem ofNat_mod_inj {a b : ℕ} (h : UInt8.ofNat (a % 256) = UInt8.ofNat (b % 256)) : a % 256 = b % 256 := by
  have ha := toNat_ofNat_of_lt (Nat.mod_lt a (by decide : 0 < 256))
  have hb := toNat_ofNat_of_lt (Nat.mod_lt b (by decide : 0 < 256))
  rw [← ha, h, hb]

theorem toLeBytes_injective {a b : ℕ} (ha : a < 2 ^ 64) (hb : b < 2 ^ 64) (h : toLeBytes a = toLeBytes b) : a = b := by
  rw [toLeBytes_eq, toLeBytes_eq] at h
  simp only [List.cons.injEq, and_true] at h
  obtain ⟨h0, h1, h2, h3, h4, h5, h6, h7⟩ := h
  have := ofNat_mod_inj h0
  have := ofNat_mod_inj h1
  have := ofNat_mod_inj h2
  have := ofNat_mod_inj h3
  have := ofNat_mod_inj h4
  have := ofNat_mod_inj h5
  have := ofNat_mod_inj h6
  have := ofNat_mod_inj h7
  omega

/-- The text has a length that fits in the prefix. -/
def Fits64 (s : Str) : Prop := (encode s).length < 2 ^ 64

instance (s : Str) : Decidable (Fits64 s) := inferInstanceAs (Decidable ((encode s).length < 2 ^ 64))

/-- A framed text can be told from what follows it. -/
theorem framed_append_inj {s t : Str} (hs : Fits64 s) (ht : Fits64 t) {x y : Bytes} (h : framed s ++ x = framed t ++ y) :
    s = t ∧ x = y := by
  unfold framed at h
  rw [List.append_assoc, List.append_assoc] at h
  have hlen8 : (toLeBytes (encode s).length).length = (toLeBytes (encode t).length).length := by
    rw [length_toLeBytes, length_toLeBytes]
  obtain ⟨hframe, hrest⟩ := List.append_inj h hlen8
  have hlen := toLeBytes_injective hs ht hframe
  obtain ⟨hbytes, hxy⟩ := List.append_inj hrest hlen
  exact ⟨encode_injective hbytes, hxy⟩

theorem cacheKeyBytes_injective {model s s' u u' : Str} (hs : Fits64 s) (hs' : Fits64 s') (hu : Fits64 u)
    (hu' : Fits64 u') (h : cacheKeyBytes model s u = cacheKeyBytes model s' u') : s = s' ∧ u = u' := by
  unfold cacheKeyBytes at h
  rw [List.append_assoc, List.append_assoc] at h
  have hrest := List.append_cancel_left h
  obtain ⟨hsystem, huser⟩ := framed_append_inj hs hs' hrest
  have huser' : framed u ++ [] = framed u' ++ [] := by rw [huser]
  exact ⟨hsystem, (framed_append_inj hu hu' huser').1⟩

theorem hexDigit_injective : ∀ m < 16, ∀ n < 16, hexDigit m = hexDigit n → m = n := by decide

theorem hexEncode_injective : ∀ {a b : Bytes}, hexEncode a = hexEncode b → a = b := by
  intro a
  induction a with
  | nil =>
    intro b h
    cases b with
    | nil => rfl
    | cons y b => simp [hexEncode] at h
  | cons x a ih =>
    intro b h
    cases b with
    | nil => simp [hexEncode] at h
    | cons y b =>
      simp only [hexEncode, List.flatMap_cons, List.cons_append, List.nil_append, List.cons.injEq] at h
      obtain ⟨hhi, hlo, hrest⟩ := h
      have hx := x.toNat_lt
      have hy := y.toNat_lt
      have hhi' := hexDigit_injective (x.toNat / 16) (by omega) (y.toNat / 16) (by omega) hhi
      have hlo' := hexDigit_injective (x.toNat % 16) (by omega) (y.toNat % 16) (by omega) hlo
      have hxy : x = y := UInt8.toNat_inj.mp (by omega)
      rw [hxy, ih hrest]

/-! ## The slots -/

section Slots

variable {ι : Type*} {cfg : CacheConfig} {key : ι → Str}

/-- A slot that a call has stored is under the key of the call. -/
def Owned (key : ι → Str) (slots : List (CacheSlot ι)) : Prop :=
  ∀ s ∈ slots, ∀ call, s.storedBy = some call → s.key = key call

namespace ResponseCache

theorem mem_evictLru {slots : List (CacheSlot ι)} {s : CacheSlot ι} (h : s ∈ evictLru slots) : s ∈ slots := by
  unfold evictLru at h
  split at h
  · exact List.mem_of_mem_filter h
  · exact h

theorem mem_evictWhileFull {max : ℕ} {s : CacheSlot ι} : ∀ {fuel : ℕ} {slots : List (CacheSlot ι)},
    s ∈ evictWhileFull max fuel slots → s ∈ slots := by
  intro fuel
  induction fuel with
  | zero => intro slots h; exact h
  | succ fuel ih =>
    intro slots h
    unfold evictWhileFull at h
    split at h
    · exact mem_evictLru (ih h)
    · exact h

theorem mem_insert {slot s : CacheSlot ι} {slots : List (CacheSlot ι)} (h : s ∈ insert slot slots) :
    s = slot ∨ s ∈ slots := by
  unfold insert at h
  split at h
  · obtain ⟨s', hs', heq⟩ := List.mem_map.mp h
    split at heq
    · exact .inl heq.symm
    · exact .inr (heq ▸ hs')
  · rcases List.mem_append.mp h with h | h
    · exact .inr h
    · exact .inl (List.mem_singleton.mp h)

/-- What `put` leaves: the new slot, and slots that were there. -/
theorem mem_put {now : ℕ} {k response : Str} {tokenCount : ℕ} {call : ι} {slots : List (CacheSlot ι)} {s : CacheSlot ι}
    (h : s ∈ put cfg now k response tokenCount call slots) :
    s = ⟨k, ⟨response, tokenCount, now, now, 0⟩, some call⟩ ∨ s ∈ slots := by
  rcases mem_insert h with h | h
  · exact .inl h
  · exact .inr (List.mem_of_mem_filter (mem_evictWhileFull h))

/-- What `get` leaves: slots that were there, up to the note of a hit. -/
theorem mem_get {now : ℕ} {k : Str} {slots : List (CacheSlot ι)} {s : CacheSlot ι} (h : s ∈ (get cfg now k slots).1) :
    ∃ s' ∈ slots, s.key = s'.key ∧ s.storedBy = s'.storedBy := by
  unfold get at h
  split at h
  · exact ⟨s, h, rfl, rfl⟩
  · split at h
    · exact ⟨s, List.mem_of_mem_filter h, rfl, rfl⟩
    · obtain ⟨s', hs', heq⟩ := List.mem_map.mp h
      refine ⟨s', hs', ?_⟩
      split at heq
      · exact heq ▸ ⟨rfl, rfl⟩
      · exact heq ▸ ⟨rfl, rfl⟩

/-- A hit is a slot under the key. -/
theorem get_hit {now : ℕ} {k : Str} {slots : List (CacheSlot ι)} {s : CacheSlot ι} (h : (get cfg now k slots).2 = some s) :
    s ∈ slots ∧ s.key = k := by
  unfold get at h
  split at h
  · cases h
  · next slot hfind =>
    split at h
    · cases h
    · have hs : slot = s := Option.some.inj h
      subst hs
      exact ⟨List.mem_of_find?_eq_some hfind, by simpa using List.find?_some hfind⟩

end ResponseCache

/-- The invariant: every slot is under the key of the call that stored it, and calls have
been served from slots under their own key. -/
structure CacheOk (key : ι → Str) (s : CacheState ι) : Prop where
  owned : Owned key s.slots
  served : ∀ call slot, (call, slot) ∈ s.served →
    slot.key = key call ∧ ∀ stored, slot.storedBy = some stored → slot.key = key stored

theorem CacheOk.load (entries : List (Str × CacheEntry)) : CacheOk key (.load entries) := by
  constructor
  · intro s hs call hstored
    obtain ⟨e, -, rfl⟩ := List.mem_map.mp hs
    cases hstored
  · intro call slot h
    cases h

theorem cacheStep_ok (s : CacheState ι) (input : CacheInput ι) (h : CacheOk key s) :
    CacheOk key (cacheStep cfg key s input) := by
  cases input with
  | lookup call now =>
    refine ⟨fun slot hslot stored hstored => ?_, fun c slot hc => ?_⟩
    · obtain ⟨slot', hmem, hkey, hby⟩ := ResponseCache.mem_get hslot
      rw [hkey]
      exact h.owned slot' hmem stored (hby ▸ hstored)
    · rcases List.mem_append.mp hc with hc | hc
      · exact h.served c slot hc
      · obtain ⟨hit, hhit, heq⟩ := List.mem_map.mp hc
        obtain ⟨rfl, rfl⟩ := Prod.mk.inj heq
        obtain ⟨hmem, hkey⟩ := ResponseCache.get_hit (Option.mem_toList.mp hhit)
        exact ⟨hkey, fun stored hstored => h.owned hit hmem stored hstored⟩
  | store call now response tokenCount =>
    refine ⟨fun slot hslot stored hstored => ?_, h.served⟩
    rcases ResponseCache.mem_put hslot with rfl | hmem
    · exact congrArg key (Option.some.inj hstored)
    · exact h.owned slot hmem stored hstored

end Slots

/-- **A call that is answered from the entry of another call has its system prompt and its
user prompt**, as long as SHA-256 does not collide on the calls. -/
theorem cacheHit_same_prompts {ι : Type*} (sha256 : Bytes → Bytes) (cfg : CacheConfig) (defaultModel : Str)
    (calls : ι → CachedCall)
    (hsha : ∀ i j, sha256 (cacheKeyBytes defaultModel (calls i).systemPrompt (calls i).resolvedUserPrompt) =
        sha256 (cacheKeyBytes defaultModel (calls j).systemPrompt (calls j).resolvedUserPrompt) →
      cacheKeyBytes defaultModel (calls i).systemPrompt (calls i).resolvedUserPrompt =
        cacheKeyBytes defaultModel (calls j).systemPrompt (calls j).resolvedUserPrompt)
    (hfits : ∀ i, Fits64 (calls i).systemPrompt ∧ Fits64 (calls i).resolvedUserPrompt)
    (entries : List (Str × CacheEntry)) (inputs : List (CacheInput ι)) (first second : ι) (slot : CacheSlot ι)
    (hserved : (second, slot) ∈
      (runSteps (cacheStep cfg fun i => (calls i).key sha256 defaultModel) (.load entries) inputs).served)
    (hstored : slot.storedBy = some first) :
    (calls second).systemPrompt = (calls first).systemPrompt ∧
      (calls second).resolvedUserPrompt = (calls first).resolvedUserPrompt := by
  have hstep : ∀ s input, CacheOk (fun i => (calls i).key sha256 defaultModel) s →
      CacheOk (fun i => (calls i).key sha256 defaultModel)
        (cacheStep cfg (fun i => (calls i).key sha256 defaultModel) s input) := cacheStep_ok
  have hok := run_preserves hstep inputs _ (CacheOk.load entries)
  obtain ⟨hkey, howner⟩ := hok.served second slot hserved
  have hsame : (calls second).key sha256 defaultModel = (calls first).key sha256 defaultModel :=
    hkey.symm.trans (howner first hstored)
  have hbytes := hsha second first (hexEncode_injective hsame)
  exact cacheKeyBytes_injective (hfits second).1 (hfits first).1 (hfits second).2 (hfits first).2 hbytes

/-- The digest of the key that the two calls below have. -/
def storyDigest : Bytes :=
  [254, 170, 12, 39, 54, 239, 124, 89, 36, 33, 39, 78, 232, 49, 170, 99, 16, 26, 59, 142, 93, 246, 89, 179, 14, 66, 115,
    142, 222, 53, 39, 147]

/-- SHA-256 on that key. -/
def storySha (bytes : Bytes) : Bytes :=
  if bytes = cacheKeyBytes "m".toList "You are helpful.".toList "And then?".toList then storyDigest else []

/-- The same question at the start of one conversation and in the middle of another. -/
def storyCalls : Bool → CachedCall
  | false =>
    ⟨.new "telegram".toList "ann".toList "1".toList "And then?".toList, "And then?".toList,
      buildMessages "You are helpful.".toList [.user "And then?".toList]⟩
  | true =>
    ⟨.new "telegram".toList "bob".toList "2".toList "And then?".toList, "And then?".toList,
      buildMessages "You are helpful.".toList
        [.user "Tell me a story.".toList, .assistant "Once upon a time".toList, .user "And then?".toList]⟩

/-- The first call stores its reply, the second one is served. -/
def storyInputs : List (CacheInput Bool) := [.lookup false 10, .store false 12 "What do you mean?".toList 5, .lookup true 20]

def storySlot : CacheSlot Bool :=
  ⟨(storyCalls false).key storySha "m".toList, ⟨"What do you mean?".toList, 5, 12, 12, 0⟩, some false⟩

theorem storyCalls_prompts (i : Bool) :
    (storyCalls i).systemPrompt = "You are helpful.".toList ∧ (storyCalls i).resolvedUserPrompt = "And then?".toList := by
  cases i
  · exact ⟨by decide, rfl⟩
  · exact ⟨by decide, rfl⟩

theorem cacheHit_same_prompts_story :
    (storyCalls true).systemPrompt = (storyCalls false).systemPrompt ∧
      (storyCalls true).resolvedUserPrompt = (storyCalls false).resolvedUserPrompt :=
  cacheHit_same_prompts storySha ⟨3600, 100⟩ "m".toList storyCalls
    (by
      intro i j _
      rw [(storyCalls_prompts i).1, (storyCalls_prompts i).2, (storyCalls_prompts j).1, (storyCalls_prompts j).2])
    (by
      intro i
      rw [(storyCalls_prompts i).1, (storyCalls_prompts i).2]
      exact ⟨by decide, by decide⟩)
    [] storyInputs false true storySlot (by decide +kernel) rfl

/-- The second call is answered with a reply to another conversation. -/
theorem cacheHit_ignores_history :
    ¬ ∀ (calls : Bool → CachedCall) (inputs : List (CacheInput Bool)) (first second : Bool) (slot : CacheSlot Bool),
      (second, slot) ∈ (runSteps (cacheStep ⟨3600, 100⟩ fun i => (calls i).key storySha "m".toList) (.load [])
        inputs).served → slot.storedBy = some first →
      (calls second).messages = (calls first).messages ∧
        resolveModelForMessage "m".toList (calls second).msg = resolveModelForMessage "m".toList (calls first).msg := by
  intro h
  have hsame := h storyCalls storyInputs false true storySlot (by decide +kernel) rfl
  exact absurd hsame.1 (by decide +kernel)

end Zeptoclaw

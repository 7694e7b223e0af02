import Zeptoclaw.Lib.History
import Zeptoclaw.Lib.Run
import Zeptoclaw.Spec.Quota
import Mathlib.Algebra.BigOperators.Group.List.Basic
import Mathlib.Algebra.Order.Field.Basic
import Mathlib.Algebra.Order.Ring.Rat
import Mathlib.Data.UInt
import Mathlib.Tactic.NormNum

/-!
# Quotas, the ledger and the quota file

The store keeps one sum for each provider and notices the end of a period only when it is asked
again. `currentUsage_eq`: as long as the clock does not go back, the sum is that of the ledger, the
tokens modulo `2 ^ 64`. `quota_verdict_iff`: exactly when no counter has wrapped to below a
limit, every verdict is the one that the ledger gives.

A call changes the store and takes a snapshot of it under the lock, and writes the snapshot without
it. When all calls have finished, the file holds the snapshot that was written last, which is the
store only if it is the one that was taken last: `quota_file_agrees`.
-/

namespace Zeptoclaw

/-! ## Periods -/

/-- The dates are in the same period. -/
def SamePeriod (period : QuotaPeriod) (a b : UtcDate) : Prop :=
  match period with
  | .monthly => a.year = b.year ∧ a.month = b.month
  | .daily => a.year = b.year ∧ a.month = b.month ∧ a.day = b.day

instance (period : QuotaPeriod) (a b : UtcDate) : Decidable (SamePeriod period a b) := by
  cases period with
  | monthly => exact inferInstanceAs (Decidable (_ ∧ _))
  | daily => exact inferInstanceAs (Decidable (_ ∧ _ ∧ _))

instance : LE UtcDate :=
  ⟨fun a b => a.year < b.year ∨ a.year = b.year ∧ (a.month < b.month ∨ a.month = b.month ∧ a.day ≤ b.day)⟩

theorem UtcDate.le_iff {a b : UtcDate} :
    a ≤ b ↔ a.year < b.year ∨ a.year = b.year ∧ (a.month < b.month ∨ a.month = b.month ∧ a.day ≤ b.day) := Iff.rfl

instance (a b : UtcDate) : Decidable (a ≤ b) := decidable_of_iff _ UtcDate.le_iff.symm

theorem UtcDate.le_refl (a : UtcDate) : a ≤ a := by
  rw [le_iff]
  omega

theorem SamePeriod.refl (period : QuotaPeriod) (a : UtcDate) : SamePeriod period a a := by
  cases period with
  | monthly => exact ⟨rfl, rfl⟩
  | daily => exact ⟨rfl, rfl, rfl⟩

/-- What is in the period of one of two dates is in that of the other. -/
theorem SamePeriod.congr_right {period : QuotaPeriod} {a b c : UtcDate} (h : SamePeriod period b c) :
    SamePeriod period a b ↔ SamePeriod period a c := by
  cases period with
  | monthly => unfold SamePeriod at *; omega
  | daily => unfold SamePeriod at *; omega

/-- A date between two dates of a period is in the period. -/
theorem SamePeriod.between {period : QuotaPeriod} {a b c : UtcDate} (hab : a ≤ b) (hbc : b ≤ c)
    (hac : SamePeriod period a c) : SamePeriod period b c := by
  rw [UtcDate.le_iff] at hab hbc
  cases period with
  | monthly => unfold SamePeriod at *; omega
  | daily => unfold SamePeriod at *; omega

/-! ### The keys -/

theorem dash_notMem_yearText (year : ℕ) : '-' ∉ yearText year := by
  unfold yearText
  split
  · exact fun h => absurd (Text.isDigit_of_mem_zeroPad h) (by decide)
  · intro h
    rcases List.mem_cons.mp h with hsign | hdigit
    · exact absurd hsign (by decide)
    · exact absurd (Text.isDigit_of_mem_zeroPad hdigit) (by decide)

theorem dash_notMem_twoDigits (n : ℕ) : '-' ∉ twoDigits n :=
  fun h => absurd (Text.isDigit_of_mem_zeroPad h) (by decide)

theorem yearText_injective {y z : ℕ} (h : yearText y = yearText z) : y = z := by
  have hsign : ∀ n l, Text.zeroPad 4 n ≠ '+' :: l := by
    intro n l heq
    have hmem : '+' ∈ Text.zeroPad 4 n := by rw [heq]; exact List.mem_cons_self
    exact absurd (Text.isDigit_of_mem_zeroPad hmem) (by decide)
  unfold yearText at h
  split at h
  · split at h
    · exact Text.zeroPad_injective h
    · exact absurd h (hsign _ _)
  · split at h
    · exact absurd h.symm (hsign _ _)
    · exact Text.zeroPad_injective (List.cons.inj h).2

/-- Parts without a dash in front of one are told apart. -/
theorem dash_cut {a b x y : Str} (ha : '-' ∉ a) (hb : '-' ∉ b) (h : a ++ '-' :: x = b ++ '-' :: y) : a = b ∧ x = y := by
  rcases append_eq_cut h with ⟨rest, rfl, -⟩ | ⟨front, rfl, hfront⟩
  · exact absurd (List.mem_append_right b List.mem_cons_self) ha
  · cases front with
    | nil => exact ⟨(List.append_nil a).symm, (List.cons.inj hfront).2⟩
    | cons c front =>
      obtain ⟨rfl, -⟩ := List.cons.inj hfront
      exact absurd (List.mem_append_right a List.mem_cons_self) hb

/-- **A key stands for one period.** -/
theorem currentPeriodKey_eq_iff {period : QuotaPeriod} {a b : UtcDate} :
    currentPeriodKey period a = currentPeriodKey period b ↔ SamePeriod period a b := by
  cases period with
  | monthly =>
    constructor
    · intro h
      obtain ⟨hyear, hmonth⟩ := dash_cut (dash_notMem_yearText _) (dash_notMem_yearText _) h
      exact ⟨yearText_injective hyear, Text.zeroPad_injective hmonth⟩
    · rintro ⟨hyear, hmonth⟩
      simp only [currentPeriodKey, hyear, hmonth]
  | daily =>
    constructor
    · intro h
      obtain ⟨hyear, h⟩ := dash_cut (dash_notMem_yearText _) (dash_notMem_yearText _) h
      obtain ⟨hmonth, hday⟩ := dash_cut (dash_notMem_twoDigits _) (dash_notMem_twoDigits _) h
      exact ⟨yearText_injective hyear, Text.zeroPad_injective hmonth, Text.zeroPad_injective hday⟩
    · rintro ⟨hyear, hmonth, hday⟩
      simp only [currentPeriodKey, hyear, hmonth, hday]

/-! ## The ledger -/

/-- The calls of a provider are made with its own configuration. -/
inductive QuotaCall where
  | record (provider : Str) (costUsd : ℚ) (tokens : UInt64)
  | resetProvider (name : Str)
  | resetAll
  | check (provider : Str)

structure QuotaEvent where
  now : UtcDate
  call : QuotaCall

def QuotaStore.step (configs : Str → QuotaConfig) (store : QuotaStore) (e : QuotaEvent) : QuotaStore :=
  match e.call with
  | .record provider costUsd tokens => store.record e.now provider (configs provider).period costUsd tokens
  | .resetProvider name => store.resetProvider name
  | .resetAll => store.resetAll
  | .check _ => store

/-- A usage that was recorded; a negative cost counts as none. -/
structure RecordedUsage where
  date : UtcDate
  costUsd : ℚ
  tokens : ℕ

/-- What was recorded for a provider since its last reset, with one more event. -/
def logged (provider : Str) (log : List RecordedUsage) (e : QuotaEvent) : List RecordedUsage :=
  match e.call with
  | .record name costUsd tokens => if name = provider then log ++ [⟨e.now, max costUsd 0, tokens.toNat⟩] else log
  | .resetProvider name => if name = provider then [] else log
  | .resetAll => []
  | .check _ => log

def ledger (provider : Str) (history : List QuotaEvent) : List RecordedUsage := runSteps (logged provider) [] history

/-- The part of the ledger in the period of a date. -/
def inPeriod (period : QuotaPeriod) (now : UtcDate) (log : List RecordedUsage) : List RecordedUsage :=
  log.filter fun r => SamePeriod period r.date now

def costIn (period : QuotaPeriod) (now : UtcDate) (log : List RecordedUsage) : ℚ :=
  ((inPeriod period now log).map RecordedUsage.costUsd).sum

def tokensIn (period : QuotaPeriod) (now : UtcDate) (log : List RecordedUsage) : ℕ :=
  ((inPeriod period now log).map RecordedUsage.tokens).sum

section Ledger

variable {period : QuotaPeriod} {now last : UtcDate} {log : List RecordedUsage}

theorem inPeriod_congr (h : SamePeriod period last now) : inPeriod period last log = inPeriod period now log := by
  apply List.filter_congr
  intro r _
  rw [decide_eq_decide]
  exact h.congr_right

theorem inPeriod_eq_nil (h : ∀ r ∈ log, ¬ SamePeriod period r.date now) : inPeriod period now log = [] := by
  rw [inPeriod, List.filter_eq_nil_iff]
  intro r hr
  simpa using h r hr

theorem inPeriod_concat (costUsd : ℚ) (tokens : ℕ) :
    inPeriod period now (log ++ [⟨now, costUsd, tokens⟩]) = inPeriod period now log ++ [⟨now, costUsd, tokens⟩] := by
  have hnow := SamePeriod.refl period now
  unfold inPeriod
  rw [List.filter_append]
  simp [hnow]

end Ledger

/-! ## The store and the ledger -/

/-- An entry is the sum for the period of the last usage that was recorded. -/
def Agrees (period : QuotaPeriod) (entry : Option QuotaUsage) (log : List RecordedUsage) : Prop :=
  match entry with
  | none => log = []
  | some usage =>
    ∃ last, usage.periodKey = currentPeriodKey period last ∧ (∀ r ∈ log, r.date ≤ last) ∧ (∃ r ∈ log, r.date = last) ∧
      usage.costUsd = costIn period last log ∧ usage.tokens.toNat = tokensIn period last log % 2 ^ 64

/-- The usage in the period of a key, as `record` and `check` see it. -/
def currentUsage (entry : Option QuotaUsage) (key : Str) : QuotaUsage :=
  let usage := entry.getD ⟨key, 0, 0⟩
  if usage.periodKey = key then usage else ⟨key, 0, 0⟩

/-- **What is seen at a date that is not before the ledger's is the ledger's sum.** -/
theorem currentUsage_eq {period : QuotaPeriod} {entry : Option QuotaUsage} {log : List RecordedUsage} {now : UtcDate}
    (h : Agrees period entry log) (hle : ∀ r ∈ log, r.date ≤ now) :
    (currentUsage entry (currentPeriodKey period now)).costUsd = costIn period now log ∧
      (currentUsage entry (currentPeriodKey period now)).tokens.toNat = tokensIn period now log % 2 ^ 64 := by
  unfold currentUsage
  dsimp only
  cases entry with
  | none =>
    obtain rfl : log = [] := h
    rw [Option.getD_none, if_pos rfl]
    exact ⟨rfl, rfl⟩
  | some usage =>
    obtain ⟨last, hkey, hlast, ⟨r, hr, hrlast⟩, hcost, htokens⟩ := h
    rw [Option.getD_some, hkey]
    split
    · next hsame =>
      rw [currentPeriodKey_eq_iff] at hsame
      unfold costIn tokensIn at *
      rw [← inPeriod_congr hsame]
      exact ⟨hcost, htokens⟩
    · next hother =>
      rw [currentPeriodKey_eq_iff] at hother
      -- the period of the last usage is over, and no usage is in a later one
      have hnone : inPeriod period now log = [] := by
        refine inPeriod_eq_nil fun q hq hsame => hother ?_
        exact hsame.between (hlast q hq) (hrlast ▸ hle r hr)
      unfold costIn tokensIn
      rw [hnone]
      exact ⟨rfl, rfl⟩

/-- The entry after a usage was recorded. -/
def recordedUsage (entry : Option QuotaUsage) (key : Str) (costUsd : ℚ) (tokens : UInt64) : QuotaUsage :=
  { currentUsage entry key with
    costUsd := (currentUsage entry key).costUsd + max costUsd 0, tokens := (currentUsage entry key).tokens + tokens }

theorem currentUsage_periodKey (entry : Option QuotaUsage) (key : Str) : (currentUsage entry key).periodKey = key := by
  unfold currentUsage
  dsimp only
  split
  · next h => exact h
  · rfl

theorem Agrees.record {period : QuotaPeriod} {entry : Option QuotaUsage} {log : List RecordedUsage} {now : UtcDate}
    (h : Agrees period entry log) (hle : ∀ r ∈ log, r.date ≤ now) (costUsd : ℚ) (tokens : UInt64) :
    Agrees period (some (recordedUsage entry (currentPeriodKey period now) costUsd tokens))
      (log ++ [⟨now, max costUsd 0, tokens.toNat⟩]) := by
  obtain ⟨hcost, htokens⟩ := currentUsage_eq h hle
  refine ⟨now, currentUsage_periodKey _ _, ?_, ⟨_, List.mem_append_right log List.mem_cons_self, rfl⟩, ?_, ?_⟩
  · intro r hr
    rcases List.mem_append.mp hr with hr | hr
    · exact hle r hr
    · rw [List.mem_singleton.mp hr]
      exact UtcDate.le_refl now
  · unfold costIn at *
    rw [inPeriod_concat, List.map_append, List.sum_append, ← hcost]
    simp [recordedUsage]
  · unfold tokensIn at *
    rw [inPeriod_concat, List.map_append, List.sum_append, recordedUsage, UInt64.toNat_add, htokens, Nat.mod_add_mod]
    simp

/-- **One event.** The store goes on to agree with the log. -/
theorem Agrees.step {configs : Str → QuotaConfig} {store : QuotaStore} {log : List RecordedUsage} {provider : Str}
    {e : QuotaEvent} (h : Agrees (configs provider).period (store.lookup provider) log) (hle : ∀ r ∈ log, r.date ≤ e.now) :
    Agrees (configs provider).period ((store.step configs e).lookup provider) (logged provider log e) := by
  unfold QuotaStore.step logged
  cases e.call with
  | record name costUsd tokens =>
    change Agrees _ (AList.lookup provider (AList.insert name (recordedUsage _ _ costUsd tokens) store)) (if _ then _ else _)
    rw [Assoc.lookup_insert]
    by_cases hname : name = provider
    · subst hname
      rw [if_pos rfl, if_pos rfl]
      exact h.record hle costUsd tokens
    · rw [if_neg (Ne.symm hname), if_neg hname]
      exact h
  | resetProvider name =>
    change Agrees _ (AList.lookup provider (AList.erase name store)) (if _ then _ else _)
    rw [Assoc.lookup_erase]
    by_cases hname : name = provider
    · rw [if_pos hname.symm, if_pos hname]
      exact rfl
    · rw [if_neg (Ne.symm hname), if_neg hname]
      exact h
  | resetAll => exact rfl
  | check name => exact h

theorem logged_subset {provider : Str} {log : List RecordedUsage} {e : QuotaEvent} {r : RecordedUsage}
    (h : r ∈ logged provider log e) : r ∈ log ∨ r.date = e.now := by
  obtain ⟨now, call⟩ := e
  cases call with
  | record name costUsd tokens =>
    simp only [logged] at h
    split at h
    · rcases List.mem_append.mp h with h | h
      · exact .inl h
      · rw [List.mem_singleton.mp h]
        exact .inr rfl
    · exact .inl h
  | resetProvider name =>
    simp only [logged] at h
    split at h
    · cases h
    · exact .inl h
  | resetAll => cases h
  | check name => exact .inl h

/-- **The store agrees with the log** after every history in which the clock does not go back. -/
theorem agrees_history (configs : Str → QuotaConfig) (provider : Str) {history : List QuotaEvent}
    (hord : (history.map QuotaEvent.now).Pairwise (· ≤ ·)) :
    Agrees (configs provider).period ((runSteps (QuotaStore.step configs) ∅ history).lookup provider)
        (ledger provider history) ∧
      ∀ r ∈ ledger provider history, ∃ e ∈ history, r.date = e.now := by
  induction history using List.reverseRecOn with
  | nil =>
    refine ⟨rfl, ?_⟩
    intro r hr
    cases hr
  | append_singleton history e ih =>
    rw [List.map_append, List.map_singleton, pairwise_concat] at hord
    obtain ⟨hord, hlast⟩ := hord
    obtain ⟨hagrees, hdates⟩ := ih hord
    have hle : ∀ r ∈ ledger provider history, r.date ≤ e.now := by
      intro r hr
      obtain ⟨e', he', hdate⟩ := hdates r hr
      rw [hdate]
      exact hlast _ (List.mem_map_of_mem he')
    unfold ledger at *
    rw [runSteps_concat, runSteps_concat]
    refine ⟨hagrees.step hle, ?_⟩
    intro r hr
    rcases logged_subset hr with hr | hr
    · obtain ⟨e', he', hdate⟩ := hdates r hr
      exact ⟨e', List.mem_append_left _ he', hdate⟩
    · exact ⟨e, List.mem_append_right _ List.mem_cons_self, hr⟩

/-! ## Verdicts -/

namespace QuotaConfig

/-- The limits that are configured are positive. -/
def Positive (config : QuotaConfig) : Prop :=
  (∀ max, config.maxCostUsd = some max → 0 < max) ∧ ∀ max, config.maxTokens = some max → 0 < max.toNat

/-- The usage is at least a share of some configured limit. -/
def Reaches (config : QuotaConfig) (share costUsd : ℚ) (tokens : ℕ) : Prop :=
  (∃ max, config.maxCostUsd = some max ∧ share * max ≤ costUsd) ∨
    ∃ max, config.maxTokens = some max ∧ share * max.toNat ≤ tokens

end QuotaConfig

section Verdict

variable {config : QuotaConfig}

theorem le_costPct_iff (hpos : config.Positive) {share : ℚ} (hshare : 0 < share) (costUsd : ℚ) :
    share ≤ QuotaStore.costPct config costUsd ↔ ∃ max, config.maxCostUsd = some max ∧ share * max ≤ costUsd := by
  unfold QuotaStore.costPct
  cases hmax : config.maxCostUsd with
  | none => simp [hshare]
  | some max =>
    have hpos := hpos.1 max hmax
    simp [hpos, le_div_iff₀ hpos]

theorem le_tokenPct_iff (hpos : config.Positive) {share : ℚ} (hshare : 0 < share) (tokens : ℕ) :
    share ≤ QuotaStore.tokenPct config tokens ↔ ∃ max, config.maxTokens = some max ∧ share * max.toNat ≤ tokens := by
  unfold QuotaStore.tokenPct
  cases hmax : config.maxTokens with
  | none => simp [hshare]
  | some max =>
    have hpos := hpos.2 max hmax
    have hpos' : (0 : ℚ) < max.toNat := by exact_mod_cast hpos
    simp [hpos, le_div_iff₀ hpos']

theorem le_maxPct_iff (hpos : config.Positive) {share : ℚ} (hshare : 0 < share) (costUsd : ℚ) (tokens : ℕ) :
    share ≤ max (QuotaStore.costPct config costUsd) (QuotaStore.tokenPct config tokens) ↔
      config.Reaches share costUsd tokens := by
  rw [le_max_iff, le_costPct_iff hpos hshare, le_tokenPct_iff hpos hshare]
  rfl

/-- `Exceeded` exactly when the usage reaches a limit, and otherwise `Warning` exactly when it reaches four fifths of one. -/
def MatchesUsage (config : QuotaConfig) (costUsd : ℚ) (tokens : ℕ) (result : QuotaCheckResult) : Prop :=
  (result = .exceeded ↔ config.Reaches 1 costUsd tokens) ∧
    (result ≠ .exceeded → ((∃ pct, result = .warning pct) ↔ config.Reaches (4 / 5) costUsd tokens))

theorem verdict_matches (hpos : config.Positive) (costUsd : ℚ) (tokens : ℕ) :
    MatchesUsage config costUsd tokens (QuotaStore.verdict config costUsd tokens) := by
  have hexceeded := le_maxPct_iff hpos zero_lt_one costUsd tokens
  have hwarning := le_maxPct_iff hpos (by norm_num : (0 : ℚ) < 4 / 5) costUsd tokens
  unfold MatchesUsage QuotaStore.verdict
  rw [← hexceeded, ← hwarning]
  generalize max (QuotaStore.costPct config costUsd) (QuotaStore.tokenPct config tokens) = maxPct
  by_cases hfull : 1 ≤ maxPct
  · simp [hfull]
  · by_cases hwarn : 4 / 5 ≤ maxPct
    · simp [hfull, hwarn, warningThreshold]
    · simp [hfull, hwarn, warningThreshold]

/-- No token limit, or a counter that has not wrapped, or a limit that is reached all the same. -/
def CounterFits (config : QuotaConfig) (costUsd : ℚ) (tokens : ℕ) : Prop :=
  config.maxTokens ≠ none → tokens < 2 ^ 64 ∨ config.Reaches 1 costUsd (tokens % 2 ^ 64)

theorem reaches_of_wrapped {costUsd : ℚ} {tokens : ℕ} (h : config.Reaches 1 costUsd (tokens % 2 ^ 64)) :
    config.Reaches 1 costUsd tokens := by
  rcases h with hcost | ⟨max, hmax, hle⟩
  · exact .inl hcost
  · refine .inr ⟨max, hmax, le_trans hle ?_⟩
    exact_mod_cast Nat.mod_le tokens (2 ^ 64)

/-- **The verdict on a counter is the one on the usage exactly if the counter fits.** -/
theorem verdict_wrapped_iff (hpos : config.Positive) (costUsd : ℚ) (tokens : ℕ) :
    MatchesUsage config costUsd tokens (QuotaStore.verdict config costUsd (tokens % 2 ^ 64)) ↔
      CounterFits config costUsd tokens := by
  have hwrapped := verdict_matches hpos costUsd (tokens % 2 ^ 64)
  constructor
  · rintro ⟨hexceeded, -⟩ hlimit
    by_cases hfits : tokens < 2 ^ 64
    · exact .inl hfits
    · -- the usage reaches every limit that a counter can have
      obtain ⟨max, hmax⟩ := Option.ne_none_iff_exists'.mp hlimit
      have hreaches : config.Reaches 1 costUsd tokens := by
        refine .inr ⟨max, hmax, ?_⟩
        have hlt := max.toNat_lt
        have hle : max.toNat ≤ tokens := by omega
        rw [one_mul]
        exact_mod_cast hle
      exact .inr (hwrapped.1.mp (hexceeded.mpr hreaches))
  · intro hfits
    cases hmax : config.maxTokens with
    | none =>
      have hsame : ∀ share, config.Reaches share costUsd (tokens % 2 ^ 64) ↔ config.Reaches share costUsd tokens := by
        intro share
        simp [QuotaConfig.Reaches, hmax]
      unfold MatchesUsage at hwrapped ⊢
      rwa [hsame, hsame] at hwrapped
    | some max =>
      rcases hfits (by rw [hmax]; exact Option.some_ne_none max) with hlt | hreaches
      · rw [Nat.mod_eq_of_lt hlt]
        exact verdict_matches hpos costUsd tokens
      · have hexceeded := hwrapped.1.mpr hreaches
        rw [hexceeded]
        exact ⟨iff_of_true rfl (reaches_of_wrapped hreaches), fun hne => absurd rfl hne⟩

end Verdict

/-! ## Checks -/

theorem verdict_unused (config : QuotaConfig) : QuotaStore.verdict config 0 0 = .ok := by
  have hcost : QuotaStore.costPct config 0 = 0 := by
    unfold QuotaStore.costPct
    cases config.maxCostUsd with
    | none => rfl
    | some max => simp
  have htokens : QuotaStore.tokenPct config 0 = 0 := by
    unfold QuotaStore.tokenPct
    cases config.maxTokens with
    | none => rfl
    | some max => simp
  unfold QuotaStore.verdict
  rw [hcost, htokens, max_self]
  have hfull : ¬ (1 : ℚ) ≤ 0 := by norm_num
  have hwarn : ¬ warningThreshold ≤ 0 := by norm_num [warningThreshold]
  simp only [if_neg hfull, if_neg hwarn]

theorem verdict_unlimited {config : QuotaConfig} (h : config.maxCostUsd = none ∧ config.maxTokens = none) (costUsd : ℚ)
    (tokens : ℕ) : QuotaStore.verdict config costUsd tokens = .ok := by
  have hunused := verdict_unused config
  unfold QuotaStore.verdict QuotaStore.costPct QuotaStore.tokenPct at *
  rw [h.1, h.2] at hunused ⊢
  exact hunused

/-- A check is the verdict on what it sees. -/
theorem check_eq (store : QuotaStore) (now : UtcDate) (provider : Str) (config : QuotaConfig) :
    store.check now provider config =
      QuotaStore.verdict config (currentUsage (store.lookup provider) (currentPeriodKey config.period now)).costUsd
        (currentUsage (store.lookup provider) (currentPeriodKey config.period now)).tokens.toNat := by
  unfold QuotaStore.check
  split
  · next hnone => rw [verdict_unlimited hnone]
  · unfold currentUsage
    cases store.lookup provider with
    | none =>
      dsimp only [Option.getD_none]
      rw [if_pos rfl]
      exact (verdict_unused config).symm
    | some usage =>
      dsimp only [Option.getD_some]
      split
      · rfl
      · exact (verdict_unused config).symm

/-- What the ledger says is the verdict of every check in a history. -/
def VerdictsMatch (configs : Str → QuotaConfig) (history : List QuotaEvent) : Prop :=
  ∀ before now provider after, history = before ++ ⟨now, .check provider⟩ :: after →
    MatchesUsage (configs provider) (costIn (configs provider).period now (ledger provider before))
      (tokensIn (configs provider).period now (ledger provider before))
      ((runSteps (QuotaStore.step configs) ∅ before).check now provider (configs provider))

/-- At every check in a history the counter fits. -/
def CountersFit (configs : Str → QuotaConfig) (history : List QuotaEvent) : Prop :=
  ∀ before now provider after, history = before ++ ⟨now, .check provider⟩ :: after →
    CounterFits (configs provider) (costIn (configs provider).period now (ledger provider before))
      (tokensIn (configs provider).period now (ledger provider before))

/-- A check in a history in which the clock does not go back. -/
theorem check_history {configs : Str → QuotaConfig} {before : List QuotaEvent} {now : UtcDate} {provider : Str}
    (hord : (before.map QuotaEvent.now ++ [now]).Pairwise (· ≤ ·)) :
    (runSteps (QuotaStore.step configs) ∅ before).check now provider (configs provider) =
      QuotaStore.verdict (configs provider) (costIn (configs provider).period now (ledger provider before))
        (tokensIn (configs provider).period now (ledger provider before) % 2 ^ 64) := by
  obtain ⟨hord, hlast⟩ := pairwise_concat.mp hord
  obtain ⟨hagrees, hdates⟩ := agrees_history configs provider hord
  have hle : ∀ r ∈ ledger provider before, r.date ≤ now := by
    intro r hr
    obtain ⟨e, he, hdate⟩ := hdates r hr
    rw [hdate]
    exact hlast _ (List.mem_map_of_mem he)
  obtain ⟨hcost, htokens⟩ := currentUsage_eq hagrees hle
  rw [check_eq, hcost, htokens]

/-- **In every history in which the clock does not go back, the verdicts are those of the ledger exactly if the
counters fit.** -/
theorem quota_verdict_iff (configs : Str → QuotaConfig) (hpos : ∀ provider, (configs provider).Positive)
    (history : List QuotaEvent) (hord : (history.map QuotaEvent.now).Pairwise (· ≤ ·)) :
    VerdictsMatch configs history ↔ CountersFit configs history := by
  have hcheck : ∀ before now provider after, history = before ++ ⟨now, .check provider⟩ :: after →
      (MatchesUsage (configs provider) (costIn (configs provider).period now (ledger provider before))
          (tokensIn (configs provider).period now (ledger provider before))
          ((runSteps (QuotaStore.step configs) ∅ before).check now provider (configs provider)) ↔
        CounterFits (configs provider) (costIn (configs provider).period now (ledger provider before))
          (tokensIn (configs provider).period now (ledger provider before))) := by
    intro before now provider after hcut
    have hsub : (before.map QuotaEvent.now ++ [now]).Sublist (history.map QuotaEvent.now) := by
      rw [hcut, List.map_append, List.map_cons]
      exact List.Sublist.append_left (List.singleton_sublist.mpr List.mem_cons_self) _
    rw [check_history (hord.sublist hsub)]
    exact verdict_wrapped_iff (hpos provider) _ _
  constructor
  · exact fun h before now provider after hcut => (hcheck before now provider after hcut).mp (h before now provider after hcut)
  · exact fun h before now provider after hcut => (hcheck before now provider after hcut).mpr (h before now provider after hcut)

/-- Ten dollars and a thousand tokens a month. -/
def monthlyQuota : QuotaConfig := { maxCostUsd := some 10, maxTokens := some 1000 }

theorem monthlyQuota_positive : monthlyQuota.Positive := by
  refine ⟨?_, ?_⟩
  · intro max h
    cases h
    norm_num
  · intro max h
    cases h
    decide

/-- A usage at the end of a month, a check on that day and one on the next. -/
def overMonths : List QuotaEvent :=
  [⟨⟨2026, 3, 31⟩, .record "openai".toList 9 100⟩, ⟨⟨2026, 3, 31⟩, .check "openai".toList⟩,
    ⟨⟨2026, 4, 1⟩, .check "openai".toList⟩]

theorem quota_verdict_iff_overMonths : VerdictsMatch (fun _ => monthlyQuota) overMonths := by
  refine (quota_verdict_iff (fun _ => monthlyQuota) (fun _ => monthlyQuota_positive) overMonths (by decide)).mpr ?_
  intro before now provider after hcut _
  left
  rcases before with _ | ⟨first, _ | ⟨second, _ | ⟨third, before⟩⟩⟩
  · cases hcut
  · cases hcut
    decide
  · cases hcut
    decide
  · simp [overMonths] at hcut

/-- The second usage makes the counter zero. -/
def wrappedTokens : List QuotaEvent :=
  [⟨⟨2026, 3, 31⟩, .record "openai".toList 0 (2 ^ 64 - 1)⟩, ⟨⟨2026, 3, 31⟩, .record "openai".toList 0 1⟩,
    ⟨⟨2026, 3, 31⟩, .check "openai".toList⟩]

/-- No limit is reached then, though the usage is far beyond it. -/
theorem quota_verdict_wrapped :
    ¬ ∀ (configs : Str → QuotaConfig) (history : List QuotaEvent), (∀ provider, (configs provider).Positive) →
      (history.map QuotaEvent.now).Pairwise (· ≤ ·) → VerdictsMatch configs history := by
  intro h
  have hmatch := h (fun _ => monthlyQuota) wrappedTokens (fun _ => monthlyQuota_positive) (by decide)
    (wrappedTokens.take 2) ⟨2026, 3, 31⟩ "openai".toList [] rfl
  have hnot : (runSteps (QuotaStore.step fun _ => monthlyQuota) ∅ (wrappedTokens.take 2)).check ⟨2026, 3, 31⟩ "openai".toList
      monthlyQuota ≠ .exceeded := by decide +kernel
  refine hnot (hmatch.1.mpr (.inr ⟨1000, rfl, ?_⟩))
  have hle : (1000 : UInt64).toNat ≤
      tokensIn .monthly ⟨2026, 3, 31⟩ (ledger "openai".toList (wrappedTokens.take 2)) := by decide +kernel
  rw [one_mul]
  exact_mod_cast hle

/-! ## The file -/

namespace QuotaFiles

/-- All calls have finished. -/
def Finished (s : QuotaFiles) : Prop := ∀ call, s.calls call = none

/-- The last call to write is the last one that changed the store. -/
def NewestLast (s : QuotaFiles) : QuotaFileEvent → Prop
  | .persist call => (∀ other, other ≠ call → s.calls other = none) →
      ∀ serial snapshot, s.calls call = some (serial, snapshot) → serial = s.taken
  | .change _ _ => True

/-- The newest snapshot is the store as it is. -/
structure UpToDate (s : QuotaFiles) : Prop where
  newest : ∀ call snapshot, s.calls call = some (s.taken, snapshot) → snapshot = s.memory
  serial_le : ∀ call serial snapshot, s.calls call = some (serial, snapshot) → serial ≤ s.taken
  file : s.Finished → s.file = s.memory

theorem upToDate_load (store : QuotaStore) : (load store).UpToDate := by
  refine ⟨?_, ?_, fun _ => rfl⟩
  · intro call snapshot h
    cases h
  · intro call serial snapshot h
    cases h

variable {s : QuotaFiles} {call : ℕ}

theorem UpToDate.change (h : s.UpToDate) (memory : QuotaStore) :
    { s with
      memory, taken := s.taken + 1, calls := Function.update s.calls call (some (s.taken + 1, memory)) }.UpToDate := by
  refine ⟨?_, ?_, ?_⟩
  · intro other snapshot hother
    by_cases hne : other = call
    · subst hne
      simpa using hother.symm
    · -- the other snapshots are older
      simp only [Function.update_of_ne hne] at hother
      have hle := h.serial_le other _ snapshot hother
      omega
  · intro other serial snapshot hother
    by_cases hne : other = call
    · subst hne
      simp only [Function.update_self, Option.some.injEq, Prod.mk.injEq] at hother
      exact Nat.le_of_eq hother.1.symm
    · simp only [Function.update_of_ne hne] at hother
      exact Nat.le_succ_of_le (h.serial_le other serial snapshot hother)
  · intro hdone
    have hcall := hdone call
    simp at hcall

theorem UpToDate.persist (h : s.UpToDate) {serial : ℕ} {snapshot : QuotaStore}
    (hcall : s.calls call = some (serial, snapshot)) (hlast : (∀ other, other ≠ call → s.calls other = none) → serial = s.taken) :
    { s with file := snapshot, calls := Function.update s.calls call none }.UpToDate := by
  have hkept : ∀ other c, Function.update s.calls call none other = some c → s.calls other = some c := by
    intro other c hother
    by_cases hne : other = call
    · subst hne
      simp at hother
    · rwa [Function.update_of_ne hne] at hother
  refine ⟨?_, ?_, ?_⟩
  · exact fun other snapshot' hother => h.newest other snapshot' (hkept other _ hother)
  · exact fun other serial' snapshot' hother => h.serial_le other serial' snapshot' (hkept other _ hother)
  · intro hdone
    have hothers : ∀ other, other ≠ call → s.calls other = none := by
      intro other hne
      have hother := hdone other
      simpa [Function.update_of_ne hne] using hother
    exact h.newest call snapshot (hlast hothers ▸ hcall)

/-- **One step.** What is written last stays the newest snapshot. -/
theorem step_upToDate (h : s.UpToDate) {e : QuotaFileEvent} (he : s.NewestLast e) : (s.step e).UpToDate := by
  cases e with
  | change call change =>
    dsimp only [step]
    split
    · exact h.change _
    · exact h
  | persist call =>
    dsimp only [step]
    split
    · next serial snapshot hcall => exact h.persist hcall fun hothers => he hothers serial snapshot hcall
    · exact h

end QuotaFiles

/-- **File and store agree in every state in which all calls have finished, in every run in which the last call to write
is the last one that changed the store.** -/
theorem quota_file_agrees (store : QuotaStore) (events : List QuotaFileEvent)
    (hmeet : StepsMeet QuotaFiles.step QuotaFiles.NewestLast (.load store) events)
    (hdone : (runSteps QuotaFiles.step (.load store) events).Finished) :
    (runSteps QuotaFiles.step (.load store) events).file = (runSteps QuotaFiles.step (.load store) events).memory := by
  have hstep : ∀ s e, QuotaFiles.UpToDate s → QuotaFiles.NewestLast s e → QuotaFiles.UpToDate (QuotaFiles.step s e) :=
    fun _ _ hs he => QuotaFiles.step_upToDate hs he
  exact (run_invariant hstep events (.load store) (QuotaFiles.upToDate_load store) hmeet).file hdone

/-- Two usages are recorded at the same time; the snapshots are written in an order of their own. -/
def twoRecords (first second : ℕ) : List QuotaFileEvent :=
  [.change 0 (.record ⟨2026, 3, 1⟩ "openai".toList .monthly 1 100),
    .change 1 (.record ⟨2026, 3, 1⟩ "openai".toList .monthly 2 200), .persist first, .persist second]

theorem twoRecords_finished (first second : ℕ) (h : (first = 0 ∧ second = 1) ∨ (first = 1 ∧ second = 0)) :
    (runSteps QuotaFiles.step (.load ∅) (twoRecords first second)).Finished := by
  rcases h with ⟨rfl, rfl⟩ | ⟨rfl, rfl⟩
  · intro call
    match call with
    | 0 | 1 | _ + 2 => rfl
  · intro call
    match call with
    | 0 | 1 | _ + 2 => rfl

theorem quota_file_agrees_two :
    (runSteps QuotaFiles.step (.load ∅) (twoRecords 0 1)).file =
      (runSteps QuotaFiles.step (.load ∅) (twoRecords 0 1)).memory := by
  refine quota_file_agrees ∅ (twoRecords 0 1) ⟨trivial, trivial, ?_, ?_, trivial⟩ (twoRecords_finished 0 1 (.inl ⟨rfl, rfl⟩))
  · -- the second call has not written yet
    intro hothers
    exact absurd (hothers 1 (by decide)) (by decide +kernel)
  · intro _ serial snapshot hcall
    cases hcall
    rfl

/-- The first snapshot, written after the second, is left in the file. -/
theorem quota_file_stale :
    ¬ ∀ (store : QuotaStore) (events : List QuotaFileEvent), (runSteps QuotaFiles.step (.load store) events).Finished →
      (runSteps QuotaFiles.step (.load store) events).file = (runSteps QuotaFiles.step (.load store) events).memory := by
  intro h
  have hsame := h ∅ (twoRecords 1 0) (twoRecords_finished 1 0 (.inr ⟨rfl, rfl⟩))
  have hlookup := congrArg (AList.lookup "openai".toList) hsame
  exact absurd hlookup (by decide +kernel)

end Zeptoclaw

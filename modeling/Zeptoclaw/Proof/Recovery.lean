import Zeptoclaw.Proof.Shrink

/-!
# What the recovery of a context keeps

A truncation keeps the leading system message and a suffix of the rest (`truncateMessages_eq`), and
shrinking keeps all but the contents of tool messages. The last tier truncates a second time, and takes
for the leading system message the one that the first truncation happened to leave in front:
`recoverContext_keeps_iff` says when the recovery keeps the messages it should.
-/

namespace Zeptoclaw

open Text

/-- The same message, up to the content of a tool message. -/
def ToolContentOnly (m m' : Message) : Prop := m' = m ∨ m.role = .tool ∧ ∃ content, m' = m.setContent content

/-- The system message that the history starts with, if it starts with one. -/
def leadingSystem : List Message → List Message
  | [] => []
  | m :: _ => if m.role = .system then [m] else []

/-- The history behind it. -/
def behindSystem (ms : List Message) : List Message := ms.drop (leadingSystem ms).length

/-- The leading system message, and then a suffix of the rest, up to the contents of tool messages. -/
def KeepsSuffix (ms l : List Message) : Prop :=
  ∃ n, List.Forall₂ ToolContentOnly (leadingSystem ms ++ (behindSystem ms).drop n) l

/-- The last message of the history is the last one of the result. -/
def KeepsLast (ms l : List Message) : Prop :=
  ∃ m m', ms.getLast? = some m ∧ l.getLast? = some m' ∧ ToolContentOnly m m'

/-! ## Truncation -/

theorem leadingSystem_append_behindSystem (ms : List Message) : leadingSystem ms ++ behindSystem ms = ms := by
  cases ms with
  | nil => rfl
  | cons m ms =>
    by_cases h : m.role = .system
    · simp [behindSystem, leadingSystem, h]
    · simp [behindSystem, leadingSystem, h]

theorem leadingSystem_eq_nil {m : Message} {ms : List Message} (h : m.role ≠ .system) : leadingSystem (m :: ms) = [] :=
  if_neg h

theorem leadingSystem_eq_singleton {m : Message} {ms : List Message} (h : m.role = .system) :
    leadingSystem (m :: ms) = [m] := if_pos h

theorem truncateMessages_eq (ms : List Message) (k : ℕ) :
    truncateMessages ms k = leadingSystem ms ++ (behindSystem ms).rtake k := by
  cases ms with
  | nil => simp [truncateMessages, leadingSystem, behindSystem, List.rtake]
  | cons first rest =>
    unfold List.rtake truncateMessages
    by_cases hsystem : first.role = .system
    · have hbehind : behindSystem (first :: rest) = rest := by
        rw [behindSystem, leadingSystem_eq_singleton hsystem]
        rfl
      rw [leadingSystem_eq_singleton hsystem, hbehind]
      split
      · rename_i hshort
        rw [List.length_cons] at hshort
        have hall : rest.length - k = 0 := by omega
        rw [hall]
        rfl
      · by_cases hk : k = 0
        · simp [hk, hsystem]
        · simp [hk, hsystem]
    · have hbehind : behindSystem (first :: rest) = first :: rest := by
        rw [behindSystem, leadingSystem_eq_nil hsystem]
        rfl
      rw [leadingSystem_eq_nil hsystem, hbehind, List.nil_append]
      split
      · rename_i hshort
        have hall : (first :: rest).length - k = 0 := by omega
        rw [hall, List.drop_zero]
      · by_cases hk : k = 0
        · simp [hk, hsystem]
        · simp [hk, hsystem]

theorem rtake_rtake {α : Type*} (l : List α) (k j : ℕ) : (l.rtake k).rtake j = l.rtake (min k j) := by
  unfold List.rtake
  rw [List.drop_drop, List.length_drop]
  congr 1
  omega

theorem length_rtake {α : Type*} (l : List α) (k : ℕ) : (l.rtake k).length = min k l.length := by
  unfold List.rtake
  rw [List.length_drop]
  omega

theorem rtake_of_length_le {α : Type*} {l : List α} {k : ℕ} (h : l.length ≤ k) : l.rtake k = l := by
  unfold List.rtake
  rw [Nat.sub_eq_zero_of_le h, List.drop_zero]

theorem rtake_forall₂ {α β : Type*} {R : α → β → Prop} {l : List α} {l' : List β} (h : List.Forall₂ R l l') (k : ℕ) :
    List.Forall₂ R (l.rtake k) (l'.rtake k) := by
  unfold List.rtake
  rw [h.length_eq]
  exact List.forall₂_drop _ h

/-! ## Kept messages -/

theorem ToolContentOnly.refl (m : Message) : ToolContentOnly m m := .inl rfl

theorem ToolContentOnly.role_eq {m m' : Message} (h : ToolContentOnly m m') : m'.role = m.role := by
  obtain rfl | ⟨-, content, rfl⟩ := h
  · rfl
  · rfl

/-- A message that is no tool message is the same one. -/
theorem ToolContentOnly.eq_of_system {m m' : Message} (h : ToolContentOnly m m') (hsystem : m'.role = .system) : m' = m := by
  obtain rfl | ⟨htool, -⟩ := id h
  · rfl
  · rw [h.role_eq, htool] at hsystem
    cases hsystem

theorem forall₂_refl_contentOnly (ms : List Message) : List.Forall₂ ToolContentOnly ms ms :=
  List.forall₂_same.mpr fun m _ => ToolContentOnly.refl m

theorem getLast_forall₂ {α β : Type*} {R : α → β → Prop} {l : List α} {l' : List β} (h : List.Forall₂ R l l') {a : α}
    (ha : l.getLast? = some a) : ∃ b, l'.getLast? = some b ∧ R a b := by
  have hrev := List.forall₂_reverse_iff.mpr h
  rw [List.getLast?_eq_head?_reverse] at ha ⊢
  generalize l.reverse = r at ha hrev
  generalize l'.reverse = r' at hrev ⊢
  cases hrev with
  | nil => cases ha
  | cons hab _ =>
    cases ha
    exact ⟨_, rfl, hab⟩

/-- A truncation that keeps a recent message keeps the last one. -/
theorem getLast?_truncateMessages (ms : List Message) {k : ℕ} (hk : 1 ≤ k) :
    (truncateMessages ms k).getLast? = ms.getLast? := by
  rw [truncateMessages_eq]
  nth_rewrite 3 [← leadingSystem_append_behindSystem ms]
  by_cases hbehind : behindSystem ms = []
  · simp [hbehind, List.rtake]
  · have hpos := List.length_pos_iff.mpr hbehind
    have hrest : (behindSystem ms).rtake k ≠ [] := by
      rw [← List.length_pos_iff, length_rtake]
      omega
    rw [List.getLast?_append_of_ne_nil _ hrest, List.getLast?_append_of_ne_nil _ hbehind]
    unfold List.rtake
    rw [List.getLast?_drop, if_neg (by omega)]

theorem keepsLast_of_forall₂ {ms r r' l : List Message} (hne : ms ≠ []) (hr : r.getLast? = ms.getLast?)
    (h : List.Forall₂ ToolContentOnly r r') (hl : l.getLast? = r'.getLast?) : KeepsLast ms l := by
  obtain ⟨m, hm⟩ := Option.isSome_iff_exists.mp (List.getLast?_isSome.mpr hne)
  obtain ⟨m', hm', hsame⟩ := getLast_forall₂ h (hr.trans hm)
  exact ⟨m, m', hm, hl.trans hm', hsame⟩

theorem shrinkOne_contentOnly {budget : List Message → ℕ} {later : List Message} {m m' : Message}
    (h : shrinkOne budget later m = some m') : ToolContentOnly m m' := by
  unfold shrinkOne at h
  split at h
  · rename_i htool
    have hrole : m.role = .tool := by
      have := (Bool.and_eq_true_iff.mp htool).1
      simpa using this
    unfold shrinkMessage at h
    split at h
    · exact .inl (Option.some.inj h).symm
    · obtain ⟨cut, -, rfl⟩ := Option.map_eq_some_iff.mp h
      exact .inr ⟨hrole, _, rfl⟩
  · exact .inl (Option.some.inj h).symm

theorem shrink_contentOnly {ms out : List Message} {target recent : ℕ}
    (h : shrinkToolResultsProgressive ms target recent = some out) : List.Forall₂ ToolContentOnly ms out := by
  rw [shrinkToolResultsProgressive_eq, shrinkEach_eq_some] at h
  exact h.forall₂ fun _ _ _ hone => shrinkOne_contentOnly hone

theorem shrink_of_ascii {ms : List Message} (hascii : ∀ m ∈ ms, IsAscii m.content) (target recent : ℕ) :
    ∃ out, shrinkToolResultsProgressive ms target recent = some out := by
  have hcuts : AllBehind (CutAtBoundary (resultBudget target recent)) ms := by
    refine allBehind_iff.mpr fun before m later hms _ hlong => ?_
    exact isCharBoundary_of_ascii (hascii m (by simp [hms])) hlong.le
  obtain ⟨out, hsome, -⟩ := (shrinkEach_iff _ _).mpr hcuts
  exact ⟨out, (shrinkToolResultsProgressive_eq ms target recent).trans hsome⟩

/-! ## The tiers -/

/-- The history has no leading system message, the first truncation leaves one of its middle in front, and the
second one leaves out messages between it and the last three. -/
structure StaleFront (k : ℕ) (ms : List Message) : Prop where
  noLead : leadingSystem ms = []
  five_le : 5 ≤ k
  lt_length : k < ms.length
  system : ∃ m, ms[ms.length - k]? = some m ∧ m.role = .system ∧ ms[ms.length - 4]? ≠ some m

theorem head?_rtake {α : Type*} (l : List α) (k : ℕ) : (l.rtake k).head? = l[l.length - k]? := List.head?_drop

/-- Where a system message in front of the last three is among the last four, it stands right before them. -/
theorem drop_system_iff {ms t₀ t : List Message} {s : Message} {k : ℕ} (hS : ms.rtake k = s :: t₀)
    (ht : List.Forall₂ ToolContentOnly t₀ t) (hsystem : s.role = .system) (hk : 5 ≤ k) (hlt : k < ms.length) :
    (∃ n, List.Forall₂ ToolContentOnly (ms.drop n) (s :: t.rtake 3)) ↔ ms[ms.length - 4]? = some s := by
  have hlen := congrArg List.length hS
  rw [length_rtake, List.length_cons] at hlen
  have hthree : ms.drop (ms.length - 3) = t₀.rtake 3 := by
    have hcut : (ms.rtake k).rtake 3 = t₀.rtake 3 := by
      rw [hS]
      unfold List.rtake
      rw [List.length_cons, Nat.sub_add_comm (by omega), List.drop_succ_cons]
    rw [← hcut, rtake_rtake, Nat.min_eq_right (by omega)]
    rfl
  have hdrop : ∀ m, ms[ms.length - 4]? = some m → ms.drop (ms.length - 4) = m :: t₀.rtake 3 := by
    intro m hm
    rw [List.getElem?_eq_getElem (by omega)] at hm
    rw [List.drop_eq_getElem_cons (by omega), Option.some.inj hm, show ms.length - 4 + 1 = ms.length - 3 by omega,
      hthree]
  constructor
  · rintro ⟨n, hn⟩
    have hlast := hn.length_eq
    have htlen := ht.length_eq
    rw [List.length_drop, List.length_cons, length_rtake, ← htlen] at hlast
    have hn4 : n = ms.length - 4 := by omega
    subst hn4
    obtain ⟨m, hm⟩ : ∃ m, ms[ms.length - 4]? = some m := ⟨_, List.getElem?_eq_getElem (by omega)⟩
    rw [hdrop m hm] at hn
    cases hn with
    | cons hms _ => rw [hm, hms.eq_of_system hsystem]
  · intro hm
    refine ⟨ms.length - 4, ?_⟩
    rw [hdrop s hm]
    exact .cons (ToolContentOnly.refl s) (rtake_forall₂ ht 3)

/-- In front of what the first truncation left is a system message, which the second one keeps. -/
theorem truncate_suffix_iff_of_system {ms t : List Message} {s : Message} {k : ℕ} (hlead : leadingSystem ms = [])
    (hr : List.Forall₂ ToolContentOnly (ms.rtake k) (s :: t)) (hsystem : s.role = .system) :
    (∃ n, List.Forall₂ ToolContentOnly (ms.drop n) (truncateMessages (s :: t) 3)) ↔ ¬ StaleFront k ms := by
  obtain ⟨s₀, t₀, hsame, ht, hS⟩ := List.forall₂_cons_right_iff.mp hr
  have hfront : ms[ms.length - k]? = some s₀ := by rw [← head?_rtake, hS]; rfl
  have hs := hsame.eq_of_system hsystem
  subst hs
  have hlt : k < ms.length := by
    by_contra hle
    rw [rtake_of_length_le (by omega)] at hS
    rw [hS, leadingSystem_eq_singleton hsystem] at hlead
    cases hlead
  have hbehind : behindSystem (s :: t) = t := by
    rw [behindSystem, leadingSystem_eq_singleton hsystem]
    rfl
  rw [truncateMessages_eq, leadingSystem_eq_singleton hsystem, hbehind, List.singleton_append]
  by_cases hk : 5 ≤ k
  · -- four messages are left, so the only suffix they can be is that of the last four
    rw [drop_system_iff hS ht hsystem hk hlt]
    constructor
    · rintro hm ⟨-, -, -, m, hget, -, hne⟩
      rw [hfront] at hget
      exact hne (hm.trans hget)
    · intro hstale
      by_contra hne
      exact hstale ⟨hlead, hk, hlt, s, hfront, hsystem, hne⟩
  · have hlen := congrArg List.length hS
    rw [length_rtake, List.length_cons, ht.length_eq] at hlen
    have hall : t.rtake 3 = t := rtake_of_length_le (by omega)
    rw [hall]
    exact ⟨fun _ h => hk h.five_le, fun _ => ⟨ms.length - k, hr⟩⟩

/-- Another message in front is not stale, and the second truncation keeps the last three. -/
theorem truncate_suffix_iff_of_other {ms t : List Message} {s : Message} {k : ℕ}
    (hr : List.Forall₂ ToolContentOnly (ms.rtake k) (s :: t)) (hsystem : s.role ≠ .system) :
    (∃ n, List.Forall₂ ToolContentOnly (ms.drop n) (truncateMessages (s :: t) 3)) ↔ ¬ StaleFront k ms := by
  obtain ⟨s₀, t₀, hsame, -, hS⟩ := List.forall₂_cons_right_iff.mp hr
  have hfront : ms[ms.length - k]? = some s₀ := by rw [← head?_rtake, hS]; rfl
  have hbehind : behindSystem (s :: t) = s :: t := by
    rw [behindSystem, leadingSystem_eq_nil hsystem]
    rfl
  rw [truncateMessages_eq, leadingSystem_eq_nil hsystem, hbehind, List.nil_append]
  constructor
  · rintro - ⟨-, -, -, m, hget, hm, -⟩
    rw [hfront] at hget
    cases hget
    exact hsystem (hsame.role_eq.trans hm)
  · intro _
    refine ⟨ms.length - min k 3, ?_⟩
    have hcut := rtake_forall₂ hr 3
    rw [rtake_rtake] at hcut
    exact hcut

/-- The second truncation keeps a suffix unless the first one left a stale message in front. -/
theorem keepsSuffix_truncate_iff {ms r : List Message} {k : ℕ} (hlead : leadingSystem ms = [])
    (hr : List.Forall₂ ToolContentOnly (ms.rtake k) r) :
    KeepsSuffix ms (truncateMessages r 3) ↔ ¬ StaleFront k ms := by
  have hshape : KeepsSuffix ms (truncateMessages r 3) ↔
      ∃ n, List.Forall₂ ToolContentOnly (ms.drop n) (truncateMessages r 3) := by
    unfold KeepsSuffix behindSystem
    rw [hlead]
    rfl
  rw [hshape]
  cases r with
  | nil =>
    have hstale : ¬ StaleFront k ms := by
      intro h
      have hlen := hr.length_eq
      rw [length_rtake, List.length_nil] at hlen
      have := h.five_le
      have := h.lt_length
      omega
    refine ⟨fun _ => hstale, fun _ => ⟨ms.length, ?_⟩⟩
    rw [List.drop_length]
    exact .nil
  | cons s t =>
    by_cases hsystem : s.role = .system
    · exact truncate_suffix_iff_of_system hlead hr hsystem
    · exact truncate_suffix_iff_of_other hr hsystem

/-- What the recovery has to do, over any test of whether the messages fit. -/
structure RecoversWell (fits : List Message → Bool) (urgency : CompactionUrgency) (ms l : List Message) (tier : ℕ) :
    Prop where
  suffix : KeepsSuffix ms l
  last : KeepsLast ms l
  unchanged : tier = 0 → l = ms
  fits : tier ≤ 2 → urgency ≠ .critical → fits l = true

/-- The tiers reach the last one, and keep a stale message in front. -/
def TiersKeepStale (fits : List Message → Bool) (keepRecent budget recentCount : ℕ) (ms : List Message) : Prop :=
  fits (truncateMessages ms keepRecent) = false ∧
    (∀ r, shrinkToolResultsProgressive (truncateMessages ms keepRecent) budget recentCount = some r → fits r = false) ∧
    StaleFront keepRecent ms

section Tiers

variable {fits : List Message → Bool} {urgency : CompactionUrgency} {ms : List Message} {k budget recent : ℕ}

theorem truncateMessages_keepsSuffix (ms : List Message) (k : ℕ) : KeepsSuffix ms (truncateMessages ms k) := by
  refine ⟨(behindSystem ms).length - k, ?_⟩
  rw [truncateMessages_eq]
  exact forall₂_refl_contentOnly _

/-- Shrinking keeps the shape of what a truncation left. -/
theorem keepsSuffix_of_shrunk {r : List Message} (hr : List.Forall₂ ToolContentOnly (truncateMessages ms k) r) :
    KeepsSuffix ms r := by
  rw [truncateMessages_eq] at hr
  exact ⟨(behindSystem ms).length - k, hr⟩

/-- The last tier behind a leading system message. -/
theorem keepsSuffix_truncate_of_lead {r : List Message} {s : Message} {rest : List Message}
    (hlead : leadingSystem ms = s :: rest) (hr : List.Forall₂ ToolContentOnly (truncateMessages ms k) r) :
    KeepsSuffix ms (truncateMessages r 3) := by
  have hs : s.role = .system ∧ rest = [] := by
    cases ms with
    | nil => cases hlead
    | cons m ms =>
      by_cases hm : m.role = .system
      · rw [leadingSystem_eq_singleton hm] at hlead
        cases hlead
        exact ⟨hm, rfl⟩
      · rw [leadingSystem_eq_nil hm] at hlead
        cases hlead
  obtain ⟨hsystem, rfl⟩ := hs
  rw [truncateMessages_eq, hlead, List.singleton_append] at hr
  obtain ⟨s', t, hsame, ht, rfl⟩ := List.forall₂_cons_left_iff.mp hr
  have hsystem' : s'.role = .system := hsame.role_eq.trans hsystem
  have hbehind : behindSystem (s' :: t) = t := by
    rw [behindSystem, leadingSystem_eq_singleton hsystem']
    rfl
  refine ⟨(behindSystem ms).length - min k 3, ?_⟩
  rw [truncateMessages_eq, leadingSystem_eq_singleton hsystem', hbehind, hlead]
  refine .cons hsame ?_
  have hcut := rtake_forall₂ ht 3
  rw [rtake_rtake] at hcut
  exact hcut

theorem keepsSuffix_truncate_shrunk_iff {r : List Message}
    (hr : List.Forall₂ ToolContentOnly (truncateMessages ms k) r) :
    KeepsSuffix ms (truncateMessages r 3) ↔ ¬ StaleFront k ms := by
  cases hlead : leadingSystem ms with
  | nil =>
    have hbehind : behindSystem ms = ms := by rw [behindSystem, hlead]; rfl
    rw [truncateMessages_eq, hlead, hbehind, List.nil_append] at hr
    exact keepsSuffix_truncate_iff hlead hr
  | cons s rest =>
    refine ⟨fun _ hstale => ?_, fun _ => keepsSuffix_truncate_of_lead hlead hr⟩
    have hnil := hstale.noLead
    rw [hlead] at hnil
    cases hnil

theorem truncateMessages_sublist (ms : List Message) (k : ℕ) : (truncateMessages ms k).Sublist ms := by
  rw [truncateMessages_eq]
  nth_rewrite 3 [← leadingSystem_append_behindSystem ms]
  exact (List.Sublist.refl _).append (List.drop_sublist _ _)

/-- The tiers recover well exactly if the last one is not reached with a stale message in front. -/
theorem recoverByTiers_well_iff (hne : ms ≠ []) (hascii : ∀ m ∈ ms, IsAscii m.content) (hk : 1 ≤ k) :
    (∃ l tier, recoverByTiers fits k budget recent ms = some (l, tier) ∧ RecoversWell fits urgency ms l tier) ↔
      ¬ TiersKeepStale fits k budget recent ms := by
  have hlast := getLast?_truncateMessages ms hk
  obtain ⟨r, hr⟩ := shrink_of_ascii
    (fun m hm => hascii m ((truncateMessages_sublist ms k).subset hm)) budget recent
  have hsame := shrink_contentOnly hr
  unfold TiersKeepStale recoverByTiers
  dsimp only
  rw [hr]
  cases hfits : fits (truncateMessages ms k) with
  | true =>
    refine ⟨fun _ h => by simpa using h.1, fun _ => ⟨_, 1, rfl, truncateMessages_keepsSuffix ms k, ?_, ?_, fun _ _ => hfits⟩⟩
    · exact keepsLast_of_forall₂ hne hlast (forall₂_refl_contentOnly _) rfl
    · exact fun h => absurd h (by decide)
  | false =>
    cases hshrunk : fits r with
    | true =>
      refine ⟨fun _ h => ?_, fun _ => ⟨r, 2, ?_, keepsSuffix_of_shrunk hsame, ?_, ?_, fun _ _ => hshrunk⟩⟩
      · have := h.2.1 r rfl
        rw [hshrunk] at this
        cases this
      · simp [hshrunk]
      · exact keepsLast_of_forall₂ hne hlast hsame rfl
      · exact fun h => absurd h (by decide)
    | false =>
      have hthird : (∃ l tier, (do
          let recovered ← some r
          if fits recovered = true then return (recovered, 2)
          return (truncateMessages recovered 3, 3)) = some (l, tier) ∧ RecoversWell fits urgency ms l tier) ↔
          RecoversWell fits urgency ms (truncateMessages r 3) 3 := by
        simp [hshrunk]
      rw [if_neg (by decide), hthird]
      constructor
      · exact fun h hstale => (keepsSuffix_truncate_shrunk_iff hsame).mp h.suffix hstale.2.2
      · intro h
        refine ⟨(keepsSuffix_truncate_shrunk_iff hsame).mpr fun hstale => h ⟨rfl, ?_, hstale⟩, ?_, ?_, ?_⟩
        · rintro r' hr'
          cases hr'
          exact hshrunk
        · exact keepsLast_of_forall₂ hne hlast hsame (getLast?_truncateMessages r (by decide))
        · exact fun h => absurd h (by decide)
        · exact fun h => absurd h (by decide)

end Tiers

/-- The recovery keeps a stale message in front. -/
def KeepsStale (fits : List Message → Bool) (urgency : CompactionUrgency) (keepRecentTier1 toolResultBudget : ℕ)
    (ms : List Message) : Prop :=
  fits ms = false ∧
    match urgency with
    | .critical => False
    | .emergency =>
      TiersKeepStale fits (min keepRecentTier1 5) (min (max (toolResultBudget / 2) 1) toolResultBudget) 2 ms
    | .normal => TiersKeepStale fits keepRecentTier1 toolResultBudget 3 ms

/-- **The recovery keeps the leading system message and a suffix of the rest, with the last message in it,
unchanged if nothing was done and within 95 % of the limit below the last tier, exactly if the last tier does
not find a system message of the middle of the history in front.** -/
theorem recoverContext_keeps_iff (ms : List Message) (contextLimit : ℕ) (urgency : CompactionUrgency)
    (keepRecentTier1 toolResultBudget : ℕ) (safetyMargin : ℚ) (hne : ms ≠ [])
    (hascii : ∀ m ∈ ms, IsAscii m.content) (hkeep : 1 ≤ keepRecentTier1) :
    (∃ l tier, tryRecoverContextWithUrgency ms contextLimit urgency keepRecentTier1 toolResultBudget safetyMargin =
        some (l, tier) ∧ RecoversWell (fitsTarget contextLimit safetyMargin) urgency ms l tier) ↔
      ¬ KeepsStale (fitsTarget contextLimit safetyMargin) urgency keepRecentTier1 toolResultBudget ms := by
  unfold tryRecoverContextWithUrgency recoverContext KeepsStale
  generalize fitsTarget contextLimit safetyMargin = fits
  cases hfits : fits ms with
  | true =>
    refine ⟨fun _ h => by simpa using h.1, fun _ => ⟨ms, 0, rfl, ⟨0, ?_⟩, ?_, fun _ => rfl, fun _ _ => hfits⟩⟩
    · rw [List.drop_zero, leadingSystem_append_behindSystem]
      exact forall₂_refl_contentOnly ms
    · exact keepsLast_of_forall₂ hne rfl (forall₂_refl_contentOnly ms) rfl
  | false =>
    simp only [Bool.false_eq_true, if_false, true_and]
    cases urgency with
    | critical =>
      refine ⟨fun _ h => h, fun _ => ⟨_, 3, rfl, truncateMessages_keepsSuffix ms 6, ?_, ?_, fun _ h => absurd rfl h⟩⟩
      · exact keepsLast_of_forall₂ hne (getLast?_truncateMessages ms (by decide)) (forall₂_refl_contentOnly _) rfl
      · exact fun h => absurd h (by decide)
    | emergency => exact recoverByTiers_well_iff hne hascii (by omega)
    | normal => exact recoverByTiers_well_iff hne hascii hkeep

/-- A note of the middle of the conversation, and what follows it. -/
def staleHistory : List Message :=
  [.user ['a'], .system ['n'], .user ['b'], .assistant ['c'], .user ['d'], .assistant ['e']]

theorem staleHistory_ascii : ∀ m ∈ staleHistory, IsAscii m.content := by
  have hall : (staleHistory.all fun m => m.content.all fun c => c.toNat < 128) = true := by decide
  exact fun m hm => isAscii_of_all (List.all_eq_true.mp hall m hm)

theorem recoverContext_keeps_fitting :
    (∃ l tier, tryRecoverContextWithUrgency staleHistory 100 .normal 5 100 1 = some (l, tier) ∧
        RecoversWell (fitsTarget 100 1) .normal staleHistory l tier) ↔
      ¬ KeepsStale (fitsTarget 100 1) .normal 5 100 staleHistory :=
  recoverContext_keeps_iff staleHistory 100 .normal 5 100 1 (by decide) staleHistory_ascii (by decide)

/-- In an emergency, the note stays in front of the last three messages, and the one behind it is gone. -/
theorem recoverContext_keeps_note :
    ¬ ∃ l tier, tryRecoverContextWithUrgency staleHistory 10 .emergency 5 100 1 = some (l, tier) ∧
      KeepsSuffix staleHistory l := by
  rintro ⟨l, tier, hsome, n, hn⟩
  have hout : tryRecoverContextWithUrgency staleHistory 10 .emergency 5 100 1 =
      some ([.system ['n'], .assistant ['c'], .user ['d'], .assistant ['e']], 3) := by decide +kernel
  rw [hout] at hsome
  cases hsome
  have hlen := hn.length_eq
  change (staleHistory.drop n).length = 4 at hlen
  have hn2 : n = 2 := by
    rw [List.length_drop] at hlen
    change 6 - n = 4 at hlen
    omega
  subst hn2
  cases hn with
  | cons hfirst _ => exact absurd (hfirst.eq_of_system rfl) (by decide)

end Zeptoclaw

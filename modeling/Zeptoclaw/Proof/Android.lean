import Zeptoclaw.Lib.Run
import Zeptoclaw.Spec.Android
import Mathlib.Data.List.DropRight

/-!
# What is shown of a screen, and when the agent is stuck

* `processElements_deterministic`: what is shown does not depend on the order of a `HashMap`: no two elements with one
  place are in different buckets, so that every two elements of the buckets are told apart by the sort.
* `processElements_spec`: which elements are shown.
* `observe_alerts`: the alerts of the stuck detector as a function of all observations since the last reset.
* `screen_alerts`: the same screen for the third time is alerted.
-/

namespace Zeptoclaw

/-! ## What is shown -/

namespace Screen

theorem positionLe_iff {a b : UIElement} : positionLe a b = true ↔
    a.center.2 < b.center.2 ∨ a.center.2 = b.center.2 ∧ a.center.1 ≤ b.center.1 := by
  rw [positionLe, Bool.or_eq_true, Bool.and_eq_true, decide_eq_true_iff, decide_eq_true_iff, decide_eq_true_iff]

theorem scoreLe_iff {a b : UIElement} : scoreLe a b = true ↔ b.score < a.score ∨ a.score = b.score ∧
    (a.center.2 < b.center.2 ∨ a.center.2 = b.center.2 ∧ a.center.1 ≤ b.center.1) := by
  rw [scoreLe, Bool.or_eq_true, Bool.and_eq_true, decide_eq_true_iff, decide_eq_true_iff, positionLe_iff]

theorem positionLe_trans (a b c : UIElement) (hab : positionLe a b = true) (hbc : positionLe b c = true) :
    positionLe a c = true := by
  rw [positionLe_iff] at *
  omega

theorem positionLe_total (a b : UIElement) : (positionLe a b || positionLe b a) = true := by
  rw [Bool.or_eq_true, positionLe_iff, positionLe_iff]
  omega

theorem scoreLe_trans (a b c : UIElement) (hab : scoreLe a b = true) (hbc : scoreLe b c = true) :
    scoreLe a c = true := by
  rw [scoreLe_iff] at *
  omega

theorem scoreLe_total (a b : UIElement) : (scoreLe a b || scoreLe b a) = true := by
  rw [Bool.or_eq_true, scoreLe_iff, scoreLe_iff]
  omega

theorem bucket_eq_of_positionLe {a b : UIElement} (hab : positionLe a b = true) (hba : positionLe b a = true) :
    bucket a = bucket b := by
  rw [positionLe_iff] at hab hba
  have hx : a.center.1 = b.center.1 := by omega
  have hy : a.center.2 = b.center.2 := by omega
  rw [bucket, bucket, hx, hy]

theorem positionLe_of_scoreLe {a b : UIElement} (hab : scoreLe a b = true) (hba : scoreLe b a = true) :
    positionLe a b = true := by
  rw [scoreLe_iff] at hab hba
  rw [positionLe_iff]
  omega

/-- A bucket has the best of its elements. -/
structure Buckets (elements : List UIElement) (buckets : Assoc (ℤ × ℤ) UIElement) : Prop where
  filled : ∀ e ∈ elements, ∃ best, buckets.lookup (bucket e) = some best
  best : ∀ k b, buckets.lookup k = some b → b ∈ elements ∧ bucket b = k ∧ ∀ e ∈ elements, bucket e = k → e.score ≤ b.score

theorem dedupStep_cases (buckets : Assoc (ℤ × ℤ) UIElement) (elem : UIElement) :
    (∃ entry, buckets.lookup (bucket elem) = some entry ∧ elem.score ≤ entry.score ∧ dedupStep buckets elem = buckets) ∨
      (∀ entry, buckets.lookup (bucket elem) = some entry → entry.score < elem.score) ∧
        dedupStep buckets elem = AList.insert (bucket elem) elem buckets := by
  unfold dedupStep
  split
  · next entry hentry =>
    rw [hentry]
    split
    · next hlt =>
      refine Or.inr ⟨fun other hother => ?_, rfl⟩
      rw [← Option.some.inj hother]
      exact hlt
    · next hle => exact Or.inl ⟨entry, rfl, Int.not_lt.mp hle, rfl⟩
  · next hnone =>
    refine Or.inr ⟨fun entry hentry => ?_, rfl⟩
    rw [hnone] at hentry
    cases hentry

theorem Buckets.step {elements : List UIElement} {buckets : Assoc (ℤ × ℤ) UIElement} (h : Buckets elements buckets)
    (elem : UIElement) : Buckets (elements ++ [elem]) (dedupStep buckets elem) := by
  rcases dedupStep_cases buckets elem with ⟨entry, hentry, hle, hstep⟩ | ⟨hlt, hstep⟩
  · rw [hstep]
    refine ⟨fun e he => ?_, fun k b hb => ?_⟩
    · rcases List.mem_append.mp he with he | he
      · exact h.filled e he
      · rw [List.mem_singleton.mp he]
        exact ⟨entry, hentry⟩
    · obtain ⟨hmem, hbucket, hbest⟩ := h.best k b hb
      refine ⟨List.mem_append_left _ hmem, hbucket, fun e he hek => ?_⟩
      rcases List.mem_append.mp he with he | he
      · exact hbest e he hek
      · rw [List.mem_singleton.mp he] at hek ⊢
        rw [← hek, hentry] at hb
        rw [← Option.some.inj hb]
        exact hle
  · rw [hstep]
    refine ⟨fun e he => ?_, fun k b hb => ?_⟩
    · rw [Assoc.lookup_insert]
      by_cases hsame : bucket e = bucket elem
      · exact ⟨elem, if_pos hsame⟩
      · rw [if_neg hsame]
        rcases List.mem_append.mp he with he | he
        · exact h.filled e he
        · exact absurd (congrArg bucket (List.mem_singleton.mp he)) hsame
    · rw [Assoc.lookup_insert] at hb
      by_cases hk : k = bucket elem
      · rw [if_pos hk] at hb
        obtain rfl := Option.some.inj hb
        refine ⟨List.mem_append_right _ (List.mem_singleton_self _), hk.symm, fun e he hek => ?_⟩
        rcases List.mem_append.mp he with he | he
        · obtain ⟨entry, hentry⟩ := h.filled e he
          have hbest := (h.best _ _ hentry).2.2 e he rfl
          rw [hek, hk] at hentry
          exact Int.le_trans hbest (Int.le_of_lt (hlt entry hentry))
        · obtain rfl := List.mem_singleton.mp he
          exact Int.le_refl _
      · rw [if_neg hk] at hb
        obtain ⟨hmem, hbucket, hbest⟩ := h.best k b hb
        refine ⟨List.mem_append_left _ hmem, hbucket, fun e he hek => ?_⟩
        rcases List.mem_append.mp he with he | he
        · exact hbest e he hek
        · rw [List.mem_singleton.mp he] at hek
          exact absurd hek.symm hk

theorem buckets_dedupElements (elements : List UIElement) : Buckets elements (dedupElements elements) := by
  induction elements using List.reverseRecOn with
  | nil => exact ⟨fun _ h => absurd h List.not_mem_nil, fun _ _ h => by cases h⟩
  | append_singleton elements elem ih =>
    rw [dedupElements, List.foldl_concat]
    exact ih.step elem

theorem Deduped.mem_iff {elements values : List UIElement} (h : Deduped elements values) {e : UIElement} : e ∈ values ↔ (dedupElements elements).lookup (bucket e) = some e := by
  rw [List.Perm.mem_iff h, List.mem_map]
  constructor
  · rintro ⟨⟨k, b⟩, hpair, rfl⟩
    have hlookup := Assoc.mem_pairs.mp hpair
    rw [((buckets_dedupElements elements).best k b hlookup).2.1]
    exact hlookup
  · exact fun hlookup => ⟨(bucket e, e), Assoc.mem_pairs.mpr hlookup, rfl⟩

/-- A bucket has one element. -/
theorem Deduped.eq_of_bucket_eq {elements values : List UIElement} (h : Deduped elements values) {a b : UIElement}
    (ha : a ∈ values) (hb : b ∈ values) (hbucket : bucket a = bucket b) : a = b := by
  rw [h.mem_iff] at ha hb
  rw [hbucket, hb] at ha
  exact (Option.some.inj ha).symm

theorem Deduped.nodup {elements values : List UIElement} (h : Deduped elements values) : values.Nodup := by
  rw [List.Perm.nodup_iff h]
  refine List.Nodup.map_on ?_ (Assoc.nodup_pairs _)
  rintro ⟨k, b⟩ hk ⟨k', b'⟩ hk' heq
  have hb := ((buckets_dedupElements elements).best k b (Assoc.mem_pairs.mp hk)).2.1
  have hb' := ((buckets_dedupElements elements).best k' b' (Assoc.mem_pairs.mp hk')).2.1
  dsimp only at heq
  rw [← hb, ← hb', heq]

theorem pairwise_scoreLe (values : List UIElement) : (values.mergeSort scoreLe).Pairwise fun a b => scoreLe a b = true :=
  List.pairwise_mergeSort scoreLe_trans scoreLe_total values

/-- No two elements of the buckets are alike for the sort. -/
theorem mergeSort_eq {elements values values' : List UIElement} (h : Deduped elements values)
    (h' : Deduped elements values') : values.mergeSort scoreLe = values'.mergeSort scoreLe := by
  have hperm : (values.mergeSort scoreLe).Perm (values'.mergeSort scoreLe) :=
    (List.mergeSort_perm _ _).trans ((List.Perm.trans h (List.Perm.symm h')).trans (List.mergeSort_perm _ _).symm)
  refine List.Perm.eq_of_pairwise (fun a b ha hb hab hba => ?_) (pairwise_scoreLe _) (pairwise_scoreLe _) hperm
  have hbucket := bucket_eq_of_positionLe (positionLe_of_scoreLe hab hba) (positionLe_of_scoreLe hba hab)
  exact h.eq_of_bucket_eq (List.mem_mergeSort.mp ha) (List.mem_mergeSort.mp (hperm.mem_iff.mpr hb)) hbucket

/-- **What is shown does not depend on the order in which the map has its buckets.** -/
theorem processElements_deterministic {elements values values' : List UIElement} (h : Deduped elements values)
    (h' : Deduped elements values') (topN : Option ℕ) : processElements values topN = processElements values' topN := by
  rw [processElements, processElements, mergeSort_eq h h']

def exampleButton : UIElement := ⟨['a'], (0, 0), none, true, false, 15⟩

def exampleField : UIElement := ⟨['b'], (40, 0), none, true, false, 23⟩

theorem deduped_example : Deduped [exampleButton, exampleField] [exampleField, exampleButton] := List.Perm.refl _

theorem processElements_deterministic_example : processElements [exampleField, exampleButton] (some 1) =
    processElements [exampleButton, exampleField] (some 1) :=
  processElements_deterministic deduped_example ((List.Perm.swap _ _ _).trans deduped_example) (some 1)

/-- **What is shown**: elements of the dump from top to bottom, one of a bucket and no more than asked for; of every
element that is not shown there is one in its bucket with no lower score, which is shown, or no element shown has a
lower score and as many are shown as asked for. -/
theorem processElements_spec {elements values : List UIElement} (h : Deduped elements values) (topN : Option ℕ) :
    (processElements values topN).Pairwise (fun a b => positionLe a b = true ∧ bucket a ≠ bucket b) ∧
      (processElements values topN).length ≤ topN.getD defaultTopN ∧
      (∀ e ∈ processElements values topN, e ∈ elements) ∧
      ∀ e ∈ elements, ∃ best ∈ elements, bucket best = bucket e ∧ e.score ≤ best.score ∧
        (best ∈ processElements values topN ∨ (processElements values topN).length = topN.getD defaultTopN ∧
          ∀ shown ∈ processElements values topN, best.score ≤ shown.score) := by
  have hbuckets := buckets_dedupElements elements
  generalize hlimit : topN.getD defaultTopN = limit
  have htake : (processElements values topN).Perm ((values.mergeSort scoreLe).take limit) := by
    rw [processElements, hlimit]
    exact List.mergeSort_perm _ _
  have hvalues : ∀ e ∈ processElements values topN, e ∈ values := fun e he =>
    List.mem_mergeSort.mp (List.mem_of_mem_take (htake.mem_iff.mp he))
  refine ⟨?_, ?_, fun e he => ?_, fun e he => ?_⟩
  · have hnodup : (processElements values topN).Nodup :=
      htake.nodup_iff.mpr ((List.take_sublist _ _).nodup ((List.mergeSort_perm _ _).nodup_iff.mpr h.nodup))
    refine ((List.pairwise_mergeSort positionLe_trans positionLe_total _).and hnodup).imp_of_mem ?_
    rintro a b ha hb ⟨hle, hne⟩
    exact ⟨hle, fun hbucket => hne (h.eq_of_bucket_eq (hvalues a ha) (hvalues b hb) hbucket)⟩
  · rw [htake.length_eq, List.length_take]
    exact Nat.min_le_left _ _
  · exact (hbuckets.best _ _ (h.mem_iff.mp (hvalues e he))).1
  · obtain ⟨best, hbest⟩ := hbuckets.filled e he
    obtain ⟨hmem, hbucket, hscore⟩ := hbuckets.best _ _ hbest
    refine ⟨best, hmem, hbucket, hscore e he rfl, ?_⟩
    rw [← hbucket] at hbest
    have hsorted : best ∈ (values.mergeSort scoreLe).take limit ++ (values.mergeSort scoreLe).drop limit := by
      rw [List.take_append_drop]
      exact List.mem_mergeSort.mpr (h.mem_iff.mpr hbest)
    rcases List.mem_append.mp hsorted with hshown | hleft
    · exact Or.inl (htake.mem_iff.mpr hshown)
    · refine Or.inr ⟨?_, fun shown hshown => ?_⟩
      · have hpos := List.length_pos_of_mem hleft
        rw [List.length_drop] at hpos
        rw [htake.length_eq, List.length_take]
        omega
      · have hpairwise := pairwise_scoreLe values
        rw [← List.take_append_drop limit (values.mergeSort scoreLe)] at hpairwise
        have hle := (List.pairwise_append.mp hpairwise).2.2 shown (htake.mem_iff.mp hshown) best hleft
        rw [scoreLe_iff] at hle
        omega

theorem processElements_spec_example : (processElements [exampleField, exampleButton] (some 1)).length ≤ 1 :=
  (processElements_spec deduped_example (some 1)).2.1

end Screen

/-! ## Signs of being stuck -/

namespace StuckDetector

/-- The window after an entry is the window of the history with it. -/
theorem pushBack_rtake (size : ℕ) (history : List Str) (entry : Str) :
    pushBack (size + 1) (history.rtake (size + 1)) entry = (history ++ [entry]).rtake (size + 1) := by
  rw [List.rtake_concat_succ, pushBack]
  congr 1
  unfold List.rtake
  rw [List.length_drop]
  split
  · next hfull =>
    rw [List.tail_drop]
    congr 1
    omega
  · next hspace =>
    have hshort : history.length ≤ size := by omega
    rw [Nat.sub_eq_zero_of_le hshort, Nat.sub_eq_zero_of_le (Nat.le_succ_of_le hshort)]

variable (toLowercase : Str → Str)

/-- The observations since the last reset. -/
def sinceReset (inputs : List Observation) : List Observation :=
  inputs.rtakeWhile fun
    | .reset => false
    | _ => true

/-- The screens since the last reset. -/
def screensSeen (inputs : List Observation) : List Str :=
  (sinceReset inputs).filterMap fun
    | .screen elements => some (hashScreen elements)
    | _ => none

/-- The actions since the last reset. -/
def actionsSeen (inputs : List Observation) : List Str :=
  (sinceReset inputs).filterMap fun
    | .action action => some (toLowercase action)
    | _ => none

theorem sinceReset_reset (inputs : List Observation) : sinceReset (inputs ++ [.reset]) = [] :=
  List.rtakeWhile_concat_neg _ _ _ (by decide)

@[simp] theorem screensSeen_reset (inputs : List Observation) : screensSeen (inputs ++ [.reset]) = [] := by
  rw [screensSeen, sinceReset_reset, List.filterMap_nil]

@[simp] theorem actionsSeen_reset (inputs : List Observation) : actionsSeen toLowercase (inputs ++ [.reset]) = [] := by
  rw [actionsSeen, sinceReset_reset, List.filterMap_nil]

theorem sinceReset_screen (inputs : List Observation) (elements : List UIElement) :
    sinceReset (inputs ++ [.screen elements]) = sinceReset inputs ++ [.screen elements] :=
  List.rtakeWhile_concat_pos _ _ _ rfl

theorem sinceReset_action (inputs : List Observation) (action : Str) :
    sinceReset (inputs ++ [.action action]) = sinceReset inputs ++ [.action action] :=
  List.rtakeWhile_concat_pos _ _ _ rfl

@[simp] theorem screensSeen_screen (inputs : List Observation) (elements : List UIElement) :
    screensSeen (inputs ++ [.screen elements]) = screensSeen inputs ++ [hashScreen elements] := by
  rw [screensSeen, sinceReset_screen, List.filterMap_append]
  rfl

@[simp] theorem screensSeen_action (inputs : List Observation) (action : Str) :
    screensSeen (inputs ++ [.action action]) = screensSeen inputs := by
  rw [screensSeen, sinceReset_action, List.filterMap_append]
  exact List.append_nil _

@[simp] theorem actionsSeen_screen (inputs : List Observation) (elements : List UIElement) :
    actionsSeen toLowercase (inputs ++ [.screen elements]) = actionsSeen toLowercase inputs := by
  rw [actionsSeen, sinceReset_screen, List.filterMap_append]
  exact List.append_nil _

@[simp] theorem actionsSeen_action (inputs : List Observation) (action : Str) :
    actionsSeen toLowercase (inputs ++ [.action action]) = actionsSeen toLowercase inputs ++ [toLowercase action] := by
  rw [actionsSeen, sinceReset_action, List.filterMap_append]
  rfl

/-- The detector after some observations. -/
def afterObservations (inputs : List Observation) : StuckDetector :=
  runSteps (fun d input => (observe toLowercase d input).1) {} inputs

/-- The detector has the last eight screens and the last eight actions. -/
theorem afterObservations_eq (inputs : List Observation) : afterObservations toLowercase inputs =
    ⟨(screensSeen inputs).rtake screenHistorySize, (actionsSeen toLowercase inputs).rtake actionHistorySize⟩ := by
  induction inputs using List.reverseRecOn with
  | nil => rfl
  | append_singleton inputs input ih =>
    rw [afterObservations, runSteps_concat, ← afterObservations, ih]
    cases input with
    | screen elements =>
      rw [screensSeen_screen, actionsSeen_screen, screenHistorySize, ← pushBack_rtake]
      rfl
    | action action =>
      rw [screensSeen_action, actionsSeen_action, actionHistorySize, ← pushBack_rtake]
      rfl
    | reset =>
      rw [screensSeen_reset, actionsSeen_reset]
      rfl

theorem length_takeWhile_take {α : Type} (p : α → Bool) : ∀ (l : List α) (n : ℕ),
    ((l.take n).takeWhile p).length = min n (l.takeWhile p).length := by
  intro l
  induction l with
  | nil => simp
  | cons a l ih =>
    intro n
    cases n with
    | zero => rw [List.take_zero, List.takeWhile_nil, List.length_nil, Nat.zero_min]
    | succ n =>
      rw [List.take_succ_cons, List.takeWhile_cons, List.takeWhile_cons]
      split
      · rw [List.length_cons, List.length_cons, ih n, Nat.succ_min_succ]
      · rw [List.length_nil, Nat.min_zero]

theorem reverse_rtake {α : Type} (l : List α) (n : ℕ) : (l.rtake n).reverse = l.reverse.take n := by
  rw [List.rtake_eq_reverse_take_reverse, List.reverse_reverse]

theorem length_rtakeWhile_concat (screens : List Str) (hash : Str) :
    ((screens ++ [hash]).rtakeWhile fun h => h = hash).length = (screens.rtakeWhile fun h => h = hash).length + 1 := by
  rw [List.rtakeWhile_concat_pos _ _ _ (by simp), List.length_append, List.length_singleton]

/-- Of a window the last entries are those of the history. -/
theorem length_filter_window {α : Type} (p : α → Bool) (l : List α) {n size : ℕ} (h : n ≤ size) :
    (((l.rtake size).reverse.take n).filter p).length = ((l.rtake n).filter p).length := by
  rw [reverse_rtake, List.take_take, Nat.min_eq_left h, ← reverse_rtake, List.filter_reverse, List.length_reverse]

theorem length_filter_concat {α : Type} (p : α → Bool) (l : List α) (a : α) (n : ℕ) :
    (((l ++ [a]).rtake (n + 1)).filter p).length = ((l.rtake n).filter p).length + if p a = true then 1 else 0 := by
  rw [List.rtake_concat_succ, List.filter_append, List.length_append, List.filter_singleton]
  cases p a <;> rfl

/-- The same screen three times in a row; the count ends at nine. -/
def screenAlerts (screens : List Str) (hash : Str) : List StuckAlert :=
  let count := (screens.rtakeWhile fun h => h = hash).length
  if 3 ≤ count then [.screenUnchanged (unchangedText (min count 9))] else []

/-- An action three times among nine, and four navigations among five actions. -/
def actionAlerts (actions : List Str) (action sig : Str) : List StuckAlert :=
  let repeated := ((actions.rtake 9).filter fun a => a = sig).length
  let navigations := ((actions.rtake 5).filter fun a => a ∈ navActions).length
  (if 3 ≤ repeated then [.actionRepeated (repeatedText action repeated)] else []) ++
    if 4 ≤ navigations then [.navigationDrift (driftText navigations)] else []

theorem observeScreen_alerts (screens actions : List Str) (elements : List UIElement) :
    (observeScreen ⟨screens.rtake screenHistorySize, actions⟩ elements).2 =
      screenAlerts (screens ++ [hashScreen elements]) (hashScreen elements) := by
  have hwindow : ((screens.rtake screenHistorySize).reverse.takeWhile fun h => h = hashScreen elements).length =
      min 8 (screens.rtakeWhile fun h => h = hashScreen elements).length := by
    rw [reverse_rtake, length_takeWhile_take, List.rtakeWhile, List.length_reverse]
    rfl
  unfold observeScreen screenAlerts
  dsimp only
  rw [hwindow, length_rtakeWhile_concat]
  generalize (screens.rtakeWhile fun h => h = hashScreen elements).length = count
  have hmin : min 8 count + 1 = min (count + 1) 9 := by omega
  have hiff : unchangedThreshold - 1 ≤ min 8 count ↔ 3 ≤ count + 1 := by
    unfold unchangedThreshold
    omega
  rw [hmin]
  exact if_congr hiff rfl rfl

theorem observeAction_alerts (screens actions : List Str) (action : Str) :
    (observeAction toLowercase ⟨screens, actions.rtake actionHistorySize⟩ action).2 =
      actionAlerts (actions ++ [toLowercase action]) action (toLowercase action) := by
  have hrepeated : (((actions ++ [toLowercase action]).rtake 9).filter fun a => a = toLowercase action).length =
      ((actions.rtake 8).filter fun a => a = toLowercase action).length + 1 := by
    rw [length_filter_concat, if_pos (decide_eq_true rfl)]
  have hnavigations : (((actions ++ [toLowercase action]).rtake 5).filter fun a => a ∈ navActions).length =
      ((actions.rtake 4).filter fun a => a ∈ navActions).length + if toLowercase action ∈ navActions then 1 else 0 := by
    rw [length_filter_concat]
    simp only [decide_eq_true_eq]
  unfold observeAction actionAlerts
  dsimp only
  rw [hrepeated, hnavigations, length_filter_window _ _ (le_refl actionHistorySize),
    length_filter_window _ _ (by decide : driftWindow - 1 ≤ actionHistorySize)]
  have hiff : ∀ count, repeatThreshold - 1 ≤ count ↔ 3 ≤ count + 1 := fun count => by
    unfold repeatThreshold
    omega
  exact congrArg₂ _ (if_congr (hiff _) rfl rfl) rfl

/-- What is alerted with an observation. -/
def expectedAlerts (inputs : List Observation) : Observation → List StuckAlert
  | .screen elements => screenAlerts (screensSeen inputs ++ [hashScreen elements]) (hashScreen elements)
  | .action action => actionAlerts (actionsSeen toLowercase inputs ++ [toLowercase action]) action (toLowercase action)
  | .reset => []

/-- **What is alerted depends on the whole history since the last reset**, though the detector has the last eight
entries only. An action is counted among nine, where the alert speaks of eight. -/
theorem observe_alerts (inputs : List Observation) (input : Observation) :
    (observe toLowercase (afterObservations toLowercase inputs) input).2 = expectedAlerts toLowercase inputs input := by
  rw [afterObservations_eq]
  cases input with
  | screen elements => exact observeScreen_alerts _ _ elements
  | action action => exact observeAction_alerts toLowercase _ _ action
  | reset => rfl

/-- The order in which the elements are listed does not matter. -/
theorem hashScreen_perm {elements elements' : List UIElement} (h : elements.Perm elements') :
    hashScreen elements = hashScreen elements' := by
  have hsorted : ∀ texts : List Str, (texts.mergeSort fun a b => decide (a ≤ b)).Pairwise fun a b => decide (a ≤ b) = true := by
    refine List.pairwise_mergeSort (fun a b c hab hbc => ?_) (fun a b => ?_)
    · rw [decide_eq_true_iff] at hab hbc ⊢
      exact le_trans hab hbc
    · rw [Bool.or_eq_true, decide_eq_true_iff, decide_eq_true_iff]
      exact le_total a b
  have hperm := (List.mergeSort_perm (elements.map UIElement.hashKey) fun a b => decide (a ≤ b)).trans
    ((h.map _).trans (List.mergeSort_perm _ fun a b => decide (a ≤ b)).symm)
  unfold hashScreen
  rw [List.Perm.eq_of_pairwise (fun a b _ _ hab hba => ?_) (hsorted _) (hsorted _) hperm]
  exact le_antisymm (of_decide_eq_true hab) (of_decide_eq_true hba)

/-- Where a text begins is not kept: different elements may have one key. -/
theorem hashKey_ambiguous (id text text' : Str) (center : ℤ × ℤ) (enabled checked : Bool) (score : ℤ) :
    UIElement.hashKey ⟨text ++ '|' :: text', center, some id, enabled, checked, score⟩ =
      UIElement.hashKey ⟨text', center, some (id ++ '|' :: text), enabled, checked, score⟩ := by
  simp only [UIElement.hashKey, Option.getD_some, List.append_assoc, List.cons_append]

theorem screensSeen_actions (inputs : List Observation) (actions : List Str) :
    screensSeen (inputs ++ actions.map .action) = screensSeen inputs := by
  induction actions using List.reverseRecOn with
  | nil => rw [List.map_nil, List.append_nil]
  | append_singleton actions action ih =>
    rw [List.map_append, List.map_singleton, ← List.append_assoc, screensSeen_action, ih]

/-- The same elements for the third time, listed in any order, whatever actions are taken in between. -/
theorem unchanged_alerts (inputs : List Observation) {first second third : List UIElement} (hfirst : first.Perm third)
    (hsecond : second.Perm third) (actions actions' : List Str) :
    ∃ count, 3 ≤ count ∧ (observe toLowercase (afterObservations toLowercase
      (inputs ++ [.screen first] ++ actions.map .action ++ [.screen second] ++ actions'.map .action)) (.screen third)).2 =
        [.screenUnchanged (unchangedText count)] := by
  rw [observe_alerts, expectedAlerts, screensSeen_actions, screensSeen_screen, screensSeen_actions, screensSeen_screen,
    hashScreen_perm hfirst, hashScreen_perm hsecond, screenAlerts]
  rw [length_rtakeWhile_concat, length_rtakeWhile_concat, length_rtakeWhile_concat, if_pos (Nat.le_add_left 3 _)]
  exact ⟨_, by omega, rfl⟩

/-- **The same screen for the third time is alerted**, whatever order the map has each time, and whatever actions are
taken in between. -/
theorem screen_alerts (inputs : List Observation) {elements first second third : List UIElement}
    (hfirst : Screen.Deduped elements first) (hsecond : Screen.Deduped elements second)
    (hthird : Screen.Deduped elements third) (topN : Option ℕ) (actions actions' : List Str) :
    ∃ count, 3 ≤ count ∧ (observe toLowercase (afterObservations toLowercase
      (inputs ++ [.screen (Screen.processElements first topN)] ++ actions.map .action ++
        [.screen (Screen.processElements second topN)] ++ actions'.map .action))
      (.screen (Screen.processElements third topN))).2 = [.screenUnchanged (unchangedText count)] := by
  unfold Screen.processElements
  rw [Screen.mergeSort_eq hfirst hthird, Screen.mergeSort_eq hsecond hthird]
  exact unchanged_alerts toLowercase inputs (List.Perm.refl _) (List.Perm.refl _) actions actions'

theorem screen_alerts_example : ∃ count, 3 ≤ count ∧ (observe id (afterObservations id
    ([] ++ [.screen (Screen.processElements [Screen.exampleField, Screen.exampleButton] none)] ++ [['t']].map .action ++
      [.screen (Screen.processElements [Screen.exampleButton, Screen.exampleField] none)] ++ [].map .action))
    (.screen (Screen.processElements [Screen.exampleField, Screen.exampleButton] none))).2 =
      [.screenUnchanged (unchangedText count)] :=
  screen_alerts id [] Screen.deduped_example ((List.Perm.swap _ _ _).trans Screen.deduped_example) Screen.deduped_example
    none [['t']] []

end StuckDetector

end Zeptoclaw

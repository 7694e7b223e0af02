import Zeptoclaw.Proof.Memory
import Zeptoclaw.Spec.ModelSwitch
import Mathlib.Logic.Function.Basic

/-!
# What becomes of a choice

Seen from outside, a chat has a current choice and a saved one, and a restart makes the saved one current
(`Prefs.apply`). `prefs_refine`: the maps and the long-term memory are that, over every run in which the rest of the
program leaves the entries alone. A choice that the memory refuses is current but not saved: after a
restart the choice before it is back.
-/

namespace Zeptoclaw

open Text

/-! ## From outside -/

/-- The choices of the chats, and what is left of them after a restart. -/
structure Prefs (α : Type) where
  current : Str → Option α
  saved : Str → Option α

inductive PrefEvent (α : Type) where
  | set (chat : Str) (v : α)
  | reset (chat : Str)
  | restart

namespace Prefs

variable {α : Type}

def empty : Prefs α := ⟨fun _ => none, fun _ => none⟩

/-- A choice is saved if it is `kept`. -/
def apply (kept : α → Bool) (p : Prefs α) : PrefEvent α → Prefs α
  | .set chat v =>
    ⟨Function.update p.current chat (some v), if kept v then Function.update p.saved chat (some v) else p.saved⟩
  | .reset chat => ⟨Function.update p.current chat none, Function.update p.saved chat none⟩
  | .restart => ⟨p.saved, p.saved⟩

end Prefs

/-- The memory takes the text of a choice. -/
def PrefKind.kept {α : Type} (lib : MemoryLib) (kind : PrefKind α) (v : α) : Bool := lib.checkInjection (kind.format v) = []

def modelEvent : PrefInput → Option (PrefEvent ModelOverride)
  | .message chat text _ =>
    match parseModelCommand text with
    | some (.set override) => some (.set chat override)
    | some .reset => some (.reset chat)
    | _ => none
  | .restart => some .restart
  | .other _ => none

/-- The other command is looked at first. -/
def personaEvent : PrefInput → Option (PrefEvent Str)
  | .message chat text _ =>
    match parseModelCommand text, parsePersonaCommand text with
    | none, some (.set value) => some (.set chat value)
    | none, some .reset => some (.reset chat)
    | _, _ => none
  | .restart => some .restart
  | .other _ => none

/-! ## Texts of choices -/

theorem format_splitOverride (arg : Str) : modelPref.format (splitOverride arg) = arg := by
  unfold splitOverride
  cases hcut : cutFirst [':'] arg with
  | none => rfl
  | some cut =>
    obtain ⟨left, right⟩ := cut
    dsimp only
    split
    · have htext := (cutFirst_some hcut).1
      rw [htext, List.append_assoc]
      rfl
    · rfl

/-- A choice that was made by a command is read back from its text. -/
theorem parse_format_model {text : Str} {override : ModelOverride} (h : parseModelCommand text = some (.set override)) :
    modelPref.parse (modelPref.format override) = some override := by
  obtain ⟨rest, -, hrest⟩ := Option.map_eq_some_iff.mp h
  split at hrest
  · cases hrest
  · next hne =>
    split at hrest
    · cases hrest
    · split at hrest
      · cases hrest
      · split at hrest
        · cases hrest
        · cases hrest
          rw [format_splitOverride]
          exact if_neg hne

theorem parse_format_persona {text value : Str} (h : parsePersonaCommand text = some (.set value)) :
    personaPref.parse (personaPref.format value) = some value := by
  obtain ⟨rest, -, hrest⟩ := Option.map_eq_some_iff.mp h
  split at hrest
  · cases hrest
  · next hne =>
    split at hrest
    · cases hrest
    · split at hrest
      · cases hrest
      · cases hrest
        exact if_neg hne

/-! ## The memory -/

section Kept

variable {α : Type} {lib : MemoryLib} {toLowercase : Str → Str} {kind : PrefKind α} {entries : Entries}
  {saved : Str → Option α}

/-- The entries of a kind are the saved choices. -/
structure KeptAs (kind : PrefKind α) (entries : Entries) (saved : Str → Option α) : Prop where
  absent : ∀ chat, entries.lookup (kind.keyPrefix ++ chat) = none → saved chat = none
  present : ∀ chat e, entries.lookup (kind.keyPrefix ++ chat) = some e →
    e.category = kind.category ∧ kind.parse e.value = saved chat

/-- What does not change the entries of the kind, keeps them. -/
theorem KeptAs.of_lookup (h : KeptAs kind entries saved) {entries' : Entries}
    (hsame : ∀ chat, (entries'.lookup (kind.keyPrefix ++ chat)).map (fun e => (e.category, e.value)) =
      (entries.lookup (kind.keyPrefix ++ chat)).map fun e => (e.category, e.value)) : KeptAs kind entries' saved := by
  refine ⟨fun chat hnone => ?_, fun chat e he => ?_⟩
  · have hview := hsame chat
    rw [hnone, Option.map_none] at hview
    exact h.absent chat (Option.map_eq_none_iff.mp hview.symm)
  · have hview := hsame chat
    rw [he, Option.map_some] at hview
    obtain ⟨e', he', heq⟩ := Option.map_eq_some_iff.mp hview.symm
    obtain ⟨hcategory, hvalue⟩ := Prod.mk.inj heq
    obtain ⟨hc, hv⟩ := h.present chat e' he'
    exact ⟨hcategory ▸ hc, hvalue ▸ hv⟩

/-- An entry after it was set. -/
theorem upsert_spec (h : Keyed entries) (key : Str) (content : MemoryContent) (now : ℕ) :
    (LongTermMemory.upsert entries key content now).key = key ∧
      (LongTermMemory.upsert entries key content now).category = content.category ∧
      (LongTermMemory.upsert entries key content now).value = content.value := by
  unfold LongTermMemory.upsert
  cases hlookup : entries.lookup key with
  | none => exact ⟨rfl, rfl, rfl⟩
  | some e => exact ⟨h key e hlookup, rfl, rfl⟩

theorem Keyed.insert (h : Keyed entries) {key : Str} {e : MemoryEntry} (he : e.key = key) : Keyed (AList.insert key e entries) := by
  intro k e' hlookup
  rw [Assoc.lookup_insert] at hlookup
  split at hlookup
  · next heq =>
    cases hlookup
    rw [heq, he]
  · exact h k e' hlookup

theorem Keyed.erase (h : Keyed entries) (key : Str) : Keyed (AList.erase key entries) := by
  intro k e hlookup
  rw [Assoc.lookup_erase] at hlookup
  split at hlookup
  · cases hlookup
  · exact h k e hlookup

/-- A refused entry changes nothing. -/
theorem persistSingle_eq (lib : MemoryLib) (kind : PrefKind α) (chat : Str) (v : α) (now : ℕ) (entries : Entries) :
    persistSingle lib kind chat v now entries =
      if kind.kept lib v then AList.insert (kind.keyPrefix ++ chat)
        (LongTermMemory.upsert entries (kind.keyPrefix ++ chat) ⟨kind.format v, kind.category, [], 1 / 5⟩ now) entries
      else entries := by
  unfold persistSingle LongTermMemory.set PrefKind.kept
  dsimp only
  by_cases hkept : lib.checkInjection (kind.format v) = []
  · rw [if_neg (not_not.mpr hkept), if_pos (decide_eq_true hkept)]
  · rw [if_pos hkept, if_neg (by rwa [decide_eq_true_eq])]

theorem Keyed.persistSingle (h : Keyed entries) (chat : Str) (v : α) (now : ℕ) : Keyed (persistSingle lib kind chat v now entries) := by
  rw [persistSingle_eq]
  split
  · exact h.insert (upsert_spec h _ _ _).1
  · exact h

theorem KeptAs.persistSingle (h : KeptAs kind entries saved) (hkeyed : Keyed entries) {v : α}
    (hv : kind.parse (kind.format v) = some v) (chat : Str) (now : ℕ) :
    KeptAs kind (persistSingle lib kind chat v now entries)
      (if kind.kept lib v then Function.update saved chat (some v) else saved) := by
  rw [persistSingle_eq]
  split
  · obtain ⟨-, hcategory, hvalue⟩ := upsert_spec hkeyed (kind.keyPrefix ++ chat) ⟨kind.format v, kind.category, [], 1 / 5⟩ now
    refine ⟨fun chat' hnone => ?_, fun chat' e he => ?_⟩
    · rw [Assoc.lookup_insert] at hnone
      split at hnone
      · cases hnone
      · next hne => rw [Function.update_of_ne fun heq => hne (by rw [heq]), h.absent chat' hnone]
    · rw [Assoc.lookup_insert] at he
      split at he
      · next heq =>
        cases he
        rw [List.append_cancel_left heq, Function.update_self, hvalue]
        exact ⟨hcategory, hv⟩
      · next hne =>
        rw [Function.update_of_ne fun heq => hne (by rw [heq])]
        exact h.present chat' e he
  · exact h

theorem KeptAs.removeSingle (h : KeptAs kind entries saved) (chat : Str) :
    KeptAs kind (removeSingle kind chat entries) (Function.update saved chat none) := by
  unfold Zeptoclaw.removeSingle LongTermMemory.delete
  refine ⟨fun chat' hnone => ?_, fun chat' e he => ?_⟩
  · by_cases heq : chat' = chat
    · rw [heq, Function.update_self]
    · rw [Function.update_of_ne heq]
      rw [Assoc.lookup_erase, if_neg fun h => heq (List.append_cancel_left h)] at hnone
      exact h.absent chat' hnone
  · rw [Assoc.lookup_erase] at he
    split at he
    · cases he
    · next hne =>
      rw [Function.update_of_ne fun heq => hne (by rw [heq])]
      exact h.present chat' e he

/-- What one entry does to the map. -/
theorem lookup_hydrateEntry (kind : PrefKind α) (map : Assoc Str α) (e : MemoryEntry) (chat : Str) :
    (hydrateEntry kind map e).lookup chat =
      if e.key = kind.keyPrefix ++ chat then (kind.parse e.value).or (map.lookup chat) else map.lookup chat := by
  unfold hydrateEntry
  split
  · next hprefix =>
    obtain ⟨rest, hrest⟩ := hprefix
    rw [← hrest, List.drop_left]
    by_cases heq : rest = chat
    · rw [heq, if_pos rfl]
      cases kind.parse e.value with
      | none => rfl
      | some v => rw [Assoc.lookup_insert, if_pos rfl, Option.some_or]
    · rw [if_neg fun h => heq (List.append_cancel_left h)]
      cases kind.parse e.value with
      | none => rfl
      | some v => rw [Assoc.lookup_insert, if_neg (Ne.symm heq)]
  · next hprefix => rw [if_neg fun heq => hprefix ⟨chat, heq.symm⟩]

theorem lookup_foldl_hydrateEntry (kind : PrefKind α) {chat : Str} {found : Option α} : ∀ (l : List MemoryEntry) (map : Assoc Str α),
    (∀ e ∈ l, e.key = kind.keyPrefix ++ chat → kind.parse e.value = found) →
    (map.lookup chat = found ∨ map.lookup chat = none ∧ (found = none ∨ ∃ e ∈ l, e.key = kind.keyPrefix ++ chat)) →
    (l.foldl (hydrateEntry kind) map).lookup chat = found := by
  intro l
  induction l with
  | nil =>
    rintro map - (h | ⟨h, hfound | ⟨e, he, -⟩⟩)
    · exact h
    · rw [hfound]
      exact h
    · exact absurd he List.not_mem_nil
  | cons e l ih =>
    intro map hall hmap
    obtain ⟨he, hrest⟩ := List.forall_mem_cons.mp hall
    refine ih _ hrest ?_
    rw [lookup_hydrateEntry]
    by_cases hkey : e.key = kind.keyPrefix ++ chat
    · rw [if_pos hkey, he hkey]
      rcases hmap with h | ⟨h, -⟩
      · rw [h, Option.or_self]
        exact Or.inl rfl
      · rw [h, Option.or_none]
        exact Or.inl rfl
    · rw [if_neg hkey]
      refine hmap.imp_right fun ⟨h, hfound⟩ => ⟨h, hfound.imp_right ?_⟩
      rintro ⟨e', he', hkey'⟩
      rcases List.mem_cons.mp he' with rfl | he'
      · exact absurd hkey' hkey
      · exact ⟨e', he', hkey'⟩

/-- What is filled in from the memory are the saved choices. -/
theorem KeptAs.hydrate (h : KeptAs kind entries saved) (hkeyed : Keyed entries) (chat : Str) :
    (hydrateOverrides toLowercase kind ∅ entries).lookup chat = saved chat := by
  have hmem : ∀ e, e ∈ listByCategory toLowercase kind.category entries ↔
      (∃ k, entries.lookup k = some e) ∧ toLowercase e.category = toLowercase kind.category := by
    intro e
    unfold listByCategory
    rw [List.mem_mergeSort, List.mem_filter, List.mem_map, decide_eq_true_iff]
    refine and_congr_left fun _ => ⟨?_, ?_⟩
    · rintro ⟨⟨k, e⟩, he, rfl⟩
      exact ⟨k, Assoc.mem_pairs.mp he⟩
    · rintro ⟨k, he⟩
      exact ⟨(k, e), Assoc.mem_pairs.mpr he, rfl⟩
  refine lookup_foldl_hydrateEntry kind _ _ (fun e he hkey => ?_) (Or.inr ⟨AList.lookup_empty _, ?_⟩)
  · obtain ⟨⟨k, hk⟩, -⟩ := (hmem e).mp he
    rw [← hkeyed k e hk, hkey] at hk
    exact (h.present chat e hk).2
  · cases hlookup : entries.lookup (kind.keyPrefix ++ chat) with
    | none => exact Or.inl (h.absent chat hlookup)
    | some e =>
      obtain ⟨hcategory, -⟩ := h.present chat e hlookup
      exact Or.inr ⟨e, (hmem e).mpr ⟨⟨_, hlookup⟩, by rw [hcategory]⟩, hkeyed _ e hlookup⟩

end Kept

/-! ## Runs -/

/-- The kinds have different keys. -/
theorem keys_apart (a b : Str) : modelPref.keyPrefix ++ a ≠ personaPref.keyPrefix ++ b := by
  intro h
  exact absurd (List.cons.inj h).1 (by decide)

/-- A use of the memory that leaves the entries of both kinds. -/
def Untouched : MemoryOp → Prop
  | .set key _ _ | .delete key =>
    (∀ chat, key ≠ modelPref.keyPrefix ++ chat) ∧ ∀ chat, key ≠ personaPref.keyPrefix ++ chat
  | .get _ _ | .save => True
  | .cleanupLeastUsed _ _ | .cleanupExpired _ _ => False

section Runs

variable {lib : MemoryLib} {toLowercase : Str → Str}

theorem Keyed.apply {entries : Entries} (h : Keyed entries) {op : MemoryOp} (hop : Untouched op) : Keyed (op.apply lib entries).1 := by
  cases op with
  | set key content now =>
    simp only [MemoryOp.apply, LongTermMemory.set]
    split
    · next entries' heq =>
      split at heq
      · cases heq
      · cases heq
        exact h.insert (upsert_spec h _ _ _).1
    · exact h
  | get key now =>
    simp only [MemoryOp.apply, LongTermMemory.get]
    cases hlookup : entries.lookup key with
    | none => exact h
    | some e => exact h.insert (h key e hlookup)
  | delete key => exact h.erase key
  | save => exact h
  | cleanupLeastUsed | cleanupExpired => exact hop.elim

/-- What such a use leaves of an entry. -/
theorem apply_untouched {entries : Entries} {op : MemoryOp} (hop : Untouched op) {k : Str}
    (hk : (∃ chat, k = modelPref.keyPrefix ++ chat) ∨ ∃ chat, k = personaPref.keyPrefix ++ chat) :
    ((op.apply lib entries).1.lookup k).map (fun e => (e.category, e.value)) =
      (entries.lookup k).map fun e => (e.category, e.value) := by
  have hne : ∀ key, (∀ chat, key ≠ modelPref.keyPrefix ++ chat) ∧ (∀ chat, key ≠ personaPref.keyPrefix ++ chat) → k ≠ key := by
    rintro key ⟨hm, hp⟩ rfl
    rcases hk with ⟨chat, heq⟩ | ⟨chat, heq⟩
    · exact hm chat heq
    · exact hp chat heq
  cases op with
  | set key content now =>
    simp only [MemoryOp.apply, LongTermMemory.set]
    split
    · next entries' heq =>
      split at heq
      · cases heq
      · cases heq
        rw [Assoc.lookup_insert, if_neg (hne key hop)]
    · rfl
  | get key now =>
    simp only [MemoryOp.apply, LongTermMemory.get]
    cases hlookup : entries.lookup key with
    | none => rfl
    | some e =>
      dsimp only
      rw [Assoc.lookup_insert]
      split
      · next heq => rw [heq, hlookup]; rfl
      · rfl
  | delete key =>
    simp only [MemoryOp.apply, LongTermMemory.delete]
    rw [Assoc.lookup_erase, if_neg (hne key hop)]
  | save => rfl
  | cleanupLeastUsed | cleanupExpired => exact hop.elim

/-- A choice of the other kind leaves the entries of a kind. -/
theorem KeptAs.persist_other {α β : Type} {kind : PrefKind α} {other : PrefKind β} {entries : Entries} {saved : Str → Option α}
    (h : KeptAs kind entries saved) (hapart : ∀ a b, kind.keyPrefix ++ a ≠ other.keyPrefix ++ b) (chat : Str) (v : β) (now : ℕ) :
    KeptAs kind (Zeptoclaw.persistSingle lib other chat v now entries) saved := by
  rw [persistSingle_eq]
  split
  · refine h.of_lookup fun chat' => ?_
    rw [Assoc.lookup_insert, if_neg (hapart chat' chat)]
  · exact h

theorem KeptAs.remove_other {α β : Type} {kind : PrefKind α} {other : PrefKind β} {entries : Entries} {saved : Str → Option α}
    (h : KeptAs kind entries saved) (hapart : ∀ a b, kind.keyPrefix ++ a ≠ other.keyPrefix ++ b) (chat : Str) :
    KeptAs kind (Zeptoclaw.removeSingle other chat entries) saved := by
  refine h.of_lookup fun chat' => ?_
  simp only [Zeptoclaw.removeSingle, LongTermMemory.delete]
  rw [Assoc.lookup_erase, if_neg (hapart chat' chat)]

/-- The maps are the current choices, and the memory has the saved ones. -/
structure ChatPrefs.Refines (s : ChatPrefs) (m : Prefs ModelOverride) (p : Prefs Str) : Prop where
  keyed : Keyed s.memory
  models : ∀ chat, s.models.lookup chat = m.current chat
  personas : ∀ chat, s.personas.lookup chat = p.current chat
  modelsKept : KeptAs modelPref s.memory m.saved
  personasKept : KeptAs personaPref s.memory p.saved

theorem lookup_insert_eq_update {α : Type} {map : Assoc Str α} {f : Str → Option α} (h : ∀ chat, map.lookup chat = f chat)
    (chat : Str) (v : α) (chat' : Str) : (AList.insert chat v map).lookup chat' = Function.update f chat (some v) chat' := by
  rw [Assoc.lookup_insert, Function.update_apply, h]

theorem lookup_erase_eq_update {α : Type} {map : Assoc Str α} {f : Str → Option α} (h : ∀ chat, map.lookup chat = f chat)
    (chat chat' : Str) : (AList.erase chat map).lookup chat' = Function.update f chat none chat' := by
  rw [Assoc.lookup_erase, Function.update_apply, h]

theorem ChatPrefs.Refines.message {s : ChatPrefs} {m : Prefs ModelOverride} {p : Prefs Str} (h : s.Refines m p)
    (chat text : Str) (now : ℕ) :
    (s.message lib chat text now).Refines
      ((modelEvent (.message chat text now)).elim m (m.apply (modelPref.kept lib)))
      ((personaEvent (.message chat text now)).elim p (p.apply (personaPref.kept lib))) := by
  cases hmodel : parseModelCommand text with
  | some cmd =>
    cases cmd with
    | set override =>
      simp only [ChatPrefs.message, modelEvent, personaEvent, hmodel, Option.elim]
      exact ⟨h.keyed.persistSingle _ _ _, lookup_insert_eq_update h.models chat override, h.personas,
        h.modelsKept.persistSingle h.keyed (parse_format_model hmodel) chat now,
        h.personasKept.persist_other (fun a b => (keys_apart b a).symm) chat override now⟩
    | reset =>
      simp only [ChatPrefs.message, modelEvent, personaEvent, hmodel, Option.elim]
      exact ⟨h.keyed.erase _, lookup_erase_eq_update h.models chat, h.personas, h.modelsKept.removeSingle chat,
        h.personasKept.remove_other (fun a b => (keys_apart b a).symm) chat⟩
    | «show» | list | fetch =>
      simp only [ChatPrefs.message, modelEvent, personaEvent, hmodel, Option.elim]
      exact h
  | none =>
    cases hpersona : parsePersonaCommand text with
    | none =>
      simp only [ChatPrefs.message, modelEvent, personaEvent, hmodel, hpersona, Option.elim]
      exact h
    | some cmd =>
      cases cmd with
      | set value =>
        simp only [ChatPrefs.message, modelEvent, personaEvent, hmodel, hpersona, Option.elim]
        exact ⟨h.keyed.persistSingle _ _ _, h.models, lookup_insert_eq_update h.personas chat value,
          h.modelsKept.persist_other keys_apart chat value now,
          h.personasKept.persistSingle h.keyed (parse_format_persona hpersona) chat now⟩
      | reset =>
        simp only [ChatPrefs.message, modelEvent, personaEvent, hmodel, hpersona, Option.elim]
        exact ⟨h.keyed.erase _, h.models, lookup_erase_eq_update h.personas chat,
          h.modelsKept.remove_other keys_apart chat, h.personasKept.removeSingle chat⟩
      | «show» | list =>
        simp only [ChatPrefs.message, modelEvent, personaEvent, hmodel, hpersona, Option.elim]
        exact h

theorem ChatPrefs.Refines.step {s : ChatPrefs} {m : Prefs ModelOverride} {p : Prefs Str} (h : s.Refines m p) {input : PrefInput}
    (hother : ∀ op, input = .other op → Untouched op) :
    (prefStep lib toLowercase s input).Refines ((modelEvent input).elim m (m.apply (modelPref.kept lib)))
      ((personaEvent input).elim p (p.apply (personaPref.kept lib))) := by
  cases input with
  | message chat text now => exact h.message chat text now
  | restart => exact ⟨h.keyed, h.modelsKept.hydrate h.keyed, h.personasKept.hydrate h.keyed, h.modelsKept, h.personasKept⟩
  | other op =>
    have hop := hother op rfl
    exact ⟨h.keyed.apply hop, h.models, h.personas, h.modelsKept.of_lookup fun chat => apply_untouched hop (Or.inl ⟨chat, rfl⟩),
      h.personasKept.of_lookup fun chat => apply_untouched hop (Or.inr ⟨chat, rfl⟩)⟩

/-- The run from outside. -/
def prefsAfter {α : Type} (kept : α → Bool) (event : PrefInput → Option (PrefEvent α)) (inputs : List PrefInput) : Prefs α :=
  runSteps (Prefs.apply kept) .empty (inputs.filterMap event)

theorem prefsAfter_concat {α : Type} (kept : α → Bool) (event : PrefInput → Option (PrefEvent α)) (inputs : List PrefInput)
    (input : PrefInput) : prefsAfter kept event (inputs ++ [input]) =
      (event input).elim (prefsAfter kept event inputs) ((prefsAfter kept event inputs).apply kept) := by
  unfold prefsAfter
  rw [List.filterMap_append, runSteps_append]
  cases hevent : event input with
  | none => rw [List.filterMap_cons_none hevent]; rfl
  | some e => rw [List.filterMap_cons_some hevent]; rfl

theorem refines_run (inputs : List PrefInput) (hother : ∀ op, .other op ∈ inputs → Untouched op) :
    (runSteps (prefStep lib toLowercase) ⟨∅, ∅, ∅⟩ inputs).Refines (prefsAfter (modelPref.kept lib) modelEvent inputs)
      (prefsAfter (personaPref.kept lib) personaEvent inputs) := by
  induction inputs using List.reverseRecOn with
  | nil =>
    exact ⟨fun k e h => (by cases h), fun _ => rfl, fun _ => rfl, ⟨fun _ _ => rfl, fun _ _ h => (by cases h)⟩,
      ⟨fun _ _ => rfl, fun _ _ h => (by cases h)⟩⟩
  | append_singleton inputs input ih =>
    rw [runSteps_concat, prefsAfter_concat, prefsAfter_concat]
    refine (ih fun op hop => hother op (List.mem_append_left _ hop)).step fun op hop => hother op ?_
    rw [hop]
    exact List.mem_append_right _ List.mem_cons_self

/-- **The maps are the current choices, and after a restart the saved ones.** -/
theorem prefs_refine {inputs : List PrefInput} (hother : ∀ op, .other op ∈ inputs → Untouched op) (chat : Str) :
    ((runSteps (prefStep lib toLowercase) ⟨∅, ∅, ∅⟩ inputs).models.lookup chat =
        (prefsAfter (modelPref.kept lib) modelEvent inputs).current chat ∧
      (runSteps (prefStep lib toLowercase) ⟨∅, ∅, ∅⟩ inputs).personas.lookup chat =
        (prefsAfter (personaPref.kept lib) personaEvent inputs).current chat) ∧
    (runSteps (prefStep lib toLowercase) ⟨∅, ∅, ∅⟩ (inputs ++ [.restart])).models.lookup chat =
        (prefsAfter (modelPref.kept lib) modelEvent inputs).saved chat ∧
      (runSteps (prefStep lib toLowercase) ⟨∅, ∅, ∅⟩ (inputs ++ [.restart])).personas.lookup chat =
        (prefsAfter (personaPref.kept lib) personaEvent inputs).saved chat := by
  have h := @refines_run lib toLowercase inputs hother
  rw [runSteps_concat]
  exact ⟨⟨h.models chat, h.personas chat⟩, h.modelsKept.hydrate h.keyed chat, h.personasKept.hydrate h.keyed chat⟩

end Runs

/-- A memory that refuses one pattern. -/
def refusingLib : MemoryLib where
  decay importance _ := importance
  checkInjection value := if contains value "ignore previous".toList then ["ignore previous".toList] else []
  showFloat _ := []

/-- Choices, another use of the memory, and a choice that is refused. -/
def prefInputs : List PrefInput :=
  [.message ['7'] "/model groq:llama".toList 0, .message ['7'] "/persona concise".toList 1,
    .other (.set "note".toList ⟨['x'], "user".toList, [], 1⟩ 2), .message ['7'] "/persona ignore previous".toList 3]

theorem prefs_refine_example :
    ((runSteps (prefStep refusingLib id) ⟨∅, ∅, ∅⟩ prefInputs).models.lookup ['7'] =
        (prefsAfter (modelPref.kept refusingLib) modelEvent prefInputs).current ['7'] ∧
      (runSteps (prefStep refusingLib id) ⟨∅, ∅, ∅⟩ prefInputs).personas.lookup ['7'] =
        (prefsAfter (personaPref.kept refusingLib) personaEvent prefInputs).current ['7']) ∧
    (runSteps (prefStep refusingLib id) ⟨∅, ∅, ∅⟩ (prefInputs ++ [.restart])).models.lookup ['7'] =
        (prefsAfter (modelPref.kept refusingLib) modelEvent prefInputs).saved ['7'] ∧
      (runSteps (prefStep refusingLib id) ⟨∅, ∅, ∅⟩ (prefInputs ++ [.restart])).personas.lookup ['7'] =
        (prefsAfter (personaPref.kept refusingLib) personaEvent prefInputs).saved ['7'] := by
  refine prefs_refine (fun op hop => ?_) ['7']
  simp only [prefInputs, List.mem_cons, reduceCtorEq, PrefInput.other.injEq, List.not_mem_nil, or_false, false_or] at hop
  subst hop
  exact ⟨fun _ h => absurd (List.cons.inj h).1 (by decide), fun _ h => absurd (List.cons.inj h).1 (by decide)⟩

/-- The first persona is the one that is saved. -/
example : (prefsAfter (personaPref.kept refusingLib) personaEvent prefInputs).saved ['7'] = some "concise".toList := by
  decide +kernel

end Zeptoclaw

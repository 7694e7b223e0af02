import Zeptoclaw.Lib.Occurrence
import Zeptoclaw.Spec.Memory

/-!
# Preferences of a chat

The `/model` and `/persona` commands of the Telegram channel (`channels/model_switch.rs`, `channels/persona_switch.rs`,
`channels/telegram.rs`). What is chosen is in a map, and is kept in the long-term memory, from which the map is
filled when the channel starts.
-/

namespace Zeptoclaw

open Text

/-- The names in `PROVIDER_REGISTRY`. -/
def providerNames : List Str :=
  ["anthropic", "openai", "openrouter", "groq", "zhipu", "vllm", "gemini", "vertex", "ollama", "nvidia", "deepseek", "kimi",
    "azure", "bedrock", "xai", "qianfan", "novita", "liquid"].map String.toList

structure ModelOverride where
  provider : Option Str
  model : Str
  deriving DecidableEq, Repr

/-! ## Commands -/

inductive ModelCommand where
  | show
  | set (override : ModelOverride)
  | reset
  | list
  | fetch
  deriving DecidableEq, Repr

inductive PersonaCommand where
  | show
  | set (value : Str)
  | reset
  | list
  deriving DecidableEq, Repr

/-- What follows the command; `none` if the text is another command. -/
def commandArgument (command text : Str) : Option Str :=
  let trimmed := trim text
  if trimmed = command then some []
  else if command ++ [' '] <+: trimmed then some (trim (trimmed.drop (command.length + 1)))
  else none

/-- `provider:model`, if what is before the first colon names a provider. -/
def splitOverride (arg : Str) : ModelOverride :=
  match cutFirst [':'] arg with
  | some (left, right) => if left ∈ providerNames then ⟨some left, right⟩ else ⟨none, arg⟩
  | none => ⟨none, arg⟩

def parseModelCommand (text : Str) : Option ModelCommand :=
  (commandArgument "/model".toList text).map fun rest =>
    if rest = [] then .show
    else if rest = "reset".toList then .reset
    else if rest = "list".toList then .list
    else if rest = "fetch".toList then .fetch
    else .set (splitOverride rest)

def parsePersonaCommand (text : Str) : Option PersonaCommand :=
  (commandArgument "/persona".toList text).map fun rest =>
    if rest = [] then .show
    else if rest = "reset".toList then .reset
    else if rest = "list".toList then .list
    else .set rest

/-! ## What is kept -/

/-- A kind of preference: how the long-term memory keeps it. -/
structure PrefKind (α : Type) where
  category : Str
  keyPrefix : Str
  format : α → Str
  parse : Str → Option α

/-- `MODEL_PREF_CATEGORY` and `MODEL_PREF_PREFIX`, the text of `persist_single`, and `parse_override_value`. -/
def modelPref : PrefKind ModelOverride where
  category := "model_pref".toList
  keyPrefix := "model_pref:".toList
  format override :=
    match override.provider with
    | some provider => provider ++ ':' :: override.model
    | none => override.model
  parse value := if value = [] then none else some (splitOverride value)

/-- `PERSONA_PREF_CATEGORY` and `PERSONA_PREF_PREFIX`; the text is the value. -/
def personaPref : PrefKind Str where
  category := "persona_pref".toList
  keyPrefix := "persona_pref:".toList
  format value := value
  parse value := if value = [] then none else some value

section Kept

variable {α : Type} (lib : MemoryLib) (toLowercase : Str → Str) (kind : PrefKind α)

/-- `persist_single`: an entry that the memory refuses is passed over. -/
def persistSingle (chat : Str) (v : α) (now : ℕ) (entries : Entries) : Entries :=
  match LongTermMemory.set lib entries (kind.keyPrefix ++ chat) ⟨kind.format v, kind.category, [], 1 / 5⟩ now with
  | .ok entries => entries
  | .error _ => entries

/-- `remove_single`. -/
def removeSingle (chat : Str) (entries : Entries) : Entries := (LongTermMemory.delete entries (kind.keyPrefix ++ chat)).1

/-- `LongTermMemory::list_by_category`. -/
def listByCategory (category : Str) (entries : Entries) : List MemoryEntry :=
  ((entries.pairs.map Prod.snd).filter fun e => toLowercase e.category = toLowercase category).mergeSort
    fun a b => decide (b.lastAccessed ≤ a.lastAccessed)

/-- One entry of the memory. -/
def hydrateEntry (map : Assoc Str α) (e : MemoryEntry) : Assoc Str α :=
  if kind.keyPrefix <+: e.key then
    match kind.parse e.value with
    | some v => map.insert (e.key.drop kind.keyPrefix.length) v
    | none => map
  else map

/-- `hydrate_overrides`. -/
def hydrateOverrides (map : Assoc Str α) (entries : Entries) : Assoc Str α :=
  (listByCategory toLowercase kind.category entries).foldl (hydrateEntry kind) map

end Kept

/-! ## The channel -/

structure ChatPrefs where
  models : Assoc Str ModelOverride
  personas : Assoc Str Str
  memory : Entries

inductive PrefInput where
  -- a message in a chat, or in a topic of one
  | message (chat text : Str) (now : ℕ)
  -- the channel is started by another process
  | restart
  -- another use of the long-term memory
  | other (op : MemoryOp)

/-- The handler of messages, as far as the two commands go. -/
def ChatPrefs.message (lib : MemoryLib) (s : ChatPrefs) (chat text : Str) (now : ℕ) : ChatPrefs :=
  match parseModelCommand text with
  | some (.set override) =>
    { s with
      models := s.models.insert chat override
      memory := persistSingle lib modelPref chat override now s.memory }
  | some .reset => { s with models := s.models.erase chat, memory := removeSingle modelPref chat s.memory }
  | some _ => s
  | none =>
    match parsePersonaCommand text with
    | some (.set value) =>
      { s with
        personas := s.personas.insert chat value
        memory := persistSingle lib personaPref chat value now s.memory }
    | some .reset => { s with personas := s.personas.erase chat, memory := removeSingle personaPref chat s.memory }
    | _ => s

def prefStep (lib : MemoryLib) (toLowercase : Str → Str) (s : ChatPrefs) : PrefInput → ChatPrefs
  | .message chat text now => s.message lib chat text now
  | .restart =>
    { s with
      models := hydrateOverrides toLowercase modelPref ∅ s.memory
      personas := hydrateOverrides toLowercase personaPref ∅ s.memory }
  | .other op => { s with memory := (op.apply lib s.memory).1 }

end Zeptoclaw

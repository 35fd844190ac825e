import StrategyForm.Settings
import StrategyForm.Settings.Environment

/-!
# Loading settings

Settings are read from three layers, each over the one before: built-in values, a file, and the
environment. A setting that no layer has keeps its built-in value, whatever the other settings are.
A record may also be given as the list of its fields in their declared order.
-/

namespace StrategyForm

/-- A field of a record of settings: its name, and how a tree changes the record. -/
structure SettingSlot (ρ : Type) where
  name : String
  set : SettingTree → Option (ρ → ρ)

namespace SettingTree
variable {ρ α : Type}

/-- A field that is read in a certain way. -/
def slot (name : String) (read : SettingTree → Option α) (put : α → ρ → ρ) : SettingSlot ρ :=
  ⟨name, fun t => (read t).map put⟩

/-- The fields of a record that a table has. -/
def fill (slots : List (SettingSlot ρ)) (entries : List (String × SettingTree)) (record : ρ) :
    Option ρ :=
  slots.foldlM
    (fun record slot =>
      match Keyed.find slot.name entries with
      | none => some record
      | some t => (slot.set t).map (· record))
    record

/-- The fields of a record that a list has. -/
def fillInOrder (slots : List (SettingSlot ρ)) (items : List SettingTree) (record : ρ) : Option ρ :=
  (slots.zip items).foldlM (fun record (slot, t) => (slot.set t).map (· record)) record

/-- A record with these fields; absent ones are those of the blank record. -/
def asRecord? (slots : List (SettingSlot ρ)) (blank : ρ) : SettingTree → Option ρ
  | table entries => fill slots entries blank
  | list items => fillInOrder slots items blank
  | _ => none

/-- An unsigned number of 64 bits. -/
def asWord64? (t : SettingTree) : Option UInt64 :=
  t.asNumber?.bind fun n => if n < 0x10000000000000000 then some (UInt64.ofNat n) else none

/-- An unsigned number of 32 bits. -/
def asWord32? (t : SettingTree) : Option UInt32 :=
  t.asNumber?.bind fun n => if n < 0x100000000 then some (UInt32.ofNat n) else none

end SettingTree

open SettingTree (slot asText? asWord64? asWord32? asRecord?)

def ApiSettings.settingSlots : List (SettingSlot ApiSettings) :=
  [ slot "base_url" asText? fun v s => { s with baseUrl := v },
    slot "timeout_secs" asWord64? fun v s => { s with timeoutSecs := v },
    slot "max_retries" asWord32? fun v s => { s with maxRetries := v },
    slot "retry_backoff_ms" asWord64? fun v s => { s with retryBackoffMs := v } ]

def CacheSettings.settingSlots : List (SettingSlot CacheSettings) :=
  [slot "ttl_secs" asWord64? fun v s => { s with ttlSecs := v }]

def LogSettings.settingSlots : List (SettingSlot LogSettings) :=
  [ slot "level" asText? fun v s => { s with level := v },
    slot "format" asText? fun v s => { s with format := v } ]

namespace Settings

def settingSlots : List (SettingSlot Settings) :=
  [ slot "api" (asRecord? ApiSettings.settingSlots {}) fun v s => { s with api := v },
    slot "cache" (asRecord? CacheSettings.settingSlots {}) fun v s => { s with cache := v },
    slot "logging" (asRecord? LogSettings.settingSlots {}) fun v s => { s with logging := v } ]

/-- The settings that a tree describes. -/
def ofTree? (t : SettingTree) : Option Settings := asRecord? settingSlots {} t

/-- The layer under all others. -/
def builtIn : SettingTree :=
  .overlay (.table [])
    [ ("api.base_url", .text ({} : ApiSettings).baseUrl),
      ("cache.ttl_secs", .whole ({} : CacheSettings).ttlSecs.toNat) ]

/-- All layers as one tree. -/
def layered (file : List (String × SettingTree)) (env : Environment) : SettingTree :=
  (builtIn.overlay file).overlay env.settings

/-- The settings of a file's entries and the environment. -/
def ofLayers? (file : List (String × SettingTree)) (env : Environment) : Option Settings :=
  ofTree? (layered file env)

end Settings

end StrategyForm

import Kross.Config.ModelProfiles
import Kross.Crash
import Kross.JsonIndented
import Kross.Persistence.Migration
import Kross.Run
import Kross.Utf8

namespace Kross.Config

open Kross.Json Kross.Device

/-- What is at the path of the configuration, if there is a file. -/
abbrev Disk := Option (List UInt8)

section Loading

def readJsonFile (bytes : List UInt8) : Option Value := parse (Utf8.decode bytes)

def assertSupportedConfigVersion (config : Option Value) : Except ConfigError Unit :=
  match member "version" config with
  | some version => if Persistence.isCurrent version then .ok () else .error (.unsupportedVersion version)
  | none => .ok ()

def assertNativeMultiModelConfig (config : Option Value) : Except ConfigError Unit :=
  if (member "llm" config).isSome then .error .singleModelField else .ok ()

/-- Text that is no JSON is loaded as if there were no file. -/
def loadKrossConfig : Disk → Except ConfigError (Option Value)
  | none => .ok none
  | some bytes => do
      let config := readJsonFile bytes
      assertSupportedConfigVersion config
      assertNativeMultiModelConfig config
      return config

end Loading

section Updates

inductive ExternalAgentSource
  | claude
  | codex

def ExternalAgentSource.text : ExternalAgentSource → String
  | .claude => "claude"
  | .codex => "codex"

/-- `now` is the time as it is written. -/
inductive Update
  | save (input : ProfileInput)
  | activate (profileId : String) (thinkingEffort : Option String)
  | updateActive (patch : ImportedLlmConfig)
  | importAgent (source : ExternalAgentSource) (displayName : String) (config : ImportedLlmConfig) (now : String)
  | locale (value : String)
  | skipImport (now : String)

def importedInput (source : ExternalAgentSource) (displayName : String) (config : ImportedLlmConfig) : ProfileInput :=
  ⟨some ("imported-" ++ source.text), displayName, config⟩

def isAppLocale (locale : String) : Bool := locale = "zh" || locale = "en"

def updateKrossLocale (locale : String) (existing : Option Value) : Except ConfigError Fields :=
  if isAppLocale locale then .ok ((spread existing).put "locale" (.str locale))
  else .error (.unsupportedLocale locale)

def markConfigImportSkipped (now : String) (existing : Option Value) : Fields :=
  (spread existing).put "setup"
    (.obj ((spread (member "setup" existing)).put "importPromptDismissedAt" (.str now)))

def withImport (source : ExternalAgentSource) (now : String) (saved : Fields) : Fields :=
  saved.put "setup"
    (.obj (((spread (saved.get "setup")).put "importedFrom" (.str source.text)).put "importedAt" (.str now)))

variable (sha256 : String → String)

/-- The configurations that an update writes, one after the other. -/
def Update.configs (file : Option Value) : Update → Except ConfigError (List Fields)
  | .save input => (upsertKrossModelProfile sha256 input file).map ([·])
  | .activate profileId thinkingEffort => (setActiveKrossModelProfile profileId thinkingEffort file).map ([·])
  | .updateActive patch => (updateActiveKrossModelProfile sha256 patch file).map ([·])
  | .importAgent source displayName config now => do
      let saved ← upsertKrossModelProfile sha256 (importedInput source displayName config) file
      return [saved, withImport source now saved]
  | .locale value => (updateKrossLocale value file).map ([·])
  | .skipImport now => .ok [markConfigImportSkipped now file]

inductive Action
  | makeDirectory
  | write (bytes : List UInt8)
  | restrict

/-- The file is opened anew, and is cut short by a crash that comes before its last byte. -/
instance : Device Action Disk where
  apply
    | .write bytes, _ => some bytes
    | .makeDirectory, disk | .restrict, disk => disk
  tear
    | n, .write bytes, _ => some (bytes.dropLast.take n)
    | _, .makeDirectory, disk | _, .restrict, disk => disk

/-- `{ ...config, version: 1 }` as it is read back. -/
def written (config : Fields) : Fields := (config.put "version" Persistence.versionOne).stored

def bytesOf (config : Fields) : List UInt8 := Utf8.encode (renderIndented 0 (.obj (written config)) ++ ['\n'])

def writeKrossConfig (config : Fields) : List Action := [.makeDirectory, .write (bytesOf config), .restrict]

def outcome (u : Update) (disk : Disk) : Except ConfigError (List Fields) := do
  let file ← loadKrossConfig disk
  u.configs sha256 file

def actions (u : Update) (disk : Disk) : List Action :=
  match outcome sha256 u disk with
  | .ok configs => configs.flatMap writeKrossConfig
  | .error _ => []

inductive Event
  | update (u : Update)
  | crash (u : Update) (done bytes : Nat)

def next (disk : Disk) : Event → Disk
  | .update u => perform (actions sha256 u disk) disk
  | .crash u done bytes => interrupt done bytes (actions sha256 u disk) disk

end Updates

section Frame

/-- What a file holds, if it can be read. -/
def content : Disk → Option (Option Value)
  | none => some none
  | some bytes => (readJsonFile bytes).map some

def Update.about : Update → List String
  | .save _ | .activate _ _ | .updateActive _ => ["version", "models"]
  | .importAgent _ _ _ _ => ["version", "models", "setup"]
  | .locale _ => ["version", "locale"]
  | .skipImport _ => ["version", "setup"]

def Update.setup : Update → Option (List String)
  | .importAgent _ _ _ _ => some ["importedFrom", "importedAt"]
  | .skipImport _ => some ["importPromptDismissedAt"]
  | .save _ | .activate _ _ | .updateActive _ | .locale _ => none

def modelKeys : List String := ["activeProfileId", "profiles"]

variable (sha256 : String → String)

/-- The id of the profile that an update saves or activates. -/
def Update.target (file : Option Value) : Update → Option String
  | .save input => some (requestedId sha256 input)
  | .activate profileId _ => some profileId
  | .updateActive patch => match activeInput patch file with
    | .ok input => some (requestedId sha256 input)
    | .error _ => none
  | .importAgent source displayName config _ => some (requestedId sha256 (importedInput source displayName config))
  | .locale _ | .skipImport _ => none

def profileList (config : Option Value) : List Value := (spread (profilesOf config)).values

/-- The profiles but for the one with an id. -/
def others (id : String) (profiles : List Value) : List Value := profiles.eraseP (hasId id)

/-- All but what the update is about is as before. -/
structure Kept (u : Update) (old new : Option Value) : Prop where
  settings : ∀ key, key ∉ u.about → (spread new).get key = (spread old).get key
  models : ∀ id ∈ u.target sha256 old, ∀ key, key ∉ modelKeys →
    (spread (member "models" new)).get key = (spread (member "models" old)).get key
  profiles : ∀ id ∈ u.target sha256 old, others id (profileList new) = others id (profileList old)
  setup : ∀ keys ∈ u.setup, ∀ key, key ∉ keys →
    (spread (member "setup" new)).get key = (spread (member "setup" old)).get key

/-- What a configuration has to be for an update to keep the rest of it. -/
structure Safe (u : Update) (old : Option Value) : Prop where
  settings : ∀ key, key ∉ u.about → ∀ v ∈ (spread old).get key, v.isFinite = true
  models : ∀ id ∈ u.target sha256 old, ∀ key, key ∉ modelKeys → (spread (member "models" old)).get key = none
  profiles : ∀ id ∈ u.target sha256 old, SafeProfiles id (profilesOf old)
  setup : ∀ keys ∈ u.setup, ∀ key, key ∉ keys → ∀ v ∈ (spread (member "setup" old)).get key, v.isFinite = true

def Update.lastWrite : Update → Nat
  | .importAgent _ _ _ _ => 4
  | .save _ | .activate _ _ | .updateActive _ | .locale _ | .skipImport _ => 1

/-- An update fails and leaves the file alone, or keeps the rest of the
configuration; a crash leaves the old file or the new one. -/
def Keeps (disk : Disk) : Event → Prop
  | .update u => match outcome sha256 u disk with
    | .error _ => next sha256 disk (.update u) = disk
    | .ok _ => ∃ old new, content disk = some old ∧ content (next sha256 disk (.update u)) = some new ∧
        Kept sha256 u old new
  | .crash u done bytes => next sha256 disk (.crash u done bytes) = disk ∨
      next sha256 disk (.crash u done bytes) = next sha256 disk (.update u)

/-- An update that is not refused finds a file that it can read and write back,
and no crash comes between the first and the last byte that it writes. -/
def Undisturbed (disk : Disk) : Event → Prop
  | .update u => ∀ configs, outcome sha256 u disk = .ok configs → ∃ old, content disk = some old ∧ Safe sha256 u old
  | .crash u done _ => ∀ configs, outcome sha256 u disk = .ok configs → done = 0 ∨ u.lastWrite < done

end Frame

section Written

variable {key id : String} {config : Fields} {disk : Disk} {file old : Option Value}

theorem content_bytesOf (config : Fields) : content (some (bytesOf config)) = some (some (.obj (written config))) := by
  rw [content, readJsonFile, bytesOf, Utf8.decode_encode, parse_indented]
  rfl

theorem written_get (h : key ≠ "version") (config : Fields) :
    (written config).get key = (config.get key).map Value.stored := by
  rw [written, get_stored, get_put_ne h]

theorem stored_get {fields : Fields} (h : ∀ v ∈ fields.get key, v.isFinite = true) :
    (fields.get key).map Value.stored = fields.get key := by
  cases hget : fields.get key with
  | none => rfl
  | some v => rw [Option.map_some, Value.stored_finite v (h v hget)]

theorem load_content (h : loadKrossConfig disk = .ok file) (hold : content disk = some old) : file = old := by
  cases disk with
  | none =>
      cases h
      exact Option.some.inj hold
  | some bytes =>
      obtain ⟨-, -, h⟩ := of_bind_ok h
      obtain ⟨-, -, h⟩ := of_bind_ok h
      cases h
      obtain ⟨v, hv, hold⟩ := Option.map_eq_some_iff.mp hold
      rw [hv, hold]

theorem perform_writes (configs : List Fields) (config : Fields) (disk : Disk) :
    perform ((configs ++ [config]).flatMap writeKrossConfig) disk = some (bytesOf config) := by
  rw [List.flatMap_append, perform_append]
  rfl

theorem others_stored {profiles kept : List Value} (h : Beside id profiles kept) (hsingle : profiles.countP (hasId id) ≤ 1)
    (hfinite : ∀ p ∈ profiles, hasId id p = false → p.isFinite = true) :
    others id (kept.map Value.stored) = others id profiles := by
  have hsame : hasId id ∘ Value.stored = hasId id := funext (hasId_stored id)
  have hcount : (kept.map Value.stored).countP (hasId id) ≤ 1 := by
    rw [List.countP_map, hsame]
    exact h.single
  have hother : ((!hasId id ·) ∘ Value.stored) = (!hasId id ·) := by
    funext p
    exact congrArg _ (hasId_stored id p)
  have hself : ∀ p ∈ profiles.filter (!hasId id ·), p.stored = p := by
    intro p hp
    obtain ⟨hmem, hid⟩ := List.mem_filter.mp hp
    exact Value.stored_finite p (hfinite p hmem (by simpa using hid))
  rw [others, eraseP_eq_filter hcount, others, eraseP_eq_filter hsingle, List.filter_map, hother, h.rest,
    List.map_congr_left hself, List.map_id']

end Written

section Frames

variable {sha256 : String → String} {key id : String} {config : Fields} {u : Update} {old : Option Value}
  {profiles : List Value}

theorem models_written (h : config.get "models" = some (newModels id profiles)) :
    member "models" (some (.obj (written config))) =
      some (.obj (.cons "activeProfileId" (.str id) (.cons "profiles" (.arr (Items.ofList profiles).stored) .nil))) := by
  have hget := written_get (show "models" ≠ "version" by decide) config
  rw [h] at hget
  exact hget

theorem models_get (h : config.get "models" = some (newModels id profiles)) (hkey : key ∉ modelKeys) :
    (spread (member "models" (some (.obj (written config))))).get key = none := by
  have hactive : "activeProfileId" ≠ key := by
    rintro rfl
    exact hkey (by decide)
  have hprofiles : "profiles" ≠ key := by
    rintro rfl
    exact hkey (by decide)
  rw [models_written h]
  simp [spread, Fields.get, hactive, hprofiles]

theorem profileList_written (h : config.get "models" = some (newModels id profiles)) :
    profileList (some (.obj (written config))) = profiles.map Value.stored := by
  have hprofiles : profilesOf (some (.obj (written config))) = some (.arr (Items.ofList profiles).stored) := by
    rw [profilesOf, models_written h]
    rfl
  rw [profileList, hprofiles, spread, values_indexed, toList_stored, toList_ofList]

/-- A configuration that keeps the rest of another one does so when it is written. -/
theorem kept_written (hsafe : Safe sha256 u old) (hversion : "version" ∈ u.about)
    (hsettings : ∀ key, key ∉ u.about → config.get key = (spread old).get key)
    (hmodels : ∀ id ∈ u.target sha256 old, ∃ profiles, config.get "models" = some (newModels id profiles) ∧
      Beside id (profileList old) profiles)
    (hsetup : ∀ keys ∈ u.setup, ∃ fields, config.get "setup" = some (.obj fields) ∧
      ∀ key, key ∉ keys → fields.get key = (spread (member "setup" old)).get key) :
    Kept sha256 u old (some (.obj (written config))) where
  settings := by
    intro key hkey
    have hne : key ≠ "version" := by
      rintro rfl
      exact hkey hversion
    rw [spread, written_get hne, hsettings key hkey]
    exact stored_get (hsafe.settings key hkey)
  models := by
    intro id hid key hkey
    obtain ⟨profiles, hget, -⟩ := hmodels id hid
    rw [models_get hget hkey, hsafe.models id hid key hkey]
  profiles := by
    intro id hid
    obtain ⟨profiles, hget, hbeside⟩ := hmodels id hid
    obtain ⟨hsingle, hdurable⟩ := hsafe.profiles id hid
    rw [profileList_written hget]
    exact others_stored hbeside hsingle (fun p hp hne => (hdurable p hp hne).2.finite)
  setup := by
    intro keys hkeys key hkey
    obtain ⟨fields, hget, hfields⟩ := hsetup keys hkeys
    have hmember : member "setup" (some (.obj (written config))) = some (.obj fields.stored) := by
      have h := written_get (show "setup" ≠ "version" by decide) config
      rw [hget] at h
      exact h
    rw [hmember, spread, get_stored, hfields key hkey]
    exact stored_get (hsafe.setup keys hkeys key hkey)

theorem get_withModels (hkey : key ≠ "models") (id : String) (profiles : List Value) (file : Option Value) :
    (withModels id profiles file).get key = (spread file).get key := get_put_ne hkey _ _

theorem withModels_models (id : String) (profiles : List Value) (file : Option Value) :
    (withModels id profiles file).get "models" = some (newModels id profiles) := get_put _ _ _

theorem not_mem_about {keys : List String} {other : String} (hother : other ∈ keys) (hkey : key ∉ keys) : key ≠ other := by
  rintro rfl
  exact hkey hother

theorem kept_withModels (hsafe : Safe sha256 u old) (habout : u.about = ["version", "models"]) (hsetup : u.setup = none)
    (htarget : u.target sha256 old = some id) (hbeside : Beside id (profileList old) profiles) :
    Kept sha256 u old (some (.obj (written (withModels id profiles old)))) := by
  apply kept_written hsafe
  · rw [habout]
    decide
  · intro key hkey
    rw [habout] at hkey
    exact get_withModels (not_mem_about (by decide) hkey) id profiles old
  · intro i hi
    rw [htarget] at hi
    cases hi
    exact ⟨profiles, withModels_models id profiles old, hbeside⟩
  · intro keys hkeys
    rw [hsetup] at hkeys
    cases hkeys

theorem kept_import {source : ExternalAgentSource} {displayName now : String} {model : ImportedLlmConfig}
    (hsafe : Safe sha256 (.importAgent source displayName model now) old)
    (hid : requestedId sha256 (importedInput source displayName model) = id)
    (hbeside : Beside id (profileList old) profiles) :
    Kept sha256 (.importAgent source displayName model now) old
      (some (.obj (written (withImport source now (withModels id profiles old))))) := by
  have habout : (Update.importAgent source displayName model now).about = ["version", "models", "setup"] := rfl
  apply kept_written hsafe
  · rw [habout]
    decide
  · intro key hkey
    rw [habout] at hkey
    rw [withImport, get_put_ne (not_mem_about (by decide) hkey), get_withModels (not_mem_about (by decide) hkey)]
  · intro i hi
    rw [Update.target, hid] at hi
    cases hi
    refine ⟨profiles, ?_, hbeside⟩
    rw [withImport, get_put_ne (by decide)]
    exact withModels_models id profiles old
  · intro keys hkeys
    cases hkeys
    refine ⟨_, get_put _ _ _, ?_⟩
    intro key hkey
    rw [get_put_ne (not_mem_about (by decide) hkey), get_put_ne (not_mem_about (by decide) hkey),
      get_withModels (by decide), get_spread (show 's' ∈ "setup".toList by decide) (by decide)]

theorem kept_locale {value : String} (hsafe : Safe sha256 (.locale value) old) :
    Kept sha256 (.locale value) old (some (.obj (written ((spread old).put "locale" (.str value))))) := by
  have habout : (Update.locale value).about = ["version", "locale"] := rfl
  apply kept_written hsafe
  · rw [habout]
    decide
  · intro key hkey
    rw [habout] at hkey
    exact get_put_ne (not_mem_about (by decide) hkey) _ _
  · intro i hi
    cases hi
  · intro keys hkeys
    cases hkeys

theorem kept_skip {now : String} (hsafe : Safe sha256 (.skipImport now) old) :
    Kept sha256 (.skipImport now) old (some (.obj (written (markConfigImportSkipped now old)))) := by
  have habout : (Update.skipImport now).about = ["version", "setup"] := rfl
  apply kept_written hsafe
  · rw [habout]
    decide
  · intro key hkey
    rw [habout] at hkey
    exact get_put_ne (not_mem_about (by decide) hkey) _ _
  · intro i hi
    cases hi
  · intro keys hkeys
    cases hkeys
    refine ⟨_, get_put _ _ _, ?_⟩
    intro key hkey
    exact get_put_ne (not_mem_about (by decide) hkey) _ _

/-- The last configuration that an update writes keeps the rest of the one that it found. -/
theorem configs_kept {configs : List Fields} (hsafe : Safe sha256 u old) (h : u.configs sha256 old = .ok configs) :
    ∃ before config, configs = before ++ [config] ∧ Kept sha256 u old (some (.obj (written config))) := by
  cases u with
  | save input =>
      obtain ⟨config, hconfig, rfl⟩ := of_map_ok h
      obtain ⟨profiles, rfl, hbeside⟩ := upsert_beside hconfig (hsafe.profiles _ rfl)
      exact ⟨[], _, rfl, kept_withModels hsafe rfl rfl rfl hbeside⟩
  | activate profileId thinkingEffort =>
      obtain ⟨config, hconfig, rfl⟩ := of_map_ok h
      obtain ⟨profiles, rfl, hbeside⟩ := activate_beside hconfig (hsafe.profiles _ rfl)
      exact ⟨[], _, rfl, kept_withModels hsafe rfl rfl rfl hbeside⟩
  | updateActive patch =>
      obtain ⟨config, hconfig, rfl⟩ := of_map_ok h
      obtain ⟨input, hinput, hconfig⟩ := of_bind_ok hconfig
      have htarget : (Update.updateActive patch).target sha256 old = some (requestedId sha256 input) := by
        rw [Update.target, hinput]
      obtain ⟨profiles, rfl, hbeside⟩ := upsert_beside hconfig (hsafe.profiles _ htarget)
      exact ⟨[], _, rfl, kept_withModels hsafe rfl rfl htarget hbeside⟩
  | importAgent source displayName model now =>
      obtain ⟨config, hconfig, h⟩ := of_bind_ok h
      obtain ⟨profiles, rfl, hbeside⟩ := upsert_beside hconfig (hsafe.profiles _ rfl)
      cases h
      exact ⟨[_], _, rfl, kept_import hsafe rfl hbeside⟩
  | «locale» value =>
      obtain ⟨config, hconfig, rfl⟩ := of_map_ok h
      rw [updateKrossLocale] at hconfig
      split_ifs at hconfig
      cases hconfig
      exact ⟨[], _, rfl, kept_locale hsafe⟩
  | skipImport now =>
      cases h
      exact ⟨[], _, rfl, kept_skip hsafe⟩

end Frames

section Steps

variable {sha256 : String → String} {u : Update} {disk : Disk} {configs : List Fields}

theorem actions_ok (h : outcome sha256 u disk = .ok configs) : actions sha256 u disk = configs.flatMap writeKrossConfig := by
  rw [actions, h]

theorem actions_error {e : ConfigError} (h : outcome sha256 u disk = .error e) : actions sha256 u disk = [] := by
  rw [actions, h]

theorem update_keeps (h : Undisturbed sha256 disk (.update u)) : Keeps sha256 disk (.update u) := by
  rw [Keeps]
  cases houtcome : outcome sha256 u disk with
  | error e =>
      rw [next, actions_error houtcome]
      rfl
  | ok configs =>
      obtain ⟨old, hold, hsafe⟩ := h configs houtcome
      obtain ⟨file, hload, hconfigs⟩ := of_bind_ok houtcome
      cases load_content hload hold
      obtain ⟨before, config, rfl, hkept⟩ := configs_kept hsafe hconfigs
      refine ⟨_, _, hold, ?_, hkept⟩
      rw [next, actions_ok houtcome, perform_writes]
      exact content_bytesOf config

/-- What an update writes, and how often. -/
theorem configs_cases {file : Option Value} (h : u.configs sha256 file = .ok configs) :
    (∃ config, configs = [config] ∧ u.lastWrite = 1) ∨ ∃ saved config, configs = [saved, config] ∧ u.lastWrite = 4 := by
  cases u with
  | importAgent source displayName model now =>
      obtain ⟨saved, -, h⟩ := of_bind_ok h
      cases h
      exact Or.inr ⟨saved, _, rfl, rfl⟩
  | skipImport now =>
      cases h
      exact Or.inl ⟨_, rfl, rfl⟩
  | save | activate | updateActive | «locale» =>
      obtain ⟨config, -, rfl⟩ := of_map_ok h
      exact Or.inl ⟨config, rfl, rfl⟩

theorem crash_keeps {done bytes : Nat} (h : Undisturbed sha256 disk (.crash u done bytes)) :
    Keeps sha256 disk (.crash u done bytes) := by
  rw [Keeps, next, next]
  cases houtcome : outcome sha256 u disk with
  | error e =>
      rw [actions_error houtcome]
      left
      rw [interrupt, List.drop_nil]
      rfl
  | ok configs =>
      obtain ⟨file, hload, hconfigs⟩ := of_bind_ok houtcome
      rw [actions_ok houtcome]
      rcases h configs houtcome with rfl | hdone
      · left
        rcases configs_cases hconfigs with ⟨config, rfl, -⟩ | ⟨saved, config, rfl, -⟩ <;> rfl
      · right
        rcases configs_cases hconfigs with ⟨config, rfl, hlast⟩ | ⟨saved, config, rfl, hlast⟩
        · obtain ⟨n, rfl⟩ := Nat.exists_eq_add_of_le' (hlast ▸ hdone)
          cases n with
          | zero => rfl
          | succ n => exact interrupt_of_le (Nat.le_add_left 3 n) bytes
        · obtain ⟨n, rfl⟩ := Nat.exists_eq_add_of_le' (hlast ▸ hdone)
          cases n with
          | zero => rfl
          | succ n => exact interrupt_of_le (Nat.le_add_left 6 n) bytes

end Steps

section Samples

def profileOf (id : String) (credentials : List (String × Value)) : Value :=
  .obj (.ofList ([("id", .str id), ("name", .str id), ("provider", .str "openai"), ("model", .str "gpt")] ++ credentials))

def usable (id : String) : Value := profileOf id [("apiKey", .str "key")]

def configOf (profiles : List Value) : Value :=
  .obj (.ofList [("models", .obj (.ofList [("profiles", .arr (.ofList profiles))]))])

def diskOf (profiles : List Value) : Disk :=
  some (Utf8.encode (renderIndented 0 (configOf profiles) ++ ['\n']))

theorem content_diskOf (profiles : List Value) : content (diskOf profiles) = some (some (configOf profiles)) := by
  rw [diskOf, content, readJsonFile, Utf8.decode_encode, parse_indented]
  rfl

theorem load_diskOf (profiles : List Value) : loadKrossConfig (diskOf profiles) = .ok (some (configOf profiles)) := by
  rw [diskOf, loadKrossConfig, readJsonFile, Utf8.decode_encode, parse_indented]
  rfl

theorem profileList_configOf (profiles : List Value) : profileList (some (configOf profiles)) = profiles := by
  have hvalues : profileList (some (configOf profiles)) = (indexed 0 (Items.ofList profiles).toList).values := rfl
  rw [hvalues, values_indexed, toList_ofList]

end Samples

/-- Along a run whose updates find what they can write back, and whose crashes
hit no write, nothing else changes. -/
theorem updates_keep (sha256 : String → String) (disk : Disk) {events : List Event} (h : Run.Along (next sha256) (Undisturbed sha256) disk events) :
    Run.Along (next sha256) (Keeps sha256) disk events := by
  refine h.mono ?_
  intro disk event hevent
  cases event with
  | update u => exact update_keeps hevent
  | crash u done bytes => exact crash_keeps hevent

theorem usable_durable (id : String) : Durable (usable id) := ⟨rfl, rfl⟩

/-- A file without other settings is safe when the profiles are. -/
theorem safe_activate {profileId : String} {profiles : List Value}
    (hprofiles : SafeProfiles profileId (profilesOf (some (configOf profiles)))) :
    Safe (fun _ => "") (.activate profileId none) (some (configOf profiles)) where
  settings := by
    intro key hkey v hv
    have hkey : key ∉ ["version", "models"] := hkey
    have hnone : (spread (some (configOf profiles))).get key = none := if_neg (not_mem_about (by decide) hkey).symm
    rw [hnone] at hv
    cases hv
  models := by
    intro id _ key hkey
    exact if_neg (not_mem_about (by decide) hkey).symm
  profiles := by
    intro id hid
    cases hid
    exact hprofiles
  setup := by
    intro keys hkeys
    cases hkeys

theorem updates_keep_activate : Run.Along (next fun _ => "") (Keeps fun _ => "") (diskOf [usable "a", usable "b"])
    [.update (.activate "b" none), .crash (.locale "en") 0 0] := by
  apply updates_keep
  rw [Run.along_cons, Run.along_cons]
  refine ⟨fun configs _ => ⟨_, content_diskOf _, safe_activate ⟨?_, ?_⟩⟩, fun configs _ => Or.inl rfl, Run.along_nil⟩
  · exact Nat.le_refl 1
  · intro p hp _
    refine ⟨⟨_, rfl⟩, ?_⟩
    rw [show (spread (profilesOf (some (configOf [usable "a", usable "b"])))).values = [usable "a", usable "b"] from
      profileList_configOf _] at hp
    rcases List.mem_pair.mp hp with rfl | rfl
    · exact usable_durable "a"
    · exact usable_durable "b"

/-- The profile without credentials is gone. -/
theorem activation_drops : ¬ Run.Along (next fun _ => "") (Keeps fun _ => "") (diskOf [usable "a", profileOf "b" []])
    [.update (.activate "a" none)] := by
  intro h
  have houtcome : outcome (fun _ => "") (.activate "a" none) (diskOf [usable "a", profileOf "b" []]) =
      .ok [withModels "a" [usable "a"] (some (configOf [usable "a", profileOf "b" []]))] := by
    rw [outcome, load_diskOf]
    rfl
  rw [Run.along_cons, Keeps, houtcome] at h
  obtain ⟨⟨old, new, hold, hnew, hkept⟩, -⟩ := h
  rw [content_diskOf] at hold
  rw [next, actions_ok houtcome, ← List.nil_append [_], perform_writes, content_bytesOf] at hnew
  cases hold
  cases hnew
  have hprofiles := hkept.profiles "a" rfl
  rw [profileList_written (withModels_models "a" _ _), profileList_configOf] at hprofiles
  cases hprofiles

end Kross.Config

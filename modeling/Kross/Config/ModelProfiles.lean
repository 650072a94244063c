import Kross.JsonObject
import Kross.Session.Title
import Mathlib.Algebra.Group.Nat.Defs

namespace Kross.Config

open Kross.Json

inductive ConfigError
  | typeError
  | unsupportedVersion (version : Value)
  | singleModelField
  | unusableProfile
  | unknownProfile (profileId : String)
  | noActiveProfile
  | unsupportedLocale (locale : String)

section Values

/-- What `if (value)` takes for true. -/
def truthy : Option Value → Bool
  | some (.bool b) => b
  | some (.num n) => !n.isZero
  | some (.str s) => s ≠ ""
  | some (.arr _) | some (.obj _) => true
  | some .null | none => false

/-- `value === s` -/
def isText (s : String) : Option Value → Bool
  | some (.str t) => t = s
  | some .null | some (.bool _) | some (.num _) | some (.arr _) | some (.obj _) | none => false

/-- The string that `typeof value === 'string'` finds. -/
def text : Option Value → Option String
  | some (.str s) => some s
  | some .null | some (.bool _) | some (.num _) | some (.arr _) | some (.obj _) | none => none

def trim (s : String) : String := String.ofList (Session.trim s.toList)

/-- `value?.trim()`; what is undefined counts as the empty text. -/
def trimmed : Option Value → Except ConfigError String
  | some (.str s) => .ok (trim s)
  | some .null | none => .ok ""
  | some (.bool _) | some (.num _) | some (.arr _) | some (.obj _) => .error .typeError

def firstNonEmpty : List (Option Value) → Except ConfigError (Option String)
  | [] => .ok none
  | value :: values => do
      let s ← trimmed value
      if s = "" then firstNonEmpty values else .ok (some s)

mutual
/-- The string that `in` makes of a value; no other value becomes a name that an object has. -/
def propertyKey : Value → Option String
  | .str s => some s
  | .arr items => onlyKey items
  | .null | .bool _ | .num _ | .obj _ => none

def onlyKey : Items → Option String
  | .cons v .nil => propertyKey v
  | .nil | .cons _ (.cons _ _) => none
end

/-- What every object inherits. -/
def prototypeKeys : List String :=
  ["constructor", "__defineGetter__", "__defineSetter__", "hasOwnProperty", "__lookupGetter__", "__lookupSetter__",
    "isPrototypeOf", "propertyIsEnumerable", "toString", "valueOf", "__proto__", "toLocaleString"]

def LLM_PROVIDERS : List String := ["openai", "anthropic", "openrouter", "deepseek", "xai"]

/-- `value in LLM_PROVIDER_DEFINITIONS` -/
def isLlmProvider (value : Option Value) : Bool :=
  (value.bind propertyKey).any fun key => (LLM_PROVIDERS ++ prototypeKeys).contains key

end Values

section Usable

def PUBLIC_MODELS : List String := ["public-hy3"]

def getPublicModel (id : Option Value) : Except ConfigError Bool := do
  let normalized ← trimmed id
  return PUBLIC_MODELS.contains normalized

def isUsableLlmConfig (config : Value) : Except ConfigError Bool := do
  let isPublic ←
    if truthy (config.member "publicModelId") then getPublicModel (config.member "publicModelId") else .ok false
  if isPublic then return true
  if !truthy (config.member "model") || !truthy (config.member "provider") then return false
  if isText "anthropic" (config.member "provider") then
    return truthy (config.member "apiKey") || truthy (config.member "authToken")
  return truthy (config.member "apiKey")

def isUsableImportedLlmConfig (config : Value) : Except ConfigError Bool := do
  let usable ← isUsableLlmConfig config
  return usable && isLlmProvider (config.member "provider")

def idOf (profile : Value) : Option String := text (profile.member "id")

def hasId (id : String) (profile : Value) : Bool := idOf profile = some id

/-- What `normalizeStoredProfiles` keeps. -/
def isStoredProfile (profile : Value) : Except ConfigError Bool :=
  if (idOf profile).isSome && (text (profile.member "name")).isSome then isUsableImportedLlmConfig profile
  else .ok false

/-- `{ ...cloneImportedLlmConfig(profile), id: profile.id, name: profile.name }` -/
def storedProfile (profile : Value) : Value :=
  .obj (((spread (some profile.stored)).putSome "id" (profile.member "id")).putSome "name" (profile.member "name"))

def storedProfiles : List Value → Except ConfigError (List Value)
  | [] => .ok []
  | profile :: profiles => do
      let stored ← isStoredProfile profile
      let rest ← storedProfiles profiles
      return if stored then storedProfile profile :: rest else rest

def normalizeStoredProfiles : Option Value → Except ConfigError (List Value)
  | some (.arr items) => storedProfiles items.toList
  | some .null | some (.bool _) | some (.num _) | some (.str _) | some (.obj _) | none => .ok []

/-- `config?.models?.profiles` -/
def profilesOf (config : Option Value) : Option Value := member "profiles" (member "models" config)

def listKrossModelProfiles (config : Option Value) : Except ConfigError (List Value) :=
  normalizeStoredProfiles (profilesOf config)

def getActiveKrossModelProfile (config : Option Value) : Except ConfigError (Option Value) := do
  let activeId := member "activeProfileId" (member "models" config)
  let profiles ← listKrossModelProfiles config
  return if truthy activeId then profiles.find? fun profile => isText ((idOf profile).getD "") activeId else none

end Usable

section Ids

/-- Outside ASCII only the Kelvin sign and the dotted capital `I` have an ASCII letter in lower case. -/
def lowerCase (c : Char) : List Char :=
  if c.toNat = 0x212A then ['k'] else if c.toNat = 0x130 then ['i', Char.ofNat 0x307] else [c.toLower]

def isIdChar (c : Char) : Bool := c.isLower || c.isDigit || c = '.' || c = '_' || c = '-'

/-- `replace(/[^a-z0-9._-]+/g, '-')`; `inside` is behind such a character. -/
def dashed (inside : Bool) : List Char → List Char
  | [] => []
  | c :: s =>
      if isIdChar c then c :: dashed false s else if inside then dashed true s else '-' :: dashed true s

def stripDashes (s : List Char) : List Char :=
  ((s.dropWhile (· = '-')).reverse.dropWhile (· = '-')).reverse

def normalizeModelProfileId (value : String) : Option String :=
  let normalized := stripDashes (dashed false ((Session.trim value.toList).flatMap lowerCase))
  if normalized = [] then none else some (String.ofList normalized)

/-- The digest is in hexadecimal digits. -/
def createModelProfileId (sha256 : String → String) (value : String) : String :=
  match normalizeModelProfileId value with
  | some normalized => String.ofList (normalized.toList.take 80)
  | none =>
      let digest := sha256 (if trim value = "" then "model" else trim value)
      "profile-" ++ String.ofList (digest.toList.take 8)

end Ids

structure ImportedLlmConfig where
  provider : String
  model : String
  publicModelId : Option String
  apiKey : Option String
  baseUrl : Option String
  authToken : Option String
  anthropicVersion : Option String
  thinkingEffort : Option String
  contextWindow : Option Number

structure ProfileInput where
  profileId : Option String
  name : String
  model : ImportedLlmConfig

section Saving

def normalizePositiveInt : Option Value → Option Number
  | some (.num n) =>
      if n.isInfinite || n.isZero || n.text.head? = some '-' then none
      else some (.ofNat (n.magnitude.1 * 10 ^ n.magnitude.2.toNat / 10 ^ (-n.magnitude.2).toNat))
  | some .null | some (.bool _) | some (.str _) | some (.arr _) | some (.obj _) | none => none

/-- `if (patch.provider === 'anthropic')`; `kept` are the members of the same provider. -/
def mergeAnthropic (kept : String → Option Value) (patch : ImportedLlmConfig) (llm : Fields) :
    Except ConfigError Fields :=
  if patch.provider = "anthropic" then do
    let authToken ← firstNonEmpty [patch.authToken.map .str, kept "authToken"]
    let llm := llm.putSome "authToken" (authToken.map .str)
    let anthropicVersion ← firstNonEmpty [patch.anthropicVersion.map .str, kept "anthropicVersion"]
    return llm.putSome "anthropicVersion" (anthropicVersion.map .str)
  else .ok llm

def mergeLlmConfigPatch (existing : Option Value) (patch : ImportedLlmConfig) : Except ConfigError Fields := do
  let sameProvider := isText patch.provider (member "provider" existing)
  let kept := fun key => if sameProvider then member key existing else none
  let llm := Fields.ofList [("provider", .str patch.provider), ("model", .str patch.model)]
  let llm := llm.putSome "publicModelId" ((patch.publicModelId.filter (· ≠ "")).map .str)
  let apiKey ← firstNonEmpty [patch.apiKey.map .str, kept "apiKey"]
  let llm := llm.putSome "apiKey" (apiKey.map .str)
  let baseUrl ← firstNonEmpty [patch.baseUrl.map .str, kept "baseUrl"]
  let llm := llm.putSome "baseUrl" (baseUrl.map .str)
  let llm ← mergeAnthropic kept patch llm
  let llm := llm.putSome "thinkingEffort" (patch.thinkingEffort.map .str <|> member "thinkingEffort" existing)
  let contextWindow := normalizePositiveInt (patch.contextWindow.map .num <|> member "contextWindow" existing)
  return llm.putSome "contextWindow" (contextWindow.map .num)

variable (sha256 : String → String)

def requestedId (input : ProfileInput) : String :=
  (input.profileId.bind normalizeModelProfileId).getD
    (createModelProfileId sha256 (if input.name = "" then input.model.model else input.name))

def newModels (activeProfileId : String) (profiles : List Value) : Value :=
  .obj (.ofList [("activeProfileId", .str activeProfileId), ("profiles", .arr (.ofList profiles))])

def withModels (activeProfileId : String) (profiles : List Value) (config : Option Value) : Fields :=
  (spread config).put "models" (newModels activeProfileId profiles)

/-- `profiles.map(item => item.id === id ? profile : item)` -/
def replaceProfile (id : String) (profile : Value) (profiles : List Value) : List Value :=
  profiles.map fun item => if hasId id item then profile else item

def upsertKrossModelProfile (input : ProfileInput) (existingFile : Option Value) : Except ConfigError Fields := do
  let profiles ← listKrossModelProfiles existingFile
  let id := requestedId sha256 input
  let existing := profiles.find? (hasId id)
  let merged ← mergeLlmConfigPatch existing input.model
  if !(← isUsableLlmConfig (.obj merged)) then throw .unusableProfile
  let name := if trim input.name = "" then trim input.model.model else trim input.name
  let profile := .obj (.cons "id" (.str id) (.cons "name" (.str name) merged))
  let nextProfiles := if existing.isSome then replaceProfile id profile profiles else profiles ++ [profile]
  return withModels id nextProfiles existingFile

def setActiveKrossModelProfile (profileId : String) (thinkingEffort : Option String) (existing : Option Value) :
    Except ConfigError Fields := do
  let profiles ← listKrossModelProfiles existing
  match profiles.find? (hasId profileId) with
  | none => .error (.unknownProfile profileId)
  | some profile =>
      let active := .obj ((spread (some profile)).putSome "thinkingEffort"
        ((thinkingEffort.filter (· ≠ "")).map .str))
      .ok (withModels profileId (replaceProfile profileId active profiles) existing)

/-- What is handed on to be saved for the profile that is active. -/
def activeInput (patch : ImportedLlmConfig) (existingFile : Option Value) : Except ConfigError ProfileInput := do
  match ← getActiveKrossModelProfile existingFile with
  | none => .error .noActiveProfile
  | some active => .ok ⟨idOf active, (text (active.member "name")).getD "", patch⟩

def updateActiveKrossModelProfile (patch : ImportedLlmConfig) (existingFile : Option Value) :
    Except ConfigError Fields := do
  let input ← activeInput patch existingFile
  upsertKrossModelProfile sha256 input existingFile

end Saving

theorem of_bind_ok {α β : Type} {x : Except ConfigError α} {f : α → Except ConfigError β} {b : β}
    (h : x >>= f = .ok b) : ∃ a, x = .ok a ∧ f a = .ok b := by
  cases x with
  | error e => cases h
  | ok a => exact ⟨a, rfl, h⟩

theorem of_map_ok {α β : Type} {x : Except ConfigError α} {f : α → β} {b : β} (h : x.map f = .ok b) :
    ∃ a, x = .ok a ∧ f a = b := by
  cases x with
  | error e => cases h
  | ok a => exact ⟨a, rfl, Except.ok.inj h⟩

section Others

variable {α : Type*} {p : α → Bool} {xs : List α}

theorem eraseP_eq_filter (h : xs.countP p ≤ 1) : xs.eraseP p = xs.filter (!p ·) := by
  induction xs with
  | nil => rfl
  | cons x xs ih =>
      cases hx : p x with
      | true =>
          rw [List.countP_cons_of_pos hx] at h
          have hnone : ∀ y ∈ xs, ¬ p y = true := List.countP_eq_zero.mp (by omega)
          rw [List.eraseP_cons_of_pos hx, List.filter_cons_of_neg (by rw [hx]; decide), List.filter_eq_self.mpr]
          intro y hy
          simpa using hnone y hy
      | false =>
          rw [List.countP_cons_of_neg (by rw [hx]; decide)] at h
          rw [List.eraseP_cons_of_neg (by rw [hx]; decide), List.filter_cons_of_pos (by rw [hx]; rfl), ih h]

end Others

section Keeping

variable {id : String} {profile : Value} {profiles kept : List Value}

theorem text_stored (v : Value) : text (some v.stored) = text (some v) := by
  cases v with
  | num n =>
      rw [Value.stored]
      split_ifs <;> rfl
  | null | bool | str | arr | obj => rfl

theorem member_stored (key : String) (v : Value) : v.stored.member key = (v.member key).map Value.stored := by
  cases v with
  | obj fields => exact get_stored key fields
  | num n =>
      rw [Value.stored]
      split_ifs <;> rfl
  | null | bool | str | arr => rfl

theorem idOf_stored (profile : Value) : idOf profile.stored = idOf profile := by
  rw [idOf, member_stored, idOf]
  cases profile.member "id" with
  | none => rfl
  | some v => exact text_stored v

theorem hasId_stored (id : String) (profile : Value) : hasId id profile.stored = hasId id profile := by
  rw [hasId, idOf_stored, hasId]

theorem text_eq_some {v : Option Value} {s : String} (h : text v = some s) : v = some (.str s) := by
  match v with
  | some (.str t) => rw [Option.some.inj h]
  | some .null | some (.bool _) | some (.num _) | some (.arr _) | some (.obj _) | none => cases h

/-- What is kept has an id and a name. -/
theorem isStoredProfile_members (h : isStoredProfile profile = .ok true) :
    ∃ id name, profile.member "id" = some (.str id) ∧ profile.member "name" = some (.str name) := by
  rw [isStoredProfile] at h
  split_ifs at h with hs
  · obtain ⟨hid, hname⟩ := Bool.and_eq_true_iff.mp hs
    obtain ⟨id, hid⟩ := Option.isSome_iff_exists.mp hid
    obtain ⟨name, hname⟩ := Option.isSome_iff_exists.mp hname
    exact ⟨id, name, text_eq_some hid, text_eq_some hname⟩
  · cases h

theorem idOf_storedProfile (h : isStoredProfile profile = .ok true) : idOf (storedProfile profile) = idOf profile := by
  obtain ⟨id, name, hid, hname⟩ := isStoredProfile_members h
  have hget : (storedProfile profile).member "id" = some (.str id) := by
    rw [storedProfile, hid, hname, Value.member, get_putSome_ne (by decide)]
    exact get_put _ _ _
  rw [idOf, hget, idOf, hid]

/-- A profile that is kept is kept as it is, unless a number of it is infinite. -/
theorem storedProfile_eq (h : isStoredProfile profile = .ok true) (hfinite : profile.isFinite = true) :
    storedProfile profile = profile := by
  obtain ⟨id, name, hid, hname⟩ := isStoredProfile_members h
  rw [storedProfile, Value.stored_finite profile hfinite, hid, hname]
  cases profile with
  | obj fields =>
      have hput : ((spread (some (.obj fields))).putSome "id" (some (.str id))) = fields := put_get hid
      rw [hput]
      exact congrArg Value.obj (put_get hname)
  | null | bool | num | str | arr => cases hid

/-- The profiles besides the one with an id, of which there is at most one. -/
structure Beside (id : String) (profiles kept : List Value) : Prop where
  single : kept.countP (hasId id) ≤ 1
  rest : kept.filter (!hasId id ·) = profiles.filter (!hasId id ·)

/-- A profile that is written back as it is read. -/
structure Durable (profile : Value) : Prop where
  usable : isStoredProfile profile = .ok true
  finite : profile.isFinite = true

theorem storedProfiles_count (h : storedProfiles profiles = .ok kept) :
    kept.countP (hasId id) ≤ profiles.countP (hasId id) := by
  induction profiles generalizing kept with
  | nil =>
      cases h
      exact Nat.le_refl _
  | cons p ps ih =>
      obtain ⟨stored, hp, h⟩ := of_bind_ok h
      obtain ⟨rest, hrest, h⟩ := of_bind_ok h
      have ih := ih hrest
      cases h
      rw [List.countP_cons]
      cases stored with
      | false => exact Nat.le_add_right_of_le ih
      | true =>
          have hid : hasId id (storedProfile p) = hasId id p := by rw [hasId, idOf_storedProfile hp, hasId]
          rw [if_pos rfl, List.countP_cons, hid]
          exact Nat.add_le_add_right ih _

theorem storedProfiles_rest (h : storedProfiles profiles = .ok kept)
    (hdurable : ∀ p ∈ profiles, hasId id p = false → Durable p) :
    kept.filter (!hasId id ·) = profiles.filter (!hasId id ·) := by
  induction profiles generalizing kept with
  | nil =>
      cases h
      rfl
  | cons p ps ih =>
      obtain ⟨stored, hp, h⟩ := of_bind_ok h
      obtain ⟨rest, hrest, h⟩ := of_bind_ok h
      have ih := ih hrest (fun q hq => hdurable q (List.mem_cons_of_mem _ hq))
      cases h
      cases hid : hasId id p with
      | true =>
          rw [List.filter_cons_of_neg (by rw [hid]; decide), ← ih]
          cases stored with
          | false => rfl
          | true =>
              have hstored : hasId id (storedProfile p) = true := by rw [hasId, idOf_storedProfile hp, ← hasId, hid]
              exact List.filter_cons_of_neg (by rw [hstored]; decide)
      | false =>
          have hp' := hdurable p List.mem_cons_self hid
          have htrue : stored = true := Except.ok.inj (hp.symm.trans hp'.usable)
          rw [htrue, if_pos rfl, storedProfile_eq hp'.usable hp'.finite, List.filter_cons_of_pos (by rw [hid]; rfl),
            List.filter_cons_of_pos (by rw [hid]; rfl), ih]

theorem beside_append (h : Beside id profiles kept) (hnone : kept.find? (hasId id) = none)
    (hid : hasId id profile = true) : Beside id profiles (kept ++ [profile]) where
  single := by
    have hzero : kept.countP (hasId id) = 0 := List.countP_eq_zero.mpr (List.find?_eq_none.mp hnone)
    rw [List.countP_append, hzero, List.countP_singleton, hid]
    decide
  rest := by
    rw [List.filter_append, List.filter_cons_of_neg (by rw [hid]; decide), List.filter_nil, List.append_nil, h.rest]

theorem hasId_replace (hid : hasId id profile = true) (item : Value) :
    hasId id (if hasId id item then profile else item) = hasId id item := by
  split_ifs with h
  · rw [hid, h]
  · rfl

theorem beside_replace (h : Beside id profiles kept) (hid : hasId id profile = true) :
    Beside id profiles (replaceProfile id profile kept) where
  single := by
    have hcount : (hasId id ∘ fun item => if hasId id item then profile else item) = hasId id :=
      funext (hasId_replace hid)
    rw [replaceProfile, List.countP_map, hcount]
    exact h.single
  rest := by
    rw [← h.rest, replaceProfile, List.filter_map]
    have hfilter : ((!hasId id ·) ∘ fun item => if hasId id item then profile else item) = (!hasId id ·) := by
      funext item
      exact congrArg _ (hasId_replace hid item)
    rw [hfilter]
    have hself : ∀ item ∈ kept.filter (!hasId id ·), (if hasId id item then profile else item) = item := by
      intro item hitem
      have hnot := (List.mem_filter.mp hitem).2
      exact if_neg (by simpa using hnot)
    rw [List.map_congr_left hself, List.map_id']

theorem mergeAnthropic_get {other : String} {existing : String → Option Value} {patch : ImportedLlmConfig}
    {llm merged : Fields} (h : mergeAnthropic existing patch llm = .ok merged) (htoken : other ≠ "authToken")
    (hversion : other ≠ "anthropicVersion") : merged.get other = llm.get other := by
  rw [mergeAnthropic] at h
  split_ifs at h
  · obtain ⟨authToken, -, h⟩ := of_bind_ok h
    obtain ⟨anthropicVersion, -, h⟩ := of_bind_ok h
    cases h
    rw [get_putSome_ne hversion, get_putSome_ne htoken]
  · rw [Except.ok.inj h]

/-- A patch has no say in the id. -/
theorem merge_get_id {existing : Option Value} {patch : ImportedLlmConfig} {merged : Fields}
    (h : mergeLlmConfigPatch existing patch = .ok merged) : merged.get "id" = none := by
  obtain ⟨apiKey, -, h⟩ := of_bind_ok h
  obtain ⟨baseUrl, -, h⟩ := of_bind_ok h
  obtain ⟨llm, hllm, h⟩ := of_bind_ok h
  cases h
  rw [get_putSome_ne (by decide), get_putSome_ne (by decide), mergeAnthropic_get hllm (by decide) (by decide)]
  iterate 3 rw [get_putSome_ne (by decide)]
  rfl

/-- What the profiles have to be for all but the one with an id to be written back. -/
structure SafeProfiles (id : String) (profiles : Option Value) : Prop where
  single : (spread profiles).values.countP (hasId id) ≤ 1
  durable : ∀ p ∈ (spread profiles).values, hasId id p = false → (∃ items, profiles = some (.arr items)) ∧ Durable p

theorem beside_normalize {profiles : Option Value} (h : normalizeStoredProfiles profiles = .ok kept)
    (hsafe : SafeProfiles id profiles) : Beside id (spread profiles).values kept := by
  by_cases harray : ∃ items, profiles = some (.arr items)
  · obtain ⟨items, rfl⟩ := harray
    have hvalues : (spread (some (.arr items))).values = items.toList := values_indexed 0 items.toList
    obtain ⟨hsingle, hdurable⟩ := hsafe
    rw [hvalues] at hsingle hdurable ⊢
    exact ⟨Nat.le_trans (storedProfiles_count h) hsingle, storedProfiles_rest h (fun p hp hid => (hdurable p hp hid).2)⟩
  · have hkept : kept = [] := by
      match profiles with
      | some (.arr items) => exact absurd ⟨items, rfl⟩ harray
      | some .null | some (.bool _) | some (.num _) | some (.str _) | some (.obj _) | none =>
          cases h
          rfl
    subst hkept
    refine ⟨Nat.zero_le _, ?_⟩
    apply Eq.symm
    apply List.filter_eq_nil_iff.mpr
    intro p hp hid
    exact harray (hsafe.durable p hp (by simpa using hid)).1

variable {sha256 : String → String} {input : ProfileInput} {config : Fields} {file : Option Value}

theorem upsert_beside (h : upsertKrossModelProfile sha256 input file = .ok config)
    (hsafe : SafeProfiles (requestedId sha256 input) (profilesOf file)) :
    ∃ next, config = withModels (requestedId sha256 input) next file ∧
      Beside (requestedId sha256 input) (spread (profilesOf file)).values next := by
  obtain ⟨kept, hkept, h⟩ := of_bind_ok h
  obtain ⟨merged, hmerged, h⟩ := of_bind_ok h
  obtain ⟨usable, -, h⟩ := of_bind_ok h
  have hbeside := beside_normalize hkept hsafe
  cases usable with
  | false => cases h
  | true =>
      cases h
      refine ⟨_, rfl, ?_⟩
      have hid : ∀ name, hasId (requestedId sha256 input)
          (.obj (.cons "id" (.str (requestedId sha256 input)) (.cons "name" name merged))) = true := by
        intro name
        simp [hasId, idOf, Value.member, Fields.get, merge_get_id hmerged, text]
      cases hfind : kept.find? (hasId (requestedId sha256 input)) with
      | none => exact beside_append hbeside hfind (hid _)
      | some existing => exact beside_replace hbeside (hid _)

theorem activate_beside {thinkingEffort : Option String}
    (h : setActiveKrossModelProfile id thinkingEffort file = .ok config) (hsafe : SafeProfiles id (profilesOf file)) :
    ∃ next, config = withModels id next file ∧ Beside id (spread (profilesOf file)).values next := by
  obtain ⟨kept, hkept, h⟩ := of_bind_ok h
  have hbeside := beside_normalize hkept hsafe
  cases hfind : kept.find? (hasId id) with
  | none =>
      rw [hfind] at h
      cases h
  | some profile =>
      rw [hfind] at h
      cases h
      refine ⟨_, rfl, beside_replace hbeside ?_⟩
      have hid : hasId id profile = true := List.find?_some hfind
      cases profile with
      | obj fields =>
          rw [hasId, idOf, Value.member, spread, get_putSome_ne (by decide)]
          exact hid
      | null | bool | num | str | arr => cases of_decide_eq_true hid

end Keeping

end Kross.Config

import Kross.Faults
import Kross.JsonIndented
import Kross.JsonNumber
import Mathlib.Logic.Function.Basic

namespace Kross.Persistence

open Kross.Json Kross.FaultM

section Versions

inductive PlanError
  | notRegular (relativePath : String)
  | invalidJson (relativePath : String)
  | notObject (relativePath : String)
  | unknownShape (relativePath : String)
  | unsupported (relativePath : String) (version : Value)

def Fields.concat (key : String) (value : Value) : Fields → Fields
  | .nil => .cons key value .nil
  | .cons k v rest => .cons k v (Fields.concat key value rest)

theorem get_concat (key : String) (value : Value) (fields : Fields) :
    (Fields.concat key value fields).get key = some value := by
  cases fields with
  | nil => simp [Fields.concat, Fields.get]
  | cons k v rest => simp [Fields.concat, Fields.get, get_concat key value rest]

theorem get_concat_isSome {key key' : String} {value : Value} : ∀ {fields : Fields}, (fields.get key').isSome →
    ((Fields.concat key value fields).get key').isSome
  | .cons k v rest, h => by
      rw [Fields.concat, Fields.get]
      cases hrest : (Fields.concat key value rest).get key' with
      | some w => rfl
      | none =>
          rw [Fields.get] at h
          cases hget : rest.get key' with
          | some w =>
              have hsome : ((Fields.concat key value rest).get key').isSome := get_concat_isSome (by rw [hget]; rfl)
              rw [hrest] at hsome
              cases hsome
          | none =>
              rw [hget] at h
              exact h

/-- `value.version === 1` -/
def isCurrent : Value → Bool
  | .num n => n.toNat? = some 1
  | _ => false

theorem isCurrent_one : isCurrent (.num .one) = true := by decide

def versionOne : Value := .num .one

/-- The three ways of what is done about `version` of an object. -/
def addVersion (relativePath : String) (fields : Fields) : Except PlanError (Option Value) :=
  match fields.get "version" with
  | some version => if isCurrent version then .ok none else .error (.unsupported relativePath version)
  | none => .ok (some (.obj (Fields.concat "version" versionOne fields)))

theorem addVersion_concat (relativePath : String) (fields : Fields) :
    addVersion relativePath (Fields.concat "version" versionOne fields) = .ok none := by
  rw [addVersion, get_concat]
  exact if_pos isCurrent_one

def addVersionToObject (relativePath requiredField : String) : Value → Except PlanError (Option Value)
  | .obj fields =>
      if (fields.get requiredField).isSome then addVersion relativePath fields else .error (.unknownShape relativePath)
  | _ => .error (.unknownShape relativePath)

end Versions

section Candidates

/-- A file that may be migrated. What `migrate` gives needs no migration. -/
structure MigrationCandidate where
  stepId : String
  relativePath : String
  migrate : Value → Except PlanError (Option Value)
  settles : ∀ value migrated, migrate value = .ok (some migrated) → migrate migrated = .ok none

theorem addVersion_some {relativePath : String} {fields : Fields} {migrated : Value}
    (h : addVersion relativePath fields = .ok (some migrated)) :
    migrated = .obj (Fields.concat "version" versionOne fields) := by
  rw [addVersion] at h
  split at h
  · split_ifs at h
    cases h
  · cases h
    rfl

theorem addVersionToObject_settles {relativePath requiredField : String} {value migrated : Value}
    (h : addVersionToObject relativePath requiredField value = .ok (some migrated)) :
    addVersionToObject relativePath requiredField migrated = .ok none := by
  unfold addVersionToObject at h
  split at h
  · split_ifs at h with hrequired
    rw [addVersion_some h, addVersionToObject, if_pos (get_concat_isSome hrequired)]
    exact addVersion_concat _ _
  · cases h

/-- `core.config.version-1` and `core.projects.version-1` -/
def coreMigrate (relativePath : String) : Value → Except PlanError (Option Value)
  | .obj fields => addVersion relativePath fields
  | _ => .error (.notObject relativePath)

def coreCandidate (stepId relativePath : String) : MigrationCandidate where
  stepId
  relativePath
  migrate := coreMigrate relativePath
  settles value migrated h := by
    cases value with
    | obj fields =>
        rw [addVersion_some h]
        exact addVersion_concat relativePath fields
    | null | bool | num | str | arr => cases h

/-- An array becomes the required member of an object. -/
def wrapArray (relativePath requiredField : String) : Value → Except PlanError (Option Value)
  | .arr items => .ok (some (.obj (.cons "version" versionOne (.cons requiredField (.arr items) .nil))))
  | value => addVersionToObject relativePath requiredField value

def wrappingCandidate (stepId relativePath requiredField : String) (h : requiredField ≠ "version") : MigrationCandidate where
  stepId
  relativePath
  migrate := wrapArray relativePath requiredField
  settles value migrated hm := by
    cases value with
    | arr items =>
        cases hm
        simp [wrapArray, addVersionToObject, addVersion, Fields.get, h, versionOne, isCurrent_one]
    | obj fields =>
        have hsettled : addVersionToObject relativePath requiredField migrated = .ok none :=
          addVersionToObject_settles (show addVersionToObject relativePath requiredField (.obj fields) = _ from hm)
        obtain ⟨fields', rfl⟩ : ∃ fields', migrated = .obj fields' := by
          change addVersionToObject relativePath requiredField (.obj fields) = _ at hm
          rw [addVersionToObject] at hm
          split_ifs at hm
          exact ⟨_, addVersion_some hm⟩
        exact hsettled
    | null | bool | num | str => cases hm

def objectCandidate (stepId relativePath requiredField : String) : MigrationCandidate where
  stepId
  relativePath
  migrate := addVersionToObject relativePath requiredField
  settles _ _ := addVersionToObject_settles

/-- What the two migrations differ in. -/
structure Migration where
  candidates : List MigrationCandidate
  distinct : (candidates.map MigrationCandidate.relativePath).Nodup

def coreMigrations : Migration where
  candidates := [coreCandidate "core.config.version-1" "config.json", coreCandidate "core.projects.version-1" "projects.json"]
  distinct := by decide

def serverMigrations : Migration where
  candidates := [
    wrappingCandidate "cloud.workspaces.version-1" "workspaces.json" "workspaces" (by decide),
    objectCandidate "cloud.provider.version-1" "provider.json" "provider",
    wrappingCandidate "cloud.push-subscriptions.version-1" "push-subscriptions.json" "subscriptions" (by decide)]
  distinct := by decide

end Candidates

section Files

/-- The places below the root that a migration uses. The name of a temporary file has
the process and the time in it, and the backup directory the time. -/
inductive Place
  | target (relativePath : String)
  | temporary (relativePath : String) (stamp : Nat)
  | lock
  | backup (relativePath : String)
  | manifest
  deriving DecidableEq

/-- A regular file with its permissions, or a link, a directory or the like. -/
inductive Node (B : Type)
  | file (content : B) (mode : Nat)
  | other
  deriving DecidableEq

inductive FsError
  | ENOENT
  | EEXIST
  | EISDIR
  | EIO
  deriving DecidableEq

inductive MigrationError
  | plan (error : PlanError)
  | fs (error : FsError)
  | changed (relativePath : String)

inductive Pass
  | apply
  | rollback
  deriving DecidableEq

/-- The calls of the file system, each by the place in the code that makes it. -/
inductive Site
  | stat (relativePath : String)
  | read (relativePath : String)
  | makeRoot
  | openLock
  | reread (relativePath : String)
  | makeBackup
  | makeBackupDirectory (relativePath : String)
  | copy (relativePath : String)
  | protect (relativePath : String)
  | manifest
  | create (pass : Pass) (relativePath : String)
  | chmod (pass : Pass) (relativePath : String)
  | rename (pass : Pass) (relativePath : String)
  | cleanUp (pass : Pass) (relativePath : String)
  | closeLock
  | removeLock
  deriving DecidableEq

/-- `Buffer` with its text in UTF-8. -/
structure Buffers (B : Type) where
  toText : B → List Char
  ofText : List Char → B
  toText_ofText : ∀ text, toText (ofText text) = text

structure PlannedFile (B : Type) where
  stepId : String
  relativePath : String
  before : B
  after : B
  mode : Nat
  deriving DecidableEq

structure State (B : Type) where
  files : Place → Option (Node B)
  written : List (PlannedFile B)

/-- A half written file has some content, or was not created yet. -/
abbrev MigrationM (B α : Type) := FaultM Site (Option B) (State B) MigrationError α

end Files

section Steps

variable {B : Type}

def State.put (place : Place) (node : Option (Node B)) (s : State B) : State B :=
  { s with files := Function.update s.files place node }

/-- A call that reads or whose effect is of no account here. -/
def look {α : Type} (site : Site) (effect : State B → Except FsError α) : MigrationM B α :=
  step site (.fs FsError.EIO) (fun _ s => s) (fun s => match effect s with
    | .ok a => .ok (a, s)
    | .error error => .error (.fs error))

def change (site : Site) (torn : Option B → State B → State B) (effect : State B → Except FsError (State B)) :
    MigrationM B Unit :=
  step site (.fs FsError.EIO) torn (fun s => match effect s with
    | .ok s => .ok ((), s)
    | .error error => .error (.fs error))

def untorn (_ : Option B) (s : State B) : State B := s

def tornFile (place : Place) (left : Option B) (s : State B) : State B :=
  match left with
  | some content => s.put place (some (.file content 0))
  | none => s

def readFile (site : Site) (place : Place) : MigrationM B B :=
  look site (fun s => match s.files place with
    | some (.file content _) => .ok content
    | some .other => .error .EISDIR
    | none => .error .ENOENT)

def writeNew (site : Site) (place : Place) (content : B) (mode : Nat) : MigrationM B Unit :=
  change site (tornFile place) (fun s => match s.files place with
    | some _ => .error .EEXIST
    | none => .ok (s.put place (some (.file content mode))))

def chmod (site : Site) (place : Place) (mode : Nat) : MigrationM B Unit :=
  change site untorn (fun s => match s.files place with
    | some (.file content _) => .ok (s.put place (some (.file content mode)))
    | some .other => .ok s
    | none => .error .ENOENT)

def rename (site : Site) (source target : Place) : MigrationM B Unit :=
  change site untorn (fun s => match s.files source with
    | some node => .ok ((s.put source none).put target (some node))
    | none => .error .ENOENT)

/-- `rm` with `force` -/
def remove (site : Site) (place : Place) : MigrationM B Unit := change site untorn (fun s => .ok (s.put place none))

end Steps

section Plan

variable {B : Type} (buffers : Buffers B)

/-- What is made of a candidate whose file is there. -/
def planFile (candidate : MigrationCandidate) (content : B) (mode : Nat) : Except PlanError (Option (PlannedFile B)) :=
  match parse (buffers.toText content) with
  | none => .error (.invalidJson candidate.relativePath)
  | some value => match candidate.migrate value with
    | .error error => .error error
    | .ok none => .ok none
    | .ok (some migrated) =>
        .ok (some
          { stepId := candidate.stepId
            relativePath := candidate.relativePath
            before := content
            after := buffers.ofText (renderIndented 0 migrated ++ ['\n'])
            mode := mode % 512 })

def planCandidate (candidate : MigrationCandidate) : MigrationM B (Option (PlannedFile B)) := do
  let metadata ← look (.stat candidate.relativePath) (fun s => .ok (s.files (.target candidate.relativePath)))
  match metadata with
  | none => pure none
  | some .other => throw (.error (.plan (.notRegular candidate.relativePath)))
  | some (.file _ mode) =>
      let before ← readFile (.read candidate.relativePath) (.target candidate.relativePath)
      match planFile buffers candidate before mode with
      | .error error => throw (.error (.plan error))
      | .ok planned => pure planned

/-- `planCoreMigrations` and `planServerMigrations` -/
def planMigrations : List MigrationCandidate → MigrationM B (List (PlannedFile B))
  | [] => pure []
  | candidate :: candidates => do
      let planned ← planCandidate buffers candidate
      let rest ← planMigrations candidates
      pure (planned.toList ++ rest)

end Plan

section Apply

variable {B : Type} [DecidableEq B] (stamp : Nat)

def assertPlansUnchanged (planned : List (PlannedFile B)) : MigrationM B PUnit :=
  planned.forM (fun file => do
    let current ← readFile (.reread file.relativePath) (.target file.relativePath)
    if current = file.before then pure ()
    else throw (.error (.changed file.relativePath)))

/-- `manifest` is the text of the manifest. -/
def backupMigration (manifest : B) (planned : List (PlannedFile B)) : MigrationM B Unit := do
  look .makeBackup (fun _ => .ok ())
  planned.forM (fun file => do
    look (.makeBackupDirectory file.relativePath) (fun _ => .ok ())
    change (.copy file.relativePath) (tornFile (.backup file.relativePath)) (fun s =>
      match s.files (.target file.relativePath) with
      | some node => .ok (s.put (.backup file.relativePath) (some node))
      | none => .error .ENOENT)
    chmod (.protect file.relativePath) (.backup file.relativePath) 0o600)
  change .manifest (tornFile .manifest) (fun s => .ok (s.put .manifest (some (.file manifest 0o600))))

/-- `mode || 0o600` -/
def modeOr (mode : Nat) : Nat := if mode = 0 then 0o600 else mode

def atomicWrite (pass : Pass) (relativePath : String) (content : B) (mode : Nat) : MigrationM B Unit :=
  always
    (do
      writeNew (.create pass relativePath) (.temporary relativePath stamp) content (modeOr mode)
      chmod (.chmod pass relativePath) (.temporary relativePath stamp) (modeOr mode)
      rename (.rename pass relativePath) (.temporary relativePath stamp) (.target relativePath))
    (remove (.cleanUp pass relativePath) (.temporary relativePath stamp))

inductive Status
  | noop
  | planned
  | applied
  | rolledBack
  | blocked
  deriving DecidableEq

inductive ReportError
  | error (error : MigrationError)
  | alreadyRunning
  | rollbackFailed (error rollbackError : MigrationError)

structure Report (B : Type) where
  status : Status
  changes : List (PlannedFile B)
  error : Option ReportError

def writeAll (planned : List (PlannedFile B)) : MigrationM B PUnit :=
  planned.forM (fun file => do
    atomicWrite stamp .apply file.relativePath file.after file.mode
    update (fun s => { s with written := s.written ++ [file] }))

def restoreAll (written : List (PlannedFile B)) : MigrationM B PUnit :=
  written.reverse.forM (fun file => atomicWrite stamp .rollback file.relativePath file.before file.mode)

def applyPlanned (manifest : B) (planned : List (PlannedFile B)) : MigrationM B (Report B) :=
  attempt
    (do
      assertPlansUnchanged planned
      backupMigration manifest planned
      writeAll stamp planned
      pure ⟨.applied, planned, none⟩)
    (fun error => attempt
      (do
        let written ← ask State.written
        restoreAll stamp written
        pure ⟨.rolledBack, planned, some (.error error)⟩)
      (fun rollbackError => pure ⟨.blocked, planned, some (.rollbackFailed error rollbackError)⟩))

/-- `open` with `wx`; an error of any kind is a held lock. -/
def acquireLock (manifest : B) : MigrationM B Bool :=
  attempt
    (do
      writeNew .openLock .lock manifest 0o600
      pure true)
    (fun _ => pure false)

/-- `runCoreMigrations` and `runServerMigrations`; the content of a lock is empty. -/
def runMigrations (buffers : Buffers B) (migration : Migration) (manifest : B) (apply : Bool) : MigrationM B (Report B) := do
  let plan ← attempt (Except.ok <$> planMigrations buffers migration.candidates) (fun error => pure (Except.error error))
  match plan with
  | .error error => pure ⟨.blocked, [], some (.error error)⟩
  | .ok [] => pure ⟨.noop, [], none⟩
  | .ok planned =>
      if apply = false then pure ⟨.planned, planned, none⟩
      else do
        look .makeRoot (fun _ => .ok ())
        let locked ← acquireLock (buffers.ofText [])
        if locked = false then pure ⟨.blocked, planned, some .alreadyRunning⟩
        else
          always (applyPlanned stamp manifest planned)
            (do
              look .closeLock (fun _ => .ok ())
              remove .removeLock .lock)

end Apply

end Kross.Persistence

import Kross.Crash
import Kross.Run
import Kross.Trace.Event
import Kross.Worker.Envelope

namespace Kross.Trace

open Kross.Json
open Kross.Worker (optional optionalField utf16Length)

section Persistence

def TRACE_EVENT_FORMAT_VERSION : Nat := 1

structure UnsupportedDataVersionError where
  format : String
  actualVersion : Option Value
  supportedVersion : Nat

def assertSupportedDataVersion (value : Value) (format field : String) (supportedVersion : Nat)
    (allowMissing : Bool) : Except UnsupportedDataVersionError Unit :=
  match value with
  | .obj fields => match fields.get field with
    | none => if allowMissing then .ok () else .error ⟨format, none, supportedVersion⟩
    | some (.num n) =>
        if n.toNat? = some supportedVersion then .ok ()
        else .error ⟨format, some (.num n), supportedVersion⟩
    | some v => .error ⟨format, some v, supportedVersion⟩
  | _ => .ok ()

/-- `z.string().min(1)`. -/
def nonEmptySchema : Value → Option String
  | .str s => if s = "" then none else some s
  | _ => none

/-- `z.record(z.unknown()).default({})`. -/
def payloadSchema : Option Value → Option Fields
  | none => some .nil
  | some (.obj payload) => some payload
  | some _ => none

/-- `datetime` says which texts the schema takes for a time. -/
def datetimeSchema (datetime : String → Bool) : Value → Option String
  | .str s => if datetime s then some s else none
  | _ => none

variable (datetime : String → Bool)

def traceEventSchema : Value → Option TraceEvent
  | .obj fields => do
      let id ← (fields.get "id").bind nonEmptySchema
      let runId ← (fields.get "runId").bind nonEmptySchema
      let type ← (fields.get "type").bind nonEmptySchema
      let timestamp ← (fields.get "timestamp").bind (datetimeSchema datetime)
      let parentId ← optional nonEmptySchema (fields.get "parentId")
      let payload ← payloadSchema (fields.get "payload")
      some { id, runId, type, timestamp, parentId, payload }
  | _ => none

def TraceEvent.fields (event : TraceEvent) : Fields :=
  Fields.ofList ([("id", .str event.id), ("runId", .str event.runId), ("type", .str event.type),
    ("timestamp", .str event.timestamp)] ++ optionalField "parentId" event.parentId ++
    [("payload", .obj event.payload)])

/-- The members of the line that an event is stored as. -/
def TraceEvent.stored (event : TraceEvent) : Fields :=
  .cons "schemaVersion" (.num (.ofNat TRACE_EVENT_FORMAT_VERSION)) event.fields

/-- An event that the schema rejects is not serialized. -/
def serializeTraceEvent (event : TraceEvent) : Option (List Char) :=
  (traceEventSchema datetime (.obj event.fields)).map (fun parsed => JsonLog.text parsed.stored)

def parseStoredTraceEvent (line : List Char) : Except UnsupportedDataVersionError (Option TraceEvent) :=
  match parse line with
  | none => .ok none
  | some raw => do
      assertSupportedDataVersion raw "Trace event" "schemaVersion" TRACE_EVENT_FORMAT_VERSION true
      pure (traceEventSchema datetime raw)

end Persistence

section RunId

def safeRunIdChar (c : Char) : Bool := c.isAlphanum || c = '.' || c = '_' || c = '-'

def isSafeRunId (runId : String) : Bool :=
  let s := runId.toList
  !s.isEmpty && decide (utf16Length runId ≤ 200) && decide (runId ≠ ".") && decide (runId ≠ "..") &&
    !s.contains '/' && !s.contains '\\' && !s.tails.any ("..".toList.isPrefixOf ·) &&
    (s.head?.any Char.isAlphanum && s.all safeRunIdChar)

end RunId

/-- The directory of a workspace, and the name of a file in it. -/
abbrev Path := String × String

structure TraceFile where
  content : List Char
  mtime : Nat

structure TraceRunRow where
  runId : String
  workspaceKey : String
  filePath : Path
  firstSeen : String
  lastSeen : String
  eventCount : Nat

/-- What is on disk: the files below `traces`, and the table `trace_runs` by its
key. -/
structure Archive where
  files : Path → Option TraceFile
  rows : String → String → Option TraceRunRow

def Archive.empty : Archive := ⟨fun _ => none, fun _ _ => none⟩

structure SessionTraceStore where
  workspaceKey : String
  sessionFile : String
  deriving DecidableEq

def createSessionFileName (now suffix : String) : String :=
  String.ofList ((now.toList.take 19).map (fun c => if c = ':' then '-' else c) ++ '-' :: suffix.toList ++
    ".jsonl".toList)

/-- The store of a new process; `now` is the ISO form of the time. -/
def SessionTraceStore.create (workspaceKey now suffix : String) : SessionTraceStore :=
  ⟨workspaceKey, createSessionFileName now suffix⟩

def SessionTraceStore.sessionFilePath (store : SessionTraceStore) : Path :=
  (store.workspaceKey, store.sessionFile)

section Actions

/-- What `append` does to the disk, in order. -/
inductive StoreAction
  | appendFile (path : Path) (line : List Char) (now : Nat)
  | upsertRunIndex (store : SessionTraceStore) (event : TraceEvent)

def Archive.extend (path : Path) (text : List Char) (now : Nat) (archive : Archive) : Archive :=
  { archive with
    files := Function.update archive.files path
      (some ⟨((archive.files path).map TraceFile.content).getD [] ++ text, now⟩) }

def Archive.upsert (store : SessionTraceStore) (event : TraceEvent) (archive : Archive) : Archive :=
  let row : TraceRunRow := match archive.rows store.workspaceKey event.runId with
    | none => ⟨event.runId, store.workspaceKey, store.sessionFilePath, event.timestamp, event.timestamp, 1⟩
    | some row => { row with
        filePath := store.sessionFilePath
        lastSeen := event.timestamp
        eventCount := row.eventCount + 1 }
  { archive with
    rows := Function.update archive.rows store.workspaceKey
      (Function.update (archive.rows store.workspaceKey) event.runId (some row)) }

/-- The statement of the index is a transaction: a crash tears only a line. -/
instance : Device StoreAction Archive where
  apply
    | .appendFile path line now, archive => archive.extend path line now
    | .upsertRunIndex store event, archive => archive.upsert store event
  tear
    | n, .appendFile path line now, archive => archive.extend path (Jsonl.torn n line) now
    | _, .upsertRunIndex _ _, archive => archive

end Actions

inductive AppendError
  | invalidEvent
  | unsafeRunId (runId : String)

section Store

variable (datetime : String → Bool)

def SessionTraceStore.append (store : SessionTraceStore) (event : TraceEvent) (now : Nat) :
    Except AppendError (List StoreAction) :=
  match serializeTraceEvent datetime event with
  | none => .error .invalidEvent
  | some serialized => match parseStoredTraceEvent datetime serialized with
    | .ok (some parsed) =>
        if isSafeRunId parsed.runId then
          .ok [.appendFile store.sessionFilePath (serialized ++ ['\n']) now, .upsertRunIndex store parsed]
        else .error (.unsafeRunId parsed.runId)
    | _ => .error .invalidEvent

def readLine (runId : String) (events : List TraceEvent) (line : List Char) :
    Except UnsupportedDataVersionError (List TraceEvent) := do
  match ← parseStoredTraceEvent datetime line with
  | some parsed => pure (if parsed.runId = runId then events ++ [parsed] else events)
  | none => pure events

def readEventsFromFile (file : Option TraceFile) (runId : String) :
    Except UnsupportedDataVersionError (List TraceEvent) :=
  match file with
  | none => .ok []
  | some file => (Jsonl.records file.content).foldlM (readLine datetime runId) []

def SessionTraceStore.readRun (store : SessionTraceStore) (archive : Archive) (runId : String) :
    Except UnsupportedDataVersionError (List TraceEvent) :=
  if isSafeRunId runId then
    match archive.rows store.workspaceKey runId with
    | some row => readEventsFromFile datetime (archive.files row.filePath) runId
    | none => readEventsFromFile datetime (archive.files store.sessionFilePath) runId
  else .ok []

end Store

section Retention

def RETENTION_DAYS : Nat := 30
def RETENTION_MS : Nat := RETENTION_DAYS * 24 * 60 * 60 * 1000

def expired (now : Nat) (path : Path) (file : TraceFile) : Bool :=
  ".jsonl".toList.isSuffixOf path.2.toList && file.mtime + RETENTION_MS < now

/-- The constructor of a store takes away old files and what the index says of
them. -/
def Archive.pruneExpiredTraces (now : Nat) (archive : Archive) : Archive where
  files path := (archive.files path).filter (fun file => !expired now path file)
  rows workspaceKey runId := (archive.rows workspaceKey runId).filter
    (fun row => !(archive.files row.filePath).any (expired now row.filePath))

end Retention

/-- `opens` is the start of a process, and `crash` a call of `append` during
which the process ends, after `done` of its changes and `bytes` of the next. -/
inductive StoreStep
  | opens (now : Nat)
  | append (store : SessionTraceStore) (event : TraceEvent) (now : Nat)
  | crash (store : SessionTraceStore) (event : TraceEvent) (now done bytes : Nat)

section Steps

variable (datetime : String → Bool)

def Archive.next (archive : Archive) : StoreStep → Archive
  | .opens now => archive.pruneExpiredTraces now
  | .append store event now => match store.append datetime event now with
    | .ok actions => Device.perform actions archive
    | .error _ => archive
  | .crash store event now done bytes => match store.append datetime event now with
    | .ok actions => Device.interrupt done bytes actions archive
    | .error _ => archive

/-- The event that a step writes completely, in the workspace it does so. -/
def StoreStep.written : StoreStep → List (String × TraceEvent)
  | .opens _ => []
  | .append store event now => match store.append datetime event now with
    | .ok _ => [(store.workspaceKey, event)]
    | .error _ => []
  | .crash store event now done bytes => match store.append datetime event now with
    | .ok _ =>
        if 0 < done ∨ Jsonl.byteLength (JsonLog.text event.stored) ≤ bytes then [(store.workspaceKey, event)]
        else []
    | .error _ => []

/-- The events of a run that the steps write completely, in order. -/
def eventsOf (workspaceKey runId : String) (steps : List StoreStep) : List TraceEvent :=
  ((steps.flatMap (·.written datetime)).filter
    (fun entry => entry.1 = workspaceKey ∧ entry.2.runId = runId)).map Prod.snd

end Steps

end Kross.Trace

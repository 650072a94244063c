import Kross.Crash
import Kross.Prog
import Kross.UriComponent
import Kross.Worker.Envelope
import Mathlib.Algebra.Group.Nat.Defs

namespace Kross.Worker

open Kross.Json Kross.UriComponent

def REQUEST_INDEX_VERSION : Nat := 1
def SEQUENCE_RESERVATION_VERSION : Nat := 1

structure CompletedRequest where
  requestId : String
  completedAt : String
  events : List EventEnvelope

section Files

abbrev Path := List (List Char)

variable (workspaceId : String) (sessionId : Option String)

def sessionName : String := sessionId.getD "$workspace"

/-- The key of the maps that hold sequence numbers. -/
def sequenceKey : String := workspaceId ++ ":" ++ sessionName sessionId

def pathFor : Path :=
  [encodeURIComponent workspaceId, encodeURIComponent (sessionName sessionId) ++ ".jsonl".toList]

def requestPathFor : Path :=
  [encodeURIComponent workspaceId, "requests".toList,
    encodeURIComponent (sessionName sessionId) ++ ".json".toList]

def sequencePathFor : Path :=
  [encodeURIComponent workspaceId, "sequences".toList,
    encodeURIComponent (sessionName sessionId) ++ ".seq".toList]

end Files

abbrev Disk := Path → Option (List Char)

/-- The calls that change files: `appendFileSync` of an envelope's line,
`atomicWrite` and `rmSync`. -/
inductive FileAction
  | append (path : Path) (envelope : EventEnvelope)
  | write (path : Path) (content : List Char)
  | remove (path : Path)

def FileAction.path : FileAction → Path
  | .append path _ => path
  | .write path _ => path
  | .remove path => path

/-- A rename is atomic: a crash tears only a line that is being appended. -/
instance : Device FileAction Disk where
  apply
    | .append path envelope, disk =>
        Function.update disk path (some ((disk path).getD [] ++ JsonLog.line envelope.fields))
    | .write path content, disk => Function.update disk path (some content)
    | .remove path, disk => Function.update disk path none
  tear
    | n, .append path envelope, disk =>
        Function.update disk path
          (some ((disk path).getD [] ++ Jsonl.torn n (JsonLog.line envelope.fields)))
    | _, .write _ _, disk => disk
    | _, .remove _, disk => disk

/-- The fields of an `EventJournal`. -/
structure Memory where
  lastSequences : String → Option Nat
  sequenceLimits : String → Option Nat
  requestIndexes : Path → Option (List CompletedRequest)

def Memory.empty : Memory := ⟨fun _ => none, fun _ => none, fun _ => none⟩

/-- `actions` are the changes to the files made since the operation began. -/
structure JournalState where
  disk : Disk
  memory : Memory
  actions : List FileAction

inductive JournalError
  | unsupported (error : UnsupportedWorkerDataVersionError)
  | invalidEnvelope

abbrev JournalM (α : Type) := Prog JournalState JournalError α

namespace JournalM

def ofExcept {α : Type} : Except UnsupportedWorkerDataVersionError α → JournalM α
  | .ok a => pure a
  | .error e => throw (.unsupported e)

def act (action : FileAction) : JournalM Unit :=
  modify fun s => { s with
    disk := Device.apply action s.disk
    actions := s.actions ++ [action] }

def onMemory (f : Memory → Memory) : JournalM Unit := modify fun s => { s with memory := f s.memory }

end JournalM

open JournalM

def maxSafeInteger : Nat := 2 ^ 53 - 1

def trim (s : List Char) : List Char :=
  ((s.dropWhile Jsonl.isTrimmed).reverse.dropWhile Jsonl.isTrimmed).reverse

def safePositive (n : Option Nat) : Nat :=
  match n with
  | some n => if n ≤ maxSafeInteger ∧ 0 < n then n else 0
  | none => 0

/-- A reservation is an object, or the bare number that older versions wrote. -/
def readSequenceReservation (content : List Char) : Except UnsupportedWorkerDataVersionError Nat :=
  match trim content with
  | '{' :: s => match parse ('{' :: s) with
    | none => .ok 0
    | some raw => do
        assertWorkerDataVersion raw "Worker sequence reservation" "version"
          SEQUENCE_RESERVATION_VERSION false
        match raw with
        | .obj fields => pure (safePositive ((fields.get "limit").bind natSchema))
        | _ => pure 0
  | s => .ok (if h : isNumber s = true then safePositive (Number.toNat? ⟨s, h⟩) else 0)

def reservationContent (limit : Nat) : List Char :=
  JsonLog.line (Fields.ofList [("version", .num (.ofNat SEQUENCE_RESERVATION_VERSION)),
    ("limit", .num (.ofNat limit))])

section Journal

variable (schemas : Schemas)

def readEvent (events : List EventEnvelope) (raw : Value) :
    Except UnsupportedWorkerDataVersionError (List EventEnvelope) := do
  assertWorkerDataVersion raw "Worker event journal" "protocolVersion" PROTOCOL_VERSION true
  match eventEnvelopeSchema schemas raw with
  | some event => pure (events ++ [event])
  | none => pure events

def readEvents (text : List Char) : Except UnsupportedWorkerDataVersionError (List EventEnvelope) :=
  (JsonLog.values text).foldlM (readEvent schemas) []

variable (workspaceId : String) (sessionId : Option String)

def read : JournalM (List EventEnvelope) := do
  match (← get).disk (pathFor workspaceId sessionId) with
  | none => pure []
  | some text => ofExcept (readEvents schemas text)

def reserveSequenceRange (after : Nat) : JournalM Unit := do
  let limit := after + 10000
  act (.write (sequencePathFor workspaceId sessionId) (reservationContent limit))
  onMemory fun m => { m with
    sequenceLimits :=
      Function.update m.sequenceLimits (sequenceKey workspaceId sessionId) (some limit) }

def setLastSequence (seq : Nat) : JournalM Unit :=
  onMemory fun m => { m with
    lastSequences := Function.update m.lastSequences (sequenceKey workspaceId sessionId) (some seq) }

def readReserved : JournalM Nat := do
  match (← get).disk (sequencePathFor workspaceId sessionId) with
  | none => pure 0
  | some content => ofExcept (readSequenceReservation content)

def lastSeq : JournalM Nat := do
  match (← get).memory.lastSequences (sequenceKey workspaceId sessionId) with
  | some cached => pure cached
  | none => do
      let events ← read schemas workspaceId sessionId
      let persisted := (events.getLast?.map EventEnvelope.seq).getD 0
      let reserved ← readReserved workspaceId sessionId
      let baseline := max persisted reserved
      setLastSequence workspaceId sessionId baseline
      reserveSequenceRange workspaceId sessionId baseline
      pure baseline

def persist (event : Fields) (envelope : EventEnvelope) : JournalM Unit :=
  if isSnapshot event then
    act (.write (pathFor workspaceId sessionId) (JsonLog.line envelope.fields))
  else act (.append (pathFor workspaceId sessionId) envelope)

def append (event : Fields) (correlationId : Option String) (now : String) :
    JournalM EventEnvelope := do
  let current ← lastSeq schemas workspaceId sessionId
  let limit := ((← get).memory.sequenceLimits (sequenceKey workspaceId sessionId)).getD current
  if current + 1 > limit then reserveSequenceRange workspaceId sessionId current
  let seq := current + 1
  let raw : EventEnvelope :=
    { source := some .worker, workspaceId, sessionId, correlationId, seq, timestamp := now, event }
  match eventEnvelopeSchema schemas (.obj raw.fields) with
  | none => throw .invalidEnvelope
  | some envelope => do
      setLastSequence workspaceId sessionId seq
      if shouldPersist event then persist workspaceId sessionId event envelope
      pure envelope

def replay (afterSeq : Nat) : JournalM (List EventEnvelope) := do
  let events ← read schemas workspaceId sessionId
  pure (events.filter (fun event => event.seq > afterSeq))

end Journal

section Requests

def itemsToList : Items → List Value
  | .nil => []
  | .cons v rest => v :: itemsToList rest

variable (schemas : Schemas)

def readRequestEvent (events : List EventEnvelope) (event : Value) :
    Except UnsupportedWorkerDataVersionError (List EventEnvelope) := do
  assertWorkerDataVersion event "Worker request event" "protocolVersion" PROTOCOL_VERSION true
  match eventEnvelopeSchema schemas event with
  | some event => pure (events ++ [event])
  | none => pure events

def readRequest (now : String) (entries : List CompletedRequest) (candidate : Value) :
    Except UnsupportedWorkerDataVersionError (List CompletedRequest) :=
  match candidate with
  | .obj fields => match fields.get "requestId", fields.get "events" with
    | some (.str requestId), some (.arr items) => do
        let events ← (itemsToList items).foldlM (readRequestEvent schemas) []
        let completedAt := match fields.get "completedAt" with
          | some (.str completedAt) => completedAt
          | _ => now
        pure (entries ++ [{ requestId, completedAt, events }])
    | _, _ => pure entries
  | _ => pure entries

def readVersionedRequests (value : Value) :
    Except UnsupportedWorkerDataVersionError (Option (List Value)) :=
  match value with
  | .obj fields => do
      assertWorkerDataVersion (.obj fields) "Worker request index" "version" REQUEST_INDEX_VERSION
        false
      match fields.get "requests" with
      | some (.arr items) => pure (some (itemsToList items))
      | _ => pure none
  | _ => pure none

def readRequestIndex (now : String) (text : List Char) :
    Except UnsupportedWorkerDataVersionError (List CompletedRequest) :=
  match parse text with
  | none => pure []
  | some raw => do
      let candidates ← match raw with
        | .arr items => pure (some (itemsToList items))
        | raw => readVersionedRequests raw
      (candidates.getD []).foldlM (readRequest schemas now) []

variable (workspaceId : String) (sessionId : Option String)

def setRequestIndex (entries : List CompletedRequest) : JournalM Unit :=
  onMemory fun m => { m with
    requestIndexes :=
      Function.update m.requestIndexes (requestPathFor workspaceId sessionId) (some entries) }

/-- A damaged index counts as empty: a command may then run again. -/
def requests (now : String) : JournalM (List CompletedRequest) := do
  let s ← get
  match s.memory.requestIndexes (requestPathFor workspaceId sessionId) with
  | some cached => pure cached
  | none => do
      let entries ← match s.disk (requestPathFor workspaceId sessionId) with
        | none => pure []
        | some text => ofExcept (readRequestIndex schemas now text)
      setRequestIndex workspaceId sessionId entries
      pure entries

def findCompletedRequest (requestId now : String) : JournalM (Option (List EventEnvelope)) := do
  let entries ← requests schemas workspaceId sessionId now
  pure ((entries.find? (fun entry => entry.requestId = requestId)).map CompletedRequest.events)

def CompletedRequest.toJson (entry : CompletedRequest) : Value :=
  .obj (Fields.ofList [("requestId", .str entry.requestId), ("completedAt", .str entry.completedAt),
    ("events", .arr (Items.ofList (entry.events.map (fun e => .obj e.fields))))])

def requestIndexContent (entries : List CompletedRequest) : List Char :=
  JsonLog.line (Fields.ofList [("version", .num (.ofNat REQUEST_INDEX_VERSION)),
    ("requests", .arr (Items.ofList (entries.map CompletedRequest.toJson)))])

def completeRequest (requestId : String) (events : List EventEnvelope) (now : String) :
    JournalM Unit := do
  if events.length = 0 then pure ()
  else do
    let entries ← requests schemas workspaceId sessionId now
    let entries := entries.filter (fun entry => entry.requestId ≠ requestId) ++
      [{ requestId, completedAt := now, events }]
    let retained := entries.drop (entries.length - 500)
    setRequestIndex workspaceId sessionId retained
    act (.write (requestPathFor workspaceId sessionId) (requestIndexContent retained))

def deleteSession (workspaceId sessionId : String) : JournalM Unit := do
  act (.remove (pathFor workspaceId (some sessionId)))
  act (.remove (requestPathFor workspaceId (some sessionId)))
  onMemory fun m => { m with
    lastSequences :=
      Function.update m.lastSequences (sequenceKey workspaceId (some sessionId)) none
    sequenceLimits :=
      Function.update m.sequenceLimits (sequenceKey workspaceId (some sessionId)) none }
  act (.remove (sequencePathFor workspaceId (some sessionId)))
  onMemory fun m => { m with
    requestIndexes :=
      Function.update m.requestIndexes (requestPathFor workspaceId (some sessionId)) none }

end Requests

end Kross.Worker

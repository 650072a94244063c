import Kross.Mutation.Map
import Kross.Session.Title
import Mathlib.Algebra.Group.Nat.Defs
import Mathlib.Data.List.Sort
import Mathlib.Tactic.Common

namespace Kross.Service

inductive AgentMode
  | auto
  | plan
  | conductor

/-- The settings of a session that outlive its runtime. -/
structure Settings where
  model : Option String
  modelProfileId : Option String
  thinkingEffort : Option String
  permissionMode : Option String

def Settings.empty : Settings := ⟨none, none, none, none⟩

/-- `{ ...settings, ...patch }` -/
def Settings.merge (settings patch : Settings) : Settings where
  model := patch.model.or settings.model
  modelProfileId := patch.modelProfileId.or settings.modelProfileId
  thinkingEffort := patch.thinkingEffort.or settings.thinkingEffort
  permissionMode := patch.permissionMode.or settings.permissionMode

def Settings.isEmpty (settings : Settings) : Bool :=
  settings.model.isNone && settings.modelProfileId.isNone && settings.thinkingEffort.isNone &&
    settings.permissionMode.isNone

inductive RuntimeCommand
  | instructions
  | skills
  | processes
  | undo
  | mcp
  deriving DecidableEq

inductive InspectionKind
  | trace
  | diff

inductive GitOperation
  | push
  | pullRequest

/-- What a client asks for, with the fields that the worker reads. -/
inductive Request
  | create
  | list (limit : Option Nat)
  | resume (sessionId : String) (lastSeq : Nat)
  | rename (sessionId title : String)
  | delete (sessionId : String)
  | input (sessionId input : String) (mode : AgentMode) (planApproved : Bool)
  | approval (sessionId runId : String) (approved : Bool) (reason : Option String)
  | planApproval (sessionId : String) (approved : Bool) (input : Option String)
  | abort (sessionId : String)
  | settings (sessionId : String) (patch : Settings) (mode : Option AgentMode)
  | inspect (sessionId : String) (kind : InspectionKind)
  | compact (sessionId : String) (instructions : Option String)
  | runtimeCommand (sessionId : String) (name : RuntimeCommand)
  | git (sessionId : String) (operation : GitOperation)
  | status
  | models
  | upsertProfile (label provider model : String)
  | deleteProfile (profileId : String)
  | clearProfiles
  | configureGateway (provider model : String)
  | other (type : String)

def Request.sessionId : Request → Option String
  | .resume sessionId _ | .rename sessionId _ | .delete sessionId | .input sessionId _ _ _
  | .approval sessionId _ _ _ | .planApproval sessionId _ _ | .abort sessionId
  | .settings sessionId _ _ | .inspect sessionId _ | .compact sessionId _
  | .runtimeCommand sessionId _ | .git sessionId _ => some sessionId
  | _ => none

def Request.isResume : Request → Bool
  | .resume _ _ => true
  | _ => false

structure ClientCommand where
  requestId : String
  workspaceId : Option String
  request : Request

inductive ServerEvent
  | requestAccepted (requestId : String)
  | requestError (requestId code message : String)
  | sessionList
  | sessionSnapshot
  | sessionUpdated (title : Option String)
  | sessionDeleted (sessionId : String)
  | stream
  | trace
  | todoSnapshot
  | approvalPending
  | replayComplete (fromSeq : Nat)
  | inspectionResult (content : String)
  | runtimeCommandResult (name : RuntimeCommand) (ok : Bool) (content : String)
  | gitResult (ok : Bool) (output : String)
  | modelsList
  | runtimeStatus (activeRuns loadedSessions : Nat)

def ServerEvent.isError : ServerEvent → Bool
  | .requestError _ _ _ => true
  | _ => false

inductive MessageFrom
  | user
  | agent
  | system
  | tool
  | thinking
  deriving DecidableEq

/-- A message; one of a tool names the call it is about. -/
structure StoredMessage where
  id : Nat
  sender : MessageFrom
  text : String
  callId : Option String

/-- What the store holds of a session. A state of the runtime is the text that it
is exported as. -/
structure StoredSession where
  title : Option String
  messages : List StoredMessage
  contextState : Option (String × Option Nat)
  workState : Option String

def StoredSession.created : StoredSession := ⟨none, [], none, none⟩

def StoredSession.upsertMessage (message : StoredMessage) (stored : StoredSession) : StoredSession :=
  if stored.messages.any (fun m => m.id = message.id) then
    { stored with messages := stored.messages.map (fun m => if m.id = message.id then message else m) }
  else { stored with messages := stored.messages ++ [message] }

/-- What the service sees of an `AgentRuntime`. -/
structure Runtime where
  pendingToolApproval : Option String
  pendingModeExecution : Option AgentMode
  contextState : String
  workState : String
  client : Option (String × String)

structure RunResult where
  summary : String
  approvalRequired : Bool
  pendingApproval : Bool

inductive AgentRunStreamEvent
  | textDelta (text : String)
  | thinkingDelta (text : String)
  | turnStart
  | toolsStart
  | result (result : RunResult)
  | other

structure WorkspaceProfile where
  id : String
  label : String
  provider : String
  model : String

/-- `toFixed(1)` of a quotient by a power of two. -/
def toTenths (bytes unit : Nat) : String :=
  let tenths := (bytes * 10 + unit / 2) / unit
  toString (tenths / 10) ++ "." ++ toString (tenths % 10)

def formatDiskBytes (bytes : Nat) : String :=
  if 1024 ^ 3 ≤ bytes then toTenths bytes (1024 ^ 3) ++ " GiB"
  else if 1024 ^ 2 ≤ bytes then toTenths bytes (1024 ^ 2) ++ " MiB"
  else toString ((bytes + 1023) / 1024) ++ " KiB"

structure WorkerServiceOptions where
  workspaceId : String
  diskLimitBytes : Option Nat
  maxActiveSessions : Nat
  sessionIdleMs : Nat
  gateway : Option (String × String)
  randomUUID : Nat → String
  selectRow : List String → String → Option String

/-- The id that the `n`th call of `randomUUID` makes. -/
def WorkerServiceOptions.createSessionId (options : WorkerServiceOptions) (n : Nat) : String :=
  "session-" ++ options.randomUUID n

open Mutation (mapGet mapSet mapDelete)

/-- An `ActiveSession` object with the runtime that it wraps. It is `subscribed`
until its listeners are taken off the runtime. -/
structure ActiveSession where
  id : String
  runtime : Runtime
  nextMessageId : Nat
  toolMessages : List (String × Nat)
  abortController : Bool
  subscribed : Bool
  lastUsedAt : Nat
  modelProfileId : Option String

/-- A run is in progress, or a tool approval or a mode execution is pending. -/
def ActiveSession.busy (session : ActiveSession) : Bool :=
  session.abortController || session.runtime.pendingToolApproval.isSome ||
    session.runtime.pendingModeExecution.isSome

/-- The local variables of `consumeStream`. -/
structure StreamState where
  segmentFrom : Option MessageFrom
  segmentText : String
  segmentMessage : Option StoredMessage
  hasAgentText : Bool
  finalResult : Option RunResult

def StreamState.empty : StreamState := ⟨none, "", none, false, none⟩

/-- What a call of `handle` awaits. Sessions are given as the places of their
objects, and a call that is `done` was recorded as completed or not. -/
inductive Point
  | evicting (now : Nat) (candidates : List Nat)
  | entered
  | checkingDisk
  | loading (load : Nat)
  | joining (load : Nat)
  | got (session : Nat)
  | streaming (session : Nat) (stream : StreamState)
  | interrupting (session : Nat)
  | formatting (session : Nat)
  | inspecting (session : Nat)
  | compacting (session : Nat)
  | commanding (session : Nat)
  | operating (session : Nat)
  | deleting
  | ending
  | done (completed : Bool)

/-- A call of `handle`, with the events it has sent under its own request. -/
structure Task where
  command : ClientCommand
  point : Point
  events : List ServerEvent

/-- What a call of `initializeRuntime` awaits, or how its promise is settled. -/
inductive LoadPoint
  | creating (stored : Option StoredSession)
  | evicting (session now : Nat) (candidates : List Nat)
  | loaded (session : Nat)
  | failed

/-- A call of `initializeRuntime`, and the call of `handle` that made it. -/
structure Load where
  sessionId : String
  owner : Nat
  point : LoadPoint

/-- What an eviction did: the session it closed, and the one that the map had under
its id, both as they were. -/
structure Eviction where
  closed : ActiveSession
  entry : Option ActiveSession

/-- What a restart loses. `objects` are all sessions that were ever loaded, `closed`
those whose runtime was closed. -/
structure Memory where
  clock : Nat
  objects : List ActiveSession
  sessions : List (String × Nat)
  loadingSessions : List (String × Nat)
  loads : List Load
  gateway : Option (String × String)
  closed : List Nat
  evicted : List Eviction

/-- The files. `deleted` are the sessions whose deletion was accepted, and `ledger`
the requests completed for a session. -/
structure Storage where
  sessions : List (String × StoredSession)
  settings : String → Option Settings
  journal : Option String → List ServerEvent
  requests : Option String → List (String × List ServerEvent)
  profiles : List WorkspaceProfile
  drawn : Nat
  deleted : List String
  ledger : Option String → List String

/-- The service and its calls. `effects` names the calls that have changed anything. -/
structure World where
  memory : Memory
  storage : Storage
  tasks : List Task
  effects : List Nat

namespace Memory

def session? (r : Nat) (m : Memory) : Option ActiveSession := m.objects[r]?

def update (r : Nat) (f : ActiveSession → ActiveSession) (m : Memory) : Memory :=
  { m with objects := m.objects.modify r f }

def isBusy (r : Nat) (m : Memory) : Bool := (m.session? r).any ActiveSession.busy

def touch (r : Nat) (m : Memory) : Memory := m.update r (fun s => { s with lastUsedAt := m.clock })

def unsubscribe (r : Nat) (m : Memory) : Memory := m.update r (fun s => { s with subscribed := false })

/-- `closeRuntimeHandle` up to its first await. -/
def close (r : Nat) (m : Memory) : Memory := { m with closed := m.closed ++ [r] }

/-- The candidates for an eviction, the least recently used first. -/
def candidates (excludeSessionId : Option String) (m : Memory) : List Nat :=
  ((m.sessions.map Prod.snd).filter (fun r => (m.session? r).any (fun s =>
    some s.id ≠ excludeSessionId && !s.busy))).insertionSort (fun a b =>
      ((m.session? a).map ActiveSession.lastUsedAt).getD 0 ≤
        ((m.session? b).map ActiveSession.lastUsedAt).getD 0)

end Memory

section Eviction

variable (options : WorkerServiceOptions)

def expendable (now r : Nat) (m : Memory) : Bool :=
  m.sessions.length > options.maxActiveSessions ||
    (m.session? r).any (fun s => s.lastUsedAt + options.sessionIdleMs ≤ now)

/-- The body of the loop of `evictSessions` up to its await. -/
def Memory.evict (r : Nat) (m : Memory) : Memory :=
  match m.session? r with
  | none => m
  | some s =>
      let evicted := ⟨s, (mapGet s.id m.sessions).bind m.session?⟩
      ({ m with sessions := mapDelete s.id m.sessions, evicted := m.evicted ++ [evicted] }.unsubscribe
        r).close r

/-- The loop of `evictSessions` up to its next await, with the candidates left then. -/
def Memory.evictLoop (now : Nat) (m : Memory) : List Nat → Memory × Option (List Nat)
  | [] => (m, none)
  | r :: rest => if expendable options now r m then (m.evict r, some rest) else m.evictLoop now rest

end Eviction

namespace Storage

def updateStored (sessionId : String) (f : StoredSession → StoredSession) (s : Storage) : Storage :=
  match mapGet sessionId s.sessions with
  | none => s
  | some stored => { s with sessions := mapSet sessionId (f stored) s.sessions }

/-- The session that a selector means. -/
def loadSession (options : WorkerServiceOptions) (selector : String) (s : Storage) :
    Option StoredSession :=
  (options.selectRow (s.sessions.map Prod.fst) selector).bind (fun id => mapGet id s.sessions)

/-- What `EventJournal.append` leaves in the file of a session. -/
def append (event : ServerEvent) (events : List ServerEvent) : List ServerEvent :=
  match event with
  | .sessionSnapshot => [event]
  | .approvalPending | .sessionUpdated _ | .gitResult _ _ => events ++ [event]
  | _ => events

def emit (sessionId : Option String) (event : ServerEvent) (s : Storage) : Storage :=
  { s with journal := Function.update s.journal sessionId (append event (s.journal sessionId)) }

def updateSettings (sessionId : String) (patch : Settings) (s : Storage) : Storage :=
  { s with
    settings := Function.update s.settings sessionId
      (some (((s.settings sessionId).getD .empty).merge patch)) }

def findCompletedRequest (sessionId : Option String) (requestId : String) (s : Storage) :
    Option (List ServerEvent) := mapGet requestId (s.requests sessionId)

/-- Of the entries the last 500 are retained. -/
def completeRequest (sessionId : Option String) (requestId : String) (events : List ServerEvent)
    (s : Storage) : Storage :=
  let entries := mapDelete requestId (s.requests sessionId) ++ [(requestId, events)]
  { s with
    requests := Function.update s.requests sessionId (entries.drop (entries.length - 500))
    ledger := Function.update s.ledger sessionId (s.ledger sessionId ++ [requestId]) }

/-- What `deleteSession` does to the store, the settings and the journal. -/
def deleteSession (sessionId : String) (s : Storage) : Storage :=
  { s with
    sessions := mapDelete sessionId s.sessions
    settings := Function.update s.settings sessionId none
    journal := Function.update s.journal (some sessionId) []
    requests := Function.update s.requests (some sessionId) []
    ledger := Function.update s.ledger (some sessionId) []
    deleted := sessionId :: s.deleted }

end Storage

namespace World

def onMemory (f : Memory → Memory) (w : World) : World := { w with memory := f w.memory }

def onStorage (f : Storage → Storage) (w : World) : World := { w with storage := f w.storage }

def onTask (i : Nat) (f : Task → Task) (w : World) : World := { w with tasks := w.tasks.modify i f }

def await (i : Nat) (point : Point) (w : World) : World := w.onTask i (fun t => { t with point })

def finish (i : Nat) (w : World) : World := w.await i .ending

/-- The call changes something. -/
def act (i : Nat) (w : World) : World := { w with effects := w.effects ++ [i] }

/-- An event that is not correlated with a request. -/
def emit (sessionId : Option String) (event : ServerEvent) (w : World) : World :=
  w.onStorage (.emit sessionId event)

def reply (i : Nat) (sessionId : Option String) (event : ServerEvent) (w : World) : World :=
  (w.emit sessionId event).onTask i (fun t => { t with events := t.events ++ [event] })

end World

end Kross.Service

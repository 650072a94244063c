import Kross.Json

namespace Kross.Web.UseCloud

open Json (Value)

inductive From
  | user
  | agent
  | system
  | tool
  | thinking
  deriving DecidableEq

/-- A record of JSON values. -/
abbrev Payload := String → Option Value

structure LiveTool where
  type : String
  payload : Payload

/-- A message on the screen; `none` stands for an id that `crypto.randomUUID` made. -/
structure UiMessage where
  id : Option String
  from' : From
  text : String
  tool : Option Value
  liveTool : Option LiveTool
  verification : Option Value
  streaming : Option Bool
  transient : Bool

structure StoredMessage where
  id : Nat
  from' : From
  text : String
  tool : Option Value
  verification : Option Value

structure Trace where
  id : String
  runId : String
  type : String
  payload : Payload

structure SessionSummary where
  id : String
  rest : Value

structure SessionSnapshot where
  summary : SessionSummary
  messages : List StoredMessage
  pendingApproval : Option Value
  pendingPlan : Option Value
  todos : Value
  traces : List Trace
  rest : Value

structure CloudWorkspace where
  id : String
  status : String
  rest : Value

structure WorkspaceProgress where
  workspaceId : String
  stage : String
  rest : Value

structure AgentResult where
  cancellationReason : Option String
  pendingApproval : Option Value
  rest : Value

inductive StreamEvent
  | turnStart
  | toolsStart
  | textDelta (text : String)
  | thinkingDelta (text : String)
  | result (result : AgentResult)

inductive ServerEvent
  | workspaceList (data : List CloudWorkspace)
  | workspaceUpdated (data : CloudWorkspace)
  | workspaceProgress (data : WorkspaceProgress)
  | sessionList (data : List SessionSummary)
  | modelsList (data : Value)
  | sessionUpdated (data : SessionSummary)
  | sessionDeleted (sessionId : String)
  | sessionSnapshot (data : SessionSnapshot)
  | stream (data : StreamEvent)
  | trace (data : Trace)
  | approvalPending (data : Value)
  | todoSnapshot (data : Value)
  | inspectionResult (data : Value)
  | runtimeCommandResult (ok : Bool) (content : String)
  | gitResult (operation : String) (ok : Bool) (url : Option String) (output : String)
  | requestError (requestId : Option String) (message : String)
  | other

structure EventEnvelope where
  workspaceId : String
  sessionId : Option String
  correlationId : Option String
  event : ServerEvent

structure ErrorNote where
  id : String
  message : String

structure CloudState where
  workspaces : List CloudWorkspace
  workspaceId : Option String
  activeSessionId : Option String
  pendingSessionCreateRequestId : Option String
  sessions : List SessionSummary
  models : Option Value
  snapshot : Option SessionSnapshot
  messages : List UiMessage
  traces : List Trace
  inspection : Option Value
  workspaceProgress : Option WorkspaceProgress
  lastResult : Option AgentResult
  errors : List ErrorNote
  running : Bool

/-- What is dispatched; `uuid` is what `crypto.randomUUID` gives for the id of an error. -/
inductive Action
  | event (envelope : EventEnvelope) (uuid : String)
  | selectWorkspace (id : String)
  | selectSession (id : String)
  | creatingSession (requestId : String)
  | optimisticUser (text : String)
  | localMessage (from' : From) (text : String)
  | clearError (id : String)
  | clearInspection
  | clearWorkspaceProgress

def initialState : CloudState where
  workspaces := []
  workspaceId := none
  activeSessionId := none
  pendingSessionCreateRequestId := none
  sessions := []
  models := none
  snapshot := none
  messages := []
  traces := []
  inspection := none
  workspaceProgress := none
  lastResult := none
  errors := []
  running := false

section Messages

def plainMessage (sender : From) (text : String) : UiMessage := ⟨none, sender, text, none, none, none, none, false⟩

def transientMessage (sender : From) (text : String) : UiMessage := { plainMessage sender text with transient := true }

def streamingMessage (sender : From) (text : String) : UiMessage :=
  { transientMessage sender text with streaming := some true }

def UiMessage.still (message : UiMessage) : UiMessage := { message with streaming := some false }

def hydrate (message : StoredMessage) : UiMessage :=
  ⟨some (toString message.id), message.from', message.text, message.tool, none, message.verification, none, false⟩

def hydrateSnapshotMessages (messages : List StoredMessage) : List UiMessage := messages.map hydrate

/-- Whether one of the messages is the user's and has the text. -/
def saidByUser (messages : List UiMessage) (text : String) : Bool :=
  messages.any fun candidate => candidate.from' = .user && candidate.text = text

def reconcileSnapshotMessages (current : List UiMessage) (persisted : List StoredMessage) : List UiMessage :=
  let hydrated := hydrateSnapshotMessages persisted
  let optimisticUsers := current.filter fun message =>
    message.transient && message.from' = .user && !saidByUser hydrated message.text
  hydrated ++ optimisticUsers

def replaceSessionSummary (sessions : List SessionSummary) (summary : SessionSummary) : List SessionSummary :=
  match sessions.findIdx? fun session => session.id = summary.id with
  | none => summary :: sessions
  | some index => sessions.set index summary

def isToolCall (trace : Trace) : Bool := "tool_call.".isPrefixOf trace.type

def isTrue : Option Value → Bool
  | some (.bool b) => b
  | _ => false

def isSubagentToolTrace (trace : Trace) : Bool :=
  if "subagent.".isPrefixOf trace.type then false
  else ("sub-".isPrefixOf trace.runId || isTrue (trace.payload "isSubagent")) && isToolCall trace

/-- `value ?? fallback`, where null is no value. -/
def orElse (value fallback : Option Value) : Option Value :=
  match value with
  | none | some .null => fallback
  | some value => some value

def callIdOf (trace : Trace) : String :=
  match trace.payload "callId" with
  | some (.str callId) => callId
  | _ => trace.id

/-- `(message.liveTool.payload.callId ?? message.id) === callId` for a message with a live tool -/
def isLiveCall (callId : String) (message : UiMessage) : Bool :=
  match message.liveTool with
  | none => false
  | some live =>
    match orElse (live.payload "callId") (message.id.map Value.str) with
    | some (.str id) => id = callId
    | _ => false

/-- `toText` is `String(value)`. -/
def upsertLiveToolMessage (toText : Value → String) (messages : List UiMessage) (trace : Trace) : List UiMessage :=
  if !isToolCall trace || isSubagentToolTrace trace then messages
  else
    let callId := callIdOf trace
    let text := match orElse (trace.payload "summary") (orElse (trace.payload "message") (trace.payload "toolName")) with
      | none | some .null => ""
      | some value => toText value
    let live (id : Option String) (previous : Payload) : UiMessage :=
      { plainMessage .tool text with
        id
        liveTool := some ⟨trace.type, fun key => trace.payload key <|> previous key⟩
        transient := true }
    match messages.findIdx? (isLiveCall callId) with
    | none => messages ++ [live (some ("live-tool:" ++ callId)) fun _ => none]
    | some index =>
      match messages[index]? with
      | none => messages
      | some existing =>
        messages.set index (live existing.id fun key => existing.liveTool.bind fun l => l.payload key)

end Messages

section Reducer

def selectWorkspaceIdAfterUpdate (current : Option String) (workspace : CloudWorkspace) : Option String :=
  current <|> if workspace.status = "creating" then none else some workspace.id

def still (s : CloudState) : CloudState := { s with messages := s.messages.map UiMessage.still }

/-- The branch of applyStream for text and thinking. -/
def extendMessages (sender : From) (text : String) (messages : List UiMessage) : List UiMessage :=
  match messages.getLast? with
  | some last =>
    if last.streaming = some true && last.from' = sender then
      messages.dropLast ++ [{ last with text := last.text ++ text }]
    else messages.map UiMessage.still ++ [streamingMessage sender text]
  | none => [streamingMessage sender text]

def applyDelta (sender : From) (text : String) (s : CloudState) : CloudState :=
  { s with messages := extendMessages sender text s.messages }

def applyStream (s : CloudState) : StreamEvent → CloudState
  | .turnStart => { still s with running := true }
  | .thinkingDelta text => applyDelta .thinking text s
  | .textDelta text => applyDelta .agent text s
  | .toolsStart => still s
  | .result result =>
    let pendingPlan := if result.cancellationReason = some "approval-gate" then s.snapshot.bind (·.pendingPlan) else none
    { still s with
      running := false
      lastResult := some result
      snapshot := s.snapshot.map fun snapshot => { snapshot with pendingApproval := result.pendingApproval, pendingPlan } }

def cleared (s : CloudState) : CloudState :=
  { s with snapshot := none, messages := [], traces := [], lastResult := none }

def lastOf {α : Type} (n : Nat) (l : List α) : List α := l.drop (l.length - n)

/-- Whether the reducer lets an event through to the session on the screen. -/
def concerns (s : CloudState) (envelope : EventEnvelope) : Bool :=
  match envelope.sessionId with
  | none => true
  | some sessionId =>
    sessionId = "" || s.activeSessionId = some sessionId ||
      match envelope.event with
      | .sessionUpdated _ => true
      | .sessionSnapshot _ => envelope.correlationId = s.pendingSessionCreateRequestId
      | _ => false

def onEvent (toText : Value → String) (s : CloudState) (envelope : EventEnvelope) (uuid : String) : CloudState :=
  match envelope.event with
  | .workspaceList data => { s with workspaces := data, workspaceId := s.workspaceId <|> data.head?.map (·.id) }
  | .workspaceUpdated data =>
    { s with
      workspaces := data :: s.workspaces.filter fun workspace => workspace.id ≠ data.id
      workspaceId := selectWorkspaceIdAfterUpdate s.workspaceId data }
  | .workspaceProgress data => { s with workspaceProgress := some data }
  | .sessionList data => { s with sessions := data }
  | .modelsList data => { s with models := some data }
  | .sessionUpdated data =>
    { s with
      sessions := replaceSessionSummary s.sessions data
      snapshot := s.snapshot.map fun snapshot =>
        if snapshot.summary.id = data.id then { snapshot with summary := data } else snapshot }
  | .sessionDeleted sessionId =>
    let s' := { s with sessions := s.sessions.filter fun session => session.id ≠ sessionId }
    if s.activeSessionId = some sessionId then { cleared s' with activeSessionId := none } else s'
  | .sessionSnapshot data =>
    { s with
      workspaceId := some envelope.workspaceId
      activeSessionId := envelope.sessionId
      pendingSessionCreateRequestId := none
      snapshot := some data
      sessions := replaceSessionSummary s.sessions data.summary
      messages := reconcileSnapshotMessages s.messages data.messages
      traces := data.traces
      running := false }
  | .stream data => applyStream s data
  | .trace data =>
    { s with
      messages := upsertLiveToolMessage toText s.messages data
      traces := lastOf 200 ((s.traces.filter fun trace => trace.id ≠ data.id) ++ [data]) }
  | .approvalPending data =>
    { s with
      running := false
      snapshot := s.snapshot.map fun snapshot => { snapshot with pendingApproval := some data } }
  | .todoSnapshot data => { s with snapshot := s.snapshot.map fun snapshot => { snapshot with todos := data } }
  | .inspectionResult data => { s with inspection := some data }
  | .runtimeCommandResult ok content =>
    { s with messages := s.messages ++ [transientMessage (if ok then .agent else .system) content] }
  | .gitResult operation ok url output =>
    let heading := if operation = "push" then "Git Push" else "Pull Request"
    let text := heading ++ " " ++ (if ok then "完成" else "失败") ++ "\n\n" ++ url.getD output
    { s with messages := s.messages ++ [plainMessage .system text] }
  | .requestError requestId message =>
    let errorId := (envelope.correlationId <|> requestId).getD uuid
    { s with
      running := false
      errors := lastOf 5 ((s.errors.filter fun error => error.id ≠ errorId) ++ [⟨errorId, message⟩]) }
  | .other => s

def clearProgress (s : CloudState) : CloudState :=
  let failedId := s.workspaceProgress.bind fun progress =>
    if progress.stage = "failed" then some progress.workspaceId else none
  let workspaces := if failedId.any (· ≠ "") then s.workspaces.filter fun workspace => some workspace.id ≠ failedId
    else s.workspaces
  { s with
    workspaces
    workspaceId := if s.workspaceId = failedId then workspaces.head?.map (·.id) else s.workspaceId
    workspaceProgress := none }

def reducer (toText : Value → String) (s : CloudState) : Action → CloudState
  | .selectWorkspace id =>
    { cleared s with
      workspaceId := some id
      activeSessionId := none
      pendingSessionCreateRequestId := none
      sessions := [] }
  | .selectSession id => { cleared s with activeSessionId := some id }
  | .creatingSession requestId => { s with pendingSessionCreateRequestId := some requestId }
  | .optimisticUser text => { s with running := true, messages := s.messages ++ [transientMessage .user text] }
  | .localMessage sender text => { s with messages := s.messages ++ [transientMessage sender text] }
  | .clearError id => { s with errors := s.errors.filter fun error => error.id ≠ id }
  | .clearInspection => { s with inspection := none }
  | .clearWorkspaceProgress => clearProgress s
  | .event envelope uuid => if concerns s envelope then onEvent toText s envelope uuid else s

end Reducer

end Kross.Web.UseCloud

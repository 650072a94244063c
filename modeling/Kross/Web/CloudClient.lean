import Kross.Worker.Envelope
import Mathlib.Logic.Function.Basic

namespace Kross.Web

open Kross.Json Kross.Worker

inductive ConnectionState
  | connecting
  | online
  | offline
  | outdated
  | unauthorized
  deriving DecidableEq

structure OutgoingCommand where
  type : String
  fields : Fields

structure QueuedCommand where
  command : OutgoingCommand
  requestId : String

/-- A call of `consumeEventStream` that has not ended. It awaits the response
until it is `reading` the body of it. -/
structure EventStream where
  generation : Nat
  reading : Bool
  aborted : Bool
  invalidEnvelopes : Nat

/-- Where the call of `drainCommands` stands: it awaits the answer to a POST, or
the body of a rejection. -/
inductive Drain
  | idle
  | posting (item : QueuedCommand)
  | rejected (requestId : String) (status : Nat)

def Drain.item : Drain → Option QueuedCommand
  | .posting item => some item
  | _ => none

inductive TimerAction
  | reconnect
  | heartbeat (generation : Nat)

structure Timer where
  id : Nat
  action : TimerAction

/-- The fields of a `CloudClient`, what it awaits, and the `localStorage`. `posts`
and `delivered` are what it sent and what its event listeners were given, and
`drawn` counts the request ids. -/
structure CloudClient where
  streamAbort : Option Nat
  reconnectTimer : Option Nat
  heartbeatTimer : Option Nat
  streamGeneration : Nat
  closed : Bool
  state : ConnectionState
  queuedCommands : List QueuedCommand
  handledSeq : String → Option Nat
  activeSession : Option (String × String)
  streams : List EventStream
  drain : Drain
  timers : List Timer
  nextTimer : Nat
  localStorage : String → Option Nat
  drawn : Nat
  posts : List QueuedCommand
  delivered : List EventEnvelope

def seqKey (workspaceId sessionId : String) : String :=
  "kross.seq." ++ workspaceId ++ "." ++ sessionId

def sessionKey (workspaceId sessionId : String) : String := workspaceId ++ "\x00" ++ sessionId

/-- The status of a response with which `fetch` calls it `ok`. -/
def isOk (status : Nat) : Bool := 200 ≤ status && status < 300

def isRejection (status : Nat) : Bool := 400 ≤ status && status < 500

def rejectionMessage (status : Nat) : String := "命令被拒绝（" ++ toString status ++ "）"

/-- What `response.json()` gives, if it does not throw. -/
def responseError (status : Nat) (body : Option Value) : Value :=
  match body with
  | some (.obj fields) => match fields.get "error" with
    | none | some .null => .str (rejectionMessage status)
    | some error => error
  | _ => .str (rejectionMessage status)

def localError (requestId : String) (message : Value) (now : String) : EventEnvelope :=
  { source := some .gateway, workspaceId := "$gateway", sessionId := none,
    correlationId := some requestId, seq := 0, timestamp := now,
    event := Fields.ofList [("type", .str "request.error"), ("requestId", .str requestId),
      ("code", .str "COMMAND_REJECTED"), ("message", message)] }

namespace CloudClient

/-- A new client beside what earlier ones stored. -/
def fresh (localStorage : String → Option Nat) : CloudClient where
  streamAbort := none
  reconnectTimer := none
  heartbeatTimer := none
  streamGeneration := 0
  closed := false
  state := .offline
  queuedCommands := []
  handledSeq := fun _ => none
  activeSession := none
  streams := []
  drain := .idle
  timers := []
  nextTimer := 0
  localStorage
  drawn := 0
  posts := []
  delivered := []

def isTerminalState (s : CloudClient) : Bool := s.state = .outdated || s.state = .unauthorized

def emitState (state : ConnectionState) (s : CloudClient) : CloudClient := { s with state }

def readLastSeq (s : CloudClient) (workspaceId sessionId : String) : Nat :=
  (s.localStorage (seqKey workspaceId sessionId)).getD 0

def updateStream (generation : Nat) (f : EventStream → EventStream) (s : CloudClient) : CloudClient :=
  { s with streams := s.streams.map (fun t => if t.generation = generation then f t else t) }

def stream? (generation : Nat) (s : CloudClient) : Option EventStream :=
  s.streams.find? (fun t => t.generation = generation)

/-- `this.streamAbort?.abort()` -/
def abortStream (s : CloudClient) : CloudClient :=
  match s.streamAbort with
  | none => s
  | some generation => s.updateStream generation (fun t => { t with aborted := true })

def clearTimeout (timer : Option Nat) (s : CloudClient) : CloudClient :=
  { s with timers := s.timers.filter (fun t => some t.id ≠ timer) }

def setTimeout (action : TimerAction) (s : CloudClient) : CloudClient :=
  { s with timers := s.timers ++ [⟨s.nextTimer, action⟩], nextTimer := s.nextTimer + 1 }

def touchHeartbeat (generation : Nat) (s : CloudClient) : CloudClient :=
  { (s.clearTimeout s.heartbeatTimer).setTimeout (.heartbeat generation) with
    heartbeatTimer := some s.nextTimer }

def disconnectStream (s : CloudClient) : CloudClient :=
  (if s.isTerminalState then s else s.emitState .offline).abortStream

def handleUnauthorized (s : CloudClient) : CloudClient :=
  if s.state = .unauthorized then s else (s.emitState .unauthorized).abortStream

def checkProtocolMismatch (count : Nat) (s : CloudClient) : CloudClient :=
  if count < 3 ∨ s.state = .outdated then s else (s.emitState .outdated).abortStream

def openStream (s : CloudClient) : CloudClient :=
  if s.closed then s
  else
    { s.clearTimeout s.reconnectTimer with
      reconnectTimer := none
      streamGeneration := s.streamGeneration + 1
      streamAbort := some (s.streamGeneration + 1)
      state := .connecting
      streams := s.streams ++ [⟨s.streamGeneration + 1, false, false, 0⟩] }

def connect (s : CloudClient) : CloudClient :=
  if !s.closed && (s.streamAbort.isSome || s.reconnectTimer.isSome) then s
  else openStream { s with closed := false }

def close (s : CloudClient) : CloudClient :=
  { ((s.clearTimeout s.reconnectTimer).clearTimeout s.heartbeatTimer).abortStream with
    closed := true
    streamGeneration := s.streamGeneration + 1
    reconnectTimer := none
    heartbeatTimer := none
    streamAbort := none
    queuedCommands := [] }

def reconnect (s : CloudClient) : CloudClient :=
  if s.closed || s.isTerminalState then s
  else { (s.emitState .offline).setTimeout .reconnect with reconnectTimer := some s.nextTimer }

/-- The `finally` of `consumeEventStream`. -/
def endStream (generation : Nat) (s : CloudClient) : CloudClient :=
  let ended : CloudClient :=
    { s.clearTimeout s.heartbeatTimer with
      heartbeatTimer := none
      streams := s.streams.filter (fun t => t.generation ≠ generation) }
  if generation ≠ s.streamGeneration then ended
  else reconnect { ended with streamAbort := none }

def setActiveSession (workspaceId sessionId : String) (s : CloudClient) : CloudClient :=
  { s with
    activeSession := some (workspaceId, sessionId)
    handledSeq := Function.update s.handledSeq (sessionKey workspaceId sessionId)
      (some (s.readLastSeq workspaceId sessionId)) }

def clearActiveSession (s : CloudClient) : CloudClient := { s with activeSession := none }

/-- The loop of `drainCommands` up to its next POST, or to its end. -/
def drainNext (s : CloudClient) : CloudClient :=
  if !s.closed && s.state = .online then
    match s.queuedCommands with
    | [] => { s with drain := .idle }
    | item :: _ => { s with drain := .posting item, posts := s.posts ++ [item] }
  else { s with drain := .idle }

def drainCommands (s : CloudClient) : CloudClient :=
  match s.drain with
  | .idle => if s.state = .online then s.drainNext else s
  | _ => s

def deliver (envelope : EventEnvelope) (s : CloudClient) : CloudClient :=
  { s with delivered := s.delivered ++ [envelope] }

def handled (key : String) (s : CloudClient) : Nat := (s.handledSeq key).getD 0

def receiveEvent (envelope : EventEnvelope) (s : CloudClient) : CloudClient :=
  match envelope.sessionId with
  | none => s.deliver envelope
  | some sessionId =>
      if sessionId ≠ "" ∧ envelope.source ≠ some .gateway ∧ 0 < envelope.seq then
        let key := sessionKey envelope.workspaceId sessionId
        if envelope.seq ≤ s.handled key then s
        else deliver envelope
          { s with
            handledSeq := Function.update s.handledSeq key (some envelope.seq)
            localStorage := Function.update s.localStorage (seqKey envelope.workspaceId sessionId)
              (some envelope.seq) }
      else s.deliver envelope

section Schema

variable (schemas : Schemas)

/-- What the callback of `readEventStream` does with the data of a frame. -/
def onFrame (generation : Nat) (s : CloudClient) (data : Option (List Char)) : CloudClient :=
  let s := s.touchHeartbeat generation
  match data with
  | none | some [] => s
  | some data => match (parse data).bind (eventEnvelopeSchema schemas) with
    | none =>
        let count := ((s.stream? generation).map EventStream.invalidEnvelopes).getD 0 + 1
        (s.updateStream generation (fun t => { t with invalidEnvelopes := count })).checkProtocolMismatch
          count
    | some envelope =>
        (s.updateStream generation (fun t => { t with invalidEnvelopes := 0 })).receiveEvent envelope

end Schema

variable (randomUUID : Nat → String)

def send (command : OutgoingCommand) (s : CloudClient) : Except String (String × CloudClient) :=
  if command.type = "workspace.create" ∧ s.state ≠ .online then
    .error "当前离线，恢复连接后再创建工作区"
  else if 100 ≤ s.queuedCommands.length then
    .error "等待发送的操作过多，请恢复连接后重试"
  else
    let requestId := randomUUID s.drawn
    let s := { s with
      drawn := s.drawn + 1
      queuedCommands := s.queuedCommands ++ [⟨command, requestId⟩] }
    .ok (requestId, if s.state = .online then s.drainCommands else s)

def resumeCommand (workspaceId sessionId : String) (lastSeq : Nat) : OutgoingCommand where
  type := "session.resume"
  fields := Fields.ofList [("workspaceId", .str workspaceId), ("sessionId", .str sessionId),
    ("lastSeq", .num (.ofNat lastSeq))]

def unshiftResume (s : CloudClient) : CloudClient :=
  match s.activeSession with
  | none => s
  | some (workspaceId, sessionId) =>
      { s with
        drawn := s.drawn + 1
        queuedCommands :=
          ⟨resumeCommand workspaceId sessionId (s.readLastSeq workspaceId sessionId),
            randomUUID s.drawn⟩ :: s.queuedCommands }

/-- The response to the request for the event stream. -/
def streamAnswered (generation status : Nat) (body : Bool) (s : CloudClient) : CloudClient :=
  if status = 401 then s.handleUnauthorized.endStream generation
  else if !isOk status || !body || s.closed || generation ≠ s.streamGeneration then
    s.endStream generation
  else
    ((((s.emitState .online).touchHeartbeat generation).unshiftResume randomUUID).drainCommands).updateStream
      generation (fun t => { t with reading := true })

def postFailed (s : CloudClient) : CloudClient := { s.disconnectStream with drain := .idle }

def shift (s : CloudClient) : CloudClient := { s with queuedCommands := s.queuedCommands.tail }

def postAnswered (item : QueuedCommand) (status : Nat) (s : CloudClient) : CloudClient :=
  if isOk status then s.shift.drainNext
  else if status = 401 then { s.handleUnauthorized with drain := .idle }
  else if isRejection status then { s.shift with drain := .rejected item.requestId status }
  else s.postFailed

def fire (action : TimerAction) (s : CloudClient) : CloudClient :=
  match action with
  | .reconnect => openStream { s with reconnectTimer := none }
  | .heartbeat generation =>
      if generation ≠ s.streamGeneration ∨ s.closed then s else s.disconnectStream

end CloudClient

/-- A call of the client, or something it awaits that comes: an answer, the frames
of a chunk of the event stream, the end of the stream or a timer. -/
inductive ClientStep
  | connect
  | close
  | setActiveSession (workspaceId sessionId : String)
  | clearActiveSession
  | send (command : OutgoingCommand)
  | streamAnswered (generation status : Nat) (body : Bool)
  | streamChunk (generation : Nat) (frames : List (Option (List Char)))
  | streamEnded (generation : Nat)
  | postFailed
  | postAnswered (status : Nat)
  | rejectionRead (body : Option Value) (now : String)
  | timer (id : Nat)

variable (randomUUID : Nat → String) (schemas : Schemas)

/-- What is not awaited does not come. -/
def ClientStep.next (s : CloudClient) : ClientStep → CloudClient
  | .connect => s.connect
  | .close => s.close
  | .setActiveSession workspaceId sessionId => s.setActiveSession workspaceId sessionId
  | .clearActiveSession => s.clearActiveSession
  | .send command => match s.send randomUUID command with
    | .ok (_, s') => s'
    | .error _ => s
  | .streamAnswered generation status body =>
      if (s.stream? generation).any (fun t => !t.reading) then
        s.streamAnswered randomUUID generation status body
      else s
  | .streamChunk generation frames =>
      if (s.stream? generation).any (fun t => t.reading && !t.aborted) then
        frames.foldl (CloudClient.onFrame schemas generation) s
      else s
  | .streamEnded generation =>
      if (s.stream? generation).isSome then s.endStream generation else s
  | .postFailed => match s.drain with
    | .posting _ => s.postFailed
    | _ => s
  | .postAnswered status => match s.drain with
    | .posting item => s.postAnswered item status
    | _ => s
  | .rejectionRead body now => match s.drain with
    | .rejected requestId status =>
        (s.receiveEvent (localError requestId (responseError status body) now)).drainNext
    | _ => s
  | .timer id => match s.timers.find? (fun t => t.id = id) with
    | none => s
    | some t => (s.clearTimeout (some id)).fire t.action

end Kross.Web

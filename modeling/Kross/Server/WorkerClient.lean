import Kross.Run
import Kross.Worker.SessionLog
import Mathlib.Data.List.AList

namespace Kross.Server

open Kross.Json Kross.Worker

abbrev SocketId := Nat

structure ClientCommand where
  type : String
  sessionId : Option String
  lastSeq : Option Nat

/-- Who awaits `connect`: a `send`, a `start` or the reconnect timer. -/
inductive Caller
  | send (command : ClientCommand)
  | start
  | timer

/-- A call that awaits the connection `socket`, or the delay before its next
attempt. -/
structure Waiter where
  caller : Caller
  attempt : Nat
  socket : Option SocketId

/-- The fields of a `WorkerClient`, and the calls that await a connection. -/
structure WorkerClient where
  socket : Option SocketId
  connecting : Option SocketId
  reconnectTimer : Bool
  closed : Bool
  sessionSequences : AList (fun _ : String => Nat)
  waiters : List Waiter

def WorkerClient.fresh : WorkerClient := ⟨none, none, false, false, ∅, []⟩

inductive Phase
  | connecting
  | opened
  | closing
  | closed
  deriving DecidableEq

/-- A socket between the client and the worker, with the commands and events that
are on their way. `subscribed` is whether the worker sends its events to it. -/
structure Link where
  phase : Phase
  subscribed : Bool
  up : List ClientCommand
  down : List EventEnvelope

/-- A client and its worker. `resuming` are the resumes that the worker handles,
`received` the events that the listeners of the client were given, and `resumes`
what `resumeKnownSessions` sent. -/
structure World (schemas : Schemas) (workspaceId : String) where
  client : WorkerClient
  links : List Link
  logs : (sessionId : Option String) → SessionLog schemas ⟨workspaceId, sessionId⟩
  emitted : List EventEnvelope
  resuming : List (SocketId × String × Nat)
  received : List EventEnvelope
  resumes : List (String × Nat)

def resumeCommand (sessionId : String) (lastSeq : Nat) : ClientCommand :=
  ⟨"session.resume", some sessionId, some lastSeq⟩

namespace World

variable {schemas : Schemas} {workspaceId : String}

/-- A new client beside a worker that may have emitted events before. -/
def start (logs : (sessionId : Option String) → SessionLog schemas ⟨workspaceId, sessionId⟩) :
    World schemas workspaceId :=
  ⟨.fresh, [], logs, [], [], [], []⟩

def onClient (f : WorkerClient → WorkerClient) (w : World schemas workspaceId) : World schemas workspaceId :=
  { w with client := f w.client }

def updateLink (id : SocketId) (f : Link → Link) (w : World schemas workspaceId) : World schemas workspaceId :=
  { w with links := w.links.modify id f }

def isOpen (w : World schemas workspaceId) (id : SocketId) : Bool := w.links[id]?.any (fun l => l.phase = .opened)

def sendSocket (id : SocketId) (command : ClientCommand) (w : World schemas workspaceId) : World schemas workspaceId :=
  if w.isOpen id then w.updateLink id (fun l => { l with up := l.up ++ [command] }) else w

def scheduleReconnect (c : WorkerClient) : WorkerClient :=
  if c.closed || c.reconnectTimer then c else { c with reconnectTimer := true }

/-- The call goes on with the socket. -/
def connected (id : SocketId) (caller : Caller) (w : World schemas workspaceId) : World schemas workspaceId :=
  match caller with
  | .send command => w.sendSocket id command
  | _ => w

def connect (caller : Caller) (attempt : Nat) (w : World schemas workspaceId) : World schemas workspaceId :=
  match w.client.socket.filter w.isOpen with
  | some id => w.connected id caller
  | none => match w.client.connecting with
    | some id => w.onClient (fun c => { c with waiters := c.waiters ++ [⟨caller, attempt, some id⟩] })
    | none =>
        let id := w.links.length
        { w with
          links := w.links ++ [⟨.connecting, false, [], []⟩]
          client := { w.client with
            closed := false
            connecting := some id
            waiters := w.client.waiters ++ [⟨caller, attempt, some id⟩] } }

def startClient (w : World schemas workspaceId) : World schemas workspaceId :=
  (w.onClient (fun c => { c with closed := false })).connect .start 0

def setSequence (sessionId : String) (seq : Nat) (c : WorkerClient) : WorkerClient :=
  { c with sessionSequences := c.sessionSequences.insert sessionId seq }

def known (sessionId : String) (c : WorkerClient) : Nat := (c.sessionSequences.lookup sessionId).getD 0

def noteCommand (command : ClientCommand) (c : WorkerClient) : WorkerClient :=
  match command.sessionId with
  | some sessionId => if sessionId ≠ "" then setSequence sessionId (known sessionId c) c else c
  | none => c

def send (command : ClientCommand) (w : World schemas workspaceId) : World schemas workspaceId :=
  (w.onClient (noteCommand command)).connect (.send command) 0

def close (w : World schemas workspaceId) : World schemas workspaceId :=
  let closed := w.onClient (fun c => { c with closed := true, reconnectTimer := false, socket := none })
  match w.client.socket with
  | some id => closed.updateLink id (fun l => { l with phase := .closing })
  | none => closed

/-- `connectWithRetry` makes eight attempts; a reconnect makes one. -/
def givesUp (x : Waiter) : Bool :=
  match x.caller with
  | .timer => true
  | _ => 8 ≤ x.attempt + 1

def Caller.reschedules : Caller → Bool
  | .send _ => false
  | _ => true

def rejected (id : SocketId) (w : World schemas workspaceId) : World schemas workspaceId :=
  let waiters := w.client.waiters.filterMap (fun x =>
    if x.socket = some id then
      if givesUp x then none else some { x with attempt := x.attempt + 1, socket := none }
    else some x)
  let again := w.client.waiters.any (fun x =>
    x.socket = some id && givesUp x && Caller.reschedules x.caller)
  w.onClient (fun c =>
    let c := { c with waiters }
    if again then scheduleReconnect c else c)

def resumeKnownSessions (id : SocketId) (w : World schemas workspaceId) : World schemas workspaceId :=
  let entries := w.client.sessionSequences.entries.map (fun e => (e.1, e.2))
  { w.updateLink id (fun l => { l with up := l.up ++ entries.map (fun e => resumeCommand e.1 e.2) }) with
    resumes := w.resumes ++ entries }

def resolved (id : SocketId) (w : World schemas workspaceId) : World schemas workspaceId :=
  let callers := (w.client.waiters.filter (fun x => x.socket = some id)).map Waiter.caller
  callers.foldl (fun w caller => w.connected id caller)
    (w.onClient (fun c => { c with waiters := c.waiters.filter (fun x => x.socket ≠ some id) }))

def onOpen (id : SocketId) (w : World schemas workspaceId) : World schemas workspaceId :=
  if w.client.closed then
    ((w.onClient (fun c => { c with connecting := none })).updateLink id
      (fun l => { l with phase := .closing })).rejected id
  else
    (((w.onClient (fun c => { c with connecting := none, socket := some id })).updateLink id
      (fun l => { l with phase := .opened })).resumeKnownSessions id).resolved id

def onClose (id : SocketId) (w : World schemas workspaceId) : World schemas workspaceId :=
  (w.updateLink id (fun l => { l with phase := .closed })).onClient (fun c =>
    let c := { c with
      connecting := none
      socket := if c.socket = some id then none else c.socket }
    if c.closed then c else scheduleReconnect c)

def onError (id : SocketId) (w : World schemas workspaceId) : World schemas workspaceId :=
  (w.onClient (fun c => { c with connecting := none })).rejected id

def record (e : EventEnvelope) (c : WorkerClient) : WorkerClient :=
  match e.sessionId with
  | some sessionId => if sessionId ≠ "" ∧ 0 < e.seq then setSequence sessionId e.seq c else c
  | none => c

def onMessage (data : List Char) (w : World schemas workspaceId) : World schemas workspaceId :=
  match (parse data).bind (eventEnvelopeSchema schemas) with
  | none => w
  | some e => { w.onClient (record e) with received := w.received ++ [e] }

/-- What the worker puts on the socket of a command. -/
def push (id : SocketId) (events : List EventEnvelope) (w : World schemas workspaceId) : World schemas workspaceId :=
  w.updateLink id (fun l => { l with down := l.down ++ events })

def pushAll (e : EventEnvelope) (links : List Link) : List Link :=
  links.map (fun l => if l.subscribed then { l with down := l.down ++ [e] } else l)

def numbered (sessionId correlationId : Option String) (event : Fields)
    (now : String) (skipped : Nat) (w : World schemas workspaceId) : EventEnvelope :=
  { source := some .worker, workspaceId, sessionId, correlationId,
    seq := (w.logs sessionId).lastSeq + 1 + skipped, timestamp := now, event }

theorem follows_numbered {sessionId correlationId : Option String} {event : Fields} {now : String}
    {skipped : Nat} {w : World schemas workspaceId} {envelope : EventEnvelope}
    (h : eventEnvelopeSchema schemas
      (.obj (w.numbered sessionId correlationId event now skipped).fields) = some envelope) :
    (w.logs sessionId).Follows envelope := by
  have he := (envelope_of_fields h).2
  refine ⟨⟨by rw [he]; rfl, by rw [he]; rfl, by rw [he]; simp [numbered], eventEnvelopeSchema_stable h⟩, ?_⟩
  rw [he]
  simp only [numbered]
  omega

/-- The worker numbers an event and sends it to all its sockets. After a restart
it leaves some numbers out. -/
def emit (sessionId correlationId : Option String) (event : Fields)
    (now : String) (skipped : Nat) (w : World schemas workspaceId) : World schemas workspaceId :=
  match h : eventEnvelopeSchema schemas
      (.obj (w.numbered sessionId correlationId event now skipped).fields) with
  | none => w
  | some envelope =>
      { w with
        logs := Function.update w.logs sessionId
          ((w.logs sessionId).append event envelope (follows_numbered h))
        links := pushAll envelope w.links
        emitted := w.emitted ++ [envelope] }

end World

/-- A call of the client, something it awaits, or something the worker does. What
the worker emits while it answers a resume are events like any other. -/
inductive WorldStep
  | start
  | close
  | send (command : ClientCommand)
  | timer
  | retried (i : Nat)
  | accepted (id : SocketId)
  | opened (id : SocketId)
  | failed (id : SocketId)
  | dropped (id : SocketId)
  | unsubscribed (id : SocketId)
  | message (id : SocketId)
  | read (id : SocketId)
  | replayed (i : Nat)
  | redelivered (id : SocketId) (requestId : String)
  | emitted (sessionId correlationId : Option String) (event : Fields) (now : String) (skipped : Nat)

open World

variable {schemas : Schemas} {workspaceId : String}

def World.phaseOf (w : World schemas workspaceId) (id : SocketId) : Phase := (w.links[id]?.map Link.phase).getD .closed

/-- The event that comes next on a socket. -/
def World.arriving (w : World schemas workspaceId) (id : SocketId) : Option EventEnvelope :=
  if w.phaseOf id = .opened ∨ w.phaseOf id = .closing then w.links[id]?.bind (fun l => l.down.head?)
  else none

def World.reads (id : SocketId) (w : World schemas workspaceId) : World schemas workspaceId :=
  match w.links[id]? with
  | some l => match l.up with
    | [] => w
    | command :: rest =>
        let w := w.updateLink id (fun l => { l with up := rest })
        match command.sessionId with
        | some sessionId =>
            if command.type = "session.resume" then
              { w with resuming := w.resuming ++ [(id, sessionId, command.lastSeq.getD 0)] }
            else w
        | none => w
  | none => w

def WorldStep.next (w : World schemas workspaceId) : WorldStep → World schemas workspaceId
  | .start => w.startClient
  | .close => w.close
  | .send command => w.send command
  | .timer =>
      if w.client.reconnectTimer then
        (w.onClient (fun c => { c with reconnectTimer := false })).connect .timer 0
      else w
  | .retried i => match w.client.waiters[i]? with
    | some x =>
        if x.socket = none then
          (w.onClient (fun c => { c with waiters := c.waiters.eraseIdx i })).connect x.caller x.attempt
        else w
    | none => w
  | .accepted id =>
      if w.phaseOf id = .connecting then w.updateLink id (fun l => { l with subscribed := true }) else w
  | .opened id =>
      if w.phaseOf id = .connecting ∧ w.links[id]?.any Link.subscribed then w.onOpen id else w
  | .failed id => if w.phaseOf id = .connecting then (w.onError id).onClose id else w
  | .dropped id =>
      if w.phaseOf id = .opened ∨ w.phaseOf id = .closing then w.onClose id else w
  | .unsubscribed id =>
      if w.phaseOf id = .closed then w.updateLink id (fun l => { l with subscribed := false }) else w
  | .message id => match w.arriving id with
    | some e => (w.updateLink id (fun l => { l with down := l.down.tail })).onMessage (JsonLog.text e.fields)
    | none => w
  | .read id => w.reads id
  | .replayed i => match w.resuming[i]? with
    | some (id, sessionId, lastSeq) =>
        { w.push id ((w.logs (some sessionId)).replay lastSeq) with resuming := w.resuming.eraseIdx i }
    | none => w
  | .redelivered id requestId =>
      w.push id (w.emitted.filter (fun e => e.correlationId = some requestId))
  | .emitted sessionId correlationId event now skipped =>
      w.emit sessionId correlationId event now skipped

end Kross.Server

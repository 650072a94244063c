import Kross.Mutation.Map
import Kross.Server.WorkerClient

namespace Kross.Server

open Kross.Mutation

abbrev ClientId := Nat

abbrev SinkId := Nat

abbrev EventId := Nat

/-- A socket of a client to the worker of a workspace, and the events that are on
their way. -/
structure Socket where
  client : ClientId
  workspaceId : String
  phase : Phase
  subscribed : Bool
  down : List EventId

/-- A call of `broadcast`: the sinks that were subscribed, and those it called. -/
structure Broadcast where
  event : EventId
  subscribed : List SinkId
  called : List SinkId

/-- The clients and the sinks of the gateway. `cached` is the map `clients`, `made`
are all clients ever made, each with its workspace, and `emitted` the workspaces
whose workers emitted the events. -/
structure Clients where
  cached : List (String × ClientId)
  made : List (String × WorkerClient)
  sockets : List Socket
  sinks : List SinkId
  emitted : List String
  broadcasts : List Broadcast

namespace WorkerClient

def await (caller : Caller) (attempt : Nat) (id : SocketId) (c : WorkerClient) : WorkerClient :=
  { c with waiters := c.waiters ++ [⟨caller, attempt, some id⟩] }

def resolve (id : SocketId) (c : WorkerClient) : WorkerClient :=
  { c with waiters := c.waiters.filter (fun x => x.socket ≠ some id) }

def reject (id : SocketId) (c : WorkerClient) : WorkerClient :=
  let waiters := c.waiters.filterMap (fun x =>
    if x.socket = some id then
      if World.givesUp x then none else some { x with attempt := x.attempt + 1, socket := none }
    else some x)
  let again := c.waiters.any (fun x =>
    x.socket = some id && World.givesUp x && World.Caller.reschedules x.caller)
  let c := { c with waiters }
  if again then World.scheduleReconnect c else c

def onOpen (id : SocketId) (c : WorkerClient) : WorkerClient :=
  if c.closed then { c with connecting := none }.reject id
  else { c with connecting := none, socket := some id }.resolve id

def onError (id : SocketId) (c : WorkerClient) : WorkerClient := { c with connecting := none }.reject id

def onClose (id : SocketId) (c : WorkerClient) : WorkerClient :=
  let c := { c with
    connecting := none
    socket := if c.socket = some id then none else c.socket }
  if c.closed then c else World.scheduleReconnect c

def close (c : WorkerClient) : WorkerClient :=
  { c with closed := true, reconnectTimer := false, socket := none }

end WorkerClient

namespace Clients

def empty : Clients := ⟨[], [], [], [], [], []⟩

def updateClient (client : ClientId) (f : WorkerClient → WorkerClient) (g : Clients) : Clients :=
  { g with made := g.made.modify client (fun e => (e.1, f e.2)) }

def updateSocket (id : SocketId) (f : Socket → Socket) (g : Clients) : Clients :=
  { g with sockets := g.sockets.modify id f }

def isOpen (g : Clients) (id : SocketId) : Bool := g.sockets[id]?.any (fun s => s.phase = .opened)

/-- A new socket to the worker. -/
def dial (client : ClientId) (workspaceId : String) (caller : Caller) (attempt : Nat) (g : Clients) : Clients :=
  let socket : Socket := ⟨client, workspaceId, .connecting, false, []⟩
  { g with
    sockets := g.sockets ++ [socket]
    made := g.made.modify client (fun e => (e.1,
      { e.2 with closed := false, connecting := some g.sockets.length }.await caller attempt g.sockets.length)) }

def connect (client : ClientId) (caller : Caller) (attempt : Nat) (g : Clients) : Clients :=
  match g.made[client]? with
  | none => g
  | some (workspaceId, c) => match c.socket.filter g.isOpen with
    | some _ => g
    | none => match c.connecting with
      | some id => g.updateClient client (·.await caller attempt id)
      | none => g.dial client workspaceId caller attempt

def send (client : ClientId) (command : ClientCommand) (g : Clients) : Clients :=
  (g.updateClient client (World.noteCommand command)).connect client (.send command) 0

def close (client : ClientId) (g : Clients) : Clients :=
  match g.made[client]?.bind (fun e => e.2.socket) with
  | some id => (g.updateClient client WorkerClient.close).updateSocket id
      (fun s => if s.phase = .opened then { s with phase := .closing } else s)
  | none => g.updateClient client WorkerClient.close

/-- `releaseWorkspaceConnection` -/
def release (workspaceId : String) (g : Clients) : Clients :=
  match mapGet workspaceId g.cached with
  | some client => { g.close client with cached := mapDelete workspaceId g.cached }
  | none => g

/-- The client that was made becomes the one of its workspace. -/
def store (workspaceId : String) (g : Clients) : Clients :=
  { g with
    made := g.made ++ [(workspaceId, .fresh)]
    cached := mapSet workspaceId g.made.length g.cached }

def subscribe (sink : SinkId) (g : Clients) : Clients :=
  if sink ∈ g.sinks then g else { g with sinks := g.sinks ++ [sink] }

def unsubscribe (sink : SinkId) (g : Clients) : Clients := { g with sinks := g.sinks.filter (· ≠ sink) }

def called (sinks : List SinkId) (direct : Option SinkId) : List SinkId :=
  direct.toList ++ sinks.filter (fun sink => some sink ≠ direct)

def broadcast (event : EventId) (direct : Option SinkId) (g : Clients) : Clients :=
  { g with broadcasts := g.broadcasts ++ [⟨event, g.sinks, called g.sinks direct⟩] }

def onSocket (id : SocketId) (phases : List Phase) (f : Socket → Clients) (g : Clients) : Clients :=
  match g.sockets[id]? with
  | some s => if s.phase ∈ phases then f s else g
  | none => g

def accepted (id : SocketId) (g : Clients) : Clients :=
  g.onSocket id [.connecting] (fun _ => g.updateSocket id (fun s => { s with subscribed := true }))

def opened (id : SocketId) (g : Clients) : Clients :=
  g.onSocket id [.connecting] (fun s =>
    if s.subscribed then
      (g.updateClient s.client (WorkerClient.onOpen id)).updateSocket id (fun s =>
        { s with phase := if g.made[s.client]?.any (fun e => e.2.closed) then .closing else .opened })
    else g)

def gone (s : Socket) : Socket := { s with phase := .closed, subscribed := false, down := [] }

def failed (id : SocketId) (g : Clients) : Clients :=
  g.onSocket id [.connecting] (fun s =>
    (g.updateClient s.client (fun c => (c.onError id).onClose id)).updateSocket id gone)

def closes (id : SocketId) (g : Clients) : Clients :=
  g.onSocket id [.opened] (fun _ => g.updateSocket id (fun s => { s with phase := .closing }))

def dropped (id : SocketId) (g : Clients) : Clients :=
  g.onSocket id [.opened, .closing] (fun s =>
    (g.updateClient s.client (WorkerClient.onClose id)).updateSocket id gone)

/-- The waiter's delay is over. -/
def retried (client : ClientId) (i : Nat) (g : Clients) : Clients :=
  match g.made[client]?.bind (fun e => e.2.waiters[i]?) with
  | some x =>
      if x.socket = none then
        (g.updateClient client (fun c => { c with waiters := c.waiters.eraseIdx i })).connect client
          x.caller x.attempt
      else g
  | none => g

def timer (client : ClientId) (g : Clients) : Clients :=
  if g.made[client]?.any (fun e => e.2.reconnectTimer) then
    (g.updateClient client (fun c => { c with reconnectTimer := false })).connect client .timer 0
  else g

/-- The worker of the workspace sends an event to all its sockets. -/
def push (workspaceId : String) (event : EventId) (s : Socket) : Socket :=
  if s.workspaceId = workspaceId ∧ s.subscribed then { s with down := s.down ++ [event] } else s

def emit (workspaceId : String) (g : Clients) : Clients :=
  { g with
    emitted := g.emitted ++ [workspaceId]
    sockets := g.sockets.map (push workspaceId g.emitted.length) }

/-- The event that comes next on a socket, with the workspace of its client. -/
def arriving (id : SocketId) (g : Clients) : Option (String × EventId) :=
  match g.sockets[id]? with
  | some s =>
      if s.phase ∈ [Phase.opened, .closing] then s.down.head?.map (s.workspaceId, ·) else none
  | none => .none

def message (id : SocketId) (g : Clients) : Clients :=
  match g.arriving id with
  | some (_, event) => (g.updateSocket id (fun s => { s with down := s.down.tail })).broadcast event none
  | none => g

end Clients

end Kross.Server

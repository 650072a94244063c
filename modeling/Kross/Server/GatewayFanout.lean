import Kross.Run
import Kross.Server.Clients
import Kross.Server.Fanout
import Mathlib.Data.List.Sort

namespace Kross.Server

open Kross.Mutation

inductive WorkspaceStatus
  | creating
  | ready
  | stopped
  | error
  deriving DecidableEq

/-- The fields of a record that the gateway reads and changes. -/
structure WorkspaceRecord where
  id : String
  status : WorkspaceStatus
  updatedAt : Nat
  lastActiveAt : Option Nat
  deriving DecidableEq

inductive Operation
  | start
  | stop

/-- What a client is wanted for: a command, the question of a sweep whether the
workspace is busy, or the connection that is kept for notifications. -/
inductive Purpose
  | command (command : ClientCommand)
  | status
  | notify

/-- A call of the gateway or a sweep that awaits something, with the clone of the
record that it read. `rest` are the workspaces the sweep still goes through. -/
inductive Task
  | creating (id : String)
  | lifecycle (operation : Operation) (record : WorkspaceRecord)
  | clearing (record : WorkspaceRecord)
  | removing (record : WorkspaceRecord)
  | starting (record : WorkspaceRecord) (purpose : Purpose)
  | locating (record : WorkspaceRecord) (purpose : Purpose)
  | sending (client : ClientId) (workspaceId : String) (purpose : Purpose)
  | checking (record : WorkspaceRecord) (rest : List WorkspaceRecord)
  | reaping (record : WorkspaceRecord) (rest : List WorkspaceRecord)
  | done

/-- How what a task awaits ends. A worker may also say that it is busy. -/
inductive Outcome
  | returned
  | busy
  | failed
  deriving DecidableEq

/-- What a run of the gateway is judged by: a delete was accepted, a command was
forwarded, and a sweep, which is a task, asked whether a workspace is busy and has
stopped it. -/
inductive Entry
  | accepted (workspaceId : String)
  | forwarded (workspaceId : String) (purpose : Purpose)
  | checks (workspaceId : String) (sweep : Nat)
  | stops (workspaceId : String) (sweep : Nat)

/-- A `GatewayService` with its registry. `known` are all ids that workspaces had. -/
structure Gateway where
  now : Nat
  known : List String
  records : List (String × WorkspaceRecord)
  clients : Clients
  tasks : List Task
  log : List Entry

namespace Gateway

def start (now : Nat) (workspaces : List WorkspaceRecord) : Gateway :=
  { now
    known := workspaces.map WorkspaceRecord.id
    records := workspaces.foldl (fun records record => mapSet record.id record records) []
    clients := .empty
    tasks := []
    log := [] }

def list (g : Gateway) : List WorkspaceRecord :=
  (g.records.map Prod.snd).insertionSort (fun left right => right.updatedAt ≤ left.updatedAt)

def put (record : WorkspaceRecord) (g : Gateway) : Gateway :=
  { g with records := mapSet record.id record g.records }

def onClients (f : Clients → Clients) (g : Gateway) : Gateway := { g with clients := f g.clients }

def note (entry : Entry) (g : Gateway) : Gateway := { g with log := g.log ++ [entry] }

def spawn (task : Task) (g : Gateway) : Gateway := { g with tasks := g.tasks ++ [task] }

def setTask (i : Nat) (task : Task) (g : Gateway) : Gateway := { g with tasks := g.tasks.set i task }

/-- `client`, up to the first `await` -/
def client (i : Nat) (record : WorkspaceRecord) (purpose : Purpose) (g : Gateway) : Gateway :=
  match mapGet record.id g.clients.cached with
  | some client => g.setTask i (.sending client record.id purpose)
  | none => g.setTask i (.locating record purpose)

/-- `forward`, once the container runs -/
def pursue (i : Nat) (record : WorkspaceRecord) (purpose : Purpose) (g : Gateway) : Gateway :=
  let record := { record with lastActiveAt := some g.now, updatedAt := g.now }
  (g.put record).client i record purpose

def forward (workspaceId : String) (purpose : Purpose) (g : Gateway) : Gateway :=
  match mapGet workspaceId g.records with
  | none => g
  | some record =>
      if record.status = .stopped then g.spawn (.starting record purpose)
      else (g.spawn .done).pursue g.tasks.length record purpose

def notifies (workspaceId : String) (g : Gateway) : Gateway :=
  match mapGet workspaceId g.records with
  | none => g
  | some record =>
      if record.status = .ready then (g.spawn .done).client g.tasks.length record .notify else g

def createWorkspace (id : String) (g : Gateway) : Gateway :=
  if id ∈ g.known then g else { g with known := g.known ++ [id] }.spawn (.creating id)

def changeLifecycle (operation : Operation) (workspaceId : String) (g : Gateway) : Gateway :=
  match mapGet workspaceId g.records with
  | none => g
  | some record => match operation with
    | .start => g.spawn (.lifecycle .start record)
    | .stop => (g.onClients (·.release workspaceId)).spawn (.lifecycle .stop record)

def clearCommand : ClientCommand := ⟨"models.workspace.clear", none, none⟩

def deleteWorkspace (workspaceId : String) (g : Gateway) : Gateway :=
  match mapGet workspaceId g.records with
  | none => g
  | some record =>
      if (mapGet workspaceId g.clients.cached).isSome then
        (g.forward workspaceId (.command clearCommand)).spawn (.clearing record)
      else (g.onClients (·.release workspaceId)).spawn (.removing record)

/-- The next workspace of a sweep that has been idle. -/
def nextIdle (idleMs : Nat) (g : Gateway) : List WorkspaceRecord → Option (WorkspaceRecord × List WorkspaceRecord)
  | [] => none
  | workspace :: rest => match workspace.lastActiveAt with
    | none => nextIdle idleMs g rest
    | some lastActiveAt =>
        if workspace.status ≠ .ready then nextIdle idleMs g rest
        else if g.now - lastActiveAt < idleMs then nextIdle idleMs g rest
        else match mapGet workspace.id g.records with
          | none => nextIdle idleMs g rest
          | some record => some (record, rest)

/-- The sweep goes on to the next workspace. -/
def advance (idleMs : Nat) (i : Nat) (rest : List WorkspaceRecord) (g : Gateway) : Gateway :=
  match g.nextIdle idleMs rest with
  | none => g.setTask i .done
  | some (record, rest) =>
      ((g.note (.checks record.id i)).setTask i (.checking record rest)).forward record.id .status

def sweep (idleMs : Nat) (g : Gateway) : Gateway :=
  if idleMs = 0 then g else (g.spawn .done).advance idleMs g.tasks.length g.list

def touchWorkspace (workspaceId : String) (g : Gateway) : Gateway :=
  match mapGet workspaceId g.records with
  | none => g
  | some record =>
      if record.lastActiveAt.any (fun lastActiveAt => g.now - lastActiveAt < 30000) then g
      else g.put { record with lastActiveAt := some g.now, updatedAt := g.now }

def onMessage (id : SocketId) (g : Gateway) : Gateway :=
  match g.clients.arriving id with
  | some (workspaceId, _) => (g.touchWorkspace workspaceId).onClients (·.message id)
  | none => g

def deliver (client : ClientId) (purpose : Purpose) (clients : Clients) : Clients :=
  match purpose with
  | .command command => clients.send client command
  | .status => clients.send client ⟨"workspace.status", none, none⟩
  | .notify => (clients.updateClient client (fun c => { c with closed := false })).connect client .start 0

def Operation.status : Operation → WorkspaceStatus
  | .start => .ready
  | .stop => .stopped

/-- What the task awaits has ended. -/
def resumed (idleMs : Nat) (i : Nat) (outcome : Outcome) (g : Gateway) : Gateway :=
  match g.tasks[i]? with
  | none => g
  | some .done => g
  | some (.creating id) =>
      if outcome = .returned then (g.put ⟨id, .ready, g.now, some g.now⟩).setTask i .done
      else g.setTask i .done
  | some (.lifecycle operation record) =>
      if outcome = .returned then
        (g.put { record with status := Operation.status operation, updatedAt := g.now }).setTask i .done
      else g.setTask i .done
  | some (.clearing record) => (g.onClients (·.release record.id)).setTask i (.removing record)
  | some (.removing record) =>
      if outcome = .returned then
        ({ g with records := mapDelete record.id g.records }.note (.accepted record.id)).setTask i .done
      else g.setTask i .done
  | some (.starting record purpose) =>
      if outcome = .returned then g.pursue i { record with status := .ready } purpose
      else g.setTask i .done
  | some (.locating record purpose) =>
      if outcome = .returned then
        (g.onClients (·.store record.id)).setTask i (.sending g.clients.made.length record.id purpose)
      else g.setTask i .done
  | some (.sending client workspaceId purpose) =>
      ((g.onClients (deliver client purpose)).note (.forwarded workspaceId purpose)).setTask i .done
  | some (.checking record rest) =>
      if outcome = .returned then (g.onClients (·.release record.id)).setTask i (.reaping record rest)
      else g.advance idleMs i rest
  | some (.reaping record rest) =>
      if outcome = .returned then
        ((g.put { record with status := .stopped, updatedAt := g.now }).note (.stops record.id i)).advance
          idleMs i rest
      else g.setTask i .done

end Gateway

inductive GatewayStep
  | elapses (ms : Nat)
  | creates (id : String)
  | changes (operation : Operation) (workspaceId : String)
  | deletes (workspaceId : String)
  | forwards (workspaceId : String) (command : ClientCommand)
  | notifies (workspaceId : String)
  | sweeps
  | resumed (i : Nat) (outcome : Outcome)
  | subscribes (sink : SinkId)
  | unsubscribes (sink : SinkId)
  | retried (client : ClientId) (i : Nat)
  | timer (client : ClientId)
  | accepted (id : SocketId)
  | opened (id : SocketId)
  | failed (id : SocketId)
  | closes (id : SocketId)
  | dropped (id : SocketId)
  | emits (workspaceId : String)
  | message (id : SocketId)

def GatewayStep.next (idleMs : Nat) (g : Gateway) : GatewayStep → Gateway
  | .elapses ms => { g with now := g.now + ms }
  | .creates id => g.createWorkspace id
  | .changes operation workspaceId => g.changeLifecycle operation workspaceId
  | .deletes workspaceId => g.deleteWorkspace workspaceId
  | .forwards workspaceId command => g.forward workspaceId (.command command)
  | .notifies workspaceId => g.notifies workspaceId
  | .sweeps => g.sweep idleMs
  | .resumed i outcome => g.resumed idleMs i outcome
  | .subscribes sink => g.onClients (·.subscribe sink)
  | .unsubscribes sink => g.onClients (·.unsubscribe sink)
  | .retried client i => g.onClients (·.retried client i)
  | .timer client => g.onClients (·.timer client)
  | .accepted id => g.onClients (·.accepted id)
  | .opened id => g.onClients (·.opened id)
  | .failed id => g.onClients (·.failed id)
  | .closes id => g.onClients (·.closes id)
  | .dropped id => g.onClients (·.dropped id)
  | .emits workspaceId => g.onClients (·.emit workspaceId)
  | .message id => g.onMessage id

open Kross.Mutation Kross.Run Clients

/-- When a client is stored its workspace has none; no closed client is asked to
connect, and none connects while the workspace has another connection; no connection
ends with events on their way; and a worker emits while it has a connection. -/
def FanoutAllowed (g : Gateway) : GatewayStep → Prop
  | .resumed i outcome => match g.tasks[i]? with
      | some (.locating record _) => outcome = .returned → mapGet record.id g.clients.cached = none
      | some (.sending client _ _) => g.clients.Connects client
      | _ => True
  | .retried client i => ∀ e x, g.clients.made[client]? = some e → e.2.waiters[i]? = some x →
      x.socket = none → g.clients.Connects client
  | .timer client => ∀ e, g.clients.made[client]? = some e → e.2.reconnectTimer = true →
      g.clients.Connects client
  | .failed id => ∀ s, g.clients.sockets[id]? = some s → s.down = []
  | .dropped id => ∀ s, g.clients.sockets[id]? = some s → s.down = []
  | .emits workspaceId => ∃ s ∈ g.clients.sockets, carries workspaceId s = true
  | _ => True

namespace Gateway

variable {idleMs i : Nat} {g : Gateway} {workspaceId : String} {purpose : Purpose}
  {record : WorkspaceRecord} {rest : List WorkspaceRecord}

@[simp] theorem clients_client : (g.client i record purpose).clients = g.clients := by
  rw [client]
  split <;> rfl

@[simp] theorem clients_pursue : (g.pursue i record purpose).clients = g.clients := clients_client

@[simp] theorem clients_forward : (g.forward workspaceId purpose).clients = g.clients := by
  rw [forward]
  split
  · rfl
  · split_ifs
    · rfl
    · exact clients_pursue

@[simp] theorem clients_notifies : (g.notifies workspaceId).clients = g.clients := by
  rw [notifies]
  split
  · rfl
  · split_ifs
    · exact clients_client
    · rfl

@[simp] theorem clients_advance : (g.advance idleMs i rest).clients = g.clients := by
  rw [advance]
  split
  · rfl
  · exact clients_forward

@[simp] theorem clients_sweep : (g.sweep idleMs).clients = g.clients := by
  rw [sweep]
  split_ifs
  · rfl
  · exact clients_advance

@[simp] theorem clients_createWorkspace {id : String} : (g.createWorkspace id).clients = g.clients := by
  rw [createWorkspace]
  split_ifs <;> rfl

@[simp] theorem clients_touchWorkspace : (g.touchWorkspace workspaceId).clients = g.clients := by
  rw [touchWorkspace]
  split
  · rfl
  · split_ifs <;> rfl

theorem fanned_changeLifecycle {operation : Operation} (h : Fanned g.clients) :
    Fanned (g.changeLifecycle operation workspaceId).clients := by
  rw [changeLifecycle]
  split
  · exact h
  · cases operation with
    | start => exact h
    | stop => exact h.release

theorem fanned_deleteWorkspace (h : Fanned g.clients) : Fanned (g.deleteWorkspace workspaceId).clients := by
  rw [deleteWorkspace]
  split
  · exact h
  · split_ifs
    · rw [spawn, clients_forward]
      exact h
    · exact h.release

theorem fanned_onMessage {id : SocketId} (h : Fanned g.clients) : Fanned (g.onMessage id).clients := by
  rw [onMessage]
  split
  · rw [onClients, clients_touchWorkspace]
    exact h.message
  · exact h

theorem fanned_deliver {client : ClientId} {clients : Clients} (h : Fanned clients)
    (hc : clients.Connects client) : Fanned (deliver client purpose clients) := by
  cases purpose with
  | command command => exact h.send hc
  | status => exact h.send hc
  | notify =>
      have hopen : ∀ e, clients.made[client]? = some e → e.2.closed = false := fun e he => (hc e.1 e.2 he).1
      apply Fanned.connect (h.updateClient (fun e he => (hopen e he).symm))
      intro ws c hm
      simp only [Clients.updateClient, List.getElem?_modify_eq] at hm
      obtain ⟨e, he, hec⟩ := Option.map_eq_some_iff.mp hm
      cases hec
      exact ⟨rfl, (hc _ _ he).2⟩

theorem fanned_resumed {outcome : Outcome} (h : Fanned g.clients)
    (ha : FanoutAllowed g (.resumed i outcome)) : Fanned (g.resumed idleMs i outcome).clients := by
  rw [resumed]
  rw [FanoutAllowed] at ha
  cases ht : g.tasks[i]? with
  | none => exact h
  | some task =>
      rw [ht] at ha
      cases task with
      | done => exact h
      | creating id =>
          dsimp only
          split_ifs <;> exact h
      | lifecycle operation record =>
          dsimp only
          split_ifs <;> exact h
      | clearing record => exact h.release
      | removing record =>
          dsimp only
          split_ifs <;> exact h
      | starting record purpose =>
          dsimp only
          split_ifs
          · rw [clients_pursue]
            exact h
          · exact h
      | locating record purpose =>
          dsimp only
          split_ifs with ho
          · exact h.store (ha ho)
          · exact h
      | sending client workspaceId purpose => exact fanned_deliver h ha
      | checking record rest =>
          dsimp only
          split_ifs
          · exact h.release
          · rw [clients_advance]
            exact h
      | reaping record rest =>
          dsimp only
          split_ifs
          · rw [clients_advance]
            exact h
          · exact h

end Gateway

theorem fanned_next {idleMs : Nat} {g : Gateway} {step : GatewayStep} (ha : FanoutAllowed g step)
    (h : Fanned g.clients) : Fanned (step.next idleMs g).clients := by
  cases step with
  | elapses ms => exact h
  | creates id =>
      rw [GatewayStep.next, Gateway.clients_createWorkspace]
      exact h
  | changes operation workspaceId => exact Gateway.fanned_changeLifecycle h
  | deletes workspaceId => exact Gateway.fanned_deleteWorkspace h
  | forwards workspaceId command =>
      rw [GatewayStep.next, Gateway.clients_forward]
      exact h
  | notifies workspaceId =>
      rw [GatewayStep.next, Gateway.clients_notifies]
      exact h
  | sweeps =>
      rw [GatewayStep.next, Gateway.clients_sweep]
      exact h
  | resumed i outcome => exact Gateway.fanned_resumed h ha
  | subscribes sink => exact h.subscribe
  | unsubscribes sink => exact h.unsubscribe
  | retried client i => exact h.retried ha
  | timer client => exact h.timer ha
  | accepted id => exact h.accepted
  | opened id => exact h.opened
  | failed id => exact h.failed ha
  | closes id => exact h.closes
  | dropped id => exact h.dropped ha
  | emits workspaceId => exact h.emit ha
  | message id => exact Gateway.fanned_onMessage h

def readyWorkspace : WorkspaceRecord := ⟨"a", .ready, 0, some 0⟩

def listCommand : ClientCommand := ⟨"session.list", none, none⟩

def firstCommandRun : List GatewayStep :=
  [.subscribes 0, .forwards "a" listCommand, .resumed 0 .returned, .resumed 0 .returned, .accepted 0,
    .opened 0, .emits "a", .message 0]

/-- Two commands reach a workspace that has no client yet. -/
def rivalCommandsRun : List GatewayStep :=
  [.subscribes 0, .forwards "a" listCommand, .forwards "a" listCommand, .resumed 0 .returned,
    .resumed 1 .returned, .resumed 0 .returned, .resumed 1 .returned, .accepted 0, .opened 0,
    .accepted 1, .opened 1, .emits "a", .message 0, .message 1]

end Kross.Server

import Kross.Service.World

namespace Kross.Service

open Mutation (mapGet mapSet mapDelete)

namespace World

section Sessions

def upsertMessage (sessionId : String) (message : StoredMessage) (w : World) : World :=
  w.onStorage (.updateStored sessionId (.upsertMessage message))

/-- The next message of a session. -/
def newMessage (r : Nat) (sender : MessageFrom) (text : String) (w : World) : Option StoredMessage :=
  (w.memory.session? r).map (fun s => ⟨s.nextMessageId, sender, text, none⟩)

def persistMessage (r : Nat) (sender : MessageFrom) (text : String) (w : World) : World :=
  match w.memory.session? r with
  | none => w
  | some s =>
      (w.onMemory (.update r (fun s => { s with nextMessageId := s.nextMessageId + 1 }))).upsertMessage
        s.id ⟨s.nextMessageId, sender, text, none⟩

def normalizeMessageId (id : Nat) : Option Nat := if 0 < id then some id else none

def persistState (r : Nat) (w : World) : World :=
  match w.memory.session? r with
  | none => w
  | some s =>
      w.onStorage (.updateStored s.id (fun stored =>
        { stored with
          contextState := some (s.runtime.contextState, normalizeMessageId (s.nextMessageId - 1))
          workState := some s.runtime.workState }))

def updateRuntime (r : Nat) (f : Runtime → Runtime) (w : World) : World :=
  w.onMemory (.update r (fun s => { s with runtime := f s.runtime }))

/-- The listener of `initializeRuntime`, until it is unsubscribed. -/
def workStateChanged (r : Nat) (w : World) : World :=
  match w.memory.session? r with
  | none => w
  | some s => if s.subscribed then (w.persistState r).emit (some s.id) .todoSnapshot else w

/-- The listener for the trace of a tool call. -/
def persistToolTrace (r : Nat) (callId text : String) (w : World) : World :=
  match w.memory.session? r with
  | none => w
  | some s => match mapGet callId s.toolMessages with
    | some id => w.upsertMessage s.id ⟨id, .tool, text, some callId⟩
    | none =>
        (w.onMemory (.update r (fun s =>
          { s with
            nextMessageId := s.nextMessageId + 1
            toolMessages := mapSet callId s.nextMessageId s.toolMessages }))).upsertMessage
          s.id ⟨s.nextMessageId, .tool, text, some callId⟩

def traced (r : Nat) (trace : Option (String × String)) (w : World) : World :=
  match w.memory.session? r with
  | none => w
  | some s =>
      if s.subscribed then
        (match trace with
          | some (callId, text) => w.persistToolTrace r callId text
          | none => w).emit (some s.id) .trace
      else w

def setAbortController (r : Nat) (abortController : Bool) (w : World) : World :=
  w.onMemory (.update r (fun s => { s with abortController }))

end Sessions

section Profiles

def gatewayId (gateway : String × String) : String := "gateway:" ++ gateway.1

/-- The provider and the model of a profile. -/
def createClientForProfile (profileId : String) (w : World) : Option (String × String) :=
  match w.memory.gateway with
  | some gateway =>
      if "gateway:".isPrefixOf profileId then some gateway
      else (w.storage.profiles.find? (fun p => p.id = profileId)).map (fun p => (p.provider, p.model))
  | none =>
      (w.storage.profiles.find? (fun p => p.id = profileId)).map (fun p => (p.provider, p.model))

/-- Nothing if it throws. -/
def applyProfileToSession (r : Nat) (profileId : String) (w : World) : Option World :=
  (w.createClientForProfile profileId).map (fun client =>
    w.onMemory (.update r (fun s =>
      { s with
        runtime := { s.runtime with client := some client }
        modelProfileId := some profileId })))

def updateSettings (sessionId : String) (patch : Settings) (w : World) : World :=
  w.onStorage (.updateSettings sessionId patch)

def profilePatch (profileId : String) : Settings := ⟨none, some profileId, none, none⟩

variable (options : WorkerServiceOptions)

def emitSessionSnapshot (r : Nat) (w : World) : World :=
  match w.memory.session? r with
  | none => w
  | some s =>
      if (w.storage.loadSession options s.id).isSome then w.emit (some s.id) .sessionSnapshot else w

def ensureGatewayProfileCurrent (i r : Nat) (w : World) : World :=
  match w.memory.session? r, w.memory.gateway with
  | some s, some gateway =>
      if s.modelProfileId.any (fun id => "workspace:".isPrefixOf id) then w
      else if s.modelProfileId = some (gatewayId gateway) ∧ s.runtime.client = some gateway then w
      else match w.applyProfileToSession r (gatewayId gateway) with
        | some w => (w.updateSettings s.id (profilePatch (gatewayId gateway))).act i
        | none => w
  | _, _ => w

/-- Gives a session the gateway's profile, and tells the clients. -/
def moveToGateway (profileId : String) (r : Nat) (w : World) : World :=
  match w.memory.session? r, w.applyProfileToSession r profileId with
  | some s, some w => (w.updateSettings s.id (profilePatch profileId)).emitSessionSnapshot options r
  | _, _ => w

def deleteWorkspaceProfile (i : Nat) (profileId : String) (w : World) : Option World :=
  let uses (r : Nat) (m : Memory) := (m.session? r).any (fun s => s.modelProfileId = some profileId)
  let registered := w.memory.sessions.map Prod.snd
  if registered.any (fun r => uses r w.memory && w.memory.isBusy r) then none
  else if w.storage.profiles.all (fun p => p.id ≠ profileId) then none
  else
    let deleted := (w.onStorage (fun s =>
      { s with profiles := s.profiles.filter (fun p => p.id ≠ profileId) })).act i
    some (registered.foldl (fun w r =>
      if uses r w.memory then
        match w.memory.gateway with
        | none => w.onMemory (.update r (fun s =>
            { s with runtime := { s.runtime with client := none }, modelProfileId := none }))
        | some gateway => w.moveToGateway options (gatewayId gateway) r
      else w) deleted)

def configureGatewayProfile (i : Nat) (provider model : String) (w : World) : World :=
  let configured := (w.onMemory (fun m => { m with gateway := some (provider, model) })).act i
  (w.memory.sessions.map Prod.snd).foldl (fun w r =>
    match w.memory.session? r with
    | none => w
    | some s =>
        if s.modelProfileId.any (fun id => "workspace:".isPrefixOf id) || s.busy then w
        else w.moveToGateway options (gatewayId (provider, model)) r) configured

end Profiles

end World

end Kross.Service

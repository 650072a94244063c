import Kross.Web.CloudClient

namespace Kross.Web

open Kross.Json Kross.Worker

namespace CloudClient

/-- The fields that the handling of commands rests on. -/
structure Dispatch where
  queuedCommands : List QueuedCommand
  drain : Drain
  posts : List QueuedCommand
  drawn : Nat

/-- The fields that the handling of events rests on. -/
structure Inbox where
  handledSeq : String → Option Nat
  localStorage : String → Option Nat
  activeSession : Option (String × String)
  delivered : List EventEnvelope

/-- What the handling of the connection leaves alone. -/
structure Core where
  dispatch : Dispatch
  inbox : Inbox

def dispatch (s : CloudClient) : Dispatch := ⟨s.queuedCommands, s.drain, s.posts, s.drawn⟩

def inbox (s : CloudClient) : Inbox := ⟨s.handledSeq, s.localStorage, s.activeSession, s.delivered⟩

def core (s : CloudClient) : Core := ⟨s.dispatch, s.inbox⟩

variable (s : CloudClient) {t : CloudClient}

@[simp] theorem core_emitState (state : ConnectionState) : (s.emitState state).core = s.core := rfl

@[simp] theorem core_updateStream (generation : Nat) (f : EventStream → EventStream) :
    (s.updateStream generation f).core = s.core := rfl

@[simp] theorem core_clearTimeout (timer : Option Nat) : (s.clearTimeout timer).core = s.core := rfl

@[simp] theorem core_touchHeartbeat (generation : Nat) : (s.touchHeartbeat generation).core = s.core := rfl

@[simp] theorem core_abortStream : s.abortStream.core = s.core := by
  rw [abortStream]
  split <;> rfl

@[simp] theorem core_disconnectStream : s.disconnectStream.core = s.core := by
  rw [disconnectStream]
  split_ifs <;> simp

@[simp] theorem core_handleUnauthorized : s.handleUnauthorized.core = s.core := by
  rw [handleUnauthorized]
  split_ifs <;> simp

@[simp] theorem core_checkProtocolMismatch (count : Nat) :
    (s.checkProtocolMismatch count).core = s.core := by
  rw [checkProtocolMismatch]
  split_ifs <;> simp

@[simp] theorem core_openStream : s.openStream.core = s.core := by
  rw [openStream]
  split_ifs <;> rfl

@[simp] theorem core_connect : s.connect.core = s.core := by
  rw [connect]
  split_ifs
  · rfl
  · exact core_openStream { s with closed := false }

@[simp] theorem core_reconnect : s.reconnect.core = s.core := by
  rw [reconnect]
  split_ifs <;> rfl

@[simp] theorem core_endStream (generation : Nat) : (s.endStream generation).core = s.core := by
  simp only [endStream]
  split_ifs
  · rfl
  · rw [core_reconnect]
    rfl

@[simp] theorem core_fire (action : TimerAction) : (s.fire action).core = s.core := by
  cases action with
  | reconnect => exact core_openStream { s with reconnectTimer := none }
  | heartbeat generation =>
      rw [fire]
      split_ifs <;> simp

theorem core_closing :
    ((s.clearTimeout s.reconnectTimer).clearTimeout s.heartbeatTimer).abortStream.core = s.core := by
  simp

variable {s}

theorem dispatch_receiveEvent (envelope : EventEnvelope) :
    (s.receiveEvent envelope).dispatch = s.dispatch := by
  simp only [receiveEvent]
  split
  · rfl
  · split_ifs <;> rfl

/-- What an event does to the inbox depends on nothing else. -/
theorem inbox_receiveEvent (h : t.inbox = s.inbox) (envelope : EventEnvelope) :
    (t.receiveEvent envelope).inbox = (s.receiveEvent envelope).inbox := by
  simp only [inbox, Inbox.mk.injEq] at h
  obtain ⟨h1, h2, h3, h4⟩ := h
  have hh (key : String) : t.handled key = s.handled key := by rw [handled, h1, handled]
  simp only [receiveEvent, hh, h1, h2]
  split
  · simp [inbox, deliver, h1, h2, h3, h4]
  · split_ifs <;> simp [inbox, deliver, h1, h2, h3, h4]

variable (schemas : Schemas)

/-- The event that the data of a frame holds. -/
def frameEvent (data : Option (List Char)) : Option EventEnvelope :=
  data.bind (fun data => (parse data).bind (eventEnvelopeSchema schemas))

variable {schemas}

theorem core_onFrame (generation : Nat) {data : Option (List Char)} (h : frameEvent schemas data = none) :
    (s.onFrame schemas generation data).core = s.core := by
  match data, h with
  | none, _ => exact core_touchHeartbeat s generation
  | some [], _ => exact core_touchHeartbeat s generation
  | some (c :: data), h =>
      have hd : (parse (c :: data)).bind (eventEnvelopeSchema schemas) = none := h
      simp only [onFrame, hd]
      simp

theorem onFrame_event (generation : Nat) {data : Option (List Char)} {e : EventEnvelope}
    (h : frameEvent schemas data = some e) :
    ∃ t : CloudClient, t.core = s.core ∧ s.onFrame schemas generation data = t.receiveEvent e := by
  match data, h with
  | some (c :: data), h =>
      have hd : (parse (c :: data)).bind (eventEnvelopeSchema schemas) = some e := h
      simp only [onFrame, hd]
      exact ⟨_, by simp, rfl⟩

theorem dispatch_onFrame (generation : Nat) (data : Option (List Char)) :
    (s.onFrame schemas generation data).dispatch = s.dispatch := by
  cases h : frameEvent schemas data with
  | none => exact congrArg Core.dispatch (core_onFrame generation h)
  | some e =>
      obtain ⟨t, ht, he⟩ := onFrame_event generation h
      rw [he, dispatch_receiveEvent]
      exact congrArg Core.dispatch ht

theorem inbox_onFrame (generation : Nat) (data : Option (List Char)) :
    (s.onFrame schemas generation data).inbox =
      match frameEvent schemas data with
      | some e => (s.receiveEvent e).inbox
      | none => s.inbox := by
  cases h : frameEvent schemas data with
  | none => exact congrArg Core.inbox (core_onFrame generation h)
  | some e =>
      obtain ⟨t, ht, he⟩ := onFrame_event generation h
      rw [he]
      exact inbox_receiveEvent (congrArg Core.inbox ht) e

section Commands

variable (s)

theorem inbox_drainNext : s.drainNext.inbox = s.inbox := by
  rw [drainNext]
  split_ifs
  · split <;> rfl
  · rfl

theorem inbox_drainCommands : s.drainCommands.inbox = s.inbox := by
  rw [drainCommands]
  split
  · split_ifs
    · exact inbox_drainNext s
    · rfl
  · rfl

theorem inbox_of_core (h : t.core = s.core) : t.inbox = s.inbox := congrArg Core.inbox h

variable (randomUUID : Nat → String)

theorem inbox_send (command : OutgoingCommand) :
    (ClientStep.next randomUUID schemas s (.send command)).inbox = s.inbox := by
  simp only [ClientStep.next, send]
  split_ifs
  · rfl
  · rfl
  · exact inbox_drainCommands _
  · rfl

theorem inbox_streamAnswered (generation status : Nat) (body : Bool) :
    (s.streamAnswered randomUUID generation status body).inbox = s.inbox := by
  rw [streamAnswered]
  split_ifs
  · exact inbox_of_core s (by simp)
  · exact inbox_of_core s (by simp)
  · refine (inbox_of_core _ (core_updateStream _ _ _)).trans ((inbox_drainCommands _).trans ?_)
    rw [unshiftResume]
    split <;> rfl

theorem inbox_postAnswered (item : QueuedCommand) (status : Nat) :
    (s.postAnswered item status).inbox = s.inbox := by
  rw [postAnswered]
  split_ifs
  · exact inbox_drainNext s.shift
  · have h := inbox_of_core s (core_handleUnauthorized s)
    exact h
  · rfl
  · have h := inbox_of_core s (core_disconnectStream s)
    exact h

/-- The steps that choose the active session, or bring events. -/
def selects : ClientStep → Bool
  | .setActiveSession _ _ | .clearActiveSession | .streamChunk _ _ => true
  | _ => false

/-- Any other step leaves the inbox as it is, but for the report of a rejection. -/
theorem inbox_next (step : ClientStep) (hs : selects step = false) :
    (step.next randomUUID schemas s).inbox = s.inbox ∨ ∃ requestId message now,
      (step.next randomUUID schemas s).inbox = (s.deliver (localError requestId message now)).inbox := by
  cases step with
  | setActiveSession | clearActiveSession | streamChunk => cases hs
  | connect => exact Or.inl (inbox_of_core s (core_connect s))
  | close =>
      have h := inbox_of_core s (core_closing s)
      exact Or.inl h
  | send command => exact Or.inl (inbox_send s randomUUID command)
  | streamAnswered generation status body =>
      simp only [ClientStep.next]
      split_ifs
      · exact Or.inl (inbox_streamAnswered s randomUUID generation status body)
      · exact Or.inl rfl
  | streamEnded generation =>
      simp only [ClientStep.next]
      split_ifs
      · exact Or.inl (inbox_of_core s (core_endStream s generation))
      · exact Or.inl rfl
  | postFailed =>
      simp only [ClientStep.next]
      split
      · have h := inbox_of_core s (core_disconnectStream s)
        exact Or.inl h
      · exact Or.inl rfl
  | postAnswered status =>
      simp only [ClientStep.next]
      split
      · exact Or.inl (inbox_postAnswered s _ status)
      · exact Or.inl rfl
  | rejectionRead body now =>
      simp only [ClientStep.next]
      split
      · exact Or.inr ⟨_, _, now, inbox_drainNext _⟩
      · exact Or.inl rfl
  | timer id =>
      simp only [ClientStep.next]
      split
      · exact Or.inl rfl
      · exact Or.inl (inbox_of_core s (by simp))

end Commands

end CloudClient

end Kross.Web

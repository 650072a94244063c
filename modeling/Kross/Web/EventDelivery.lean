import Kross.Run
import Kross.Watermark
import Kross.Web.ClientFrame
import Kross.Worker.SessionLog

namespace Kross.Web

open Kross.Json Kross.Worker Run Watermark

/-- The way from the journal of one session to a client: the events between the
worker and the gateway, the frames of each event stream that the gateway has written
and the client has not read, and the resumes of the session that wait for an
answer. -/
structure Cloud (schemas : Schemas) (workspaceId sessionId : String) where
  client : CloudClient
  log : SessionLog schemas ⟨workspaceId, some sessionId⟩
  linkUp : Bool
  link : List EventEnvelope
  wires : Nat → Option (List (Option (List Char)))
  asked : List Nat

section Events

variable (workspaceId sessionId : String)

/-- An event that the client numbers for the session. -/
def isOurs (e : EventEnvelope) : Bool :=
  e.workspaceId = workspaceId && e.sessionId = some sessionId && e.source ≠ some .gateway && 0 < e.seq

/-- The `lastSeq` of a resume of the session. -/
def resumeOf (command : OutgoingCommand) : Option Nat :=
  match command.fields.get "workspaceId", command.fields.get "sessionId" with
  | some (.str w), some (.str s) =>
      if command.type = "session.resume" ∧ w = workspaceId ∧ s = sessionId then
        some (((command.fields.get "lastSeq").bind natSchema).getD 0)
      else none
  | _, _ => none

/-- The data of the frame that carries an event. -/
def frameData (e : EventEnvelope) : Option (List Char) := some (JsonLog.text e.fields)

end Events

/-- A step of the client, the gateway or the worker. `answered` and `replayed` are
the replays for a resume of the client and for one of someone else. -/
inductive CloudStep
  | client (step : ClientStep)
  | subscribed (generation : Nat)
  | unsubscribed (generation : Nat)
  | accepted
  | answered (i : Nat)
  | refused (i : Nat)
  | replayed (lastSeq : Nat)
  | emitted (correlationId : Option String) (event : Fields) (now : String) (skipped : Nat)
  | broadcast
  | linkLost
  | linkBack
  | noise (generation : Nat) (data : Option (List Char))
  | arrived (generation count : Nat)

namespace Cloud

variable {schemas : Schemas} {workspaceId sessionId : String}

def start (log : SessionLog schemas ⟨workspaceId, some sessionId⟩)
    (localStorage : String → Option Nat) : Cloud schemas workspaceId sessionId :=
  ⟨.fresh localStorage, log, true, [], fun _ => none, []⟩

def numbered (correlationId : Option String) (event : Fields) (now : String) (skipped : Nat)
    (s : Cloud schemas workspaceId sessionId) : EventEnvelope :=
  { source := some .worker, workspaceId, sessionId := some sessionId, correlationId,
    seq := s.log.lastSeq + 1 + skipped, timestamp := now, event }

theorem follows_numbered {correlationId : Option String} {event : Fields} {now : String} {skipped : Nat}
    {s : Cloud schemas workspaceId sessionId} {envelope : EventEnvelope}
    (h : eventEnvelopeSchema schemas (.obj (s.numbered correlationId event now skipped).fields) =
      some envelope) : s.log.Follows envelope := by
  have he := (envelope_of_fields h).2
  refine ⟨⟨by rw [he]; rfl, by rw [he]; rfl, by rw [he]; simp [numbered], eventEnvelopeSchema_stable h⟩, ?_⟩
  rw [he]
  simp only [numbered]
  omega

/-- What the worker sends over the socket to the gateway, if there is one. -/
def push (events : List EventEnvelope) (s : Cloud schemas workspaceId sessionId) :
    Cloud schemas workspaceId sessionId :=
  if s.linkUp then { s with link := s.link ++ events } else s

def emit (correlationId : Option String) (event : Fields) (now : String) (skipped : Nat)
    (s : Cloud schemas workspaceId sessionId) : Cloud schemas workspaceId sessionId :=
  match h : eventEnvelopeSchema schemas (.obj (s.numbered correlationId event now skipped).fields) with
  | none => s
  | some envelope => push [envelope] { s with log := s.log.append event envelope (follows_numbered h) }

def writeAll (data : Option (List Char)) (s : Cloud schemas workspaceId sessionId) :
    Cloud schemas workspaceId sessionId :=
  { s with wires := fun generation => (s.wires generation).map (fun frames => frames ++ [data]) }

/-- The frames of the next chunk, if the client reads the stream. -/
def arriving (generation count : Nat) (s : Cloud schemas workspaceId sessionId) :
    List (Option (List Char)) :=
  if (s.client.stream? generation).any (fun t => t.reading && !t.aborted) then
    ((s.wires generation).getD []).take count
  else []

def arrive (generation count : Nat) (s : Cloud schemas workspaceId sessionId) :
    Cloud schemas workspaceId sessionId :=
  let frames := s.arriving generation count
  { s with
    client := frames.foldl (CloudClient.onFrame schemas generation) s.client
    wires := Function.update s.wires generation
      ((s.wires generation).map (fun wire => wire.drop frames.length)) }

/-- A frame on one stream alone. -/
def write (generation : Nat) (data : Option (List Char)) (s : Cloud schemas workspaceId sessionId) :
    Cloud schemas workspaceId sessionId :=
  { s with
    wires := Function.update s.wires generation
      ((s.wires generation).map (fun wire => wire ++ [data])) }

end Cloud

variable (randomUUID : Nat → String) {schemas : Schemas} {workspaceId sessionId : String}

def CloudStep.next (s : Cloud schemas workspaceId sessionId) :
    CloudStep → Cloud schemas workspaceId sessionId
  | .client (.streamChunk _ _) => s
  | .client step => { s with client := step.next randomUUID schemas s.client }
  | .subscribed generation =>
      if (s.wires generation).isSome then s
      else { s with wires := Function.update s.wires generation (some []) }
  | .unsubscribed generation => { s with wires := Function.update s.wires generation none }
  | .accepted => match s.client.drain with
    | .posting item => match resumeOf workspaceId sessionId item.command with
      | some lastSeq => { s with asked := s.asked ++ [lastSeq] }
      | none => s
    | _ => s
  | .answered i => match s.asked[i]? with
    | some lastSeq => { s.push (s.log.replay lastSeq) with asked := s.asked.eraseIdx i }
    | none => s
  | .refused i => { s with asked := s.asked.eraseIdx i }
  | .replayed lastSeq => s.push (s.log.replay lastSeq)
  | .emitted correlationId event now skipped => s.emit correlationId event now skipped
  | .broadcast => match s.link with
    | e :: rest => ({ s with link := rest }).writeAll (frameData e)
    | [] => s
  | .linkLost => { s with linkUp := false, link := [] }
  | .linkBack => { s with linkUp := true }
  | .noise generation data =>
      if (CloudClient.frameEvent schemas data).any (isOurs workspaceId sessionId) then s
      else s.write generation data
  | .arrived generation count => s.arrive generation count

end Kross.Web

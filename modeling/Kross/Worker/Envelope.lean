import Kross.JsonLog
import Kross.JsonNumber
import Mathlib.Algebra.GroupWithZero.Nat

namespace Kross.Worker

open Kross.Json

/-- The parts of the envelope schema that are taken from outside: the time
format and the events. What a schema returns it accepts again unchanged. -/
structure Schemas where
  datetime : String → Bool
  serverEvent : Fields → Option Fields
  stable : ∀ e e', serverEvent e = some e' → serverEvent e' = some e'

structure UnsupportedWorkerDataVersionError where
  format : String
  actualVersion : Option Value
  supportedVersion : Nat

def assertWorkerDataVersion (value : Value) (format field : String) (supportedVersion : Nat)
    (allowMissing : Bool) : Except UnsupportedWorkerDataVersionError Unit :=
  match value with
  | .obj fields => match fields.get field with
    | none => if allowMissing then .ok () else .error ⟨format, none, supportedVersion⟩
    | some (.num n) =>
        if n.toNat? = some supportedVersion then .ok ()
        else .error ⟨format, some (.num n), supportedVersion⟩
    | some v => .error ⟨format, some v, supportedVersion⟩
  | _ => .ok ()

def PROTOCOL_VERSION : Nat := 1

inductive Source
  | gateway
  | worker
  deriving DecidableEq

structure EventEnvelope where
  source : Option Source
  workspaceId : String
  sessionId : Option String
  correlationId : Option String
  seq : Nat
  timestamp : String
  event : Fields

section Schema

def utf16Length (s : String) : Nat :=
  (s.toList.map (fun c => if c.toNat < 0x10000 then 1 else 2)).sum

def identifierSchema : Value → Option String
  | .str s => if 1 ≤ utf16Length s ∧ utf16Length s ≤ 200 then some s else none
  | _ => none

def sourceSchema : Value → Option Source
  | .str "gateway" => some .gateway
  | .str "worker" => some .worker
  | _ => none

def natSchema : Value → Option Nat
  | .num n => n.toNat?
  | _ => none

def optional {α : Type} (schema : Value → Option α) : Option Value → Option (Option α)
  | none => some none
  | some v => (schema v).map some

variable (schemas : Schemas)

def datetimeSchema : Value → Option String
  | .str s => if schemas.datetime s then some s else none
  | _ => none

def serverEventSchema : Value → Option Fields
  | .obj fields => schemas.serverEvent fields
  | _ => none

def eventEnvelopeSchema : Value → Option EventEnvelope
  | .obj fields => do
      let version ← (fields.get "protocolVersion").bind natSchema
      if version = PROTOCOL_VERSION then
        let source ← optional sourceSchema (fields.get "source")
        let workspaceId ← (fields.get "workspaceId").bind identifierSchema
        let sessionId ← optional identifierSchema (fields.get "sessionId")
        let correlationId ← optional identifierSchema (fields.get "correlationId")
        let seq ← (fields.get "seq").bind natSchema
        let timestamp ← (fields.get "timestamp").bind (datetimeSchema schemas)
        let event ← (fields.get "event").bind (serverEventSchema schemas)
        some { source, workspaceId, sessionId, correlationId, seq, timestamp, event }
      else none
  | _ => none

end Schema

def Source.name : Source → String
  | .gateway => "gateway"
  | .worker => "worker"

def optionalField (key : String) (value : Option String) : List (String × Value) :=
  match value with
  | some s => [(key, .str s)]
  | none => []

/-- The members of an envelope in the order of the schema, an absent one left
out. -/
def EventEnvelope.fields (e : EventEnvelope) : Fields :=
  Fields.ofList ([("protocolVersion", .num (.ofNat PROTOCOL_VERSION))] ++
    optionalField "source" (e.source.map Source.name) ++
    [("workspaceId", .str e.workspaceId)] ++
    optionalField "sessionId" e.sessionId ++
    optionalField "correlationId" e.correlationId ++
    [("seq", .num (.ofNat e.seq)), ("timestamp", .str e.timestamp), ("event", .obj e.event)])

def eventType (event : Fields) : Option String :=
  match event.get "type" with
  | some (.str type) => some type
  | _ => none

def isSnapshot (event : Fields) : Bool := eventType event = some "session.snapshot"

def shouldPersist (event : Fields) : Bool :=
  eventType event = some "approval.pending" ||
    eventType event = some "session.snapshot" ||
    eventType event = some "session.updated" ||
    eventType event = some "git.result"

section RoundTrip

variable {schemas : Schemas}

theorem fields_get (e : EventEnvelope) :
    e.fields.get "protocolVersion" = some (.num (.ofNat PROTOCOL_VERSION)) ∧
    e.fields.get "source" = e.source.map (fun s => .str s.name) ∧
    e.fields.get "workspaceId" = some (.str e.workspaceId) ∧
    e.fields.get "sessionId" = e.sessionId.map .str ∧
    e.fields.get "correlationId" = e.correlationId.map .str ∧
    e.fields.get "seq" = some (.num (.ofNat e.seq)) ∧
    e.fields.get "timestamp" = some (.str e.timestamp) ∧
    e.fields.get "event" = some (.obj e.event) := by
  obtain ⟨source, w, sid, cid, seq, ts, event⟩ := e
  cases source <;> cases sid <;> cases cid <;>
    simp [EventEnvelope.fields, optionalField, Fields.ofList, Fields.get]

theorem optional_source (x : Option Source) :
    optional sourceSchema (x.map (fun s => .str s.name)) = some x := by
  cases x with
  | none => rfl
  | some s => cases s <;> rfl

theorem identifierSchema_str {s t : String} (h : identifierSchema (.str s) = some t) : t = s := by
  simp only [identifierSchema] at h
  split_ifs at h
  exact (Option.some.inj h).symm

theorem optional_identifier {x y : Option String}
    (h : optional identifierSchema (x.map .str) = some y) : y = x := by
  cases x with
  | none => exact (Option.some.inj h).symm
  | some s =>
      obtain ⟨t, ht, rfl⟩ := Option.map_eq_some_iff.mp h
      rw [identifierSchema_str ht]

theorem eventEnvelopeSchema_fields (raw : EventEnvelope) :
    eventEnvelopeSchema schemas (.obj raw.fields) = (do
      let workspaceId ← identifierSchema (.str raw.workspaceId)
      let sessionId ← optional identifierSchema (raw.sessionId.map .str)
      let correlationId ← optional identifierSchema (raw.correlationId.map .str)
      let timestamp ← datetimeSchema schemas (.str raw.timestamp)
      let event ← schemas.serverEvent raw.event
      some { raw with workspaceId, sessionId, correlationId, timestamp, event }) := by
  obtain ⟨h1, h2, h3, h4, h5, h6, h7, h8⟩ := fields_get raw
  simp only [eventEnvelopeSchema, h1, h2, h3, h4, h5, h6, h7, h8, Option.bind_some, natSchema,
    toNat_ofNat, optional_source, serverEventSchema, bind, if_true]

theorem envelope_of_fields {raw envelope : EventEnvelope}
    (h : eventEnvelopeSchema schemas (.obj raw.fields) = some envelope) :
    schemas.serverEvent raw.event = some envelope.event ∧
      envelope = { raw with event := envelope.event } := by
  rw [eventEnvelopeSchema_fields] at h
  simp only [bind, Option.bind_eq_some_iff] at h
  obtain ⟨w, hw, s, hs, c, hc, t, ht, e, he, h⟩ := h
  rw [identifierSchema_str hw, optional_identifier hs, optional_identifier hc] at h
  have htt : t = raw.timestamp := by
    simp only [datetimeSchema] at ht
    split_ifs at ht
    exact (Option.some.inj ht).symm
  subst htt
  cases h
  exact ⟨he, rfl⟩

/-- What the schema returned, written to a file and read again, is accepted as
it is. -/
theorem eventEnvelopeSchema_stable {raw envelope : EventEnvelope}
    (h : eventEnvelopeSchema schemas (.obj raw.fields) = some envelope) :
    eventEnvelopeSchema schemas (.obj envelope.fields) = some envelope := by
  obtain ⟨he, hr⟩ := envelope_of_fields h
  have hst := schemas.stable _ _ he
  rw [eventEnvelopeSchema_fields] at h ⊢
  rw [hr]
  simp only [bind, Option.bind_eq_some_iff] at h ⊢
  obtain ⟨w, hw, s, hs, c, hc, t, ht, e, he', h⟩ := h
  refine ⟨w, hw, s, hs, c, hc, t, ht, _, hst, ?_⟩
  rw [← hr]
  rw [he] at he'
  cases he'
  exact h

end RoundTrip

end Kross.Worker

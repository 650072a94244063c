import Kross.Worker.JournalReplay

namespace Kross.Worker

open Kross.Json Prog JournalM

/-- An event as the worker numbers it for `p`. -/
structure EventOf (schemas : Schemas) (p : Pair) (e : EventEnvelope) : Prop where
  workspace : e.workspaceId = p.workspaceId
  session : e.sessionId = p.sessionId
  source : e.source ≠ some .gateway
  valid : eventEnvelopeSchema schemas (.obj e.fields) = some e

/-- What the journal of one session amounts to: the events a replay finds, and
the last number given out. -/
structure SessionLog (schemas : Schemas) (p : Pair) where
  kept : List EventEnvelope
  lastSeq : Nat
  increasing : (kept.map EventEnvelope.seq).Pairwise (· < ·)
  bounded : ∀ e ∈ kept, 0 < e.seq ∧ e.seq ≤ lastSeq
  own : ∀ e ∈ kept, EventOf schemas p e

namespace SessionLog

variable {schemas : Schemas} {p : Pair}

def empty (schemas : Schemas) (p : Pair) : SessionLog schemas p where
  kept := []
  lastSeq := 0
  increasing := List.Pairwise.nil
  bounded := fun _ h => absurd h List.not_mem_nil
  own := fun _ h => absurd h List.not_mem_nil

def replay (log : SessionLog schemas p) (afterSeq : Nat) : List EventEnvelope :=
  log.kept.filter (fun e => e.seq > afterSeq)

/-- The event as it goes to the file, and whether it is a snapshot. -/
def persisted (event : Fields) (e : EventEnvelope) : Option Persisted :=
  if shouldPersist event then some (e, isSnapshot event) else none

/-- What the journal hands out next. -/
structure Follows (log : SessionLog schemas p) (e : EventEnvelope) : Prop extends
    EventOf schemas p e where
  above : log.lastSeq < e.seq

theorem mem_keptAfter {kept : List EventEnvelope} {event : Fields} {e d : EventEnvelope}
    (h : d ∈ keptAfter kept (persisted event e)) : d ∈ kept ∨ d = e := by
  rw [persisted] at h
  split_ifs at h
  · rw [keptAfter] at h
    split_ifs at h
    · exact Or.inr (List.mem_singleton.mp h)
    · exact (List.mem_append.mp h).imp_right List.mem_singleton.mp
  · exact Or.inl h

def append (log : SessionLog schemas p) (event : Fields) (e : EventEnvelope)
    (h : log.Follows e) : SessionLog schemas p where
  kept := keptAfter log.kept (persisted event e)
  lastSeq := e.seq
  increasing := by
    rw [persisted]
    split_ifs
    · exact (increasing_keptAfter log.increasing (fun c hc => (log.bounded c hc).2) h.above).1
    · exact log.increasing
  bounded := by
    intro d hd
    rcases mem_keptAfter hd with hd | rfl
    · exact ⟨(log.bounded d hd).1, (log.bounded d hd).2.trans h.above.le⟩
    · exact ⟨(Nat.zero_le _).trans_lt h.above, le_rfl⟩
  own := by
    intro d hd
    rcases mem_keptAfter hd with hd | rfl
    · exact log.own d hd
    · exact h.toEventOf

variable {high : Nat} {s : JournalState}

/-- The journal answers a replay as the log does. -/
theorem replay_journal (log : SessionLog schemas p) (h : Replayable schemas p log.kept high s)
    (afterSeq : Nat) :
    (exec (Worker.replay schemas p.workspaceId p.sessionId afterSeq) s).1 = .ok (log.replay afterSeq) :=
  exec_replay h.holds afterSeq

/-- An append to the journal, in a run where replays are complete, is one to the
log. -/
theorem append_journal (log : SessionLog schemas p) (h : Replayable schemas p log.kept high s)
    {event : Fields} {correlationId : Option String} {now : String} {e : EventEnvelope}
    (ha : ReplayAllowed schemas p s (.append p event correlationId now))
    (hr : (JournalOp.result schemas (.append p event correlationId now) s).1 = .ok (some e))
    (he : log.Follows e) :
    ∃ next, Replayable schemas p (log.append event e he).kept next
      (JournalOp.result schemas (.append p event correlationId now) s).2 := by
  have hp : (JournalOp.append p event correlationId now).persisted schemas p s = persisted event e := by
    rw [JournalOp.persisted, hr, persisted]
    simp
  obtain ⟨next, hnext⟩ := call_replayable h (fun hd => Bool.noConfusion hd.1) ha
  rw [hp] at hnext
  exact ⟨next, hnext⟩

end SessionLog

end Kross.Worker

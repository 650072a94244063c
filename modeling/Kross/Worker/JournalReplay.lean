import Kross.Worker.JournalSequence
import Mathlib.Data.List.Induction

namespace Kross.Worker

open Kross.Json Kross.Jsonl Prog JournalM

variable (schemas : Schemas) (p : Pair)

/-- A persisted event, and whether it is a snapshot. -/
abbrev Persisted := EventEnvelope × Bool

/-- The event that `append` returns for `p` and hands to the file. -/
def JournalOp.persisted (s : JournalState) : JournalOp → Option Persisted
  | .append q event correlationId now =>
      match (JournalOp.result schemas (.append q event correlationId now) s).1 with
      | .ok (some envelope) =>
          if q.path = p.path ∧ shouldPersist event then some (envelope, isSnapshot event) else none
      | _ => none
  | _ => none

/-- The event is handed over by the last change an operation makes to the
files. A line counts when its text is there, its newline aside. -/
def JournalOp.survives (s : JournalState) (op : JournalOp) (done bytes : Nat) (e : Persisted) : Bool :=
  let calls := (op.result schemas s).2.actions.length
  calls ≤ done || (calls = done + 1 && !e.2 && byteLength (JsonLog.text e.1.fields) ≤ bytes)

/-- The event of `p` that a step writes completely. -/
def JournalStep.written (s : JournalState) : JournalStep → Option Persisted
  | .call op => op.persisted schemas p s
  | .crash op done bytes => (op.persisted schemas p s).filter (op.survives schemas s done bytes)
  | .restart => none

def writtenEvents (s : JournalState) : List JournalStep → List Persisted
  | [] => []
  | step :: steps =>
      (step.written schemas p s).toList ++ writtenEvents (step.next schemas s) steps

/-- The events from the latest snapshot on. -/
def sinceSnapshot (events : List Persisted) : List EventEnvelope :=
  events.foldl (fun kept e => if e.2 then [e.1] else kept ++ [e.1]) []

theorem sinceSnapshot_concat (events : List Persisted) (e : Persisted) :
    sinceSnapshot (events ++ [e]) = if e.2 then [e.1] else sinceSnapshot events ++ [e.1] :=
  List.foldl_concat ..

theorem sinceSnapshot_of_snapshot (before after : List Persisted) (e : EventEnvelope)
    (h : ∀ d ∈ after, d.2 = false) :
    sinceSnapshot (before ++ (e, true) :: after) = e :: after.map Prod.fst := by
  induction after using List.reverseRecOn with
  | nil => exact sinceSnapshot_concat before (e, true)
  | append_singleton after d ih =>
      have hd := h d (by simp)
      rw [← List.cons_append, ← List.append_assoc, sinceSnapshot_concat, hd,
        ih (fun c hc => h c (List.mem_append_left _ hc))]
      simp

theorem sinceSnapshot_of_none (events : List Persisted) (h : ∀ d ∈ events, d.2 = false) :
    sinceSnapshot events = events.map Prod.fst := by
  induction events using List.reverseRecOn with
  | nil => rfl
  | append_singleton events d ih =>
      rw [sinceSnapshot_concat, h d (by simp), ih (fun c hc => h c (List.mem_append_left _ hc))]
      simp

/-- `replay` answers with the completely written events from the latest snapshot
on, those up to `afterSeq` left out, and their numbers increase strictly. -/
def ReplayComplete (steps : List JournalStep) : Prop :=
  NotDeleted p steps →
    let kept := sinceSnapshot (writtenEvents schemas p .fresh steps)
    (kept.map EventEnvelope.seq).Pairwise (· < ·) ∧
    ∀ afterSeq, (exec (replay schemas p.workspaceId p.sessionId afterSeq)
      (stateAfter schemas .fresh steps)).1 = .ok (kept.filter (fun e => e.seq > afterSeq))

def fileText (disk : Disk) : List Char := (disk p.path).getD []

/-- The operation appends a line to the file of `p`. -/
def JournalOp.appendsTo : JournalOp → Prop
  | .append q event _ _ => q.path = p.path ∧ shouldPersist event ∧ ¬ isSnapshot event
  | _ => False

structure ReplayAllowed (s : JournalState) (op : JournalOp) : Prop where
  sequence : SequenceAllowed schemas p s op
  terminated : op.appendsTo p → Terminated (fileText p s.disk)

def ReplaysAllowed (s : JournalState) (steps : List JournalStep) : Prop :=
  ∀ before step after op, steps = before ++ step :: after → step.op? = some op →
    ReplayAllowed schemas p (stateAfter schemas s before) op

section Actions

variable {schemas p} {s : JournalState} {d : Disk}

def Avoids (path : Path) (s : JournalState) : Prop := ∀ a ∈ s.actions, a.path ≠ path

theorem avoids_act {path : Path} (a : FileAction) (h : a.path ≠ path) :
    Preserves (Avoids path) (act a) := by
  refine preserves_modify (fun t ht b hb => ?_)
  rcases List.mem_append.mp hb with hb | hb
  · exact ht b hb
  · rwa [List.mem_singleton.mp hb]

theorem avoids_onMemory {path : Path} (f : Memory → Memory) :
    Preserves (Avoids path) (onMemory f) := preserves_modify (fun _ ht => ht)

theorem avoids_reserve (p q : Pair) (n : Nat) :
    Preserves (Avoids p.path) (reserveSequenceRange q.workspaceId q.sessionId n) :=
  (avoids_act (.write q.sequencePath _) (Pair.path_ne_sequencePath p q).symm).bind
    (fun _ => avoids_onMemory _)

theorem avoids_begin (path : Path) (s : JournalState) : Avoids path s.begin :=
  fun _ ha => absurd ha List.not_mem_nil

/-- The files are what the actions made of the files there were. -/
def Performed (d : Disk) (s : JournalState) : Prop := s.disk = Device.perform s.actions d

theorem performed_act (a : FileAction) : Preserves (Performed d) (act a) := by
  refine preserves_modify (fun t ht => ?_)
  rw [Performed, Device.perform_append, ← ht]
  rfl

theorem performed_onMemory (f : Memory → Memory) : Preserves (Performed d) (onMemory f) :=
  preserves_modify (fun _ ht => ht)

theorem performed_reserve (q : Pair) (n : Nat) :
    Preserves (Performed d) (reserveSequenceRange q.workspaceId q.sessionId n) :=
  (performed_act _).bind (fun _ => performed_onMemory _)

theorem performed_prog (op : JournalOp) : Preserves (Performed d) (op.prog schemas) := by
  cases op with
  | append q event correlationId now =>
      exact preserves_map some (preserves_append correlationId now (fun _ => performed_onMemory _)
        (performed_reserve q) (fun _ => preserves_persist (performed_act _)))
  | replay q afterSeq =>
      exact ((preserves_read q).bind (fun _ => preserves_pure _)).bind (fun _ => preserves_pure _)
  | lastSeq q =>
      exact (preserves_lastSeq (fun _ => performed_onMemory _) (performed_reserve q)).bind
        (fun _ => preserves_pure _)
  | findCompletedRequest q requestId now =>
      exact ((preserves_requests now (fun _ => performed_onMemory _)).bind
        (fun _ => preserves_pure _)).bind (fun _ => preserves_pure _)
  | completeRequest q requestId events now =>
      exact (preserves_completeRequest requestId events now (fun _ => performed_onMemory _)
        (fun _ => performed_act _)).bind (fun _ => preserves_pure _)
  | deleteSession workspaceId sessionId =>
      exact ((performed_act _).bind (fun _ => (performed_act _).bind (fun _ =>
        (performed_onMemory _).bind (fun _ => (performed_act _).bind (fun _ =>
          performed_onMemory _))))).bind (fun _ => preserves_pure _)

theorem result_disk (op : JournalOp) (s : JournalState) :
    (op.result schemas s).2.disk = Device.perform (op.result schemas s).2.actions s.disk :=
  performed_prog op s.begin rfl

theorem perform_avoids {actions : List FileAction} {path : Path} (h : ∀ a ∈ actions, a.path ≠ path)
    (d : Disk) : Device.perform actions d path = d path :=
  Device.perform_keeps (I := fun e => e path = d path)
    (fun a ha e he => (apply_other (h a ha) e).trans he) rfl

theorem interrupt_avoids {actions : List FileAction} {path : Path}
    (h : ∀ a ∈ actions, a.path ≠ path) (done bytes : Nat) (d : Disk) :
    Device.interrupt done bytes actions d path = d path :=
  Device.interrupt_keeps (I := fun e => e path = d path)
    (fun a ha e he => (apply_other (h a ha) e).trans he)
    (fun a ha n e he => (tear_other (h a ha) n e).trans he) rfl done bytes

end Actions

section Step

variable {schemas p} {high : Nat} {s : JournalState}

def snapshotAction (p : Pair) (e : Persisted) : FileAction :=
  if e.2 then .write p.path (JsonLog.line e.1.fields) else .append p.path e.1

/-- What an operation that hands an event to the file of `p` has done: `before`
are its other changes to the files. -/
structure Writes (schemas : Schemas) (p : Pair) (s : JournalState) (op : JournalOp) (e : Persisted)
    (before : List FileAction) : Prop where
  actions : (op.result schemas s).2.actions = before ++ [snapshotAction p e]
  avoids : ∀ a ∈ before, a.path ≠ p.path
  valid : eventEnvelopeSchema schemas (.obj e.1.fields) = some e.1
  returned : (op.result schemas s).1 = .ok (some e.1)
  key : op.pair.key = p.key
  appends : e.2 = false → op.appendsTo p

theorem append_writes {q : Pair} (hq : q.path = p.path) (event : Fields)
    (correlationId : Option String) (now : String) (s : JournalState) :
    let op := JournalOp.append q event correlationId now
    (op.persisted schemas p s = none ∧ Avoids p.path (op.result schemas s).2) ∨
      ∃ e before, op.persisted schemas p s = some e ∧ Writes schemas p s op e before := by
  intro op
  have hlast (n : Nat) : Preserves (Avoids p.path) (setLastSequence q.workspaceId q.sessionId n) :=
    avoids_onMemory _
  have hresult : op.result schemas s = Prod.map (Except.map some) id
      (exec (append schemas q.workspaceId q.sessionId event correlationId now) s.begin) :=
    exec_map _ _ _
  rcases append_cases correlationId now s.begin with ⟨e, h⟩ | ⟨s', hl, h⟩
  · left
    rw [JournalOp.persisted, hresult, h]
    exact ⟨rfl, avoids_begin _ s⟩
  · have hs' : Avoids p.path s' := by
      have hp : Preserves (Avoids p.path) (lastSeq schemas q.workspaceId q.sessionId) :=
        preserves_lastSeq hlast (avoids_reserve p q)
      have h' := hp s.begin (avoids_begin _ s)
      rwa [hl] at h'
    have hr : Avoids p.path (ranged q (standing schemas q s.begin) s') := by
      rw [ranged]
      split_ifs
      · exact avoids_reserve p q _ s' hs'
      · exact hs'
    rw [exec_numbered] at h
    cases he : eventEnvelopeSchema schemas
        (.obj (rawEnvelope q event correlationId now (standing schemas q s.begin + 1)).fields) with
    | none =>
        left
        rw [he] at h
        rw [JournalOp.persisted, hresult, h]
        exact ⟨rfl, hr⟩
    | some envelope =>
        rw [he] at h
        by_cases hp : shouldPersist event = true
        · right
          refine ⟨(envelope, isSnapshot event),
            (ranged q (standing schemas q s.begin) s').actions, ?_, ?_⟩
          · rw [JournalOp.persisted, hresult, h]
            simp [Except.map, hq, hp]
          · refine ⟨?_, hr, eventEnvelopeSchema_stable he, ?_, ?_, ?_⟩
            · rw [hresult, h]
              simp only [stored, hp, if_true, Prod.map, id_eq, setLast, snapshotAction, persistAction, hq]
            · rw [hresult, h]
              rfl
            · exact Pair.key_of_sequencePath (Pair.sequencePath_of_path hq)
            · intro hsn
              exact ⟨hq, hp, by simpa using hsn⟩
        · left
          rw [JournalOp.persisted, hresult, h]
          constructor
          · simp [Except.map, hp]
          · simp only [Prod.map, stored, if_neg hp, id_eq]
            exact hr

/-- An operation hands one event to the file of `p`, as its last change to the
files, or it leaves that file alone. -/
theorem op_writes {op : JournalOp} (hd : ¬ (op.deletes = true ∧ op.pair = p))
    (ha : SequenceAllowed schemas p s op) :
    (op.persisted schemas p s = none ∧ Avoids p.path (op.result schemas s).2) ∨
      ∃ e before, op.persisted schemas p s = some e ∧ Writes schemas p s op e before := by
  have hdiscard {α : Type} {m : JournalM α} (hm : Preserves (Avoids p.path) m) :
      Avoids p.path (exec (m >>= fun _ => (pure none : JournalM (Option EventEnvelope))) s.begin).2 :=
    hm.bind (fun _ => preserves_pure _) s.begin (avoids_begin _ s)
  cases op with
  | replay q afterSeq =>
      exact Or.inl ⟨rfl, hdiscard ((preserves_read q).bind (fun _ => preserves_pure _))⟩
  | lastSeq q =>
      exact Or.inl ⟨rfl, hdiscard (preserves_lastSeq (fun _ => avoids_onMemory _)
        (avoids_reserve p q))⟩
  | findCompletedRequest q requestId now =>
      exact Or.inl ⟨rfl, hdiscard ((preserves_requests now (fun _ => avoids_onMemory _)).bind
        (fun _ => preserves_pure _))⟩
  | completeRequest q requestId events now =>
      exact Or.inl ⟨rfl, hdiscard (preserves_completeRequest requestId events now
        (fun _ => avoids_onMemory _) (fun _ => avoids_act _ (Pair.requestPath_ne_path q p)))⟩
  | deleteSession workspaceId sessionId =>
      have hne : Pair.path ⟨workspaceId, some sessionId⟩ ≠ p.path := by
        intro hp
        have hk := Pair.key_of_sequencePath (Pair.sequencePath_of_path hp)
        by_cases he : (⟨workspaceId, some sessionId⟩ : Pair) = p
        · exact hd ⟨rfl, he⟩
        · exact Bool.noConfusion ((ha hk).1 he).2
      refine Or.inl ⟨rfl, hdiscard ?_⟩
      exact (avoids_act (.remove (Pair.path ⟨workspaceId, some sessionId⟩)) hne).bind (fun _ =>
        (avoids_act (.remove (Pair.requestPath ⟨workspaceId, some sessionId⟩))
          (Pair.requestPath_ne_path _ p)).bind (fun _ => (avoids_onMemory _).bind (fun _ =>
            (avoids_act (.remove (Pair.sequencePath ⟨workspaceId, some sessionId⟩))
              (Pair.path_ne_sequencePath p _).symm).bind (fun _ => avoids_onMemory _))))
  | append q event correlationId now =>
      by_cases hq : q.path = p.path
      · exact append_writes hq event correlationId now s
      · left
        constructor
        · rw [JournalOp.persisted]
          split
          · rw [if_neg (fun h => hq h.1)]
          · rfl
        · have hm : Preserves (Avoids p.path)
              (append schemas q.workspaceId q.sessionId event correlationId now) :=
            preserves_append correlationId now (fun _ => avoids_onMemory _) (avoids_reserve p q)
              (fun envelope => preserves_persist (avoids_act _ (by rwa [persistAction_path])))
          exact preserves_map some hm s.begin (avoids_begin _ s)

/-- The lines of the file of `p` are those of the events `kept`, and otherwise
ones that `JSON.parse` rejects. -/
structure Holds (schemas : Schemas) (p : Pair) (kept : List EventEnvelope) (disk : Disk) : Prop where
  values : JsonLog.values (fileText p disk) = kept.map (fun e => .obj e.fields)
  valid : ∀ e ∈ kept, eventEnvelopeSchema schemas (.obj e.fields) = some e

variable {kept : List EventEnvelope} {disk : Disk} {e : EventEnvelope}

theorem readEvent_valid (events : List EventEnvelope)
    (h : eventEnvelopeSchema schemas (.obj e.fields) = some e) :
    readEvent schemas events (.obj e.fields) = .ok (events ++ [e]) := by
  simp [readEvent, assertWorkerDataVersion, (fields_get e).1, toNat_ofNat, h, Bind.bind, Except.bind,
    pure, Except.pure]

theorem foldlM_readEvent (h : ∀ e ∈ kept, eventEnvelopeSchema schemas (.obj e.fields) = some e)
    (events : List EventEnvelope) :
    (kept.map (fun e => Value.obj e.fields)).foldlM (readEvent schemas) events =
      .ok (events ++ kept) := by
  induction kept generalizing events with
  | nil =>
      rw [List.append_nil]
      rfl
  | cons e kept ih =>
      rw [List.map_cons, List.foldlM_cons, readEvent_valid events (h e List.mem_cons_self)]
      have := ih (fun d hd => h d (List.mem_cons_of_mem _ hd)) (events ++ [e])
      simpa [Bind.bind, Except.bind] using this

theorem Holds.eventsOn (h : Holds schemas p kept disk) : eventsOn schemas p disk = .ok kept := by
  have hv := h.values
  rw [fileText] at hv
  rw [Worker.eventsOn]
  cases hd : disk p.path with
  | none =>
      rw [hd, Option.getD_none, JsonLog.values_nil] at hv
      rw [List.map_eq_nil_iff.mp hv.symm]
  | some text =>
      rw [hd, Option.getD_some] at hv
      dsimp only
      rw [readEvents, hv, foldlM_readEvent h.valid, List.nil_append]

theorem Holds.congr {other : Disk} (h : Holds schemas p kept disk) (hd : other p.path = disk p.path) :
    Holds schemas p kept other := by
  refine ⟨?_, h.valid⟩
  rw [fileText, hd]
  exact h.values

theorem Holds.append (h : Holds schemas p kept disk) (ht : Terminated (fileText p disk))
    (he : eventEnvelopeSchema schemas (.obj e.fields) = some e) :
    Holds schemas p (kept ++ [e]) (Device.apply (FileAction.append p.path e) disk) := by
  refine ⟨?_, ?_⟩
  · have hf : fileText p (Device.apply (FileAction.append p.path e) disk) =
        fileText p disk ++ JsonLog.line e.fields := by
      simp [fileText, Device.apply]
    rw [hf, JsonLog.values_append ht, JsonLog.values_line, h.values]
    simp
  · intro d hd
    rcases List.mem_append.mp hd with hd | hd
    · exact h.valid d hd
    · rwa [List.mem_singleton.mp hd]

theorem Holds.tear (h : Holds schemas p kept disk) (ht : Terminated (fileText p disk))
    (he : eventEnvelopeSchema schemas (.obj e.fields) = some e) (n : Nat) :
    Holds schemas p (if byteLength (JsonLog.text e.fields) ≤ n then kept ++ [e] else kept)
      (Device.tear n (FileAction.append p.path e) disk) := by
  have hf : fileText p (Device.tear n (FileAction.append p.path e) disk) =
      fileText p disk ++ torn n (JsonLog.line e.fields) := by
    simp [fileText, Device.tear]
  have hv := JsonLog.values_torn e.fields n
  split_ifs at hv ⊢ with hn
  · refine ⟨?_, (h.append ht he).valid⟩
    rw [hf, JsonLog.values_append ht, hv, h.values]
    simp
  · refine ⟨?_, h.valid⟩
    rw [hf, JsonLog.values_append ht, hv, h.values, List.append_nil]

theorem Holds.write (he : eventEnvelopeSchema schemas (.obj e.fields) = some e) (disk : Disk) :
    Holds schemas p [e] (Device.apply (FileAction.write p.path (JsonLog.line e.fields)) disk) := by
  refine ⟨?_, ?_⟩
  · have hf : fileText p (Device.apply (FileAction.write p.path (JsonLog.line e.fields)) disk) =
        JsonLog.line e.fields := by
      simp [fileText, Device.apply]
    rw [hf, JsonLog.values_line]
    rfl
  · intro d hd
    rwa [List.mem_singleton.mp hd]

/-- What the file of `p` holds, and that its numbers are used up. -/
structure Replayable (schemas : Schemas) (p : Pair) (kept : List EventEnvelope) (high : Nat)
    (s : JournalState) : Prop where
  holds : Holds schemas p kept s.disk
  covered : Covered p high s
  increasing : (kept.map EventEnvelope.seq).Pairwise (· < ·)
  bounded : ∀ e ∈ kept, e.seq ≤ high

def keptAfter (kept : List EventEnvelope) : Option Persisted → List EventEnvelope
  | none => kept
  | some e => if e.2 then [e.1] else kept ++ [e.1]

theorem increasing_keptAfter {e : Persisted} {kept : List EventEnvelope}
    (hk : (kept.map EventEnvelope.seq).Pairwise (· < ·)) (hb : ∀ d ∈ kept, d.seq ≤ high)
    (he : high < e.1.seq) :
    ((keptAfter kept (some e)).map EventEnvelope.seq).Pairwise (· < ·) ∧
      ∀ d ∈ keptAfter kept (some e), d.seq ≤ e.1.seq := by
  rw [keptAfter]
  split_ifs
  · simp
  · constructor
    · rw [List.map_append, List.pairwise_append]
      refine ⟨hk, List.pairwise_singleton _ _, ?_⟩
      intro m hm n hn
      obtain ⟨d, hd, rfl⟩ := List.mem_map.mp hm
      rw [List.map_singleton, List.mem_singleton] at hn
      rw [hn]
      exact Nat.lt_of_le_of_lt (hb d hd) he
    · intro d hd
      rcases List.mem_append.mp hd with hd | hd
      · exact (hb d hd).trans he.le
      · rw [List.mem_singleton.mp hd]

variable {op : JournalOp} {e : Persisted} {before : List FileAction}

theorem snapshotAction_path (p : Pair) (e : Persisted) : (snapshotAction p e).path = p.path := by
  rw [snapshotAction]
  split_ifs <;> rfl

theorem Writes.holds (hw : Writes schemas p s op e before) (ha : ReplayAllowed schemas p s op)
    (hh : Holds schemas p kept s.disk) :
    Holds schemas p (keptAfter kept (some e)) (op.result schemas s).2.disk := by
  have hb := hh.congr (perform_avoids hw.avoids s.disk)
  rw [result_disk, hw.actions, Device.perform_append]
  change Holds schemas p _ (Device.apply (snapshotAction p e) (Device.perform before s.disk))
  rw [snapshotAction, keptAfter]
  split_ifs with hs
  · exact Holds.write hw.valid _
  · refine hb.append ?_ hw.valid
    rw [fileText, perform_avoids hw.avoids]
    exact ha.terminated (hw.appends (by simpa using hs))

/-- The number of an event that survives a crash is covered by what is on disk. -/
theorem Writes.covered (hw : Writes schemas p s op e before)
    (ho : Outcome p high (op.pair.key = p.key) (op.result schemas s)) {disk : Disk}
    (hd : disk p.sequencePath = Device.perform before s.disk p.sequencePath) :
    high < e.1.seq ∧ Covered p e.1.seq (.reopen disk) := by
  obtain ⟨hlt, hcov⟩ := ho.raised e.1 hw.returned hw.key
  refine ⟨hlt, Covered.reopen (hcov.kept.trans (reserved_congr ?_).le)⟩
  rw [hd, result_disk, hw.actions, Device.perform_append]
  refine apply_other ?_ _
  rw [snapshotAction_path]
  exact Pair.path_ne_sequencePath p p

theorem call_replayable (hr : Replayable schemas p kept high s)
    (hd : ¬ (op.deletes = true ∧ op.pair = p)) (ha : ReplayAllowed schemas p s op) :
    ∃ next, Replayable schemas p (keptAfter kept (op.persisted schemas p s)) next
      (op.result schemas s).2 := by
  have ho := op_outcome hr.covered hd ha.sequence
  rcases op_writes hd ha.sequence with ⟨hn, hav⟩ | ⟨e, before, he, hw⟩
  · refine ⟨high, ?_⟩
    rw [hn]
    refine ⟨hr.holds.congr ?_, ho.covered, hr.increasing, hr.bounded⟩
    rw [result_disk]
    exact perform_avoids hav s.disk
  · obtain ⟨hlt, hcov⟩ := ho.raised e.1 hw.returned hw.key
    rw [he]
    obtain ⟨hi, hb⟩ := increasing_keptAfter hr.increasing hr.bounded hlt
    exact ⟨e.1.seq, hw.holds ha hr.holds, hcov, hi, hb⟩

theorem Writes.survives_iff (hw : Writes schemas p s op e before) (done bytes : Nat) :
    op.survives schemas s done bytes e = true ↔ before.length < done ∨
      (done = before.length ∧ e.2 = false ∧ byteLength (JsonLog.text e.1.fields) ≤ bytes) := by
  have hlen : (op.result schemas s).2.actions.length = before.length + 1 := by
    rw [hw.actions, List.length_append]
    rfl
  have hd : before.length + 1 = done + 1 ↔ done = before.length := by omega
  simp only [JournalOp.survives, hlen, Bool.or_eq_true, Bool.and_eq_true, decide_eq_true_eq,
    Bool.not_eq_true', hd, and_assoc, Nat.succ_le_iff]

theorem replayable_lost {disk : Disk} {done bytes : Nat} (hr : Replayable schemas p kept high s)
    (hs : ¬ op.survives schemas s done bytes e = true) (hcov : Covered p high (.reopen disk))
    (hh : Holds schemas p kept disk) :
    ∃ next, Replayable schemas p (keptAfter kept ((some e).filter (op.survives schemas s done bytes)))
      next (.reopen disk) := by
  refine ⟨high, ?_⟩
  rw [Option.filter_some, if_neg hs]
  exact ⟨hh, hcov, hr.increasing, hr.bounded⟩

theorem replayable_survived {disk : Disk} {done bytes : Nat} (hr : Replayable schemas p kept high s)
    (hs : op.survives schemas s done bytes e = true) (hw : Writes schemas p s op e before)
    (ho : Outcome p high (op.pair.key = p.key) (op.result schemas s))
    (hq : disk p.sequencePath = Device.perform before s.disk p.sequencePath)
    (hh : Holds schemas p (keptAfter kept (some e)) disk) :
    ∃ next, Replayable schemas p (keptAfter kept ((some e).filter (op.survives schemas s done bytes)))
      next (.reopen disk) := by
  obtain ⟨hlt, hcov⟩ := hw.covered ho hq
  obtain ⟨hi, hb⟩ := increasing_keptAfter hr.increasing hr.bounded hlt
  refine ⟨e.1.seq, ?_⟩
  rw [Option.filter_some, if_pos hs]
  exact ⟨hh, hcov, hi, hb⟩

/-- The process ends while the event itself is being written. -/
theorem torn_replayable (hr : Replayable schemas p kept high s)
    (ha : ReplayAllowed schemas p s op) (hw : Writes schemas p s op e before)
    (ho : Outcome p high (op.pair.key = p.key) (op.result schemas s)) (bytes : Nat)
    (hcov : Covered p high
      (.reopen (Device.tear bytes (snapshotAction p e) (Device.perform before s.disk)))) :
    ∃ next, Replayable schemas p
      (keptAfter kept ((some e).filter (op.survives schemas s before.length bytes))) next
      (.reopen (Device.tear bytes (snapshotAction p e) (Device.perform before s.disk))) := by
  have hpath : (snapshotAction p e).path ≠ p.sequencePath := by
    rw [snapshotAction_path]
    exact Pair.path_ne_sequencePath p p
  have hb := hr.holds.congr (perform_avoids hw.avoids s.disk)
  have hsurvives := hw.survives_iff before.length bytes
  cases hs : e.2 with
  | true =>
      refine replayable_lost hr (fun h => ?_) hcov ?_
      · rcases hsurvives.mp h with h | ⟨-, h, -⟩
        · exact Nat.lt_irrefl _ h
        · rw [hs] at h
          cases h
      · rw [snapshotAction, hs]
        exact hb
  | false =>
      have hact : snapshotAction p e = .append p.path e.1 := by
        rw [snapshotAction, hs]
        rfl
      have ht := hb.tear (by
        rw [fileText, perform_avoids hw.avoids]
        exact ha.terminated (hw.appends hs)) hw.valid bytes
      by_cases hbytes : byteLength (JsonLog.text e.1.fields) ≤ bytes
      · rw [if_pos hbytes, ← hact] at ht
        refine replayable_survived hr (hsurvives.mpr (Or.inr ⟨rfl, hs, hbytes⟩)) hw ho
          (tear_other hpath _ _) ?_
        rw [keptAfter, hs]
        exact ht
      · rw [if_neg hbytes, ← hact] at ht
        refine replayable_lost hr (fun h => ?_) hcov ht
        rcases hsurvives.mp h with h | ⟨-, -, h⟩
        · exact Nat.lt_irrefl _ h
        · exact hbytes h

theorem crash_replayable (hr : Replayable schemas p kept high s)
    (hd : ¬ (op.deletes = true ∧ op.pair = p)) (ha : ReplayAllowed schemas p s op)
    (done bytes : Nat) :
    ∃ next, Replayable schemas p
      (keptAfter kept ((JournalStep.crash op done bytes).written schemas p s)) next
      (.reopen (Device.interrupt done bytes (op.result schemas s).2.actions s.disk)) := by
  have ho := op_outcome hr.covered hd ha.sequence
  have hcov := covered_interrupt ho.safe hr.covered.kept done bytes
  rw [JournalStep.written]
  rcases op_writes hd ha.sequence with ⟨hn, hav⟩ | ⟨e, before, he, hw⟩
  · refine ⟨high, ?_⟩
    rw [hn]
    exact ⟨hr.holds.congr (interrupt_avoids hav done bytes s.disk), hcov, hr.increasing, hr.bounded⟩
  · rw [he]
    rw [hw.actions, Device.interrupt_concat] at hcov ⊢
    rcases Nat.lt_trichotomy before.length done with hlt | heq | hgt
    · rw [if_pos hlt] at hcov ⊢
      have hfull := hw.holds ha hr.holds
      rw [result_disk, hw.actions] at hfull
      refine replayable_survived hr ((hw.survives_iff done bytes).mpr (Or.inl hlt)) hw ho ?_ hfull
      rw [Device.perform_append]
      refine apply_other ?_ _
      rw [snapshotAction_path]
      exact Pair.path_ne_sequencePath p p
    · subst heq
      rw [if_neg (Nat.lt_irrefl _), if_pos rfl] at hcov ⊢
      exact torn_replayable hr ha hw ho bytes hcov
    · rw [if_neg (Nat.lt_asymm hgt), if_neg (Nat.ne_of_lt hgt)] at hcov ⊢
      refine replayable_lost hr (fun h => ?_) hcov
        (hr.holds.congr (interrupt_avoids hw.avoids done bytes s.disk))
      rcases (hw.survives_iff done bytes).mp h with h | ⟨h, -⟩
      · exact Nat.lt_asymm hgt h
      · exact Nat.ne_of_lt hgt h

end Step

section Run

variable {schemas p} {kept : List EventEnvelope} {high : Nat} {s : JournalState}

theorem step_replayable {step : JournalStep} (hr : Replayable schemas p kept high s)
    (hd : ∀ op, step.op? = some op → ¬ (op.deletes = true ∧ op.pair = p))
    (ha : ∀ op, step.op? = some op → ReplayAllowed schemas p s op) :
    ∃ next, Replayable schemas p (keptAfter kept (step.written schemas p s)) next
      (step.next schemas s) := by
  cases step with
  | restart => exact ⟨high, hr.holds, Covered.reopen hr.covered.kept, hr.increasing, hr.bounded⟩
  | crash op done bytes => exact crash_replayable hr (hd op rfl) (ha op rfl) done bytes
  | call op => exact call_replayable hr (hd op rfl) (ha op rfl)

theorem run_replayable {steps : List JournalStep} {events : List Persisted}
    (hr : Replayable schemas p (sinceSnapshot events) high s) (hd : NotDeleted p steps)
    (ha : ReplaysAllowed schemas p s steps) :
    ∃ next, Replayable schemas p (sinceSnapshot (events ++ writtenEvents schemas p s steps)) next
      (stateAfter schemas s steps) := by
  induction steps generalizing s high events with
  | nil =>
      rw [writtenEvents, List.append_nil]
      exact ⟨high, hr⟩
  | cons step steps ih =>
      obtain ⟨next, hnext⟩ := step_replayable hr (hd step List.mem_cons_self)
        (fun op => ha [] step steps op rfl)
      have hkept : keptAfter (sinceSnapshot events) (step.written schemas p s) =
          sinceSnapshot (events ++ (step.written schemas p s).toList) := by
        cases step.written schemas p s with
        | none => rw [Option.toList_none, List.append_nil, keptAfter]
        | some e => rw [Option.toList_some, sinceSnapshot_concat, keptAfter]
      rw [hkept] at hnext
      obtain ⟨last, hlast⟩ := ih hnext (fun t ht => hd t (List.mem_cons_of_mem _ ht))
        (fun before t after op he => ha (step :: before) t after op (by rw [he, List.cons_append]))
      refine ⟨last, ?_⟩
      rw [writtenEvents, ← List.append_assoc]
      exact hlast

theorem replayable_fresh (schemas : Schemas) (p : Pair) :
    Replayable schemas p (sinceSnapshot []) 0 .fresh where
  holds := ⟨JsonLog.values_nil, fun _ he => absurd he List.not_mem_nil⟩
  covered := covered_fresh p
  increasing := List.Pairwise.nil
  bounded := fun _ he => absurd he List.not_mem_nil

theorem exec_replay (h : Holds schemas p kept s.disk) (afterSeq : Nat) :
    (exec (replay schemas p.workspaceId p.sessionId afterSeq) s).1 =
      .ok (kept.filter (fun e => e.seq > afterSeq)) := by
  rw [replay, exec_bind, exec_read, h.eventsOn]
  rfl

theorem replay_complete {steps : List JournalStep} (ha : ReplaysAllowed schemas p .fresh steps) :
    ReplayComplete schemas p steps := by
  intro hd
  obtain ⟨high, hr⟩ := run_replayable (replayable_fresh schemas p) hd ha
  rw [List.nil_append] at hr
  exact ⟨hr.increasing, fun afterSeq => exec_replay hr.holds afterSeq⟩

theorem replaysAllowed_nil : ReplaysAllowed schemas p s [] := by
  intro before step after op h
  simp at h

theorem replaysAllowed_cons {step : JournalStep} {steps : List JournalStep}
    (h : ∀ op, step.op? = some op → ReplayAllowed schemas p s op)
    (ht : ReplaysAllowed schemas p (step.next schemas s) steps) :
    ReplaysAllowed schemas p s (step :: steps) := by
  intro before t after op he ho
  cases before with
  | nil =>
      cases he
      exact h op ho
  | cons b before =>
      cases he
      exact ht before t after op rfl ho

end Run

def updatedEvent : Fields := Fields.ofList [("type", .str "session.updated"), ("data", .obj .nil)]

def snapshotEvent : Fields := Fields.ofList [("type", .str "session.snapshot"), ("data", .obj .nil)]

/-- An event is torn, and a snapshot is written over what is left of it. -/
def tornSnapshotRun : List JournalStep :=
  [.crash (.append onePair updatedEvent none "t") 1 5, .call (.append onePair snapshotEvent none "t")]

theorem replay_complete_tornSnapshotRun : ReplayComplete anySchemas onePair tornSnapshotRun := by
  refine replay_complete (replaysAllowed_cons ?_ (replaysAllowed_cons ?_ replaysAllowed_nil))
  · rintro op ⟨⟩
    exact ⟨by decide, fun _ => by decide⟩
  · rintro op ⟨⟩
    exact ⟨by decide +kernel, fun h => absurd (show isSnapshot snapshotEvent = true by decide) h.2.2⟩

/-- An event is torn, and the next one is appended to what is left of it. -/
def tornLineRun : List JournalStep :=
  [.crash (.append onePair updatedEvent none "t") 1 1, .call (.append onePair updatedEvent none "t")]

def lostEnvelope : EventEnvelope :=
  ⟨some .worker, "w", some "s", none, 10001, "t", updatedEvent⟩

set_option maxRecDepth 10000 in
theorem tornLineRun_result :
    (((sinceSnapshot (writtenEvents anySchemas onePair .fresh tornLineRun)).map EventEnvelope.seq,
      fileText onePair (stateAfter anySchemas .fresh tornLineRun).disk) : List Nat × List Char) =
      ([10001], '{' :: JsonLog.line lostEnvelope.fields) := by
  decide +kernel

theorem event_behind_torn_line_is_lost : ¬ ReplayComplete anySchemas onePair tornLineRun := by
  intro h
  have hd : NotDeleted onePair tornLineRun := by
    intro step hs op ho
    simp only [tornLineRun, List.mem_cons, List.not_mem_nil, or_false] at hs
    rcases hs with rfl | rfl <;> cases ho <;> simp [JournalOp.deletes]
  obtain ⟨hseq, hfile⟩ := Prod.mk.inj tornLineRun_result
  have hempty : Holds anySchemas onePair [] (stateAfter anySchemas .fresh tornLineRun).disk := by
    refine ⟨?_, fun e he => absurd he List.not_mem_nil⟩
    rw [hfile]
    exact JsonLog.values_doubled lostEnvelope.fields
  have hread := (h hd).2 0
  rw [exec_replay hempty, Except.ok.injEq, eq_comm, List.filter_eq_self.mpr] at hread
  · rw [hread] at hseq
    cases hseq
  · intro e he
    have hs := List.mem_map_of_mem (f := EventEnvelope.seq) he
    rw [hseq, List.mem_singleton] at hs
    simp [hs]

end Kross.Worker

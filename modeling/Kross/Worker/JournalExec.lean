import Kross.Worker.EventJournal

namespace Kross.Worker

open Kross.Json Kross.UriComponent Prog JournalM

/-- A workspace and a session of it, or its events outside all sessions. -/
structure Pair where
  workspaceId : String
  sessionId : Option String
  deriving DecidableEq

namespace Pair

def key (p : Pair) : String := sequenceKey p.workspaceId p.sessionId

def path (p : Pair) : Path := pathFor p.workspaceId p.sessionId

def requestPath (p : Pair) : Path := requestPathFor p.workspaceId p.sessionId

def sequencePath (p : Pair) : Path := sequencePathFor p.workspaceId p.sessionId

variable {p q : Pair}

theorem names_of_sequencePath (h : p.sequencePath = q.sequencePath) :
    p.workspaceId = q.workspaceId ∧ sessionName p.sessionId = sessionName q.sessionId := by
  simp only [sequencePath, sequencePathFor, List.cons.injEq, and_true, true_and] at h
  exact ⟨encodeURIComponent_injective h.1,
    encodeURIComponent_injective (List.append_cancel_right h.2)⟩

theorem names_of_path (h : p.path = q.path) :
    p.workspaceId = q.workspaceId ∧ sessionName p.sessionId = sessionName q.sessionId := by
  simp only [path, pathFor, List.cons.injEq, and_true] at h
  exact ⟨encodeURIComponent_injective h.1,
    encodeURIComponent_injective (List.append_cancel_right h.2)⟩

theorem key_of_sequencePath (h : p.sequencePath = q.sequencePath) : p.key = q.key := by
  obtain ⟨hw, hs⟩ := names_of_sequencePath h
  rw [key, key, sequenceKey, sequenceKey, hw, hs]

theorem sequencePath_of_path (h : p.path = q.path) : p.sequencePath = q.sequencePath := by
  obtain ⟨hw, hs⟩ := names_of_path h
  rw [sequencePath, sequencePath, sequencePathFor, sequencePathFor, hw, hs]

theorem path_of_sequencePath (h : p.sequencePath = q.sequencePath) : p.path = q.path := by
  obtain ⟨hw, hs⟩ := names_of_sequencePath h
  rw [path, path, pathFor, pathFor, hw, hs]

theorem path_ne_sequencePath (p q : Pair) : p.path ≠ q.sequencePath := by
  simp [path, sequencePath, pathFor, sequencePathFor]

theorem requestPath_ne_sequencePath (p q : Pair) : p.requestPath ≠ q.sequencePath := by
  have h : "requests".toList ≠ "sequences".toList := by decide
  simp only [requestPath, sequencePath, requestPathFor, sequencePathFor, ne_eq, List.cons.injEq,
    not_and]
  exact fun _ he => absurd he h

theorem requestPath_ne_path (p q : Pair) : p.requestPath ≠ q.path := by
  simp [path, requestPath, pathFor, requestPathFor]

end Pair

inductive JournalOp
  | append (pair : Pair) (event : Fields) (correlationId : Option String) (now : String)
  | replay (pair : Pair) (afterSeq : Nat)
  | lastSeq (pair : Pair)
  | findCompletedRequest (pair : Pair) (requestId now : String)
  | completeRequest (pair : Pair) (requestId : String) (events : List EventEnvelope) (now : String)
  | deleteSession (workspaceId sessionId : String)

def JournalOp.pair : JournalOp → Pair
  | .append pair _ _ _ => pair
  | .replay pair _ => pair
  | .lastSeq pair => pair
  | .findCompletedRequest pair _ _ => pair
  | .completeRequest pair _ _ _ => pair
  | .deleteSession workspaceId sessionId => ⟨workspaceId, some sessionId⟩

def JournalOp.deletes : JournalOp → Bool
  | .deleteSession _ _ => true
  | _ => false

variable (schemas : Schemas)

/-- An operation, and the envelope an `append` returns. -/
def JournalOp.prog : JournalOp → JournalM (Option EventEnvelope)
  | .append pair event correlationId now =>
      some <$> Worker.append schemas pair.workspaceId pair.sessionId event correlationId now
  | .replay pair afterSeq => do
      let _ ← Worker.replay schemas pair.workspaceId pair.sessionId afterSeq
      pure none
  | .lastSeq pair => do
      let _ ← Worker.lastSeq schemas pair.workspaceId pair.sessionId
      pure none
  | .findCompletedRequest pair requestId now => do
      let _ ← Worker.findCompletedRequest schemas pair.workspaceId pair.sessionId requestId now
      pure none
  | .completeRequest pair requestId events now => do
      Worker.completeRequest schemas pair.workspaceId pair.sessionId requestId events now
      pure none
  | .deleteSession workspaceId sessionId => do
      Worker.deleteSession workspaceId sessionId
      pure none

/-- `crash` is an operation during which the process ends, after `done` of its
changes to the files and `bytes` bytes of the next one. -/
inductive JournalStep
  | call (op : JournalOp)
  | crash (op : JournalOp) (done bytes : Nat)
  | restart

def JournalStep.op? : JournalStep → Option JournalOp
  | .call op => some op
  | .crash op _ _ => some op
  | .restart => none

def JournalState.begin (s : JournalState) : JournalState := { s with actions := [] }

def JournalState.reopen (disk : Disk) : JournalState := ⟨disk, .empty, []⟩

def JournalState.fresh : JournalState := .reopen (fun _ => none)

def JournalOp.result (op : JournalOp) (s : JournalState) :
    Except JournalError (Option EventEnvelope) × JournalState := exec (op.prog schemas) s.begin

def JournalStep.next (s : JournalState) : JournalStep → JournalState
  | .call op => (op.result schemas s).2
  | .crash op done bytes =>
      .reopen (Device.interrupt done bytes (op.result schemas s).2.actions s.disk)
  | .restart => .reopen s.disk

def stateAfter (s : JournalState) (steps : List JournalStep) : JournalState :=
  steps.foldl (JournalStep.next schemas) s

/-- The sequence number that a step returns for `p`. -/
def JournalStep.seqFor (p : Pair) (s : JournalState) : JournalStep → Option Nat
  | .call op => match (op.result schemas s).1 with
    | .ok (some envelope) => if op.pair = p then some envelope.seq else none
    | _ => none
  | _ => none

def seqsFor (p : Pair) : JournalState → List JournalStep → List Nat
  | _, [] => []
  | s, step :: steps =>
      (step.seqFor schemas p s).toList ++ seqsFor p (step.next schemas s) steps

theorem stateAfter_append (s : JournalState) (steps more : List JournalStep) :
    stateAfter schemas s (steps ++ more) = stateAfter schemas (stateAfter schemas s steps) more :=
  List.foldl_append

theorem seqsFor_append (p : Pair) (s : JournalState) (steps more : List JournalStep) :
    seqsFor schemas p s (steps ++ more) =
      seqsFor schemas p s steps ++ seqsFor schemas p (stateAfter schemas s steps) more := by
  induction steps generalizing s with
  | nil => rfl
  | cons step steps ih =>
      rw [List.cons_append, seqsFor, ih, seqsFor, List.append_assoc]
      rfl

end Kross.Worker

namespace Kross.Worker

open Kross.Json Kross.Jsonl Prog JournalM

theorem renderFields_last (fields : Fields) : ∃ s, renderFields fields = s ++ ['}'] := by
  cases fields with
  | nil => exact ⟨[], rfl⟩
  | cons k v rest =>
      obtain ⟨s, hs⟩ := renderFields_last rest
      exact ⟨',' :: quote k ++ ':' :: render v ++ s, by rw [renderFields, hs]; simp⟩

theorem text_last (fields : Fields) : ∃ s, JsonLog.text fields = '{' :: s ++ ['}'] := by
  cases fields with
  | nil => exact ⟨[], rfl⟩
  | cons k v rest =>
      obtain ⟨s, hs⟩ := renderFields_last rest
      exact ⟨quote k ++ ':' :: render v ++ s, by rw [JsonLog.text, render, hs]; simp⟩

theorem trim_line (fields : Fields) : trim (JsonLog.line fields) = JsonLog.text fields := by
  obtain ⟨s, hs⟩ := text_last fields
  have h1 : isTrimmed '{' = false := by decide
  have h2 : isTrimmed '}' = false := by decide
  have h3 : isTrimmed '\n' = true := by decide
  rw [JsonLog.line, hs, trim]
  simp [h1, h2, h3]

theorem parse_text (fields : Fields) : parse (JsonLog.text fields) = some (.obj fields) :=
  parse_render _

theorem readSequenceReservation_content {limit : Nat} (h0 : 0 < limit) (h : limit ≤ maxSafeInteger) :
    readSequenceReservation (reservationContent limit) = .ok limit := by
  obtain ⟨s, hs⟩ := JsonLog.text_head (Fields.ofList
    [("version", .num (.ofNat SEQUENCE_RESERVATION_VERSION)), ("limit", .num (.ofNat limit))])
  have hp := parse_text (Fields.ofList
    [("version", .num (.ofNat SEQUENCE_RESERVATION_VERSION)), ("limit", .num (.ofNat limit))])
  rw [hs] at hp
  simp only [readSequenceReservation, reservationContent, trim_line, hs, hp]
  simp [assertWorkerDataVersion, Fields.ofList, Fields.get, toNat_ofNat, natSchema, safePositive, h0,
    h, Bind.bind, Except.bind, pure, Except.pure]

@[simp] theorem exec_act (action : FileAction) (s : JournalState) :
    exec (act action) s =
      (.ok (), { s with
        disk := Device.apply action s.disk
        actions := s.actions ++ [action] }) := rfl

@[simp] theorem exec_onMemory (f : Memory → Memory) (s : JournalState) :
    exec (onMemory f) s = (.ok (), { s with memory := f s.memory }) := rfl

@[simp] theorem exec_ofExcept_ok {α : Type} (a : α) (s : JournalState) :
    exec (ofExcept (.ok a)) s = (.ok a, s) := rfl

@[simp] theorem exec_ofExcept_error {α : Type} (e : UnsupportedWorkerDataVersionError)
    (s : JournalState) :
    exec (ofExcept (.error e) : JournalM α) s = (.error (.unsupported e), s) := rfl

section LastSeq

variable (schemas : Schemas) (p : Pair)

/-- The events the file of `p` holds. -/
def eventsOn (disk : Disk) : Except UnsupportedWorkerDataVersionError (List EventEnvelope) :=
  match disk p.path with
  | none => .ok []
  | some text => readEvents schemas text

def reservedOn (disk : Disk) : Except UnsupportedWorkerDataVersionError Nat :=
  match disk p.sequencePath with
  | none => .ok 0
  | some content => readSequenceReservation content

/-- The reservation that a restart would find. -/
def reserved (disk : Disk) : Nat := (reservedOn p disk).toOption.getD 0

def persisted (disk : Disk) : Nat :=
  (((eventsOn schemas p disk).toOption.getD []).getLast?.map EventEnvelope.seq).getD 0

/-- The number that the next event of `p` is counted from. -/
def standing (s : JournalState) : Nat :=
  (s.memory.lastSequences p.key).getD (max (persisted schemas p s.disk) (reserved p s.disk))

def setLast (n : Nat) (s : JournalState) : JournalState :=
  { s with memory := { s.memory with
      lastSequences := Function.update s.memory.lastSequences p.key (some n) } }

def reserve (after : Nat) (s : JournalState) : JournalState :=
  { disk := Function.update s.disk p.sequencePath (some (reservationContent (after + 10000)))
    memory := { s.memory with
      sequenceLimits := Function.update s.memory.sequenceLimits p.key (some (after + 10000)) }
    actions := s.actions ++ [.write p.sequencePath (reservationContent (after + 10000))] }

variable {schemas p} {s : JournalState}

theorem exec_reserve (after : Nat) (s : JournalState) :
    exec (reserveSequenceRange p.workspaceId p.sessionId after) s = (.ok (), reserve p after s) := rfl

theorem exec_setLast (n : Nat) (s : JournalState) :
    exec (setLastSequence p.workspaceId p.sessionId n) s = (.ok (), setLast p n s) := rfl

theorem exec_read (s : JournalState) :
    exec (read schemas p.workspaceId p.sessionId) s = exec (ofExcept (eventsOn schemas p s.disk)) s := by
  rw [read, exec_bind, exec_get]
  dsimp only
  rw [eventsOn]
  cases h : s.disk p.path with
  | none => simp only [Pair.path] at h; simp [h]
  | some text => simp only [Pair.path] at h; simp [h]

theorem exec_readReserved (s : JournalState) :
    exec (readReserved p.workspaceId p.sessionId) s = exec (ofExcept (reservedOn p s.disk)) s := by
  rw [readReserved, exec_bind, exec_get]
  dsimp only
  rw [reservedOn]
  cases h : s.disk p.sequencePath with
  | none => simp only [Pair.sequencePath] at h; simp [h]
  | some text => simp only [Pair.sequencePath] at h; simp [h]

/-- What `lastSeq` does when no number is in memory. -/
def uncachedLastSeq (schemas : Schemas) (p : Pair) : JournalM Nat := do
  let events ← read schemas p.workspaceId p.sessionId
  let persisted := (events.getLast?.map EventEnvelope.seq).getD 0
  let reserved ← readReserved p.workspaceId p.sessionId
  let baseline := max persisted reserved
  setLastSequence p.workspaceId p.sessionId baseline
  reserveSequenceRange p.workspaceId p.sessionId baseline
  pure baseline

/-- `lastSeq` answers from memory, or throws and changes nothing, or starts a
new range. -/
theorem exec_lastSeq (schemas : Schemas) (p : Pair) (s : JournalState) :
    exec (lastSeq schemas p.workspaceId p.sessionId) s =
      match s.memory.lastSequences p.key with
      | some cached => (.ok cached, s)
      | none => exec (uncachedLastSeq schemas p) s := by
  rw [lastSeq, exec_bind, exec_get]
  dsimp only
  rw [show sequenceKey p.workspaceId p.sessionId = p.key from rfl]
  cases s.memory.lastSequences p.key <;> rfl

theorem lastSeq_cases (schemas : Schemas) (p : Pair) (s : JournalState) :
    (s.memory.lastSequences p.key = some (standing schemas p s) ∧
      exec (lastSeq schemas p.workspaceId p.sessionId) s = (.ok (standing schemas p s), s)) ∨
    (∃ e, exec (lastSeq schemas p.workspaceId p.sessionId) s = (.error e, s)) ∨
    (s.memory.lastSequences p.key = none ∧ reserved p s.disk ≤ standing schemas p s ∧
      exec (lastSeq schemas p.workspaceId p.sessionId) s =
        (.ok (standing schemas p s),
          reserve p (standing schemas p s) (setLast p (standing schemas p s) s))) := by
  have hstart := exec_lastSeq schemas p s
  cases hc : s.memory.lastSequences p.key with
  | some n =>
      left
      rw [hstart, standing, hc]
      exact ⟨rfl, rfl⟩
  | none =>
      right
      rw [hstart, hc]
      dsimp only
      rw [uncachedLastSeq, exec_bind, exec_read]
      cases hp : eventsOn schemas p s.disk with
      | error e => exact Or.inl ⟨_, rfl⟩
      | ok events =>
          dsimp only [exec_ofExcept_ok]
          rw [exec_bind, exec_readReserved]
          cases hr : reservedOn p s.disk with
          | error e => exact Or.inl ⟨_, rfl⟩
          | ok n =>
              right
              have hs : standing schemas p s =
                  max ((events.getLast?.map EventEnvelope.seq).getD 0) n := by
                simp [standing, hc, persisted, reserved, hp, hr, Except.toOption]
              have hn : reserved p s.disk = n := by simp [reserved, hr, Except.toOption]
              refine ⟨rfl, by rw [hs, hn]; exact Nat.le_max_right _ _, ?_⟩
              rw [hs]
              rfl

end LastSeq

section Append

variable (schemas : Schemas) (p : Pair) (event : Fields)

/-- The envelope that is checked when the event is given the number `seq`. -/
def rawEnvelope (correlationId : Option String) (now : String) (seq : Nat) : EventEnvelope :=
  { source := some .worker
    workspaceId := p.workspaceId
    sessionId := p.sessionId
    correlationId
    seq
    timestamp := now
    event }

def ranged (current : Nat) (s : JournalState) : JournalState :=
  if current + 1 > (s.memory.sequenceLimits p.key).getD current then reserve p current s else s

def persistAction (envelope : EventEnvelope) : FileAction :=
  if isSnapshot event then .write p.path (JsonLog.line envelope.fields) else .append p.path envelope

def stored (envelope : EventEnvelope) (s : JournalState) : JournalState :=
  if shouldPersist event then
    { s with
      disk := Device.apply (persistAction p event envelope) s.disk
      actions := s.actions ++ [persistAction p event envelope] }
  else s

/-- `append` behind the choice of the number. -/
def numbered (correlationId : Option String) (now : String) (seq : Nat) : JournalM EventEnvelope :=
  match eventEnvelopeSchema schemas (.obj (rawEnvelope p event correlationId now seq).fields) with
  | none => throw .invalidEnvelope
  | some envelope => do
      setLastSequence p.workspaceId p.sessionId seq
      if shouldPersist event then persist p.workspaceId p.sessionId event envelope
      pure envelope

/-- `append` behind its call of `lastSeq`. -/
def appendFrom (correlationId : Option String) (now : String) (current : Nat) :
    JournalM EventEnvelope := do
  let limit := ((← get).memory.sequenceLimits p.key).getD current
  if current + 1 > limit then reserveSequenceRange p.workspaceId p.sessionId current
  numbered schemas p event correlationId now (current + 1)

variable {schemas p event}

theorem append_eq (correlationId : Option String) (now : String) :
    append schemas p.workspaceId p.sessionId event correlationId now =
      lastSeq schemas p.workspaceId p.sessionId >>= appendFrom schemas p event correlationId now := rfl

theorem exec_numbered (correlationId : Option String) (now : String) (seq : Nat) (s : JournalState) :
    exec (numbered schemas p event correlationId now seq) s =
      match eventEnvelopeSchema schemas (.obj (rawEnvelope p event correlationId now seq).fields) with
      | none => (.error .invalidEnvelope, s)
      | some envelope => (.ok envelope, stored p event envelope (setLast p seq s)) := by
  rw [numbered]
  cases eventEnvelopeSchema schemas (.obj (rawEnvelope p event correlationId now seq).fields) with
  | none => rfl
  | some envelope =>
      dsimp only
      rw [exec_bind, exec_setLast, stored, persistAction, persist]
      dsimp only
      split_ifs <;> rfl

theorem exec_appendFrom (correlationId : Option String) (now : String) (current : Nat)
    (s : JournalState) :
    exec (appendFrom schemas p event correlationId now current) s =
      exec (numbered schemas p event correlationId now (current + 1)) (ranged p current s) := by
  rw [appendFrom, exec_bind, exec_get, ranged]
  dsimp only
  split_ifs with h
  · rw [exec_bind, exec_reserve]
  · rfl

/-- `append` throws in `lastSeq`, or when the envelope is not valid, or it
returns an envelope with the next number. -/
theorem append_cases (correlationId : Option String) (now : String) (s : JournalState) :
    (∃ e, exec (append schemas p.workspaceId p.sessionId event correlationId now) s =
      (.error e, s)) ∨
    ∃ s', exec (lastSeq schemas p.workspaceId p.sessionId) s = (.ok (standing schemas p s), s') ∧
      exec (append schemas p.workspaceId p.sessionId event correlationId now) s =
        exec (numbered schemas p event correlationId now (standing schemas p s + 1))
          (ranged p (standing schemas p s) s') := by
  rw [append_eq, exec_bind]
  rcases lastSeq_cases schemas p s with ⟨-, h⟩ | ⟨e, h⟩ | ⟨-, -, h⟩
  · right
    refine ⟨s, h, ?_⟩
    rw [h]
    exact exec_appendFrom ..
  · left
    exact ⟨e, by rw [h]⟩
  · right
    refine ⟨_, h, ?_⟩
    rw [h]
    exact exec_appendFrom ..

end Append

section Preserves

variable {schemas : Schemas} {q : Pair} {I : JournalState → Prop}

theorem preserves_ofExcept {α : Type} (r : Except UnsupportedWorkerDataVersionError α) :
    Preserves I (ofExcept r) := by
  cases r with
  | ok a => exact preserves_pure a
  | error e => exact preserves_throw _

theorem preserves_read (q : Pair) : Preserves I (read schemas q.workspaceId q.sessionId) := by
  refine preserves_get.bind (fun t => ?_)
  split
  · exact preserves_pure _
  · exact preserves_ofExcept _

theorem preserves_readReserved (q : Pair) : Preserves I (readReserved q.workspaceId q.sessionId) := by
  refine preserves_get.bind (fun t => ?_)
  split
  · exact preserves_pure _
  · exact preserves_ofExcept _

theorem preserves_requests (now : String)
    (hindex : ∀ entries, Preserves I (setRequestIndex q.workspaceId q.sessionId entries)) :
    Preserves I (requests schemas q.workspaceId q.sessionId now) := by
  refine preserves_get.bind (fun t => ?_)
  split
  · exact preserves_pure _
  · have hset (entries : List CompletedRequest) : Preserves I (do
        setRequestIndex q.workspaceId q.sessionId entries
        pure entries) :=
      (hindex entries).bind (fun _ => preserves_pure _)
    dsimp only
    split
    · exact (preserves_pure _).bind hset
    · exact (preserves_ofExcept _).bind hset

theorem preserves_completeRequest (requestId : String) (events : List EventEnvelope) (now : String)
    (hindex : ∀ entries, Preserves I (setRequestIndex q.workspaceId q.sessionId entries))
    (hwrite : ∀ content, Preserves I (act (.write q.requestPath content))) :
    Preserves I (completeRequest schemas q.workspaceId q.sessionId requestId events now) := by
  rw [completeRequest]
  split_ifs
  · exact preserves_pure _
  · exact (preserves_requests now hindex).bind (fun entries =>
      (hindex _).bind (fun _ => hwrite _))

theorem preserves_lastSeq
    (hlast : ∀ n, Preserves I (setLastSequence q.workspaceId q.sessionId n))
    (hrange : ∀ n, Preserves I (reserveSequenceRange q.workspaceId q.sessionId n)) :
    Preserves I (lastSeq schemas q.workspaceId q.sessionId) := by
  refine preserves_get.bind (fun t => ?_)
  split
  · exact preserves_pure _
  · exact (preserves_read q).bind (fun events => (preserves_readReserved q).bind (fun n =>
      (hlast _).bind (fun _ => (hrange _).bind (fun _ => preserves_pure _))))

theorem preserves_numbered {event : Fields} (correlationId : Option String) (now : String) (seq : Nat)
    (hlast : ∀ n, Preserves I (setLastSequence q.workspaceId q.sessionId n))
    (hpersist : ∀ envelope, Preserves I (persist q.workspaceId q.sessionId event envelope)) :
    Preserves I (numbered schemas q event correlationId now seq) := by
  rw [numbered]
  split
  · exact preserves_throw _
  · refine (hlast _).bind (fun _ => ?_)
    split_ifs
    · exact (hpersist _).bind (fun _ => preserves_pure _)
    · exact preserves_pure _

theorem preserves_append {event : Fields} (correlationId : Option String) (now : String)
    (hlast : ∀ n, Preserves I (setLastSequence q.workspaceId q.sessionId n))
    (hrange : ∀ n, Preserves I (reserveSequenceRange q.workspaceId q.sessionId n))
    (hpersist : ∀ envelope, Preserves I (persist q.workspaceId q.sessionId event envelope)) :
    Preserves I (append schemas q.workspaceId q.sessionId event correlationId now) := by
  rw [append_eq]
  refine (preserves_lastSeq hlast hrange).bind (fun current => preserves_get.bind (fun t => ?_))
  dsimp only
  split_ifs
  · exact (hrange _).bind (fun _ => preserves_numbered correlationId now _ hlast hpersist)
  · exact preserves_numbered correlationId now _ hlast hpersist

theorem preserves_persist {event : Fields} {envelope : EventEnvelope}
    (h : Preserves I (act (persistAction q event envelope))) :
    Preserves I (persist q.workspaceId q.sessionId event envelope) := by
  rw [persist]
  rw [persistAction] at h
  split_ifs at h ⊢ <;> exact h

theorem preserves_map {α β : Type} {m : JournalM α} (f : α → β) (h : Preserves I m) :
    Preserves I (f <$> m) := by
  rw [map_eq_pure_bind]
  exact h.bind (fun _ => preserves_pure _)

end Preserves

theorem persistAction_path (p : Pair) (event : Fields) (envelope : EventEnvelope) :
    (persistAction p event envelope).path = p.path := by
  rw [persistAction]
  split_ifs <;> rfl

theorem apply_other {a : FileAction} {path : Path} (h : a.path ≠ path) (disk : Disk) :
    Device.apply a disk path = disk path := by
  cases a <;> exact Function.update_of_ne (Ne.symm h) _ _

theorem tear_other {a : FileAction} {path : Path} (h : a.path ≠ path) (n : Nat) (disk : Disk) :
    Device.tear n a disk path = disk path := by
  cases a with
  | append => exact Function.update_of_ne (Ne.symm h) _ _
  | write | remove => rfl

end Kross.Worker

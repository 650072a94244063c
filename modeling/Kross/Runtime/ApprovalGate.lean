import Kross.Runtime.BatchCheckpoint
import Kross.Runtime.StreamingLoop

namespace Kross.ToolLoop

open Kross.Context (LlmToolCall Text ConversationThread ThreadError)
open Kross.Mutation (mapGet)
open Kross.Run
open Kross.Tools.CallAttempts (ToolApprovalAction)

section Trace

/-- A handler starts without the operator only when the policy allows it. -/
def Record.Allowed : Record → Prop
  | .toolCallStarted _ _ approved inspection => approved = false ∧ inspection.action = .allow
  | _ => True

/-- Neither the begin of an operation nor the begin of a round -/
def Record.Uncounted : Record → Prop
  | .runStarted _ | .toolCallsReceived _ _ _ | .toolCallApproved _ _ | .toolCallRejected _ _ => False
  | _ => True

/-- An operation of the operator begins: a turn, an approval or a rejection. -/
def Record.Begins : Record → Prop
  | .runStarted _ | .toolCallApproved _ _ | .toolCallRejected _ _ => True
  | _ => False

def Record.Free (r : Record) : Prop := r.Allowed ∧ r.Uncounted

/-- A handler that the policy asks for starts when the operator has just approved its call. -/
inductive Gated : List Record → Prop
  | nil : Gated []
  | allowed {trace : List Record} {r : Record} (h : Gated trace) (hr : r.Allowed) : Gated (trace ++ [r])
  | started {trace : List Record} {runId : String} {call : LlmToolCall} {inspection : ToolCallInspection}
      (h : Gated (trace ++ [.toolCallApproved runId call]))
      (haction : inspection.action = .allow ∨ inspection.action = .ask) :
      Gated (trace ++ [.toolCallApproved runId call] ++ [.toolCallStarted runId call true inspection])

def Below (n : Option Nat) (iteration : Nat) : Prop := ∀ i, n = some i → i < iteration

def UpTo (n : Option Nat) (iteration : Nat) : Prop := ∀ i, n = some i → i ≤ iteration

/-- The rounds of an operation rise up to the limit; `n` is the last one. -/
inductive Rounds (limit : Nat) : List Record → Option Nat → Prop
  | nil : Rounds limit [] none
  | uncounted {trace : List Record} {n : Option Nat} {r : Record} (h : Rounds limit trace n) (hr : r.Uncounted) :
      Rounds limit (trace ++ [r]) n
  | begins {trace : List Record} {n : Option Nat} {r : Record} (h : Rounds limit trace n) (hr : r.Begins) :
      Rounds limit (trace ++ [r]) none
  | received {trace : List Record} {n : Option Nat} {runId : String} {iteration : Nat} {calls : List LlmToolCall}
      (h : Rounds limit trace n) (hn : Below n iteration) (hlimit : iteration ≤ limit) :
      Rounds limit (trace ++ [.toolCallsReceived runId iteration calls]) (some iteration)

/-- The second trace goes on from the first without the operator. -/
def Extends (t t' : List Record) : Prop := ∃ records, (∀ r ∈ records, r.Free) ∧ t' = t ++ records

variable {t t' before rest records : List Record} {r last : Record} {runId : String} {call : LlmToolCall}
  {approved aborted : Bool} {inspection : ToolCallInspection} {gateway : ToolGateway} {n : Option Nat}
  {limit iteration : Nat} {calls : List LlmToolCall}

theorem Record.OfBatch.free (h : r.OfBatch) : r.Free := by
  cases r with
  | toolCallStarted runId call approved inspection => exact ⟨h, trivial⟩
  | toolCallSettled runId call => exact ⟨trivial, trivial⟩
  | _ => exact absurd h id

theorem Extends.refl (t : List Record) : Extends t t := ⟨[], by rintro _ ⟨⟩, (List.append_nil t).symm⟩

theorem Extends.add (h : Extends t t') (hr : ∀ r ∈ records, r.Free) : Extends t (t' ++ records) := by
  obtain ⟨first, hfirst, rfl⟩ := h
  refine ⟨first ++ records, fun r hmem => ?_, List.append_assoc _ _ _⟩
  exact (List.mem_append.mp hmem).elim (hfirst r) (hr r)

theorem Extends.one (h : Extends t t') (hr : r.Free) : Extends t (t' ++ [r]) := by
  refine h.add ?_
  rintro _ (_ | ⟨_, ⟨⟩⟩)
  exact hr

theorem Extends.batch (h : Extends t t') (hr : ∀ r ∈ records, r.OfBatch) : Extends t (t' ++ records) :=
  h.add fun r hmem => (hr r hmem).free

/-- What one free record keeps, all of them keep. -/
theorem Extends.keeps {P : List Record → Prop} (he : Extends t t') (h : P t)
    (hP : ∀ t r, P t → r.Free → P (t ++ [r])) : P t' := by
  obtain ⟨records, hr, rfl⟩ := he
  induction records generalizing t with
  | nil => rwa [List.append_nil]
  | cons r records ih =>
      rw [List.append_cons]
      exact ih (hP t r h (hr r List.mem_cons_self)) fun r hmem => hr r (List.mem_cons_of_mem _ hmem)

theorem Gated.extends (h : Gated t) (he : Extends t t') : Gated t' := he.keeps h fun _ _ h hr => h.allowed hr.1

theorem Rounds.extends (h : Rounds limit t n) (he : Extends t t') : Rounds limit t' n :=
  he.keeps (P := fun t => Rounds limit t n) h fun _ _ h hr => h.uncounted hr.2

/-- The last record of a trace is the one that is looked for, or it is the last one behind it. -/
theorem concat_split (h : t ++ [last] = before ++ r :: rest) :
    t = before ∧ last = r ∨ ∃ rest', rest = rest' ++ [last] ∧ t = before ++ r :: rest' := by
  rcases List.eq_nil_or_concat rest with rfl | ⟨rest', b, rfl⟩
  · obtain ⟨ht, hr⟩ := List.append_inj' h rfl
    exact Or.inl ⟨ht, List.singleton_inj.mp hr⟩
  · rw [List.concat_eq_append, ← List.cons_append, ← List.append_assoc] at h
    obtain ⟨ht, hlast⟩ := List.append_inj' h rfl
    rw [List.concat_eq_append, List.singleton_inj.mp hlast]
    exact Or.inr ⟨rest', rfl, ht⟩

theorem Gated.split (h : Gated t) (ht : t = before ++ .toolCallStarted runId call approved inspection :: rest) :
    inspection.action = .allow ∨
      inspection.action = .ask ∧ ∃ earlier, before = earlier ++ [.toolCallApproved runId call] := by
  induction h generalizing rest with
  | nil => exact absurd ht (by simp)
  | allowed h hr ih =>
      rcases concat_split ht with ⟨-, rfl⟩ | ⟨rest', -, ht'⟩
      · exact Or.inl hr.2
      · exact ih ht'
  | started h haction ih =>
      rcases concat_split ht with ⟨hbefore, hstarted⟩ | ⟨rest', -, ht'⟩
      · cases hstarted
        exact haction.imp_right fun hask => ⟨hask, _, hbefore.symm⟩
      · exact ih ht'

/-- A round comes after those before it in its operation. -/
theorem Rounds.split (h : Rounds limit t n) (ht : t = before ++ .toolCallsReceived runId iteration calls :: rest) :
    ∃ n', Rounds limit before n' ∧ Below n' iteration ∧ iteration ≤ limit := by
  induction h generalizing rest with
  | nil => exact absurd ht (by simp)
  | uncounted h hr ih =>
      rcases concat_split ht with ⟨-, rfl⟩ | ⟨rest', -, ht'⟩
      · exact absurd hr id
      · exact ih ht'
  | begins h hr ih =>
      rcases concat_split ht with ⟨-, rfl⟩ | ⟨rest', -, ht'⟩
      · exact absurd hr id
      · exact ih ht'
  | received h hn hlimit ih =>
      rcases concat_split ht with ⟨rfl, hreceived⟩ | ⟨rest', -, ht'⟩
      · cases hreceived
        exact ⟨_, h, hn, hlimit⟩
      · exact ih ht'

/-- While no operation begins, the last round is not before one of them. -/
theorem Rounds.since (h : Rounds limit t n) (ht : t = before ++ .toolCallsReceived runId iteration calls :: rest)
    (hrest : ∀ r ∈ rest, ¬ r.Begins) : ∃ i, n = some i ∧ iteration ≤ i := by
  induction h generalizing rest with
  | nil => exact absurd ht (by simp)
  | uncounted h hr ih =>
      rcases concat_split ht with ⟨-, rfl⟩ | ⟨rest', rfl, ht'⟩
      · exact absurd hr id
      · exact ih ht' fun r hmem => hrest r (List.mem_append_left _ hmem)
  | begins h hr ih =>
      rcases concat_split ht with ⟨-, rfl⟩ | ⟨rest', rfl, -⟩
      · exact absurd hr id
      · exact absurd hr (hrest _ (List.mem_append_right _ List.mem_cons_self))
  | received h hn hlimit ih =>
      rcases concat_split ht with ⟨-, hreceived⟩ | ⟨rest', rfl, ht'⟩
      · cases hreceived
        exact ⟨_, rfl, Nat.le_refl _⟩
      · obtain ⟨i, hi, hle⟩ := ih ht' fun r hmem => hrest r (List.mem_append_left _ hmem)
        exact ⟨_, rfl, hle.trans (Nat.le_of_lt (hn i hi))⟩

theorem startedRecords_approved (gateway : ToolGateway) (aborted : Bool) (runId : String) (call : LlmToolCall) :
    ToolBatch.startedRecords gateway aborted true runId [call] = [] ∨
      ∃ inspection : ToolCallInspection, (inspection.action = .allow ∨ inspection.action = .ask) ∧
        ToolBatch.startedRecords gateway aborted true runId [call] = [.toolCallStarted runId call true inspection] := by
  rw [ToolBatch.startedRecords]
  cases hc : gateway.call aborted true call with
  | error error =>
      left
      simp [hc]
  | ok inspection =>
      right
      refine ⟨inspection, (call_ok hc).2.imp_right And.left, ?_⟩
      simp [hc]

end Trace

section Batch

variable {t : List Record} {m m' : Memory} {b : ToolBatch} {gateway : ToolGateway} {aborted catching : Bool}
  {patch : RunCheckpoint → RunCheckpoint}

theorem patchCheckpoint_trace (h : m.patchCheckpoint patch = .ok m') : m'.trace = m.trace := by
  obtain ⟨checkpoint, -, -, rfl⟩ := patchCheckpoint_ok h
  rfl

theorem recordCompletedCall_trace {session : PendingToolSession} (h : LoopState.recordCompletedCall m session = .ok m') :
    m'.trace = m.trace := by
  rw [LoopState.recordCompletedCall] at h
  cases hc : m.activeCheckpoint with
  | none =>
      simp only [hc, Except.ok.injEq] at h
      rw [h]
  | some checkpoint =>
      simp only [hc, Memory.updateCheckpoint] at h
      split_ifs at h <;> cases h <;> rfl

theorem executeToolBatch_trace (gateway : ToolGateway) (aborted : Bool) (m : Memory) (input : ToolBatchInput) :
    (executeToolBatch gateway aborted m input).1.trace = m.trace := by
  rw [executeToolBatch, Memory.updateCheckpoint]
  split_ifs <;> rfl

theorem Extends.checkpointing (h : Extends t m.trace) (b : ToolBatch) :
    Extends t (ToolBatch.checkpointing aborted catching m b).1.trace := by
  rw [ToolBatch.checkpointing]
  cases hm : m.patchCheckpoint b.checkpointed with
  | ok m' => exact patchCheckpoint_trace hm ▸ h
  | error error => exact h

theorem Extends.proceed (h : Extends t m.trace) (gateway : ToolGateway) (aborted : Bool) (b : ToolBatch) :
    Extends t (b.proceed gateway aborted m).1.trace := by
  rw [ToolBatch.proceed]
  cases b.point with
  | observing calls => exact h.batch ofBatch_started
  | announcing call => exact h.batch ofBatch_started
  | reading slots => exact h
  | calling slot => exact h
  | noting => exact h
  | pausing session => exact h

theorem Extends.settled (h : Extends t m.trace) (aborted : Bool) (i : Nat) (answer : Answer) (b : ToolBatch) :
    Extends t (b.settled aborted i answer m).1.trace := by
  have hsettled : ∀ slot, Extends t (m.record (ToolBatch.settledRecords b.runId slot)).trace :=
    fun slot => h.batch ofBatch_settled
  rw [ToolBatch.settled]
  cases b.point with
  | reading slots =>
      dsimp only
      cases slots[i]? with
      | none => exact h
      | some slot =>
          dsimp only
          split_ifs
          · exact h
          · cases slot.outcome answer with
            | error error => exact hsettled slot
            | ok content =>
                dsimp only
                cases ToolBatch.results (slots.set i { slot with content := some content }) with
                | none => exact hsettled slot
                | some messages => exact (hsettled slot).checkpointing _
  | calling slot =>
      dsimp only
      cases slot.outcome answer with
      | ok content => exact (hsettled slot).checkpointing _
      | error error =>
          cases error with
          | permission error =>
              dsimp only
              split_ifs
              · exact (hsettled slot).checkpointing _
              · have hcreated := createPending_trace (m.record (ToolBatch.settledRecords b.runId slot))
                  (b.pendingSession slot.call) error
                have hextends := hcreated.symm ▸ hsettled slot
                cases ((m.record (ToolBatch.settledRecords b.runId slot)).createPendingToolApproval
                  (b.pendingSession slot.call) error).2 with
                | ok _ => exact hextends
                | error error => exact hextends
          | inspect error => exact hsettled slot
          | aborted => exact hsettled slot
          | checkpoint => exact hsettled slot
          | thrown => exact hsettled slot
  | observing calls => exact h
  | announcing call => exact h
  | noting => exact h
  | pausing session => exact h

end Batch

section Steps

/-- What a point still allows, when `n` is the last round of the operation. -/
def Awaits (n : Option Nat) : LoopPoint → Prop
  | .idle => True
  | .opening run | .preparing run | .streaming run | .answering run _ _ | .landing run _ | .reviewing run =>
      Below n run.iteration
  | .executing run _ _ => UpTo n run.iteration
  | .approving _ | .applying _ _ | .appending _ _ | .continuing _ _ => n = none

/-- A state to which the operator has added nothing since the trace `t`. -/
structure Continues (t : List Record) (n : Option Nat) (s : LoopState) : Prop where
  trace : Extends t s.memory.trace
  point : ∀ session, s.point ≠ .approving session
  awaits : Awaits n s.point

variable {o : LoopOptions} {t : List Record} {s : LoopState} {gateway : ToolGateway} {client : Bool} {runId : String} {n : Option Nat}
  {run : LoopRun} {session : PendingToolSession} {toolCalls : List LlmToolCall} {messages : List ToolMessage}
  {onDone onThrown : LoopState → LoopState}

namespace Extends

theorem finish (h : Extends t s.memory.trace) (outcome : Outcome) : Continues t n (s.finish outcome) :=
  ⟨h, by rintro _ ⟨⟩, trivial⟩

theorem withThread (h : Extends t s.memory.trace) {thread : Except ThreadError ConversationThread}
    (hdone : ∀ s' : LoopState, Extends t s'.memory.trace → Continues t n (onDone s'))
    (hthrown : ∀ s' : LoopState, Extends t s'.memory.trace → Continues t n (onThrown s')) :
    Continues t n (s.withThread thread onDone onThrown) := by
  cases thread with
  | ok thread => exact hdone _ h
  | error error => exact hthrown _ h

theorem clearRunCheckpoint (h : Extends t s.memory.trace) (runId : String) :
    Extends t (s.clearRunCheckpoint runId).memory.trace := by
  rw [LoopState.clearRunCheckpoint, Memory.clearRunCheckpoint]
  dsimp only
  split_ifs <;> exact h

theorem close (h : Extends t s.memory.trace) {status : ResultStatus} {summary : Option Text}
    (hthrown : ∀ s' : LoopState, Extends t s'.memory.trace → Continues t n (onThrown s')) :
    Continues t n (s.close o runId status summary onThrown) := by
  have hrecord : Extends t ((s.clearRunCheckpoint runId).record [.runCompleted runId status]).memory.trace :=
    (h.clearRunCheckpoint runId).one ⟨trivial, trivial⟩
  exact hrecord.withThread (fun _ h => h.finish _) hthrown

theorem failed (h : Extends t s.memory.trace) (error : LoopError) : Continues t n (s.failed o runId error) := by
  have hrecord : Extends t ((s.clearRunCheckpoint runId).record [.runCompleted runId .failed]).memory.trace :=
    (h.clearRunCheckpoint runId).one ⟨trivial, trivial⟩
  exact hrecord.withThread (fun _ h => h.finish _) fun _ h => h.finish _

theorem interrupted (h : Extends t s.memory.trace) (runId : String) : Continues t n (s.interrupted o runId) := by
  have hrecord : Extends t (s.record [.runCompleted runId .cancelled]).memory.trace := h.one ⟨trivial, trivial⟩
  rw [LoopState.interrupted]
  split_ifs
  · exact hrecord.withThread (fun _ h => h.finish _) fun _ h => h.finish _
  · exact hrecord.finish _

theorem cancelled (h : Extends t s.memory.trace) (runId : String) : Continues t n (s.cancelled o runId) := by
  have hdeleted : Extends t (s.deleteSession runId).memory.trace := h
  have hinterrupted : Continues t n ((s.deleteSession runId).interrupted o runId) := hdeleted.interrupted runId
  exact ⟨hinterrupted.trace.clearRunCheckpoint runId, hinterrupted.point, hinterrupted.awaits⟩

theorem caught (h : Extends t s.memory.trace) (error : LoopError) : Continues t n (s.caught o run messages error) := by
  rw [LoopState.caught]
  split_ifs
  · exact h.withThread (fun _ h => h.cancelled _) fun _ h => h.finish _
  · exact h.failed error

theorem head (h : Extends t s.memory.trace) (run : LoopRun) (hn : Below n run.iteration) : Continues t n (s.head o run) := by
  rw [LoopState.head]
  split_ifs
  · exact h.caught _
  · exact ⟨h, by rintro _ ⟨⟩, hn⟩

theorem suspended (h : Extends t s.memory.trace) (session : PendingToolSession) : Continues t n (s.suspended session) := by
  have hrecord : Extends t (s.record [.awaitingApproval session.runId session.call]).memory.trace := h.one ⟨trivial, trivial⟩
  exact hrecord.finish _

theorem observed (h : Extends t s.memory.trace) (hn : UpTo n run.iteration) : Continues t n (s.observed o run toolCalls messages) := by
  rw [LoopState.observed]
  split_ifs
  · exact h.close fun _ h => h.caught _
  · exact h.head _ fun i hi => Nat.lt_succ_of_le (hn i hi)

theorem batched (h : Extends t s.memory.trace) (progress : Progress) (hn : UpTo n run.iteration) :
    Continues t n (s.batched o run toolCalls progress) := by
  cases progress with
  | waits batch => exact ⟨h, by rintro _ ⟨⟩, hn⟩
  | ends outcome =>
      cases outcome with
      | completed messages =>
          rw [LoopState.batched]
          refine h.withThread (fun _ h => ?_) fun _ h => h.caught _
          split_ifs
          · exact h.caught _
          · exact h.observed hn
      | approval session messages =>
          rw [LoopState.batched]
          refine h.withThread (fun _ h => ?_) fun _ h => h.caught _
          split_ifs
          · exact h.caught _
          · exact h.suspended session
      | aborted messages => exact h.caught _
      | thrown error => exact h.caught error

theorem softened (h : Extends t s.memory.trace) (hn : Below n run.iteration) {softText chunk : Text} :
    Continues t n (s.softened o run softText chunk) := by
  rw [LoopState.softened]
  split_ifs
  · exact h.caught _
  · exact ⟨h, by rintro _ ⟨⟩, hn⟩

theorem landed (h : Extends t s.memory.trace) {softText : Text} : Continues t n (s.landed o run softText) := by
  rw [LoopState.landed]
  split_ifs
  · exact h.caught _
  · exact h.close fun _ h => h.caught _
  · exact h.close fun _ h => h.caught _

theorem assessed (h : Extends t s.memory.trace) (satisfied : Bool) (hn : Below n run.iteration) : Continues t n (s.assessed o run satisfied) := by
  have hrecord : Extends t (s.record [.verificationFollowup run.runId]).memory.trace := h.one ⟨trivial, trivial⟩
  rw [LoopState.assessed]
  split_ifs
  · exact hrecord.head _ fun i hi => Nat.lt_succ_of_lt (hn i hi)
  · exact h.cancelled _
  · exact h.close fun _ h => h.finish _

theorem resumeCaught (h : Extends t s.memory.trace) (error : LoopError) :
    Continues t n (s.resumeCaught o session messages error) := by
  rw [LoopState.resumeCaught]
  split_ifs
  · exact h.withThread (fun _ h => h.cancelled _) fun _ h => h.finish _
  · exact h.finish _

theorem continued (h : Extends t s.memory.trace) (progress : Progress) (hn : n = none) :
    Continues t n (s.continued o client session progress) := by
  cases progress with
  | waits batch => exact ⟨h, by rintro _ ⟨⟩, hn⟩
  | ends outcome =>
      cases outcome with
      | completed messages =>
          rw [LoopState.continued]
          refine h.withThread (fun _ h => ?_) fun _ h => h.resumeCaught _
          split_ifs
          · exact h.resumeCaught _
          · exact h.head _ (by rw [hn]; rintro _ ⟨⟩)
          · exact h.close fun _ h => h.resumeCaught _
      | approval next messages =>
          rw [LoopState.continued]
          refine h.withThread (fun _ h => ?_) fun _ h => h.resumeCaught _
          split_ifs
          · exact h.resumeCaught _
          · exact h.suspended next
      | aborted messages => exact h.resumeCaught _
      | thrown error => exact h.resumeCaught error

theorem appended (h : Extends t s.memory.trace) (hn : n = none) {content : Text} :
    Continues t n (s.appended o gateway client session content) := by
  rw [LoopState.appended]
  split_ifs
  · exact h.resumeCaught _
  · refine h.withThread (fun s' h => ?_) fun _ h => h.resumeCaught _
    cases hm : LoopState.recordCompletedCall s'.memory session with
    | error error => exact h.resumeCaught error
    | ok memory =>
        refine continued ?_ _ hn
        exact ((executeToolBatch_trace gateway s'.aborted memory _).trans (recordCompletedCall_trace hm)).symm ▸ h

theorem applied (h : Extends t s.memory.trace) (hn : n = none) (slot : Slot) (answer : Answer) :
    Continues t n (s.applied o session slot answer) := by
  have hrecord : Extends t (s.record (ToolBatch.settledRecords session.runId slot)).memory.trace := h.batch ofBatch_settled
  rw [LoopState.applied]
  cases slot.outcome answer with
  | ok content => exact ⟨hrecord, by rintro _ ⟨⟩, hn⟩
  | error error => exact hrecord.resumeCaught error

theorem finishPendingApprovalCancellation (h : Extends t s.memory.trace) {reason summary : Text} :
    Continues t n (s.finishPendingApprovalCancellation o session reason summary) := by
  rw [LoopState.finishPendingApprovalCancellation]
  refine h.withThread (fun s' h => ?_) fun _ h => h.finish _
  have hrecord : Extends t
      (s'.record ((session.call :: session.remainingCalls).map (.toolCallCancelled session.runId))).memory.trace := by
    refine h.add fun r hmem => ?_
    obtain ⟨call, -, rfl⟩ := List.mem_map.mp hmem
    exact ⟨trivial, trivial⟩
  exact hrecord.close fun _ h => h.finish _

end Extends

theorem Continues.cancelPendingApprovals (h : Continues t n s) {reason : Text}
    (sessions : List (String × PendingToolSession)) : Continues t n (s.cancelPendingApprovals o reason sessions) := by
  induction sessions generalizing s with
  | nil => exact h
  | cons entry sessions ih =>
      obtain ⟨runId, session⟩ := entry
      have hdeleted : Extends t (s.deleteSession runId).memory.trace := h.trace
      rw [LoopState.cancelPendingApprovals]
      split_ifs
      · exact hdeleted.finishPendingApprovalCancellation
      · exact ih hdeleted.finishPendingApprovalCancellation

end Steps

section Gate

/-- The handler of a pending call is next only after its approval. -/
structure Guarded (limit : Nat) (s : LoopState) : Prop where
  gated : Gated s.memory.trace
  rounds : ∃ n, Rounds limit s.memory.trace n ∧ Awaits n s.point
  approving : ∀ session, s.point = .approving session →
    ∃ earlier, s.memory.trace = earlier ++ [.toolCallApproved session.runId session.call]

variable {o : LoopOptions} {s s' : LoopState} {gateway : ToolGateway} {n : Option Nat} {limit : Nat} {t : List Record}

theorem below_none (iteration : Nat) : Below none iteration := by rintro _ ⟨⟩

theorem Continues.guarded (h : Continues t n s') (hg : Gated t) (hr : Rounds limit t n) : Guarded limit s' :=
  ⟨hg.extends h.trace, ⟨n, hr.extends h.trace, h.awaits⟩, fun session hp => absurd hp (h.point session)⟩

theorem Guarded.answered {run : LoopRun} {turnText : Text} {toolCalls : List LlmToolCall} (hg : Gated s.memory.trace)
    (hr : Rounds o.maxToolIterations s.memory.trace n) (hn : Below n run.iteration) :
    Guarded o.maxToolIterations (s.answered o gateway run turnText toolCalls) := by
  have hrefl : Extends s.memory.trace s.memory.trace := .refl _
  rw [LoopState.answered]
  split_ifs with hnone hempty hlimit
  · exact Continues.guarded ⟨hrefl, by rintro _ ⟨⟩, hn⟩ hg hr
  · refine Continues.guarded ?_ hg hr
    exact hrefl.withThread (fun _ h => ⟨h, by rintro _ ⟨⟩, hn⟩) fun _ h => h.caught _
  · exact Continues.guarded ⟨hrefl, by rintro _ ⟨⟩, hn⟩ hg hr
  · have hgated : Gated (s.memory.trace ++ [.toolCallsReceived run.runId run.iteration toolCalls]) := hg.allowed trivial
    have hreceived : Rounds o.maxToolIterations
        (s.memory.trace ++ [.toolCallsReceived run.runId run.iteration toolCalls]) (some run.iteration) :=
      hr.received hn (Nat.le_of_not_lt hlimit)
    have hrecord : Extends (s.memory.trace ++ [.toolCallsReceived run.runId run.iteration toolCalls])
        (s.record [.toolCallsReceived run.runId run.iteration toolCalls]).memory.trace := .refl _
    refine Continues.guarded ?_ hgated hreceived
    refine hrecord.withThread (fun s' h => ?_) fun _ h => h.caught _
    refine Extends.batched ?_ _ ?_
    · exact (executeToolBatch_trace gateway s'.aborted s'.memory _).symm ▸ h
    · rintro i ⟨⟩
      exact Nat.le_refl _

theorem Gated.resolved (hg : Gated s.memory.trace) (hr : Rounds limit s.memory.trace n) (runId : String) (approved : Bool)
    (reason : Option Text) (aborted : Bool) : Guarded limit (s.resolved o runId approved reason aborted) := by
  rw [LoopState.resolved]
  cases mapGet runId s.memory.pendingToolSessions with
  | none => exact ((Extends.refl _).finish _).guarded hg hr
  | some session =>
      dsimp only
      cases hm : (s.deleteSession runId).memory.patchCheckpoint
        (fun c => { c with status := .running, pendingCall := none, pendingApproval := none }) with
      | error error =>
          have hstuck : Continues s.memory.trace n ((s.deleteSession runId).finish .thrown) :=
            Extends.finish (s := s.deleteSession runId) (.refl _) _
          exact hstuck.guarded hg hr
      | ok memory =>
          have htrace : memory.trace = (s.deleteSession runId).memory.trace := patchCheckpoint_trace hm
          have hgated : Gated memory.trace := htrace ▸ hg
          have hrounds : Rounds limit memory.trace n := htrace ▸ hr
          dsimp only
          split_ifs
          · have hextends : Extends memory.trace ({ s.deleteSession runId with memory, aborted } : LoopState).memory.trace :=
              .refl _
            exact (hextends.resumeCaught _).guarded hgated hrounds
          · refine ⟨hgated.allowed trivial, ⟨none, hrounds.begins trivial, rfl⟩, ?_⟩
            rintro session ⟨⟩
            exact ⟨memory.trace, rfl⟩
          · refine ⟨hgated.allowed trivial, ⟨none, hrounds.begins trivial, rfl⟩, ?_⟩
            rintro session ⟨⟩

theorem Guarded.approvedCall (h : Guarded limit s) {session : PendingToolSession} (hp : s.point = .approving session) :
    Guarded limit (s.approvedCall gateway session) := by
  obtain ⟨earlier, htrace⟩ := h.approving session hp
  obtain ⟨n, hr, ha⟩ := h.rounds
  rw [hp] at ha
  suffices hstarted : Gated (s.memory.trace ++ ToolBatch.startedRecords gateway s.aborted true session.runId [session.call]) ∧
      Rounds limit (s.memory.trace ++ ToolBatch.startedRecords gateway s.aborted true session.runId [session.call]) n by
    exact ⟨hstarted.1, ⟨n, hstarted.2, ha⟩, by rintro _ ⟨⟩⟩
  rcases startedRecords_approved gateway s.aborted session.runId session.call with hs | ⟨inspection, haction, hs⟩
  · rw [hs, List.append_nil]
    exact ⟨h.gated, hr⟩
  · rw [hs]
    refine ⟨?_, hr.uncounted trivial⟩
    rw [htrace]
    exact .started (htrace ▸ h.gated) haction

theorem Guarded.begin (h : Guarded limit s) (hp : s.point = .idle) (event : LoopEvent) :
    Guarded limit (s.begin o event) := by
  obtain ⟨n, hr, ha⟩ := h.rounds
  have hrefl : Extends s.memory.trace s.memory.trace := .refl _
  have hcontinues : Continues s.memory.trace n s := by
    refine ⟨hrefl, ?_, ha⟩
    rw [hp]
    rintro _ ⟨⟩
  cases event with
  | run runId mode tools input =>
      have hgated : Gated (s.memory.trace ++ [.runStarted runId]) := h.gated.allowed trivial
      have hrounds : Rounds limit (s.memory.trace ++ [.runStarted runId]) none := hr.begins trivial
      have hrecord : Extends (s.memory.trace ++ [.runStarted runId])
          ({ s.record [.runStarted runId] with aborted := false } : LoopState).memory.trace := .refl _
      refine Continues.guarded ?_ hgated hrounds
      rw [LoopState.begin]
      exact hrecord.withThread (fun _ h => ⟨h, by rintro _ ⟨⟩, below_none _⟩) fun _ h => h.finish _
  | resolve runId approved reason aborted => exact h.gated.resolved hr runId approved reason aborted
  | interruptPending runId reason =>
      rw [LoopState.begin, LoopState.interruptPendingApproval]
      cases mapGet runId s.memory.pendingToolSessions with
      | none => exact (hrefl.finish _).guarded h.gated hr
      | some session =>
          have hdeleted : Extends s.memory.trace ((s.deleteSession runId).clearRunCheckpoint runId).memory.trace :=
            Extends.clearRunCheckpoint (s := s.deleteSession runId) hrefl runId
          exact hdeleted.finishPendingApprovalCancellation.guarded h.gated hr
  | cancelPending reason => exact (hcontinues.cancelPendingApprovals _).guarded h.gated hr
  | _ => exact h

theorem Guarded.next (h : Guarded o.maxToolIterations s) (step : LoopStep) :
    Guarded o.maxToolIterations (s.next o step) := by
  have hg := h.gated
  obtain ⟨n, hr, ha⟩ := h.rounds
  have hrefl : Extends s.memory.trace s.memory.trace := .refl _
  have hgoverned : ∀ governing, Extends s.memory.trace (s.governed o governing).memory.trace := fun _ => hrefl
  rw [LoopState.next]
  split
  · next hp => exact h.begin hp step.event
  · exact ⟨h.gated, h.rounds, h.approving⟩
  · next run governing error hp _ =>
      rw [hp] at ha
      cases error with
      | some error =>
          dsimp only
          split_ifs
          · exact ((hgoverned governing).interrupted _).guarded hg hr
          · exact ((hgoverned governing).finish _).guarded hg hr
      | none =>
          dsimp only
          split_ifs
          · exact ((hgoverned governing).interrupted _).guarded hg hr
          · exact ((hgoverned governing).head _ ha).guarded hg hr
  · next run governing error hp _ =>
      rw [hp] at ha
      cases error with
      | some error => exact ((hgoverned governing).caught _).guarded hg hr
      | none =>
          dsimp only
          split_ifs
          · exact ((hgoverned governing).caught _).guarded hg hr
          · exact Continues.guarded ⟨hrefl, by rintro _ ⟨⟩, ha⟩ hg hr
  · next run chunks toolCalls hp _ =>
      rw [hp] at ha
      split_ifs
      · exact (hrefl.caught _).guarded hg hr
      · exact Continues.guarded ⟨hrefl.one ⟨trivial, trivial⟩, by rintro _ ⟨⟩, ha⟩ hg hr
  · next run turnText toolCalls hp _ =>
      rw [hp] at ha
      exact .answered hg hr ha
  · next run softText chunk hp _ =>
      rw [hp] at ha
      exact (hrefl.softened ha).guarded hg hr
  · exact hrefl.landed.guarded hg hr
  · next run satisfied hp _ =>
      rw [hp] at ha
      exact (hrefl.assessed _ ha).guarded hg hr
  · next run toolCalls batch hp _ =>
      rw [hp] at ha
      exact (Extends.batched (hrefl.proceed _ _ _) _ ha).guarded hg hr
  · next run toolCalls batch i answer hp _ =>
      rw [hp] at ha
      exact (Extends.batched (hrefl.settled _ _ _ _) _ ha).guarded hg hr
  · next hp _ => exact h.approvedCall hp
  · next session slot i answer hp _ =>
      rw [hp] at ha
      exact (hrefl.applied ha _ _).guarded hg hr
  · next session content hp _ =>
      rw [hp] at ha
      exact (hrefl.appended ha).guarded hg hr
  · next session batch hp _ =>
      rw [hp] at ha
      exact (Extends.continued (hrefl.proceed _ _ _) _ ha).guarded hg hr
  · next session batch i answer hp _ =>
      rw [hp] at ha
      exact (Extends.continued (hrefl.settled _ _ _ _) _ ha).guarded hg hr
  · exact (hrefl.caught _).guarded hg hr
  · exact (hrefl.caught _).guarded hg hr
  · exact (hrefl.caught _).guarded hg hr
  · exact h

theorem guarded_after (o : LoopOptions) (entryCounter turnCounter : Nat) (steps : List LoopStep) :
    Guarded o.maxToolIterations (after (LoopState.next o) (.new entryCounter turnCounter) steps) := by
  have hnew : Guarded o.maxToolIterations (.new entryCounter turnCounter) :=
    ⟨.nil, ⟨none, .nil, trivial⟩, by rintro _ ⟨⟩⟩
  exact keeps (I := Guarded o.maxToolIterations) (fun _ step h => h.next step) hnew steps

def countingOptions : LoopOptions where
  maxToolIterations := 8
  estimateMessage := fun _ => 1
  fingerprint := fun _ _ => []
  message := fun _ => []
  stallSummary := []

/-- A call of `Write` that the operator approves. -/
def approvedWrite : List LoopStep :=
  [.run "run-1" .auto readsAndWrite.tools ['u'], .prepared [] none, .prepared [] none,
    .responded [] [⟨"c", "Write", none⟩], .proceed, .proceed, .settled 0 .aborted, .proceed,
    .resolve "run-1" true none false, .proceed].map (LoopStep.mk (readsAllowed .ask) true)

/-- Two rounds of one read each. -/
def twoReads : List LoopStep :=
  [.run "run-1" .auto readsAndWrite.tools ['u'], .prepared [] none, .prepared [] none,
    .responded [] [⟨"a", "Read", none⟩], .proceed, .proceed, .settled 0 (.content ['1']), .proceed, .prepared [] none,
    .responded [] [⟨"b", "Read", none⟩], .proceed].map (LoopStep.mk (readsAllowed .allow) true)

end Gate

end Kross.ToolLoop

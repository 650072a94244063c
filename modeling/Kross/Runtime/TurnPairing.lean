import Kross.Runtime.ApprovalGate
import Kross.Runtime.TurnInvariant

namespace Kross.ToolLoop

open Kross.Context (LlmToolCall Text ConversationThread)
open Kross.Mutation (mapGet)
open Kross.Run

section Steps

variable {s : LoopState} {o : LoopOptions} {runId : String} {iteration : Nat} {ids : List String} {run : LoopRun}
  {session : PendingToolSession} {messages : List ToolMessage} {calls toolCalls : List LlmToolCall}
  {gateway : ToolGateway} {client : Bool} {progress : Progress}

theorem InBatch.batched (h : InBatch s run.runId run.iteration ids calls progress) :
    Sound (s.batched o run calls progress) := by
  cases progress with
  | waits batch => exact ⟨ids, h.opened, h.distinct, h.keeps⟩
  | ends outcome =>
      cases outcome with
      | completed messages =>
          obtain ⟨u, ids', hu, hbetween⟩ := h.completed o run.iteration
          rw [LoopState.batched]
          refine withThread_done hu ?_
          split_ifs
          · exact (hbetween.caught _).sound
          · exact hbetween.observed _ _
      | approval next messages =>
          obtain ⟨hrun, hsessions, u, ids', hu, hsuspended⟩ := h.approval o run.iteration
          have hopen := hsuspended.open (mapDelete_one hsessions)
          rw [LoopState.batched]
          refine withThread_done hu ?_
          split_ifs with haborted
          · rw [hrun] at hopen
            exact (hopen.stopped (Or.inl (by rw [ToolBatch.isOperationAborted, haborted]; rfl))).sound
          · exact (hsuspended.suspended hsessions).sound
      | aborted messages =>
          obtain ⟨hsessions, rest, hopen⟩ := h.aborted
          exact (hopen.caught (Or.inr hsessions)).sound
      | thrown error =>
          obtain ⟨hsessions, hopen⟩ := h.thrown
          exact (hopen.stopped (Or.inr hsessions)).sound

theorem InBatch.continued (h : InBatch s session.runId session.iteration ids session.remainingCalls progress) :
    Sound (s.continued o client session progress) := by
  cases progress with
  | waits batch => exact ⟨ids, h.opened, h.distinct, h.keeps⟩
  | ends outcome =>
      cases outcome with
      | completed messages =>
          obtain ⟨u, ids', hu, hbetween⟩ := h.completed o session.iteration
          rw [LoopState.continued]
          refine withThread_done hu ?_
          split_ifs
          · exact (hbetween.resumeCaught _).sound
          · exact Between.head (LoopState.resumedRun session) hbetween
          · exact (hbetween.close _ _ _).sound
      | approval next messages =>
          obtain ⟨hrun, hsessions, u, ids', hu, hsuspended⟩ := h.approval o session.iteration
          have hopen := hsuspended.open (mapDelete_one hsessions)
          rw [LoopState.continued]
          refine withThread_done hu ?_
          split_ifs with haborted
          · rw [hrun] at hopen
            exact (hopen.resumeStopped (Or.inl (by rw [ToolBatch.isOperationAborted, haborted]; rfl))).sound
          · exact (hsuspended.suspended hsessions).sound
      | aborted messages =>
          obtain ⟨hsessions, rest, hopen⟩ := h.aborted
          exact (hopen.resumeCaught (Or.inr hsessions)).sound
      | thrown error =>
          obtain ⟨hsessions, hopen⟩ := h.thrown
          exact (hopen.resumeStopped (Or.inr hsessions)).sound

theorem Between.answered (h : Between s run.runId run.iteration ids) (hm : Modest ids toolCalls) {turnText : Text} :
    Sound (s.answered o gateway run turnText toolCalls) := by
  rw [LoopState.answered]
  split_ifs
  · exact ⟨ids, h.same rfl rfl rfl⟩
  · obtain ⟨u, hu, hopened⟩ := h.opened.appendAssistant o.estimateMessage turnText []
    rw [List.map_nil, List.append_nil] at hopened
    refine withThread_done hu ?_
    exact ⟨ids, hopened, h.distinct, h.nonempty, h.named, h.counted, h.sessions, h.checkpoint⟩
  · exact ⟨ids, h.same rfl rfl rfl⟩
  · obtain ⟨u, hu, hopened⟩ := h.opened.appendAssistant o.estimateMessage turnText toolCalls
    refine withThread_done hu ?_
    have hf : Fits { runId := run.runId, mode := run.mode, calls := toolCalls, tools := run.tools
                     iteration := run.iteration, verificationFollowupCount := run.verificationFollowupCount } ids :=
      hm.fits h.nonempty h.named h.counted
    exact (InBatch.begun (s := { s.record [.toolCallsReceived run.runId run.iteration toolCalls] with thread := u })
      gateway _ hopened hm.distinct hf h.sessions h.checkpoint).batched

theorem Between.softened (h : Between s run.runId run.iteration ids) {softText chunk : Text} :
    Sound (s.softened o run softText chunk) := by
  rw [LoopState.softened]
  split_ifs
  · exact (h.caught _).sound
  · exact ⟨ids, h.same rfl rfl rfl⟩

theorem Between.landed (h : Between s run.runId run.iteration ids) {softText : Text} :
    Sound (s.landed o run softText) := by
  rw [LoopState.landed]
  split_ifs
  · exact (h.caught _).sound
  · exact (h.close _ _ _).sound
  · exact (h.close _ _ _).sound

theorem Between.assessed (h : Between s run.runId run.iteration ids) (satisfied : Bool) :
    Sound (s.assessed o run satisfied) := by
  rw [LoopState.assessed]
  split_ifs
  · exact Between.head _ ⟨h.opened, h.distinct, h.nonempty, h.named, Nat.succ_pos _, h.sessions, h.checkpoint⟩
  · exact h.open.cancelled.sound
  · exact (h.close _ _ _).sound

theorem Between.governed (h : Between s runId iteration ids) (governing : List Governing) :
    Between (s.governed o governing) runId iteration ids :=
  ⟨h.opened.governed governing, h.distinct, h.nonempty, h.named, h.counted, h.sessions, h.checkpoint⟩

theorem Suspended.applied (h : Suspended s session ids) (hs : s.memory.pendingToolSessions = []) (slot : Slot)
    (answer : Answer) : Sound (s.applied o session slot answer) := by
  rw [LoopState.applied]
  cases slot.outcome answer with
  | ok content => exact ⟨ids, h.same rfl h.checkpoint, hs⟩
  | error error =>
      have hsame : Suspended (s.record (ToolBatch.settledRecords session.runId slot)) session ids :=
        h.same rfl h.checkpoint
      exact (hsame.resumeCaught hs error).sound

theorem recordCompletedCall_ok {m m' : Memory} (h : LoopState.recordCompletedCall m session = .ok m')
    (hc : ∃ c, m.activeCheckpoint = some c ∧ c.runId = session.runId)
    (hnot : session.call.id ∉ session.completedCallIds) :
    m'.pendingToolSessions = m.pendingToolSessions ∧ ∃ c, m'.activeCheckpoint = some c ∧ c.runId = session.runId ∧
      c.completedCallIds = session.completedCallIds ++ [session.call.id] := by
  obtain ⟨c, hactive, hrun⟩ := hc
  rw [LoopState.recordCompletedCall] at h
  simp only [hactive, hrun, if_true, if_neg hnot, Memory.updateCheckpoint] at h
  split_ifs at h
  cases h
  exact ⟨rfl, _, rfl, rfl, rfl⟩

theorem Suspended.appended (h : Suspended s session ids) (hs : s.memory.pendingToolSessions = []) {content : Text} :
    Sound (s.appended o gateway client session content) := by
  rw [LoopState.appended]
  split_ifs
  · exact (h.resumeCaught hs _).sound
  · have hsplit : ids ++ (session.call :: session.remainingCalls).map LlmToolCall.id =
        (ids ++ [session.call.id]) ++ session.remainingCalls.map LlmToolCall.id := by
      rw [List.append_assoc, List.map_cons, List.singleton_append]
    have hdistinct := h.modest.distinct
    obtain ⟨u, hu, hopened⟩ := h.opened.appendToolMessages o.estimateMessage session.iteration
      [LlmToolCall.answer session.call content]
    rw [hsplit] at hopened hdistinct
    refine withThread_done hu ?_
    cases hm : LoopState.recordCompletedCall s.memory session with
    | error error =>
        have hopen : Open { s with thread := u } session.runId (ids ++ [session.call.id])
            (session.remainingCalls.map LlmToolCall.id) :=
          ⟨hopened, hdistinct, by rw [hs]; rfl, (h.open (by rw [hs]; rfl)).checkpoint⟩
        exact (hopen.resumeStopped (Or.inr hs)).sound
    | ok memory =>
        have hnot : session.call.id ∉ session.completedCallIds := by
          rw [h.completed]
          exact fun hmem => (List.nodup_append.mp hdistinct.of_append_left).2.2 _ hmem _ List.mem_cons_self rfl
        obtain ⟨hsessions, hcheckpoint⟩ := recordCompletedCall_ok hm h.checkpoint hnot
        rw [h.completed] at hcheckpoint
        have hm : Modest (ids ++ [session.call.id]) session.remainingCalls := by
          have hlength := h.modest.length
          have htotal := h.modest.total
          rw [List.length_cons] at hlength htotal
          refine ⟨fun call hcall => h.modest.accepts call (List.mem_cons_of_mem _ hcall), by omega, ?_, hdistinct⟩
          rw [List.length_append, List.length_singleton]
          omega
        have hnonempty : ∀ id ∈ ids ++ [session.call].map LlmToolCall.id, id ≠ "" := by
          refine nonempty_append h.nonempty fun call hcall => ?_
          exact List.mem_singleton.mp hcall ▸ h.modest.accepts _ List.mem_cons_self
        have hf : Fits { runId := session.runId, mode := session.mode, calls := session.remainingCalls
                         tools := session.tools, iteration := session.iteration
                         verificationFollowupCount := session.verificationFollowupCount } (ids ++ [session.call.id]) :=
          hm.fits hnonempty h.runId h.iteration
        have hbatch : InBatch _ session.runId session.iteration _ session.remainingCalls _ :=
          InBatch.begun (s := { s with thread := u, memory }) gateway _ hopened hdistinct hf (hsessions.trans hs)
            (Or.inr hcheckpoint)
        exact hbatch.continued

end Steps

section Operations

variable {s : LoopState} {o : LoopOptions} {runId : String} {ids : List String} {session : PendingToolSession}

theorem Rested.refused (h : Rested s) (s' : LoopState) (ht : s'.thread = s.thread)
    (hs : s'.memory.pendingToolSessions = s.memory.pendingToolSessions)
    (hc : s'.memory.activeCheckpoint = s.memory.activeCheckpoint) : Rested (s'.finish .refused) := by
  cases h with
  | closed asked answered _ h hsessions hcheckpoint _ =>
      exact .closed asked answered rfl (ht ▸ h) (hs.trans hsessions) (hc.trans hcheckpoint) (by rintro _ _ ⟨⟩)
  | pending session ids _ h hsessions _ =>
      obtain ⟨c, hactive, hrun⟩ := h.checkpoint
      have hsuspended : Suspended (s'.finish .refused) session ids := h.same ht ⟨c, hc.trans hactive, hrun⟩
      exact .pending session ids rfl hsuspended (hs.trans hsessions) (by rintro _ _ ⟨⟩)
  | stuck asked answered _ h hsessions _ =>
      exact .stuck asked answered rfl (ht ▸ h) (hs.trans hsessions) (by rintro _ _ ⟨⟩)

/-- At most one run waits for an approval. -/
theorem Rested.found (h : Rested s) (hget : mapGet runId s.memory.pendingToolSessions = some session) :
    session.runId = runId ∧
      ∃ ids, Suspended s session ids ∧ s.memory.pendingToolSessions = [(session.runId, session)] := by
  cases h with
  | closed _ _ _ _ hsessions =>
      rw [hsessions] at hget
      cases hget
  | pending other ids _ h hsessions =>
      rw [hsessions, mapGet, List.lookup_cons] at hget
      cases hrun : runId == other.runId with
      | false =>
          rw [hrun] at hget
          cases hget
      | true =>
          rw [hrun] at hget
          cases hget
          exact ⟨(eq_of_beq hrun).symm, ids, h, hsessions⟩
  | stuck _ _ _ _ hsessions =>
      rw [hsessions] at hget
      cases hget

theorem Rested.resolved (h : Rested s) (approved : Bool) (reason : Option Text) (aborted : Bool) :
    Sound (s.resolved o runId approved reason aborted) := by
  rw [LoopState.resolved]
  cases hget : mapGet runId s.memory.pendingToolSessions with
  | none => exact (h.refused s rfl rfl rfl).sound
  | some session =>
      obtain ⟨rfl, ids, hsuspended, hsessions⟩ := h.found hget
      have hdeleted : (s.deleteSession session.runId).memory.pendingToolSessions = [] := mapDelete_one hsessions
      dsimp only
      cases hm : (s.deleteSession session.runId).memory.patchCheckpoint
        (fun c => { c with status := .running, pendingCall := none, pendingApproval := none }) with
      | error error =>
          have hstuck : Rested ((s.deleteSession session.runId).finish .thrown) :=
            .stuck _ _ rfl hsuspended.opened hdeleted (by rintro _ _ ⟨⟩)
          exact hstuck.sound
      | ok memory =>
          obtain ⟨c, hactive, -, rfl⟩ := patchCheckpoint_ok hm
          obtain ⟨c', hsome, hrun⟩ := hsuspended.checkpoint
          cases hsome.symm.trans hactive
          have hsame : ∀ s' : LoopState, s'.thread = s.thread → s'.memory.activeCheckpoint =
              some { c with status := .running, pendingCall := none, pendingApproval := none } → Suspended s' session ids :=
            fun s' ht hc => hsuspended.same ht ⟨_, hc, hrun⟩
          dsimp only
          split_ifs
          · apply Rested.sound
            apply Suspended.resumeCaught
            · exact hsame _ rfl rfl
            · exact hdeleted
          · exact ⟨ids, hsame _ rfl rfl, hdeleted⟩
          · exact ⟨ids, hsame _ rfl rfl, hdeleted⟩

theorem Open.finishPendingApprovalCancellation
    (h : Open s session.runId ids ((session.call :: session.remainingCalls).map LlmToolCall.id))
    (hs : s.memory.pendingToolSessions = []) (reason summary : Text) :
    Ended (s.finishPendingApprovalCancellation o session reason summary) session.runId .cancelled := by
  have hids : ((session.call :: session.remainingCalls).map fun call =>
      LlmToolCall.answer call (cancelledContent reason call)).map ToolMessage.toolCallId ++ [] =
        (session.call :: session.remainingCalls).map LlmToolCall.id := by
    rw [List.append_nil, List.map_map]
    rfl
  rw [← hids] at h
  obtain ⟨u, hu, hopen⟩ := h.append o session.iteration
  rw [LoopState.finishPendingApprovalCancellation]
  refine withThread_done (P := fun s => Ended s session.runId .cancelled) hu ?_
  have hrecord := hopen.same (({ s with thread := u } : LoopState).record
    ((session.call :: session.remainingCalls).map (.toolCallCancelled session.runId))) rfl hs rfl
  exact hrecord.close hs _ _ _

theorem Rested.interruptPendingApproval (h : Rested s)
    (hget : mapGet runId s.memory.pendingToolSessions = some session) (reason : Text) :
    Ended (s.interruptPendingApproval o runId reason) runId .cancelled := by
  rw [LoopState.interruptPendingApproval, hget]
  obtain ⟨rfl, ids, hsuspended, hsessions⟩ := h.found hget
  have hdeleted : (s.deleteSession session.runId).memory.pendingToolSessions = [] := mapDelete_one hsessions
  have hcleared := (clearRunCheckpoint_sessions (s.deleteSession session.runId).memory session.runId).trans hdeleted
  have hopen := hsuspended.open (mapDelete_one hsessions)
  have hnone := clearRunCheckpoint_own (m := (s.deleteSession session.runId).memory) hopen.checkpoint
  have hcancelled : Open ((s.deleteSession session.runId).clearRunCheckpoint session.runId) session.runId ids
      ((session.call :: session.remainingCalls).map LlmToolCall.id) := by
    refine ⟨hopen.opened, hopen.distinct, ?_, fun c hc => ?_⟩
    · rw [show ((s.deleteSession session.runId).clearRunCheckpoint session.runId).memory.pendingToolSessions = [] from
        hcleared]
      rfl
    · cases hnone.symm.trans hc
  exact hcancelled.finishPendingApprovalCancellation hcleared _ _

theorem Rested.cancelPendingApprovals (h : Rested s) (reason : Text) :
    Rested (s.cancelPendingApprovals o reason s.memory.pendingToolSessions) := by
  cases h with
  | closed asked answered hidle h hsessions hcheckpoint hpaired =>
      rw [hsessions]
      exact .closed asked answered hidle h hsessions hcheckpoint hpaired
  | pending session ids hidle h hsessions _ =>
      have hdeleted : (s.deleteSession session.runId).memory.pendingToolSessions = [] := mapDelete_one hsessions
      have hopen := h.open (mapDelete_one hsessions)
      have hrested : Rested ((s.deleteSession session.runId).finishPendingApprovalCancellation o session reason
          (cancelledSummary reason)) :=
        ((hopen.same (s.deleteSession session.runId) rfl hdeleted rfl).finishPendingApprovalCancellation hdeleted _ _).1
      rw [hsessions, LoopState.cancelPendingApprovals]
      split_ifs
      · exact hrested
      · exact hrested
  | stuck asked answered hidle h hsessions hresult =>
      rw [hsessions]
      exact .stuck asked answered hidle h hsessions hresult

theorem beginTurn_opened {t : ConversationThread} {asked answered : List String} (h : Opened t asked answered)
    (estimateMessage : Kross.Context.LlmMessage → Nat) (input : Text) :
    ∃ error, t.beginTurn estimateMessage input = .error error := by
  obtain ⟨turnId, ho⟩ := h.exists_turnId
  rw [ConversationThread.beginTurn, ho]
  exact ⟨_, rfl⟩

/-- What the loop relies on: runs have names, and the calls of a response are within the bounds of the
checkpoint, with ids that the turn has not used. -/
def LoopState.Allows (s : LoopState) (step : LoopStep) : Prop :=
  match step.event with
  | .run runId _ _ _ => runId ≠ ""
  | .responded _ toolCalls => Modest (requestedIds (openEntries s.thread)) toolCalls
  | _ => True

theorem Rested.run (h : Rested s) (hrun : runId ≠ "") (mode : AgentMode) (tools : List ToolMetadata) (input : Text) :
    Sound (s.begin o (.run runId mode tools input)) := by
  rw [LoopState.begin]
  have hrefused : Sound (({ s.record [.runStarted runId] with aborted := false } : LoopState).finish .refused) :=
    Rested.sound (h.refused _ rfl rfl rfl)
  cases h with
  | closed asked answered _ h hsessions hcheckpoint _ =>
      obtain ⟨u, hu, hopened⟩ := opened_begin h.reachable h.isClosed o.estimateMessage input
      refine withThread_done hu ?_
      refine ⟨⟨hopened, List.nodup_nil, ?_, hrun, Nat.one_pos, hsessions, Or.inl ⟨hcheckpoint, rfl⟩⟩, hcheckpoint⟩
      rintro _ ⟨⟩
  | pending session ids _ h _ _ =>
      obtain ⟨error, he⟩ := beginTurn_opened h.opened o.estimateMessage input
      exact withThread_thrown he hrefused
  | stuck asked answered _ h _ _ =>
      obtain ⟨error, he⟩ := beginTurn_opened h o.estimateMessage input
      exact withThread_thrown he hrefused

theorem Rested.begin (h : Rested s) (step : LoopStep) (ha : s.Allows step) : Sound (s.begin o step.event) := by
  rw [LoopState.Allows] at ha
  cases he : step.event with
  | run runId mode tools input =>
      rw [he] at ha
      exact h.run ha mode tools input
  | resolve runId approved reason aborted => exact h.resolved approved reason aborted
  | interruptPending runId reason =>
      cases hget : mapGet runId s.memory.pendingToolSessions with
      | none =>
          rw [LoopState.begin, LoopState.interruptPendingApproval, hget]
          exact (h.refused s rfl rfl rfl).sound
      | some session => exact (h.interruptPendingApproval hget reason).1.sound
  | cancelPending reason => exact (h.cancelPendingApprovals reason).sound
  | _ => exact h.sound

theorem Rested.abort (h : Rested s) : Rested { s with aborted := true } := by
  cases h with
  | closed asked answered hidle h hsessions hcheckpoint hpaired =>
      exact .closed asked answered hidle h hsessions hcheckpoint hpaired
  | pending session ids hidle h hsessions hresult =>
      exact .pending session ids hidle (h.same rfl h.checkpoint) hsessions hresult
  | stuck asked answered hidle h hsessions hresult => exact .stuck asked answered hidle h hsessions hresult

theorem SoundAt.abort {point : LoopPoint} (h : SoundAt s point) : SoundAt { s with aborted := true } point := by
  cases point with
  | idle => exact Rested.abort h
  | opening run =>
      obtain ⟨h, hnone⟩ := h
      exact ⟨h.same rfl rfl rfl, hnone⟩
  | preparing run =>
      obtain ⟨ids, h⟩ := h
      exact ⟨ids, h.same rfl rfl rfl⟩
  | streaming run =>
      obtain ⟨ids, h⟩ := h
      exact ⟨ids, h.same rfl rfl rfl⟩
  | reviewing run =>
      obtain ⟨ids, h⟩ := h
      exact ⟨ids, h.same rfl rfl rfl⟩
  | landing run softText =>
      obtain ⟨ids, h⟩ := h
      exact ⟨ids, h.same rfl rfl rfl⟩
  | answering run turnText toolCalls =>
      obtain ⟨ids, h, hm⟩ := h
      exact ⟨ids, h.same rfl rfl rfl, hm⟩
  | executing run toolCalls batch =>
      obtain ⟨ids, h⟩ := h
      exact ⟨ids, h.abort⟩
  | approving session =>
      obtain ⟨ids, h, hs⟩ := h
      exact ⟨ids, h.same rfl h.checkpoint, hs⟩
  | applying session slot =>
      obtain ⟨ids, h, hs⟩ := h
      exact ⟨ids, h.same rfl h.checkpoint, hs⟩
  | appending session content =>
      obtain ⟨ids, h, hs⟩ := h
      exact ⟨ids, h.same rfl h.checkpoint, hs⟩
  | continuing session batch =>
      obtain ⟨ids, h⟩ := h
      exact ⟨ids, h.abort⟩

end Operations

section Runs

variable {s : LoopState} {o : LoopOptions}

theorem Sound.next (h : Sound s) (step : LoopStep) (ha : s.Allows step) : Sound (s.next o step) := by
  rw [LoopState.next]
  split
  · next hp =>
      rw [Sound, hp] at h
      exact Rested.begin h step ha
  · exact SoundAt.abort h
  · next run governing error hp _ =>
      rw [Sound, hp] at h
      obtain ⟨h, hnone⟩ := h
      have hgoverned := Between.governed (o := o) h governing
      have hstuck : Rested ((s.governed o governing).finish .thrown) :=
        .stuck _ _ rfl hgoverned.opened hgoverned.sessions (by rintro _ _ ⟨⟩)
      cases error with
      | some error =>
          dsimp only
          split_ifs
          · exact (hgoverned.interrupted hnone).sound
          · exact hstuck.sound
      | none =>
          dsimp only
          split_ifs
          · exact (hgoverned.interrupted hnone).sound
          · exact Between.head run hgoverned
  · next run governing error hp _ =>
      rw [Sound, hp] at h
      obtain ⟨ids, h⟩ := h
      have hgoverned := Between.governed (o := o) h governing
      cases error with
      | some error => exact (hgoverned.caught error).sound
      | none =>
          dsimp only
          split_ifs
          · exact (hgoverned.caught _).sound
          · exact ⟨ids, hgoverned.same rfl rfl rfl⟩
  · next run chunks toolCalls hp he =>
      rw [Sound, hp] at h
      obtain ⟨ids, h⟩ := h
      rw [LoopState.Allows, he] at ha
      have hm : Modest ids toolCalls := h.opened.asked ▸ ha
      split_ifs
      · exact (h.caught _).sound
      · exact ⟨ids, h.same rfl rfl rfl, hm⟩
  · next run turnText toolCalls hp _ =>
      rw [Sound, hp] at h
      obtain ⟨ids, h, hm⟩ := h
      exact h.answered hm
  · next run softText chunk hp _ =>
      rw [Sound, hp] at h
      obtain ⟨ids, h⟩ := h
      exact h.softened
  · next run softText hp _ =>
      rw [Sound, hp] at h
      obtain ⟨ids, h⟩ := h
      exact h.landed
  · next run satisfied hp _ =>
      rw [Sound, hp] at h
      obtain ⟨ids, h⟩ := h
      exact h.assessed satisfied
  · next run toolCalls batch hp _ =>
      rw [Sound, hp] at h
      obtain ⟨ids, h⟩ := h
      exact (h.proceed step.gateway).batched
  · next run toolCalls batch i answer hp _ =>
      rw [Sound, hp] at h
      obtain ⟨ids, h⟩ := h
      exact (h.settled step.gateway i answer).batched
  · next session hp _ =>
      rw [Sound, hp] at h
      obtain ⟨ids, h, hs⟩ := h
      exact ⟨ids, h.same rfl h.checkpoint, hs⟩
  · next session slot i answer hp _ =>
      rw [Sound, hp] at h
      obtain ⟨ids, h, hs⟩ := h
      exact h.applied hs slot answer
  · next session content hp _ =>
      rw [Sound, hp] at h
      obtain ⟨ids, h, hs⟩ := h
      exact h.appended hs
  · next session batch hp _ =>
      rw [Sound, hp] at h
      obtain ⟨ids, h⟩ := h
      exact (h.proceed step.gateway).continued
  · next session batch i answer hp _ =>
      rw [Sound, hp] at h
      obtain ⟨ids, h⟩ := h
      exact (h.settled step.gateway i answer).continued
  · next run error hp _ =>
      rw [Sound, hp] at h
      obtain ⟨ids, h⟩ := h
      exact (h.caught error).sound
  · next run softText error hp _ =>
      rw [Sound, hp] at h
      obtain ⟨ids, h⟩ := h
      exact (h.caught error).sound
  · next run error hp _ =>
      rw [Sound, hp] at h
      obtain ⟨ids, h⟩ := h
      exact (h.caught error).sound
  · exact h

theorem sound_new (entryCounter turnCounter : Nat) : Sound (.new entryCounter turnCounter) := by
  have hclosed : Closed (ConversationThread.new entryCounter turnCounter) [] [] := ⟨.new _ _, rfl, rfl, rfl⟩
  exact Rested.sound (.closed [] [] rfl hclosed rfl rfl (by rintro _ _ ⟨⟩))

theorem rested_after (o : LoopOptions) (entryCounter turnCounter : Nat) (steps : List LoopStep)
    (h : Along (LoopState.next o) LoopState.Allows (.new entryCounter turnCounter) steps)
    (hidle : (after (LoopState.next o) (.new entryCounter turnCounter) steps).point = .idle) :
    Rested (after (LoopState.next o) (.new entryCounter turnCounter) steps) := by
  have hsound : Sound (after (LoopState.next o) (.new entryCounter turnCounter) steps) :=
    h.keeps (I := Sound) (fun s step ha hs => hs.next step ha) (sound_new entryCounter turnCounter)
  rw [Sound, hidle] at hsound
  exact hsound

/-- The approved call answers, and the model has no more calls. -/
def finishedWrite : List LoopStep :=
  approvedWrite ++ [.settled 0 (.content ['k']), .proceed, .prepared [] none, .responded [['d']] [], .proceed,
    .assessed true].map (LoopStep.mk (readsAllowed .ask) true)

theorem allows_finishedWrite : Along (LoopState.next countingOptions) LoopState.Allows (.new 0 0) finishedWrite := by
  have hrun : "run-1" ≠ "" := by decide
  have hwrite : Modest [] [⟨"c", "Write", none⟩] := ⟨by simp [acceptsCall], by decide, by decide, by decide⟩
  have hnone : Modest ["c"] [] := ⟨by rintro _ ⟨⟩, by decide, by decide, by decide⟩
  have hend : Along (LoopState.next countingOptions) LoopState.Allows
      (after (LoopState.next countingOptions) (.new 0 0) finishedWrite) [] := along_nil
  exact along_cons.mpr ⟨hrun, along_cons.mpr ⟨trivial, along_cons.mpr ⟨trivial, along_cons.mpr ⟨hwrite,
    along_cons.mpr ⟨trivial, along_cons.mpr ⟨trivial, along_cons.mpr ⟨trivial, along_cons.mpr ⟨trivial,
    along_cons.mpr ⟨trivial, along_cons.mpr ⟨trivial, along_cons.mpr ⟨trivial, along_cons.mpr ⟨trivial,
    along_cons.mpr ⟨trivial, along_cons.mpr ⟨hnone, along_cons.mpr ⟨trivial, along_cons.mpr ⟨trivial, hend⟩⟩⟩⟩⟩⟩⟩⟩⟩⟩⟩⟩⟩⟩⟩⟩

theorem allows_takeWrite : Along (LoopState.next countingOptions) LoopState.Allows (.new 0 0) (finishedWrite.take 8) := by
  have hsplit := allows_finishedWrite
  rw [← List.take_append_drop 8 finishedWrite] at hsplit
  exact (along_append.mp hsplit).1

end Runs

end Kross.ToolLoop

import Kross.Runtime.BatchCheckpoint
import Kross.Runtime.OpenTurn

namespace Kross.ToolLoop

open Kross.Context (LlmToolCall Text ConversationThread ThreadError)
open Kross.Mutation (mapDelete)

section States

/-- The open turn of a run: the calls `ids` have results, those of `rest` have none. -/
structure Open (s : LoopState) (runId : String) (ids rest : List String) : Prop where
  opened : Opened s.thread (ids ++ rest) ids
  distinct : (ids ++ rest).Nodup
  sessions : mapDelete runId s.memory.pendingToolSessions = []
  checkpoint : ∀ c, s.memory.activeCheckpoint = some c → c.runId = runId

/-- A run between two batches: each call of its turn has its result. -/
structure Between (s : LoopState) (runId : String) (iteration : Nat) (ids : List String) : Prop where
  opened : Opened s.thread ids ids
  distinct : ids.Nodup
  nonempty : ∀ id ∈ ids, id ≠ ""
  named : runId ≠ ""
  counted : 0 < iteration
  sessions : s.memory.pendingToolSessions = []
  checkpoint : s.memory.activeCheckpoint = none ∧ ids = [] ∨
    ∃ c, s.memory.activeCheckpoint = some c ∧ c.runId = runId ∧ c.completedCallIds = ids

/-- Calls that the schema of the checkpoint takes, with ids that the turn has not used. -/
structure Modest (ids : List String) (calls : List LlmToolCall) : Prop where
  accepts : ∀ call ∈ calls, acceptsCall call = true
  length : calls.length ≤ 200
  total : ids.length + calls.length ≤ 1000
  distinct : (ids ++ calls.map LlmToolCall.id).Nodup

/-- A run in a batch of `calls`. -/
structure InBatch (s : LoopState) (runId : String) (iteration : Nat) (ids : List String) (calls : List LlmToolCall)
    (progress : Progress) : Prop where
  opened : Opened s.thread (ids ++ calls.map LlmToolCall.id) ids
  distinct : (ids ++ calls.map LlmToolCall.id).Nodup
  keeps : ∃ input base, input.runId = runId ∧ input.iteration = iteration ∧ input.calls = calls ∧ Fits input ids ∧
    Keeps input ids [] base ⟨s.aborted, s.memory, progress⟩

/-- A run whose call waits for an approval, or has it. -/
structure Suspended (s : LoopState) (session : PendingToolSession) (ids : List String) : Prop where
  opened : Opened s.thread (ids ++ (session.call :: session.remainingCalls).map LlmToolCall.id) ids
  modest : Modest ids (session.call :: session.remainingCalls)
  nonempty : ∀ id ∈ ids, id ≠ ""
  runId : session.runId ≠ ""
  iteration : 0 < session.iteration
  completed : session.completedCallIds = ids
  checkpoint : ∃ c, s.memory.activeCheckpoint = some c ∧ c.runId = session.runId

/-- The results answer the first of the calls, each once; without a failure they answer all of them. -/
def Pairs (status : ResultStatus) (asked answered : List String) : Prop :=
  asked.Nodup ∧ ∃ rest, asked = answered ++ rest ∧ (status ≠ .failed → rest = [])

/-- A state between two operations. A stuck one has a turn that no operation closes. -/
inductive Rested (s : LoopState) : Prop
  | closed (asked answered : List String) (hidle : s.point = .idle) (h : Closed s.thread asked answered)
      (hsessions : s.memory.pendingToolSessions = []) (hcheckpoint : s.memory.activeCheckpoint = none)
      (hpaired : ∀ runId status, s.outcome = some (.result runId status) → Pairs status asked answered)
  | pending (session : PendingToolSession) (ids : List String) (hidle : s.point = .idle) (h : Suspended s session ids)
      (hsessions : s.memory.pendingToolSessions = [(session.runId, session)])
      (hresult : ∀ runId status, s.outcome ≠ some (.result runId status))
  | stuck (asked answered : List String) (hidle : s.point = .idle) (h : Opened s.thread asked answered)
      (hsessions : s.memory.pendingToolSessions = [])
      (hresult : ∀ runId status, s.outcome ≠ some (.result runId status))

/-- The operation has come to a result. -/
def Ended (s : LoopState) (runId : String) (status : ResultStatus) : Prop :=
  Rested s ∧ s.outcome = some (.result runId status)

/-- What holds of the runtime at each point. -/
def SoundAt (s : LoopState) : LoopPoint → Prop
  | .idle => Rested s
  | .opening run => Between s run.runId run.iteration [] ∧ s.memory.activeCheckpoint = none
  | .preparing run | .streaming run | .reviewing run | .landing run _ => ∃ ids, Between s run.runId run.iteration ids
  | .answering run _ toolCalls => ∃ ids, Between s run.runId run.iteration ids ∧ Modest ids toolCalls
  | .executing run toolCalls batch => ∃ ids, InBatch s run.runId run.iteration ids toolCalls (.waits batch)
  | .approving session | .applying session _ | .appending session _ =>
      ∃ ids, Suspended s session ids ∧ s.memory.pendingToolSessions = []
  | .continuing session batch =>
      ∃ ids, InBatch s session.runId session.iteration ids session.remainingCalls (.waits batch)

def Sound (s : LoopState) : Prop := SoundAt s s.point

variable {s s' : LoopState} {o : LoopOptions} {runId : String} {iteration : Nat} {ids rest : List String}
  {session : PendingToolSession} {calls : List LlmToolCall} {messages : List ToolMessage} {m m' : Memory}

theorem pairs_all {status : ResultStatus} (h : ids.Nodup) : Pairs status ids ids :=
  ⟨h, [], (List.append_nil ids).symm, fun _ => rfl⟩

theorem Rested.idle (h : Rested s) : s.point = .idle := by
  cases h with
  | closed _ _ hidle => exact hidle
  | pending _ _ hidle => exact hidle
  | stuck _ _ hidle => exact hidle

theorem Rested.sound (h : Rested s) : Sound s := by
  rw [Sound, h.idle]
  exact h

theorem Between.same (h : Between s runId iteration ids) (ht : s'.thread = s.thread)
    (hs : s'.memory.pendingToolSessions = s.memory.pendingToolSessions)
    (hc : s'.memory.activeCheckpoint = s.memory.activeCheckpoint) : Between s' runId iteration ids :=
  ⟨ht ▸ h.opened, h.distinct, h.nonempty, h.named, h.counted, hs.trans h.sessions, by rw [hc]; exact h.checkpoint⟩

theorem Between.own (h : Between s runId iteration ids) :
    ∀ c, s.memory.activeCheckpoint = some c → c.runId = runId := by
  intro c hc
  rcases h.checkpoint with ⟨hnone, -⟩ | ⟨c', hsome, hrun, -⟩
  · rw [hnone] at hc
    cases hc
  · rw [hsome] at hc
    cases hc
    exact hrun

theorem Between.open (h : Between s runId iteration ids) : Open s runId ids [] := by
  refine ⟨?_, ?_, by rw [h.sessions]; rfl, h.own⟩
  · rw [List.append_nil]
    exact h.opened
  · rw [List.append_nil]
    exact h.distinct

theorem Open.same (h : Open s runId ids rest) (s' : LoopState) (ht : s'.thread = s.thread)
    (hs : s'.memory.pendingToolSessions = []) (hc : s'.memory.activeCheckpoint = s.memory.activeCheckpoint) :
    Open s' runId ids rest :=
  ⟨ht ▸ h.opened, h.distinct, by rw [hs]; rfl, by rw [hc]; exact h.checkpoint⟩

theorem Suspended.open (h : Suspended s session ids) (hs : mapDelete session.runId s.memory.pendingToolSessions = []) :
    Open s session.runId ids ((session.call :: session.remainingCalls).map LlmToolCall.id) := by
  refine ⟨h.opened, h.modest.distinct, hs, fun c hc => ?_⟩
  obtain ⟨c', hsome, hrun⟩ := h.checkpoint
  rw [hsome] at hc
  cases hc
  exact hrun

theorem Suspended.same (h : Suspended s session ids) (ht : s'.thread = s.thread)
    (hc : ∃ c, s'.memory.activeCheckpoint = some c ∧ c.runId = session.runId) : Suspended s' session ids :=
  ⟨ht ▸ h.opened, h.modest, h.nonempty, h.runId, h.iteration, h.completed, hc⟩

theorem filter_answered (h : (ids ++ rest).Nodup) : (ids ++ rest).filter ids.contains = ids := by
  have hdisjoint := (List.nodup_append.mp h).2.2
  rw [List.filter_append, List.filter_eq_self.mpr fun id hid => List.contains_iff_mem.mpr hid,
    List.filter_eq_nil_iff.mpr fun id hid hmem => ?_, List.append_nil]
  exact hdisjoint id (List.contains_iff_mem.mp hmem) id hid rfl

theorem eraseDups_of_nodup (h : ids.Nodup) : ids.eraseDups = ids := by
  induction ids with
  | nil => rfl
  | cons id ids ih =>
      obtain ⟨hnot, hids⟩ := List.nodup_cons.mp h
      rw [List.eraseDups_cons, List.filter_eq_self.mpr fun b hb => ?_, ih hids]
      simpa using fun hb' : b = id => hnot (hb' ▸ hb)

theorem withThread_done {P : LoopState → Prop} {thread : Except ThreadError ConversationThread}
    {onDone onThrown : LoopState → LoopState} {u : ConversationThread} (h : thread = .ok u)
    (hdone : P (onDone { s with thread := u })) : P (s.withThread thread onDone onThrown) := by
  rw [h]
  exact hdone

theorem withThread_thrown {P : LoopState → Prop} {thread : Except ThreadError ConversationThread}
    {onDone onThrown : LoopState → LoopState} {error : ThreadError} (h : thread = .error error)
    (hthrown : P (onThrown s)) : P (s.withThread thread onDone onThrown) := by
  rw [h]
  exact hthrown

theorem clearRunCheckpoint_sessions (m : Memory) (runId : String) :
    (m.clearRunCheckpoint runId).pendingToolSessions = m.pendingToolSessions := by
  rw [Memory.clearRunCheckpoint]
  split_ifs <;> rfl

theorem clearRunCheckpoint_own (h : ∀ c, m.activeCheckpoint = some c → c.runId = runId) :
    (m.clearRunCheckpoint runId).activeCheckpoint = none := by
  rw [Memory.clearRunCheckpoint]
  cases hc : m.activeCheckpoint with
  | none => simpa using hc
  | some c =>
      rw [if_pos]
      simpa using h c hc

end States

section Ends

variable {s : LoopState} {o : LoopOptions} {runId : String} {iteration : Nat} {ids rest : List String} {run : LoopRun}
  {session : PendingToolSession} {messages : List ToolMessage}

theorem Open.append (h : Open s runId ids (messages.map ToolMessage.toolCallId ++ rest)) (o : LoopOptions)
    (iteration : Nat) : ∃ u, appendToolMessages o.estimateMessage iteration s.thread messages = .ok u ∧
      Open { s with thread := u } runId (ids ++ messages.map ToolMessage.toolCallId) rest := by
  obtain ⟨u, hu, hopened⟩ := h.opened.appendToolMessages o.estimateMessage iteration messages
  rw [← List.append_assoc] at hopened
  exact ⟨u, hu, hopened, by rw [List.append_assoc]; exact h.distinct, h.sessions, h.checkpoint⟩

/-- An interrupted run keeps the calls with results. -/
theorem Open.cancelled (h : Open s runId ids rest) : Rested (s.cancelled o runId) := by
  obtain ⟨u, hu, hclosed⟩ := h.opened.interruptTurn o.estimateMessage "用户中断了当前任务".toList
  rw [filter_answered h.distinct] at hclosed
  rw [LoopState.cancelled, LoopState.interrupted]
  split_ifs with hopen
  · refine withThread_done (P := fun s => Rested (s.clearRunCheckpoint runId)) hu ?_
    refine .closed ids ids rfl hclosed ?_ ?_ ?_
    · exact (clearRunCheckpoint_sessions _ _).trans h.sessions
    · exact clearRunCheckpoint_own h.checkpoint
    · exact fun _ _ _ => pairs_all h.distinct.of_append_left
  · exact absurd h.opened.isOpen hopen

theorem Open.failed (h : Open s runId ids rest) (hs : s.memory.pendingToolSessions = []) (error : LoopError) :
    Rested (s.failed o runId error) := by
  obtain ⟨u, hu, hclosed⟩ := h.opened.abortTurn o.estimateMessage (o.message error)
  rw [LoopState.failed]
  refine withThread_done hu ?_
  refine .closed _ _ rfl hclosed ?_ ?_ ?_
  · exact (clearRunCheckpoint_sessions _ _).trans hs
  · exact clearRunCheckpoint_own h.checkpoint
  · rintro _ _ ⟨⟩
    exact ⟨h.distinct, rest, rfl, fun hstatus => absurd rfl hstatus⟩

theorem Open.close (h : Open s runId ids []) (hs : s.memory.pendingToolSessions = []) (status : ResultStatus)
    (summary : Option Text) (onThrown : LoopState → LoopState) :
    Ended (s.close o runId status summary onThrown) runId status := by
  have hopened := h.opened
  have hdistinct := h.distinct
  rw [List.append_nil] at hopened hdistinct
  have hclosed : ∀ u, Closed u ids ids → Ended ({ (s.clearRunCheckpoint runId).record [.runCompleted runId status] with
      thread := u }.finish (.result runId status)) runId status := by
    intro u hu
    refine ⟨.closed ids ids rfl hu ?_ ?_ fun _ _ _ => pairs_all hdistinct, rfl⟩
    · exact (clearRunCheckpoint_sessions _ _).trans hs
    · exact clearRunCheckpoint_own h.checkpoint
  cases summary with
  | none =>
      obtain ⟨u, hu, hcommitted⟩ := hopened.commitTurn
      have hthread : (Except.ok s.thread : Except ThreadError ConversationThread).bind ConversationThread.commitTurn =
        .ok u := hu
      unfold LoopState.close
      refine withThread_done (P := fun s => Ended s runId status) hthread ?_
      exact hclosed u hcommitted
  | some summary =>
      obtain ⟨v, hv, hopened⟩ := hopened.appendAssistant o.estimateMessage summary []
      rw [List.map_nil, List.append_nil] at hopened
      obtain ⟨u, hu, hcommitted⟩ := hopened.commitTurn
      have hthread : (s.thread.appendAssistant o.estimateMessage summary []).bind ConversationThread.commitTurn =
          .ok u := by
        rw [hv]
        exact hu
      unfold LoopState.close
      refine withThread_done (P := fun s => Ended s runId status) hthread ?_
      exact hclosed u hcommitted

theorem Open.caught (h : Open s run.runId ids (messages.map ToolMessage.toolCallId ++ rest)) {error : LoopError}
    (hs : ToolBatch.isOperationAborted s.aborted error = true ∨ s.memory.pendingToolSessions = []) :
    Rested (s.caught o run messages error) := by
  rw [LoopState.caught]
  split_ifs with haborted
  · obtain ⟨u, hu, hopen⟩ := h.append o run.iteration
    exact withThread_done hu hopen.cancelled
  · exact h.failed (hs.resolve_left haborted) error

theorem Open.resumeCaught (h : Open s session.runId ids (messages.map ToolMessage.toolCallId ++ rest))
    {error : LoopError} (hs : ToolBatch.isOperationAborted s.aborted error = true ∨ s.memory.pendingToolSessions = []) :
    Rested (s.resumeCaught o session messages error) := by
  rw [LoopState.resumeCaught]
  split_ifs with haborted
  · obtain ⟨u, hu, hopen⟩ := h.append o session.iteration
    exact withThread_done hu hopen.cancelled
  · exact .stuck _ _ rfl h.opened (hs.resolve_left haborted) (by rintro _ _ ⟨⟩)

/-- No messages are left to append. -/
theorem Open.stopped (h : Open s run.runId ids rest) {error : LoopError}
    (hs : ToolBatch.isOperationAborted s.aborted error = true ∨ s.memory.pendingToolSessions = []) :
    Rested (s.caught o run [] error) := by
  have hnone : Open s run.runId ids (([] : List ToolMessage).map ToolMessage.toolCallId ++ rest) := h
  exact hnone.caught hs

theorem Open.resumeStopped (h : Open s session.runId ids rest) {error : LoopError}
    (hs : ToolBatch.isOperationAborted s.aborted error = true ∨ s.memory.pendingToolSessions = []) :
    Rested (s.resumeCaught o session [] error) := by
  have hnone : Open s session.runId ids (([] : List ToolMessage).map ToolMessage.toolCallId ++ rest) := h
  exact hnone.resumeCaught hs

theorem Between.caught (h : Between s run.runId run.iteration ids) (error : LoopError) :
    Rested (s.caught o run [] error) :=
  h.open.stopped (Or.inr h.sessions)

theorem Between.resumeCaught (h : Between s session.runId iteration ids) (error : LoopError) :
    Rested (s.resumeCaught o session [] error) :=
  h.open.resumeStopped (Or.inr h.sessions)

/-- An abort before the first request -/
theorem Between.interrupted (h : Between s runId iteration []) (hnone : s.memory.activeCheckpoint = none) :
    Rested (s.interrupted o runId) := by
  obtain ⟨u, hu, hclosed⟩ := h.opened.interruptTurn o.estimateMessage "用户中断了当前任务".toList
  rw [LoopState.interrupted]
  split_ifs with hopen
  · refine withThread_done hu ?_
    exact .closed [] [] rfl hclosed h.sessions hnone fun _ _ _ => pairs_all List.nodup_nil
  · exact absurd h.opened.isOpen hopen

theorem Between.close (h : Between s runId iteration ids) (status : ResultStatus) (summary : Option Text)
    (onThrown : LoopState → LoopState) : Rested (s.close o runId status summary onThrown) :=
  (h.open.close h.sessions status summary onThrown).1

theorem Between.head (run : LoopRun) (h : Between s run.runId run.iteration ids) : Sound (s.head o run) := by
  rw [LoopState.head]
  split_ifs
  · exact (h.caught _).sound
  · have hopened := h.opened.setCurrentIteration run.iteration
    exact ⟨ids, hopened, h.distinct, h.nonempty, h.named, h.counted, h.sessions, h.checkpoint⟩

theorem Between.observed (h : Between s run.runId run.iteration ids) (toolCalls : List LlmToolCall)
    (messages : List ToolMessage) : Sound (s.observed o run toolCalls messages) := by
  rw [LoopState.observed]
  split_ifs
  · exact (h.close _ _ _).sound
  · exact Between.head { run with detector := _, iteration := run.iteration + 1 }
      ⟨h.opened, h.distinct, h.nonempty, h.named, Nat.succ_pos _, h.sessions, h.checkpoint⟩

theorem mapDelete_one (h : s.memory.pendingToolSessions = [(session.runId, session)]) :
    mapDelete session.runId s.memory.pendingToolSessions = [] := by
  rw [h]
  simp [mapDelete]

/-- The batch has come to a call that waits for an approval. -/
theorem Suspended.suspended (h : Suspended s session ids)
    (hs : s.memory.pendingToolSessions = [(session.runId, session)]) : Rested (s.suspended session) :=
  .pending session ids rfl (h.same rfl h.checkpoint) hs (by rintro _ _ ⟨⟩)

theorem Suspended.resumeCaught (h : Suspended s session ids) (hs : s.memory.pendingToolSessions = [])
    (error : LoopError) :
    Rested (s.resumeCaught o session [] error) :=
  (h.open (by rw [hs]; rfl)).resumeStopped (Or.inr hs)

end Ends

section Batches

variable {s : LoopState} {o : LoopOptions} {runId : String} {iteration : Nat} {ids rest : List String} {run : LoopRun}
  {session : PendingToolSession} {messages : List ToolMessage} {calls : List LlmToolCall} {gateway : ToolGateway}
  {client : Bool} {progress : Progress} {input : ToolBatchInput}

theorem InBatch.begun (gateway : ToolGateway) (input : ToolBatchInput)
    (hopened : Opened s.thread (ids ++ input.calls.map LlmToolCall.id) ids)
    (hdistinct : (ids ++ input.calls.map LlmToolCall.id).Nodup) (hf : Fits input ids)
    (hsessions : s.memory.pendingToolSessions = [])
    (hcheckpoint : s.memory.activeCheckpoint = none ∧ ids = [] ∨
      ∃ c, s.memory.activeCheckpoint = some c ∧ c.runId = input.runId ∧ c.completedCallIds = ids) :
    InBatch { s with memory := (executeToolBatch gateway s.aborted s.memory input).1 } input.runId input.iteration ids
      input.calls (executeToolBatch gateway s.aborted s.memory input).2 := by
  obtain ⟨hrecords, hmade⟩ := executeToolBatch_recorded gateway s.aborted hf
    (eraseDups_of_nodup hdistinct.of_append_left) hcheckpoint
  rw [hsessions] at hrecords
  exact ⟨hopened, hdistinct, input, s.memory.trace, rfl, rfl, rfl, hf, executeToolBatch_holds, hrecords, hmade⟩

theorem Modest.fits (h : Modest ids input.calls) (hn : ∀ id ∈ ids, id ≠ "") (hrun : input.runId ≠ "")
    (hiteration : 0 < input.iteration) : Fits input ids :=
  ⟨hrun, hiteration, h.accepts, h.length, hn, h.total⟩

theorem InBatch.next (h : InBatch s runId iteration ids calls progress) (step : BatchStep) :
    InBatch { s with
        aborted := (BatchState.next ⟨s.aborted, s.memory, progress⟩ step).aborted
        memory := (BatchState.next ⟨s.aborted, s.memory, progress⟩ step).memory }
      runId iteration ids calls (BatchState.next ⟨s.aborted, s.memory, progress⟩ step).progress := by
  obtain ⟨hopened, hdistinct, input, base, hrun, hiteration, hcalls, hf, hkeeps⟩ := h
  exact ⟨hopened, hdistinct, input, base, hrun, hiteration, hcalls, hf, hkeeps.next hf step⟩

theorem InBatch.abort (h : InBatch s runId iteration ids calls progress) :
    InBatch { s with aborted := true } runId iteration ids calls progress := by
  obtain ⟨hopened, hdistinct, input, base, hrun, hiteration, hcalls, hf, hholds, hrecords, hmade⟩ := h
  exact ⟨hopened, hdistinct, input, base, hrun, hiteration, hcalls, hf, hholds, hrecords, hmade⟩

theorem InBatch.proceed {b : ToolBatch} (h : InBatch s runId iteration ids calls (.waits b)) (gateway : ToolGateway) :
    InBatch { s with memory := (b.proceed gateway s.aborted s.memory).1 } runId iteration ids calls
      (b.proceed gateway s.aborted s.memory).2 := h.next ⟨gateway, .proceed⟩

theorem InBatch.settled {b : ToolBatch} (h : InBatch s runId iteration ids calls (.waits b)) (gateway : ToolGateway)
    (i : Nat) (answer : Answer) :
    InBatch { s with memory := (b.settled s.aborted i answer s.memory).1 } runId iteration ids calls
      (b.settled s.aborted i answer s.memory).2 := h.next ⟨gateway, .settled i answer⟩

theorem InBatch.completed (h : InBatch s runId iteration ids calls (.ends (.completed messages))) (o : LoopOptions)
    (number : Nat) : ∃ u ids', appendToolMessages o.estimateMessage number s.thread messages = .ok u ∧
      Between { s with thread := u } runId iteration ids' := by
  obtain ⟨hopened, hdistinct, input, base, rfl, rfl, rfl, hf, ⟨hanswered, -⟩, ⟨hsessions, remaining, hactive⟩, -⟩ := h
  have hids : messages.map ToolMessage.toolCallId = input.calls.map LlmToolCall.id := Answered.ids hanswered
  obtain ⟨u, hu, hopened⟩ := hopened.appendToolMessages o.estimateMessage number messages
  rw [hids] at hopened hactive
  exact ⟨u, _, hu, hopened, hdistinct, nonempty_append hf.nonempty hf.calls, hf.runId, hf.iteration, hsessions,
    Or.inr ⟨_, hactive, rfl, eraseDups_of_nodup hdistinct⟩⟩

theorem InBatch.approval {next : PendingToolSession}
    (h : InBatch s runId iteration ids calls (.ends (.approval next messages))) (o : LoopOptions) (number : Nat) :
    next.runId = runId ∧ s.memory.pendingToolSessions = [(next.runId, next)] ∧
      ∃ u ids', appendToolMessages o.estimateMessage number s.thread messages = .ok u ∧
        Suspended { s with thread := u } next ids' := by
  obtain ⟨hopened, hdistinct, input, base, rfl, rfl, rfl, hf, ⟨⟨done, hcalls, hanswered⟩, -⟩,
    ⟨hnext, hsessions, risk, reason, hactive⟩, -⟩ := h
  have hids : messages.map ToolMessage.toolCallId = done.map LlmToolCall.id := Answered.ids hanswered
  have hrun : next.runId = input.runId := by rw [hnext]
  have hiteration : next.iteration = input.iteration := by rw [hnext]
  have hcompleted : next.completedCallIds = (ids ++ messages.map ToolMessage.toolCallId).eraseDups := by rw [hnext]
  have hsplit : ids ++ input.calls.map LlmToolCall.id =
      (ids ++ done.map LlmToolCall.id) ++ (next.call :: next.remainingCalls).map LlmToolCall.id := by
    rw [hcalls, List.map_append, List.append_assoc]
  have hlength := congrArg List.length hcalls
  rw [List.length_append] at hlength
  have hin : ∀ call ∈ done ++ next.call :: next.remainingCalls, acceptsCall call = true := hcalls ▸ hf.calls
  obtain ⟨u, hu, hopened⟩ := hopened.appendToolMessages o.estimateMessage number messages
  rw [hids, hsplit] at hopened
  rw [hsplit] at hdistinct
  have hnonempty := nonempty_append hf.nonempty fun call hcall => hin call (List.mem_append_left _ hcall)
  refine ⟨hrun, hsessions, u, _, hu, hopened, ⟨?_, ?_, ?_, hdistinct⟩, hnonempty, ?_, ?_, ?_, ?_⟩
  · exact fun call hcall => hin call (List.mem_append_right _ hcall)
  · have := hf.length
    omega
  · have := hf.total
    rw [List.length_append, List.length_map]
    omega
  · exact hrun ▸ hf.runId
  · exact hiteration ▸ hf.iteration
  · rw [hcompleted, hids]
    exact eraseDups_of_nodup hdistinct.of_append_left
  · exact ⟨_, hactive, rfl⟩

theorem InBatch.aborted (h : InBatch s runId iteration ids calls (.ends (.aborted messages))) :
    s.memory.pendingToolSessions = [] ∧ ∃ rest, Open s runId ids (messages.map ToolMessage.toolCallId ++ rest) := by
  obtain ⟨hopened, hdistinct, input, base, rfl, rfl, rfl, hf, ⟨⟨done, left, hcalls, hanswered⟩, -⟩,
    ⟨hsessions, c, hactive, hrun⟩, -⟩ := h
  have hids : messages.map ToolMessage.toolCallId = done.map LlmToolCall.id := Answered.ids hanswered
  rw [hcalls, List.map_append, ← hids] at hopened hdistinct
  refine ⟨hsessions, _, hopened, hdistinct, ?_, fun c' hc => ?_⟩
  · rw [show s.memory.pendingToolSessions = [] from hsessions]
    rfl
  · cases hc.symm.trans hactive
    exact hrun

theorem InBatch.thrown {error : LoopError} (h : InBatch s runId iteration ids calls (.ends (.thrown error))) :
    s.memory.pendingToolSessions = [] ∧ Open s runId ids (calls.map LlmToolCall.id) := by
  obtain ⟨hopened, hdistinct, input, base, rfl, rfl, rfl, hf, -, ⟨-, hsessions, c, hactive, hrun⟩, -⟩ := h
  refine ⟨hsessions, hopened, hdistinct, ?_, fun c' hc => ?_⟩
  · rw [show s.memory.pendingToolSessions = [] from hsessions]
    rfl
  · cases hc.symm.trans hactive
    exact hrun

end Batches

end Kross.ToolLoop

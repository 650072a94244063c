import Kross.Runtime.BatchOrder

namespace Kross.ToolLoop

open Kross.Context (LlmToolCall)
open Kross.Mutation

section Moves

/-- What a batch adds to the trace: handlers that the policy allows, and ends of handlers. -/
def Record.OfBatch : Record → Prop
  | .toolCallStarted _ _ approved inspection => approved = false ∧ inspection.action = .allow
  | .toolCallSettled _ _ => True
  | _ => False

/-- What one event does to a batch: it waits for something else, it takes messages and moves its
checkpoint, it is suspended, or it ends. -/
inductive Moved (aborted : Bool) (m : Memory) (b : ToolBatch) : Memory → Progress → Prop
  | still : Moved aborted m b m (.waits b)
  | waits (records : List Record) (queue : List LlmToolCall) (point : BatchPoint)
      (hrecords : ∀ r ∈ records, r.OfBatch) (hp : ∀ session, b.point ≠ .pausing session)
      (hpoint : ∀ session, point ≠ .pausing session) :
      Moved aborted m b (m.record records) (.waits { b with queue, point })
  | pushed (records : List Record) (messages : List ToolMessage) (catching : Bool)
      (hrecords : ∀ r ∈ records, r.OfBatch) (hp : ∀ session, b.point ≠ .pausing session)
      (ha : Answered messages b.inFlight) :
      Moved aborted m b (ToolBatch.checkpointing aborted catching (m.record records) (b.push messages)).1
        (ToolBatch.checkpointing aborted catching (m.record records) (b.push messages)).2
  | paused (call : LlmToolCall) (error : ToolPermissionError) (m' : Memory) (created : Except LoopError Unit)
      (hp : ∀ session, b.point ≠ .pausing session) (hin : b.inFlight = [call])
      (hc : m.createPendingToolApproval (b.pendingSession call) error = (m', created)) :
      Moved aborted m b m' (match created with
        | .ok _ => .waits { b with point := .pausing (b.pendingSession call) }
        | .error error => .ends (.thrown error))
  | caught (records : List Record) (error : LoopError) (hrecords : ∀ r ∈ records, r.OfBatch)
      (hp : ∀ session, b.point ≠ .pausing session) (he : error ≠ .checkpoint) :
      Moved aborted m b (m.record records) (ToolBatch.caught aborted b error)
  | completed (hp : b.point = .noting) (hq : b.queue = []) : Moved aborted m b m (.ends (.completed b.toolMessages))
  | stopped (hp : b.point = .noting) : Moved aborted m b m (.ends (.aborted b.toolMessages))
  | thrown (error : LoopError) (hp : b.point = .noting) (he : error ≠ .checkpoint) :
      Moved aborted m b m (.ends (.thrown error))
  | approval (session : PendingToolSession) (hp : b.point = .pausing session) :
      Moved aborted m b m (.ends (.approval session b.toolMessages))

variable {gateway : ToolGateway} {aborted approved : Bool} {m : Memory} {b : ToolBatch} {calls : List LlmToolCall}
  {call : LlmToolCall} {runId : String} {slot : Slot} {slots : List Slot} {answer : Answer} {i : Nat}

theorem record_nil (m : Memory) : m.record [] = m := by
  rw [Memory.record, List.append_nil]

theorem ofBatch_started : ∀ r ∈ ToolBatch.startedRecords gateway aborted false runId calls, r.OfBatch := by
  obtain ⟨inspection, hallowed, hrecords⟩ := startedRecords_eq gateway aborted runId calls
  rw [hrecords]
  intro r hr
  obtain ⟨call, hcall, rfl⟩ := List.mem_map.mp hr
  exact ⟨rfl, hallowed call hcall⟩

theorem ofBatch_settled : ∀ r ∈ ToolBatch.settledRecords runId slot, r.OfBatch := by
  rw [ToolBatch.settledRecords]
  split_ifs
  · rintro r (_ | ⟨_, ⟨⟩⟩)
    trivial
  · rintro r ⟨⟩

theorem call_error {error : LoopError} (h : gateway.call aborted approved call = .error error) : error ≠ .checkpoint := by
  rintro rfl
  cases aborted with
  | true => cases h
  | false =>
      rw [ToolGateway.call, if_neg Bool.false_ne_true] at h
      cases hi : gateway call with
      | error error => simp [hi] at h
      | ok inspection =>
          rw [hi] at h
          cases ha : inspection.action with
          | allow => simp [ha] at h
          | deny => simp [ha] at h
          | ask => cases approved <;> simp [ha] at h

/-- A call is refused by the gateway, never for its checkpoint. -/
def Slot.sound (slot : Slot) : Prop := slot.refusal ≠ some .checkpoint

theorem made_sound : (ToolBatch.made gateway aborted approved call).sound := by
  rw [ToolBatch.made, Slot.sound]
  cases h : gateway.call aborted approved call with
  | ok inspection => simp
  | error error => simpa using call_error h

theorem outcome_error (hs : slot.sound) {error : LoopError} (h : slot.outcome answer = .error error) :
    error ≠ .checkpoint := by
  rintro rfl
  cases hr : slot.refusal with
  | some error =>
      simp only [Slot.outcome, hr, Except.error.injEq] at h
      exact hs (h ▸ hr)
  | none => cases answer <;> simp [Slot.outcome, hr] at h

/-- The calls of a batch are made by the gateway. -/
structure Made (b : ToolBatch) : Prop where
  calling : ∀ slot, b.point = .calling slot → slot.sound
  reading : ∀ slots, b.point = .reading slots → ∀ slot ∈ slots, slot.sound

def MadeIn : Progress → Prop
  | .waits b => Made b
  | .ends _ => True

theorem Made.of_point (hcalling : ∀ slot, b.point ≠ .calling slot) (hreading : ∀ slots, b.point ≠ .reading slots) : Made b :=
  ⟨fun slot h => absurd h (hcalling slot), fun slots h => absurd h (hreading slots)⟩

theorem gatherPeers_error {tools : List ToolMetadata} {n : Nat} {queue : List LlmToolCall} {error : LoopError}
    (h : gatherPeers gateway tools n queue = .error error) : error ≠ .checkpoint := by
  induction n generalizing queue with
  | zero => cases h
  | succ n ih =>
      cases queue with
      | nil => cases h
      | cons candidate queue =>
          rw [gatherPeers] at h
          split_ifs at h
          cases hi : gateway candidate with
          | error error =>
              rw [hi] at h
              cases h
              simp
          | ok inspection =>
              simp only [hi] at h
              split_ifs at h
              cases hrest : gatherPeers gateway tools n queue with
              | ok found => simp [hrest, Except.map] at h
              | error error =>
                  simp only [hrest, Except.map, Except.error.injEq] at h
                  subst h
                  exact ih hrest

theorem loop_error {error : LoopError} (h : b.loop gateway aborted = .ends (.thrown error)) : error ≠ .checkpoint := by
  rw [ToolBatch.loop] at h
  cases hq : b.queue with
  | nil => simp [hq] at h
  | cons call queue =>
      simp only [hq] at h
      split_ifs at h with haborted hread
      · simp at h
      · cases hg : gatherPeers gateway b.tools (DEFAULT_MAX_PARALLEL_READ_TOOLS - 1) queue with
        | error error =>
            simp only [hg, Progress.ends.injEq, ToolBatchOutcome.thrown.injEq] at h
            exact h ▸ gatherPeers_error hg
        | ok found =>
            simp only [hg] at h
            cases hi : gateway call with
            | error error =>
                simp only [hi, Progress.ends.injEq, ToolBatchOutcome.thrown.injEq] at h
                exact h ▸ by simp
            | ok inspection =>
                simp only [hi] at h
                split_ifs at h

theorem loop_moved (gateway : ToolGateway) (aborted : Bool) (m : Memory) {b : ToolBatch} (hp : b.point = .noting) : Moved aborted m b m (b.loop gateway aborted) ∧
    MadeIn (b.loop gateway aborted) := by
  rcases loop_cases gateway aborted b with
    ⟨hq, hl⟩ | hl | ⟨error, hl⟩ | ⟨b', hl, calls, point, -, -, hb, hpoint⟩
  · rw [hl]
    exact ⟨.completed hp hq, trivial⟩
  · rw [hl]
    exact ⟨.stopped hp, trivial⟩
  · have he := loop_error hl
    rw [hl]
    exact ⟨.thrown error hp he, trivial⟩
  · rw [hl, hb]
    have hnot : ∀ session, b.point ≠ .pausing session := by
      rw [hp]
      rintro _ ⟨⟩
    have hmoved (hpoint : ∀ session, point ≠ .pausing session) :
        Moved aborted m b (m.record []) (.waits { b with queue := b'.queue, point }) :=
      .waits [] b'.queue point (by rintro _ ⟨⟩) hnot hpoint
    rw [record_nil] at hmoved
    rcases hpoint with ⟨rfl, -⟩ | ⟨call, -, rfl⟩
    · exact ⟨hmoved (by rintro _ ⟨⟩), .of_point (by rintro _ ⟨⟩) (by rintro _ ⟨⟩)⟩
    · exact ⟨hmoved (by rintro _ ⟨⟩), .of_point (by rintro _ ⟨⟩) (by rintro _ ⟨⟩)⟩

theorem proceed_moved (gateway : ToolGateway) (aborted : Bool) (m : Memory) (hmade : Made b) :
    Moved aborted m b (b.proceed gateway aborted m).1 (b.proceed gateway aborted m).2 ∧
      MadeIn (b.proceed gateway aborted m).2 := by
  cases hp : b.point with
  | observing calls =>
      simp only [ToolBatch.proceed, hp]
      refine ⟨.waits _ _ _ ofBatch_started (by rw [hp]; rintro _ ⟨⟩) (by rintro _ ⟨⟩), by rintro _ ⟨⟩, ?_⟩
      rintro _ ⟨⟩ slot hslot
      obtain ⟨call, -, rfl⟩ := List.mem_map.mp hslot
      exact made_sound
  | announcing call =>
      simp only [ToolBatch.proceed, hp]
      refine ⟨.waits _ _ _ ofBatch_started (by rw [hp]; rintro _ ⟨⟩) (by rintro _ ⟨⟩), ?_, by rintro _ ⟨⟩⟩
      rintro _ ⟨⟩
      exact made_sound
  | noting =>
      simp only [ToolBatch.proceed, hp]
      exact loop_moved gateway aborted m hp
  | pausing session =>
      simp only [ToolBatch.proceed, hp]
      exact ⟨.approval session hp, trivial⟩
  | reading slots =>
      simp only [ToolBatch.proceed, hp]
      exact ⟨.still, hmade⟩
  | calling slot =>
      simp only [ToolBatch.proceed, hp]
      exact ⟨.still, hmade⟩

theorem checkpointing_made {catching : Bool} {messages : List ToolMessage} :
    MadeIn (ToolBatch.checkpointing aborted catching m (b.push messages)).2 := by
  rw [ToolBatch.checkpointing]
  cases m.patchCheckpoint (b.push messages).checkpointed with
  | ok m => exact .of_point (by rintro _ ⟨⟩) (by rintro _ ⟨⟩)
  | error error =>
      cases catching with
      | true =>
          simp only [if_true, ToolBatch.caught]
          split_ifs <;> trivial
      | false => trivial

theorem caught_made {error : LoopError} : MadeIn (ToolBatch.caught aborted b error) := by
  rw [ToolBatch.caught]
  split_ifs <;> trivial

theorem settled_moved (aborted : Bool) (i : Nat) (answer : Answer) (m : Memory) (hmade : Made b) :
    Moved aborted m b (b.settled aborted i answer m).1 (b.settled aborted i answer m).2 ∧
      MadeIn (b.settled aborted i answer m).2 := by
  cases hp : b.point with
  | reading slots =>
      have hnot : ∀ session, b.point ≠ .pausing session := by
        rw [hp]
        rintro _ ⟨⟩
      simp only [ToolBatch.settled, hp]
      cases hslot : slots[i]? with
      | none => exact ⟨.still, hmade⟩
      | some slot =>
          have hsound := hmade.reading slots hp slot (List.mem_of_getElem? hslot)
          dsimp only
          split_ifs with hcontent
          · exact ⟨.still, hmade⟩
          cases ho : slot.outcome answer with
          | error error => exact ⟨.caught _ error ofBatch_settled hnot (outcome_error hsound ho), caught_made⟩
          | ok content =>
              dsimp only
              cases hr : ToolBatch.results (slots.set i { slot with content := some content }) with
              | none =>
                  refine ⟨.waits _ _ _ ofBatch_settled hnot (by rintro _ ⟨⟩), by rintro _ ⟨⟩, ?_⟩
                  rintro _ ⟨⟩ other hother
                  rcases List.mem_or_eq_of_mem_set hother with hother | rfl
                  · exact hmade.reading slots hp other hother
                  · exact hsound
              | some messages =>
                  have hcalls : (slots.set i { slot with content := some content }).map Slot.call = b.inFlight := by
                    obtain ⟨hlength, hget⟩ := List.getElem?_eq_some_iff.mp hslot
                    rw [(begun_reading hp).1, List.map_set]
                    conv_rhs => rw [← List.set_getElem_self (show i < (slots.map Slot.call).length by simpa using hlength)]
                    simp [hget]
                  exact ⟨.pushed _ messages true ofBatch_settled hnot (hcalls ▸ (results_some hr).1), checkpointing_made⟩
  | calling slot =>
      have hnot : ∀ session, b.point ≠ .pausing session := by
        rw [hp]
        rintro _ ⟨⟩
      have hin := (begun_calling hp).1
      have hsound := hmade.calling slot hp
      simp only [ToolBatch.settled, hp]
      cases ho : slot.outcome answer with
      | ok content =>
          exact ⟨.pushed _ _ false ofBatch_settled hnot (hin ▸ answered_one _ _), checkpointing_made⟩
      | error error =>
          have he := outcome_error hsound ho
          cases error with
          | permission error =>
              dsimp only
              split_ifs with hdenied
              · exact ⟨.pushed _ _ false ofBatch_settled hnot (hin ▸ answered_one _ _), checkpointing_made⟩
              · have hrefused : slot.refusal ≠ none := by
                  intro hr
                  cases answer <;> simp [Slot.outcome, hr] at ho
                rw [record_refused m hrefused]
                rcases hc : m.createPendingToolApproval (b.pendingSession slot.call) error with ⟨m', created⟩
                have hmoved : Moved aborted m b m' _ := .paused slot.call error m' created hnot hin hc
                cases created with
                | ok _ => exact ⟨hmoved, .of_point (by rintro _ ⟨⟩) (by rintro _ ⟨⟩)⟩
                | error error => exact ⟨hmoved, trivial⟩
          | inspect error => exact ⟨.caught _ _ ofBatch_settled hnot he, caught_made⟩
          | aborted => exact ⟨.caught _ _ ofBatch_settled hnot he, caught_made⟩
          | checkpoint => exact absurd rfl he
          | thrown => exact ⟨.caught _ _ ofBatch_settled hnot he, caught_made⟩
  | observing calls => simpa only [ToolBatch.settled, hp] using ⟨.still, hmade⟩
  | announcing call => simpa only [ToolBatch.settled, hp] using ⟨.still, hmade⟩
  | noting => simpa only [ToolBatch.settled, hp] using ⟨.still, hmade⟩
  | pausing session => simpa only [ToolBatch.settled, hp] using ⟨.still, hmade⟩

end Moves

section Checkpoints

/-- The checkpoint while a batch runs -/
def ToolBatchInput.running (input : ToolBatchInput) (completedCallIds : List String)
    (remainingCalls : List LlmToolCall) : RunCheckpoint where
  runId := input.runId
  mode := input.mode
  status := .running
  iteration := input.iteration
  verificationFollowupCount := input.verificationFollowupCount
  completedCallIds
  pendingCall := none
  remainingCalls
  pendingApproval := none

/-- The checkpoint of a run that waits for an approval -/
def PendingToolSession.awaiting (session : PendingToolSession) (risk : ToolRisk) (reason : Option String) :
    RunCheckpoint where
  runId := session.runId
  mode := session.mode
  status := .awaitingApproval
  iteration := session.iteration
  verificationFollowupCount := session.verificationFollowupCount
  completedCallIds := session.completedCallIds
  pendingCall := some session.call
  remainingCalls := session.remainingCalls
  pendingApproval := some ⟨session.runId, session.call.id, session.call.name, risk, reason⟩

/-- A batch whose checkpoints are within the bounds of their schema. `ids` are the calls that the run
has completed before. -/
structure Fits (input : ToolBatchInput) (ids : List String) : Prop where
  runId : input.runId ≠ ""
  iteration : 0 < input.iteration
  calls : ∀ call ∈ input.calls, acceptsCall call = true
  length : input.calls.length ≤ 200
  nonempty : ∀ id ∈ ids, id ≠ ""
  total : ids.length + input.calls.length ≤ 1000

/-- `sessions` are those from before the batch. -/
structure Recorded (input : ToolBatchInput) (ids : List String) (sessions : List (String × PendingToolSession))
    (m : Memory) (b : ToolBatch) : Prop where
  runId : b.runId = input.runId
  mode : b.mode = input.mode
  tools : b.tools = input.tools
  iteration : b.iteration = input.iteration
  followups : b.verificationFollowupCount = input.verificationFollowupCount
  completed : b.completedCallIds = ids ++ b.toolMessages.map ToolMessage.toolCallId
  running : (∀ session, b.point ≠ .pausing session) → m.pendingToolSessions = sessions ∧
    ∃ remaining, m.activeCheckpoint = some (input.running b.completedCallIds.eraseDups remaining)
  pausing : ∀ session, b.point = .pausing session → session = b.pendingSession session.call ∧
    m.pendingToolSessions = mapSet session.runId session sessions ∧
      ∃ risk reason, m.activeCheckpoint = some (session.awaiting risk reason)

def Finishes (input : ToolBatchInput) (ids : List String) (sessions : List (String × PendingToolSession)) (m : Memory) :
    ToolBatchOutcome → Prop
  | .completed messages => m.pendingToolSessions = sessions ∧ ∃ remaining,
      m.activeCheckpoint = some (input.running (ids ++ messages.map ToolMessage.toolCallId).eraseDups remaining)
  | .approval session messages => session =
      { runId := input.runId, mode := input.mode, call := session.call, remainingCalls := session.remainingCalls
        tools := input.tools, iteration := input.iteration
        verificationFollowupCount := input.verificationFollowupCount
        completedCallIds := (ids ++ messages.map ToolMessage.toolCallId).eraseDups } ∧
      m.pendingToolSessions = mapSet session.runId session sessions ∧
        ∃ risk reason, m.activeCheckpoint = some (session.awaiting risk reason)
  | .aborted _ => m.pendingToolSessions = sessions ∧ ∃ c, m.activeCheckpoint = some c ∧ c.runId = input.runId
  | .thrown error => error ≠ .checkpoint ∧ m.pendingToolSessions = sessions ∧
      ∃ c, m.activeCheckpoint = some c ∧ c.runId = input.runId

def RecordsIn (input : ToolBatchInput) (ids : List String) (sessions : List (String × PendingToolSession)) (m : Memory) :
    Progress → Prop
  | .waits b => Recorded input ids sessions m b
  | .ends outcome => Finishes input ids sessions m outcome

variable {input : ToolBatchInput} {ids : List String} {sessions : List (String × PendingToolSession)} {m m' : Memory}
  {b : ToolBatch} {base : List Record} {done : List LlmToolCall} {gateway : ToolGateway} {aborted catching : Bool}
  {messages : List ToolMessage} {progress : Progress} {call : LlmToolCall}

theorem acceptsCall_iff : acceptsCall call = true ↔ call.id ≠ "" ∧ call.name ≠ "" := by
  rw [acceptsCall, Bool.and_eq_true, decide_eq_true_eq, decide_eq_true_eq]

theorem running_accepted {completed : List String} {remaining : List LlmToolCall} (hf : Fits input ids)
    (hids : ∀ id ∈ completed, id ≠ "") (hlength : completed.length ≤ 1000)
    (hremaining : remaining.Sublist input.calls) : (input.running completed remaining).accepted = true := by
  have hcalls : ∀ call ∈ remaining, acceptsCall call = true := fun call hcall => hf.calls call (hremaining.subset hcall)
  have hshort : remaining.length ≤ 200 := hremaining.length_le.trans hf.length
  simpa [RunCheckpoint.accepted, ToolBatchInput.running, hf.runId, hf.iteration, hlength, hshort] using ⟨hids, hcalls⟩

theorem awaiting_accepted {session : PendingToolSession} {risk : ToolRisk} {reason : Option String}
    (hrun : session.runId ≠ "") (hiteration : 0 < session.iteration) (hids : ∀ id ∈ session.completedCallIds, id ≠ "")
    (hlength : session.completedCallIds.length ≤ 1000)
    (hcalls : ∀ call ∈ session.call :: session.remainingCalls, acceptsCall call = true)
    (hshort : session.remainingCalls.length ≤ 200) : (session.awaiting risk reason).accepted = true := by
  have hcall := hcalls session.call List.mem_cons_self
  obtain ⟨hid, hname⟩ := acceptsCall_iff.mp hcall
  have hremaining : ∀ call ∈ session.remainingCalls, acceptsCall call = true :=
    fun call hmem => hcalls call (List.mem_cons_of_mem _ hmem)
  simpa [RunCheckpoint.accepted, PendingToolSession.awaiting, PendingToolApproval.accepted, hrun, hiteration, hlength,
    hshort, hcall, hid, hname] using ⟨hids, hremaining⟩

theorem length_eraseDups_le {α : Type} [BEq α] : ∀ xs : List α, xs.eraseDups.length ≤ xs.length
  | [] => Nat.le_refl _
  | x :: xs => by
      have hfilter : (xs.filter fun y => !y == x).length ≤ xs.length := List.length_filter_le _ _
      rw [List.eraseDups_cons, List.length_cons, List.length_cons]
      exact Nat.succ_le_succ ((length_eraseDups_le _).trans hfilter)
termination_by xs => xs.length

theorem nonempty_append {calls : List LlmToolCall} (hn : ∀ id ∈ ids, id ≠ "")
    (ha : ∀ call ∈ calls, acceptsCall call = true) : ∀ id ∈ ids ++ calls.map LlmToolCall.id, id ≠ "" := by
  intro id hid
  rcases List.mem_append.mp hid with hid | hid
  · exact hn id hid
  · obtain ⟨call, hcall, rfl⟩ := List.mem_map.mp hid
    exact (acceptsCall_iff.mp (ha call hcall)).1

/-- The ids of the completed calls, of this batch and before -/
theorem completed_bounds (hf : Fits input ids) {messages : List ToolMessage} (ha : Answered messages done)
    (hs : done.Sublist input.calls) :
    (∀ id ∈ (ids ++ messages.map ToolMessage.toolCallId).eraseDups, id ≠ "") ∧
      (ids ++ messages.map ToolMessage.toolCallId).eraseDups.length ≤ 1000 := by
  rw [ha.ids]
  constructor
  · intro id hid
    exact nonempty_append hf.nonempty (fun call hcall => hf.calls call (hs.subset hcall)) id (List.mem_eraseDups.mp hid)
  · refine (length_eraseDups_le _).trans ?_
    rw [List.length_append, List.length_map]
    exact (Nat.add_le_add_left hs.length_le _).trans hf.total

theorem Waits.done_sublist (h : Waits input base m b done) : (done ++ b.inFlight).Sublist input.calls := by
  rw [h.calls]
  exact List.sublist_append_left _ _

theorem Waits.queue_sublist (h : Waits input base m b done) : b.queue.Sublist input.calls := by
  rw [h.calls]
  exact List.sublist_append_right _ _

theorem Recorded.pushed (h : Recorded input ids sessions m b) (hf : Fits input ids) (hw : Waits input base m b done)
    (hp : ∀ session, b.point ≠ .pausing session) (ha : Answered messages b.inFlight)
    (hm : m'.pendingToolSessions = m.pendingToolSessions ∧ m'.activeCheckpoint = m.activeCheckpoint) :
    RecordsIn input ids sessions (ToolBatch.checkpointing aborted catching m' (b.push messages)).1
      (ToolBatch.checkpointing aborted catching m' (b.push messages)).2 := by
  obtain ⟨hsessions, remaining, hcheckpoint⟩ := h.running hp
  have hcompleted : (b.push messages).completedCallIds =
      ids ++ (b.push messages).toolMessages.map ToolMessage.toolCallId := by
    rw [ToolBatch.push, h.completed, List.map_append, List.append_assoc]
  obtain ⟨hids, hlength⟩ := completed_bounds hf (hw.answered.append ha) hw.done_sublist
  have hcp : (b.push messages).completedCallIds = ids ++ (b.toolMessages ++ messages).map ToolMessage.toolCallId := hcompleted
  have haccepted := running_accepted hf hids hlength hw.queue_sublist
  have hpatch : m'.patchCheckpoint (b.push messages).checkpointed = .ok { m' with
      activeCheckpoint := some (input.running (b.push messages).completedCallIds.eraseDups b.queue) } := by
    rw [← hcp] at haccepted
    rw [Memory.patchCheckpoint, hm.2, hcheckpoint]
    exact if_pos haccepted
  rw [ToolBatch.checkpointing, hpatch]
  refine ⟨h.runId, h.mode, h.tools, h.iteration, h.followups, hcompleted, fun _ => ?_, by rintro _ ⟨⟩⟩
  exact ⟨hm.1.trans hsessions, b.queue, rfl⟩

theorem Recorded.caught (h : Recorded input ids sessions m b) (hp : ∀ session, b.point ≠ .pausing session)
    (hm : m'.pendingToolSessions = m.pendingToolSessions ∧ m'.activeCheckpoint = m.activeCheckpoint) {error : LoopError}
    (he : error ≠ .checkpoint) : RecordsIn input ids sessions m' (ToolBatch.caught aborted b error) := by
  obtain ⟨hsessions, remaining, hcheckpoint⟩ := h.running hp
  have hkept : m'.pendingToolSessions = sessions ∧ ∃ c, m'.activeCheckpoint = some c ∧ c.runId = input.runId :=
    ⟨hm.1.trans hsessions, _, hm.2.trans hcheckpoint, rfl⟩
  rw [ToolBatch.caught]
  split_ifs
  · exact hkept
  · exact ⟨he, hkept⟩

theorem Recorded.paused (h : Recorded input ids sessions m b) (hf : Fits input ids) (hw : Waits input base m b done)
    (hp : ∀ session, b.point ≠ .pausing session) (hin : b.inFlight = [call]) (error : ToolPermissionError) :
    ∃ m', m.createPendingToolApproval (b.pendingSession call) error = (m', .ok ()) ∧
      Recorded input ids sessions m' { b with point := .pausing (b.pendingSession call) } := by
  obtain ⟨hsessions, -⟩ := h.running hp
  have hcalls := hw.calls
  rw [hin] at hcalls
  have hdone : done.Sublist input.calls := (List.sublist_append_left _ _).trans hw.done_sublist
  have hpending : (call :: b.queue).Sublist input.calls := by
    rw [hcalls, List.append_assoc]
    exact List.sublist_append_right _ _
  obtain ⟨hids, hlength⟩ := completed_bounds hf hw.answered hdone
  rw [← h.completed] at hids hlength
  have haccepted : ((b.pendingSession call).awaiting error.risk error.reason).accepted = true :=
    awaiting_accepted (by rw [ToolBatch.pendingSession, h.runId]; exact hf.runId)
      (by rw [ToolBatch.pendingSession, h.iteration]; exact hf.iteration) hids hlength
      (fun call hcall => hf.calls call (hpending.subset hcall)) (hw.queue_sublist.length_le.trans hf.length)
  refine ⟨{ m with
    pendingToolSessions := mapSet b.runId (b.pendingSession call) m.pendingToolSessions
    activeCheckpoint := some ((b.pendingSession call).awaiting error.risk error.reason) }, ?_, ?_⟩
  · simp only [Memory.createPendingToolApproval, Memory.updateCheckpoint]
    rw [if_pos]
    · rfl
    · exact haccepted
  · refine ⟨h.runId, h.mode, h.tools, h.iteration, h.followups, h.completed, fun hnot => absurd rfl (hnot _), ?_⟩
    rintro _ ⟨⟩
    exact ⟨rfl, by rw [hsessions]; rfl, error.risk, error.reason, rfl⟩

theorem Recorded.moved (h : Recorded input ids sessions m b) (hf : Fits input ids) (hw : Waits input base m b done)
    (hm : Moved aborted m b m' progress) : RecordsIn input ids sessions m' progress := by
  cases hm with
  | still => exact h
  | waits records queue point hrecords hp hpoint =>
      exact ⟨h.runId, h.mode, h.tools, h.iteration, h.followups, h.completed, fun _ => h.running hp,
        fun session hsession => absurd hsession (hpoint session)⟩
  | pushed records messages catching hrecords hp ha => exact h.pushed hf hw hp ha ⟨rfl, rfl⟩
  | paused call error m' created hp hin hc =>
      obtain ⟨m', hcreated, hrecorded⟩ := h.paused hf hw hp hin error
      cases hc.symm.trans hcreated
      exact hrecorded
  | caught records error hrecords hp he => exact @Recorded.caught _ _ _ _ (m.record records) _ _ h hp ⟨rfl, rfl⟩ _ he
  | completed hp hq =>
      obtain ⟨hsessions, remaining, hcheckpoint⟩ := h.running (by rw [hp]; rintro _ ⟨⟩)
      exact ⟨hsessions, remaining, h.completed ▸ hcheckpoint⟩
  | stopped hp =>
      obtain ⟨hsessions, remaining, hcheckpoint⟩ := h.running (by rw [hp]; rintro _ ⟨⟩)
      exact ⟨hsessions, _, hcheckpoint, rfl⟩
  | thrown error hp he =>
      obtain ⟨hsessions, remaining, hcheckpoint⟩ := h.running (by rw [hp]; rintro _ ⟨⟩)
      exact ⟨he, hsessions, _, hcheckpoint, rfl⟩
  | approval session hp =>
      obtain ⟨hsession, hsessions, hcheckpoint⟩ := h.pausing session hp
      refine ⟨?_, hsessions, hcheckpoint⟩
      conv_lhs => rw [hsession]
      rw [ToolBatch.pendingSession, h.runId, h.mode, h.tools, h.iteration, h.followups, h.completed]
      rw [hsession]
      rfl

/-- A batch begins with the completed calls of its run. -/
theorem executeToolBatch_recorded (gateway : ToolGateway) (aborted : Bool) (hf : Fits input ids) (hids : ids.eraseDups = ids)
    (hcheckpoint : m.activeCheckpoint = none ∧ ids = [] ∨
      ∃ c, m.activeCheckpoint = some c ∧ c.runId = input.runId ∧ c.completedCallIds = ids) :
    RecordsIn input ids m.pendingToolSessions (executeToolBatch gateway aborted m input).1
      (executeToolBatch gateway aborted m input).2 ∧
        MadeIn (executeToolBatch gateway aborted m input).2 := by
  have haccepted := running_accepted hf hf.nonempty ((Nat.le_add_right _ _).trans hf.total) (List.Sublist.refl _)
  have hupdate : m.updateCheckpoint (input.running ids input.calls) =
      .ok { m with activeCheckpoint := some (input.running ids input.calls) } := if_pos haccepted
  have hstart : executeToolBatch gateway aborted m input =
      ({ m with activeCheckpoint := some (input.running ids input.calls) }, ToolBatch.loop gateway aborted
        { runId := input.runId, mode := input.mode, tools := input.tools, iteration := input.iteration
          verificationFollowupCount := input.verificationFollowupCount, toolMessages := [], queue := input.calls
          completedCallIds := ids, point := .noting }) := by
    have hcompleted : m.completedCallIds input.runId = ids := by
      rw [Memory.completedCallIds]
      rcases hcheckpoint with ⟨hnone, rfl⟩ | ⟨c, hc, hrun, hcompleted⟩
      · rw [hnone]
      · rw [hc]
        exact (if_pos hrun).trans hcompleted
    rw [executeToolBatch, hcompleted]
    split
    · rename_i error herror
      exact absurd (herror.symm.trans hupdate) (by simp)
    · rename_i m' hm'
      cases hm'.symm.trans hupdate
      rfl
  have hrecorded : Recorded input ids m.pendingToolSessions
      { m with activeCheckpoint := some (input.running ids input.calls) }
      { runId := input.runId, mode := input.mode, tools := input.tools, iteration := input.iteration
        verificationFollowupCount := input.verificationFollowupCount, toolMessages := [], queue := input.calls
        completedCallIds := ids, point := .noting } := by
    refine ⟨rfl, rfl, rfl, rfl, rfl, (List.append_nil _).symm, fun _ => ⟨rfl, input.calls, ?_⟩, by rintro _ ⟨⟩⟩
    rw [hids]
  rw [hstart]
  obtain ⟨hmoved, hmade⟩ := loop_moved gateway aborted { m with activeCheckpoint := some (input.running ids input.calls) }
    (b := { runId := input.runId, mode := input.mode, tools := input.tools, iteration := input.iteration
            verificationFollowupCount := input.verificationFollowupCount, toolMessages := [], queue := input.calls
            completedCallIds := ids, point := .noting }) rfl
  exact ⟨hrecorded.moved hf (waits_begun input ids rfl) hmoved, hmade⟩

end Checkpoints

section Runs

variable {input : ToolBatchInput} {ids : List String} {sessions : List (String × PendingToolSession)} {base : List Record}
  {m : Memory} {gateway : ToolGateway} {aborted : Bool}

structure Keeps (input : ToolBatchInput) (ids : List String) (sessions : List (String × PendingToolSession))
    (base : List Record) (s : BatchState) : Prop where
  holds : Holds input base s.memory s.progress
  records : RecordsIn input ids sessions s.memory s.progress
  made : MadeIn s.progress

theorem Keeps.next (hf : Fits input ids) {s : BatchState} (h : Keeps input ids sessions base s) (step : BatchStep) :
    Keeps input ids sessions base (s.next step) := by
  have hholds := holds_next h.holds step
  obtain ⟨aborted, m, progress⟩ := s
  obtain ⟨gateway, event⟩ := step
  obtain ⟨holds, records, made⟩ := h
  cases progress with
  | ends outcome => exact ⟨hholds, records, made⟩
  | waits b =>
      obtain ⟨done, hwaits⟩ := holds
      cases event with
      | abort => exact ⟨hholds, records, made⟩
      | proceed =>
          obtain ⟨hmoved, hmade⟩ := proceed_moved gateway aborted m made
          exact ⟨hholds, records.moved hf hwaits hmoved, hmade⟩
      | settled i answer =>
          obtain ⟨hmoved, hmade⟩ := settled_moved aborted i answer m made
          exact ⟨hholds, records.moved hf hwaits hmoved, hmade⟩

theorem fits_readsAndWrite : Fits readsAndWrite [] := by
  refine ⟨by decide, by decide, ?_, by decide, by rintro _ ⟨⟩, by decide⟩
  simp [readsAndWrite, acceptsCall]

end Runs

end Kross.ToolLoop

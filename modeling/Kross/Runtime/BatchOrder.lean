import Kross.Runtime.ToolBatch

namespace Kross.ToolLoop

open Kross.Context (LlmToolCall Text)
open Kross.Run
open Kross.Tools.CallAttempts (ToolApprovalAction)

section Parts

variable {gateway : ToolGateway} {tools : List ToolMetadata} {queue peers rest calls : List LlmToolCall} {n : Nat}
  {aborted catching : Bool} {m : Memory} {b : ToolBatch} {slots : List Slot} {messages : List ToolMessage}

/-- The messages are the answers to the calls. -/
def Answered (messages : List ToolMessage) (calls : List LlmToolCall) : Prop :=
  messages.map (fun message => (message.toolCallId, message.name)) = calls.map (fun call => (call.id, call.name))

theorem answered_one (call : LlmToolCall) (content : Text) : Answered [LlmToolCall.answer call content] [call] := rfl

theorem Answered.append {more : List ToolMessage} {others : List LlmToolCall} (h : Answered messages calls)
    (ho : Answered more others) : Answered (messages ++ more) (calls ++ others) := by
  rw [Answered, List.map_append, List.map_append, h, ho]

theorem Answered.ids (h : Answered messages calls) :
    messages.map ToolMessage.toolCallId = calls.map LlmToolCall.id := by
  have hids := congrArg (List.map Prod.fst) h
  rwa [List.map_map, List.map_map] at hids

/-- An independent read that the policy allows. -/
def Reads (gateway : ToolGateway) (tools : List ToolMetadata) (call : LlmToolCall) : Prop :=
  isIndependentRead (metadata tools call) = true ∧
    ∃ inspection, gateway call = .ok inspection ∧ inspection.allowsRead = true

theorem gatherPeers_ok (h : gatherPeers gateway tools n queue = .ok (peers, rest)) :
    peers ++ rest = queue ∧ peers.length ≤ n ∧ ∀ call ∈ peers, Reads gateway tools call := by
  induction n generalizing queue peers rest with
  | zero =>
      cases h
      exact ⟨rfl, le_rfl, by simp⟩
  | succ n ih =>
      cases queue with
      | nil =>
          cases h
          exact ⟨rfl, Nat.zero_le _, by simp⟩
      | cons candidate queue =>
          rw [gatherPeers] at h
          split_ifs at h with hread
          · cases hi : gateway candidate with
            | error error => simp [hi] at h
            | ok inspection =>
                simp only [hi] at h
                split_ifs at h with hallows
                · cases hg : gatherPeers gateway tools n queue with
                  | error error => simp [hg, Except.map] at h
                  | ok found =>
                      obtain ⟨more, left⟩ := found
                      simp only [hg, Except.map, Except.ok.injEq, Prod.mk.injEq] at h
                      obtain ⟨rfl, rfl⟩ := h
                      obtain ⟨hsplit, hlength, hreads⟩ := ih hg
                      refine ⟨by rw [List.cons_append, hsplit], Nat.succ_le_succ hlength, ?_⟩
                      rintro call (_ | ⟨_, hcall⟩)
                      · exact ⟨hread, inspection, hi, hallows⟩
                      · exact hreads call hcall
                · cases h
                  exact ⟨rfl, Nat.zero_le _, by simp⟩
          · cases h
            exact ⟨rfl, Nat.zero_le _, by simp⟩

/-- The calls that are taken from the queue at once. -/
def Grouped (tools : List ToolMetadata) (calls : List LlmToolCall) : Prop :=
  calls.length ≤ 1 ∨ calls.length ≤ DEFAULT_MAX_PARALLEL_READ_TOOLS ∧
    ∀ call ∈ calls, isIndependentRead (metadata tools call) = true

/-- What the loop does when it is not over: it takes the first calls of the queue. -/
def Taken (gateway : ToolGateway) (b b' : ToolBatch) : Prop :=
  ∃ calls point, Grouped b.tools calls ∧ calls ++ b'.queue = b.queue ∧ b' = { b with queue := b'.queue, point } ∧
    (point = .observing calls ∧ (∀ call ∈ calls, Reads gateway b.tools call) ∨ ∃ call, calls = [call] ∧ point = .announcing call)

theorem loop_cases (gateway : ToolGateway) (aborted : Bool) (b : ToolBatch) :
    b.queue = [] ∧ b.loop gateway aborted = .ends (.completed b.toolMessages) ∨
    b.loop gateway aborted = .ends (.aborted b.toolMessages) ∨
    (∃ error, b.loop gateway aborted = .ends (.thrown error)) ∨
    ∃ b', b.loop gateway aborted = .waits b' ∧ Taken gateway b b' := by
  rw [ToolBatch.loop]
  cases hq : b.queue with
  | nil => exact Or.inl ⟨rfl, rfl⟩
  | cons call queue =>
      right
      dsimp only
      split_ifs with haborted hread
      · exact Or.inl rfl
      · cases hg : gatherPeers gateway b.tools (DEFAULT_MAX_PARALLEL_READ_TOOLS - 1) queue with
        | error error => exact Or.inr (Or.inl ⟨error, rfl⟩)
        | ok found =>
            obtain ⟨peers, rest⟩ := found
            obtain ⟨hsplit, hlength, hreads⟩ := gatherPeers_ok hg
            dsimp only
            cases hi : gateway call with
            | error error => exact Or.inr (Or.inl ⟨_, rfl⟩)
            | ok inspection =>
                right
                right
                dsimp only
                split_ifs with hallows
                · have hall : ∀ other ∈ call :: peers, Reads gateway b.tools other := by
                    rintro other (_ | ⟨_, hother⟩)
                    · exact ⟨hread, inspection, hi, hallows⟩
                    · exact hreads other hother
                  exact ⟨_, rfl, call :: peers, .observing (call :: peers),
                    Or.inr ⟨Nat.succ_le_succ hlength, fun other hother => (hall other hother).1⟩,
                    by rw [List.cons_append, hsplit, hq], rfl, Or.inl ⟨rfl, hall⟩⟩
                · exact ⟨_, rfl, [call], _, Or.inl le_rfl, by rw [hsplit, hq]; rfl, rfl, Or.inr ⟨call, rfl, rfl⟩⟩
      · exact Or.inr (Or.inr ⟨_, rfl, [call], _, Or.inl le_rfl, hq.symm, rfl, Or.inr ⟨call, rfl, rfl⟩⟩)

end Parts

section Schedule

/-- Handlers start when none of the batch runs: one, or some independent reads that are allowed.
`started` are all the calls whose handlers have started, `running` those that have not settled. -/
inductive Scheduled (runId : String) (tools : List ToolMetadata) :
    List Record → List LlmToolCall → List LlmToolCall → Prop
  | idle : Scheduled runId tools [] [] []
  | start {records : List Record} {started calls : List LlmToolCall} (inspection : LlmToolCall → ToolCallInspection)
      (h : Scheduled runId tools records started []) (hgrouped : Grouped tools calls)
      (hallowed : ∀ call ∈ calls, (inspection call).action = .allow) :
      Scheduled runId tools (records ++ calls.map fun call => .toolCallStarted runId call false (inspection call))
        (started ++ calls) calls
  | settle {records : List Record} {started before after : List LlmToolCall} {call : LlmToolCall}
      (h : Scheduled runId tools records started (before ++ call :: after)) :
      Scheduled runId tools (records ++ [.toolCallSettled runId call]) started (before ++ after)

variable {gateway : ToolGateway} {tools : List ToolMetadata} {calls started : List LlmToolCall} {runId : String}
  {aborted : Bool} {records : List Record} {slot : Slot} {call : LlmToolCall}

def Slot.runs (slot : Slot) : Bool := slot.refusal.isNone && slot.content.isNone

def ToolGateway.takes (gateway : ToolGateway) (aborted : Bool) (call : LlmToolCall) : Bool :=
  (gateway.call aborted false call).toOption.isSome

/-- The handler of a call runs when the policy allows it, or asks and the call is approved. -/
theorem call_ok {approved : Bool} {inspection : ToolCallInspection}
    (h : gateway.call aborted approved call = .ok inspection) :
    gateway call = .ok inspection ∧ (inspection.action = .allow ∨ inspection.action = .ask ∧ approved = true) := by
  cases aborted with
  | true => cases h
  | false =>
      rw [ToolGateway.call, if_neg Bool.false_ne_true] at h
      cases hi : gateway call with
      | error error =>
          rw [hi] at h
          cases h
      | ok found =>
          rw [hi] at h
          cases ha : found.action with
          | deny => simp [ha] at h
          | ask =>
              cases approved with
              | false => simp [ha] at h
              | true =>
                  simp only [ha, if_true, Except.ok.injEq] at h
                  exact ⟨by rw [h], Or.inr ⟨h ▸ ha, rfl⟩⟩
          | allow =>
              simp only [ha, Except.ok.injEq] at h
              exact ⟨by rw [h], Or.inl (h ▸ ha)⟩

theorem made_runs : (ToolBatch.made gateway aborted false call).runs = gateway.takes aborted call := by
  rw [ToolBatch.made, ToolGateway.takes]
  cases gateway.call aborted false call <;> rfl

@[simp] theorem made_call : (ToolBatch.made gateway aborted false call).call = call := by
  rw [ToolBatch.made]
  cases gateway.call aborted false call <;> rfl

theorem made_content : (ToolBatch.made gateway aborted false call).content = none := by
  rw [ToolBatch.made]
  cases gateway.call aborted false call <;> rfl

theorem Grouped.sublist {some : List LlmToolCall} (h : Grouped tools calls) (hs : some.Sublist calls) :
    Grouped tools some :=
  h.imp hs.length_le.trans fun ⟨hlength, hreads⟩ =>
    ⟨hs.length_le.trans hlength, fun call hcall => hreads call (hs.subset hcall)⟩

theorem startedRecords_eq (gateway : ToolGateway) (aborted : Bool) (runId : String) (calls : List LlmToolCall) :
    ∃ inspection : LlmToolCall → ToolCallInspection,
    (∀ call ∈ calls.filter (gateway.takes aborted), (inspection call).action = .allow) ∧
      ToolBatch.startedRecords gateway aborted false runId calls =
        (calls.filter (gateway.takes aborted)).map fun call => .toolCallStarted runId call false (inspection call) := by
  refine ⟨fun call => (gateway.call aborted false call).toOption.getD ⟨.read, .allow, none⟩, fun call _ => ?_, ?_⟩
  · cases h : gateway.call aborted false call with
    | error error => simp [h, Except.toOption]
    | ok inspection => simpa [h, Except.toOption] using (call_ok h).2
  · induction calls with
    | nil => rfl
    | cons call calls ih =>
        rw [ToolBatch.startedRecords] at ih ⊢
        rw [List.filterMap_cons, List.filter_cons, ih]
        cases h : gateway.call aborted false call with
        | error error => simp [ToolGateway.takes, h, Except.toOption]
        | ok inspection => simp [ToolGateway.takes, h, Except.toOption]

theorem Scheduled.make (h : Scheduled runId tools records started []) (hg : Grouped tools calls) :
    Scheduled runId tools (records ++ ToolBatch.startedRecords gateway aborted false runId calls)
      (started ++ calls.filter (gateway.takes aborted))
      (((calls.map (ToolBatch.made gateway aborted false)).filter Slot.runs).map Slot.call) := by
  obtain ⟨inspection, hallowed, hrecords⟩ := startedRecords_eq gateway aborted runId calls
  have hruns : ((calls.map (ToolBatch.made gateway aborted false)).filter Slot.runs).map Slot.call =
      calls.filter (gateway.takes aborted) := by
    rw [List.filter_map, List.map_map]
    have hfilter : calls.filter (Slot.runs ∘ ToolBatch.made gateway aborted false) = calls.filter (gateway.takes aborted) :=
      List.filter_congr fun call _ => made_runs
    rw [hfilter]
    exact (List.map_congr_left fun call _ => made_call).trans (List.map_id _)
  rw [hruns, hrecords]
  exact .start inspection h (hg.sublist List.filter_sublist) hallowed

end Schedule

section Accounting

/-- The calls that are taken from the queue and not yet answered. -/
def ToolBatch.inFlight (b : ToolBatch) : List LlmToolCall :=
  match b.point with
  | .observing calls => calls
  | .reading slots => slots.map Slot.call
  | .announcing call => [call]
  | .calling slot => [slot.call]
  | .noting => []
  | .pausing session => [session.call]

/-- Those of them that the gateway has been asked for. -/
def ToolBatch.begun (b : ToolBatch) : List LlmToolCall :=
  match b.point with
  | .observing _ | .announcing _ | .noting => []
  | .reading slots => slots.map Slot.call
  | .calling slot => [slot.call]
  | .pausing session => [session.call]

def running (slots : List Slot) : List LlmToolCall := (slots.filter Slot.runs).map Slot.call

def ToolBatch.running (b : ToolBatch) : List LlmToolCall :=
  match b.point with
  | .reading slots => ToolLoop.running slots
  | .calling slot => ToolLoop.running [slot]
  | _ => []

/-- What the batch has added to the trace since `base`. -/
def Traced (input : ToolBatchInput) (base : List Record) (m : Memory) (started running : List LlmToolCall) : Prop :=
  ∃ records, m.trace = base ++ records ∧ Scheduled input.runId input.tools records started running

/-- `done` are the calls that the messages answer. -/
structure Waits (input : ToolBatchInput) (base : List Record) (m : Memory) (b : ToolBatch)
    (done : List LlmToolCall) : Prop where
  runId : b.runId = input.runId
  tools : b.tools = input.tools
  calls : input.calls = done ++ b.inFlight ++ b.queue
  answered : Answered b.toolMessages done
  grouped : ∀ calls, b.point = .observing calls → Grouped b.tools calls
  session : ∀ session, b.point = .pausing session → session = b.pendingSession session.call
  waiting : ∀ slot, b.point = .calling slot → slot.content = none
  traced : ∃ started, Traced input base m started b.running ∧ started.Sublist (done ++ b.begun)

/-- How the calls are shared out when the batch ends. -/
def Settles (calls : List LlmToolCall) : ToolBatchOutcome → Prop
  | .completed messages => Answered messages calls
  | .approval session messages =>
      ∃ done, calls = done ++ session.call :: session.remainingCalls ∧ Answered messages done
  | .aborted messages => ∃ done rest, calls = done ++ rest ∧ Answered messages done
  | .thrown _ => True

def Holds (input : ToolBatchInput) (base : List Record) (m : Memory) : Progress → Prop
  | .waits b => ∃ done, Waits input base m b done
  | .ends outcome => Settles input.calls outcome ∧
      ∃ started running, Traced input base m started running ∧ started.Sublist input.calls

variable {input : ToolBatchInput} {base : List Record} {m m' : Memory} {b b' : ToolBatch} {done : List LlmToolCall}
  {gateway : ToolGateway} {aborted catching : Bool} {slots : List Slot} {slot : Slot} {messages : List ToolMessage}
  {started before after : List LlmToolCall} {error : LoopError}

/-- What the trace shows of the handlers of the batch -/
def Shown (input : ToolBatchInput) (base : List Record) (m : Memory) (b : ToolBatch) (done : List LlmToolCall) : Prop :=
  ∃ started running, Traced input base m started running ∧ started.Sublist (done ++ b.begun)

theorem Waits.shown (h : Waits input base m b done) : Shown input base m b done := by
  obtain ⟨started, htraced, hsublist⟩ := h.traced
  exact ⟨started, b.running, htraced, hsublist⟩

theorem Waits.begun_sublist (h : Waits input base m b done) : (done ++ b.begun).Sublist input.calls := by
  rw [h.calls]
  refine ((List.Sublist.refl done).append ?_).trans (List.sublist_append_left _ _)
  rw [ToolBatch.begun, ToolBatch.inFlight]
  cases b.point <;> simp

theorem Waits.ends (h : Waits input base m b done) (hs : Shown input base m' b done) {outcome : ToolBatchOutcome}
    (ho : Settles input.calls outcome) : Holds input base m' (.ends outcome) := by
  obtain ⟨started, running, htraced, hsublist⟩ := hs
  exact ⟨ho, started, running, htraced, hsublist.trans h.begun_sublist⟩

theorem Waits.abandoned (h : Waits input base m b done) : Settles input.calls (.aborted b.toolMessages) :=
  ⟨done, _, by rw [h.calls, List.append_assoc], h.answered⟩

theorem Waits.caught (h : Waits input base m b done) (hs : Shown input base m' b done) (error : LoopError) :
    Holds input base m' (ToolBatch.caught aborted b error) := by
  rw [ToolBatch.caught]
  split_ifs
  · exact h.ends hs h.abandoned
  · exact h.ends hs trivial

theorem Waits.loop (h : Waits input base m b done) (hp : b.point = .noting) :
    Holds input base m (b.loop gateway aborted) := by
  have hcalls := h.calls
  obtain ⟨started, htraced, hsublist⟩ := h.traced
  simp only [ToolBatch.inFlight, ToolBatch.begun, ToolBatch.running, hp, List.append_nil] at hcalls htraced hsublist
  rcases loop_cases gateway aborted b with
    ⟨hq, hl⟩ | hl | ⟨error, hl⟩ | ⟨b', hl, calls, point, hgrouped, hsplit, hb, hpoint⟩
  · rw [hl]
    refine h.ends h.shown ?_
    rw [hq, List.append_nil] at hcalls
    rw [hcalls]
    exact h.answered
  · rw [hl]
    exact h.ends h.shown h.abandoned
  · rw [hl]
    exact h.ends h.shown trivial
  · rw [hl]
    refine ⟨done, ?_⟩
    rw [← hsplit] at hcalls
    rw [hb]
    rcases hpoint with ⟨rfl, -⟩ | ⟨call, rfl, rfl⟩
    · exact ⟨h.runId, h.tools, by rw [hcalls, ToolBatch.inFlight, List.append_assoc], h.answered, fun calls hc => by cases hc; exact hgrouped,
        by rintro _ ⟨⟩, by rintro _ ⟨⟩, started, htraced, by simpa [ToolBatch.begun] using hsublist⟩
    · exact ⟨h.runId, h.tools, by rw [hcalls, ToolBatch.inFlight, List.append_assoc], h.answered, by rintro _ ⟨⟩,
        by rintro _ ⟨⟩, by rintro _ ⟨⟩, started, htraced, by simpa [ToolBatch.begun] using hsublist⟩

theorem patchCheckpoint_ok {patch : RunCheckpoint → RunCheckpoint} (h : m.patchCheckpoint patch = .ok m') :
    ∃ checkpoint, m.activeCheckpoint = some checkpoint ∧ (patch checkpoint).accepted = true ∧
      m' = { m with activeCheckpoint := some (patch checkpoint) } := by
  rw [Memory.patchCheckpoint] at h
  cases hc : m.activeCheckpoint with
  | none => simp [hc] at h
  | some checkpoint =>
      simp only [hc, Memory.updateCheckpoint] at h
      split_ifs at h with haccepted
      cases h
      exact ⟨checkpoint, rfl, haccepted, rfl⟩

theorem Waits.checkpointing (h : Waits input base m b done) :
    Holds input base (ToolBatch.checkpointing aborted catching m b).1 (ToolBatch.checkpointing aborted catching m b).2 := by
  rw [ToolBatch.checkpointing]
  cases hm : m.patchCheckpoint b.checkpointed with
  | ok m' =>
      obtain ⟨checkpoint, -, -, rfl⟩ := patchCheckpoint_ok hm
      exact ⟨done, h.runId, h.tools, h.calls, h.answered, h.grouped, h.session, h.waiting, h.traced⟩
  | error error =>
      cases catching with
      | true => exact h.caught h.shown error
      | false => exact h.ends h.shown trivial

theorem Traced.settle (h : Traced input base m started (before ++ slot.call :: after)) (hr : slot.refusal = none) :
    Traced input base (m.record (ToolBatch.settledRecords input.runId slot)) started (before ++ after) := by
  obtain ⟨records, htrace, hscheduled⟩ := h
  refine ⟨records ++ [.toolCallSettled input.runId slot.call], ?_, hscheduled.settle⟩
  rw [Memory.record, htrace, ToolBatch.settledRecords, hr, List.append_assoc]
  rfl

theorem record_refused (m : Memory) {runId : String} (hr : slot.refusal ≠ none) :
    m.record (ToolBatch.settledRecords runId slot) = m := by
  have hsome : slot.refusal.isNone = false := by
    cases h : slot.refusal with
    | none => exact absurd h hr
    | some error => rfl
  rw [ToolBatch.settledRecords, hsome, Memory.record, if_neg Bool.false_ne_true, List.append_nil]

theorem results_some (h : ToolBatch.results slots = some messages) :
    Answered messages (slots.map Slot.call) ∧ running slots = [] := by
  rw [ToolBatch.results] at h
  induction slots generalizing messages with
  | nil =>
      cases h
      exact ⟨rfl, rfl⟩
  | cons slot slots ih =>
      rw [List.mapM_cons] at h
      cases hc : slot.content with
      | none => simp [hc] at h
      | some content =>
          cases hrest : slots.mapM (fun slot => slot.content.map (LlmToolCall.answer slot.call)) with
          | none => simp [hc, hrest] at h
          | some more =>
              simp only [hc, hrest, Option.map_some, Option.bind_eq_bind, Option.bind_some, Option.pure_def,
                Option.some.injEq] at h
              obtain ⟨hanswered, hrunning⟩ := ih hrest
              subst h
              refine ⟨?_, ?_⟩
              · rw [Answered, List.map_cons, hanswered, List.map_cons, List.map_cons]
                rfl
              · rw [running, List.filter_cons_of_neg (by simp [Slot.runs, hc])]
                exact hrunning

theorem runs_of {content : Text} {answer : Answer} (hc : slot.content = none)
    (ho : slot.outcome answer = .ok content) : slot.refusal = none ∧ slot.runs = true := by
  cases hr : slot.refusal with
  | some error => simp [Slot.outcome, hr] at ho
  | none => exact ⟨rfl, by simp [Slot.runs, hr, hc]⟩

theorem Waits.push (h : Waits input base m b done) {calls : List LlmToolCall} (hcalls : b.inFlight = calls)
    (ha : Answered messages calls)
    (ht : ∃ started, Traced input base m' started [] ∧ started.Sublist (done ++ calls)) :
    Waits input base m' (b.push messages) (done ++ calls) := by
  refine ⟨h.runId, h.tools, ?_, h.answered.append ha, by rintro _ ⟨⟩, by rintro _ ⟨⟩, by rintro _ ⟨⟩, ?_⟩
  · rw [h.calls, hcalls, ToolBatch.inFlight, ToolBatch.push, List.append_nil]
  · simpa [ToolBatch.begun, ToolBatch.running, ToolBatch.push] using ht

theorem createPending_trace (m : Memory) (session : PendingToolSession) (error : ToolPermissionError) :
    (m.createPendingToolApproval session error).1.trace = m.trace := by
  simp only [Memory.createPendingToolApproval, Memory.updateCheckpoint]
  split_ifs <;> rfl

theorem begun_reading (hp : b.point = .reading slots) :
    b.inFlight = slots.map Slot.call ∧ b.begun = slots.map Slot.call ∧ b.running = running slots := by
  rw [ToolBatch.inFlight, ToolBatch.begun, ToolBatch.running, hp]
  exact ⟨rfl, rfl, rfl⟩

theorem begun_calling (hp : b.point = .calling slot) :
    b.inFlight = [slot.call] ∧ b.begun = [slot.call] ∧ b.running = running [slot] := by
  rw [ToolBatch.inFlight, ToolBatch.begun, ToolBatch.running, hp]
  exact ⟨rfl, rfl, rfl⟩

theorem running_append (more : List Slot) : running (slots ++ more) = running slots ++ running more := by
  rw [running, List.filter_append, List.map_append]
  rfl

theorem running_cons (slots : List Slot) : running (slot :: slots) =
    (if slot.runs then [slot.call] else []) ++ running slots := by
  rw [running, List.filter_cons]
  split_ifs <;> rfl

/-- The trace after one handler of the batch has settled -/
theorem Waits.settle (h : Waits input base m b done) (hrunning : b.running = before ++ slot.call :: after)
    (hr : slot.refusal = none) : ∃ started, Traced input base (m.record (ToolBatch.settledRecords b.runId slot))
      started (before ++ after) ∧ started.Sublist (done ++ b.begun) := by
  obtain ⟨started, htraced, hsublist⟩ := h.traced
  rw [hrunning] at htraced
  rw [h.runId]
  exact ⟨started, htraced.settle hr, hsublist⟩

theorem Waits.withTrace (h : Waits input base m b done) {point : BatchPoint} {running begun : List LlmToolCall}
    (htraced : ∃ started, Traced input base m' started running ∧ started.Sublist (done ++ begun))
    (hin : { b with point }.inFlight = b.inFlight) (hbegun : { b with point }.begun = begun)
    (hrunning : { b with point }.running = running) (hobserving : ∀ calls, point ≠ .observing calls)
    (hpausing : ∀ session, point = .pausing session → session = b.pendingSession session.call)
    (hcalling : ∀ slot, point = .calling slot → slot.content = none) :
    Waits input base m' { b with point } done := by
  refine ⟨h.runId, h.tools, by rw [hin]; exact h.calls, h.answered, fun calls hc => absurd hc (hobserving calls),
    hpausing, hcalling, ?_⟩
  rw [hrunning, hbegun]
  exact htraced

theorem Waits.make (h : Waits input base m b done) (hbegun : b.begun = []) (hrunning : b.running = [])
    {calls : List LlmToolCall} (hg : Grouped b.tools calls) :
    ∃ started, Traced input base (m.record (ToolBatch.startedRecords gateway aborted false b.runId calls)) started
      (running (calls.map (ToolBatch.made gateway aborted false))) ∧ started.Sublist (done ++ calls) := by
  obtain ⟨started, ⟨records, htrace, hscheduled⟩, hsublist⟩ := h.traced
  rw [hrunning] at hscheduled
  rw [hbegun, List.append_nil] at hsublist
  refine ⟨started ++ calls.filter (gateway.takes aborted),
    ⟨records ++ ToolBatch.startedRecords gateway aborted false input.runId calls, ?_, ?_⟩, ?_⟩
  · rw [Memory.record, htrace, h.runId, List.append_assoc]
  · exact hscheduled.make (h.tools ▸ hg)
  · exact hsublist.append List.filter_sublist

theorem Waits.proceed (h : Waits input base m b done) :
    Holds input base (b.proceed gateway aborted m).1 (b.proceed gateway aborted m).2 := by
  cases hp : b.point with
  | observing calls =>
      simp only [ToolBatch.proceed, hp]
      refine ⟨done, h.withTrace (h.make ?_ ?_ (h.grouped calls hp)) ?_ ?_ rfl (by rintro _ ⟨⟩) (by rintro _ ⟨⟩)
        (by rintro _ ⟨⟩)⟩
      · simp [ToolBatch.begun, hp]
      · simp [ToolBatch.running, hp]
      · simp [ToolBatch.inFlight, hp, Function.comp_def]
      · simp [ToolBatch.begun, Function.comp_def]
  | announcing call =>
      simp only [ToolBatch.proceed, hp]
      refine ⟨done, h.withTrace (h.make ?_ ?_ (show Grouped b.tools [call] from Or.inl le_rfl)) ?_ ?_ rfl (by rintro _ ⟨⟩)
        (by rintro _ ⟨⟩) (fun slot hslot => ?_)⟩
      · simp [ToolBatch.begun, hp]
      · simp [ToolBatch.running, hp]
      · simp [ToolBatch.inFlight, hp]
      · simp [ToolBatch.begun]
      · cases hslot
        exact made_content
  | reading slots =>
      simp only [ToolBatch.proceed, hp]
      exact ⟨done, h⟩
  | calling slot =>
      simp only [ToolBatch.proceed, hp]
      exact ⟨done, h⟩
  | noting =>
      simp only [ToolBatch.proceed, hp]
      exact h.loop hp
  | pausing session =>
      simp only [ToolBatch.proceed, hp]
      refine h.ends h.shown ⟨done, ?_, h.answered⟩
      have hcalls := h.calls
      have hsession := h.session session hp
      rw [ToolBatch.inFlight, hp] at hcalls
      rw [hcalls, hsession, List.append_assoc]
      rfl

theorem running_set {i : Nat} (hslot : slots[i]? = some slot) (hruns : slot.runs = true) :
    ∃ before after, running slots = before ++ slot.call :: after ∧
      ∀ slot' : Slot, slot'.call = slot.call → slot'.runs = false →
        running (slots.set i slot') = before ++ after ∧ (slots.set i slot').map Slot.call = slots.map Slot.call := by
  obtain ⟨hlength, hget⟩ := List.getElem?_eq_some_iff.mp hslot
  have hsplit : slots = slots.take i ++ slot :: slots.drop (i + 1) := by
    rw [← hget, ← List.drop_eq_getElem_cons, List.take_append_drop]
  refine ⟨running (slots.take i), running (slots.drop (i + 1)), ?_, fun slot' hcall hsettled => ⟨?_, ?_⟩⟩
  · conv_lhs => rw [hsplit]
    rw [running_append, running_cons, if_pos hruns]
    rfl
  · rw [List.set_eq_take_append_cons_drop, if_pos hlength, running_append, running_cons, hsettled]
    rfl
  · conv_rhs => rw [hsplit]
    rw [List.set_eq_take_append_cons_drop, if_pos hlength, List.map_append, List.map_cons, hcall, List.map_append,
      List.map_cons]

theorem Waits.settled (h : Waits input base m b done) {i : Nat} {answer : Answer} :
    Holds input base (b.settled aborted i answer m).1 (b.settled aborted i answer m).2 := by
  cases hp : b.point with
  | reading slots =>
      obtain ⟨hin, hbegun, hrunning⟩ := begun_reading hp
      simp only [ToolBatch.settled, hp]
      cases hslot : slots[i]? with
      | none => exact ⟨done, h⟩
      | some slot =>
          dsimp only
          split_ifs with hcontent
          · exact ⟨done, h⟩
          have hnone : slot.content = none := by simpa using hcontent
          have hshown : Shown input base (m.record (ToolBatch.settledRecords b.runId slot)) b done := by
            cases hr : slot.refusal with
            | some error =>
                rw [record_refused m (by rw [hr]; simp)]
                exact h.shown
            | none =>
                obtain ⟨before, after, hsplit, -⟩ := running_set hslot (by simp [Slot.runs, hr, hnone])
                obtain ⟨started, htraced, hsublist⟩ := h.settle (hrunning.trans hsplit) hr
                exact ⟨started, before ++ after, htraced, hsublist⟩
          cases ho : slot.outcome answer with
          | error error => exact h.caught hshown error
          | ok content =>
              obtain ⟨hr, hruns⟩ := runs_of hnone ho
              obtain ⟨before, after, hsplit, hset⟩ := running_set hslot hruns
              obtain ⟨hleft, hcalls⟩ := hset { slot with content := some content } rfl (by simp [Slot.runs])
              have hwaits : Waits input base (m.record (ToolBatch.settledRecords b.runId slot))
                  { b with point := .reading (slots.set i { slot with content := some content }) } done := by
                refine h.withTrace (h.settle (hrunning.trans hsplit) hr) ?_ ?_ ?_ (by rintro _ ⟨⟩) (by rintro _ ⟨⟩)
                  (by rintro _ ⟨⟩)
                · rw [hin, ← hcalls]
                  rfl
                · rw [hbegun, ← hcalls]
                  rfl
                · exact hleft
              dsimp only
              cases hres : ToolBatch.results (slots.set i { slot with content := some content }) with
              | none => exact ⟨done, hwaits⟩
              | some messages =>
                  obtain ⟨hanswered, hidle⟩ := results_some hres
                  have htraced := hwaits.traced
                  rw [show ({ b with point := .reading (slots.set i { slot with content := some content }) } :
                    ToolBatch).running = [] from hidle] at htraced
                  exact (hwaits.push rfl hanswered htraced).checkpointing
  | calling slot =>
      obtain ⟨hin, hbegun, hrunning⟩ := begun_calling hp
      have hnone := h.waiting slot hp
      simp only [ToolBatch.settled, hp]
      cases hr : slot.refusal with
      | none =>
          have hsplit : b.running = [] ++ slot.call :: [] := by
            rw [hrunning, running_cons, if_pos (by simp [Slot.runs, hr, hnone])]
            rfl
          obtain ⟨started, htraced, hsublist⟩ := h.settle hsplit hr
          cases answer with
          | aborted =>
              simp only [Slot.outcome, hr]
              exact h.caught ⟨started, [], htraced, hsublist⟩ .aborted
          | content content =>
              simp only [Slot.outcome, hr]
              exact (h.push hin (answered_one slot.call content) ⟨started, htraced, hbegun ▸ hsublist⟩).checkpointing
      | some error =>
          rw [record_refused m (by rw [hr]; simp)]
          have hidle : b.running = [] := by
            rw [hrunning, running_cons, if_neg (by simp [Slot.runs, hr])]
            rfl
          have htraced := h.traced
          rw [hidle, hbegun] at htraced
          simp only [Slot.outcome, hr]
          cases error with
          | permission error =>
              dsimp only
              split_ifs with hdenied
              · exact (h.push hin (answered_one slot.call _) htraced).checkpointing
              · have hsame := createPending_trace m (b.pendingSession slot.call) error
                have hcreated : ∃ started, Traced input base (m.createPendingToolApproval (b.pendingSession slot.call) error).1
                    started [] ∧ started.Sublist (done ++ [slot.call]) := by
                  obtain ⟨started, ⟨records, htrace, hscheduled⟩, hsublist⟩ := htraced
                  exact ⟨started, ⟨records, hsame.trans htrace, hscheduled⟩, hsublist⟩
                cases hc : (m.createPendingToolApproval (b.pendingSession slot.call) error).2 with
                | ok _ =>
                    refine ⟨done, h.withTrace hcreated ?_ rfl rfl (by rintro _ ⟨⟩) ?_ (by rintro _ ⟨⟩)⟩
                    · rw [hin]
                      rfl
                    · rintro session ⟨⟩
                      rfl
                | error error =>
                    obtain ⟨started, htraced, hsublist⟩ := hcreated
                    exact h.ends ⟨started, [], htraced, hbegun ▸ hsublist⟩ trivial
          | inspect error => exact h.caught h.shown _
          | aborted => exact h.caught h.shown _
          | checkpoint => exact h.caught h.shown _
          | thrown => exact h.caught h.shown _
  | observing calls => simpa only [ToolBatch.settled, hp] using ⟨done, h⟩
  | announcing call => simpa only [ToolBatch.settled, hp] using ⟨done, h⟩
  | noting => simpa only [ToolBatch.settled, hp] using ⟨done, h⟩
  | pausing session => simpa only [ToolBatch.settled, hp] using ⟨done, h⟩

theorem waits_begun (input : ToolBatchInput) (completedCallIds : List String) (hm : m'.trace = m.trace) :
    Waits input m.trace m'
      { runId := input.runId, mode := input.mode, tools := input.tools, iteration := input.iteration
        verificationFollowupCount := input.verificationFollowupCount, toolMessages := [], queue := input.calls
        completedCallIds, point := .noting } [] :=
  ⟨rfl, rfl, rfl, rfl, by rintro _ ⟨⟩, by rintro _ ⟨⟩, by rintro _ ⟨⟩, [],
    ⟨[], hm.trans (List.append_nil _).symm, .idle⟩, List.nil_sublist _⟩

theorem executeToolBatch_holds :
    Holds input m.trace (executeToolBatch gateway aborted m input).1 (executeToolBatch gateway aborted m input).2 := by
  rw [executeToolBatch, Memory.updateCheckpoint]
  split_ifs
  · dsimp only
    refine Waits.loop (waits_begun input _ ?_) rfl
    rfl
  · exact ⟨trivial, [], [], ⟨[], (List.append_nil _).symm, .idle⟩, List.nil_sublist _⟩

end Accounting

section Machine

structure BatchState where
  aborted : Bool
  memory : Memory
  progress : Progress

inductive BatchEvent
  | abort
  | proceed
  | settled (i : Nat) (answer : Answer)

/-- The gateway is as it is when the event comes. -/
structure BatchStep where
  gateway : ToolGateway
  event : BatchEvent

def BatchState.next (s : BatchState) (step : BatchStep) : BatchState :=
  match s.progress, step.event with
  | .ends _, _ => s
  | .waits _, .abort => { s with aborted := true }
  | .waits b, .proceed =>
      let (memory, progress) := b.proceed step.gateway s.aborted s.memory
      { s with memory, progress }
  | .waits b, .settled i answer =>
      let (memory, progress) := b.settled s.aborted i answer s.memory
      { s with memory, progress }

def BatchState.start (gateway : ToolGateway) (aborted : Bool) (m : Memory) (input : ToolBatchInput) : BatchState :=
  let (memory, progress) := executeToolBatch gateway aborted m input
  { aborted, memory, progress }

variable {gateway : ToolGateway} {aborted : Bool} {m : Memory} {input : ToolBatchInput} {base : List Record}

theorem holds_next {s : BatchState} (h : Holds input base s.memory s.progress) (step : BatchStep) :
    Holds input base (s.next step).memory (s.next step).progress := by
  rw [BatchState.next]
  cases hp : s.progress with
  | ends outcome =>
      dsimp only
      exact hp ▸ h
  | waits b =>
      rw [hp] at h
      obtain ⟨done, h⟩ := h
      cases step.event with
      | abort => exact ⟨done, h⟩
      | proceed => exact h.proceed
      | settled i answer => exact h.settled

theorem holds_run (gateway : ToolGateway) (aborted : Bool) (m : Memory) (input : ToolBatchInput) (steps : List BatchStep) :
    Holds input m.trace (after BatchState.next (.start gateway aborted m input) steps).memory
      (after BatchState.next (.start gateway aborted m input) steps).progress :=
  keeps (I := fun s : BatchState => Holds input m.trace s.memory s.progress) (fun _ step h => holds_next h step)
    executeToolBatch_holds steps

/-- However the promises settle, an end of the batch shares out its calls in their order: to the
messages, to the call that waits for approval, and to those that remain. -/
theorem batch_accounts (steps : List BatchStep) {outcome : ToolBatchOutcome}
    (h : (after BatchState.next (.start gateway aborted m input) steps).progress = .ends outcome) :
    Settles input.calls outcome := by
  have hrun := holds_run gateway aborted m input steps
  rw [h] at hrun
  exact hrun.1

def readsAllowed (action : ToolApprovalAction) : ToolGateway := fun call =>
  if call.name = "Read" then .ok ⟨.read, .allow, none⟩ else .ok ⟨.write, action, none⟩

def readsAndWrite : ToolBatchInput where
  runId := "run-1"
  mode := .auto
  calls := [⟨"a", "Read", none⟩, ⟨"b", "Read", none⟩, ⟨"c", "Write", none⟩, ⟨"d", "Read", none⟩]
  tools := [⟨"Read", .read, none⟩, ⟨"Write", .write, none⟩]
  iteration := 1
  verificationFollowupCount := 0

def crossedReads : List BatchStep :=
  [.proceed, .settled 1 (.content ['2']), .settled 0 (.content ['1']), .proceed, .proceed, .settled 0 .aborted,
    .proceed].map (BatchStep.mk (readsAllowed .ask))

theorem batch_accounts_crossed : ∃ session,
    Settles readsAndWrite.calls (.approval session [⟨"a", "Read", ['1']⟩, ⟨"b", "Read", ['2']⟩]) := by
  have h : ∃ session,
      (after BatchState.next (.start (readsAllowed .ask) false ⟨[], none, []⟩ readsAndWrite) crossedReads).progress =
        .ends (.approval session [⟨"a", "Read", ['1']⟩, ⟨"b", "Read", ['2']⟩]) := ⟨_, rfl⟩
  obtain ⟨session, hend⟩ := h
  exact ⟨session, batch_accounts crossedReads hend⟩

end Machine

end Kross.ToolLoop

import Kross.Context.ConversationThread
import Kross.Mutation.Map
import Kross.Run
import Kross.Tools.CallAttempts

namespace Kross.ToolLoop

open Kross.Context (LlmToolCall Text)
open Kross.Mutation Kross.Tools.CallAttempts

inductive AgentMode
  | auto
  | plan
  | conductor
  deriving DecidableEq

inductive ToolRisk
  | read
  | write
  | execute
  | network
  deriving DecidableEq

def ToolRisk.name : ToolRisk → String
  | .read => "read"
  | .write => "write"
  | .execute => "execute"
  | .network => "network"

structure ToolMetadata where
  name : String
  risk : ToolRisk
  category : Option String

structure ToolCallInspection where
  risk : ToolRisk
  action : ToolApprovalAction
  reason : Option String
  deriving DecidableEq

inductive InspectError
  | toolNotFound (name : String)
  | validation (name : String)
  | thrown (message : String)
  deriving DecidableEq

/-- What the registered tools and the approval policy make of a call at one moment. -/
abbrev ToolGateway := LlmToolCall → Except InspectError ToolCallInspection

structure ToolPermissionError where
  toolName : String
  risk : ToolRisk
  reason : Option String
  denied : Bool
  deriving DecidableEq

def ToolPermissionError.message (error : ToolPermissionError) : String :=
  match error.reason with
  | some "" | none => "Tool requires approval: " ++ error.toolName ++ " (" ++ error.risk.name ++ ")"
  | some reason => "Tool blocked: " ++ error.toolName ++ " (" ++ error.risk.name ++ ") - " ++ reason

/-- What ends a batch, or a run, other than an answer. `checkpoint` is a checkpoint that its schema
refuses. -/
inductive LoopError
  | inspect (error : InspectError)
  | permission (error : ToolPermissionError)
  | aborted
  | checkpoint
  | thrown
  deriving DecidableEq

/-- The promise of `call` as it is made: the handler runs, unless it is rejected at once. -/
def ToolGateway.call (gateway : ToolGateway) (aborted approved : Bool) (call : LlmToolCall) :
    Except LoopError ToolCallInspection :=
  if aborted then .error .aborted
  else match gateway call with
    | .error error => .error (.inspect error)
    | .ok inspection => match inspection.action with
      | .deny => .error (.permission ⟨call.name, inspection.risk, inspection.reason, true⟩)
      | .ask =>
          if approved then .ok inspection
          else .error (.permission ⟨call.name, inspection.risk, inspection.reason, false⟩)
      | .allow => .ok inspection

section Checkpoint

structure PendingToolApproval where
  runId : String
  toolCallId : String
  toolName : String
  risk : ToolRisk
  reason : Option String

inductive CheckpointStatus
  | running
  | awaitingApproval
  deriving DecidableEq

structure RunCheckpoint where
  runId : String
  mode : AgentMode
  status : CheckpointStatus
  iteration : Nat
  verificationFollowupCount : Nat
  completedCallIds : List String
  pendingCall : Option LlmToolCall
  remainingCalls : List LlmToolCall
  pendingApproval : Option PendingToolApproval

/-- `toolCallSchema` -/
def acceptsCall (call : LlmToolCall) : Bool := call.id ≠ "" && call.name ≠ ""

/-- `pendingToolApprovalSchema` -/
def PendingToolApproval.accepted (approval : PendingToolApproval) : Bool :=
  approval.runId ≠ "" && approval.toolCallId ≠ "" && approval.toolName ≠ ""

/-- `runCheckpointSchema` -/
def RunCheckpoint.accepted (c : RunCheckpoint) : Bool :=
  c.runId ≠ "" && 0 < c.iteration && c.completedCallIds.all (· ≠ "") && c.completedCallIds.length ≤ 1000 &&
    c.pendingCall.all acceptsCall && c.remainingCalls.all acceptsCall && c.remainingCalls.length ≤ 200 &&
    c.pendingApproval.all PendingToolApproval.accepted &&
    (c.status = .running || c.pendingCall.isSome && c.pendingApproval.isSome)

structure PendingToolSession where
  runId : String
  mode : AgentMode
  call : LlmToolCall
  remainingCalls : List LlmToolCall
  tools : List ToolMetadata
  iteration : Nat
  verificationFollowupCount : Nat
  completedCallIds : List String

inductive ResultStatus
  | completed
  | failed
  | cancelled
  deriving DecidableEq

/-- What the trace tells of a run. -/
inductive Record
  | runStarted (runId : String)
  | llmCompleted (runId : String) (iteration : Nat)
  | toolCallsReceived (runId : String) (iteration : Nat) (calls : List LlmToolCall)
  | toolCallStarted (runId : String) (call : LlmToolCall) (approved : Bool) (inspection : ToolCallInspection)
  | toolCallSettled (runId : String) (call : LlmToolCall)
  | toolCallApproved (runId : String) (call : LlmToolCall)
  | toolCallRejected (runId : String) (call : LlmToolCall)
  | toolCallCancelled (runId : String) (call : LlmToolCall)
  | awaitingApproval (runId : String) (call : LlmToolCall)
  | verificationFollowup (runId : String)
  | runCompleted (runId : String) (status : ResultStatus)

/-- The fields of a `RuntimeToolLoop`, and the trace. -/
structure Memory where
  pendingToolSessions : List (String × PendingToolSession)
  activeCheckpoint : Option RunCheckpoint
  trace : List Record

def Memory.record (m : Memory) (records : List Record) : Memory := { m with trace := m.trace ++ records }

def Memory.updateCheckpoint (m : Memory) (checkpoint : RunCheckpoint) : Except LoopError Memory :=
  if checkpoint.accepted then .ok { m with activeCheckpoint := some checkpoint } else .error .checkpoint

/-- `updateCheckpoint({ ...this.activeCheckpoint, … })`: without a checkpoint the schema refuses. -/
def Memory.patchCheckpoint (m : Memory) (patch : RunCheckpoint → RunCheckpoint) : Except LoopError Memory :=
  match m.activeCheckpoint with
  | none => .error .checkpoint
  | some checkpoint => m.updateCheckpoint (patch checkpoint)

def Memory.clearRunCheckpoint (m : Memory) (runId : String) : Memory :=
  if m.activeCheckpoint.any (fun c => c.runId = runId) then { m with activeCheckpoint := none } else m

end Checkpoint

section Scheduling

def isIndependentRead (tool : Option ToolMetadata) : Bool :=
  tool.any fun tool => tool.risk = .read && !tool.category.any (fun c => "mcp:".toList.isPrefixOf c.toList) &&
    tool.category ≠ some "process"

def metadata (tools : List ToolMetadata) (call : LlmToolCall) : Option ToolMetadata :=
  tools.find? (fun tool => tool.name = call.name)

def DEFAULT_MAX_PARALLEL_READ_TOOLS : Nat := 4

def ToolCallInspection.allowsRead (inspection : ToolCallInspection) : Bool :=
  inspection.risk = .read && inspection.action = .allow

/-- The calls that run beside the first one, at most `n` of them, and the rest of the queue. -/
def gatherPeers (gateway : ToolGateway) (tools : List ToolMetadata) :
    Nat → List LlmToolCall → Except LoopError (List LlmToolCall × List LlmToolCall)
  | 0, queue => .ok ([], queue)
  | _, [] => .ok ([], [])
  | n + 1, candidate :: queue =>
      if isIndependentRead (metadata tools candidate) then match gateway candidate with
        | .error error => .error (.inspect error)
        | .ok inspection =>
            if inspection.allowsRead then
              (gatherPeers gateway tools n queue).map fun (peers, rest) => (candidate :: peers, rest)
            else .ok ([], candidate :: queue)
      else .ok ([], candidate :: queue)

end Scheduling

section Batch

structure ToolMessage where
  toolCallId : String
  name : String
  content : Text
  deriving DecidableEq

def LlmToolCall.answer (call : LlmToolCall) (content : Text) : ToolMessage := ⟨call.id, call.name, content⟩

/-- A promise of `call`: what it is rejected with, or the content of its result. -/
structure Slot where
  call : LlmToolCall
  refusal : Option LoopError
  content : Option Text

/-- Where `executeToolBatch` waits: `observing` and `announcing` for `observeToolCall`, `noting` for
`completeVerificationObservation`, `pausing` for `attachChangedFiles`. -/
inductive BatchPoint
  | observing (calls : List LlmToolCall)
  | reading (slots : List Slot)
  | announcing (call : LlmToolCall)
  | calling (slot : Slot)
  | noting
  | pausing (session : PendingToolSession)

structure ToolBatch where
  runId : String
  mode : AgentMode
  tools : List ToolMetadata
  iteration : Nat
  verificationFollowupCount : Nat
  toolMessages : List ToolMessage
  queue : List LlmToolCall
  completedCallIds : List String
  point : BatchPoint

/-- `aborted` is a `ToolBatchAbortedError` with the messages. -/
inductive ToolBatchOutcome
  | completed (toolMessages : List ToolMessage)
  | approval (session : PendingToolSession) (completedToolMessages : List ToolMessage)
  | aborted (completedToolMessages : List ToolMessage)
  | thrown (error : LoopError)

inductive Progress
  | waits (batch : ToolBatch)
  | ends (outcome : ToolBatchOutcome)

/-- How the promise of a call settles whose handler runs; an abort is known by the name of the error. -/
inductive Answer
  | content (content : Text)
  | aborted

def Slot.outcome (slot : Slot) (answer : Answer) : Except LoopError Text :=
  match slot.refusal, answer with
  | some error, _ => .error error
  | none, .aborted => .error .aborted
  | none, .content content => .ok content

namespace ToolBatch

/-- The head of the `while` loop, up to its first await -/
def loop (gateway : ToolGateway) (aborted : Bool) (b : ToolBatch) : Progress :=
  match b.queue with
  | [] => .ends (.completed b.toolMessages)
  | call :: queue =>
      if aborted then .ends (.aborted b.toolMessages)
      else if isIndependentRead (metadata b.tools call) then
        match gatherPeers gateway b.tools (DEFAULT_MAX_PARALLEL_READ_TOOLS - 1) queue with
        | .error error => .ends (.thrown error)
        | .ok (peers, rest) => match gateway call with
          | .error error => .ends (.thrown (.inspect error))
          | .ok inspection =>
              if inspection.allowsRead then .waits { b with queue := rest, point := .observing (call :: peers) }
              else .waits { b with queue := peers ++ rest, point := .announcing call }
      else .waits { b with queue, point := .announcing call }

/-- The call is made; its handler starts unless it is rejected. -/
def made (gateway : ToolGateway) (aborted approved : Bool) (call : LlmToolCall) : Slot :=
  match gateway.call aborted approved call with
  | .ok _ => ⟨call, none, none⟩
  | .error error => ⟨call, some error, none⟩

def startedRecords (gateway : ToolGateway) (aborted approved : Bool) (runId : String) (calls : List LlmToolCall) :
    List Record :=
  calls.filterMap fun call => match gateway.call aborted approved call with
    | .ok inspection => some (.toolCallStarted runId call approved inspection)
    | .error _ => none

/-- A call that is rejected at once has had no handler. -/
def settledRecords (runId : String) (slot : Slot) : List Record :=
  if slot.refusal.isNone then [.toolCallSettled runId slot.call] else []

def checkpointed (b : ToolBatch) (checkpoint : RunCheckpoint) : RunCheckpoint :=
  { checkpoint with completedCallIds := b.completedCallIds.eraseDups, remainingCalls := b.queue }

def push (b : ToolBatch) (messages : List ToolMessage) : ToolBatch :=
  { b with
    toolMessages := b.toolMessages ++ messages
    completedCallIds := b.completedCallIds ++ messages.map ToolMessage.toolCallId
    point := .noting }

def isOperationAborted (aborted : Bool) (error : LoopError) : Bool := aborted || error = .aborted

/-- A `catch` that keeps the messages of an aborted batch -/
def caught (aborted : Bool) (b : ToolBatch) (error : LoopError) : Progress :=
  if isOperationAborted aborted error then .ends (.aborted b.toolMessages) else .ends (.thrown error)

def deniedContent (call : LlmToolCall) (error : ToolPermissionError) : Text :=
  ("Tool " ++ call.name ++ " denied by policy: " ++ error.reason.getD error.message).toList

def pendingSession (b : ToolBatch) (call : LlmToolCall) : PendingToolSession where
  runId := b.runId
  mode := b.mode
  call
  remainingCalls := b.queue
  tools := b.tools
  iteration := b.iteration
  verificationFollowupCount := b.verificationFollowupCount
  completedCallIds := b.completedCallIds.eraseDups

end ToolBatch

/-- The session is set before the checkpoint, which may be refused. -/
def Memory.createPendingToolApproval (m : Memory) (session : PendingToolSession) (error : ToolPermissionError) :
    Memory × Except LoopError Unit :=
  let m := { m with pendingToolSessions := mapSet session.runId session m.pendingToolSessions }
  match m.updateCheckpoint
    { runId := session.runId, mode := session.mode, status := .awaitingApproval, iteration := session.iteration
      verificationFollowupCount := session.verificationFollowupCount, completedCallIds := session.completedCallIds
      pendingCall := some session.call, remainingCalls := session.remainingCalls
      pendingApproval := some ⟨session.runId, session.call.id, session.call.name, error.risk, error.reason⟩ } with
  | .ok m => (m, .ok ())
  | .error error => (m, .error error)

namespace ToolBatch

/-- After `push`: the checkpoint follows. A refusal is caught only in the branch of the reads. -/
def checkpointing (aborted catching : Bool) (m : Memory) (b : ToolBatch) : Memory × Progress :=
  match m.patchCheckpoint b.checkpointed with
  | .ok m => (m, .waits b)
  | .error error => (m, if catching then caught aborted b error else .ends (.thrown error))

/-- `observeToolCall`, `completeVerificationObservation` or `attachChangedFiles` returns. -/
def proceed (gateway : ToolGateway) (aborted : Bool) (m : Memory) (b : ToolBatch) : Memory × Progress :=
  match b.point with
  | .observing calls => (m.record (startedRecords gateway aborted false b.runId calls),
      .waits { b with point := .reading (calls.map (made gateway aborted false)) })
  | .announcing call => (m.record (startedRecords gateway aborted false b.runId [call]),
      .waits { b with point := .calling (made gateway aborted false call) })
  | .noting => (m, b.loop gateway aborted)
  | .pausing session => (m, .ends (.approval session b.toolMessages))
  | .reading _ | .calling _ => (m, .waits b)

/-- All results of `Promise.all`, when they are there -/
def results (slots : List Slot) : Option (List ToolMessage) :=
  slots.mapM fun slot => slot.content.map (LlmToolCall.answer slot.call)

/-- The promise of a call settles. -/
def settled (aborted : Bool) (i : Nat) (answer : Answer) (m : Memory) (b : ToolBatch) : Memory × Progress :=
  match b.point with
  | .reading slots => match slots[i]? with
    | none => (m, .waits b)
    | some slot =>
        if slot.content.isSome then (m, .waits b)
        else match slot.outcome answer with
          | .error error => (m.record (settledRecords b.runId slot), caught aborted b error)
          | .ok content =>
              let slots := slots.set i { slot with content := some content }
              let m := m.record (settledRecords b.runId slot)
              match results slots with
              | none => (m, .waits { b with point := .reading slots })
              | some messages => checkpointing aborted true m (b.push messages)
  | .calling slot =>
      let m := m.record (settledRecords b.runId slot)
      match slot.outcome answer with
      | .ok content => checkpointing aborted false m (b.push [LlmToolCall.answer slot.call content])
      | .error (.permission error) =>
          if error.denied then
            checkpointing aborted false m (b.push [LlmToolCall.answer slot.call (deniedContent slot.call error)])
          else
            let session := b.pendingSession slot.call
            let (m, created) := m.createPendingToolApproval session error
            match created with
            | .ok _ => (m, .waits { b with point := .pausing session })
            | .error error => (m, .ends (.thrown error))
      | .error error => (m, caught aborted b error)
  | _ => (m, .waits b)

end ToolBatch

structure ToolBatchInput where
  runId : String
  mode : AgentMode
  calls : List LlmToolCall
  tools : List ToolMetadata
  iteration : Nat
  verificationFollowupCount : Nat

/-- The calls that the run has completed before. -/
def Memory.completedCallIds (m : Memory) (runId : String) : List String :=
  match m.activeCheckpoint with
  | some checkpoint => if checkpoint.runId = runId then checkpoint.completedCallIds else []
  | none => []

def executeToolBatch (gateway : ToolGateway) (aborted : Bool) (m : Memory) (input : ToolBatchInput) :
    Memory × Progress :=
  let completedCallIds := m.completedCallIds input.runId
  match m.updateCheckpoint
    { runId := input.runId, mode := input.mode, status := .running, iteration := input.iteration
      verificationFollowupCount := input.verificationFollowupCount, completedCallIds, pendingCall := none
      remainingCalls := input.calls, pendingApproval := none } with
  | .error error => (m, .ends (.thrown error))
  | .ok m => (m, ToolBatch.loop gateway aborted
      { runId := input.runId, mode := input.mode, tools := input.tools, iteration := input.iteration
        verificationFollowupCount := input.verificationFollowupCount, toolMessages := [], queue := input.calls
        completedCallIds, point := .noting })

end Batch

end Kross.ToolLoop

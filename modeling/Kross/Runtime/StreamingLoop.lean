import Kross.Context.Selection
import Kross.Runtime.CompleteToolLoop
import Kross.Runtime.ToolBatch

namespace Kross.ToolLoop

open Kross.Context (LlmToolCall LlmMessage Text ConversationThread ContextPolicy CompactionSelection ThreadError Number
  applyTurnCompaction)
open Kross.Mutation
open Kross.Runtime (ToolLoopStallDetector)
open Kross.Session (trim)

def MAX_VERIFICATION_FOLLOWUPS : Nat := 1

def SOFT_LAND_FALLBACK : Text :=
  "已达到工具调用轮次上限。请查看上文工具结果；如需继续，请再发一条指令推进剩余工作。".toList

def formatMaxIterationsNotice (maxIterations : Nat) : Text :=
  SOFT_LAND_FALLBACK ++ ("（上限 " ++ maxIterations.repr ++ " 轮）").toList

/-- `fingerprint` is the hash of calls and results, `message` the text of an error. -/
structure LoopOptions where
  maxToolIterations : Nat
  estimateMessage : LlmMessage → Nat
  fingerprint : List LlmToolCall → List ToolMessage → Text
  message : LoopError → Text
  stallSummary : Text

/-- What the governor of the context may do to the thread before a request -/
inductive Governing
  | truncateEntry (entryId : String) (content : Text)
  | elideToolResult (entryId : String) (content : Text)
  | addNotice (content : Text)
  | turnCompaction (policy : ContextPolicy) (budget : Int) (summary : CompactionSelection → Option Text)

def Governing.apply (estimateMessage : LlmMessage → Nat) (t : ConversationThread) : Governing → ConversationThread
  | .truncateEntry entryId content => t.truncateEntry estimateMessage entryId content
  | .elideToolResult entryId content => t.elideToolResult estimateMessage entryId content
  | .addNotice content => t.addNotice estimateMessage content
  | .turnCompaction policy budget summary => applyTurnCompaction estimateMessage policy budget t t summary

/-- The parameters and the variables of `runStreamingToolLoop` -/
structure LoopRun where
  runId : String
  mode : AgentMode
  tools : List ToolMetadata
  iteration : Nat
  fullText : Text
  verificationFollowupCount : Nat
  detector : ToolLoopStallDetector

/-- Where an operation waits. From `approving` to `continuing` it resumes a run. -/
inductive LoopPoint
  | idle
  | opening (run : LoopRun)
  | preparing (run : LoopRun)
  | streaming (run : LoopRun)
  | answering (run : LoopRun) (turnText : Text) (toolCalls : List LlmToolCall)
  | landing (run : LoopRun) (softText : Text)
  | reviewing (run : LoopRun)
  | executing (run : LoopRun) (toolCalls : List LlmToolCall) (batch : ToolBatch)
  | approving (session : PendingToolSession)
  | applying (session : PendingToolSession) (slot : Slot)
  | appending (session : PendingToolSession) (content : Text)
  | continuing (session : PendingToolSession) (batch : ToolBatch)

/-- `refused` is an operation that finds a turn open, or nothing pending. -/
inductive Outcome
  | refused
  | thrown
  | approvalRequired (runId : String)
  | result (runId : String) (status : ResultStatus)
  deriving DecidableEq

/-- A runtime between two events; `outcome` is what the last operation has come to. -/
structure LoopState where
  thread : ConversationThread
  memory : Memory
  aborted : Bool
  point : LoopPoint
  outcome : Option Outcome

section Messages

def appendToolMessages (estimateMessage : LlmMessage → Nat) (iteration : Nat) (t : ConversationThread)
    (messages : List ToolMessage) : Except ThreadError ConversationThread :=
  messages.foldlM (fun t message => t.appendToolResult estimateMessage
    { toolCallId := message.toolCallId, name := message.name, content := message.content, summary := none
      iteration := some (.finite iteration) }) t

def rejectedContent (call : LlmToolCall) (reason : Option Text) : Text :=
  let normalizedReason := trim (reason.getD [])
  if normalizedReason.isEmpty then ("Tool " ++ call.name ++ " rejected by user.").toList
  else ("Tool " ++ call.name ++ " rejected by user. User feedback: ").toList ++ normalizedReason

def cancelledContent (reason : Text) (call : LlmToolCall) : Text :=
  ("Tool " ++ call.name ++ " cancelled before execution: ").toList ++ reason

def interruptedSummary : Text := "已中断当前任务".toList

def cancelledSummary (reason : Text) : Text := "工具调用等待审批时运行已取消：".toList ++ reason

def missingLlmSummary : Text := "工具审批后无法继续：未配置 LLM".toList

/-- The text of a turn, and of all turns: a turn begins on a new paragraph. -/
def addText (texts : Text × Text) (chunk : Text) : Text × Text :=
  (texts.1 ++ chunk, (if texts.1.isEmpty && !texts.2.isEmpty then texts.2 ++ ['\n', '\n'] else texts.2) ++ chunk)

def addParagraph (fullText chunk : Text) : Text := if fullText.isEmpty then chunk else fullText ++ '\n' :: '\n' :: chunk

end Messages

namespace LoopState

variable (o : LoopOptions)

def record (s : LoopState) (records : List Record) : LoopState := { s with memory := s.memory.record records }

def finish (s : LoopState) (outcome : Outcome) : LoopState := { s with point := .idle, outcome := some outcome }

def clearRunCheckpoint (s : LoopState) (runId : String) : LoopState :=
  { s with memory := s.memory.clearRunCheckpoint runId }

def deleteSession (s : LoopState) (runId : String) : LoopState :=
  { s with memory := { s.memory with pendingToolSessions := mapDelete runId s.memory.pendingToolSessions } }

/-- An operation of the thread, and what follows when it throws -/
def withThread (s : LoopState) (thread : Except ThreadError ConversationThread)
    (onDone onThrown : LoopState → LoopState) : LoopState :=
  match thread with
  | .ok thread => onDone { s with thread }
  | .error _ => onThrown s

section Handlers

/-- `onSuccess`, `onSoftLand` and `onStalled` -/
def close (s : LoopState) (runId : String) (status : ResultStatus) (summary : Option Text)
    (onThrown : LoopState → LoopState) : LoopState :=
  let s := (s.clearRunCheckpoint runId).record [.runCompleted runId status]
  let appended : Except ThreadError ConversationThread := match summary with
    | none => .ok s.thread
    | some summary => s.thread.appendAssistant o.estimateMessage summary []
  s.withThread (appended.bind ConversationThread.commitTurn) (finish · (.result runId status)) onThrown

/-- `onFailure` -/
def failed (s : LoopState) (runId : String) (error : LoopError) : LoopState :=
  let s := (s.clearRunCheckpoint runId).record [.runCompleted runId .failed]
  s.withThread (s.thread.abortTurn o.estimateMessage (o.message error)) (finish · (.result runId .failed))
    (finish · .thrown)

/-- `completeInterruptedRun` -/
def interrupted (s : LoopState) (runId : String) : LoopState :=
  let s := s.record [.runCompleted runId .cancelled]
  if s.thread.openTurnId.isSome then
    s.withThread (s.thread.interruptTurn o.estimateMessage "用户中断了当前任务".toList)
      (finish · (.result runId .cancelled)) (finish · .thrown)
  else s.finish (.result runId .cancelled)

/-- `onCancelled`, and the end of `resolveToolApprovalStreaming` -/
def cancelled (s : LoopState) (runId : String) : LoopState :=
  ((s.deleteSession runId).interrupted o runId).clearRunCheckpoint runId

end Handlers

section Loop

/-- The `catch` of `runStreamingToolLoop`; `messages` are those of an aborted batch. -/
def caught (s : LoopState) (run : LoopRun) (messages : List ToolMessage) (error : LoopError) : LoopState :=
  if ToolBatch.isOperationAborted s.aborted error then
    s.withThread (appendToolMessages o.estimateMessage run.iteration s.thread messages)
      (fun s => s.cancelled o run.runId) (finish · .thrown)
  else s.failed o run.runId error

/-- The head of the loop, up to `prepareRequest` -/
def head (s : LoopState) (run : LoopRun) : LoopState :=
  if s.aborted then s.caught o run [] .aborted
  else { s with thread := s.thread.setCurrentIteration (.finite run.iteration), point := .preparing run }

def suspended (s : LoopState) (session : PendingToolSession) : LoopState :=
  (s.record [.awaitingApproval session.runId session.call]).finish (.approvalRequired session.runId)

/-- After the results of a batch -/
def observed (s : LoopState) (run : LoopRun) (toolCalls : List LlmToolCall) (messages : List ToolMessage) : LoopState :=
  let stall := run.detector.observe (o.fingerprint toolCalls messages)
  if stall.1 = .stalled then s.close o run.runId .failed (some o.stallSummary) fun s => s.caught o run [] .thrown
  else s.head o { run with detector := stall.2, iteration := run.iteration + 1 }

def batched (s : LoopState) (run : LoopRun) (toolCalls : List LlmToolCall) : Progress → LoopState
  | .waits batch => { s with point := .executing run toolCalls batch }
  | .ends (.completed messages) =>
      s.withThread (appendToolMessages o.estimateMessage run.iteration s.thread messages)
        (fun s => if s.aborted then s.caught o run [] .aborted else s.observed o run toolCalls messages)
        (fun s => s.caught o run [] .thrown)
  | .ends (.approval session messages) =>
      s.withThread (appendToolMessages o.estimateMessage run.iteration s.thread messages)
        (fun s => if s.aborted then s.caught o run [] .aborted else s.suspended session)
        (fun s => s.caught o run [] .thrown)
  | .ends (.aborted messages) => s.caught o run messages .aborted
  | .ends (.thrown error) => s.caught o run [] error

/-- What the loop does with a response -/
def answered (gateway : ToolGateway) (s : LoopState) (run : LoopRun) (turnText : Text) (toolCalls : List LlmToolCall) :
    LoopState :=
  if toolCalls.isEmpty then
    if (trim turnText).isEmpty then { s with point := .reviewing run }
    else s.withThread (s.thread.appendAssistant o.estimateMessage turnText []) ({ · with point := .reviewing run })
      (fun s => s.caught o run [] .thrown)
  else if o.maxToolIterations < run.iteration then { s with point := .landing run [] }
  else
    let s := s.record [.toolCallsReceived run.runId run.iteration toolCalls]
    s.withThread (s.thread.appendAssistant o.estimateMessage turnText toolCalls)
      (fun s =>
        let (memory, progress) := executeToolBatch gateway s.aborted s.memory
          { runId := run.runId, mode := run.mode, calls := toolCalls, tools := run.tools, iteration := run.iteration
            verificationFollowupCount := run.verificationFollowupCount }
        ({ s with memory }).batched o run toolCalls progress)
      (fun s => s.caught o run [] .thrown)

/-- A chunk of the soft landing -/
def softened (s : LoopState) (run : LoopRun) (softText chunk : Text) : LoopState :=
  if s.aborted then s.caught o run [] .aborted
  else { s with point := .landing { run with fullText := addParagraph run.fullText chunk } (softText ++ chunk) }

def landed (s : LoopState) (run : LoopRun) (softText : Text) : LoopState :=
  let notice := formatMaxIterationsNotice o.maxToolIterations
  if (trim softText).isEmpty then
    if s.aborted then s.caught o run [] .aborted
    else s.close o run.runId .completed (some (trim (softText ++ notice))) fun s => s.caught o run [] .thrown
  else s.close o run.runId .completed (some (trim softText)) fun s => s.caught o run [] .thrown

/-- `assessVerificationGate` has returned. -/
def assessed (s : LoopState) (run : LoopRun) (satisfied : Bool) : LoopState :=
  if !satisfied && run.verificationFollowupCount < MAX_VERIFICATION_FOLLOWUPS then
    (s.record [.verificationFollowup run.runId]).head o
      { run with
        verificationFollowupCount := run.verificationFollowupCount + 1
        fullText := []
        iteration := run.iteration + 1 }
  else if s.aborted then s.cancelled o run.runId
  else s.close o run.runId .completed none (finish · .thrown)

end Loop

section Resume

/-- The `catch` of `resolveToolApprovalStreaming` -/
def resumeCaught (s : LoopState) (session : PendingToolSession) (messages : List ToolMessage) (error : LoopError) :
    LoopState :=
  if ToolBatch.isOperationAborted s.aborted error then
    s.withThread (appendToolMessages o.estimateMessage session.iteration s.thread messages)
      (fun s => s.cancelled o session.runId) (finish · .thrown)
  else s.finish .thrown

/-- `iteration` is that of the session again. -/
def resumedRun (session : PendingToolSession) : LoopRun where
  runId := session.runId
  mode := session.mode
  tools := session.tools
  iteration := session.iteration
  fullText := []
  verificationFollowupCount := session.verificationFollowupCount
  detector := .new

def continued (client : Bool) (s : LoopState) (session : PendingToolSession) : Progress → LoopState
  | .waits batch => { s with point := .continuing session batch }
  | .ends (.completed messages) =>
      s.withThread (appendToolMessages o.estimateMessage session.iteration s.thread messages)
        (fun s =>
          if s.aborted then s.resumeCaught o session [] .aborted
          else if client then s.head o (resumedRun session)
          else s.close o session.runId .failed (some missingLlmSummary) fun s => s.resumeCaught o session [] .thrown)
        (fun s => s.resumeCaught o session [] .thrown)
  | .ends (.approval next messages) =>
      s.withThread (appendToolMessages o.estimateMessage session.iteration s.thread messages)
        (fun s => if s.aborted then s.resumeCaught o session [] .aborted else s.suspended next)
        (fun s => s.resumeCaught o session [] .thrown)
  | .ends (.aborted messages) => s.resumeCaught o session messages .aborted
  | .ends (.thrown error) => s.resumeCaught o session [] error

def recordCompletedCall (m : Memory) (session : PendingToolSession) : Except LoopError Memory :=
  let completedCallIds :=
    if session.call.id ∈ session.completedCallIds then session.completedCallIds
    else session.completedCallIds ++ [session.call.id]
  match m.activeCheckpoint with
  | some checkpoint =>
      if checkpoint.runId = session.runId then m.updateCheckpoint { checkpoint with completedCallIds } else .ok m
  | none => .ok m

/-- The result of the call that was pending is there. -/
def appended (gateway : ToolGateway) (client : Bool) (s : LoopState) (session : PendingToolSession) (content : Text) :
    LoopState :=
  if s.aborted then s.resumeCaught o session [] .aborted
  else s.withThread
    (appendToolMessages o.estimateMessage session.iteration s.thread [LlmToolCall.answer session.call content])
    (fun s => match recordCompletedCall s.memory session with
      | .error error => s.resumeCaught o session [] error
      | .ok memory =>
          let (memory, progress) := executeToolBatch gateway s.aborted memory
            { runId := session.runId, mode := session.mode, calls := session.remainingCalls, tools := session.tools
              iteration := session.iteration, verificationFollowupCount := session.verificationFollowupCount }
          ({ s with memory }).continued o client session progress)
    (fun s => s.resumeCaught o session [] .thrown)

/-- `aborted` is a signal that is aborted before. -/
def resolved (s : LoopState) (runId : String) (approved : Bool) (reason : Option Text) (aborted : Bool) : LoopState :=
  match mapGet runId s.memory.pendingToolSessions with
  | none => s.finish .refused
  | some session =>
      let s := s.deleteSession runId
      match s.memory.patchCheckpoint
        (fun c => { c with status := .running, pendingCall := none, pendingApproval := none }) with
      | .error _ => s.finish .thrown
      | .ok memory =>
          let s := { s with memory, aborted }
          if aborted then s.resumeCaught o session [] .aborted
          else if approved then
            { s.record [.toolCallApproved session.runId session.call] with point := .approving session }
          else { s.record [.toolCallRejected session.runId session.call] with
            point := .appending session (rejectedContent session.call reason) }

/-- The call that was pending is made. -/
def approvedCall (gateway : ToolGateway) (s : LoopState) (session : PendingToolSession) : LoopState :=
  { s.record (ToolBatch.startedRecords gateway s.aborted true session.runId [session.call]) with
    point := .applying session (ToolBatch.made gateway s.aborted true session.call) }

def applied (s : LoopState) (session : PendingToolSession) (slot : Slot) (answer : Answer) : LoopState :=
  let s := s.record (ToolBatch.settledRecords session.runId slot)
  match slot.outcome answer with
  | .ok content => { s with point := .appending session content }
  | .error error => s.resumeCaught o session [] error

end Resume

section Pending

def finishPendingApprovalCancellation (s : LoopState) (session : PendingToolSession) (reason summary : Text) :
    LoopState :=
  let calls := session.call :: session.remainingCalls
  s.withThread
    (appendToolMessages o.estimateMessage session.iteration s.thread
      (calls.map fun call => LlmToolCall.answer call (cancelledContent reason call)))
    (fun s => (s.record (calls.map (.toolCallCancelled session.runId))).close o session.runId .cancelled (some summary)
      (finish · .thrown))
    (finish · .thrown)

def interruptPendingApproval (s : LoopState) (runId : String) (reason : Text) : LoopState :=
  match mapGet runId s.memory.pendingToolSessions with
  | none => s.finish .refused
  | some session => ((s.deleteSession runId).clearRunCheckpoint runId).finishPendingApprovalCancellation o session
      reason interruptedSummary

def cancelPendingApprovals (reason : Text) (s : LoopState) : List (String × PendingToolSession) → LoopState
  | [] => s
  | (runId, session) :: rest =>
      let s := (s.deleteSession runId).finishPendingApprovalCancellation o session reason (cancelledSummary reason)
      if s.outcome = some .thrown then s else s.cancelPendingApprovals reason rest

end Pending

end LoopState

section Machine

inductive LoopEvent
  | run (runId : String) (mode : AgentMode) (tools : List ToolMetadata) (input : Text)
  | resolve (runId : String) (approved : Bool) (reason : Option Text) (aborted : Bool)
  | interruptPending (runId : String) (reason : Text)
  | cancelPending (reason : Text)
  | abort
  | proceed
  | prepared (governed : List Governing) (error : Option LoopError)
  | responded (chunks : List Text) (toolCalls : List LlmToolCall)
  | softChunk (text : Text)
  | softEnd
  | assessed (satisfied : Bool)
  | settled (i : Nat) (answer : Answer)
  | fails (error : LoopError)

/-- The gateway, and whether there is a model, are as they are when the event comes. -/
structure LoopStep where
  gateway : ToolGateway
  client : Bool
  event : LoopEvent

namespace LoopState

variable (o : LoopOptions)

/-- An operation begins between two others. -/
def begin (s : LoopState) : LoopEvent → LoopState
  | .run runId mode tools input =>
      let s := { s.record [.runStarted runId] with aborted := false }
      s.withThread (s.thread.beginTurn o.estimateMessage input)
        ({ · with point := .opening ⟨runId, mode, tools, 1, [], 0, .new⟩ }) (finish · .refused)
  | .resolve runId approved reason aborted => s.resolved o runId approved reason aborted
  | .interruptPending runId reason => s.interruptPendingApproval o runId reason
  | .cancelPending reason => s.cancelPendingApprovals o reason s.memory.pendingToolSessions
  | _ => s

def governed (s : LoopState) (governing : List Governing) : LoopState :=
  { s with thread := governing.foldl (Governing.apply o.estimateMessage) s.thread }

def next (s : LoopState) (step : LoopStep) : LoopState :=
  match s.point, step.event with
  | .idle, event => s.begin o event
  | _, .abort => { s with aborted := true }
  | .opening run, .prepared governing error => match error with
    | some error =>
        if ToolBatch.isOperationAborted s.aborted error then (s.governed o governing).interrupted o run.runId
        else (s.governed o governing).finish .thrown
    | none =>
        if s.aborted then (s.governed o governing).interrupted o run.runId else (s.governed o governing).head o run
  | .preparing run, .prepared governing error => match error with
    | some error => (s.governed o governing).caught o run [] error
    | none =>
        if s.aborted then (s.governed o governing).caught o run [] .aborted
        else { s.governed o governing with point := .streaming run }
  | .streaming run, .responded chunks toolCalls =>
      if s.aborted then s.caught o run [] .aborted
      else
        let texts := chunks.foldl addText ([], run.fullText)
        { s.record [.llmCompleted run.runId run.iteration] with
          point := .answering { run with fullText := texts.2 } texts.1 toolCalls }
  | .answering run turnText toolCalls, .proceed => s.answered o step.gateway run turnText toolCalls
  | .landing run softText, .softChunk chunk => s.softened o run softText chunk
  | .landing run softText, .softEnd => s.landed o run softText
  | .reviewing run, .assessed satisfied => s.assessed o run satisfied
  | .executing run toolCalls batch, .proceed =>
      let (memory, progress) := batch.proceed step.gateway s.aborted s.memory
      ({ s with memory }).batched o run toolCalls progress
  | .executing run toolCalls batch, .settled i answer =>
      let (memory, progress) := batch.settled s.aborted i answer s.memory
      ({ s with memory }).batched o run toolCalls progress
  | .approving session, .proceed => s.approvedCall step.gateway session
  | .applying session slot, .settled _ answer => s.applied o session slot answer
  | .appending session content, .proceed => s.appended o step.gateway step.client session content
  | .continuing session batch, .proceed =>
      let (memory, progress) := batch.proceed step.gateway s.aborted s.memory
      ({ s with memory }).continued o step.client session progress
  | .continuing session batch, .settled i answer =>
      let (memory, progress) := batch.settled s.aborted i answer s.memory
      ({ s with memory }).continued o step.client session progress
  | .streaming run, .fails error | .landing run _, .fails error | .reviewing run, .fails error =>
      s.caught o run [] error
  | _, _ => s

def new (entryCounter turnCounter : Nat) : LoopState where
  thread := .new entryCounter turnCounter
  memory := ⟨[], none, []⟩
  aborted := false
  point := .idle
  outcome := none

end LoopState

end Machine

end Kross.ToolLoop

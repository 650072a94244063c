import Kross.Runtime.CompleteToolLoop
import Kross.Verification.Report

namespace Kross.Runtime

open Kross.Json Kross.Session Kross.Trace Kross.Verification

inductive SubagentRole
  | worker
  | reviewer
  | validator
  deriving DecidableEq

inductive SubagentMode
  | explore
  | general
  deriving DecidableEq

inductive ToolRisk
  | read
  | write
  | execute
  deriving DecidableEq

structure SubagentRunRequest where
  prompt : Text
  mode : SubagentMode := .explore
  parentDepth : Nat := 0
  role : SubagentRole := .worker
  verificationChangedFiles : List Text := []

/-- `mutations` is whether the workspace has a mutation service. -/
structure SubagentRunDeps where
  maxDepth : Nat := 1
  maxToolIterations : Nat := 40
  hasClient : Bool
  mutations : Bool

inductive SubagentStatus
  | completed
  | failed
  | needsReview
  deriving DecidableEq

def SubagentStatus.name : SubagentStatus → String
  | .completed => "completed"
  | .failed => "failed"
  | .needsReview => "needs-review"

structure SubagentResult where
  status : SubagentStatus
  summary : Text
  changedFiles : List Text
  diffSummary : List Text
  commandsRun : List Text
  toolsUsed : List Text
  verification : VerificationReport
  evidence : List Text
  risks : List Text
  needsReview : List Text

inductive SubagentError
  | depthLimit (maxDepth : Nat)
  | emptyPrompt
  | loop (error : LoopError)
  deriving DecidableEq

section Tools

def createSubagentTools (mutations : Bool) : List (String × ToolRisk) :=
  [("Read", .read), ("Glob", .read), ("Grep", .read), ("Rg", .read), ("List", .read), ("Stat", .read),
    ("Git", .read), ("Edit", .write), ("Write", .write)] ++
    if mutations then [("ApplyPatch", .write)] else []

def availableToolDefs (mutations : Bool) : List (String × ToolRisk) :=
  createSubagentTools mutations ++ [("ReadSkill", .read)]

def readTools (mutations : Bool) : List (String × ToolRisk) :=
  (availableToolDefs mutations).filter (fun tool => tool.2 = .read)

/-- The names of the tools that the gateway of a subagent knows. -/
def toolDefs (role : SubagentRole) (mode : SubagentMode) (mutations : Bool) : List String :=
  (if role = .validator then readTools mutations ++ [("Verify", .execute)]
    else if mode = .explore then readTools mutations
    else availableToolDefs mutations).map Prod.fst

end Tools

/-- What a read of the trace of a subagent comes to: a store that cannot read
its file throws, or it takes the file for empty. -/
inductive TraceReading
  | recorded
  | missing
  | failed
  deriving DecidableEq

def TraceReading.readRun (reading : TraceReading) (trace : List TraceEvent) : Except Unit (List TraceEvent) :=
  match reading with
  | .recorded => .ok trace
  | .missing => .ok []
  | .failed => .error ()

section Evidence

def completedTool (event : TraceEvent) : Option Text :=
  if event.type = "tool_call.completed" then
    match event.payload.get "toolName" with
    | some (.str name) => some name.toList
    | _ => none
  else none

def gitAction (event : TraceEvent) : Option String :=
  match event.data.bind (·.get "action") with
  | some (.str action) => some action
  | _ => none

def isGit (type : String) (event : TraceEvent) : Bool :=
  event.type = type && event.payload.get "toolName" matches some (.str "Git")

def callIdOf (event : TraceEvent) : Option String :=
  match event.payload.get "callId" with
  | some (.str callId) => some callId
  | _ => none

def gitEvidence (event : TraceEvent) : Text :=
  let input := asRecord (event.payload.get "input")
  match input.bind (·.get "action") with
  | some (.str "status") => "Git:status".toList
  | some (.str "diff") =>
      match input.bind (·.get "paths"), input.bind (·.get "cwd"), input.bind (·.get "staged") with
      | some (.arr (.cons _ _)), _, _ => "Git:diff:scoped".toList
      | _, some (.str _), _ => "Git:diff:scoped".toList
      | _, _, some (.bool true) => "Git:diff:staged".toList
      | _, _, _ => "Git:diff:unstaged".toList
  | _ => "Git:unknown".toList

def extractCompletedGitEvidence (events : List TraceEvent) : List Text :=
  let completedCallIds := (events.filter (fun event =>
    isGit "tool_call.completed" event && gitAction event ∈ [some "status", some "diff"])).filterMap callIdOf
  (events.filter (fun event =>
    isGit "tool_call.started" event && (callIdOf event).any (· ∈ completedCallIds))).map gitEvidence

def diffSummaryOf (event : TraceEvent) : Text :=
  match event.payload.get "summary" with
  | some (.str summary) => summary.toList
  | _ => "Git diff completed".toList

def extractDiffSummary (events : List TraceEvent) : List Text :=
  (events.filter (fun event =>
    isGit "tool_call.completed" event && gitAction event = some "diff")).map diffSummaryOf

end Evidence

section Result

variable (platform : Platform)

/-- What a subagent knows of its own run. -/
structure RunEvidence where
  changedFiles : List Text
  toolsUsed : List Text
  diffSummary : List Text
  verification : VerificationReport

def unavailableEvidence : RunEvidence :=
  ⟨[], [], [], ⟨.notRun, [], [], some "Subagent trace was unavailable.".toList⟩⟩

def verificationFiles (request : SubagentRunRequest) (changedFiles : List Text) : List Text :=
  if request.role = .validator then request.verificationChangedFiles else changedFiles

def gateOverride (assessment : VerificationGateAssessment) (verification : VerificationReport) :
    VerificationReport :=
  if assessment.satisfied = false ∧ verification.status = .passed then
    { verification with status := .notRun, reason := some assessment.reason }
  else verification

def collectEvidence (request : SubagentRunRequest) (events : List TraceEvent) : RunEvidence :=
  let changedFiles := extractChangedFilesFromEvents platform events
  let options : CollectVerificationReportOptions := { changedFiles := verificationFiles request changedFiles }
  let verification := collectVerificationReport platform events options
  { changedFiles
    toolsUsed := unique (events.filterMap completedTool ++ extractCompletedGitEvidence events)
    diffSummary := extractDiffSummary events
    verification :=
      if request.role = .validator then gateOverride (assessVerificationGate platform events options) verification
      else verification }

/-- A missing trace leaves the evidence unavailable. -/
def readEvidence (request : SubagentRunRequest) (read : Except Unit (List TraceEvent)) : RunEvidence :=
  match read with
  | .ok events => collectEvidence platform request events
  | .error _ => unavailableEvidence

def verificationNeedsReview (request : SubagentRunRequest) (evidence : RunEvidence) : Bool :=
  evidence.verification.status = .failed ||
    (request.role = .validator && evidence.verification.status ≠ .passed) ||
    (requiresVerificationForFiles platform evidence.changedFiles && evidence.verification.status ≠ .passed)

def subagentResult (request : SubagentRunRequest) (evidence : RunEvidence) (summary : Text) (stalled : Bool) :
    SubagentResult :=
  let needsReview := verificationNeedsReview platform request evidence
  { status := if stalled || needsReview then .needsReview else .completed
    summary
    changedFiles := evidence.changedFiles
    diffSummary := evidence.diffSummary
    commandsRun := evidence.verification.commands
    toolsUsed := evidence.toolsUsed
    verification := evidence.verification
    evidence := [if stalled then "子代理在一次恢复提示后仍重复相同工具调用，且结果没有变化".toList
        else "子代理已完成独立工具环".toList] ++
      (if evidence.changedFiles = [] then []
        else [s!"修改文件 {evidence.changedFiles.length} 个".toList]) ++
      evidence.verification.evidence
    risks := (if stalled then ["分配给子代理的任务可能尚未完成".toList] else []) ++
      (if needsReview then [evidence.verification.reason.getD "子代理修改缺少可信验证证据".toList] else [])
    needsReview := (if stalled then ["父 Agent 需要检查阻塞证据并调整策略".toList] else []) ++
      (if needsReview then ["Conductor reviewer 必须检查最终 diff 与验证缺口".toList] else []) }

def noClientResult : SubagentResult where
  status := .failed
  summary := "Subagent failed: no LLM client configured".toList
  changedFiles := []
  diffSummary := []
  commandsRun := []
  toolsUsed := []
  verification := ⟨.notNeeded, [], [], some "No worker execution occurred.".toList⟩
  evidence := ["子代理未检测到可用 LLM client".toList]
  risks := ["请配置模型后再派生子代理".toList]
  needsReview := []

end Result

section Run

variable (platform : Platform) (locale : AppLocale) (deps : SubagentRunDeps) (request : SubagentRunRequest)
  (complete : Nat → Except LoopError Turn) (softLand : Except LoopError Text)

def subagentLoop : LoopResult :=
  runCompleteToolLoop platform locale (toolDefs request.role request.mode deps.mutations)
    deps.maxToolIterations complete softLand

def runSubagent (reading : TraceReading) : Except SubagentError SubagentResult :=
  if deps.maxDepth ≤ request.parentDepth then .error (.depthLimit deps.maxDepth)
  else if trim request.prompt = [] then .error .emptyPrompt
  else if !deps.hasClient then .ok noClientResult
  else
    let loop := subagentLoop platform locale deps request complete softLand
    match loop.outcome with
    | .error error => .error (.loop error)
    | .ok (summary, stalled) =>
        .ok (subagentResult platform request (readEvidence platform request (reading.readRun loop.trace))
          summary stalled)

end Run

end Kross.Runtime

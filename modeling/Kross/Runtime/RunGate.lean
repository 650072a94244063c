import Kross.Verification.Report
import Mathlib.Data.List.Lex

namespace Kross.Runtime

open Kross.Json Kross.Trace Kross.Verification

structure Repo where
  id : Text
  testCommand : Option Text

structure Project where
  id : Text
  repos : List Repo

inductive ResultStatus
  | completed
  | failed
  | cancelled
  | approvalRequired
  deriving DecidableEq

structure AgentReport where
  changedFiles : List Text
  verification : VerificationReport
  risks : List Text
  deriving DecidableEq

structure AgentResult where
  runId : String
  status : ResultStatus
  report : AgentReport
  deriving DecidableEq

def configuredCommand (project : Project) (repo : Repo) : Option KnownVerificationCommand :=
  (repo.testCommand.filter (· ≠ [])).map (fun command =>
    ⟨command, "project test (".toList ++ project.id ++ '/' :: repo.id ++ ")".toList⟩)

def configuredVerificationCommands (projects : List Project) : List KnownVerificationCommand :=
  projects.flatMap (fun project => project.repos.filterMap (configuredCommand project))

def extractRunInput (events : List TraceEvent) : Option Text :=
  match (events.find? (fun event => event.type = "run.started")).bind (·.payload.get "input") with
  | some (.str input) => some input.toList
  | _ => none

/-- `sort()` compares code units. -/
def sortTexts (texts : List Text) : List Text :=
  texts.mergeSort (fun left right => left.flatMap units ≤ right.flatMap units)
where
  units (c : Char) : List Nat :=
    if c.toNat < 0x10000 then [c.toNat]
    else [0xD800 + (c.toNat - 0x10000) / 0x400, 0xDC00 + (c.toNat - 0x10000) % 0x400]

section Gate

variable {ε : Type} (platform : Platform) (projects : List Project)

def unavailableGate : VerificationGateAssessment where
  required := false
  satisfied := true
  report := ⟨.notRun, [], [], some "Run trace was unavailable, so verification could not be assessed.".toList⟩
  reason := "Run trace was unavailable, so verification could not be assessed.".toList
  lastMutationIndex := -1
  requiredKinds := []
  observedKinds := []

/-- The completion gate of a run, of which `readRun` returned `trace`. -/
def assessRunVerificationGate (trace : Except ε (List TraceEvent)) (originalUserInput : Text) :
    VerificationGateAssessment :=
  match trace with
  | .ok events => assessVerificationGate platform events {
      changedFiles := extractChangedFilesFromEvents platform events
      knownCommands := configuredVerificationCommands projects
      requestedCommand := identifyRequestedVerificationCommand platform originalUserInput }
  | .error _ => unavailableGate

def unverifiedRisk (verification : VerificationReport) (requested : Option VerificationCommandIdentity)
    (changedFiles : List Text) : Text :=
  if verification.status = .failed then "最后一次工作区修改后的验证仍然失败；当前结果不能视为已验证完成".toList
  else match requested with
    | some requested =>
        if changedFiles = [] then "用户明确要求的验证命令（".toList ++ requested.label ++ "）没有获得通过证据".toList
        else "最后一次工作区修改后没有可信的验证通过证据；改动仍存在未验证风险".toList
    | none => "最后一次工作区修改后没有可信的验证通过证据；改动仍存在未验证风险".toList

def attachChangedFiles (trace : Except ε (List TraceEvent)) (result : AgentResult) : AgentResult :=
  let events := trace.toOption.getD []
  let changedFiles := sortTexts (unique
    (result.report.changedFiles ++ extractChangedFilesFromEvents platform events))
  let requestedCommand := identifyRequestedVerificationCommand platform ((extractRunInput events).getD [])
  let verification := match trace with
    | .ok events => (assessVerificationGate platform events {
        changedFiles
        knownCommands := configuredVerificationCommands projects
        requestedCommand }).report
    | .error _ => ⟨.notRun, [], [],
        some "Verification evidence could not be collected because the run trace was unavailable.".toList⟩
  let unverified := result.status = .completed ∧ (changedFiles ≠ [] ∨ requestedCommand.isSome) ∧
    verification.status ≠ .passed
  { result with
    report := {
      changedFiles
      verification
      risks := unique (result.report.risks ++
        if unverified then [unverifiedRisk verification requestedCommand changedFiles] else []) } }

end Gate

end Kross.Runtime

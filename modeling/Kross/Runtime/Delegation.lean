import Kross.Modify
import Kross.Run
import Kross.Runtime.RunGate
import Kross.Runtime.SubagentRunner
import Kross.Verification.Gate
import Kross.Verification.Runner

namespace Kross.Runtime

open Kross.Json Kross.Modify Kross.Run Kross.Trace Kross.Verification

/-- A general subagent with its own trace. `ended` is the place in the trace of the
run where its Task call has ended. -/
structure Child where
  request : SubagentRunRequest
  trace : List TraceEvent
  ended : Option Nat

/-- A run of the main agent with the subagents of its Task calls. -/
structure DelegatingRun where
  trace : List TraceEvent
  children : List Child

inductive DelegationStep
  | records (event : TraceEvent)
  | spawns (prompt : Text)
  | childRecords (i : Nat) (event : TraceEvent)
  | ends (i : Nat) (stamp : Stamp) (callId title subRunId : String) (summary : Text) (stalled : Bool)

section Task

variable (platform : Platform)

def textValue (text : Text) : Value := .str (String.ofList text)

def textsValue (texts : List Text) : Value := .arr (Items.ofList (texts.map textValue))

def clip (value : Text) (max : Nat) : Text := Session.truncate (Session.trim (Session.collapse false value)) max

/-- The event of a Task call that returned. -/
def taskPayload (callId title subRunId : String) (result : SubagentResult) : Fields :=
  Fields.ofList [("toolName", .str "Task"), ("callId", .str callId),
    ("summary", textValue ("Task(".toList ++ title.toList ++ ") → ".toList ++ result.status.name.toList ++
      ": ".toList ++ clip result.summary 160)),
    ("data", .obj (Fields.ofList [("subRunId", .str subRunId), ("mode", .str "general"),
      ("title", .str title), ("status", .str result.status.name), ("evidence", textsValue result.evidence),
      ("risks", textsValue result.risks), ("changedFiles", textsValue result.changedFiles)]))]

def Child.result (child : Child) (summary : Text) (stalled : Bool) : SubagentResult :=
  subagentResult platform child.request (collectEvidence platform child.request child.trace) summary stalled

/-- The files that the subagent changed and that are not documentation. -/
def Child.codeFiles (child : Child) : List Text :=
  (extractChangedFilesFromEvents platform child.trace).filter (fun file => !isDocumentationFile platform file)

def DelegatingRun.start : DelegatingRun := ⟨[], []⟩

def taskEvent (run : DelegatingRun) (i : Nat) (stamp : Stamp) (callId title subRunId : String)
    (summary : Text) (stalled : Bool) : Option TraceEvent :=
  (run.children[i]?.filter (fun child => child.ended.isNone)).map (fun child =>
    stamp.event "tool_call.completed" (taskPayload callId title subRunId (child.result platform summary stalled)))

def DelegatingRun.next (run : DelegatingRun) : DelegationStep → DelegatingRun
  | .records event => { run with trace := run.trace ++ [event] }
  | .spawns prompt => { run with children := run.children ++ [⟨{ prompt, mode := .general }, [], none⟩] }
  | .childRecords i event =>
      { run with
        children := run.children.modify i (fun child =>
          if child.ended.isNone then { child with trace := child.trace ++ [event] } else child) }
  | .ends i stamp callId title subRunId summary stalled =>
      match taskEvent platform run i stamp callId title subRunId summary stalled with
      | some event =>
          ⟨run.trace ++ [event],
            run.children.modify i (fun child => { child with ended := some run.trace.length })⟩
      | none => run

end Task

section Gate

variable (platform : Platform) (projects : List Project)

/-- What the model loop comes to before the trace is read. -/
def loopReport (runId : String) (status : ResultStatus) (risks : List Text) : AgentResult :=
  ⟨runId, status, ⟨[], ⟨.notRun, [], [], none⟩, risks⟩⟩

def gateOptions (events : List TraceEvent) (input : Text) : CollectVerificationReportOptions :=
  { changedFiles := extractChangedFilesFromEvents platform events
    knownCommands := configuredVerificationCommands projects
    requestedCommand := identifyRequestedVerificationCommand platform input }

/-- The gate of the run covers a file that a subagent changed whose call ended at
`place`: it is required, what satisfies it are checks that were started behind that
place and passed, and the final report names the file. -/
structure Covered (events : List TraceEvent) (place : Nat) (file : Text) : Prop where
  required : ∀ input, (assessRunVerificationGate platform projects (.ok events : Except Unit _) input).required = true
  satisfied : ∀ input,
    (assessRunVerificationGate platform projects (.ok events : Except Unit _) input).satisfied = true →
      (∃ outcome, Ran platform (gateOptions platform projects events input) events outcome ∧ Passed outcome) ∧
      ∀ outcome, Ran platform (gateOptions platform projects events input) events outcome →
        outcome.status = .passed → place < outcome.eventIndex
  reported : ∀ runId status risks, file ∈ (attachChangedFiles platform projects (.ok events : Except Unit _)
    (loopReport runId status risks)).report.changedFiles

def DelegatedCovered (run : DelegatingRun) : Prop :=
  ∀ child ∈ run.children, ∀ place ∈ child.ended, ∀ file ∈ child.codeFiles platform,
    Covered platform projects run.trace place file

/-- No check that was started since the last file change of the run itself has passed. -/
def Unverified (events : List TraceEvent) : Prop :=
  ∀ outcome, Finished platform (knownByFingerprint platform (configuredVerificationCommands projects)) outcome events →
    Unmutated events outcome.eventIndex → outcome.status ≠ .passed

/-- When a Task call ends whose subagent changed code, the run itself has changed
the same files and no check has passed since; and a check that passes was started
behind the ends of these calls, or before the last file change of the run itself. -/
def DelegationAllowed (run : DelegatingRun) : DelegationStep → Prop
  | .records event => ∀ outcome,
      Ends platform (knownByFingerprint platform (configuredVerificationCommands projects)) outcome run.trace event →
      outcome.status = .passed → Unmutated run.trace outcome.eventIndex →
      ∀ child ∈ run.children, ∀ place ∈ child.ended, child.codeFiles platform ≠ [] → place < outcome.eventIndex
  | .ends i _ _ _ _ _ _ => ∀ child, run.children[i]? = some child → child.ended = none →
      child.codeFiles platform ≠ [] →
      (∀ file ∈ child.codeFiles platform, file ∈ extractChangedFilesFromEvents platform run.trace) ∧
        Unverified platform projects run.trace
  | _ => True

end Gate

section Covered

variable {platform : Platform} {projects : List Project} {events : List TraceEvent} {file : Text}

theorem requires_of_code (hfile : file ∈ extractChangedFilesFromEvents platform events)
    (hcode : isDocumentationFile platform file = false) :
    requiresVerificationForFiles platform (extractChangedFilesFromEvents platform events) = true := by
  have hall : (extractChangedFilesFromEvents platform events).all (isDocumentationFile platform) = false := by
    rw [List.all_eq_false]
    exact ⟨file, hfile, by rw [hcode]; rintro ⟨⟩⟩
  have hne : extractChangedFilesFromEvents platform events ≠ [] := List.ne_nil_of_mem hfile
  rw [requiresVerificationForFiles, hall]
  simpa using hne

theorem covered_of_changed {place : Nat} (hu : UniqueCallIds events)
    (hfile : file ∈ extractChangedFilesFromEvents platform events)
    (hcode : isDocumentationFile platform file = false)
    (hpassed : ∀ outcome,
      Finished platform (knownByFingerprint platform (configuredVerificationCommands projects)) outcome events →
      Unmutated events outcome.eventIndex → outcome.status = .passed → place < outcome.eventIndex) :
    Covered platform projects events place file := by
  have hrequired : ∀ input,
      (assessRunVerificationGate platform projects (.ok events : Except Unit _) input).required = true := by
    intro input
    have hneeds := requires_of_code hfile hcode
    simp only [assessRunVerificationGate, assessVerificationGate, hneeds, Bool.or_true]
  refine ⟨hrequired, fun input hsatisfied => ⟨?_, fun outcome hran hp => hpassed outcome hran.1 hran.2 hp⟩, ?_⟩
  · obtain ⟨hstatus, -⟩ := gate_report (hrequired input) hsatisfied
    obtain ⟨⟨first, hfirst⟩, -, hlast, -⟩ := report_passed hu hstatus
    obtain ⟨last, hran, -, -, hp⟩ := hlast first hfirst
    exact ⟨last, hran, hp⟩
  · intro runId status risks
    simp only [attachChangedFiles, sortTexts, List.mem_mergeSort, mem_unique, loopReport, List.nil_append,
      Except.toOption, Option.getD_some]
    exact hfile

end Covered

section Runs

variable {platform : Platform} {projects : List Project} {run : DelegatingRun} {event : TraceEvent}

/-- What the run knows of the subagents whose Task calls have ended. -/
structure Delegated (platform : Platform) (projects : List Project) (run : DelegatingRun) : Prop where
  changed : ∀ child ∈ run.children, child.ended ≠ none → ∀ file ∈ child.codeFiles platform,
    file ∈ extractChangedFilesFromEvents platform run.trace
  later : ∀ child ∈ run.children, ∀ place ∈ child.ended, child.codeFiles platform ≠ [] → ∀ outcome,
    Finished platform (knownByFingerprint platform (configuredVerificationCommands projects)) outcome run.trace →
    Unmutated run.trace outcome.eventIndex → outcome.status = .passed → place < outcome.eventIndex

theorem Delegated.covered (h : Delegated platform projects run) (hu : UniqueCallIds run.trace) :
    DelegatedCovered platform projects run := by
  intro child hchild place hplace file hfile
  have hended : child.ended ≠ none := by
    rw [Option.mem_def.mp hplace]
    nofun
  have hcode : isDocumentationFile platform file = false := by
    simpa using (List.mem_filter.mp hfile).2
  exact covered_of_changed hu (h.changed child hchild hended file hfile) hcode
    (h.later child hchild place hplace (List.ne_nil_of_mem hfile))

/-- An event of the run itself. -/
theorem Delegated.records (h : Delegated platform projects run)
    (he : ∀ outcome,
      Ends platform (knownByFingerprint platform (configuredVerificationCommands projects)) outcome run.trace event →
      outcome.status = .passed → Unmutated run.trace outcome.eventIndex →
      ∀ child ∈ run.children, ∀ place ∈ child.ended, child.codeFiles platform ≠ [] → place < outcome.eventIndex) :
    Delegated platform projects { run with trace := run.trace ++ [event] } := by
  constructor
  · intro child hchild hended file hfile
    exact changedFiles_append (h.changed child hchild hended file hfile)
  · intro child hchild place hplace hcode outcome hfinished hunmutated hpassed
    have hbefore := (unmutated_concat.mp hunmutated).1
    rcases finished_concat.mp hfinished with hfinished | hends
    · exact h.later child hchild place hplace hcode outcome hfinished hbefore hpassed
    · exact he outcome hends hpassed hbefore child hchild place hplace hcode

theorem toolName_taskPayload {stamp : Stamp} {callId title subRunId : String} {result : SubagentResult} :
    (stamp.event "tool_call.completed" (taskPayload callId title subRunId result)).toolName = some "Task" := rfl

theorem not_ends_task {known : Text → Option Text} {outcome : CommandOutcome} {trace : List TraceEvent}
    (ht : event.toolName = some "Task") : ¬Ends platform known outcome trace event := by
  have hclosed : closedTool event = none := by
    rw [closedTool, ht]
    split_ifs <;> rfl
  rintro (⟨start, hc, -⟩ | ⟨start, processId, hp, -⟩)
  · exact not_closes hclosed hc
  · have hpoll := (terminalPoll_some hp).2
    rw [ht] at hpoll
    exact absurd hpoll (by decide)

theorem delegated_next {step : DelegationStep} (ha : DelegationAllowed platform projects run step)
    (h : Delegated platform projects run) : Delegated platform projects (run.next platform step) := by
  cases step with
  | records event => exact h.records ha
  | spawns prompt =>
      constructor
      · intro child hchild hended
        rcases List.mem_append.mp hchild with hchild | hchild
        · exact h.changed child hchild hended
        · cases List.mem_singleton.mp hchild
          exact absurd rfl hended
      · intro child hchild place hplace
        rcases List.mem_append.mp hchild with hchild | hchild
        · exact h.later child hchild place hplace
        · cases List.mem_singleton.mp hchild
          cases hplace
  | childRecords i event =>
      have hold : ∀ child ∈ (run.next platform (.childRecords i event)).children, child.ended ≠ none →
          child ∈ run.children := by
        intro child hchild hended
        rcases mem_modify hchild with hchild | ⟨old, ho, rfl⟩
        · exact hchild
        · split_ifs at hended ⊢ with hnone
          · exact absurd (Option.isNone_iff_eq_none.mp hnone) hended
          · exact List.mem_of_getElem? ho
      constructor
      · intro child hchild hended
        exact h.changed child (hold child hchild hended) hended
      · intro child hchild place hplace
        have hended : child.ended ≠ none := by
          rw [Option.mem_def.mp hplace]
          nofun
        exact h.later child (hold child hchild hended) place hplace
  | ends i stamp callId title subRunId summary stalled =>
      rw [DelegatingRun.next, taskEvent]
      cases hi : run.children[i]? with
      | none => exact h
      | some child =>
          rw [Option.filter_some]
          split_ifs with hnone
          swap
          · exact h
          have hopen := Option.isNone_iff_eq_none.mp hnone
          dsimp only [Option.map_some]
          have hrecorded : Delegated platform projects { run with trace := run.trace ++
              [stamp.event "tool_call.completed"
                (taskPayload callId title subRunId (child.result platform summary stalled))] } :=
            h.records (fun outcome hends => absurd hends (not_ends_task toolName_taskPayload))
          constructor
          · intro other hother hended file hfile
            rcases mem_modify hother with hother | ⟨old, ho, rfl⟩
            · exact hrecorded.changed other hother hended file hfile
            · cases hi.symm.trans ho
              exact changedFiles_append ((ha child hi hopen (List.ne_nil_of_mem hfile)).1 file hfile)
          · intro other hother place hplace hcode outcome hfinished hunmutated hpassed
            rcases mem_modify hother with hother | ⟨old, ho, rfl⟩
            · exact hrecorded.later other hother place hplace hcode outcome hfinished hunmutated hpassed
            · cases hi.symm.trans ho
              rcases finished_concat.mp hfinished with hfinished | hends
              · have hunverified := (ha child hi hopen hcode).2
                exact absurd hpassed (hunverified outcome hfinished (unmutated_concat.mp hunmutated).1)
              · exact absurd hends (not_ends_task toolName_taskPayload)

end Runs

section Examples

def taskStamp : Stamp := ⟨"event", "run", "2026-07-18T00:00:00.000Z"⟩

/-- A subagent edits a file. -/
def delegatedEdit : List DelegationStep :=
  [.spawns "fix it".toList, .childRecords 0 (editOf "src/a.ts"),
    .ends 0 taskStamp "task" "fix" "child" "done".toList false]

/-- The run has edited the file itself, and a test passes after the Task call. -/
def verifiedDelegation : List DelegationStep :=
  .records (editOf "src/a.ts") :: delegatedEdit ++ (testRun "test" "a.test.ts" 0).map .records

theorem ends_of_collect {platform : Platform} {known : Text → Option Text} {trace : List TraceEvent}
    {event : TraceEvent} {place : Nat} (hu : UniqueCallIds (trace ++ [event]))
    (h : ∀ outcome ∈ (collect platform known (trace ++ [event])).outcomes, place < outcome.eventIndex) :
    ∀ outcome, Ends platform known outcome trace event → place < outcome.eventIndex :=
  fun outcome hends => h outcome (((paired_collect hu).outcomes outcome).mpr (finished_concat.mpr (Or.inr hends)))

end Examples

end Kross.Runtime

import Kross.Runtime.SubagentRunner
import Kross.Verification.Gate

namespace Kross.Runtime

open Kross.Json Kross.Mutation Kross.Session Kross.Trace Kross.Verification

section Loop

variable {platform : Platform} {locale : AppLocale} {tools : List String} {maxIterations : Nat}
  {complete : Nat → Except LoopError Turn} {softLand : Except LoopError Text}

/-- The events of a loop are its own ones, and those of the tools it has. -/
def Written (tools : List String) (event : TraceEvent) : Prop :=
  isLoopEvent event = true ∨ ∃ name ∈ tools, event.toolName = some name

theorem executed_written (calls : List LlmToolCall) :
    ∀ event ∈ (executeSequentialToolCalls tools calls).1, Written tools event := by
  induction calls with
  | nil => exact nofun
  | cons call rest ih =>
      intro event he
      rw [executeSequentialToolCalls] at he
      split_ifs at he with hin
      · have hrecorded (h : event ∈ call.recorded) : Written tools event :=
          Or.inr ⟨call.name, hin, of_decide_eq_true (List.mem_filter.mp h).2⟩
        split at he
        · exact hrecorded he
        · rcases List.mem_append.mp he with he | he
          · exact hrecorded he
          · exact ih event he
      · cases he

/-- The events of a loop are known, and it has not stalled unless it says so. -/
structure LoopSound (tools : List String) (result : LoopResult) : Prop where
  written : ∀ event ∈ result.trace, Written tools event
  progressed : ∀ summary, result.outcome = .ok (summary, false) → .stalled ∉ result.states

theorem rounds_sound (left : Nat) {state : LoopState} (h : ∀ event ∈ state.trace, Written tools event)
    (hs : .stalled ∉ state.states) :
    LoopSound tools (rounds platform locale tools maxIterations complete softLand left state) := by
  induction left generalizing state with
  | zero => exact ⟨h, fun _ _ => hs⟩
  | succ left ih =>
      cases hturn : complete state.iteration with
      | error error =>
          simp only [rounds, hturn]
          exact ⟨h, fun _ _ => hs⟩
      | ok turn =>
          have hnoted : ∀ event ∈ state.trace ++ turn.noted.filter isLoopEvent, Written tools event := by
            intro event he
            rcases List.mem_append.mp he with he | he
            · exact h event he
            · exact Or.inl (List.mem_filter.mp he).2
          have htrace : ∀ event ∈ state.trace ++ turn.noted.filter isLoopEvent ++
              (executeSequentialToolCalls tools turn.calls).1, Written tools event := by
            intro event he
            rcases List.mem_append.mp he with he | he
            · exact hnoted event he
            · exact executed_written turn.calls event he
          cases hcalls : turn.calls.isEmpty with
          | true =>
              simp only [rounds, hturn, hcalls, if_true]
              exact ⟨hnoted, fun _ _ => hs⟩
          | false =>
              cases hresults : (executeSequentialToolCalls tools turn.calls).2 with
              | error error =>
                  simp only [rounds, hturn, hcalls, hresults, Bool.false_eq_true, if_false]
                  exact ⟨htrace, fun _ _ => hs⟩
              | ok results =>
                  simp only [rounds, hturn, hcalls, hresults, Bool.false_eq_true, if_false]
                  split_ifs with hstalled
                  · exact ⟨htrace, (fun _ he => nomatch he)⟩
                  · refine ih htrace ?_
                    rw [List.mem_append, not_or, List.mem_singleton]
                    exact ⟨hs, Ne.symm hstalled⟩

theorem subagentLoop_sound (deps : SubagentRunDeps) (request : SubagentRunRequest) :
    LoopSound (toolDefs request.role request.mode deps.mutations)
      (subagentLoop platform locale deps request complete softLand) :=
  rounds_sound deps.maxToolIterations nofun nofun

end Loop

section Tools

variable {platform : Platform} {known : Text → Option Text} {tools : List String} {events : List TraceEvent}
  {event : TraceEvent}

theorem loopEvent_type (h : isLoopEvent event = true) :
    event.type ≠ "tool_call.started" ∧ isTerminal event = false := by
  have hin := of_decide_eq_true h
  have hnot : ∀ type ∈ ["llm.subagent.turn", "llm.subagent.completed", "llm.subagent.stall_recovery",
      "llm.subagent.stalled"], type ≠ "tool_call.started" ∧ type ≠ "tool_call.completed" ∧
        type ≠ "tool_call.failed" ∧ type ≠ "tool_call.cancelled" := by decide
  obtain ⟨h1, h2, h3, h4⟩ := hnot event.type hin
  exact ⟨h1, by simp [isTerminal, h2, h3, h4]⟩

/-- The report takes no notice of tools that run no commands. -/
theorem collect_quiet (hw : ∀ event ∈ events, Written tools event)
    (ht : ∀ name ∈ tools, CommandTool.ofName name = none ∧ name ≠ "ProcessPoll") :
    collect platform known events = .empty := by
  have hstep (event : TraceEvent) (i : Nat) (h : Written tools event) :
      Collected.step .empty platform known (event, i) = .empty := by
    simp only [Collected.step]
    rcases h with h | ⟨name, hin, hname⟩
    · obtain ⟨hs, hterminal⟩ := loopEvent_type h
      rw [if_neg hs, hterminal]
      rfl
    · obtain ⟨hof, hpoll⟩ := ht name hin
      have hstart : commandStartFromEvent platform event i known = none := by
        simp [commandStartFromEvent, hname, hof]
      have hnone : Collected.terminalPoll event = none := by
        simp [Collected.terminalPoll, hname, hpoll]
      simp only [hstart, hname, Option.bind_some, hof, hnone]
      split_ifs <;> rfl
  rw [collect]
  have hfold (entries : List (TraceEvent × Nat)) (h : ∀ entry ∈ entries, Written tools entry.1) :
      entries.foldl (fun collected entry => Collected.step collected platform known entry) .empty =
        Collected.empty := by
    induction entries with
    | nil => rfl
    | cons entry entries ih =>
        rw [List.foldl_cons, hstep entry.1 entry.2 (h entry List.mem_cons_self)]
        exact ih (fun e he => h e (List.mem_cons_of_mem _ he))
  exact hfold _ (fun entry he => hw entry.1 (List.fst_mem_of_mem_zipIdx he))

theorem findLast_unmutated (hw : ∀ event ∈ events, Written tools event)
    (ht : ∀ name ∈ tools, name ∉ MUTATING_FILE_TOOLS) : findLastFileMutationIndex events < 0 := by
  refine findLast_lt_iff (i := 0).mpr (fun j event _ he => ?_)
  rw [isCompletedFileMutationEvent]
  rcases hw event (List.mem_of_getElem? he) with h | ⟨name, hin, hname⟩
  · have hterminal := (loopEvent_type h).2
    rw [isTerminal, Bool.or_eq_false_iff, Bool.or_eq_false_iff] at hterminal
    rw [hterminal.1.1, Bool.false_and]
  · simp [mutatingTool, hname, ht name hin]

theorem toolDefs_quiet {role : SubagentRole} {mode : SubagentMode} {mutations : Bool} (h : role ≠ .validator) :
    ∀ name ∈ toolDefs role mode mutations, CommandTool.ofName name = none ∧ name ≠ "ProcessPoll" := by
  cases role <;> cases mode <;> cases mutations <;> first | exact absurd rfl h | decide

theorem toolDefs_validator (mode : SubagentMode) (mutations : Bool) :
    ∀ name ∈ toolDefs .validator mode mutations, name ∉ MUTATING_FILE_TOOLS := by
  cases mode <;> cases mutations <;> decide

end Tools

section Sound

variable (platform : Platform) (request : SubagentRunRequest) (loop : LoopResult)

/-- The ends of recognized checks that the run has seen, in order. -/
def checkOutcomes (events : List TraceEvent) : List CommandOutcome :=
  (collect platform (knownByFingerprint platform []) events).outcomes

/-- The ends of those that were started behind the last change of a file. -/
def freshOutcomes (events : List TraceEvent) : List CommandOutcome :=
  (collect platform (knownByFingerprint platform []) events).validOutcomes (findLastFileMutationIndex events)

def OnlyDocumentation (events : List TraceEvent) : Prop :=
  ∀ file ∈ extractChangedFilesFromEvents platform events, isDocumentationFile platform file = true

/-- What a run that is called completed has shown. -/
structure CompletionSound : Prop where
  progressed : .stalled ∉ loop.states
  unfailed : ∀ before outcome rest, checkOutcomes platform loop.trace = before ++ outcome :: rest →
    (∀ other ∈ rest, other.fingerprint ≠ outcome.fingerprint) → outcome.status ≠ .failed
  validated : request.role = .validator →
    (assessVerificationGate platform loop.trace
      { changedFiles := request.verificationChangedFiles }).satisfied = true ∧
    ∃ outcome ∈ freshOutcomes platform loop.trace, outcome.status = .passed
  verified : request.role ≠ .validator → OnlyDocumentation platform loop.trace ∨
    ∃ outcome ∈ freshOutcomes platform loop.trace, outcome.status = .passed

/-- The last end of an exact command is a failure, and one of another command
with the same label stands behind it. -/
def HiddenFailure (outcomes : List CommandOutcome) : Prop :=
  ∃ before outcome rest, outcomes = before ++ outcome :: rest ∧ outcome.status = .failed ∧
    (∀ other ∈ rest, other.fingerprint ≠ outcome.fingerprint) ∧ ∃ other ∈ rest, other.label = outcome.label

end Sound

section Completed

variable {platform : Platform} {locale : AppLocale} {deps : SubagentRunDeps} {request : SubagentRunRequest}
  {complete : Nat → Except LoopError Turn} {softLand : Except LoopError Text} {reading : TraceReading}
  {result : SubagentResult} {options : CollectVerificationReportOptions} {events : List TraceEvent}

theorem exists_passed (h : (collectVerificationReport platform events options).status = .passed) :
    ∃ outcome ∈ (collect platform (knownByFingerprint platform options.knownCommands) events).validOutcomes
      (findLastFileMutationIndex events), outcome.status = .passed := by
  obtain ⟨hne, -, -, hlatest⟩ := latest_passed h
  obtain ⟨outcome, ho⟩ := List.exists_mem_of_ne_nil _ hne
  obtain ⟨last, hget⟩ := exists_latestByLabel ho
  have hin := (mapGet_eq_some (latestByLabel_keys _)).mp hget
  exact ⟨last, mem_of_mem_latestByLabel hin, hlatest _ hin⟩

/-- Behind an outcome that did not pass stands one with its label. -/
theorem exists_later (h : (collectVerificationReport platform events options).status = .passed)
    {before rest : List CommandOutcome} {outcome : CommandOutcome}
    (ho : (collect platform (knownByFingerprint platform options.knownCommands) events).validOutcomes
      (findLastFileMutationIndex events) = before ++ outcome :: rest) (hs : outcome.status ≠ .passed) :
    ∃ other ∈ rest, other.label = outcome.label := by
  by_contra hno
  obtain ⟨-, -, -, hlatest⟩ := latest_passed h
  have hget : mapGet outcome.label (latestByLabel (before ++ outcome :: rest)) = some outcome :=
    mapGet_latestByLabel_append (fun other hother hl => hno ⟨other, hother, hl⟩)
  rw [ho] at hlatest
  exact hs (hlatest _ ((mapGet_eq_some (latestByLabel_keys _)).mp hget))

/-- A completed result comes from a loop that did not stall, and from evidence
that needs no review. -/
theorem completed_evidence (h : runSubagent platform locale deps request complete softLand reading = .ok result)
    (hc : result.status = .completed) :
    let loop := subagentLoop platform locale deps request complete softLand
    .stalled ∉ loop.states ∧ verificationNeedsReview platform request
      (readEvidence platform request (reading.readRun loop.trace)) = false := by
  intro loop
  rw [runSubagent] at h
  split_ifs at h
  · cases h
    cases hc
  · cases ho : loop.outcome with
    | error error =>
        simp only [loop] at ho
        simp only [ho] at h
        cases h
    | ok outcome =>
        obtain ⟨summary, stalled⟩ := outcome
        simp only [loop] at ho
        simp only [ho] at h
        cases h
        rw [subagentResult] at hc
        dsimp only at hc
        split_ifs at hc with hn
        rw [Bool.or_eq_true, not_or, Bool.not_eq_true, Bool.not_eq_true] at hn
        obtain ⟨rfl, hreview⟩ := hn
        exact ⟨(subagentLoop_sound deps request).progressed summary ho, hreview⟩

/-- The evidence of a validator is that of its gate. -/
theorem validator_passed (hv : request.role = .validator)
    (hn : verificationNeedsReview platform request
      (readEvidence platform request (reading.readRun events)) = false) :
    reading = .recorded ∧
      (assessVerificationGate platform events
        { changedFiles := request.verificationChangedFiles }).satisfied = true ∧
      (collectVerificationReport platform events
        { changedFiles := request.verificationChangedFiles }).status = .passed := by
  rw [verificationNeedsReview, hv] at hn
  simp only [decide_true, Bool.true_and, Bool.or_eq_false_iff, decide_eq_false_iff_not, ne_eq, not_not] at hn
  obtain ⟨⟨-, hpassed⟩, -⟩ := hn
  cases reading with
  | failed => cases hpassed
  | missing =>
      simp only [TraceReading.readRun, readEvidence, collectEvidence, hv, if_true, gateOverride] at hpassed
      split_ifs at hpassed
      obtain ⟨hne, -⟩ := latest_passed hpassed
      exact absurd rfl hne
  | recorded =>
      simp only [TraceReading.readRun, readEvidence, collectEvidence, verificationFiles, hv, if_true,
        gateOverride] at hpassed
      split_ifs at hpassed with hgate
      rw [not_and', Bool.not_eq_false] at hgate
      exact ⟨rfl, hgate hpassed, hpassed⟩

/-- A subagent without a tool for commands has changed documentation only, as
far as it can read its trace. -/
theorem worker_documentation (hv : request.role ≠ .validator)
    (hcollect : collect platform (knownByFingerprint platform []) events = .empty)
    (hn : verificationNeedsReview platform request
      (readEvidence platform request (TraceReading.recorded.readRun events)) = false) :
    OnlyDocumentation platform events := by
  have hnot : (collectVerificationReport platform events
      { changedFiles := extractChangedFilesFromEvents platform events }).status ≠ .passed := by
    intro hp
    obtain ⟨hne, -⟩ := latest_passed hp
    rw [hcollect] at hne
    exact absurd rfl hne
  simp only [verificationNeedsReview, TraceReading.readRun, readEvidence, collectEvidence, verificationFiles,
    if_neg hv, Bool.or_eq_false_iff, Bool.and_eq_false_iff, decide_eq_false_iff_not, ne_eq, not_not] at hn
  obtain ⟨-, hrequires | hp⟩ := hn
  · intro file hfile
    rw [requiresVerificationForFiles, Bool.and_eq_false_iff] at hrequires
    rcases hrequires with hnil | hall
    · rw [decide_eq_false_iff_not, ne_eq, not_not] at hnil
      rw [hnil] at hfile
      cases hfile
    · rw [Bool.not_eq_false', List.all_eq_true] at hall
      exact hall file hfile
  · exact absurd hp hnot

end Completed

section Examples

def agentDeps : SubagentRunDeps := { hasClient := true, mutations := true }

def generalTask : SubagentRunRequest := { prompt := "fix it".toList, mode := .general }

/-- The model edits `src/a.ts`, and then answers. -/
def editsCode : Nat → Except LoopError Turn
  | 1 => .ok ⟨[], [⟨"Edit", .obj .nil, [editOf "src/a.ts"], .ok "replaced".toList⟩], []⟩
  | _ => .ok ⟨"done".toList, [], []⟩

def answers : Nat → Except LoopError Turn := fun _ => .ok ⟨"done".toList, [], []⟩

end Examples

end Kross.Runtime

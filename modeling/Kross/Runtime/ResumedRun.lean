import Kross.Runtime.RunGate
import Kross.Trace.TraceComplete
import Kross.Verification.Gate

namespace Kross.Runtime

open Kross.Json Kross.Run Kross.Trace Kross.Verification

variable {datetime : String → Bool} {store : SessionTraceStore} {runId : String} {steps : List StoreStep}

/-- A run whose events one process writes is read back as a whole, and so the
gate and the final report see all that it did. -/
theorem resumed_run_complete
    (h : Along (Archive.next datetime) (StoreAllowed datetime store.workspaceKey runId) .empty steps) :
    store.readRun datetime (after (Archive.next datetime) .empty steps) runId =
      .ok (eventsOf datetime store.workspaceKey runId steps) ∧
    ∀ platform projects input,
      assessRunVerificationGate platform projects
          (store.readRun datetime (after (Archive.next datetime) .empty steps) runId) input =
        assessVerificationGate platform (eventsOf datetime store.workspaceKey runId steps) {
          changedFiles :=
            extractChangedFilesFromEvents platform (eventsOf datetime store.workspaceKey runId steps)
          knownCommands := configuredVerificationCommands projects
          requestedCommand := identifyRequestedVerificationCommand platform input } := by
  have hread := readRun_complete h
  refine ⟨hread, fun platform projects input => ?_⟩
  rw [hread]
  rfl

section Examples

def firstStore : SessionTraceStore := .create "project-1a2b3c4d" "2026-07-18T00:00:00.000Z" "aaaa"
def secondStore : SessionTraceStore := .create "project-1a2b3c4d" "2026-07-18T01:00:00.000Z" "bbbb"

def suspended : TraceEvent :=
  ⟨"first", "run", "tool_call.completed", "2026-07-18T00:00:00.000Z", none,
    Fields.ofList [("toolName", .str "Edit"), ("callId", .str "edit"),
      ("input", .obj (Fields.ofList [("path", .str "src/a.ts")]))]⟩

def resumed : TraceEvent :=
  ⟨"second", "run", "run.resumed", "2026-07-18T01:00:00.000Z", none, .nil⟩

/-- One process changes a file, and the next one goes on with the run. -/
def acrossRestart : List StoreStep :=
  [.opens 0, .append firstStore suspended 0, .opens 3600000, .append secondStore resumed 3600000]

def withinProcess : List StoreStep :=
  [.opens 0, .append firstStore suspended 0, .append firstStore resumed 3600000]

theorem withinProcess_allowed : Along (Archive.next (fun _ => true))
    (StoreAllowed (fun _ => true) firstStore.workspaceKey "run") .empty withinProcess := by
  refine along_cons.mpr ⟨⟨(fun _ he => nomatch he), (fun _ he => nomatch he), (fun _ _ _ _ _ he => nomatch he),
    (fun _ _ _ _ he => nomatch he)⟩, along_cons.mpr ⟨⟨?_, ?_, (fun _ _ _ _ _ he => nomatch he),
    (fun _ _ _ he => nomatch he)⟩, along_cons.mpr ⟨⟨?_, ?_, (fun _ _ _ _ _ he => nomatch he),
    (fun _ _ _ he => nomatch he)⟩, along_nil⟩⟩⟩
  · rintro _ ⟨⟩ -
    rfl
  · rintro _ ⟨⟩ - name -
    rfl
  · rintro _ ⟨⟩ -
    decide +kernel
  · rintro _ ⟨⟩ - name hname
    rw [append_files (fun he => hname (congrArg Prod.snd he))]
    rfl

theorem resumed_run_complete_withinProcess :
    Along (Archive.next (fun _ => true))
      (StoreAllowed (fun _ => true) firstStore.workspaceKey "run") .empty withinProcess ∧
    firstStore.readRun (fun _ => true) (after (Archive.next (fun _ => true)) .empty withinProcess) "run" =
      .ok (eventsOf (fun _ => true) firstStore.workspaceKey "run" withinProcess) :=
  ⟨withinProcess_allowed, (resumed_run_complete withinProcess_allowed).1⟩

theorem change_forgotten :
    ((secondStore.readRun (fun _ => true) (after (Archive.next (fun _ => true)) .empty acrossRestart)
      "run").toOption.map (fun events => events.map TraceEvent.id)) = some ["second"] ∧
    (eventsOf (fun _ => true) "project-1a2b3c4d" "run" acrossRestart).map TraceEvent.id =
      ["first", "second"] ∧
    (assessRunVerificationGate plainPlatform []
      (secondStore.readRun (fun _ => true) (after (Archive.next (fun _ => true)) .empty acrossRestart) "run")
      []).required = false ∧
    requiresVerificationForFiles plainPlatform (extractChangedFilesFromEvents plainPlatform
      (eventsOf (fun _ => true) "project-1a2b3c4d" "run" acrossRestart)) = true := by
  decide +kernel

end Examples

end Kross.Runtime

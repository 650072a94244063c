import Kross.Run
import Kross.Runtime.ConductorExecution

namespace Kross.Runtime

open Kross.DepthFirst Kross.Run Kross.Verification

abbrev Outcomes := String → Option ConductorTaskOutcome

/-- A start of a worker, with the outcomes that were recorded by then. -/
structure WorkerStart where
  task : ConductorTask
  outcomes : Outcomes

inductive SchedulePhase
  | waiting
  | ended
  | aborted
  deriving DecidableEq

structure Schedule where
  outcomes : Outcomes
  pending : List ConductorTask
  running : List ConductorTask
  started : List WorkerStart
  phase : SchedulePhase

def Schedule.initial (tasks : List ConductorTask) : Schedule := ⟨fun _ => none, tasks, [], [], .waiting⟩

section Loop

def failedDependency (outcomes : Outcomes) (task : ConductorTask) : Option String :=
  (task.dependencies.find? (fun dependency =>
    (outcomes dependency).any (fun outcome => !dependencyOutcomeSucceeded outcome))).filter (· ≠ "")

def blockedMessage (dependency : String) (task : ConductorTask) : Text :=
  "依赖任务 ".toList ++ dependency.toList ++ " 未成功，已跳过 ".toList ++ task.id.toList

def dropTask (task : ConductorTask) (tasks : List ConductorTask) : List ConductorTask :=
  tasks.filter (·.id ≠ task.id)

def blockTask (schedule : Schedule) (task : ConductorTask) : Schedule :=
  match failedDependency schedule.outcomes task with
  | none => schedule
  | some dependency =>
      { schedule with
        outcomes := Function.update schedule.outcomes task.id
          (some (failedWorkerOutcome task (blockedMessage dependency task)))
        pending := dropTask task schedule.pending }

/-- One pass over the tasks that are pending when it begins. -/
def blockPending (schedule : Schedule) : Schedule := schedule.pending.foldl blockTask schedule

def readyTask (outcomes : Outcomes) (task : ConductorTask) : Bool :=
  task.dependencies.all (fun dependency => (outcomes dependency).isSome)

def startTask (schedule : Schedule) (task : ConductorTask) : Schedule :=
  { schedule with
    pending := dropTask task schedule.pending
    running := schedule.running ++ [task]
    started := schedule.started ++ [⟨task, schedule.outcomes⟩] }

/-- As many workers as there is room for. -/
def startWorkers : Nat → Schedule → Schedule
  | 0, schedule => schedule
  | room + 1, schedule => match schedule.pending.find? (readyTask schedule.outcomes) with
    | none => schedule
    | some task => startWorkers room (startTask schedule task)

def giveUp (schedule : Schedule) : Schedule :=
  { schedule with
    outcomes := schedule.pending.foldl (fun outcomes task =>
      Function.update outcomes task.id (some (failedWorkerOutcome task "任务依赖图无法继续调度".toList)))
      schedule.outcomes
    pending := []
    phase := .ended }

/-- A round of the loop up to the race of the running workers. `signal` is whether
the abort signal is set when the round begins. -/
def turn (signal : Bool) (schedule : Schedule) : Schedule :=
  if schedule.pending = [] ∧ schedule.running = [] then { schedule with phase := .ended }
  else if signal then { schedule with phase := .aborted }
  else
    let blocked := blockPending schedule
    let started := startWorkers (CONDUCTOR_MAX_CONCURRENCY - blocked.running.length) blocked
    if started.running = [] then giveUp started else started

/-- A worker wins the race. -/
structure Settlement where
  id : String
  run : WorkerRun
  signal : Bool := false

def settle (schedule : Schedule) (task : ConductorTask) (outcome : ConductorTaskOutcome) : Schedule :=
  { schedule with
    outcomes := Function.update schedule.outcomes task.id (some outcome)
    running := dropTask task schedule.running }

def Schedule.next (seniorClient : Bool) (schedule : Schedule) (settlement : Settlement) : Schedule :=
  match schedule.phase, schedule.running.find? (·.id = settlement.id) with
  | .waiting, some task =>
      let completed := executeConductorWorker seniorClient task settlement.run
      if completed.aborted then { schedule with running := dropTask task schedule.running, phase := .aborted }
      else turn settlement.signal (settle schedule task completed.outcome)
  | _, _ => schedule

def taskOutcomes (tasks : List ConductorTask) (schedule : Schedule) : List ConductorTaskOutcome :=
  tasks.map (fun task =>
    (schedule.outcomes task.id).getD (failedWorkerOutcome task "任务未产生执行结果".toList))

end Loop

section Hangs

/-- A task is skipped in the pass that first sees a task fail. -/
inductive Hangs (tasks : List ConductorTask) (failed : String) : ConductorTask → Prop
  | direct (task : ConductorTask) (hmem : task ∈ tasks) (hdependency : failed ∈ task.dependencies) :
      Hangs tasks failed task
  | later (skipped task : ConductorTask) (hskipped : Hangs tasks failed skipped)
      (horder : [skipped, task].Sublist tasks) (hdependency : skipped.id ∈ task.dependencies) :
      Hangs tasks failed task

/-- Whatever task fails, the pass that sees it skips every task that depends on one
that it skips. -/
def Settles (tasks : List ConductorTask) : Prop :=
  ∀ failed skipped task, Hangs tasks failed skipped → task ∈ tasks → skipped.id ∈ task.dependencies →
    Hangs tasks failed task

variable {tasks : List ConductorTask} {failed : String} {task : ConductorTask}

theorem Hangs.mem (h : Hangs tasks failed task) : task ∈ tasks := by
  cases h with
  | direct _ hmem _ => exact hmem
  | later skipped _ hskipped horder _ =>
      exact horder.subset (List.mem_cons_of_mem skipped List.mem_cons_self)

/-- A plan that lists every task behind the tasks it depends on settles. -/
theorem settles_of_topological (h : ∀ skipped ∈ tasks, ∀ task ∈ tasks,
    skipped.id ∈ task.dependencies → [skipped, task].Sublist tasks) : Settles tasks :=
  fun _ skipped task hskipped ht hd => .later skipped task hskipped (h skipped hskipped.mem task ht hd) hd

end Hangs

section Named

variable {tasks : List ConductorTask} {schedule : Schedule} {task : ConductorTask} {outcome : ConductorTaskOutcome}
  {seniorClient signal : Bool}

variable (tasks) in
/-- What is known of a task is known of a task of the plan. -/
structure Named (schedule : Schedule) : Prop where
  pending : ∀ task ∈ schedule.pending, task ∈ tasks
  running : ∀ task ∈ schedule.running, task ∈ tasks
  ofTask : ∀ task ∈ tasks, ∀ outcome, schedule.outcomes task.id = some outcome → outcome.IsOf task

theorem mem_dropTask {other : ConductorTask} {l : List ConductorTask} :
    task ∈ dropTask other l ↔ task ∈ l ∧ task.id ≠ other.id := by
  simp [dropTask]

theorem Named.record (hwell : WellFormed tasks) (h : Named tasks schedule) (ht : task ∈ tasks)
    (hof : outcome.IsOf task) :
    ∀ other ∈ tasks, ∀ found, Function.update schedule.outcomes task.id (some outcome) other.id = some found →
      found.IsOf other := by
  intro other ho found hfound
  by_cases hid : other.id = task.id
  · obtain rfl := hwell.inj ho ht hid
    rw [Function.update_self] at hfound
    exact Option.some.inj hfound ▸ hof
  · rw [Function.update_of_ne hid] at hfound
    exact h.ofTask other ho found hfound

theorem Named.blockTask (hwell : WellFormed tasks) (h : Named tasks schedule) (ht : task ∈ tasks) :
    Named tasks (blockTask schedule task) := by
  rw [Kross.Runtime.blockTask]
  split
  next => exact h
  next dependency hfailed =>
    exact ⟨fun other ho => h.pending other (mem_dropTask.mp ho).1, h.running,
      h.record hwell ht (failedWorkerOutcome_isOf task _)⟩

theorem Named.blockPending (hwell : WellFormed tasks) (h : Named tasks schedule) :
    Named tasks (blockPending schedule) := by
  have hfold : ∀ l : List ConductorTask, (∀ task ∈ l, task ∈ tasks) → ∀ schedule, Named tasks schedule →
      Named tasks (l.foldl Kross.Runtime.blockTask schedule) := by
    intro l hl
    induction l with
    | nil => exact fun _ h => h
    | cons task l ih =>
        intro schedule h
        exact ih (fun other ho => hl other (List.mem_cons_of_mem task ho)) _
          (h.blockTask hwell (hl task List.mem_cons_self))
  exact hfold schedule.pending h.pending schedule h

theorem Named.startWorkers (h : Named tasks schedule) (room : Nat) : Named tasks (startWorkers room schedule) := by
  induction room generalizing schedule with
  | zero => exact h
  | succ room ih =>
      rw [Kross.Runtime.startWorkers]
      split
      next => exact h
      next task hfind =>
        have ht := h.pending task (List.mem_of_find?_eq_some hfind)
        exact ih ⟨fun other ho => h.pending other (mem_dropTask.mp ho).1,
          List.forall_mem_append.mpr ⟨h.running, List.forall_mem_singleton.mpr ht⟩, h.ofTask⟩

theorem Named.giveUp (hwell : WellFormed tasks) (h : Named tasks schedule) : Named tasks (giveUp schedule) := by
  have hfold : ∀ l : List ConductorTask, (∀ task ∈ l, task ∈ tasks) → ∀ outcomes : Outcomes,
      (∀ task ∈ tasks, ∀ outcome, outcomes task.id = some outcome → outcome.IsOf task) →
      ∀ task ∈ tasks, ∀ outcome, (l.foldl (fun (outcomes : Outcomes) task => Function.update outcomes task.id
        (some (failedWorkerOutcome task "任务依赖图无法继续调度".toList))) outcomes) task.id = some outcome →
        outcome.IsOf task := by
    intro l hl
    induction l with
    | nil => exact fun _ h => h
    | cons task l ih =>
        intro outcomes houtcomes
        have hnamed : Named tasks { schedule with outcomes := outcomes } := ⟨h.pending, h.running, houtcomes⟩
        exact ih (fun other ho => hl other (List.mem_cons_of_mem task ho)) _
          (hnamed.record hwell (hl task List.mem_cons_self) (failedWorkerOutcome_isOf task _))
  exact ⟨nofun, h.running, hfold schedule.pending h.pending schedule.outcomes h.ofTask⟩

theorem Named.turn (hwell : WellFormed tasks) (h : Named tasks schedule) : Named tasks (turn signal schedule) := by
  have hstarted := (h.blockPending hwell).startWorkers
    (CONDUCTOR_MAX_CONCURRENCY - (Kross.Runtime.blockPending schedule).running.length)
  rw [Kross.Runtime.turn]
  split_ifs
  · exact ⟨h.pending, h.running, h.ofTask⟩
  · exact ⟨h.pending, h.running, h.ofTask⟩
  · dsimp only
    split_ifs
    · exact hstarted.giveUp hwell
    · exact hstarted

theorem Named.next (hwell : WellFormed tasks) (h : Named tasks schedule) (settlement : Settlement) :
    Named tasks (schedule.next seniorClient settlement) := by
  rw [Schedule.next]
  split
  next task hwaiting hfind =>
    have ht := h.running task (List.mem_of_find?_eq_some hfind)
    have hrunning : ∀ other ∈ dropTask task schedule.running, other ∈ tasks :=
      fun other ho => h.running other (mem_dropTask.mp ho).1
    dsimp only
    split_ifs
    · exact ⟨h.pending, hrunning, h.ofTask⟩
    · refine Named.turn hwell ⟨h.pending, hrunning, ?_⟩
      exact h.record hwell ht (executeConductorWorker_isOf seniorClient task settlement.run)
  next => exact h

theorem conductor_named (hwell : WellFormed tasks) (settlements : List Settlement) :
    Named tasks (after (Schedule.next seniorClient) (turn signal (.initial tasks)) settlements) := by
  refine keeps (I := Named tasks) (fun _ settlement h => h.next hwell settlement) ?_ settlements
  exact Named.turn hwell ⟨fun _ ht => ht, nofun, fun _ _ _ ho => (by cases ho)⟩

/-- The outcomes are those of the tasks, in the order of the plan. -/
theorem Named.taskOutcomes (h : Named tasks schedule) :
    List.Forall₂ ConductorTaskOutcome.IsOf (taskOutcomes tasks schedule) tasks := by
  rw [Kross.Runtime.taskOutcomes, List.forall₂_map_left_iff, List.forall₂_same]
  intro task ht
  cases ho : schedule.outcomes task.id with
  | none => exact failedWorkerOutcome_isOf task _
  | some outcome => exact h.ofTask task ht outcome ho

end Named

end Kross.Runtime

import Kross.DepthFirst
import Kross.Runtime.SubagentRunner
import Kross.Session.Title
import Mathlib.Data.List.Zip

namespace Kross.Runtime

open Kross.DepthFirst

structure ConductorTask where
  id : String
  title : List Char
  prompt : List Char
  dependsOn : Option (List String) := none
  repoId : Option String := none
  modelProfileId : Option (List Char) := none
  deriving DecidableEq

structure ConductorTaskPlan where
  goal : List Char
  tasks : List ConductorTask
  notes : Option (List Char) := none

/-- `task.dependsOn ?? []`. -/
def ConductorTask.dependencies (task : ConductorTask) : List String := task.dependsOn.getD []

inductive PathItem
  | key (name : String)
  | index (n : Nat)
  deriving DecidableEq

structure Issue where
  path : List PathItem
  message : String
  deriving DecidableEq

section Schema

def stringTooShort : String := "String must contain at least 1 character(s)"

def arrayTooShort : String := "Array must contain at least 1 element(s)"

def issueIf (failed : Bool) (path : List PathItem) (message : String) : List Issue :=
  if failed then [⟨path, message⟩] else []

def fieldIssues (path : List PathItem) (task : ConductorTask) : List Issue :=
  issueIf (task.id = "") (path ++ [.key "id"]) stringTooShort ++
  issueIf (task.title = []) (path ++ [.key "title"]) stringTooShort ++
  issueIf (task.prompt = []) (path ++ [.key "prompt"]) stringTooShort ++
  task.dependencies.zipIdx.flatMap (fun (dependency, index) =>
    issueIf (dependency = "") (path ++ [.key "dependsOn", .index index]) stringTooShort) ++
  issueIf (task.repoId = some "") (path ++ [.key "repoId"]) stringTooShort ++
  issueIf (task.modelProfileId.any (fun id => Session.trim id = [])) (path ++ [.key "modelProfileId"])
    stringTooShort

def duplicateIssues (tasks : List ConductorTask) : List Issue :=
  tasks.zipIdx.flatMap (fun (task, index) =>
    issueIf (task.id ∈ (tasks.take index).map ConductorTask.id) [.key "tasks", .index index, .key "id"]
      ("Duplicate conductor task id: " ++ task.id))

def dependencyMessage (task : ConductorTask) (dependency : String) : String :=
  if dependency = task.id then "Task " ++ task.id ++ " cannot depend on itself"
  else "Unknown conductor task dependency: " ++ dependency

def dependencyIssues (tasks : List ConductorTask) : List Issue :=
  tasks.zipIdx.flatMap (fun (task, index) => task.dependencies.flatMap (fun dependency =>
    issueIf (dependency = task.id || dependency ∉ tasks.map ConductorTask.id)
      [.key "tasks", .index index, .key "dependsOn"] (dependencyMessage task dependency)))

/-- Of two tasks with one id the map keeps the later one. -/
def taskById (tasks : List ConductorTask) (id : String) : Option ConductorTask :=
  tasks.reverse.find? (·.id = id)

def knownDependencies (tasks : List ConductorTask) (id : String) : List String :=
  (((taskById tasks id).map ConductorTask.dependencies).getD []).filter
    (fun dependency => (taskById tasks dependency).isSome)

def hasDependencyCycle (tasks : List ConductorTask) : Bool :=
  hasCycle (knownDependencies tasks) (tasks.map ConductorTask.id)

def conductorTaskPlanIssues (plan : ConductorTaskPlan) : List Issue :=
  issueIf (plan.goal = []) [.key "goal"] stringTooShort ++
  plan.tasks.zipIdx.flatMap (fun (task, index) => fieldIssues [.key "tasks", .index index] task) ++
  issueIf (plan.tasks = []) [.key "tasks"] arrayTooShort ++
  duplicateIssues plan.tasks ++ dependencyIssues plan.tasks ++
  issueIf (hasDependencyCycle plan.tasks) [.key "tasks"] "Conductor task dependencies must be acyclic"

def ConductorTaskPlan.accepted (plan : ConductorTaskPlan) : Bool := conductorTaskPlanIssues plan = []

end Schema

section Accepted

variable {tasks : List ConductorTask} {plan : ConductorTaskPlan} {task other : ConductorTask}
  {id dependency : String}

theorem issueIf_eq_nil {failed : Bool} {path : List PathItem} {message : String} :
    issueIf failed path message = [] ↔ failed = false := by
  cases failed <;> simp [issueIf]

theorem exists_mem_zipIdx {α : Type*} {a : α} {l : List α} (h : a ∈ l) : ∃ index, (a, index) ∈ l.zipIdx := by
  obtain ⟨index, hindex⟩ := List.mem_iff_getElem?.mp h
  exact ⟨index, List.mem_zipIdx_iff_getElem?.mpr hindex⟩

theorem nodup_of_duplicateIssues (h : duplicateIssues tasks = []) : (tasks.map ConductorTask.id).Nodup := by
  rw [List.Nodup, List.pairwise_iff_getElem]
  intro i j hi hj hij heq
  rw [List.length_map] at hi hj
  have hmem : (tasks[j], j) ∈ tasks.zipIdx :=
    List.mem_zipIdx_iff_getElem?.mpr (List.getElem?_eq_getElem hj)
  have hissue := issueIf_eq_nil.mp (List.flatMap_eq_nil_iff.mp h _ hmem)
  rw [decide_eq_false_iff_not] at hissue
  apply hissue
  rw [List.getElem_map, List.getElem_map] at heq
  rw [← heq]
  exact List.mem_map_of_mem (List.mem_take_iff_getElem.mpr ⟨i, by omega, rfl⟩)

theorem known_of_dependencyIssues (h : dependencyIssues tasks = []) (ht : task ∈ tasks)
    (hd : dependency ∈ task.dependencies) :
    dependency ≠ task.id ∧ dependency ∈ tasks.map ConductorTask.id := by
  obtain ⟨index, hindex⟩ := exists_mem_zipIdx ht
  have hmem := List.flatMap_eq_nil_iff.mp h _ hindex
  have hissue := issueIf_eq_nil.mp (List.flatMap_eq_nil_iff.mp hmem _ hd)
  simpa using hissue

theorem taskById_eq (hnodup : (tasks.map ConductorTask.id).Nodup) (ht : task ∈ tasks) :
    taskById tasks task.id = some task := by
  obtain ⟨found, hfound⟩ := Option.isSome_iff_exists.mp
    (List.find?_isSome (p := fun other : ConductorTask => decide (other.id = task.id)).mpr
      ⟨task, List.mem_reverse.mpr ht, decide_eq_true rfl⟩)
  have hid : found.id = task.id := by simpa using List.find?_some hfound
  have hmem : found ∈ tasks := List.mem_reverse.mp (List.mem_of_find?_eq_some hfound)
  rw [taskById, hfound, List.inj_on_of_nodup_map hnodup hmem ht hid]

theorem taskById_isSome : (taskById tasks id).isSome ↔ id ∈ tasks.map ConductorTask.id := by
  simp [taskById, List.find?_isSome, List.mem_map]

theorem mem_knownDependencies (h : dependency ∈ knownDependencies tasks id) :
    dependency ∈ tasks.map ConductorTask.id :=
  taskById_isSome.mp (List.mem_filter.mp h).2

/-- What the scheduler relies on of a plan. -/
structure WellFormed (tasks : List ConductorTask) : Prop where
  nodup : (tasks.map ConductorTask.id).Nodup
  known : ∀ task ∈ tasks, ∀ dependency ∈ task.dependencies,
    dependency ≠ "" ∧ dependency ≠ task.id ∧ dependency ∈ tasks.map ConductorTask.id
  ends : ∀ task ∈ tasks, Ends (knownDependencies tasks) task.id

theorem nonempty_of_fieldIssues {path : List PathItem} (h : fieldIssues path task = [])
    (hd : dependency ∈ task.dependencies) : dependency ≠ "" := by
  simp only [fieldIssues, List.append_eq_nil_iff] at h
  obtain ⟨index, hindex⟩ := exists_mem_zipIdx hd
  have hissue := List.flatMap_eq_nil_iff.mp h.1.1.2 _ hindex
  simpa using issueIf_eq_nil.mp hissue

theorem wellFormed_of_accepted (h : plan.accepted) : WellFormed plan.tasks := by
  have hnil : conductorTaskPlanIssues plan = [] := of_decide_eq_true h
  simp only [conductorTaskPlanIssues, List.append_eq_nil_iff] at hnil
  obtain ⟨⟨⟨⟨⟨-, hfields⟩, -⟩, hduplicate⟩, hdependency⟩, hcycle⟩ := hnil
  refine ⟨nodup_of_duplicateIssues hduplicate, fun task ht dependency hd => ⟨?_, ?_⟩, fun task ht => ?_⟩
  · obtain ⟨index, hindex⟩ := exists_mem_zipIdx ht
    have hmem := List.flatMap_eq_nil_iff.mp hfields _ hindex
    exact nonempty_of_fieldIssues hmem hd
  · exact known_of_dependencyIssues hdependency ht hd
  · exact (hasCycle_eq_false_iff (fun _ _ _ hb => mem_knownDependencies hb)).mp
      (issueIf_eq_nil.mp hcycle) task.id (List.mem_map_of_mem ht)

theorem WellFormed.mem_knownDependencies_iff (h : WellFormed tasks) (ht : task ∈ tasks) :
    dependency ∈ knownDependencies tasks task.id ↔ dependency ∈ task.dependencies := by
  rw [knownDependencies, taskById_eq h.nodup ht, List.mem_filter]
  exact ⟨And.left, fun hd => ⟨hd, taskById_isSome.mpr (h.known task ht dependency hd).2.2⟩⟩

theorem WellFormed.inj (h : WellFormed tasks) (ht : task ∈ tasks) (ho : other ∈ tasks)
    (hid : task.id = other.id) : task = other := List.inj_on_of_nodup_map h.nodup ht ho hid

end Accepted

open Kross.Json Kross.Session Kross.Verification

def CONDUCTOR_MAX_CONCURRENCY : Nat := 3

def CONDUCTOR_WORKER_MAX_ATTEMPTS : Nat := 2

inductive Recovery
  | retry
  | replan
  deriving DecidableEq

structure ConductorTaskOutcome where
  taskId : String
  title : Text
  repoId : Option String
  status : SubagentStatus
  summary : Text
  changedFiles : List Text
  evidence : List Text
  risks : List Text
  needsReview : List Text
  verification : VerificationReport
  attempts : Option Nat := none
  recovery : Option Recovery := none
  executionIncomplete : Option Bool := none
  retrySafe : Option Bool := none
  deriving DecidableEq

section Failed

def failedWorkerVerification (message : Text) : VerificationReport :=
  ⟨.notRun, [], [], some ("Worker failed before verification completed: ".toList ++ message)⟩

def failedWorkerOutcome (task : ConductorTask) (message : Text) : ConductorTaskOutcome where
  taskId := task.id
  title := task.title
  repoId := task.repoId
  status := .failed
  summary := message
  changedFiles := []
  evidence := []
  risks := [message]
  needsReview := ["Worker execution failed before producing a usable result.".toList]
  verification := failedWorkerVerification message
  executionIncomplete := some true
  retrySafe := some false

def dependencyOutcomeSucceeded (outcome : ConductorTaskOutcome) : Bool :=
  (outcome.status = .completed && outcome.verification.status ≠ .failed) ||
    (outcome.status = .needsReview && outcome.executionIncomplete ≠ some true &&
      outcome.verification.status ≠ .failed && outcome.changedFiles ≠ [])

@[simp] theorem failedWorkerOutcome_not_succeeded (task : ConductorTask) (message : Text) :
    dependencyOutcomeSucceeded (failedWorkerOutcome task message) = false := rfl

end Failed

section Replan

/-- The text behind the first fence that is closed again, or the whole text:
what `/```(?:json)?\s*([\s\S]*?)```/i` captures. -/
def closedFence : Text → Option Text
  | [] => none
  | c :: s => if ['\x60', '\x60'].isPrefixOf s ∧ c = '\x60' then
        let body := s.drop 2
        let body := if (body.take 4).map Char.toLower = "json".toList then body.drop 4 else body
        let body := body.dropWhile isWhitespace
        match closeFence body with
        | some inside => some inside
        | none => closedFence s
      else closedFence s
where
  closeFence : Text → Option Text
    | [] => none
    | c :: s => if ['\x60', '\x60', '\x60'].isPrefixOf (c :: s) then some []
        else (closeFence s).map (c :: ·)

def textOf : Option Value → Option Text
  | some (.str s) => some s.toList
  | _ => none

def conductorTaskSchema (task : ConductorTask) : Option ConductorTask :=
  if fieldIssues [] task = [] then some { task with modelProfileId := task.modelProfileId.map trim } else none

def parseReplannedConductorTask (original : ConductorTask) (text : Text) : Option ConductorTask :=
  let trimmed := trim text
  match parse (trim ((closedFence trimmed).getD trimmed)) with
  | some (.obj raw) => do
      let prompt ← (textOf (raw.get "prompt")).filter (fun prompt => trim prompt ≠ [])
      let title := (textOf (raw.get "title")).filter (fun title => trim title ≠ [])
      conductorTaskSchema { original with
        title := (title.map (fun title => slice (trim title) 120)).getD original.title
        prompt := trim prompt }
  | _ => none

end Replan

section Worker

/-- What a call of `runSubagent` comes to. -/
inductive Spawned
  | result (result : SubagentResult)
  | thrown (message : Text)
  | aborted

inductive Replanned
  | response (text : Text)
  | thrown (message : Text)
  | aborted

/-- The environment of a worker: what each attempt comes to with its prompt, and
what the senior model says to the failures. -/
structure WorkerRun where
  attempt : Nat → Text → Spawned
  replan : Text → Replanned

structure WorkerExecutionCompletion where
  task : ConductorTask
  outcome : ConductorTaskOutcome
  aborted : Bool

def unfinishedRisk : Regex :=
  Regex.choice [Regex.word "尚未完成".toList, Regex.word "stalled".toList, Regex.word "阻塞".toList]

def unfinishedReview : Regex := .alt (Regex.word "阻塞证据".toList) (Regex.word "stalled".toList)

def attemptPrompt (task : ConductorTask) (recovery : Option Recovery) (history : List Text) : Text :=
  match recovery, history.getLast? with
  | some .retry, some last => task.prompt ++ "\n\nConductor retry context:\n".toList ++ last ++
      "\nDo not repeat the same failed approach.".toList
  | _, _ => task.prompt

def attemptOutcome (original task : ConductorTask) (history : List Text) (attempt : Nat)
    (recovery : Option Recovery) (result : SubagentResult) : ConductorTaskOutcome where
  taskId := original.id
  title := task.title
  repoId := original.repoId
  status := result.status
  summary := result.summary
  changedFiles := result.changedFiles
  evidence := result.evidence ++ history
  risks := result.risks
  needsReview := result.needsReview
  verification := result.verification
  attempts := some attempt
  recovery
  retrySafe := some (result.changedFiles = [])
  executionIncomplete := some (result.status = .needsReview &&
    (result.risks.any unfinishedRisk.test || result.needsReview.any unfinishedReview.test))

/-- Nothing comes of an attempt that is aborted. -/
def runAttempt (original : ConductorTask) (run : WorkerRun) (history : List Text) (task : ConductorTask)
    (attempt : Nat) (recovery : Option Recovery) : Option ConductorTaskOutcome :=
  match run.attempt attempt (attemptPrompt task recovery history) with
  | .result result => some (attemptOutcome original task history attempt recovery result)
  | .thrown message => some { failedWorkerOutcome task message with attempts := some attempt, recovery }
  | .aborted => none

def isRetryableWorkerOutcome (outcome : ConductorTaskOutcome) : Bool :=
  outcome.retrySafe = some true && outcome.changedFiles = [] &&
    (outcome.status = .failed || outcome.status = .needsReview)

inductive Attempted
  | aborted (last : ConductorTaskOutcome)
  | settled (outcome : ConductorTaskOutcome)
  | exhausted (last : ConductorTaskOutcome) (history : List Text)

def Attempted.outcome : Attempted → ConductorTaskOutcome
  | .aborted last => last
  | .settled outcome => outcome
  | .exhausted last _ => last

def attemptLine (attempt : Nat) (outcome : ConductorTaskOutcome) : Text :=
  "attempt ".toList ++ (toString attempt).toList ++ ' ' :: outcome.status.name.toList ++ ": ".toList ++
    slice outcome.summary 300

/-- The attempts that are left, the next one's number first. -/
def attemptTask (task : ConductorTask) (run : WorkerRun) :
    Nat → Nat → List Text → ConductorTaskOutcome → Attempted
  | 0, _, history, last => .exhausted last history
  | left + 1, attempt, history, last =>
      match runAttempt task run history task attempt (if 1 < attempt then some .retry else none) with
      | none => .aborted last
      | some outcome =>
          if isRetryableWorkerOutcome outcome then
            attemptTask task run left (attempt + 1) (history ++ [attemptLine attempt outcome]) outcome
          else .settled outcome

def unrecovered (last : ConductorTaskOutcome) (history : List Text) : ConductorTaskOutcome :=
  { last with
    evidence := last.evidence ++ history
    risks := last.risks ++ ["Worker 在有限重试后仍未成功，且未获得可执行的恢复计划".toList] }

def replanTask (task : ConductorTask) (run : WorkerRun) (last : ConductorTaskOutcome) (history : List Text) :
    WorkerExecutionCompletion :=
  match run.replan (List.intercalate ['\n'] history) with
  | .aborted => ⟨task, last, true⟩
  | .thrown message => ⟨task, unrecovered last (history ++ ["replan failed: ".toList ++ message]), false⟩
  | .response text => match parseReplannedConductorTask task text with
    | none => ⟨task, unrecovered last history, false⟩
    | some replanned =>
        match runAttempt task run history replanned (CONDUCTOR_WORKER_MAX_ATTEMPTS + 1) (some .replan) with
        | none => ⟨task, last, true⟩
        | some outcome => ⟨task, outcome, false⟩

/-- `seniorClient` is whether a senior model is configured. -/
def executeConductorWorker (seniorClient : Bool) (task : ConductorTask) (run : WorkerRun) :
    WorkerExecutionCompletion :=
  match attemptTask task run CONDUCTOR_WORKER_MAX_ATTEMPTS 1 []
      (failedWorkerOutcome task "Worker 未开始执行".toList) with
  | .aborted last => ⟨task, last, true⟩
  | .settled outcome => ⟨task, outcome, false⟩
  | .exhausted last history =>
      if seniorClient && isRetryableWorkerOutcome last then replanTask task run last history
      else ⟨task, unrecovered last history, false⟩

end Worker

section Outcome

variable {task replanned : ConductorTask} {run : WorkerRun} {outcome last : ConductorTaskOutcome}

/-- The outcome names the task, and the workspace root of the task. -/
structure ConductorTaskOutcome.IsOf (outcome : ConductorTaskOutcome) (task : ConductorTask) : Prop where
  taskId : outcome.taskId = task.id
  repoId : outcome.repoId = task.repoId

theorem failedWorkerOutcome_isOf (task : ConductorTask) (message : Text) :
    (failedWorkerOutcome task message).IsOf task := ⟨rfl, rfl⟩

theorem parseReplannedConductorTask_eq {text : Text} (h : parseReplannedConductorTask task text = some replanned) :
    replanned.id = task.id ∧ replanned.repoId = task.repoId := by
  rw [parseReplannedConductorTask] at h
  split at h
  next raw hraw =>
    obtain ⟨prompt, -, h⟩ := Option.bind_eq_some_iff.mp h
    rw [conductorTaskSchema] at h
    split_ifs at h
    rw [← Option.some.inj h]
    exact ⟨rfl, rfl⟩
  next => cases h

theorem runAttempt_isOf {history : List Text} {attempt : Nat} {recovery : Option Recovery}
    (hid : replanned.id = task.id ∧ replanned.repoId = task.repoId)
    (h : runAttempt task run history replanned attempt recovery = some outcome) : outcome.IsOf task := by
  rw [runAttempt] at h
  split at h
  next result hresult =>
    rw [← Option.some.inj h]
    exact ⟨rfl, rfl⟩
  next message hmessage =>
    rw [← Option.some.inj h]
    exact ⟨hid.1, hid.2⟩
  next => cases h

theorem attemptTask_isOf (run : WorkerRun) (left attempt : Nat) (history : List Text) (hlast : last.IsOf task) :
    (attemptTask task run left attempt history last).outcome.IsOf task := by
  induction left generalizing attempt history last with
  | zero => exact hlast
  | succ left ih =>
      rw [attemptTask]
      split
      next => exact hlast
      next outcome houtcome =>
        have hof : outcome.IsOf task := runAttempt_isOf ⟨rfl, rfl⟩ houtcome
        split_ifs
        · exact ih (attempt + 1) _ hof
        · exact hof

theorem unrecovered_isOf (hlast : last.IsOf task) (history : List Text) : (unrecovered last history).IsOf task :=
  ⟨hlast.taskId, hlast.repoId⟩

theorem replanTask_isOf (hlast : last.IsOf task) (history : List Text) :
    (replanTask task run last history).outcome.IsOf task := by
  rw [replanTask]
  split
  next => exact hlast
  next message hmessage => exact unrecovered_isOf hlast _
  next text htext =>
    split
    next => exact unrecovered_isOf hlast history
    next replanned hreplanned =>
      split
      next => exact hlast
      next outcome houtcome => exact runAttempt_isOf (parseReplannedConductorTask_eq hreplanned) houtcome

theorem executeConductorWorker_isOf (seniorClient : Bool) (task : ConductorTask) (run : WorkerRun) :
    (executeConductorWorker seniorClient task run).outcome.IsOf task := by
  have hattempted := attemptTask_isOf run CONDUCTOR_WORKER_MAX_ATTEMPTS 1 []
    (failedWorkerOutcome_isOf task "Worker 未开始执行".toList)
  rw [executeConductorWorker]
  split
  next last heq =>
    rw [heq] at hattempted
    exact hattempted
  next outcome heq =>
    rw [heq] at hattempted
    exact hattempted
  next last history heq =>
    rw [heq] at hattempted
    split_ifs
    · exact replanTask_isOf hattempted history
    · exact unrecovered_isOf hattempted history

end Outcome

end Kross.Runtime

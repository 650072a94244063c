import Kross.PartialMap
import Kross.Runtime.ConductorReview
import Kross.Runtime.ConductorRun
import Kross.Verification.Gate

namespace Kross.Runtime

open Kross.Grouping Kross.Session Kross.Verification Kross.Run Kross.PartialMap

variable {platform : Platform} {workspaceRoot : Text} {roots : Option WorkspaceRoots}
  {tasks : List ConductorTask} {task : ConductorTask} {outcomes : List ConductorTaskOutcome}
  {outcome : ConductorTaskOutcome} {validations : List ConductorValidationOutcome}
  {validation : ConductorValidationOutcome} {checks : ConductorChecks} {result : ConductorResult}
  {seniorClient : Bool} {repoId : Option String}

section Targets

theorem RootOutcomes.foldl_repoId (outcomes : List ConductorTaskOutcome) (target : RootOutcomes) :
    (outcomes.foldl (RootOutcomes.add platform) target).repoId = target.repoId := by
  induction outcomes generalizing target with
  | nil => rfl
  | cons outcome outcomes ih => exact ih _

def LacksVerification (platform : Platform) (outcome : ConductorTaskOutcome) : Prop :=
  requiresVerificationForFiles platform outcome.changedFiles = true ∧ outcome.verification.status ≠ .passed

theorem RootOutcomes.foldl_required (outcomes : List ConductorTaskOutcome) (target : RootOutcomes) :
    (outcomes.foldl (RootOutcomes.add platform) target).required = true ↔
      target.required = true ∨ ∃ outcome ∈ outcomes, LacksVerification platform outcome := by
  induction outcomes generalizing target with
  | nil => simp
  | cons outcome outcomes ih =>
      rw [List.foldl_cons, ih]
      simp [RootOutcomes.add, LacksVerification, or_assoc]

theorem mem_outcomesByRoot {key : String} {target : RootOutcomes} (h : (key, target) ∈ outcomesByRoot platform outcomes) :
    ∃ first, (outcomes.filter (fun outcome => rootKey outcome.repoId = key)).head? = some first ∧
      target.repoId = first.repoId ∧
      (target.required = true ↔ ∃ outcome ∈ outcomes, rootKey outcome.repoId = key ∧ LacksVerification platform outcome) := by
  obtain ⟨first, hfirst, rfl⟩ := mem_group.mp h
  refine ⟨first, hfirst, RootOutcomes.foldl_repoId _ _, ?_⟩
  rw [RootOutcomes.foldl_required]
  simp [and_assoc]

/-- The targets are the roots with an outcome that lacks verification, each named
by its first outcome. -/
theorem mem_validationTargets {target : ConductorValidationTarget}
    (h : target ∈ buildConductorValidationTargets platform outcomes) :
    ∃ key first, (outcomes.filter (fun outcome => rootKey outcome.repoId = key)).head? = some first ∧
      target.repoId = first.repoId ∧
      ∃ outcome ∈ outcomes, rootKey outcome.repoId = key ∧ LacksVerification platform outcome := by
  obtain ⟨found, hfound, rfl⟩ := List.mem_map.mp h
  obtain ⟨hmem, hrequired⟩ := List.mem_filter.mp hfound
  obtain ⟨⟨key, found⟩, hgroup, rfl⟩ := List.mem_map.mp hmem
  obtain ⟨first, hfirst, hrepo, hiff⟩ := mem_outcomesByRoot hgroup
  exact ⟨key, first, hfirst, hrepo, hiff.mp hrequired⟩

theorem exists_validationTarget (ho : outcome ∈ outcomes) (hunverified : LacksVerification platform outcome) :
    ∃ target ∈ buildConductorValidationTargets platform outcomes,
      rootKey target.repoId = rootKey outcome.repoId := by
  obtain ⟨found, hfound⟩ : ∃ found, (rootKey outcome.repoId, found) ∈ outcomesByRoot platform outcomes :=
    exists_mem_group ho
  obtain ⟨first, hfirst, hrepo, hiff⟩ := mem_outcomesByRoot hfound
  refine ⟨_, List.mem_map_of_mem (List.mem_filter.mpr ⟨List.mem_map_of_mem hfound, ?_⟩), ?_⟩
  · exact hiff.mpr ⟨outcome, ho, rfl, hunverified⟩
  · have hmem := List.mem_filter.mp (List.mem_of_mem_head? hfirst)
    simpa [hrepo] using hmem.2

theorem exists_reviewTarget (ho : outcome ∈ outcomes) :
    ∃ target ∈ buildConductorReviewTargets outcomes, rootKey target.repoId = rootKey outcome.repoId ∧
      ∃ other ∈ outcomes, target.repoId = other.repoId := by
  have hkept : ∀ (l : List ConductorTaskOutcome) (target : ConductorReviewTarget),
      (l.foldl (fun target outcome => { target with changedFiles := target.changedFiles ++ outcome.changedFiles })
        target).repoId = target.repoId := by
    intro l
    induction l with
    | nil => exact fun _ => rfl
    | cons outcome l ih => exact fun target => ih _
  obtain ⟨found, hfound⟩ : ∃ found, (rootKey outcome.repoId, found) ∈
      group (fun outcome : ConductorTaskOutcome => rootKey outcome.repoId)
        (fun outcome => (⟨outcome.repoId, []⟩ : ConductorReviewTarget))
        (fun target outcome => { target with changedFiles := target.changedFiles ++ outcome.changedFiles })
        outcomes := exists_mem_group ho
  obtain ⟨first, hfirst, rfl⟩ := mem_group.mp hfound
  obtain ⟨hmem, hkey⟩ := List.mem_filter.mp (List.mem_of_mem_head? hfirst)
  rw [decide_eq_true_eq] at hkey
  rw [buildConductorReviewTargets]
  dsimp only
  rw [if_neg (List.ne_nil_of_mem hfound)]
  refine ⟨_, List.mem_map_of_mem hfound, ?_, first, hmem, ?_⟩
  · dsimp only
    rw [hkept]
    exact hkey
  · dsimp only
    rw [hkept]

end Targets

section Verified

theorem validationByRoot_eq_some (h : validationByRoot validations repoId = some validation) :
    validation ∈ validations ∧ rootKey validation.repoId = rootKey repoId := by
  refine ⟨List.mem_reverse.mp (List.mem_of_find?_eq_some h), ?_⟩
  simpa using List.find?_some h

/-- What the report of all workers says when it has passed. -/
theorem aggregate_passed (h : (aggregateConductorVerification platform outcomes validations).status = .passed)
    (ho : outcome ∈ outcomes) (hrequires : requiresVerificationForFiles platform outcome.changedFiles = true) :
    (effectiveVerification platform validations outcome).status = .passed := by
  have hrelevant : outcome ∈ outcomes.filter (relevantOutcome platform) :=
    List.mem_filter.mpr ⟨ho, by simp [relevantOutcome, hrequires]⟩
  rw [aggregateConductorVerification] at h
  dsimp only at h
  rw [if_neg (List.ne_nil_of_mem hrelevant)] at h
  split_ifs at h with hfailed hnotRun
  simp only [Bool.or_eq_true, not_or, Bool.not_eq_true, List.any_eq_false] at hnotRun
  have hverified := hnotRun.1 outcome hrelevant
  simpa [hrequires] using hverified

theorem verified_of_effective (hrequires : requiresVerificationForFiles platform outcome.changedFiles = true)
    (h : (effectiveVerification platform validations outcome).status = .passed) :
    outcome.verification.status = .passed ∨ ∃ validation ∈ validations,
      rootKey validation.repoId = rootKey outcome.repoId ∧ validation.verification.status = .passed := by
  rw [effectiveVerification, if_pos hrequires] at h
  cases hv : validationByRoot validations outcome.repoId with
  | none =>
      rw [hv] at h
      exact Or.inl h
  | some validation =>
      rw [hv] at h
      obtain ⟨hmem, hkey⟩ := validationByRoot_eq_some hv
      exact Or.inr ⟨validation, hmem, hkey, h⟩

end Verified

section Roots

variable (workspaceRoot roots tasks) in
/-- A task without a root id and one with the id that stands for a missing one work
in different directories. -/
def Mixed : Prop :=
  (∃ task ∈ tasks, task.repoId = none) ∧ (∃ task ∈ tasks, task.repoId = some "__primary__") ∧
    rootOf workspaceRoot roots none ≠ rootOf workspaceRoot roots (some "__primary__")

theorem rootOf_eq_of_rootKey (h : ¬Mixed workspaceRoot roots tasks) {a b : Option String}
    (ha : ∃ task ∈ tasks, task.repoId = a) (hb : ∃ task ∈ tasks, task.repoId = b) (hkey : rootKey a = rootKey b) :
    rootOf workspaceRoot roots a = rootOf workspaceRoot roots b := by
  cases a with
  | none =>
      cases b with
      | none => rfl
      | some id =>
          obtain rfl : "__primary__" = id := hkey
          by_contra hne
          exact h ⟨ha, hb, hne⟩
  | some id =>
      cases b with
      | none =>
          obtain rfl : id = "__primary__" := hkey
          by_contra hne
          exact h ⟨hb, ha, Ne.symm hne⟩
      | some other =>
          obtain rfl : id = other := hkey
          rfl

end Roots

section Sound

variable (platform workspaceRoot roots tasks outcomes checks seniorClient result) in
/-- What a completed phase promises. -/
structure CompletedSoundly : Prop where
  workers : ∀ outcome ∈ outcomes, outcome.status ≠ .failed ∧ outcome.executionIncomplete ≠ some true
  verified : ∀ outcome ∈ outcomes, requiresVerificationForFiles platform outcome.changedFiles = true →
    outcome.verification.status = .passed ∨ ∃ validation ∈ result.validations,
      rootOf workspaceRoot roots validation.repoId = rootOf workspaceRoot roots outcome.repoId ∧
        validation.status = .completed ∧ validation.verification.status = .passed
  validated : ∀ validation ∈ result.validations, validation.status = .completed
  senior : seniorClient = true
  reviewed : ∀ task ∈ tasks, ∃ review ∈ result.reviews,
    rootOf workspaceRoot roots review.target.repoId = rootOf workspaceRoot roots task.repoId ∧
      ∃ answer, checks.reviewer review.target = .result answer ∧ answer.status = .completed ∧
        inspected answer = true ∧ parseConductorReviewVerdict answer.summary = some .pass

theorem reviewTarget_passed {target : ConductorReviewTarget} {spawned : Spawned} {review : ConductorReview}
    (h : reviewTarget target spawned = some review) (hcomplete : review.incomplete = false)
    (hpassed : review.rejected = false) :
    review.target = target ∧ ∃ answer, spawned = .result answer ∧ answer.status = .completed ∧
      inspected answer = true ∧ parseConductorReviewVerdict answer.summary = some .pass := by
  cases spawned with
  | result answer =>
      by_cases hdone : answer.status = .completed ∧ trim answer.summary ≠ [] ∧ inspected answer ∧
          parseConductorReviewVerdict answer.summary ≠ none
      · rw [reviewTarget, if_pos hdone] at h
        cases h
        obtain ⟨hstatus, -, hinspected, hverdict⟩ := hdone
        refine ⟨rfl, answer, rfl, hstatus, hinspected, ?_⟩
        cases hv : parseConductorReviewVerdict answer.summary with
        | none => exact absurd hv hverdict
        | some verdict =>
            cases verdict with
            | pass => rfl
            | needsWork => simp [hv] at hpassed
      · rw [reviewTarget, if_neg hdone] at h
        cases h
        cases hcomplete
  | thrown message =>
      cases h
      cases hcomplete
  | aborted => cases h

theorem executeConductorValidation_repoId {target : ConductorValidationTarget} {spawned : Spawned}
    (h : executeConductorValidation target spawned = some validation) : validation.repoId = target.repoId := by
  cases spawned with
  | result answer =>
      cases h
      rfl
  | thrown message =>
      cases h
      rfl
  | aborted => cases h

theorem completed_soundly (hmixed : ¬Mixed workspaceRoot roots tasks)
    (houtcomes : List.Forall₂ ConductorTaskOutcome.IsOf outcomes tasks)
    (h : conductorResult platform seniorClient outcomes checks = some result) (hcompleted : result.status = .completed) :
    CompletedSoundly platform workspaceRoot roots tasks outcomes checks result seniorClient := by
  have hrepo : ∀ outcome ∈ outcomes, ∃ task ∈ tasks, task.repoId = outcome.repoId := by
    intro outcome ho
    obtain ⟨n, rfl⟩ := List.mem_iff_get.mp ho
    have hlt : n.val < tasks.length := n.isLt.trans_eq houtcomes.length_eq
    exact ⟨tasks.get ⟨n, hlt⟩, List.get_mem tasks _, (houtcomes.get n.isLt hlt).repoId.symm⟩
  have htask : ∀ task ∈ tasks, ∃ outcome ∈ outcomes, outcome.repoId = task.repoId := by
    intro task ht
    obtain ⟨n, rfl⟩ := List.mem_iff_get.mp ht
    have hlt : n.val < outcomes.length := n.isLt.trans_eq houtcomes.length_eq.symm
    exact ⟨outcomes.get ⟨n, hlt⟩, List.get_mem outcomes _, (houtcomes.get hlt n.isLt).repoId⟩
  obtain ⟨validations, hvalidations, h⟩ := Option.bind_eq_some_iff.mp h
  obtain ⟨reviews, hreviews, h⟩ := Option.bind_eq_some_iff.mp h
  cases h
  have hok : anyFailed platform seniorClient outcomes validations reviews = false := by
    by_contra hfailed
    rw [Bool.not_eq_false] at hfailed
    simp [hfailed] at hcompleted
  simp only [anyFailed, Bool.or_eq_false_iff, List.any_eq_false] at hok
  obtain ⟨⟨⟨⟨⟨hsenior, hincomplete⟩, hrejected⟩, hverification⟩, hvalidated⟩, hworkers⟩ := hok
  have hsenior : seniorClient = true := by simpa using hsenior
  rw [conductorReviews, if_pos hsenior] at hreviews
  have hcompletes : ∀ validation ∈ validations, validation.status = .completed := by simpa using hvalidated
  refine ⟨?_, ?_, hcompletes, hsenior, ?_⟩
  · simpa [not_or] using hworkers
  · intro outcome ho hrequires
    have hany : outcomes.any (fun outcome => requiresVerificationForFiles platform outcome.changedFiles) = true :=
      List.any_eq_true.mpr ⟨outcome, ho, hrequires⟩
    have hpassed : (aggregateConductorVerification platform outcomes validations).status = .passed := by
      simpa [hany] using hverification
    rcases verified_of_effective hrequires (aggregate_passed hpassed ho hrequires) with hown | ⟨v, hv, hkey, hvp⟩
    · exact Or.inl hown
    · obtain ⟨target, htarget, hexec⟩ := exists_of_mem_mapM hvalidations hv
      obtain ⟨key, first, hfirst, hrepoId, -⟩ := mem_validationTargets htarget
      have hmem := (List.mem_filter.mp (List.mem_of_mem_head? hfirst)).1
      have hvrepo := (executeConductorValidation_repoId hexec).trans hrepoId
      refine Or.inr ⟨v, hv, ?_, hcompletes v hv, hvp⟩
      exact rootOf_eq_of_rootKey hmixed (hvrepo ▸ hrepo first hmem) (hrepo outcome ho) hkey
  · intro task ht
    obtain ⟨outcome, ho, hid⟩ := htask task ht
    obtain ⟨target, htarget, hkey, other, hother, hsame⟩ := exists_reviewTarget ho
    obtain ⟨review, hreview, hexec⟩ := exists_mem_mapM hreviews htarget
    have hincomplete : review.incomplete = false := by simpa using hincomplete review hreview
    have hrejected : review.rejected = false := by simpa using hrejected review hreview
    obtain ⟨rfl, hanswer⟩ := reviewTarget_passed hexec hincomplete hrejected
    refine ⟨review, hreview, ?_, hanswer⟩
    exact rootOf_eq_of_rootKey hmixed (hsame ▸ hrepo other hother) ⟨task, ht, rfl⟩ (hid ▸ hkey)

end Sound

section Answered

variable {schedule : Schedule} {answer : SubagentResult}

/-- The outcome of a worker whose first attempt is not repeated. -/
def firstOutcome (task : ConductorTask) (answer : SubagentResult) : ConductorTaskOutcome :=
  attemptOutcome task task [] 1 none answer

theorem executeConductorWorker_answers (h : isRetryableWorkerOutcome (firstOutcome task answer) = false) :
    executeConductorWorker seniorClient task (answersWith answer) = ⟨task, firstOutcome task answer, false⟩ := by
  have hattempt : attemptTask task (answersWith answer) CONDUCTOR_WORKER_MAX_ATTEMPTS 1 []
      (failedWorkerOutcome task "Worker 未开始执行".toList) = .settled (firstOutcome task answer) := by
    change (if isRetryableWorkerOutcome (firstOutcome task answer) = true then _ else _) = _
    rw [h]
    rfl
  rw [executeConductorWorker, hattempt]

variable (tasks) in
/-- Every outcome so far is the one that the answer for its task leads to. -/
def Answered (answer : ConductorTask → SubagentResult) (schedule : Schedule) : Prop :=
  ∀ task ∈ tasks, ∀ outcome, schedule.outcomes task.id = some outcome → outcome = firstOutcome task (answer task)

theorem next_answers_eq (honce : isRetryableWorkerOutcome (firstOutcome task answer) = false)
    (hwaiting : schedule.phase = .waiting) (hfind : schedule.running.find? (·.id = task.id) = some task) :
    schedule.next seniorClient ⟨task.id, answersWith answer, false⟩ =
      turn false (settle schedule task (firstOutcome task answer)) := by
  have hworker : executeConductorWorker seniorClient task (answersWith answer) =
      ⟨task, firstOutcome task answer, false⟩ := executeConductorWorker_answers honce
  rw [Schedule.next, hwaiting, hfind]
  dsimp only
  rw [hworker]
  rfl

theorem next_answers (hwell : WellFormed tasks) {answer : ConductorTask → SubagentResult}
    (hsucceeds : dependencyOutcomeSucceeded (firstOutcome task (answer task)) = true)
    (honce : isRetryableWorkerOutcome (firstOutcome task (answer task)) = false)
    (h : Resting tasks schedule) (hwaiting : schedule.phase = .waiting) (ht : task ∈ schedule.running)
    (hanswered : Answered tasks answer schedule) (next : Schedule)
    (hnext : schedule.next seniorClient ⟨task.id, answersWith (answer task), false⟩ = next) :
    Resting tasks next ∧ next.phase ≠ .aborted ∧ Answered tasks answer next ∧
      (next.phase = .waiting → left next < left schedule) := by
  have hmem := (h.allotted (by rw [hwaiting]; exact SchedulePhase.noConfusion)).running
  have hfind : schedule.running.find? (·.id = task.id) = some task := by
    obtain ⟨found, hfound⟩ := Option.isSome_iff_exists.mp
      (List.find?_isSome (p := fun other : ConductorTask => decide (other.id = task.id)).mpr
        ⟨task, ht, decide_eq_true rfl⟩)
    have hid : found.id = task.id := by simpa using List.find?_some hfound
    rw [hfound, hwell.inj (hmem found (List.mem_of_find?_eq_some hfound)) (hmem task ht) hid]
  have hturned := settle_turned hwell h hwaiting ht hsucceeds
  rw [next_answers_eq honce hwaiting hfind] at hnext
  subst hnext
  refine ⟨hturned.resting, hturned.phase, fun other ho outcome hout => ?_,
    fun hphase => (hturned.left hphase).trans_lt (left_settle ht)⟩
  rw [hturned.outcomes] at hout
  by_cases hid : other.id = task.id
  · obtain rfl := hwell.inj ho (hmem task ht) hid
    simp only [settle, Function.update_self, Option.some.injEq] at hout
    exact hout.symm
  · simp only [settle, Function.update_of_ne hid] at hout
    exact hanswered other ho outcome hout

theorem taskOutcomes_answered {answer : ConductorTask → SubagentResult} (h : Resting tasks schedule)
    (hended : schedule.phase = .ended) (hanswered : Answered tasks answer schedule) :
    taskOutcomes tasks schedule = tasks.map (fun task => firstOutcome task (answer task)) := by
  have hall := h.allotted (by rw [hended]; exact SchedulePhase.noConfusion)
  obtain ⟨hpending, hrunning⟩ := h.ended hended
  refine List.map_congr_left (fun task ht => ?_)
  have hsome : schedule.outcomes task.id ≠ none := by
    rcases hall.somewhere task ht with hm | hm | hm
    · simp [hpending] at hm
    · simp [hrunning] at hm
    · exact hm
  obtain ⟨outcome, ho⟩ := Option.ne_none_iff_exists'.mp hsome
  rw [ho, Option.getD_some, hanswered task ht outcome ho]

variable (seniorClient) in
/-- Workers that all succeed bring the loop to its end. -/
theorem exists_answered_run (hwell : WellFormed tasks) {answer : ConductorTask → SubagentResult}
    (hsucceeds : ∀ task ∈ tasks, dependencyOutcomeSucceeded (firstOutcome task (answer task)) = true)
    (honce : ∀ task ∈ tasks, isRetryableWorkerOutcome (firstOutcome task (answer task)) = false)
    (h : Resting tasks schedule) (hphase : schedule.phase ≠ .aborted) (hanswered : Answered tasks answer schedule) :
    ∃ settlements, (after (Schedule.next seniorClient) schedule settlements).phase = .ended ∧
      taskOutcomes tasks (after (Schedule.next seniorClient) schedule settlements) =
        tasks.map (fun task => firstOutcome task (answer task)) := by
  induction hn : left schedule using Nat.strong_induction_on generalizing schedule with
  | _ n ih =>
      cases hp : schedule.phase with
      | aborted => exact absurd hp hphase
      | ended => exact ⟨[], hp, taskOutcomes_answered h hp hanswered⟩
      | waiting =>
          obtain ⟨task, ht⟩ := List.exists_mem_of_ne_nil _ (h.waiting hp).2
          have hmem := (h.allotted hphase).running task ht
          obtain ⟨hresting, hgoes, hkept, hlt⟩ :=
            next_answers hwell (hsucceeds task hmem) (honce task hmem) h hp ht hanswered _ rfl
          have hrest : ∃ settlements,
              (after (Schedule.next seniorClient)
                (schedule.next seniorClient ⟨task.id, answersWith (answer task), false⟩) settlements).phase = .ended ∧
              taskOutcomes tasks (after (Schedule.next seniorClient)
                (schedule.next seniorClient ⟨task.id, answersWith (answer task), false⟩) settlements) =
                tasks.map (fun task => firstOutcome task (answer task)) := by
            cases hq : (schedule.next seniorClient ⟨task.id, answersWith (answer task), false⟩).phase with
            | aborted => exact absurd hq hgoes
            | ended => exact ⟨[], hq, taskOutcomes_answered hresting hq hkept⟩
            | waiting => exact ih _ (hn ▸ hlt hq) hresting hgoes hkept rfl
          obtain ⟨settlements, hrest⟩ := hrest
          exact ⟨⟨task.id, answersWith (answer task), false⟩ :: settlements, hrest⟩

end Answered

section Shadowed

/-- A worker that has changed a file and checked nothing. -/
def uncheckedResult (file : Text) : SubagentResult where
  status := .needsReview
  summary := "edited".toList
  changedFiles := [file]
  diffSummary := []
  commandsRun := []
  toolsUsed := ["Write".toList]
  verification := ⟨.notRun, [], [], none⟩
  evidence := []
  risks := []
  needsReview := []

def idleResult : SubagentResult where
  status := .completed
  summary := "nothing to do".toList
  changedFiles := []
  diffSummary := []
  commandsRun := []
  toolsUsed := []
  verification := ⟨.notNeeded, [], [], none⟩
  evidence := []
  risks := []
  needsReview := []

def approvingResult : SubagentResult :=
  { idleResult with
    summary := "VERDICT: PASS".toList
    toolsUsed := ["Git:status".toList, "Git:diff:unstaged".toList, "Git:diff:staged".toList] }

def approvingChecks : ConductorChecks := ⟨fun _ => .result checkedResult, fun _ => .result approvingResult⟩

def checkedValidation (target : ConductorValidationTarget) : ConductorValidationOutcome where
  repoId := target.repoId
  status := .completed
  summary := checkedResult.summary
  changedFiles := target.changedFiles
  verification := checkedResult.verification
  evidence := []
  risks := []

def approvingReview (target : ConductorReviewTarget) : ConductorReview where
  target := target
  incomplete := false
  rejected := false
  text := some ("#### ".toList ++ rootLabel target.repoId ++ '\n' :: trim approvingResult.summary)
  risks := []

/-- Only the tasks of one root change a file. -/
def onlyIn (root : Option String) (file : Text) (task : ConductorTask) : SubagentResult :=
  if task.repoId = root then uncheckedResult file else idleResult

variable {root : Option String} {file : Text}

theorem onlyIn_succeeds (task : ConductorTask) :
    dependencyOutcomeSucceeded (firstOutcome task (onlyIn root file task)) = true := by
  rw [onlyIn]
  split_ifs <;> rfl

theorem onlyIn_once (task : ConductorTask) :
    isRetryableWorkerOutcome (firstOutcome task (onlyIn root file task)) = false := by
  rw [onlyIn]
  split_ifs <;> rfl

theorem onlyIn_works (task : ConductorTask) :
    (firstOutcome task (onlyIn root file task)).status ≠ .failed ∧
      (firstOutcome task (onlyIn root file task)).executionIncomplete ≠ some true := by
  rw [onlyIn]
  split_ifs <;> exact ⟨SubagentStatus.noConfusion, (by decide : (some false : Option Bool) ≠ some true)⟩

theorem onlyIn_lacks (file : Text) (hcode : requiresVerificationForFiles platform [file] = true) (ht : task.repoId = root) :
    LacksVerification platform (firstOutcome task (onlyIn root file task)) := by
  rw [onlyIn, if_pos ht]
  exact ⟨hcode, VerificationStatus.noConfusion⟩

theorem onlyIn_relevant (h : relevantOutcome platform (firstOutcome task (onlyIn root file task)) = true) :
    task.repoId = root := by
  by_contra hne
  rw [onlyIn, if_neg hne] at h
  cases h

theorem reviewTarget_approving (target : ConductorReviewTarget) :
    reviewTarget target (.result approvingResult) = some (approvingReview target) := by
  have hverdict : parseConductorReviewVerdict approvingResult.summary = some .pass := by decide
  rw [reviewTarget]
  dsimp only
  rw [if_pos ⟨rfl, by decide, by decide, by rw [hverdict]; exact Option.some_ne_none _⟩, hverdict]
  rfl

theorem aggregate_of_effective (ho : outcome ∈ outcomes) (hrelevant : relevantOutcome platform outcome = true)
    (hall : ∀ outcome ∈ outcomes, relevantOutcome platform outcome = true →
      (effectiveVerification platform validations outcome).status = .passed) :
    (aggregateConductorVerification platform outcomes validations).status = .passed := by
  have hmem : outcome ∈ outcomes.filter (relevantOutcome platform) := List.mem_filter.mpr ⟨ho, hrelevant⟩
  have heffective : ∀ outcome ∈ outcomes.filter (relevantOutcome platform),
      (effectiveVerification platform validations outcome).status = .passed :=
    fun other hother => hall other (List.mem_filter.mp hother).1 (List.mem_filter.mp hother).2
  have hnone : ∀ status : VerificationStatus, status ≠ .passed →
      ((outcomes.filter (relevantOutcome platform)).map (effectiveVerification platform validations)).any
        (·.status = status) = false := by
    intro status hstatus
    rw [List.any_map, List.any_eq_false]
    intro other hother
    simp [heffective other hother, hstatus.symm]
  have hverified : (outcomes.filter (relevantOutcome platform)).any (fun outcome =>
      requiresVerificationForFiles platform outcome.changedFiles &&
        (effectiveVerification platform validations outcome).status ≠ .passed) = false := by
    rw [List.any_eq_false]
    intro other hother
    simp [heffective other hother]
  rw [aggregateConductorVerification]
  dsimp only
  rw [if_neg (List.ne_nil_of_mem hmem), hnone .failed VerificationStatus.noConfusion,
    hnone .notRun VerificationStatus.noConfusion, hverified]
  rfl

theorem checked_effective {targets : List ConductorValidationTarget} {target : ConductorValidationTarget}
    (ht : target ∈ targets) (hkey : rootKey target.repoId = rootKey outcome.repoId)
    (hrequires : requiresVerificationForFiles platform outcome.changedFiles = true) :
    (effectiveVerification platform (targets.map checkedValidation) outcome).status = .passed := by
  obtain ⟨found, hfound⟩ : ∃ found, validationByRoot (targets.map checkedValidation) outcome.repoId = some found := by
    refine Option.isSome_iff_exists.mp (List.find?_isSome.mpr ⟨checkedValidation target, ?_, ?_⟩)
    · exact List.mem_reverse.mpr (List.mem_map_of_mem ht)
    · exact decide_eq_true hkey
  obtain ⟨other, -, rfl⟩ := List.mem_map.mp (validationByRoot_eq_some hfound).1
  rw [effectiveVerification, if_pos hrequires, hfound]
  rfl

/-- With checks that approve of everything the phase completes. -/
theorem exists_completed (hcode : requiresVerificationForFiles platform [file] = true)
    (htask : ∃ task ∈ tasks, task.repoId = root) :
    ∃ result, conductorResult platform true (tasks.map (fun task => firstOutcome task (onlyIn root file task)))
        approvingChecks = some result ∧ result.status = .completed ∧
      result.validations = (buildConductorValidationTargets platform
        (tasks.map (fun task => firstOutcome task (onlyIn root file task)))).map checkedValidation := by
  generalize houtcomes : tasks.map (fun task => firstOutcome task (onlyIn root file task)) = outcomes
  have hvalidations : (buildConductorValidationTargets platform outcomes).mapM (fun target =>
      executeConductorValidation target (approvingChecks.validator target)) =
        some ((buildConductorValidationTargets platform outcomes).map checkedValidation) :=
    mapM_eq_map (fun _ _ => rfl)
  have hreviews : conductorReviews true outcomes approvingChecks =
      some ((buildConductorReviewTargets outcomes).map approvingReview) := by
    rw [conductorReviews, if_pos rfl]
    exact mapM_eq_map (fun target _ => reviewTarget_approving target)
  have hall : ∀ outcome ∈ outcomes, relevantOutcome platform outcome = true →
      (effectiveVerification platform
        ((buildConductorValidationTargets platform outcomes).map checkedValidation) outcome).status = .passed := by
    intro outcome ho hrelevant
    obtain ⟨task, ht, rfl⟩ := List.mem_map.mp (houtcomes ▸ ho)
    have hlacks := onlyIn_lacks file hcode (onlyIn_relevant hrelevant)
    obtain ⟨target, htarget, hkey⟩ := exists_validationTarget ho hlacks
    exact checked_effective htarget hkey hlacks.1
  obtain ⟨task, ht, hrepo⟩ := htask
  have hmem : firstOutcome task (onlyIn root file task) ∈ outcomes := houtcomes ▸ List.mem_map_of_mem ht
  have hlacks := onlyIn_lacks file hcode hrepo
  have hpassed := aggregate_of_effective hmem (by simp [relevantOutcome, hlacks.1]) hall
  have hok : anyFailed platform true outcomes
      ((buildConductorValidationTargets platform outcomes).map checkedValidation)
      ((buildConductorReviewTargets outcomes).map approvingReview) = false := by
    have hworks : outcomes.any (fun outcome =>
        outcome.status = .failed || outcome.executionIncomplete = some true) = false := by
      rw [← houtcomes, List.any_map, List.any_eq_false]
      intro task _
      simpa using onlyIn_works task
    rw [anyFailed, hworks, hpassed]
    simp [List.any_map, Function.comp_def, approvingReview, checkedValidation]
  refine ⟨_, by rw [conductorResult, hvalidations, hreviews]; rfl, ?_, rfl⟩
  dsimp only
  rw [hok]
  rfl

/-- Of two ids with one key the root of the second one is never validated. -/
theorem not_soundly_of_shadowed {first root : Option String} {result : ConductorResult}
    (hfirst : ((tasks.filter (fun task => rootKey task.repoId = rootKey root)).head?).map ConductorTask.repoId =
      some first)
    (hne : rootOf workspaceRoot roots first ≠ rootOf workspaceRoot roots root)
    (htask : ∃ task ∈ tasks, task.repoId = root) (hcode : requiresVerificationForFiles platform [file] = true)
    (hresult : result.validations = (buildConductorValidationTargets platform
      (tasks.map (fun task => firstOutcome task (onlyIn root file task)))).map checkedValidation) :
    ¬CompletedSoundly platform workspaceRoot roots tasks
      (tasks.map (fun task => firstOutcome task (onlyIn root file task))) approvingChecks result true := by
  intro hsound
  obtain ⟨task, ht, hrepo⟩ := htask
  have hlacks := onlyIn_lacks file hcode hrepo
  rcases hsound.verified _ (List.mem_map_of_mem ht) hlacks.1 with hown | ⟨validation, hv, hroot, -, -⟩
  · exact hlacks.2 hown
  · rw [hresult] at hv
    obtain ⟨target, htarget, rfl⟩ := List.mem_map.mp hv
    obtain ⟨key, head, hhead, hid, outcome, ho, hkey, hout⟩ := mem_validationTargets htarget
    obtain ⟨other, hother, rfl⟩ := List.mem_map.mp ho
    have hlacked : LacksVerification platform (firstOutcome other (onlyIn root file other)) := hout
    have hroots : other.repoId = root := onlyIn_relevant (by rw [relevantOutcome, hlacked.1]; rfl)
    obtain rfl : rootKey root = key := (congrArg rootKey hroots).symm.trans hkey
    rw [List.filter_map, List.head?_map] at hhead
    obtain ⟨earliest, hearliest, rfl⟩ := Option.map_eq_some_iff.mp hhead
    have hsame : earliest.repoId = first := by
      have hfound : (tasks.filter (fun task => rootKey task.repoId = rootKey root)).head? = some earliest :=
        hearliest
      rw [hfound] at hfirst
      exact Option.some.inj hfirst
    have hroot : rootOf workspaceRoot roots target.repoId = rootOf workspaceRoot roots task.repoId := hroot
    rw [hid.trans hsame, hrepo] at hroot
    exact hne hroot

/-- The first of two ids with one key, and the other one. -/
theorem exists_shadowed (h : Mixed workspaceRoot roots tasks) :
    ∃ first root : Option String,
      ((tasks.filter (fun task => rootKey task.repoId = rootKey root)).head?).map ConductorTask.repoId = some first ∧
      rootOf workspaceRoot roots first ≠ rootOf workspaceRoot roots root ∧ ∃ task ∈ tasks, task.repoId = root := by
  obtain ⟨⟨plain, hplain, hnone⟩, named, hne⟩ := h
  have hmem : plain ∈ tasks.filter (fun task => rootKey task.repoId = "__primary__") :=
    List.mem_filter.mpr ⟨hplain, by rw [hnone]; rfl⟩
  obtain ⟨head, hhead⟩ := Option.isSome_iff_exists.mp (List.isSome_head?.mpr (List.ne_nil_of_mem hmem))
  have hkey : rootKey head.repoId = "__primary__" := by
    simpa using (List.mem_filter.mp (List.mem_of_mem_head? hhead)).2
  cases hid : head.repoId with
  | none => exact ⟨none, some "__primary__", by rw [rootKey, Option.getD_some, hhead, Option.map_some, hid], hne, named⟩
  | some id =>
      rw [hid] at hkey
      obtain rfl : id = "__primary__" := hkey
      exact ⟨some "__primary__", none, by rw [rootKey, Option.getD_none, hhead, Option.map_some, hid], hne.symm,
        plain, hplain, hnone⟩

end Shadowed

section Claim

variable {plan : ConductorTaskPlan} {file : Text}

/-- An added directory whose name stands for a missing root id. -/
def shadowedPlan : ConductorTaskPlan := planOf [taskOf "a" [], { taskOf "b" [] with repoId := some "__primary__" }]

def shadowingRoots : WorkspaceRoots := ⟨"/work/app".toList, [("__primary__".toList, "/work/__primary__".toList)]⟩

def idleRun : List Settlement := [⟨"a", answersWith idleResult, false⟩, ⟨"b", answersWith idleResult, false⟩]

end Claim

end Kross.Runtime

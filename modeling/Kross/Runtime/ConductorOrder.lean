import Kross.Runtime.ConductorSchedule

namespace Kross.Runtime

open Kross.DepthFirst Kross.Run Kross.Verification

variable {tasks : List ConductorTask} {schedule base : Schedule} {task : ConductorTask} {failed id : String}
  {outcome : ConductorTaskOutcome}

theorem dropTask_sublist (task : ConductorTask) (l : List ConductorTask) : (dropTask task l).Sublist l :=
  List.filter_sublist

section Order

variable {α : Type*} {a b : α} {l before rest : List α}

theorem not_sublist_swap (hl : l.Nodup) (hab : [a, b].Sublist l) : ¬[b, a].Sublist l := by
  intro hba
  induction l with
  | nil => cases hab
  | cons c l ih =>
      obtain ⟨hc, hl⟩ := List.nodup_cons.mp hl
      cases hab with
      | cons _ hab =>
          cases hba with
          | cons _ hba => exact ih hl hab hba
          | cons_cons _ hba => exact hc (hab.subset (by simp))
      | cons_cons _ hab =>
          cases hba with
          | cons _ hba => exact hc (hba.subset (by simp))
          | cons_cons _ hba => exact hc (hba.subset (by simp))

theorem mem_before (hl : l.Nodup) (hsub : (before ++ a :: rest).Sublist l) (hb : b ∈ before ++ a :: rest)
    (hba : [b, a].Sublist l) : b ∈ before := by
  rcases List.mem_append.mp hb with hb | hb
  · exact hb
  · exfalso
    rcases List.mem_cons.mp hb with rfl | hb
    · exact not_sublist_swap hl hba hba
    · have hab : [a, b].Sublist (before ++ a :: rest) :=
        ((List.singleton_sublist.mpr hb).cons₂ a).trans (List.sublist_append_right before (a :: rest))
      exact not_sublist_swap hl hba (hab.trans hsub)

theorem sublist_of_mem_before (hb : b ∈ before) : [b, a].Sublist (before ++ a :: rest) :=
  (List.singleton_sublist.mpr hb).append ((List.nil_sublist rest).cons₂ a)

end Order

section Failed

theorem failedDependency_eq_none (hnonempty : ∀ dependency ∈ task.dependencies, dependency ≠ "")
    {outcomes : Outcomes} (h : failedDependency outcomes task = none) {dependency : String}
    (hd : dependency ∈ task.dependencies) (ho : outcomes dependency = some outcome) :
    dependencyOutcomeSucceeded outcome = true := by
  by_contra hfailed
  have hsome := List.find?_isSome (p := fun dependency : String =>
    (outcomes dependency).any (fun outcome => !dependencyOutcomeSucceeded outcome)).mpr
      ⟨dependency, hd, by simp [ho, hfailed]⟩
  obtain ⟨found, hfound⟩ := Option.isSome_iff_exists.mp hsome
  have hne := hnonempty found (List.mem_of_find?_eq_some hfound)
  rw [failedDependency, hfound] at h
  simp [hne] at h

theorem failedDependency_eq_some {outcomes : Outcomes} {dependency : String}
    (h : failedDependency outcomes task = some dependency) :
    dependency ∈ task.dependencies ∧
      ∃ outcome, outcomes dependency = some outcome ∧ dependencyOutcomeSucceeded outcome = false := by
  obtain ⟨hfind, -⟩ := Option.filter_eq_some_iff.mp h
  have hfound := List.find?_some hfind
  cases ho : outcomes dependency with
  | none =>
      rw [ho] at hfound
      cases hfound
  | some outcome =>
      rw [ho] at hfound
      exact ⟨List.mem_of_find?_eq_some hfind, outcome, rfl, by simpa using hfound⟩

end Failed

section Block

theorem blockTask_of_none (h : failedDependency schedule.outcomes task = none) :
    blockTask schedule task = schedule := by
  rw [blockTask, h]

theorem blockTask_frame (schedule : Schedule) (task : ConductorTask) :
    (blockTask schedule task).running = schedule.running ∧
      (blockTask schedule task).started = schedule.started ∧ (blockTask schedule task).phase = schedule.phase := by
  rw [blockTask]
  split <;> exact ⟨rfl, rfl, rfl⟩

theorem blockTask_pending {dependency : String}
    (h : failedDependency schedule.outcomes task = some dependency) :
    (blockTask schedule task).pending = dropTask task schedule.pending := by
  rw [blockTask, h]

theorem blockTask_outcomes {dependency : String}
    (h : failedDependency schedule.outcomes task = some dependency) :
    (blockTask schedule task).outcomes = Function.update schedule.outcomes task.id
      (some (failedWorkerOutcome task (blockedMessage dependency task))) := by
  rw [blockTask, h]

end Block

section Pass

/-- No pending task depends on one that is known to have failed. -/
def Clean (schedule : Schedule) : Prop :=
  ∀ task ∈ schedule.pending, ∀ dependency ∈ task.dependencies, ∀ outcome,
    schedule.outcomes dependency = some outcome → dependencyOutcomeSucceeded outcome = true

variable (tasks failed) in
/-- One task has just failed, and nothing is known of those that hang on it unless
they are pending or have failed before. -/
structure Failing (base : Schedule) : Prop where
  pending : base.pending.Sublist tasks
  fresh : ∀ task ∈ base.pending, base.outcomes task.id = none
  clean : ∀ task ∈ base.pending, ∀ dependency ∈ task.dependencies, ∀ outcome,
    base.outcomes dependency = some outcome → dependencyOutcomeSucceeded outcome = false → dependency = failed
  known : ∃ outcome, base.outcomes failed = some outcome ∧ dependencyOutcomeSucceeded outcome = false
  skipped : ∀ task, Hangs tasks failed task → task ∈ base.pending ∨
    ∃ outcome, base.outcomes task.id = some outcome ∧ dependencyOutcomeSucceeded outcome = false

variable (tasks base failed) in
/-- What a pass has done when it has examined some of the pending tasks. -/
structure Examined (before : List ConductorTask) (schedule : Schedule) : Prop where
  pending : schedule.pending = base.pending.filter (fun task => (schedule.outcomes task.id).isNone)
  running : schedule.running = base.running
  started : schedule.started = base.started
  phase : schedule.phase = base.phase
  frame : ∀ id, id ∉ base.pending.map ConductorTask.id → schedule.outcomes id = base.outcomes id
  blocked : ∀ task ∈ base.pending, ∀ outcome, schedule.outcomes task.id = some outcome →
    task ∈ before ∧ Hangs tasks failed task ∧ dependencyOutcomeSucceeded outcome = false ∧ outcome.IsOf task
  complete : ∀ task ∈ before, Hangs tasks failed task → schedule.outcomes task.id ≠ none

theorem Failing.frame (h : Failing tasks failed base) {outcome : ConductorTaskOutcome}
    (ho : base.outcomes id = some outcome) : id ∉ base.pending.map ConductorTask.id := by
  intro hid
  obtain ⟨task, ht, rfl⟩ := List.mem_map.mp hid
  rw [h.fresh task ht] at ho
  cases ho

/-- What the pass skips hangs on the task that has failed. -/
theorem Examined.hangs (hbase : Failing tasks failed base) {before rest : List ConductorTask}
    (hpending : base.pending = before ++ task :: rest) (h : Examined tasks base failed before schedule)
    (hmem : task ∈ tasks) {dependency : String}
    (hfailed : failedDependency schedule.outcomes task = some dependency) : Hangs tasks failed task := by
  obtain ⟨hd, outcome, ho, hf⟩ := failedDependency_eq_some hfailed
  have ht : task ∈ base.pending := by simp [hpending]
  by_cases hid : dependency ∈ base.pending.map ConductorTask.id
  · obtain ⟨skipped, hskipped, rfl⟩ := List.mem_map.mp hid
    obtain ⟨hbefore, hhangs, -, -⟩ := h.blocked skipped hskipped outcome ho
    have horder : [skipped, task].Sublist base.pending := by
      rw [hpending]
      exact sublist_of_mem_before hbefore
    exact .later skipped task hhangs (horder.trans hbase.pending) hd
  · rw [h.frame dependency hid] at ho
    have heq := hbase.clean task ht dependency hd outcome ho hf
    exact .direct task hmem (heq ▸ hd)

/-- What hangs on the task that has failed has a dependency that the pass knows to have failed. -/
theorem Examined.failedDependency (hwell : WellFormed tasks) (hbase : Failing tasks failed base)
    {before rest : List ConductorTask} (hpending : base.pending = before ++ task :: rest)
    (h : Examined tasks base failed before schedule) (hhangs : Hangs tasks failed task) :
    failedDependency schedule.outcomes task ≠ none := by
  intro hnone
  have hsucceeded : ∀ dependency ∈ task.dependencies, ∀ outcome,
      schedule.outcomes dependency = some outcome → dependencyOutcomeSucceeded outcome = true :=
    fun _ hd _ ho =>
      failedDependency_eq_none (fun d hd => (hwell.known task hhangs.mem d hd).1) hnone hd ho
  cases hhangs with
  | direct _ hmem hd =>
      obtain ⟨outcome, ho, hf⟩ := hbase.known
      rw [← h.frame failed (hbase.frame ho)] at ho
      rw [hsucceeded failed hd outcome ho] at hf
      cases hf
  | later skipped _ hskipped horder hd =>
      rcases hbase.skipped skipped hskipped with hmem | ⟨outcome, ho, hf⟩
      · have hbefore : skipped ∈ before :=
          mem_before hwell.nodup.of_map (hpending ▸ hbase.pending) (hpending ▸ hmem) horder
        obtain ⟨outcome, ho⟩ := Option.ne_none_iff_exists'.mp (h.complete skipped hbefore hskipped)
        have hf := (h.blocked skipped hmem outcome ho).2.2.1
        rw [hsucceeded skipped.id hd outcome ho] at hf
        cases hf
      · rw [← h.frame skipped.id (hbase.frame ho)] at ho
        rw [hsucceeded skipped.id hd outcome ho] at hf
        cases hf

theorem Examined.start (hbase : Failing tasks failed base) : Examined tasks base failed [] base where
  pending := (List.filter_eq_self.mpr (fun task ht => by rw [hbase.fresh task ht]; rfl)).symm
  running := rfl
  started := rfl
  phase := rfl
  frame _ _ := rfl
  blocked task ht outcome ho := by
    rw [hbase.fresh task ht] at ho
    cases ho
  complete := nofun

theorem Examined.blockTask (hwell : WellFormed tasks) (hbase : Failing tasks failed base)
    {before rest : List ConductorTask} (hpending : base.pending = before ++ task :: rest)
    (h : Examined tasks base failed before schedule) :
    Examined tasks base failed (before ++ [task]) (blockTask schedule task) := by
  have ht : task ∈ base.pending := by simp [hpending]
  have hmem : task ∈ tasks := hbase.pending.subset ht
  cases hfailed : Kross.Runtime.failedDependency schedule.outcomes task with
  | none =>
      rw [blockTask_of_none hfailed]
      refine ⟨h.pending, h.running, h.started, h.phase, h.frame, fun other ho outcome hout => ?_,
        fun other ho hhangs => ?_⟩
      · obtain ⟨hbefore, hrest⟩ := h.blocked other ho outcome hout
        exact ⟨List.mem_append_left [task] hbefore, hrest⟩
      · rcases List.mem_append.mp ho with ho | ho
        · exact h.complete other ho hhangs
        · rw [List.mem_singleton.mp ho] at hhangs
          exact absurd hfailed (h.failedDependency hwell hbase hpending hhangs)
  | some dependency =>
      have hhangs := h.hangs hbase hpending hmem hfailed
      have hout := blockTask_outcomes hfailed
      refine ⟨?_, ?_, ?_, ?_, fun id hid => ?_, fun other ho outcome hother => ?_, fun other ho hother => ?_⟩
      · rw [blockTask_pending hfailed, h.pending, hout, dropTask, List.filter_filter]
        refine List.filter_congr (fun other _ => ?_)
        by_cases hid : other.id = task.id <;> simp [hid]
      · exact (blockTask_frame schedule task).1.trans h.running
      · exact (blockTask_frame schedule task).2.1.trans h.started
      · exact (blockTask_frame schedule task).2.2.trans h.phase
      · have hne : id ≠ task.id := fun he => hid (he ▸ List.mem_map_of_mem ht)
        rw [hout, Function.update_of_ne hne]
        exact h.frame id hid
      · by_cases hid : other.id = task.id
        · obtain rfl := hwell.inj (hbase.pending.subset ho) hmem hid
          rw [hout, Function.update_self] at hother
          cases hother
          exact ⟨by simp, hhangs, rfl, failedWorkerOutcome_isOf other _⟩
        · rw [hout, Function.update_of_ne hid] at hother
          obtain ⟨hbefore, hrest⟩ := h.blocked other ho outcome hother
          exact ⟨List.mem_append_left [task] hbefore, hrest⟩
      · by_cases hid : other.id = task.id
        · rw [hout, hid, Function.update_self]
          exact Option.some_ne_none _
        · rw [hout, Function.update_of_ne hid]
          rcases List.mem_append.mp ho with ho | ho
          · exact h.complete other ho hother
          · exact absurd (congrArg ConductorTask.id (List.mem_singleton.mp ho)) hid

theorem Examined.foldl (hwell : WellFormed tasks) (hbase : Failing tasks failed base)
    {before rest : List ConductorTask} (hpending : base.pending = before ++ rest)
    (h : Examined tasks base failed before schedule) :
    Examined tasks base failed base.pending (rest.foldl Kross.Runtime.blockTask schedule) := by
  induction rest generalizing before schedule with
  | nil =>
      rw [hpending, List.append_nil]
      exact h
  | cons task rest ih =>
      rw [List.foldl_cons]
      exact ih (by rw [hpending, List.append_assoc]; rfl) (h.blockTask hwell hbase hpending)

theorem examined_blockPending (hwell : WellFormed tasks) (hbase : Failing tasks failed base) :
    Examined tasks base failed base.pending (blockPending base) :=
  (Examined.start hbase).foldl hwell hbase (List.nil_append base.pending).symm

theorem Examined.clean (hsettles : Settles tasks) (hbase : Failing tasks failed base)
    (h : Examined tasks base failed base.pending schedule) : Clean schedule := by
  intro task ht dependency hd outcome ho
  rw [h.pending] at ht
  obtain ⟨hpending, hnone⟩ := List.mem_filter.mp ht
  have hmem := hbase.pending.subset hpending
  have hnot : ¬Hangs tasks failed task := fun hhangs =>
    h.complete task hpending hhangs (Option.isNone_iff_eq_none.mp hnone)
  by_contra hf
  rw [Bool.not_eq_true] at hf
  by_cases hid : dependency ∈ base.pending.map ConductorTask.id
  · obtain ⟨skipped, hskipped, rfl⟩ := List.mem_map.mp hid
    obtain ⟨-, hhangs, -, -⟩ := h.blocked skipped hskipped outcome ho
    exact hnot (hsettles failed skipped task hhangs hmem hd)
  · rw [h.frame dependency hid] at ho
    have heq := hbase.clean task hpending dependency hd outcome ho hf
    exact hnot (.direct task hmem (heq ▸ hd))

theorem blockTask_of_clean (h : Clean schedule) (ht : task ∈ schedule.pending) :
    blockTask schedule task = schedule := by
  cases hfailed : failedDependency schedule.outcomes task with
  | none => exact blockTask_of_none hfailed
  | some dependency =>
      obtain ⟨hd, outcome, ho, hf⟩ := failedDependency_eq_some hfailed
      rw [h task ht dependency hd outcome ho] at hf
      cases hf

theorem blockPending_of_clean (h : Clean schedule) : blockPending schedule = schedule := by
  have hfix : ∀ l : List ConductorTask, (∀ task ∈ l, task ∈ schedule.pending) →
      l.foldl blockTask schedule = schedule := by
    intro l hl
    induction l with
    | nil => rfl
    | cons task l ih =>
        rw [List.foldl_cons, blockTask_of_clean h (hl task List.mem_cons_self)]
        exact ih (fun other ho => hl other (List.mem_cons_of_mem task ho))
  exact hfix schedule.pending (fun _ ht => ht)

end Pass

end Kross.Runtime

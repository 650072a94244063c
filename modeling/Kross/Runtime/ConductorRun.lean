import Kross.Runtime.ConductorOrder

namespace Kross.Runtime

open Kross.DepthFirst Kross.Run Kross.Verification

variable {tasks : List ConductorTask} {schedule : Schedule} {task other : ConductorTask} {failed id : String}
  {outcome : ConductorTaskOutcome} {seniorClient signal : Bool}

section Invariant

variable (tasks) in
/-- Every task of the plan is pending, running, or has its outcome. -/
structure Allotted (schedule : Schedule) : Prop where
  pending : schedule.pending.Sublist tasks
  running : ∀ task ∈ schedule.running, task ∈ tasks
  nodup : (schedule.running.map ConductorTask.id).Nodup
  apart : ∀ task ∈ schedule.pending, ∀ other ∈ schedule.running, task.id ≠ other.id
  waiting : ∀ task ∈ schedule.pending, schedule.outcomes task.id = none
  working : ∀ task ∈ schedule.running, schedule.outcomes task.id = none
  somewhere : ∀ task ∈ tasks, task ∈ schedule.pending ∨ task ∈ schedule.running ∨
    schedule.outcomes task.id ≠ none

variable (tasks) in
/-- What the log of the started workers says. -/
structure Logged (schedule : Schedule) : Prop where
  mem : ∀ start ∈ schedule.started, start.task ∈ tasks
  nodup : (schedule.started.map (·.task.id)).Nodup
  gone : ∀ start ∈ schedule.started, ∀ task ∈ schedule.pending, start.task.id ≠ task.id
  running : ∀ task ∈ schedule.running, ∃ start ∈ schedule.started, start.task = task
  decided : ∀ id outcome, schedule.outcomes id = some outcome → dependencyOutcomeSucceeded outcome = true →
    ∃ start ∈ schedule.started, start.task.id = id
  kept : ∀ start ∈ schedule.started, ∀ id outcome, start.outcomes id = some outcome →
    schedule.outcomes id = some outcome
  succeeded : ∀ start ∈ schedule.started, ∀ dependency ∈ start.task.dependencies, ∃ outcome,
    start.outcomes dependency = some outcome ∧ dependencyOutcomeSucceeded outcome = true

/-- Of two pending tasks no two are one. -/
theorem Allotted.inj (hwell : WellFormed tasks) (h : Allotted tasks schedule) (ht : task ∈ schedule.pending)
    (ho : other ∈ tasks) (hid : task.id = other.id) : task = other :=
  hwell.inj (h.pending.subset ht) ho hid

/-- A worker that has been started does not hang on a task without an outcome. -/
theorem Logged.not_hangs (hwell : WellFormed tasks) (h : Logged tasks schedule)
    (hnone : schedule.outcomes failed = none) (hhangs : Hangs tasks failed task) :
    ∀ start ∈ schedule.started, start.task.id ≠ task.id := by
  induction hhangs with
  | direct task hmem hd =>
      intro start hstart hid
      obtain rfl := hwell.inj (h.mem start hstart) hmem hid
      obtain ⟨outcome, ho, -⟩ := h.succeeded start hstart failed hd
      rw [h.kept start hstart failed outcome ho] at hnone
      cases hnone
  | later skipped task hskipped horder hd ih =>
      intro start hstart hid
      have hmem : task ∈ tasks := horder.subset (List.mem_cons_of_mem skipped List.mem_cons_self)
      obtain rfl := hwell.inj (h.mem start hstart) hmem hid
      obtain ⟨outcome, ho, hf⟩ := h.succeeded start hstart skipped.id hd
      obtain ⟨earlier, hearlier, heq⟩ := h.decided _ _ (h.kept start hstart _ outcome ho) hf
      exact ih earlier hearlier heq

end Invariant

section Settle

theorem Allotted.settle (h : Allotted tasks schedule) (ht : task ∈ schedule.running) :
    Allotted tasks (settle schedule task outcome) where
  pending := h.pending
  running other ho := h.running other (mem_dropTask.mp ho).1
  nodup := ((dropTask_sublist task schedule.running).map ConductorTask.id).nodup h.nodup
  apart other ho third hthird := h.apart other ho third (mem_dropTask.mp hthird).1
  waiting other ho := by
    simp only [Kross.Runtime.settle, Function.update_of_ne (h.apart other ho task ht)]
    exact h.waiting other ho
  working other ho := by
    obtain ⟨ho, hne⟩ := mem_dropTask.mp ho
    simp only [Kross.Runtime.settle, Function.update_of_ne hne]
    exact h.working other ho
  somewhere other ho := by
    by_cases hid : other.id = task.id
    · simp [Kross.Runtime.settle, hid]
    · simp only [Kross.Runtime.settle, Function.update_of_ne hid, mem_dropTask]
      exact (h.somewhere other ho).imp_right (Or.imp_left (fun hr => ⟨hr, hid⟩))

theorem Logged.settle (hlog : Logged tasks schedule) (h : Allotted tasks schedule) (ht : task ∈ schedule.running) :
    Logged tasks (settle schedule task outcome) where
  mem := hlog.mem
  nodup := hlog.nodup
  gone := hlog.gone
  running other ho := hlog.running other (mem_dropTask.mp ho).1
  decided id found hfound hs := by
    by_cases hid : id = task.id
    · obtain ⟨start, hstart, rfl⟩ := hlog.running task ht
      exact ⟨start, hstart, hid.symm⟩
    · simp only [Kross.Runtime.settle, Function.update_of_ne hid] at hfound
      exact hlog.decided id found hfound hs
  kept start hstart id found hfound := by
    have hkept := hlog.kept start hstart id found hfound
    have hid : id ≠ task.id := by
      rintro rfl
      rw [h.working task ht] at hkept
      cases hkept
    simp only [Kross.Runtime.settle, Function.update_of_ne hid]
    exact hkept
  succeeded := hlog.succeeded

theorem clean_settle (task : ConductorTask) (h : Clean schedule) (hs : dependencyOutcomeSucceeded outcome = true) :
    Clean (settle schedule task outcome) := by
  intro other ho dependency hd found hfound
  by_cases hid : dependency = task.id
  · simp only [settle, hid, Function.update_self, Option.some.injEq] at hfound
    exact hfound ▸ hs
  · simp only [settle, Function.update_of_ne hid] at hfound
    exact h other ho dependency hd found hfound

theorem failing_settle (hwell : WellFormed tasks) (h : Allotted tasks schedule) (hlog : Logged tasks schedule)
    (hclean : Clean schedule) (ht : task ∈ schedule.running) (hf : dependencyOutcomeSucceeded outcome = false) :
    Failing tasks task.id (settle schedule task outcome) where
  pending := h.pending
  fresh other ho := by
    simp only [settle, Function.update_of_ne (h.apart other ho task ht)]
    exact h.waiting other ho
  clean other ho dependency hd found hfound hfails := by
    by_contra hid
    simp only [settle, Function.update_of_ne hid] at hfound
    rw [hclean other ho dependency hd found hfound] at hfails
    cases hfails
  known := ⟨outcome, Function.update_self .., hf⟩
  skipped other hhangs := by
    have hnot := hlog.not_hangs hwell (h.working task ht) hhangs
    by_cases hid : other.id = task.id
    · exact Or.inr ⟨outcome, by simp [settle, hid], hf⟩
    · rcases h.somewhere other hhangs.mem with hp | hr | hsome
      · exact Or.inl hp
      · obtain ⟨start, hstart, rfl⟩ := hlog.running other hr
        exact absurd rfl (hnot start hstart)
      · obtain ⟨found, hfound⟩ := Option.ne_none_iff_exists'.mp hsome
        refine Or.inr ⟨found, by simp [settle, hid, hfound], ?_⟩
        rw [← Bool.not_eq_true]
        intro hs
        obtain ⟨start, hstart, heq⟩ := hlog.decided other.id found hfound hs
        exact hnot start hstart heq

end Settle

section Blocked

variable {base : Schedule}

theorem Examined.subset (h : Examined tasks base failed base.pending schedule) (ht : task ∈ schedule.pending) :
    task ∈ base.pending ∧ schedule.outcomes task.id = none := by
  rw [h.pending, List.mem_filter, Option.isNone_iff_eq_none] at ht
  exact ht

theorem Examined.kept (hbase : Failing tasks failed base) (h : Examined tasks base failed base.pending schedule)
    (ho : base.outcomes id = some outcome) : schedule.outcomes id = some outcome := by
  rw [h.frame id (hbase.frame ho), ho]

theorem Allotted.blocked (hbase : Failing tasks failed base) (hall : Allotted tasks base)
    (h : Examined tasks base failed base.pending schedule) : Allotted tasks schedule where
  pending := by
    rw [h.pending]
    exact List.filter_sublist.trans hall.pending
  running := h.running ▸ hall.running
  nodup := h.running ▸ hall.nodup
  apart task ht := h.running ▸ hall.apart task (h.subset ht).1
  waiting task ht := (h.subset ht).2
  working task ht := by
    rw [h.running] at ht
    rw [h.frame task.id (fun hid => ?_)]
    · exact hall.working task ht
    · obtain ⟨other, ho, heq⟩ := List.mem_map.mp hid
      exact hall.apart other ho task ht heq
  somewhere task ht := by
    rcases hall.somewhere task ht with hp | hr | hsome
    · by_cases hnone : schedule.outcomes task.id = none
      · refine Or.inl ?_
        rw [h.pending, List.mem_filter, Option.isNone_iff_eq_none]
        exact ⟨hp, hnone⟩
      · exact Or.inr (Or.inr hnone)
    · exact Or.inr (Or.inl (h.running ▸ hr))
    · obtain ⟨outcome, ho⟩ := Option.ne_none_iff_exists'.mp hsome
      exact Or.inr (Or.inr (h.kept hbase ho ▸ Option.some_ne_none outcome))

theorem Logged.blocked (hbase : Failing tasks failed base) (hlog : Logged tasks base)
    (h : Examined tasks base failed base.pending schedule) : Logged tasks schedule where
  mem := h.started ▸ hlog.mem
  nodup := h.started ▸ hlog.nodup
  gone start hstart task ht := hlog.gone start (h.started ▸ hstart) task (h.subset ht).1
  running := by
    rw [h.running, h.started]
    exact hlog.running
  decided id outcome ho hs := by
    rw [h.started]
    by_cases hid : id ∈ base.pending.map ConductorTask.id
    · obtain ⟨other, hother, rfl⟩ := List.mem_map.mp hid
      rw [(h.blocked other hother outcome ho).2.2.1] at hs
      cases hs
    · rw [h.frame id hid] at ho
      exact hlog.decided id outcome ho hs
  kept start hstart id outcome ho := h.kept hbase (hlog.kept start (h.started ▸ hstart) id outcome ho)
  succeeded := h.started ▸ hlog.succeeded

end Blocked

section Start

theorem Allotted.startTask (hwell : WellFormed tasks) (h : Allotted tasks schedule) (ht : task ∈ schedule.pending) :
    Allotted tasks (startTask schedule task) where
  pending := (dropTask_sublist task schedule.pending).trans h.pending
  running := List.forall_mem_append.mpr
    ⟨h.running, List.forall_mem_singleton.mpr (h.pending.subset ht)⟩
  nodup := by
    have hnot : task.id ∉ schedule.running.map ConductorTask.id := by
      intro hid
      obtain ⟨other, ho, heq⟩ := List.mem_map.mp hid
      exact h.apart task ht other ho heq.symm
    simp only [Kross.Runtime.startTask, List.map_append, List.map_cons, List.map_nil]
    exact List.nodup_append'.mpr ⟨h.nodup, List.nodup_singleton task.id, by simpa using hnot⟩
  apart other ho := List.forall_mem_append.mpr
    ⟨h.apart other (mem_dropTask.mp ho).1, List.forall_mem_singleton.mpr (mem_dropTask.mp ho).2⟩
  waiting other ho := h.waiting other (mem_dropTask.mp ho).1
  working := List.forall_mem_append.mpr ⟨h.working, List.forall_mem_singleton.mpr (h.waiting task ht)⟩
  somewhere other ho := by
    simp only [Kross.Runtime.startTask, mem_dropTask, List.mem_append, List.mem_singleton]
    by_cases hid : other = task
    · exact Or.inr (Or.inl (Or.inr hid))
    · rcases h.somewhere other ho with hp | hr | hsome
      · exact Or.inl ⟨hp, fun heq => hid (h.inj hwell hp (h.pending.subset ht) heq)⟩
      · exact Or.inr (Or.inl (Or.inl hr))
      · exact Or.inr (Or.inr hsome)

theorem Logged.startTask (hlog : Logged tasks schedule) (h : Allotted tasks schedule) (hclean : Clean schedule)
    (ht : task ∈ schedule.pending) (hready : readyTask schedule.outcomes task = true) :
    Logged tasks (startTask schedule task) where
  mem := List.forall_mem_append.mpr
    ⟨hlog.mem, List.forall_mem_singleton.mpr (h.pending.subset ht)⟩
  nodup := by
    have hnot : task.id ∉ schedule.started.map (·.task.id) := by
      intro hid
      obtain ⟨start, hstart, heq⟩ := List.mem_map.mp hid
      exact hlog.gone start hstart task ht heq
    simp only [Kross.Runtime.startTask, List.map_append, List.map_cons, List.map_nil]
    exact List.nodup_append'.mpr ⟨hlog.nodup, List.nodup_singleton task.id, by simpa using hnot⟩
  gone := List.forall_mem_append.mpr
    ⟨fun start hstart other ho => hlog.gone start hstart other (mem_dropTask.mp ho).1,
      List.forall_mem_singleton.mpr (fun other ho => (mem_dropTask.mp ho).2.symm)⟩
  running := List.forall_mem_append.mpr
    ⟨fun other ho => (hlog.running other ho).imp (fun start hstart =>
        ⟨List.mem_append_left _ hstart.1, hstart.2⟩),
      List.forall_mem_singleton.mpr
        ⟨⟨task, schedule.outcomes⟩, List.mem_append_right _ (List.mem_singleton_self _), rfl⟩⟩
  decided id outcome ho hs := (hlog.decided id outcome ho hs).imp (fun start hstart =>
    ⟨List.mem_append_left _ hstart.1, hstart.2⟩)
  kept := List.forall_mem_append.mpr
    ⟨hlog.kept, List.forall_mem_singleton.mpr (fun _ _ ho => ho)⟩
  succeeded := by
    refine List.forall_mem_append.mpr ⟨hlog.succeeded, List.forall_mem_singleton.mpr (fun dependency hd => ?_)⟩
    obtain ⟨outcome, ho⟩ := Option.isSome_iff_exists.mp (List.all_eq_true.mp hready dependency hd)
    exact ⟨outcome, ho, hclean task ht dependency hd outcome ho⟩

theorem Clean.startTask (h : Clean schedule) : Clean (startTask schedule task) :=
  fun other ho => h other (mem_dropTask.mp ho).1

theorem length_dropTask_lt {l : List ConductorTask} (ht : task ∈ l) : (dropTask task l).length < l.length :=
  List.length_filter_lt_length_iff_exists.mpr ⟨task, ht, by simp⟩

/-- How many outcomes are still to come. -/
def left (schedule : Schedule) : Nat := schedule.pending.length + schedule.running.length

theorem left_startTask (ht : task ∈ schedule.pending) : left (startTask schedule task) ≤ left schedule := by
  have hlt := length_dropTask_lt ht
  simp only [left, startTask, List.length_append, List.length_singleton]
  omega

variable (tasks) in
/-- What holds whenever the loop has skipped what it can, and starts workers. -/
structure Steady (schedule : Schedule) : Prop where
  allotted : Allotted tasks schedule
  logged : Logged tasks schedule
  clean : Clean schedule
  phase : schedule.phase = .waiting

theorem Steady.startTask (hwell : WellFormed tasks) (h : Steady tasks schedule) (ht : task ∈ schedule.pending)
    (hready : readyTask schedule.outcomes task = true) : Steady tasks (startTask schedule task) :=
  ⟨h.allotted.startTask hwell ht, h.logged.startTask h.allotted h.clean ht hready, h.clean.startTask, h.phase⟩

theorem startWorkers_steady (hwell : WellFormed tasks) (room : Nat) (h : Steady tasks schedule) :
    Steady tasks (startWorkers room schedule) ∧ left (startWorkers room schedule) ≤ left schedule ∧
      (startWorkers room schedule).running.length ≤ schedule.running.length + room ∧
      (startWorkers room schedule).outcomes = schedule.outcomes := by
  induction room generalizing schedule with
  | zero => exact ⟨h, le_refl _, le_refl _, rfl⟩
  | succ room ih =>
      rw [startWorkers]
      split
      next => exact ⟨h, le_refl _, Nat.le_add_right _ _, rfl⟩
      next task hfind =>
        have ht := List.mem_of_find?_eq_some hfind
        obtain ⟨hsteady, hleft, hrunning, hout⟩ := ih (h.startTask hwell ht (List.find?_some hfind))
        refine ⟨hsteady, hleft.trans (left_startTask ht), hrunning.trans ?_, hout⟩
        simp only [startTask, List.length_append, List.length_singleton]
        omega

theorem running_of_startWorkers (room : Nat) (h : (startWorkers room schedule).running = []) :
    schedule.running = [] := by
  induction room generalizing schedule with
  | zero => exact h
  | succ room ih =>
      rw [startWorkers] at h
      split at h
      next => exact h
      next task hfind => exact absurd (ih h) (by simp [startTask])

/-- A loop with room for a worker starts one if a task is ready. -/
theorem not_ready_of_startWorkers (room : Nat) (h : (startWorkers (room + 1) schedule).running = []) :
    startWorkers (room + 1) schedule = schedule ∧
      ∀ task ∈ schedule.pending, readyTask schedule.outcomes task = false := by
  rw [startWorkers] at h ⊢
  split at h
  next hnone => exact ⟨rfl, fun task ht => by simpa using List.find?_eq_none.mp hnone task ht⟩
  next task hfind => exact absurd (running_of_startWorkers room h) (by simp [startTask])

/-- Tasks that wait for nobody can go on, as no way through the dependencies goes on for ever. -/
theorem pending_eq_nil (hwell : WellFormed tasks) (h : Allotted tasks schedule) (hidle : schedule.running = [])
    (hstuck : ∀ task ∈ schedule.pending, readyTask schedule.outcomes task = false) : schedule.pending = [] := by
  have hnone : ∀ id, Ends (knownDependencies tasks) id → ∀ task ∈ schedule.pending, task.id ≠ id := by
    intro id hends
    induction hends with
    | intro id _ ih =>
        rintro task ht rfl
        have hmem := h.pending.subset ht
        have hnot := hstuck task ht
        rw [readyTask, List.all_eq_false] at hnot
        obtain ⟨dependency, hd, hmissing⟩ := hnot
        rw [Option.not_isSome_iff_eq_none] at hmissing
        obtain ⟨other, ho, rfl⟩ := List.mem_map.mp (hwell.known task hmem dependency hd).2.2
        rcases h.somewhere other ho with hp | hr | hsome
        · exact ih other.id ((hwell.mem_knownDependencies_iff hmem).mpr hd) other hp rfl
        · rw [hidle] at hr
          cases hr
        · exact hsome hmissing
  rw [List.eq_nil_iff_forall_not_mem]
  intro task ht
  exact hnone task.id (hwell.ends task (h.pending.subset ht)) task ht rfl

end Start

section Turn

variable (tasks) in
/-- What holds whenever the loop waits for a worker or is over. -/
structure Resting (schedule : Schedule) : Prop where
  allotted : schedule.phase ≠ .aborted → Allotted tasks schedule
  logged : Logged tasks schedule
  limit : schedule.running.length ≤ CONDUCTOR_MAX_CONCURRENCY
  waiting : schedule.phase = .waiting → Clean schedule ∧ schedule.running ≠ []
  ended : schedule.phase = .ended → schedule.pending = [] ∧ schedule.running = []

theorem giveUp_of_nil (h : schedule.pending = []) : giveUp schedule = { schedule with phase := .ended } := by
  rw [giveUp, h]
  rfl

theorem Allotted.withPhase (h : Allotted tasks schedule) (phase : SchedulePhase) :
    Allotted tasks { schedule with phase := phase } :=
  ⟨h.pending, h.running, h.nodup, h.apart, h.waiting, h.working, h.somewhere⟩

theorem Logged.withPhase (h : Logged tasks schedule) (phase : SchedulePhase) :
    Logged tasks { schedule with phase := phase } :=
  ⟨h.mem, h.nodup, h.gone, h.running, h.decided, h.kept, h.succeeded⟩

variable (tasks) in
/-- What a round without an abort makes of the loop. -/
structure Turned (blocked next : Schedule) : Prop where
  resting : Resting tasks next
  left : next.phase = .waiting → left next ≤ left blocked
  outcomes : next.outcomes = blocked.outcomes
  phase : next.phase ≠ .aborted

theorem startWorkers_turned (hwell : WellFormed tasks) (hblocked : Steady tasks schedule) {room : Nat}
    (hroom : schedule.running.length + room = CONDUCTOR_MAX_CONCURRENCY) {next : Schedule}
    (hnext : next = if (startWorkers room schedule).running = [] then giveUp (startWorkers room schedule)
      else startWorkers room schedule) : Turned tasks schedule next := by
  obtain ⟨hsteady, hleft, hcount, hout⟩ := startWorkers_steady hwell room hblocked
  rw [hroom] at hcount
  split_ifs at hnext with hidle
  · obtain ⟨room, rfl⟩ : ∃ n, room = n + 1 := by
      refine Nat.exists_eq_succ_of_ne_zero ?_
      rintro rfl
      rw [running_of_startWorkers 0 hidle] at hroom
      cases hroom
    obtain ⟨heq, hstuck⟩ := not_ready_of_startWorkers room hidle
    rw [heq] at hidle hcount hnext
    have hnil := pending_eq_nil hwell hblocked.allotted hidle hstuck
    rw [giveUp_of_nil hnil] at hnext
    subst hnext
    exact ⟨⟨fun _ => hblocked.allotted.withPhase .ended, hblocked.logged.withPhase .ended, hcount, nofun,
      fun _ => ⟨hnil, hidle⟩⟩, nofun, rfl, nofun⟩
  · subst hnext
    refine ⟨⟨fun _ => hsteady.allotted, hsteady.logged, hcount, fun _ => ⟨hsteady.clean, hidle⟩, fun hended => ?_⟩,
      fun _ => hleft, hout, ?_⟩
    · rw [hsteady.phase] at hended
      cases hended
    · rw [hsteady.phase]
      exact SchedulePhase.noConfusion

theorem turn_turned (hwell : WellFormed tasks) (hall : Allotted tasks schedule) (hlog : Logged tasks schedule)
    (hlimit : schedule.running.length ≤ CONDUCTOR_MAX_CONCURRENCY)
    (hblocked : Steady tasks (blockPending schedule))
    (hrunning : (blockPending schedule).running = schedule.running) :
    Turned tasks (blockPending schedule) (turn false schedule) := by
  by_cases hdone : schedule.pending = [] ∧ schedule.running = []
  · rw [turn, if_pos hdone]
    refine ⟨⟨fun _ => hall.withPhase .ended, hlog.withPhase .ended, hlimit, (by rintro ⟨⟩), fun _ => hdone⟩, (by rintro ⟨⟩), ?_,
      (by rintro ⟨⟩)⟩
    rw [blockPending, hdone.1]
    rfl
  · rw [turn, if_neg hdone, if_neg Bool.false_ne_true]
    refine startWorkers_turned hwell hblocked ?_ rfl
    rw [hrunning]
    omega

theorem turn_resting (hwell : WellFormed tasks) (hall : Allotted tasks schedule) (hlog : Logged tasks schedule)
    (hlimit : schedule.running.length ≤ CONDUCTOR_MAX_CONCURRENCY)
    (hblocked : Steady tasks (blockPending schedule))
    (hrunning : (blockPending schedule).running = schedule.running)
    (hpending : (blockPending schedule).pending.length ≤ schedule.pending.length) :
    Resting tasks (turn signal schedule) ∧
      ((turn signal schedule).phase = .waiting → left (turn signal schedule) ≤ left schedule) := by
  have hturned := turn_turned hwell hall hlog hlimit hblocked hrunning
  cases signal with
  | true =>
      by_cases hdone : schedule.pending = [] ∧ schedule.running = []
      · rw [turn, if_pos hdone]
        exact ⟨⟨fun _ => hall.withPhase .ended, hlog.withPhase .ended, hlimit, (by rintro ⟨⟩), fun _ => hdone⟩, (by rintro ⟨⟩)⟩
      · rw [turn, if_neg hdone, if_pos rfl]
        exact ⟨⟨fun h => absurd rfl h, hlog.withPhase .aborted, hlimit, (by rintro ⟨⟩), (by rintro ⟨⟩)⟩, (by rintro ⟨⟩)⟩
  | false =>
      refine ⟨hturned.resting, fun hwaiting => (hturned.left hwaiting).trans ?_⟩
      simp only [left, hrunning]
      omega

theorem left_settle (ht : task ∈ schedule.running) : left (settle schedule task outcome) < left schedule := by
  have hlt := length_dropTask_lt ht
  simp only [left, settle]
  omega

theorem settle_turned (hwell : WellFormed tasks) (h : Resting tasks schedule)
    (hwaiting : schedule.phase = .waiting) (ht : task ∈ schedule.running)
    (hs : dependencyOutcomeSucceeded outcome = true) :
    Turned tasks (settle schedule task outcome) (turn false (settle schedule task outcome)) := by
  have hbefore := h.allotted (by rw [hwaiting]; exact SchedulePhase.noConfusion)
  have hall : Allotted tasks (settle schedule task outcome) := hbefore.settle ht
  have hlog : Logged tasks (settle schedule task outcome) := h.logged.settle hbefore ht
  have hclean := clean_settle task (h.waiting hwaiting).1 hs
  have hsame := blockPending_of_clean hclean
  have hlimit := ((dropTask_sublist task schedule.running).length_le).trans h.limit
  have hturned := turn_turned hwell hall hlog hlimit (by rw [hsame]; exact ⟨hall, hlog, hclean, hwaiting⟩)
    (by rw [hsame])
  rwa [hsame] at hturned

theorem turn_settle (signal : Bool) (hwell : WellFormed tasks) (hsettles : Settles tasks) (h : Resting tasks schedule)
    (hwaiting : schedule.phase = .waiting) (ht : task ∈ schedule.running) :
    Resting tasks (turn signal (settle schedule task outcome)) ∧
      ((turn signal (settle schedule task outcome)).phase = .waiting →
        left (turn signal (settle schedule task outcome)) ≤ left (settle schedule task outcome)) := by
  have hbefore := h.allotted (by rw [hwaiting]; exact SchedulePhase.noConfusion)
  have hall : Allotted tasks (settle schedule task outcome) := hbefore.settle ht
  have hlog : Logged tasks (settle schedule task outcome) := h.logged.settle hbefore ht
  have hclean := (h.waiting hwaiting).1
  have hlimit := ((dropTask_sublist task schedule.running).length_le).trans h.limit
  cases hs : dependencyOutcomeSucceeded outcome with
  | true =>
      have hclean := clean_settle task hclean hs
      have hsame := blockPending_of_clean hclean
      refine turn_resting hwell hall hlog hlimit ?_ (by rw [hsame]) (by rw [hsame])
      rw [hsame]
      exact ⟨hall, hlog, hclean, hwaiting⟩
  | false =>
      have hbase := failing_settle hwell hbefore h.logged hclean ht hs
      have hexamined := examined_blockPending hwell hbase
      refine turn_resting hwell hall hlog hlimit ?_ hexamined.running ?_
      · exact ⟨hall.blocked hbase hexamined, hlog.blocked hbase hexamined,
          hexamined.clean hsettles hbase, hexamined.phase.trans hwaiting⟩
      · rw [hexamined.pending]
        exact List.length_filter_le _ _

/-- A settlement of a worker that is running. -/
def OfRunning (schedule : Schedule) (settlement : Settlement) : Prop :=
  schedule.phase = .waiting → ∃ task ∈ schedule.running, task.id = settlement.id

theorem next_resting (hwell : WellFormed tasks) (hsettles : Settles tasks) (h : Resting tasks schedule)
    (settlement : Settlement) :
    Resting tasks (schedule.next seniorClient settlement) ∧
      ((schedule.next seniorClient settlement).phase = .waiting → OfRunning schedule settlement →
        left (schedule.next seniorClient settlement) < left schedule) := by
  rw [Schedule.next]
  split
  next task hwaiting hfind =>
    have ht := List.mem_of_find?_eq_some hfind
    dsimp only
    split_ifs with haborted
    · have hrunning := (dropTask_sublist task schedule.running)
      have hlog := h.logged
      exact ⟨⟨fun h => absurd rfl h, ⟨hlog.mem, hlog.nodup, hlog.gone,
        fun other ho => hlog.running other (mem_dropTask.mp ho).1, hlog.decided, hlog.kept, hlog.succeeded⟩,
        hrunning.length_le.trans h.limit, (by rintro ⟨⟩), (by rintro ⟨⟩)⟩, (by rintro ⟨⟩)⟩
    · obtain ⟨hresting, hleft⟩ := turn_settle settlement.signal hwell hsettles h hwaiting ht
      exact ⟨hresting, fun hphase _ => (hleft hphase).trans_lt (left_settle ht)⟩
  next hnot =>
    refine ⟨h, fun hwaiting hof => ?_⟩
    obtain ⟨task, ht, hid⟩ := hof hwaiting
    have hsome := List.find?_isSome (p := fun task : ConductorTask => decide (task.id = settlement.id)).mpr
      ⟨task, ht, by simp [hid]⟩
    obtain ⟨found, hfound⟩ := Option.isSome_iff_exists.mp hsome
    exact absurd hfound (hnot found hwaiting)

theorem initial_allotted (tasks : List ConductorTask) : Allotted tasks (.initial tasks) :=
  ⟨List.Sublist.refl tasks, nofun, List.nodup_nil, fun _ _ => nofun, fun _ _ => rfl, nofun,
    fun _ ht => Or.inl ht⟩

theorem initial_logged (tasks : List ConductorTask) : Logged tasks (.initial tasks) :=
  ⟨nofun, List.nodup_nil, nofun, nofun, fun _ _ ho => (by cases ho), nofun, nofun⟩

theorem initial_blockPending (tasks : List ConductorTask) :
    blockPending (.initial tasks) = .initial tasks ∧ Steady tasks (.initial tasks) := by
  have hclean : Clean (.initial tasks) := fun _ _ _ _ _ ho => by cases ho
  exact ⟨blockPending_of_clean hclean, initial_allotted tasks, initial_logged tasks, hclean, rfl⟩

theorem initial_turned (hwell : WellFormed tasks) : Turned tasks (.initial tasks) (turn false (.initial tasks)) := by
  obtain ⟨hsame, hsteady⟩ := initial_blockPending tasks
  have hturned := turn_turned hwell (initial_allotted tasks) (initial_logged tasks) (Nat.zero_le _)
    (by rw [hsame]; exact hsteady) (by rw [hsame])
  rwa [hsame] at hturned

theorem conductor_resting (signal : Bool) (hwell : WellFormed tasks) :
    Resting tasks (turn signal (.initial tasks)) ∧
      ((turn signal (.initial tasks)).phase = .waiting → left (turn signal (.initial tasks)) ≤ tasks.length) := by
  obtain ⟨hsame, hsteady⟩ := initial_blockPending tasks
  exact turn_resting hwell (initial_allotted tasks) (initial_logged tasks) (Nat.zero_le _)
    (by rw [hsame]; exact hsteady) (by rw [hsame]) (by rw [hsame])

end Turn

section Claim

variable {plan : ConductorTaskPlan}

variable (tasks) in
/-- The order of a plan is kept: nothing starts before what it depends on has
succeeded, at most three workers run, none is started twice, the loop never waits
for nobody, and in the end every task has its outcome, in the order of the plan. -/
structure Orderly (schedule : Schedule) : Prop where
  dependencies : ∀ start ∈ schedule.started, ∀ dependency ∈ start.task.dependencies, ∃ outcome,
    start.outcomes dependency = some outcome ∧ dependencyOutcomeSucceeded outcome = true
  limit : schedule.running.length ≤ 3
  once : (schedule.started.map (·.task.id)).Nodup
  waiting : schedule.phase = .waiting → schedule.running ≠ []
  ended : schedule.phase = .ended → (∀ task ∈ tasks, schedule.outcomes task.id ≠ none) ∧
    (taskOutcomes tasks schedule).map (·.taskId) = tasks.map ConductorTask.id

theorem Resting.orderly (h : Resting tasks schedule) (hnamed : Named tasks schedule) : Orderly tasks schedule where
  dependencies := h.logged.succeeded
  limit := h.limit
  once := h.logged.nodup
  waiting hwaiting := (h.waiting hwaiting).2
  ended hended := by
    have hall := h.allotted (by rw [hended]; exact SchedulePhase.noConfusion)
    obtain ⟨hpending, hrunning⟩ := h.ended hended
    constructor
    · intro task ht
      rcases hall.somewhere task ht with hp | hr | hsome
      · rw [hpending] at hp
        cases hp
      · rw [hrunning] at hr
        cases hr
      · exact hsome
    · rw [← List.forall₂_eq_eq_eq, List.forall₂_map_left_iff, List.forall₂_map_right_iff]
      exact hnamed.taskOutcomes.imp (fun _ _ hof => hof.taskId)

theorem conductor_run (hwell : WellFormed tasks) (hsettles : Settles tasks) (settlements : List Settlement) :
    Resting tasks (after (Schedule.next seniorClient) (turn signal (.initial tasks)) settlements) :=
  keeps (I := Resting tasks) (fun _ settlement h => (next_resting hwell hsettles h settlement).1)
    (conductor_resting signal hwell).1 settlements

theorem waiting_of_next {settlement : Settlement}
    (h : (schedule.next seniorClient settlement).phase = .waiting) : schedule.phase = .waiting := by
  rw [Schedule.next] at h
  split at h
  next task hwaiting hfind => exact hwaiting
  next => exact h

theorem waiting_of_after {settlements : List Settlement}
    (h : (after (Schedule.next seniorClient) schedule settlements).phase = .waiting) : schedule.phase = .waiting := by
  induction settlements using List.reverseRecOn with
  | nil => exact h
  | append_singleton settlements settlement ih =>
      rw [after_concat] at h
      exact ih (waiting_of_next h)

/-- Every settlement brings the end nearer. -/
theorem left_after (hwell : WellFormed tasks) (hsettles : Settles tasks) {settlements : List Settlement}
    (h : Resting tasks schedule) (hrun : Along (Schedule.next seniorClient) OfRunning schedule settlements)
    (hwaiting : (after (Schedule.next seniorClient) schedule settlements).phase = .waiting) :
    left (after (Schedule.next seniorClient) schedule settlements) + settlements.length ≤ left schedule := by
  induction settlements using List.reverseRecOn with
  | nil => exact le_refl _
  | append_singleton settlements settlement ih =>
      obtain ⟨hrun, hof⟩ := along_concat.mp hrun
      rw [after_concat] at hwaiting ⊢
      have hbefore := ih hrun (waiting_of_next hwaiting)
      have hresting : Resting tasks (after (Schedule.next seniorClient) schedule settlements) :=
        keeps (I := Resting tasks) (fun _ step hs => (next_resting hwell hsettles hs step).1) h settlements
      have hlt := (next_resting hwell hsettles hresting settlement).2 hwaiting hof
      rw [List.length_append, List.length_singleton]
      omega

/-- In every accepted plan that settles, whatever the workers come to and in whatever
order they do. -/
theorem schedule_orderly (seniorClient signal : Bool) (haccepted : plan.accepted) (hsettles : Settles plan.tasks)
    (settlements : List Settlement) :
    Orderly plan.tasks
        (after (Schedule.next seniorClient) (turn signal (.initial plan.tasks)) settlements) ∧
      (Along (Schedule.next seniorClient) OfRunning (turn signal (.initial plan.tasks)) settlements →
        (after (Schedule.next seniorClient) (turn signal (.initial plan.tasks)) settlements).phase = .waiting →
        settlements.length < plan.tasks.length) := by
  have hwell := wellFormed_of_accepted haccepted
  have hresting : Resting plan.tasks
      (after (Schedule.next seniorClient) (turn signal (.initial plan.tasks)) settlements) :=
    conductor_run hwell hsettles settlements
  refine ⟨hresting.orderly (conductor_named hwell settlements), fun hrun hwaiting => ?_⟩
  obtain ⟨hstart, hfirst⟩ := conductor_resting signal hwell
  have hleft := left_after hwell hsettles hstart hrun hwaiting
  have hsome := List.length_pos_of_ne_nil (hresting.waiting hwaiting).2
  have hcount := hfirst (waiting_of_after hwaiting)
  rw [left] at hleft
  omega

section Example

/-- The model answers every attempt with one result. -/
def answersWith (result : SubagentResult) : WorkerRun := ⟨fun _ _ => .result result, fun _ => .aborted⟩

/-- A worker that has written a file and checked it. -/
def checkedResult : SubagentResult where
  status := .completed
  summary := "done".toList
  changedFiles := ["src/a.ts".toList]
  diffSummary := []
  commandsRun := ["npm test".toList]
  toolsUsed := ["Write".toList, "Verify".toList]
  verification := ⟨.passed, ["npm test".toList], [], none⟩
  evidence := []
  risks := []
  needsReview := []

def planOf (tasks : List ConductorTask) : ConductorTaskPlan where
  goal := "ship it".toList
  tasks := tasks

def taskOf (id : String) (dependencies : List String) : ConductorTask where
  id := id
  title := id.toList
  prompt := ("Do ".toList ++ id.toList)
  dependsOn := some dependencies

end Example

/-- One task waits for the other, and is done behind it. -/
theorem schedule_orderly_inOrder :
    Orderly (planOf [taskOf "a" [], taskOf "b" ["a"]]).tasks
        (after (Schedule.next true) (turn false (.initial (planOf [taskOf "a" [], taskOf "b" ["a"]]).tasks))
          [⟨"a", answersWith checkedResult, false⟩, ⟨"b", answersWith checkedResult, false⟩]) ∧
      (Along (Schedule.next true) OfRunning
          (turn false (.initial (planOf [taskOf "a" [], taskOf "b" ["a"]]).tasks))
          [⟨"a", answersWith checkedResult, false⟩, ⟨"b", answersWith checkedResult, false⟩] →
        (after (Schedule.next true) (turn false (.initial (planOf [taskOf "a" [], taskOf "b" ["a"]]).tasks))
          [⟨"a", answersWith checkedResult, false⟩, ⟨"b", answersWith checkedResult, false⟩]).phase = .waiting →
        2 < 2) := by
  refine schedule_orderly true false (by decide) (settles_of_topological ?_) _
  decide

/-- The second task depends on the third, which is skipped only behind it: its
worker starts although what it depends on was skipped. -/
def misordered : ConductorTaskPlan := planOf [taskOf "c" [], taskOf "t" ["b"], taskOf "b" ["c"]]

def failedResult : SubagentResult := { checkedResult with status := .failed }

theorem misordered_not_orderly :
    ¬∀ (plan : ConductorTaskPlan) (seniorClient signal : Bool) (settlements : List Settlement), plan.accepted →
      Orderly plan.tasks
        (after (Schedule.next seniorClient) (turn signal (.initial plan.tasks)) settlements) := by
  intro h
  have horder := h misordered true false [⟨"c", answersWith failedResult, false⟩] (by decide)
  have hall : (after (Schedule.next true) (turn false (.initial misordered.tasks))
      [⟨"c", answersWith failedResult, false⟩]).started.all (fun start =>
        start.task.dependencies.all (fun dependency =>
          (start.outcomes dependency).any dependencyOutcomeSucceeded)) = true := by
    refine List.all_eq_true.mpr (fun start hstart => List.all_eq_true.mpr (fun dependency hd => ?_))
    obtain ⟨outcome, ho, hs⟩ := horder.dependencies start hstart dependency hd
    rw [ho]
    exact hs
  exact absurd hall (by decide)

end Claim

end Kross.Runtime

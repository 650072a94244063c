import Kross.Mutation.Coordinator
import Kross.Mutation.UndoRun

namespace Kross.Mutation

open Kross.FileTree Kross.Prog Kross.Rewind

variable {D H : Type}

inductive CoordinatorStep
  | record (workspaceRoot : FilePath) (input : RecordInput) (action : Action)
  | recordAbsolute (input : RecordInput) (action : Action)
  | outside (edit : Files → Files)
  | undo (now : String) (target : Option String)

/-- The service a mutation goes to, and what that service is asked to record. -/
def CoordinatorStep.call (v : View String Bytes) :
    CoordinatorStep → Option (FilePath × RecordInput × Action)
  | .record root input action => some (canonicalRoot v root, input, action)
  | .recordAbsolute input action =>
      if input.paths = [] then none
      else some (canonicalRoot v (absoluteCall input).1, (absoluteCall input).2, action)
  | _ => none

/-- A step as it was seen from the disk, with the service that wrote. -/
structure CoordinatorEntry (D H : Type) where
  root : Option FilePath
  entry : TraceEntry D H

section Steps

variable [DecidableEq D] [DecidableEq H] (sha : Sha256 D H)

def coordinatorStep (s : CoordinatorState D H) : CoordinatorStep → CoordinatorState D H
  | .record root input action => (exec (recordIn sha root input action) s).2
  | .recordAbsolute input action => (exec (recordAbsolute sha input action) s).2
  | .outside edit => { s with disk := edit s.disk }
  | .undo now target => (exec (coordinatorUndo sha now target) s).2

def coordinatorEntry (s : CoordinatorState D H) (step : CoordinatorStep) : CoordinatorEntry D H :=
  let s' := coordinatorStep sha s step
  match step.call s.disk.view with
  | some (root, input, action) => ⟨some root, ⟨writer (serviceState s' root) (.record input action),
      s.disk.view, s'.disk.view⟩⟩
  | none => ⟨none, ⟨.outside, s.disk.view, s'.disk.view⟩⟩

def coordinatorTrace (s : CoordinatorState D H) : List CoordinatorStep → List (CoordinatorEntry D H)
  | [] => []
  | step :: steps =>
      coordinatorEntry sha s step :: coordinatorTrace (coordinatorStep sha s step) steps

def runCoordinator (s : CoordinatorState D H) (steps : List CoordinatorStep) : CoordinatorState D H :=
  steps.foldl (coordinatorStep sha) s

def CoordinatorStepOk (s : CoordinatorState D H) (step : CoordinatorStep) : Prop :=
  ∀ root input action, step.call s.disk.view = some (root, input, action) →
    Fresh (serviceState s root) input ∧ SeesPaths root (serviceState s root) input action

def CoordinatorStepsOk (s : CoordinatorState D H) : List CoordinatorStep → Prop
  | [] => True
  | step :: steps =>
      CoordinatorStepOk s step ∧ CoordinatorStepsOk (coordinatorStep sha s step) steps

end Steps

def newCoordinator (d : Files) : CoordinatorState D H := ⟨d, []⟩

/-- A trace as the service at `root` sees it: what others write comes from
outside. -/
def seenFrom (root : FilePath) (entries : List (CoordinatorEntry D H)) : List (TraceEntry D H) :=
  entries.map (fun e => if e.root = some root then e.entry else ⟨.outside, e.entry.before, e.entry.after⟩)

section Services

variable {s : CoordinatorState D H} {root : FilePath}

theorem serviceState_putService_self (t : MutationState D H) :
    serviceState (putService s root t) root = t := by
  rw [serviceState, putService]
  dsimp only
  rw [mapGet_mapSet, if_pos rfl]
  rfl

theorem serviceState_putService_ne {root' : FilePath} (h : root ≠ root') (t : MutationState D H) :
    serviceState (putService s root t) root' = { serviceState s root' with disk := t.disk } := by
  rw [serviceState, putService]
  dsimp only
  rw [mapGet_mapSet_ne h]
  rfl

theorem exec_onService {α : Type} (m : MutationM D H α) :
    exec (onService root m) s = ((exec m (serviceState s root)).1,
      putService s root (exec m (serviceState s root)).2) := by
  rw [onService, exec_bind, exec_get]
  dsimp only
  generalize exec m (serviceState s root) = x
  obtain ⟨_ | _, t⟩ := x <;> rfl

variable [DecidableEq D] [DecidableEq H] {sha : Sha256 D H}

theorem exec_recordIn (workspaceRoot : FilePath) (input : RecordInput) (action : Action) :
    exec (recordIn sha workspaceRoot input action) s =
      exec (onService (canonicalRoot s.disk.view workspaceRoot)
        (record sha (canonicalRoot s.disk.view workspaceRoot) input action)) s := by
  rw [recordIn, exec_bind, exec_get]

/-- A mutation is a mutation of one service. -/
theorem coordinatorStep_call {step : CoordinatorStep} {input : RecordInput} {action : Action}
    (h : step.call s.disk.view = some (root, input, action)) :
    coordinatorStep sha s step =
      putService s root (exec (record sha root input action) (serviceState s root)).2 := by
  cases step with
  | record workspaceRoot i a =>
      cases h
      rw [coordinatorStep, exec_recordIn, exec_onService]
  | recordAbsolute i a =>
      rw [CoordinatorStep.call] at h
      split_ifs at h with hp
      cases h
      rw [coordinatorStep, recordAbsolute, if_neg hp, exec_recordIn, exec_onService]
  | outside edit => cases h
  | undo now target => cases h

theorem coordinatorEntry_call {step : CoordinatorStep} {input : RecordInput} {action : Action}
    (h : step.call s.disk.view = some (root, input, action)) :
    coordinatorEntry sha s step =
      ⟨some root, traceEntry sha root (serviceState s root) (.record input action)⟩ := by
  rw [coordinatorEntry, h]
  dsimp only
  rw [coordinatorStep_call h, serviceState_putService_self]
  rfl

omit [DecidableEq H] in
theorem Keeps.trans {s t u : MutationState D H} (h : Keeps sha s t) (h' : Keeps sha t u) :
    Keeps sha s u := ⟨h.blobs.trans h'.blobs, h'.committed.trans h.committed⟩

omit [DecidableEq H] in
theorem Keeps.of_store {s t : MutationState D H} (hb : t.blobs = s.blobs) (hj : t.journal = s.journal) :
    Keeps sha s t :=
  ⟨⟨fun _ => by rw [hb]; exact fun _ _ h => h, fun h => by rw [hb]; exact h⟩, by rw [hj]⟩

/-- Each service has kept its committed transactions and its blobs. -/
def AllKeep (sha : Sha256 D H) (s t : CoordinatorState D H) : Prop :=
  ∀ root, Keeps sha (serviceState s root) (serviceState t root)

omit [DecidableEq H] in
theorem AllKeep.put {t : CoordinatorState D H} {u : MutationState D H} (h : AllKeep sha s t)
    (hu : Keeps sha (serviceState t root) u) : AllKeep sha s (putService t root u) := by
  intro root'
  by_cases hr : root = root'
  · subst hr
    rw [serviceState_putService_self]
    exact (h root).trans hu
  · rw [serviceState_putService_ne hr]
    exact (h root').trans (.of_store rfl rfl)

omit [DecidableEq H] in
theorem preserves_onService {α : Type} {m : MutationM D H α} (h : ∀ t, Keeps sha t (exec m t).2) :
    Preserves (AllKeep sha s) (onService root m) := by
  intro t ht
  rw [exec_onService]
  exact ht.put (h _)

theorem coordinatorUndo_keeps (now : String) (target : Option String) :
    AllKeep sha s (exec (coordinatorUndo sha now target) s).2 := by
  have hundo : ∀ root (target : Option String), Preserves (AllKeep sha s)
      (onService root (undo sha root now target)) :=
    fun root target => preserves_onService (fun _ => undo_keeps now target)
  have hassert : ∀ root (target : Option String), Preserves (AllKeep sha s)
      (onService root (assertCanUndo sha root target)) :=
    fun root target => preserves_onService (fun _ => assertCanUndo_keeps target)
  have hall : Preserves (AllKeep sha s) (coordinatorUndo sha now target) := by
    refine preserves_get.bind (fun t => ?_)
    cases target with
    | some target =>
        have htail : Preserves (AllKeep sha s) (do
            (byService t target).forM (fun root => onService root (assertCanUndo sha root (some target)))
            let results ← (byService t target).mapM
              (fun root => onService root (undo sha root now (some target)))
            pure (mergeUndoResults results)) :=
          (preserves_forM (fun root _ => hassert root _)).bind (fun _ =>
            (preserves_mapM (fun root _ => hundo root _)).bind (fun _ => preserves_pure _))
        dsimp only
        split
        · exact (preserves_throw _).bind (fun _ => htail)
        · exact htail
    | none =>
        dsimp only
        split
        · exact hundo _ _
        · exact preserves_throw _
  exact hall s (fun root => .of_store rfl rfl)

theorem coordinatorStep_other (sha : Sha256 D H) {step : CoordinatorStep} (h : step.call s.disk.view = none) :
    AllKeep sha s (coordinatorStep sha s step) ∧
      coordinatorEntry sha s step = ⟨none, ⟨.outside, s.disk.view, (coordinatorStep sha s step).disk.view⟩⟩ := by
  refine ⟨?_, by rw [coordinatorEntry, h]⟩
  cases step with
  | record workspaceRoot i a => cases h
  | recordAbsolute i a =>
      rw [CoordinatorStep.call] at h
      split_ifs at h with hp
      rw [coordinatorStep, recordAbsolute, if_pos hp]
      exact fun root => .of_store rfl rfl
  | outside edit => exact fun root => .of_store rfl rfl
  | undo now target => exact coordinatorUndo_keeps now target

end Services

section Recorded

variable [DecidableEq D] [DecidableEq H] {sha : Sha256 D H} {s : CoordinatorState D H}

def trackedBy (root : FilePath) (entries : List (CoordinatorEntry D H)) : List (Tracked D H) :=
  (seenFrom root entries).filterMap TraceEntry.tracked

/-- Every journal holds what its service was seen to commit. -/
def AllRecorded (sha : Sha256 D H) (s : CoordinatorState D H) (ts : FilePath → List (Tracked D H)) :
    Prop := ∀ root, Recorded sha root (serviceState s root) (ts root)

omit [DecidableEq H] in
theorem Recorded.keeps {w : FilePath} {t u : MutationState D H} {ts : List (Tracked D H)}
    (h : Recorded sha w t ts) (hk : Keeps sha t u) : Recorded sha w u ts :=
  h.congr hk.blobs hk.committed

omit [DecidableEq D] [DecidableEq H] in
theorem trackedBy_cons (root : FilePath) (e : CoordinatorEntry D H)
    (entries : List (CoordinatorEntry D H)) :
    trackedBy root (e :: entries) =
      (if e.root = some root then e.entry.tracked.toList else []) ++ trackedBy root entries := by
  rw [trackedBy, seenFrom, List.map_cons, List.filterMap_cons]
  split_ifs with hr
  · cases e.entry.tracked <;> rfl
  · rfl

theorem allRecorded_step {step : CoordinatorStep} {ts : FilePath → List (Tracked D H)}
    (h : AllRecorded sha s ts) (hok : CoordinatorStepOk s step) :
    AllRecorded sha (coordinatorStep sha s step)
      (fun root => ts root ++ trackedBy root [coordinatorEntry sha s step]) := by
  intro root
  dsimp only
  rw [trackedBy_cons]
  cases hc : step.call s.disk.view with
  | none =>
      obtain ⟨hk, he⟩ := coordinatorStep_other sha hc
      rw [he]
      simpa [trackedBy, seenFrom] using (h root).keeps (hk root)
  | some call =>
      obtain ⟨root', input, action⟩ := call
      rw [coordinatorStep_call hc, coordinatorEntry_call hc]
      by_cases hr : root' = root
      · subst hr
        rw [serviceState_putService_self, if_pos rfl]
        have hstep : Recorded sha root' (applyStep sha root' _ (.record input action)) _ :=
          recorded_step (h root') (hok _ _ _ hc)
        simpa [trackedBy, seenFrom, applyStep] using hstep
      · rw [serviceState_putService_ne hr, if_neg (by simpa using hr), List.nil_append, trackedBy,
          seenFrom, List.map_nil, List.filterMap_nil, List.append_nil]
        exact (h root).keeps (.of_store rfl rfl)

theorem allRecorded_run {steps : List CoordinatorStep} {ts : FilePath → List (Tracked D H)}
    (h : AllRecorded sha s ts) (hok : CoordinatorStepsOk sha s steps) :
    AllRecorded sha (runCoordinator sha s steps)
      (fun root => ts root ++ trackedBy root (coordinatorTrace sha s steps)) := by
  induction steps generalizing s ts with
  | nil => simpa [trackedBy, seenFrom, coordinatorTrace, runCoordinator] using h
  | cons step steps ih =>
      intro root
      have h' := ih (allRecorded_step h hok.1) hok.2 root
      dsimp only at h'
      have hcons : trackedBy root (coordinatorTrace sha s (step :: steps)) =
          trackedBy root [coordinatorEntry sha s step] ++
            trackedBy root (coordinatorTrace sha (coordinatorStep sha s step) steps) := by
        rw [coordinatorTrace, trackedBy_cons, trackedBy_cons]
        simp [trackedBy, seenFrom]
      dsimp only
      rw [hcons, ← List.append_assoc]
      exact h'

omit [DecidableEq H] in
theorem allRecorded_newCoordinator (sha : Sha256 D H) (d : Files) :
    AllRecorded sha (newCoordinator d) (fun _ => []) := fun root => recorded_newService sha root d

end Recorded

section Services

variable {sha : Sha256 D H} {w w' : FilePath} {us : FilePath → List (Tracked D H)}
  {v v' : View String Bytes}

/-- The transactions of different services are about different parts of the
disk: no path of the one lies at, above or below a path of the other. -/
def Separate (us : FilePath → List (Tracked D H)) : Prop :=
  ∀ w w', w ≠ w' → ∀ t ∈ us w, ∀ t' ∈ us w', ∀ r ∈ t.record.2, ∀ r' ∈ t'.record.2,
    ¬ w ++ r.path <+: w' ++ r'.path

def Above (w : FilePath) (us : List (Tracked D H)) (p : FilePath) : Prop :=
  ∃ t ∈ us, ∃ r ∈ t.record.2, p <+: w ++ r.path

theorem Separate.untouched (h : Separate us) (hw : w ≠ w') {p : FilePath}
    (hp : TouchedByAny w' (us w') p ∨ Above w' (us w') p) : ¬ TouchedByAny w (us w) p := by
  rintro ⟨c, hc, hpc⟩
  obtain ⟨t, ht, rfl⟩ := List.mem_map.mp hc
  obtain ⟨r, hr, hrp⟩ := hpc
  rcases hp with ⟨c', hc', hpc'⟩ | ⟨t', ht', r', hr', hp⟩
  · obtain ⟨t', ht', rfl⟩ := List.mem_map.mp hc'
    obtain ⟨r', hr', hrp'⟩ := hpc'
    rcases List.prefix_or_prefix_of_prefix hrp hrp' with hpre | hpre
    · exact h w w' hw t ht t' ht' r hr r' hr' hpre
    · exact h w' w hw.symm t' ht' t ht r' hr' r hr hpre
  · exact h w w' hw t ht t' ht' r hr r' hr' (hrp.trans hp)

theorem Separate.not_needed (h : Separate us) (hs : ∀ t ∈ us w, t.Sound sha w) (hw : w ≠ w')
    {p : FilePath} (hp : TouchedByAny w' (us w') p) : ¬ Needed w (us w) p := by
  rintro ⟨t, ht, r, hr, hpr, -⟩
  obtain ⟨r₁, hr₁, hpath⟩ := (hs t ht).root_iff.mp ⟨r, hr, rfl⟩
  obtain ⟨c, hc, hpc⟩ := hp
  obtain ⟨t', ht', rfl⟩ := List.mem_map.mp hc
  obtain ⟨r', hr', hrp⟩ := hpc
  exact h w' w hw.symm t' ht' t ht r' hr' r₁ hr₁ (hpath ▸ hrp.trans hpr)

/-- Nothing that an undo of the transactions looks at has changed, up to
missing parents. -/
structure Stays (w : FilePath) (us : List (Tracked D H)) (v v' : View String Bytes) : Prop where
  touched : ∀ p, TouchedByAny w us p → v' p = v p
  above : ∀ p, Above w us p → Grows (v p) (v' p)

theorem Separate.stays (h : Separate us) (hs : ∀ t ∈ us w, t.Sound sha w) (hw : w ≠ w')
    (hv : Rewinds w (us w) v v') : Stays w' (us w') v v' := by
  refine ⟨fun p hp => ?_, fun p hp => ?_⟩
  · rcases (hv p).2 (h.untouched hw (Or.inl hp)) with hk | ⟨-, -, hn⟩
    · exact hk
    · exact absurd hn (h.not_needed hs hw hp)
  · exact ((hv p).2 (h.untouched hw (Or.inr hp))).imp_right (fun hk => ⟨hk.1, hk.2.1⟩)

/-- The disk allows the transactions of a service to be undone, and none of the
paths that the check looks at is a link. -/
structure Undoable (w : FilePath) (us : List (Tracked D H)) (v : View String Bytes) : Prop where
  direct : ∀ path ∈ topLevelRoots (us.map Tracked.record), Direct v (w ++ path)
  noLink : ∀ path ∈ topLevelRoots (us.map Tracked.record), ∀ t, v (w ++ path) ≠ some (.link t)
  matching : Matches w us v
  parents : ParentsFit w us v

theorem Undoable.clear {us : List (Tracked D H)} (h : Undoable w us v) :
    ∀ path ∈ topLevelRoots (us.map Tracked.record), Clear v (w ++ path) :=
  fun path hpath => ⟨h.direct path hpath, fun t ht => absurd ht (h.noLink path hpath t)⟩

theorem Undoable.stays {us : List (Tracked D H)} (h : Undoable w us v) (hs : ∀ t ∈ us, t.Sound sha w)
    (hv : Stays w us v v') : Undoable w us v' := by
  have habove : ∀ t ∈ us, ∀ r ∈ t.record.1.pre, ∀ p, p <+: w ++ r.path → Above w us p := by
    intro t ht r hr p hp
    obtain ⟨r', hr', hpath⟩ := (hs t ht).root_iff.mp ⟨r, hr, rfl⟩
    exact ⟨t, ht, r', hr', hpath ▸ hp⟩
  refine ⟨fun path hpath => ?_, fun path hpath t => ?_, fun path hpath q hq => ?_, ?_⟩
  · obtain ⟨⟨t', ht', r, hr, rfl⟩, -⟩ := mem_topLevelRoots.mp hpath
    obtain ⟨t, ht, rfl⟩ := List.mem_map.mp ht'
    exact Grows.direct (h.direct _ hpath) (fun q hq _ => hv.above q ⟨t, ht, r, hr, hq⟩)
  · rw [hv.touched _ (touched_of_topLevelRoot hpath List.prefix_rfl)]
    exact h.noLink path hpath t
  · rw [hv.touched q (touched_of_topLevelRoot hpath hq)]
    exact h.matching path hpath q hq
  · rintro a t b rfl r hr p hp hne
    by_cases htb : TouchedByAny w b p
    · rw [rewound, rewind_touched htb v' v]
      exact h.parents a t b rfl r hr p hp hne
    · have hfit := h.parents a t b rfl r hr p hp hne
      rw [rewound, rewind_untouched htb] at hfit ⊢
      rcases hv.above p (habove t (by simp) r hr p hp) with hk | ⟨-, hk⟩
      · rw [hk]
        exact hfit
      · exact Or.inl hk

variable [DecidableEq D] [DecidableEq H] {s : CoordinatorState D H} {target : String}

/-- The service holds the transactions, and the target selects them. -/
structure Selects (sha : Sha256 D H) (target : String) (us : FilePath → List (Tracked D H))
    (s : CoordinatorState D H) (w : FilePath) : Prop where
  recorded : ∃ ts, Recorded sha w (serviceState s w) ts ∧ us w ⊆ ts
  select : (us w).map Tracked.record = select (serviceState s w).journal (some target)

omit [DecidableEq H] in
theorem Selects.sound (h : Selects sha target us s w) : ∀ t ∈ us w, t.Sound sha w := by
  obtain ⟨ts, hrec, hsub⟩ := h.recorded
  exact fun t ht => hrec.sound t (hsub ht)

/-- One state differs from the other only in disk and blobs. -/
structure SameJournals (sha : Sha256 D H) (s t : CoordinatorState D H) (w : FilePath) : Prop where
  journal : (serviceState t w).journal = (serviceState s w).journal
  blobs : KeepsBlobs sha (serviceState s w) (serviceState t w)

omit [DecidableEq H] in
theorem Selects.congr {t : CoordinatorState D H} (h : Selects sha target us s w)
    (hj : SameJournals sha s t w) : Selects sha target us t w := by
  obtain ⟨ts, hrec, hsub⟩ := h.recorded
  refine ⟨⟨ts, hrec.congr hj.blobs (by rw [hj.journal]), hsub⟩, ?_⟩
  rw [hj.journal]
  exact h.select

omit [DecidableEq H] in
theorem sameJournals_put {t : MutationState D H} (hw : w ≠ w') :
    SameJournals sha s (putService s w t) w' := by
  constructor <;> rw [serviceState_putService_ne hw]
  exact ⟨fun _ _ _ h => h, fun h => h⟩

/-- Separate services are undone one after another. -/
theorem runs_undoAll (hsep : Separate us) (now : String) (roots : List FilePath) (hn : roots.Nodup)
    (hsel : ∀ w ∈ roots, Selects sha target us s w) (hne : ∀ w ∈ roots, us w ≠ [])
    (hok : ∀ w ∈ roots, Undoable w (us w) s.disk.view) :
    ∃ results s', Runs (roots.mapM (fun w => onService w (undo sha w now (some target)))) s results s' ∧
      ∀ p, (∀ w ∈ roots, TouchedByAny w (us w) p →
          s'.disk.view p = rewound w (us w) s.disk.view p) ∧
        ((∀ w ∈ roots, ¬ TouchedByAny w (us w) p) → s'.disk.view p = s.disk.view p ∨
          (s.disk.view p = none ∧ s'.disk.view p = some .directory ∧
            ∃ w ∈ roots, Needed w (us w) p)) := by
  induction roots generalizing s with
  | nil => exact ⟨[], s, runs_mapM_nil _ _, fun p => ⟨by simp, fun _ => Or.inl rfl⟩⟩
  | cons w roots ih =>
      have hw := hsel w List.mem_cons_self
      have hokw := hok w List.mem_cons_self
      obtain ⟨ts, hrec, hsub⟩ := hw.recorded
      obtain ⟨d, blobs, hrun, hrew, -⟩ := undo_runs hrec hsub now hw.select
        (hne w List.mem_cons_self) hokw.clear ⟨hokw.matching, hokw.parents⟩
      obtain ⟨t, ht⟩ : ∃ t : MutationState D H, t = ⟨d, blobs, (undoneEvents now (us w)).foldl
        Journal.apply (serviceState s w).journal⟩ := ⟨_, rfl⟩
      rw [← ht] at hrun
      have hrun₁ : Runs (onService w (undo sha w now (some target))) s
          (undoResult ((us w).map Tracked.record)) (putService s w t) := by
        rw [Runs, exec_onService, hrun]
      have hdisk : (putService s w t).disk = d := by rw [putService, ht]
      obtain ⟨hnw, hn'⟩ := List.nodup_cons.mp hn
      have hne' : ∀ w' ∈ roots, w ≠ w' := fun w' hw' he => hnw (he ▸ hw')
      have hsel' : ∀ w' ∈ roots, Selects sha target us (putService s w t) w' := fun w' hw' =>
        (hsel w' (List.mem_cons_of_mem _ hw')).congr (sameJournals_put (hne' w' hw'))
      obtain ⟨results, s', hrun₂, hs'⟩ := ih hn' hsel'
        (fun w' hw' => hne w' (List.mem_cons_of_mem _ hw')) (fun w' hw' => by
          rw [hdisk]
          exact (hok w' (List.mem_cons_of_mem _ hw')).stays (hsel' w' hw').sound
            (hsep.stays hw.sound (hne' w' hw') hrew))
      rw [hdisk] at hs'
      refine ⟨_, s', runs_mapM_cons hrun₁ hrun₂, fun p => ⟨fun w₁ hw₁ hp => ?_, fun hp => ?_⟩⟩
      · rcases List.mem_cons.mp hw₁ with rfl | hw₁
        · have hno : ∀ w' ∈ roots, ¬ TouchedByAny w' (us w') p := fun w' hw' =>
            hsep.untouched (hne' w' hw').symm (Or.inl hp)
          rcases (hs' p).2 hno with hk | ⟨-, -, w', hw', hneed⟩
          · rw [hk, (hrew p).1 hp]
            rfl
          · exact absurd hneed (hsep.not_needed (hsel' w' hw').sound (hne' w' hw').symm hp)
        · rw [(hs' p).1 w₁ hw₁ hp, rewound, rewound, rewind_touched hp d.view s.disk.view]
      · have hno := hp w List.mem_cons_self
        have hno' : ∀ w' ∈ roots, ¬ TouchedByAny w' (us w') p :=
          fun w' hw' => hp w' (List.mem_cons_of_mem _ hw')
        rcases (hs' p).2 hno' with hk | ⟨hdn, hk, w', hw', hneed⟩
        · rw [hk]
          exact ((hrew p).2 hno).imp_right (fun h =>
            ⟨h.1, h.2.1, w, List.mem_cons_self, h.2.2⟩)
        · rcases (hrew p).2 hno with hd | ⟨-, hd, -⟩
          · exact Or.inr ⟨hd ▸ hdn, hk, w', List.mem_cons_of_mem _ hw', hneed⟩
          · rw [hd] at hdn
            cases hdn

omit [DecidableEq H] in
theorem SameJournals.trans {t u : CoordinatorState D H} (h : SameJournals sha s t w)
    (h' : SameJournals sha t u w) : SameJournals sha s u w :=
  ⟨h'.journal.trans h.journal, h.blobs.trans h'.blobs⟩

/-- The check of one service: it throws a conflict or changes nothing but
blobs. -/
theorem exec_assertOn (h : Selects sha target us s w)
    (hc : ∀ path ∈ topLevelRoots ((us w).map Tracked.record), Clear s.disk.view (w ++ path)) :
    ∃ s₁, s₁.disk = s.disk ∧ (∀ w', SameJournals sha s s₁ w') ∧
      (Matches w (us w) s.disk.view →
        Runs (onService w (assertCanUndo sha w (some target))) s ⟨⟩ s₁) ∧
      (¬ Matches w (us w) s.disk.view → ∃ paths,
        exec (onService w (assertCanUndo sha w (some target))) s = (.error (.conflict paths), s₁)) := by
  obtain ⟨blobs, hb, hyes, hno⟩ := exec_assert (s := serviceState s w) h.sound hc
  have hx : exec (assertCanUndo sha w (some target)) (serviceState s w) =
      exec (assertTransactionsCanUndo sha w ((us w).map Tracked.record)) (serviceState s w) := by
    rw [assertCanUndo, exec_bind, exec_get]
    dsimp only
    rw [h.select]
  refine ⟨putService s w { serviceState s w with blobs }, rfl, fun w' => ?_, fun hm => ?_, fun hm => ?_⟩
  · by_cases hw : w = w'
    · subst hw
      constructor <;> rw [serviceState_putService_self]
      exact keepsBlobs_captureBlobs _ _ hb
    · exact sameJournals_put hw
  · rw [Runs, exec_onService, hx, hyes hm]
  · obtain ⟨paths, hp⟩ := hno hm
    exact ⟨paths, by rw [exec_onService, hx, hp]⟩

theorem exec_assertAll (roots : List FilePath) (hsel : ∀ w ∈ roots, Selects sha target us s w)
    (hc : ∀ w ∈ roots, ∀ path ∈ topLevelRoots ((us w).map Tracked.record),
      Clear s.disk.view (w ++ path)) :
    ∃ s₁, s₁.disk = s.disk ∧ (∀ w', SameJournals sha s s₁ w') ∧
      ((∀ w ∈ roots, Matches w (us w) s.disk.view) →
        Runs (roots.forM (fun w => onService w (assertCanUndo sha w (some target)))) s ⟨⟩ s₁) ∧
      ((¬ ∀ w ∈ roots, Matches w (us w) s.disk.view) → ∃ paths,
        exec (roots.forM (fun w => onService w (assertCanUndo sha w (some target)))) s =
          (.error (.conflict paths), s₁)) := by
  induction roots generalizing s with
  | nil =>
      exact ⟨s, rfl, fun _ => ⟨rfl, .refl _⟩, fun _ => runs_forM_nil _ _,
        fun hn => absurd (by simp) hn⟩
  | cons w roots ih =>
      obtain ⟨s₁, hd₁, hj₁, hyes₁, hno₁⟩ := exec_assertOn (hsel w List.mem_cons_self)
        (hc w List.mem_cons_self)
      by_cases hm : Matches w (us w) s.disk.view
      · obtain ⟨s₂, hd₂, hj₂, hyes₂, hno₂⟩ := ih (s := s₁)
          (fun w' hw' => (hsel w' (List.mem_cons_of_mem _ hw')).congr (hj₁ w'))
          (fun w' hw' => by
            rw [hd₁]
            exact hc w' (List.mem_cons_of_mem _ hw'))
        rw [hd₁] at hd₂ hyes₂ hno₂
        refine ⟨s₂, hd₂, fun w' => (hj₁ w').trans (hj₂ w'), fun hall => ?_, fun hnot => ?_⟩
        · exact runs_forM_cons (hyes₁ hm) (hyes₂ (fun w' hw' => hall w' (List.mem_cons_of_mem _ hw')))
        · obtain ⟨paths, hp⟩ := hno₂ (fun hall => hnot (fun w' hw' => by
            rcases List.mem_cons.mp hw' with rfl | hw'
            · exact hm
            · exact hall w' hw'))
          refine ⟨paths, ?_⟩
          change exec (onService w (assertCanUndo sha w (some target)) >>= fun _ => _) s = _
          rw [exec_bind, hyes₁ hm]
          exact hp
      · obtain ⟨paths, hp⟩ := hno₁ hm
        refine ⟨s₁, hd₁, hj₁, fun hall => absurd (hall w List.mem_cons_self) hm, fun _ => ⟨paths, ?_⟩⟩
        change exec (onService w (assertCanUndo sha w (some target)) >>= fun _ => _) s = _
        rw [exec_bind, hp]

omit [DecidableEq D] [DecidableEq H] in
theorem byService_nodup (s : CoordinatorState D H) (target : String) : (byService s target).Nodup := by
  rw [byService, distinct, List.nodup_reverse]
  exact List.nodup_dedup _

/-- The undo of separate services: it throws and leaves every file, or it
rewinds what each of them has recorded. -/
theorem coordinatorUndo_outcome (hsep : Separate us) (now : String)
    (hsel : ∀ w ∈ byService s target, Selects sha target us s w)
    (hne : ∀ w ∈ byService s target, us w ≠ [])
    (hdirect : ∀ w ∈ byService s target, ∀ path ∈ topLevelRoots ((us w).map Tracked.record),
      Direct s.disk.view (w ++ path))
    (hlink : ∀ w ∈ byService s target, ∀ path ∈ topLevelRoots ((us w).map Tracked.record),
      ∀ t, s.disk.view (w ++ path) ≠ some (.link t))
    (hfit : ∀ w ∈ byService s target, Matches w (us w) s.disk.view →
      ParentsFit w (us w) s.disk.view) :
    ((¬ ∀ w ∈ byService s target, Matches w (us w) s.disk.view) →
      (∃ paths, (exec (coordinatorUndo sha now (some target)) s).1 = .error (.conflict paths)) ∧
      (exec (coordinatorUndo sha now (some target)) s).2.disk = s.disk) ∧
    ((∀ w ∈ byService s target, Matches w (us w) s.disk.view) →
      (∀ paths, (exec (coordinatorUndo sha now (some target)) s).1 ≠ .error (.conflict paths)) ∧
      ∀ w ∈ byService s target, ∀ p, TouchedByAny w (us w) p →
        (exec (coordinatorUndo sha now (some target)) s).2.disk.view p =
          rewound w (us w) s.disk.view p) := by
  have hx : byService s target ≠ [] → exec (coordinatorUndo sha now (some target)) s = exec (do
      (byService s target).forM (fun w => onService w (assertCanUndo sha w (some target)))
      let results ← (byService s target).mapM (fun w => onService w (undo sha w now (some target)))
      pure (mergeUndoResults results)) s := by
    intro hb
    rw [coordinatorUndo, exec_bind, exec_get]
    dsimp only
    rw [if_neg hb]
  obtain ⟨s₁, hd₁, hj₁, hyes, hno⟩ := exec_assertAll (byService s target) hsel (fun w hw path hpath =>
    ⟨hdirect w hw path hpath, fun t ht => absurd ht (hlink w hw path hpath t)⟩)
  by_cases hb : byService s target = []
  · rw [coordinatorUndo, exec_bind, exec_get]
    dsimp only
    rw [if_pos hb, hb]
    exact ⟨fun hnot => absurd (by simp) hnot, fun _ => ⟨fun paths h => (by cases h), by simp⟩⟩
  · rw [hx hb]
    constructor
    · intro hnot
      obtain ⟨paths, hp⟩ := hno hnot
      rw [exec_bind, hp]
      exact ⟨⟨paths, rfl⟩, hd₁⟩
    · intro hall
      obtain ⟨results, s', hrun, hs'⟩ := runs_undoAll (s := s₁) hsep now
        (byService s target) (byService_nodup s target) (fun w hw => (hsel w hw).congr (hj₁ w)) hne (fun w hw => by
          rw [hd₁]
          exact ⟨hdirect w hw, hlink w hw, hall w hw, hfit w hw (hall w hw)⟩)
      rw [hd₁] at hs'
      have hrun' : Runs (do
          (byService s target).forM (fun w => onService w (assertCanUndo sha w (some target)))
          let results ← (byService s target).mapM
            (fun w => onService w (undo sha w now (some target)))
          pure (mergeUndoResults results)) s (mergeUndoResults results) s' :=
        (hyes hall).bind (hrun.bind (runs_pure _ _))
      rw [hrun']
      exact ⟨fun paths h => (by cases h), fun w hw p hp => (hs' p).1 w hw hp⟩

end Services

section Keys

variable [DecidableEq D] [DecidableEq H] (sha : Sha256 D H) {s : CoordinatorState D H}

/-- The coordinator has one service for each root. -/
def OnePerRoot (s : CoordinatorState D H) : Prop := (s.services.map Prod.fst).Nodup

omit [DecidableEq D] [DecidableEq H] in
theorem preserves_onePerRoot {α : Type} (root : FilePath) (m : MutationM D H α) :
    Preserves OnePerRoot (onService root m) := by
  intro t ht
  rw [exec_onService]
  exact keys_mapSet_nodup ht

theorem onePerRoot_step {step : CoordinatorStep} (h : OnePerRoot s) :
    OnePerRoot (coordinatorStep sha s step) := by
  cases step with
  | record root input action =>
      rw [coordinatorStep, exec_recordIn]
      exact preserves_onePerRoot _ _ s h
  | recordAbsolute input action =>
      rw [coordinatorStep, recordAbsolute]
      split_ifs
      · exact h
      · rw [exec_recordIn]
        exact preserves_onePerRoot _ _ s h
  | outside edit => exact h
  | undo now target =>
      have hall : Preserves OnePerRoot (coordinatorUndo sha now target) := by
        refine preserves_get.bind (fun t => ?_)
        cases target with
        | some target =>
            have htail : Preserves OnePerRoot (do
                (byService t target).forM (fun root => onService root (assertCanUndo sha root (some target)))
                let results ← (byService t target).mapM
                  (fun root => onService root (undo sha root now (some target)))
                pure (mergeUndoResults results)) :=
              (preserves_forM (fun root _ => preserves_onePerRoot _ _)).bind (fun _ =>
                (preserves_mapM (fun root _ => preserves_onePerRoot _ _)).bind
                  (fun _ => preserves_pure _))
            dsimp only
            split
            · exact (preserves_throw _).bind (fun _ => htail)
            · exact htail
        | none =>
            dsimp only
            split
            · exact preserves_onePerRoot _ _
            · exact preserves_throw _
      exact hall s h

theorem onePerRoot_run (steps : List CoordinatorStep) (h : OnePerRoot s) :
    OnePerRoot (runCoordinator sha s steps) := by
  induction steps generalizing s with
  | nil => exact h
  | cons step steps ih => exact ih (onePerRoot_step sha h)

omit [DecidableEq D] [DecidableEq H] in
theorem mem_byService (h : OnePerRoot s) {w : FilePath} {target : String} :
    w ∈ byService s target ↔ select (serviceState s w).journal (some target) ≠ [] := by
  have hget : ∀ store, (w, store) ∈ s.services ↔ mapGet w s.services = some store :=
    fun store => (mapGet_eq_some h).symm
  rw [byService, distinct, List.mem_reverse, List.mem_dedup, List.mem_reverse, List.mem_map]
  simp only [candidates, List.mem_filter, List.mem_flatMap, List.mem_map, decide_eq_true_eq]
  constructor
  · rintro ⟨c, ⟨⟨⟨root, store⟩, hs, item, hitem, rfl⟩, hc⟩, rfl⟩
    rw [serviceState, (hget store).mp hs, Option.getD_some]
    exact List.ne_nil_of_mem (List.mem_filter.mpr ⟨hitem, by simpa using hc⟩)
  · intro hne
    obtain ⟨item, hitem⟩ := List.exists_mem_of_ne_nil _ hne
    obtain ⟨hact, hc⟩ := List.mem_filter.mp hitem
    cases hw : mapGet w s.services with
    | none =>
        rw [serviceState, hw] at hact
        simp [listActive, Journal.empty] at hact
    | some store =>
        rw [serviceState, hw] at hact
        exact ⟨(w, item), ⟨⟨(w, store), (hget store).mpr hw, item, hact, rfl⟩, by simpa using hc⟩, rfl⟩

end Keys

end Kross.Mutation

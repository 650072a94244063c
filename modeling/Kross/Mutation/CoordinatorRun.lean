import Kross.Mutation.CoordinatorUndo

namespace Kross.Mutation

open Kross.FileTree Kross.Prog Kross.Rewind

variable {D H : Type} [DecidableEq D] [DecidableEq H] {sha : Sha256 D H}
  {s s₀ : CoordinatorState D H} {steps : List CoordinatorStep} {run : String}

/-- The mutations of one run, recorded one after another, through whichever
service. -/
def CoordinatorRun (sha : Sha256 D H) (run : String) (s : CoordinatorState D H) :
    List CoordinatorStep → Prop
  | [] => True
  | step :: steps => (∃ root input action, step.call s.disk.view = some (root, input, action) ∧
      input.runId = run ∧ Confined root input action s.disk) ∧
      CoordinatorRun sha run (coordinatorStep sha s step) steps

theorem serviceState_step (sha : Sha256 D H) {step : CoordinatorStep} {root : FilePath} {input : RecordInput}
    {action : Action} (hc : step.call s.disk.view = some (root, input, action)) (w : FilePath) :
    (root = w → serviceState (coordinatorStep sha s step) w =
        applyStep sha w (serviceState s w) (.record input action)) ∧
      (root ≠ w → (serviceState (coordinatorStep sha s step) w).journal =
        (serviceState s w).journal) := by
  rw [coordinatorStep_call hc]
  constructor
  · rintro rfl
    rw [serviceState_putService_self]
    rfl
  · intro hw
    rw [serviceState_putService_ne hw]

theorem select_coordinatorRun {ts : FilePath → List (Tracked D H)} (h : AllRecorded sha s ts)
    (hok : CoordinatorStepsOk sha s steps) (hrun : CoordinatorRun sha run s steps) (w : FilePath) :
    select (serviceState (runCoordinator sha s steps) w).journal (some run) =
      select (serviceState s w).journal (some run) ++
        (trackedBy w (coordinatorTrace sha s steps)).map Tracked.record := by
  induction steps generalizing s ts with
  | nil => simp [trackedBy, seenFrom, coordinatorTrace, runCoordinator]
  | cons step steps ih =>
      obtain ⟨⟨root, input, action, hc, hid, -⟩, hrest⟩ := hrun
      have htail := ih (allRecorded_step h hok.1) hok.2 hrest
      have hgoal : runCoordinator sha s (step :: steps) =
          runCoordinator sha (coordinatorStep sha s step) steps := rfl
      rw [hgoal, htail, coordinatorTrace, trackedBy_cons, coordinatorEntry_call hc, List.map_append,
        ← List.append_assoc]
      congr 1
      obtain ⟨hself, hother⟩ := serviceState_step sha hc w
      by_cases hw : root = w
      · subst hw
        rw [hself rfl, if_pos rfl]
        exact select_run_step (h root) (hok.1 _ _ _ hc) hid
      · rw [hother hw, if_neg (by simpa using hw), List.map_nil, List.append_nil]

theorem coordinator_chain {w p : FilePath} (h : ∀ e ∈ seenFrom w (coordinatorTrace sha s steps),
      p ∉ (e.event w).touched → Grows (e.before p) (e.after p)) :
    Chain Grows p s.disk.view ((seenFrom w (coordinatorTrace sha s steps)).map (TraceEntry.event w))
      (runCoordinator sha s steps).disk.view := by
  induction steps generalizing s with
  | nil => exact .nil _
  | cons step steps ih =>
      obtain ⟨e, he⟩ : ∃ e, e = (if (coordinatorEntry sha s step).root = some w
        then (coordinatorEntry sha s step).entry
        else ⟨.outside, s.disk.view, (coordinatorStep sha s step).disk.view⟩) := ⟨_, rfl⟩
      have hviews : (coordinatorEntry sha s step).entry.before = s.disk.view ∧
          (coordinatorEntry sha s step).entry.after = (coordinatorStep sha s step).disk.view := by
        rw [coordinatorEntry]
        split <;> exact ⟨rfl, rfl⟩
      have hcons : seenFrom w (coordinatorTrace sha s (step :: steps)) =
          e :: seenFrom w (coordinatorTrace sha (coordinatorStep sha s step) steps) := by
        rw [coordinatorTrace, seenFrom, List.map_cons, he, hviews.1, hviews.2]
        rfl
      have hbefore : e.before = s.disk.view ∧ e.after = (coordinatorStep sha s step).disk.view := by
        rw [he]
        split_ifs
        · exact hviews
        · exact ⟨rfl, rfl⟩
      rw [hcons] at h ⊢
      have htail := ih (fun e' he' => h e' (List.mem_cons_of_mem _ he'))
      have hhead := h e List.mem_cons_self
      have hchain : Chain Grows p (e.event w).before _ _ := Chain.cons _ _ _
        (by rwa [event_before, event_after]) (by rw [event_after, hbefore.2]; exact htail)
      rw [event_before, hbefore.1] at hchain
      exact hchain

/-- In a run every entry comes from a mutation of one service, which makes at
most directories outside what it touches. -/
theorem coordinatorTrace_grows {ts : FilePath → List (Tracked D H)} (h : AllRecorded sha s ts)
    (hok : CoordinatorStepsOk sha s steps) (hrun : CoordinatorRun sha run s steps) :
    ∀ e ∈ coordinatorTrace sha s steps, ∃ root, e.root = some root ∧
      ∀ p, p ∉ (e.entry.event root).touched → Grows (e.entry.before p) (e.entry.after p) := by
  induction steps generalizing s ts with
  | nil => exact fun e he => absurd he List.not_mem_nil
  | cons step steps ih =>
      obtain ⟨⟨root, input, action, hc, -, hconf⟩, hrest⟩ := hrun
      intro e he
      rcases List.mem_cons.mp he with rfl | he
      · rw [coordinatorEntry_call hc]
        exact ⟨root, rfl, fun p hp => (traceEntry_grows (h root).blobs (hok.1 _ _ _ hc) hconf p hp).1⟩
      · exact ih (allRecorded_step h hok.1) hok.2 hrest e he

omit [DecidableEq D] [DecidableEq H] in
theorem mem_trackedBy {root : FilePath} {entries : List (CoordinatorEntry D H)} {t : Tracked D H} :
    t ∈ trackedBy root entries ↔ ∃ e ∈ entries, e.root = some root ∧ e.entry.tracked = some t := by
  rw [trackedBy, seenFrom, List.mem_filterMap]
  constructor
  · rintro ⟨e, he, ht⟩
    obtain ⟨c, hc, rfl⟩ := List.mem_map.mp he
    split_ifs at ht with hr
    · exact ⟨c, hc, hr, ht⟩
    · cases ht
  · rintro ⟨c, hc, hr, ht⟩
    exact ⟨_, List.mem_map_of_mem hc, by rwa [if_pos hr]⟩

/-- Around the roots of one service, the mutations of the others make at most
directories. -/
theorem growsAround_run {ts : FilePath → List (Tracked D H)} (h : AllRecorded sha s ts)
    (hok : CoordinatorStepsOk sha s steps) (hrun : CoordinatorRun sha run s steps)
    (hsep : Separate (fun w => trackedBy w (coordinatorTrace sha s steps))) (w : FilePath) :
    GrowsAround sha w (trackedBy w (coordinatorTrace sha s steps))
      ((seenFrom w (coordinatorTrace sha s steps)).map (TraceEntry.event w)) s.disk.view
      (runCoordinator sha s steps).disk.view := by
  refine ⟨changes_events _, fun t ht => (allRecorded_run h hok w).sound t
    (List.mem_append_right _ ht), fun p hp => coordinator_chain (fun e he hpe => ?_)⟩
  obtain ⟨c, hc, rfl⟩ := List.mem_map.mp he
  obtain ⟨root, hroot, hgrows⟩ := coordinatorTrace_grows h hok hrun c hc
  have hp' : TouchedByAny w (trackedBy w (coordinatorTrace sha s steps)) p ∨
      Above w (trackedBy w (coordinatorTrace sha s steps)) p := by
    obtain ⟨t, ht, r, hr, hpr | hpr⟩ := hp
    · exact Or.inr ⟨t, ht, r, hr, hpr⟩
    · exact Or.inl ⟨t.change w, List.mem_map_of_mem ht, r, hr, hpr⟩
  by_cases hw : root = w
  · subst hw
    rw [if_pos hroot] at hpe ⊢
    exact hgrows p hpe
  · rw [if_neg (by rw [hroot]; simpa using hw)]
    refine hgrows p (fun hpt => ?_)
    cases htr : c.entry.tracked with
    | none =>
        rw [event_untracked htr] at hpt
        exact hpt
    | some t =>
        rw [event_tracked htr] at hpt
        refine hsep.untouched hw hp' ⟨t.change root, List.mem_map_of_mem ?_, hpt⟩
        exact mem_trackedBy.mpr ⟨c, hc, hroot, htr⟩

/-- The transactions of a service that an undo selects, as a trace has seen
them. -/
def selectedBy (s : CoordinatorState D H) (entries : List (CoordinatorEntry D H)) (target : String)
    (w : FilePath) : List (Tracked D H) :=
  chosen (select (serviceState s w).journal (some target)) (trackedBy w entries)

/-- The run is undone without a conflict, and then every path that it has
touched is as it was before. -/
structure CoordinatorUndone (sha : Sha256 D H) (run now : String) (us : FilePath → List (Tracked D H))
    (s₀ s : CoordinatorState D H) : Prop where
  noConflict : ∀ paths,
    (exec (coordinatorUndo sha now (some run)) s).1 ≠ .error (.conflict paths)
  restored : ∀ w p, TouchedByAny w (us w) p →
    (exec (coordinatorUndo sha now (some run)) s).2.disk.view p = s₀.disk.view p

/-- The parents of the roots that a service brings back are directories, or
missing where that does no harm. -/
def FitsParents (w : FilePath) (us : List (Tracked D H)) (v : View String Bytes) : Prop :=
  (∀ path ∈ topLevelRoots (us.map Tracked.record), Direct v (w ++ path)) ∧
    (Matches w us v → ParentsFit w us v)

omit [DecidableEq H] in
theorem Recorded.records_nodup {w : FilePath} {t : MutationState D H} {ts : List (Tracked D H)}
    (h : Recorded sha w t ts) : (ts.map Tracked.record).Nodup := by
  have hids : ((ts.map Tracked.record).map (fun r => r.1.transactionId)).Nodup := by
    rw [List.map_map]
    exact h.ids
  exact hids.of_map

theorem chosen_eq {ts us : List (Tracked D H)} (h : us.Sublist ts)
    (hn : (ts.map Tracked.record).Nodup) : chosen (us.map Tracked.record) ts = us :=
  (List.filter_congr (fun _ _ => decide_eq_decide.mpr Iff.rfl)).trans (filter_mem_map h hn)

omit [DecidableEq D] [DecidableEq H] in
theorem trackedBy_append (w : FilePath) (a b : List (CoordinatorEntry D H)) :
    trackedBy w (a ++ b) = trackedBy w a ++ trackedBy w b := by
  rw [trackedBy, seenFrom, List.map_append, List.filterMap_append]
  rfl

section Note

/-- One note, and then the same note together with another file: the first call
goes to the service at `/a/b`, the second to the one at `/a`. -/
def nestedServices : List CoordinatorStep :=
  [.recordAbsolute ⟨"t1", "run", 1, [["a", "b", "note"]]⟩
      (fun d => (writeFile ["a", "b", "note"] [1] d, none)),
    .recordAbsolute ⟨"t2", "run", 2, [["a", "b", "note"], ["a", "list"]]⟩
      (fun d => (writeFile ["a", "list"] [2] (writeFile ["a", "b", "note"] [2] d), none))]

def deepNote : CoordinatorState Digest (List (MutationEntrySnapshot Digest)) :=
  newCoordinator (makeFile ["a", "b", "note"] [0] .empty)

def nestedState : CoordinatorState Digest (List (MutationEntrySnapshot Digest)) :=
  runCoordinator .verbatim deepNote nestedServices

def oneAbsolute : List CoordinatorStep :=
  [.recordAbsolute ⟨"t1", "run", 1, [["note"]]⟩ (fun d => (writeFile ["note"] [1] d, none))]

def onNote : CoordinatorState Digest (List (MutationEntrySnapshot Digest)) := newCoordinator note

def oneAbsoluteState : CoordinatorState Digest (List (MutationEntrySnapshot Digest)) :=
  runCoordinator .verbatim onNote oneAbsolute

theorem oneAbsolute_call : ∀ root input action,
    (CoordinatorStep.recordAbsolute ⟨"t1", "run", 1, [["note"]]⟩
      (fun d => (writeFile ["note"] [1] d, none))).call onNote.disk.view = some (root, input, action) →
    root = [] ∧ input = ⟨"t1", "run", 1, [["note"]]⟩ ∧
      action = fun d => (writeFile ["note"] [1] d, none) := by
  intro root input action h
  have hcall : (CoordinatorStep.recordAbsolute ⟨"t1", "run", 1, [["note"]]⟩
      (fun d => (writeFile ["note"] [1] d, none))).call onNote.disk.view =
        some ([], ⟨"t1", "run", 1, [["note"]]⟩, fun d => (writeFile ["note"] [1] d, none)) := rfl
  rw [hcall] at h
  cases h
  exact ⟨rfl, rfl, rfl⟩

theorem stepsOk_oneAbsolute : CoordinatorStepsOk Sha256.verbatim onNote oneAbsolute := by
  refine ⟨fun root input action hc => ?_, trivial⟩
  obtain ⟨rfl, rfl, rfl⟩ := oneAbsolute_call root input action hc
  refine ⟨⟨rfl, by decide, ?_⟩, ?_⟩
  · simp [serviceState, onNote, newCoordinator, mapGet, Journal.empty]
  · unfold SeesPaths
    decide

end Note

end Kross.Mutation

import Kross.Mutation.Record

namespace Kross.Mutation

open Kross.FileTree Kross.Prog Kross.Rewind

variable {D H : Type}

/-- What happens around one service: a recorded mutation, an edit that it does
not know of, and an undo. -/
inductive HistoryStep
  | record (input : RecordInput) (action : Action)
  | outside (edit : Files → Files)
  | undo (now : String) (target : Option String)

/-- Who wrote to the disk in a step: a transaction that was committed, someone
else, or the service in a step that committed nothing. -/
inductive Writer (D H : Type)
  | transaction (record : MutationRecord D H)
  | outside
  | service

/-- A step as it was seen from the disk. -/
structure TraceEntry (D H : Type) where
  writer : Writer D H
  before : View String Bytes
  after : View String Bytes

def TraceEntry.tracked (e : TraceEntry D H) : Option (Tracked D H) :=
  match e.writer with
  | .transaction record => some ⟨record, e.before, e.after⟩
  | _ => none

section Steps

variable [DecidableEq D] [DecidableEq H] (sha : Sha256 D H) (w : FilePath)

def applyStep (s : MutationState D H) : HistoryStep → MutationState D H
  | .record input action => (exec (record sha w input action) s).2
  | .outside edit => { s with disk := edit s.disk }
  | .undo now target => (exec (undo sha w now target) s).2

def writer (s' : MutationState D H) : HistoryStep → Writer D H
  | .record input _ => match mapGet input.transactionId s'.journal.committed with
    | some record => .transaction record
    | none => .service
  | .outside _ => .outside
  | .undo _ _ => .service

def traceEntry (s : MutationState D H) (step : HistoryStep) : TraceEntry D H :=
  ⟨writer (applyStep sha w s step) step, s.disk.view, (applyStep sha w s step).disk.view⟩

def trace (s : MutationState D H) : List HistoryStep → List (TraceEntry D H)
  | [] => []
  | step :: steps => traceEntry sha w s step :: trace (applyStep sha w s step) steps

def runSteps (s : MutationState D H) (steps : List HistoryStep) : MutationState D H :=
  steps.foldl (applyStep sha w) s

/-- What the environment promises of a mutation: the random id is new, and the
clock does not step back. -/
structure Fresh (s : MutationState D H) (input : RecordInput) : Prop where
  id : mapGet input.transactionId s.journal.committed = none
  active : input.transactionId ∉ s.journal.inactive
  clock : ∀ e ∈ s.journal.committed, e.2.1.createdAt ≤ input.createdAt

/-- The snapshots of a mutation see its declared paths, on the disk the action
finds and on the disk it leaves. -/
def SeesPaths (s : MutationState D H) (input : RecordInput) (action : Action) : Prop :=
  ∀ p ∈ input.paths, Clear s.disk.view (w ++ p) ∧ Clear (action s.disk).1.view (w ++ p)

def StepOk (s : MutationState D H) : HistoryStep → Prop
  | .record input action => Fresh s input ∧ SeesPaths w s input action
  | _ => True

def StepsOk (s : MutationState D H) : List HistoryStep → Prop
  | [] => True
  | step :: steps => StepOk w s step ∧ StepsOk (applyStep sha w s step) steps

/-- The journal holds exactly the tracked transactions, in the order they were
committed, and their snapshots can be restored. -/
structure Recorded (s : MutationState D H) (ts : List (Tracked D H)) : Prop where
  committed : s.journal.committed = ts.map (fun t => (t.record.1.transactionId, t.record))
  sound : ∀ t ∈ ts, t.Sound sha w
  stored : ∀ t ∈ ts, ∀ r ∈ t.record.1.pre, ∀ q, w ++ r.path <+: q → ∀ node,
    t.before q = some node → Stored sha s.blobs node
  blobs : BlobsOk sha s.blobs
  ids : (ts.map (·.record.1.transactionId)).Nodup
  clock : ts.Pairwise (fun t u => t.record.1.createdAt ≤ u.record.1.createdAt)

end Steps

variable [DecidableEq D] [DecidableEq H] {sha : Sha256 D H} {w : FilePath}
  {s : MutationState D H} {ts : List (Tracked D H)}

omit [DecidableEq H] in
theorem Stored.mono {blobs blobs' : List (D × Bytes)} {node : FileNode} (h : Stored sha blobs node)
    (hb : BlobsExtend blobs blobs') : Stored sha blobs' node :=
  fun c hc => hb _ _ (h c hc)

omit [DecidableEq H] in
theorem Recorded.congr {s' : MutationState D H} (h : Recorded sha w s ts)
    (hk : KeepsBlobs sha s s') (hc : s'.journal.committed = s.journal.committed) :
    Recorded sha w s' ts :=
  ⟨hc.trans h.committed, h.sound,
    fun t ht r hr q hq node hn => (h.stored t ht r hr q hq node hn).mono (hk.extend h.blobs),
    hk.ok h.blobs, h.ids, h.clock⟩

/-- `t` has the committed transactions of `s`, and its blobs. -/
structure Keeps (sha : Sha256 D H) (s t : MutationState D H) : Prop where
  blobs : KeepsBlobs sha s t
  committed : t.journal.committed = s.journal.committed

theorem preserves_assert (s : MutationState D H) (transactions : List (MutationRecord D H)) :
    Preserves (Keeps sha s) (assertTransactionsCanUndo sha w transactions) := by
  refine Preserves.bind (fun t ht => ?_) (fun current => ?_)
  · rw [exec_captureRoots]
    exact ⟨ht.blobs.trans (keepsBlobs_captureBlobs _ _ rfl), ht.committed⟩
  · dsimp only
    split
    · exact preserves_throw _
    · exact preserves_pure _

theorem assertCanUndo_keeps (target : Option String) :
    Keeps sha s (exec (assertCanUndo sha w target) s).2 :=
  preserves_get.bind (fun _ => preserves_assert s _) s ⟨.refl s, rfl⟩

/-- `undo` adds blobs, writes files and marks transactions as undone. -/
theorem undo_keeps (now : String) (target : Option String) :
    Keeps sha s (exec (undo sha w now target) s).2 := by
  have hundo : ∀ transaction, Preserves (Keeps sha s) (undoTransaction w now transaction) :=
    fun transaction =>
      (preserves_restoreRoots (fun _ _ h => ⟨⟨h.1.extend, h.1.ok⟩, h.2⟩) _ _).bind
        (fun _ => preserves_modify (fun _ h => ⟨⟨h.1.extend, h.1.ok⟩, h.2⟩))
  have hall : Preserves (Keeps sha s) (undo sha w now target) := by
    refine preserves_get.bind (fun t => ?_)
    have htail : Preserves (Keeps sha s) (do
        assertTransactionsCanUndo sha w (select t.journal target)
        (select t.journal target).reverse.forM (undoTransaction w now)
        pure (UndoResult.mk ((select t.journal target).reverse.map (·.1.transactionId))
          (distinct ((select t.journal target).reverse.flatMap
            (fun item => item.1.pre.map (·.path)))))) :=
      (preserves_assert s _).bind (fun _ => (preserves_forM (fun a _ => hundo a)).bind
        (fun _ => preserves_pure _))
    dsimp only
    split
    · exact (preserves_throw _).bind (fun _ => htail)
    · exact htail
  exact hall s ⟨.refl s, rfl⟩

/-- The transaction that `record` commits, with the disks it stands between. -/
def recordedOn (sha : Sha256 D H) (w : FilePath) (d : Files) (input : RecordInput)
    (action : Action) : Tracked D H :=
  ⟨(preparedOn sha w d input, input.paths.map (captureRoot sha w (action d).1)), d.view,
    (action d).1.view⟩

omit [DecidableEq D] [DecidableEq H] in
theorem recordedOn_sound {input : RecordInput} {action : Action} (h : SeesPaths w s input action) :
    (recordedOn sha w s.disk input action).Sound sha w := by
  have hmem : ∀ {d : Files}, ∀ r ∈ input.paths.map (captureRoot sha w d),
      ∃ p ∈ input.paths, r = captureRoot sha w d p := by
    intro d r hr
    obtain ⟨p, hp, rfl⟩ := List.mem_map.mp hr
    exact ⟨p, hp, rfl⟩
  refine ⟨?_, s.disk.isTree, (action s.disk).1.isTree, fun r hr => ?_, fun r hr => ?_,
    fun r hr => ?_, fun r hr => ?_⟩
  · simp [recordedOn, preparedOn, Function.comp_def, captureRoot]
  all_goals
    obtain ⟨p, hp, rfl⟩ := hmem r hr
  · exact captureRoot_records sha (h p hp).1
  · exact captureRoot_records sha (h p hp).2
  · exact (h p hp).1.direct
  · exact (h p hp).2.direct

theorem recorded_commit {input : RecordInput} {action : Action} (h : Recorded sha w s ts)
    (hf : Fresh s input) (hs : SeesPaths w s input action)
    (hstate : (exec (record sha w input action) s).2 = settleState sha w
      (workedState sha w s input action) (preparedOn sha w s.disk input) input.paths)
    (hcommitted : (exec (record sha w input action) s).2.journal.committed =
      mapSet input.transactionId (preparedOn sha w s.disk input,
        input.paths.map (captureRoot sha w (action s.disk).1)) s.journal.committed) :
    Recorded sha w (exec (record sha w input action) s).2
      (ts ++ [recordedOn sha w s.disk input action]) := by
  have hcap := captureBlobs_spec (w := w) (d := s.disk) input.paths h.blobs
  have hpost := captureBlobs_spec (w := w) (d := (action s.disk).1) input.paths hcap.1
  have hblobs : (exec (record sha w input action) s).2.blobs =
      input.paths.foldl (captureBlobs sha w (action s.disk).1)
        (input.paths.foldl (captureBlobs sha w s.disk) s.blobs) := by
    rw [hstate]
    rfl
  have hnew : ∀ t ∈ ts, t.record.1.transactionId ≠ input.transactionId := by
    intro t ht hid
    refine mapGet_none hf.id ?_
    rw [h.committed, List.map_map]
    exact List.mem_map.mpr ⟨t, ht, hid⟩
  refine ⟨?_, fun t ht => ?_, fun t ht r hr q hq node hn => ?_, ?_, ?_, ?_⟩
  · rw [hcommitted, mapSet_of_none _ hf.id, h.committed, List.map_append]
    rfl
  · rcases List.mem_append.mp ht with ht | ht
    · exact h.sound t ht
    · rw [List.mem_singleton.mp ht]
      exact recordedOn_sound hs
  · rw [hblobs]
    rcases List.mem_append.mp ht with ht | ht
    · exact ((h.stored t ht r hr q hq node hn).mono hcap.2.1).mono hpost.2.1
    · rw [List.mem_singleton.mp ht] at hr hn
      obtain ⟨p, hp, rfl⟩ := List.mem_map.mp hr
      exact (hcap.2.2 p hp (hs p hp).1 q hq node hn).mono hpost.2.1
  · rw [hblobs]
    exact hpost.1
  · rw [List.map_append, List.nodup_append]
    refine ⟨h.ids, by simp, fun a ha b hb => ?_⟩
    obtain ⟨t, ht, rfl⟩ := List.mem_map.mp ha
    rw [List.mem_singleton.mp hb]
    exact hnew t ht
  · rw [List.pairwise_append]
    refine ⟨h.clock, by simp, fun t ht u hu => ?_⟩
    rw [List.mem_singleton.mp hu]
    refine hf.clock (t.record.1.transactionId, t.record) ?_
    rw [h.committed]
    exact List.mem_map_of_mem ht

/-- One step of a history keeps the journal and the tracked transactions
together. -/
theorem recorded_step {step : HistoryStep} (h : Recorded sha w s ts) (hs : StepOk w s step) :
    Recorded sha w (applyStep sha w s step)
      (ts ++ (traceEntry sha w s step).tracked.toList) := by
  cases step with
  | outside edit =>
      rw [traceEntry, writer, TraceEntry.tracked, Option.toList_none, List.append_nil]
      exact h.congr ⟨fun _ _ _ hr => hr, fun ok => ok⟩ rfl
  | undo now target =>
      rw [traceEntry, writer, TraceEntry.tracked, Option.toList_none, List.append_nil]
      exact h.congr (undo_keeps now target).1 (undo_keeps now target).2
  | record input action =>
      rw [traceEntry, writer, applyStep]
      rcases record_outcome sha w s input action with ⟨hk, hc⟩ | ⟨hstate, hc, -⟩
      · rw [hc.committed, hs.1.id, TraceEntry.tracked, Option.toList_none, List.append_nil]
        exact h.congr hk hc.committed
      · have hdisk : (exec (record sha w input action) s).2.disk = (action s.disk).1 := by
          rw [hstate]
          rfl
        rw [hc, mapGet_mapSet_self, hdisk]
        exact recorded_commit h hs.1 hs.2 hstate hc

theorem recorded_run (steps : List HistoryStep) (h : Recorded sha w s ts)
    (hs : StepsOk sha w s steps) :
    Recorded sha w (runSteps sha w s steps)
      (ts ++ (trace sha w s steps).filterMap TraceEntry.tracked) := by
  induction steps generalizing s ts with
  | nil => simpa [trace, runSteps] using h
  | cons step steps ih =>
      have h' := ih (recorded_step h hs.1) hs.2
      have hcons : (trace sha w s (step :: steps)).filterMap TraceEntry.tracked =
          (traceEntry sha w s step).tracked.toList ++
            (trace sha w (applyStep sha w s step) steps).filterMap TraceEntry.tracked := by
        rw [trace, List.filterMap_cons]
        cases (traceEntry sha w s step).tracked <;> rfl
      rw [hcons, ← List.append_assoc]
      exact h'

/-- A service whose journal is new. -/
def newService (d : Files) : MutationState D H := ⟨d, [], .empty⟩

omit [DecidableEq H] in
theorem recorded_newService (sha : Sha256 D H) (w : FilePath) (d : Files) :
    Recorded sha w (newService d) [] :=
  ⟨rfl, by simp, by simp, by simp [BlobsOk, newService], by simp, by simp⟩

end Kross.Mutation

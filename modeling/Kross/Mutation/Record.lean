import Kross.Mutation.Undo

namespace Kross.Mutation

open Kross.FileTree Kross.Prog Kross.Rewind

variable {D H : Type}

section Frame

variable [DecidableEq D]

/-- What a program may assume of a state predicate when it only writes files. -/
def OnlyDisk (I : MutationState D H → Prop) : Prop := ∀ s d, I s → I { s with disk := d }

variable {I : MutationState D H → Prop}

omit [DecidableEq D] in
theorem preserves_onDisk (h : OnlyDisk I) (f : Files → Except Disk.FsError Files) :
    Preserves I (onDisk f) := by
  intro s hs
  rw [onDisk, exec_bind, exec_get]
  dsimp only
  cases f s.disk with
  | ok d => exact h s d hs
  | error e => exact hs

theorem preserves_readBlob (ref : D) : Preserves I (readBlob ref) := by
  intro s hs
  rw [readBlob, exec_bind, exec_get]
  dsimp only
  cases s.blobs.lookup ref with
  | none => exact hs
  | some c => exact hs

theorem preserves_restoreEntry (h : OnlyDisk I) (w : FilePath) (entry : MutationEntrySnapshot D) :
    Preserves I (restoreEntry w entry) := by
  refine (preserves_onDisk h _).bind (fun _ => ?_)
  split
  · exact (preserves_readBlob _).bind (fun _ => preserves_onDisk h _)
  · exact preserves_onDisk h _
  · exact preserves_pure _

theorem preserves_restoreRoots (h : OnlyDisk I) (w : FilePath)
    (roots : List (MutationRootSnapshot D H)) : Preserves I (restoreRoots w roots) :=
  preserves_forM (fun _ _ => (preserves_onDisk h _).bind (fun _ =>
    (preserves_forM (fun _ _ => preserves_onDisk h _)).bind (fun _ =>
      preserves_forM (fun _ _ => preserves_restoreEntry h w _))))

end Frame

variable [DecidableEq D] [DecidableEq H] {sha : Sha256 D H} {w : FilePath}

theorem BlobsExtend.trans {a b c : List (D × Bytes)} (h : BlobsExtend a b) (h' : BlobsExtend b c) :
    BlobsExtend a c := fun ref x hx => h' ref x (h ref x hx)

/-- The blobs that `t` adds to those of `s`, if any, are in order. -/
structure KeepsBlobs (sha : Sha256 D H) (s t : MutationState D H) : Prop where
  extend : BlobsOk sha s.blobs → BlobsExtend s.blobs t.blobs
  ok : BlobsOk sha s.blobs → BlobsOk sha t.blobs

omit [DecidableEq H] in
theorem KeepsBlobs.refl (s : MutationState D H) : KeepsBlobs sha s s :=
  ⟨fun _ _ _ h => h, fun h => h⟩

omit [DecidableEq H] in
theorem KeepsBlobs.trans {s t u : MutationState D H} (h : KeepsBlobs sha s t)
    (h' : KeepsBlobs sha t u) : KeepsBlobs sha s u :=
  ⟨fun ok => (h.extend ok).trans (h'.extend (h.ok ok)), fun ok => h'.ok (h.ok ok)⟩

omit [DecidableEq H] in
theorem keepsBlobs_captureBlobs {s t : MutationState D H} (d : Files) (paths : List FilePath)
    (ht : t.blobs = paths.foldl (captureBlobs sha w d) s.blobs) : KeepsBlobs sha s t := by
  refine ⟨fun ok => ?_, fun ok => ?_⟩ <;> rw [ht]
  · exact (captureBlobs_spec paths ok).2.1
  · exact (captureBlobs_spec paths ok).1

section Record

variable (sha : Sha256 D H) (w : FilePath)

/-- The transaction `record` prepares on a disk. -/
def preparedOn (disk : Files) (input : RecordInput) : PreparedMutation D H :=
  ⟨input.transactionId, input.runId, input.createdAt, input.paths.map (captureRoot sha w disk)⟩

def prepareState (s : MutationState D H) (input : RecordInput) : MutationState D H :=
  { s with
    blobs := input.paths.foldl (captureBlobs sha w s.disk) s.blobs
    journal := s.journal.apply (.prepared (preparedOn sha w s.disk input)) }

omit [DecidableEq H] in
theorem exec_prepare (s : MutationState D H) (input : RecordInput) :
    exec (prepare sha w input) s = (.ok (preparedOn sha w s.disk input), prepareState sha w s input) :=
  rfl

/-- The event `record` appends once its action has returned. -/
def settleEvent (prepared : PreparedMutation D H) (post : List (MutationRootSnapshot D H)) :
    MutationEvent (PreparedMutation D H) (List (MutationRootSnapshot D H)) :=
  if sameRoots prepared.pre post then .rolledBack prepared.transactionId "no-change"
  else .committed prepared.transactionId post

def settleState (s : MutationState D H) (prepared : PreparedMutation D H) (paths : List FilePath) :
    MutationState D H :=
  { s with
    blobs := paths.foldl (captureBlobs sha w s.disk) s.blobs
    journal := s.journal.apply (settleEvent prepared (paths.map (captureRoot sha w s.disk))) }

theorem runs_settle {s : MutationState D H} {prepared : PreparedMutation D H}
    (h : mapGet prepared.transactionId s.journal.prepared = some prepared) (paths : List FilePath) :
    Runs (settle sha w prepared paths) s ⟨⟩ (settleState sha w s prepared paths) := by
  rw [Runs, settle, exec_bind, exec_captureRoots]
  dsimp only
  rw [settleState, settleEvent]
  split_ifs
  · rfl
  · rw [appendCommitted, exec_bind, exec_get]
    dsimp only
    rw [h]
    rfl

omit [DecidableEq D] [DecidableEq H] in
theorem exec_runAction (action : Action) (s : MutationState D H) :
    exec (runAction action) s = match (action s.disk).2 with
      | some message => (.error (.action message), { s with disk := (action s.disk).1 })
      | none => (.ok ⟨⟩, { s with disk := (action s.disk).1 }) := by
  rw [runAction, exec_bind, exec_get]
  dsimp only
  rw [exec_bind, exec_set]
  dsimp only
  cases (action s.disk).2 <;> rfl

/-- The state `record` leaves its `try` block in, once the action has run. -/
def workedState (s : MutationState D H) (input : RecordInput) (action : Action) :
    MutationState D H :=
  { prepareState sha w s input with disk := (action s.disk).1 }

theorem exec_record (s : MutationState D H) (input : RecordInput) (action : Action) :
    exec (record sha w input action) s =
      match input.paths.find? (fun path => !isWritablePath s.disk.view w path) with
      | some path => (.error (.boundary path), s)
      | none => match (action s.disk).2 with
        | none => (.ok ⟨⟩, settleState sha w (workedState sha w s input action)
            (preparedOn sha w s.disk input) input.paths)
        | some message => match exec (rollBack w (preparedOn sha w s.disk input) message)
            (workedState sha w s input action) with
          | (.ok _, s') => (.error (.action message), s')
          | (.error e, s') => (.error e, s') := by
  rw [record, exec_bind, exec_get]
  dsimp only
  cases input.paths.find? (fun path => !isWritablePath s.disk.view w path) with
  | some path => rfl
  | none =>
      dsimp only
      rw [exec_bind, exec_prepare]
      dsimp only
      rw [exec_tryCatch, exec_bind, exec_runAction]
      have hdisk : (prepareState sha w s input).disk = s.disk := rfl
      rw [hdisk]
      cases (action s.disk).2 with
      | some message =>
          dsimp only
          rw [exec_bind]
          have hroll : exec (rollBack w (preparedOn sha w s.disk input)
              (MutationError.action message).message)
              { prepareState sha w s input with disk := (action s.disk).1 } =
            exec (rollBack w (preparedOn sha w s.disk input) message)
              (workedState sha w s input action) := rfl
          rw [hroll]
          generalize exec (rollBack w (preparedOn sha w s.disk input) message)
            (workedState sha w s input action) = x
          obtain ⟨_ | _, _⟩ := x <;> rfl
      | none =>
          dsimp only
          have hp : mapGet (preparedOn sha w s.disk input).transactionId
              (workedState sha w s input action).journal.prepared =
                some (preparedOn sha w s.disk input) := mapGet_mapSet_self _ _ _
          have hrun := runs_settle sha w hp input.paths
          rw [Runs] at hrun
          rw [workedState] at hrun
          rw [hrun]
          rfl

end Record

variable (sha w) in
omit [DecidableEq H] in
theorem keepsBlobs_workedState (s : MutationState D H) (input : RecordInput) (action : Action) :
    KeepsBlobs sha s (workedState sha w s input action) := keepsBlobs_captureBlobs s.disk input.paths rfl

/-- The transactions of the journal are as before, up to `id` being taken back. -/
structure SameTransactions (id : String) (s t : MutationState D H) : Prop where
  committed : t.journal.committed = s.journal.committed
  inactive : ∀ i, i ≠ id → (i ∈ t.journal.inactive ↔ i ∈ s.journal.inactive)

omit [DecidableEq D] [DecidableEq H] in
theorem sameTransactions_rolledBack {s t : MutationState D H} {id reason : String}
    (h : SameTransactions id s t) :
    SameTransactions id s { t with journal := t.journal.apply (.rolledBack id reason) } := by
  refine ⟨h.committed, fun i hi => ?_⟩
  rw [← h.inactive i hi, Journal.apply]
  dsimp only
  split_ifs
  · rfl
  · simp [hi]

omit [DecidableEq H] in
/-- Rolling back writes files and takes the transaction from the journal. -/
theorem rollBack_keeps {s t : MutationState D H} {prepared : PreparedMutation D H}
    (h : SameTransactions prepared.transactionId s t) (reason : String) :
    (exec (rollBack w prepared reason) t).2.blobs = t.blobs ∧
      SameTransactions prepared.transactionId s (exec (rollBack w prepared reason) t).2 := by
  have hp : Preserves (fun u => u.blobs = t.blobs ∧ SameTransactions prepared.transactionId s u)
      (rollBack w prepared reason) :=
    (preserves_restoreRoots (fun _ _ hu => ⟨hu.1, ⟨hu.2.committed, hu.2.inactive⟩⟩) _ _).bind
      (fun _ => preserves_modify (fun _ hu => ⟨hu.1, sameTransactions_rolledBack hu.2⟩))
  exact hp t ⟨rfl, h⟩

variable (sha w) in
omit [DecidableEq H] in
theorem sameTransactions_workedState (s : MutationState D H) (input : RecordInput) (action : Action) :
    SameTransactions input.transactionId s (workedState sha w s input action) :=
  ⟨rfl, fun _ _ => Iff.rfl⟩

variable (sha w) in
/-- A recorded mutation either leaves the committed transactions as they were,
or it adds one: its action has returned and the disk shows what it did. -/
theorem record_outcome (s : MutationState D H) (input : RecordInput) (action : Action) :
    (KeepsBlobs sha s (exec (record sha w input action) s).2 ∧
      SameTransactions input.transactionId s (exec (record sha w input action) s).2) ∨
    ((exec (record sha w input action) s).2 = settleState sha w (workedState sha w s input action)
        (preparedOn sha w s.disk input) input.paths ∧
      (exec (record sha w input action) s).2.journal.committed =
        mapSet input.transactionId (preparedOn sha w s.disk input,
          input.paths.map (captureRoot sha w (action s.disk).1)) s.journal.committed ∧
      (exec (record sha w input action) s).2.journal.inactive = s.journal.inactive) := by
  rw [exec_record]
  split
  · exact Or.inl ⟨.refl s, ⟨rfl, fun _ _ => Iff.rfl⟩⟩
  · split
    · by_cases hsame : sameRoots (preparedOn sha w s.disk input).pre
          (input.paths.map (captureRoot sha w (action s.disk).1)) = true
      · refine Or.inl ⟨(keepsBlobs_workedState sha w s input action).trans
          (keepsBlobs_captureBlobs _ input.paths rfl), ?_⟩
        have he : settleEvent (preparedOn sha w s.disk input)
            (input.paths.map (captureRoot sha w (workedState sha w s input action).disk)) =
              .rolledBack input.transactionId "no-change" := if_pos hsame
        dsimp only
        rw [settleState, he]
        have hw : SameTransactions input.transactionId s { workedState sha w s input action with
            blobs := input.paths.foldl (captureBlobs sha w (workedState sha w s input action).disk)
              (workedState sha w s input action).blobs } := ⟨rfl, fun _ _ => Iff.rfl⟩
        exact sameTransactions_rolledBack hw
      · refine Or.inr ⟨rfl, ?_⟩
        have he : settleEvent (preparedOn sha w s.disk input)
            (input.paths.map (captureRoot sha w (workedState sha w s input action).disk)) =
              .committed input.transactionId
                (input.paths.map (captureRoot sha w (action s.disk).1)) := if_neg hsame
        dsimp only
        rw [settleState, he]
        have hp : mapGet input.transactionId (workedState sha w s input action).journal.prepared =
            some (preparedOn sha w s.disk input) := mapGet_mapSet_self _ _ _
        dsimp only [Journal.apply]
        rw [hp]
        exact ⟨rfl, rfl⟩
    · next message _ =>
        have hsame : SameTransactions (preparedOn sha w s.disk input).transactionId s
            (workedState sha w s input action) := sameTransactions_workedState sha w s input action
        have hk := rollBack_keeps (w := w) hsame message
        have hb := keepsBlobs_workedState sha w s input action
        generalize exec (rollBack w (preparedOn sha w s.disk input) message)
          (workedState sha w s input action) = x at hk
        obtain ⟨hkb, hkc⟩ := hk
        refine Or.inl ?_
        obtain ⟨_ | _, t⟩ := x <;> dsimp only at hkb hkc ⊢
        · exact ⟨⟨fun ok => hkb ▸ hb.extend ok, fun ok => hkb ▸ hb.ok ok⟩, hkc⟩
        · exact ⟨⟨fun ok => hkb ▸ hb.extend ok, fun ok => hkb ▸ hb.ok ok⟩, hkc⟩

end Kross.Mutation

import Kross.Mutation.History

namespace Kross.Mutation

open Kross.FileTree Kross.Prog Kross.Rewind

variable {D H : Type} [DecidableEq D] [DecidableEq H] {sha : Sha256 D H} {w : FilePath}
  {s : MutationState D H} {ts : List (Tracked D H)}

section Select

def chosen (selected : List (MutationRecord D H)) (ts : List (Tracked D H)) : List (Tracked D H) :=
  ts.filter (fun t => t.record ∈ selected)

theorem filter_mem_map {α β : Type} [DecidableEq β] {f : α → β} {k l : List α} (h : k.Sublist l)
    (hn : (l.map f).Nodup) : l.filter (fun a => f a ∈ k.map f) = k := by
  induction h with
  | slnil => rfl
  | cons a hkl ih =>
      rw [List.map_cons, List.nodup_cons] at hn
      have ha : ¬ f a ∈ List.map f _ := fun h => hn.1 ((hkl.map f).subset h)
      rw [List.filter_cons, if_neg (by simpa using ha), ih hn.2]
  | cons_cons a hkl ih =>
      rw [List.map_cons, List.nodup_cons] at hn
      rw [List.filter_cons, if_pos (by simp)]
      congr 1
      rw [← ih hn.2]
      refine List.filter_congr (fun b hb => ?_)
      have hne : f b ≠ f a := fun h => hn.1 (h ▸ List.mem_map_of_mem hb)
      rw [ih hn.2]
      simp [hne]

omit [DecidableEq H] in
/-- The committed transactions are already in the order of their timestamps. -/
theorem listActive_eq (h : Recorded sha w s ts) :
    listActive s.journal =
      (ts.filter (fun t => t.record.1.transactionId ∉ s.journal.inactive)).map Tracked.record := by
  rw [listActive, h.committed, List.map_map]
  have hmap : ts.map (Prod.snd ∘ fun t => (t.record.1.transactionId, t.record)) =
      ts.map Tracked.record := rfl
  rw [hmap, List.filter_map]
  refine List.Pairwise.insertionSort_eq ?_
  rw [List.pairwise_map]
  exact (h.clock.sublist List.filter_sublist)

omit [DecidableEq H] in
theorem select_sublist (h : Recorded sha w s ts) (target : Option String) :
    (select s.journal target).Sublist (ts.map Tracked.record) := by
  have hl : (listActive s.journal).Sublist (ts.map Tracked.record) := by
    rw [listActive_eq h]
    exact List.filter_sublist.map _
  cases target with
  | some target => exact List.filter_sublist.trans hl
  | none =>
      refine List.Sublist.trans ?_ hl
      rw [select]
      cases hlast : (listActive s.journal).getLast? with
      | none => exact List.nil_sublist _
      | some record => exact List.singleton_sublist.mpr (List.mem_of_getLast? hlast)

theorem select_eq (h : Recorded sha w s ts) (target : Option String) :
    (chosen (select s.journal target) ts).map Tracked.record = select s.journal target := by
  obtain ⟨k, hk, hsel⟩ := List.sublist_map_iff.mp (select_sublist h target)
  have hn : (ts.map Tracked.record).Nodup := by
    have hids : ((ts.map Tracked.record).map (fun r => r.1.transactionId)).Nodup := by
      rw [List.map_map]
      exact h.ids
    exact hids.of_map
  rw [chosen, hsel]
  exact congrArg _ ((List.filter_congr (fun _ _ => decide_eq_decide.mpr Iff.rfl)).trans
    (filter_mem_map hk hn))

end Select

section Undo

omit [DecidableEq D] [DecidableEq H] in
def undoResult (selected : List (MutationRecord D H)) : UndoResult :=
  ⟨selected.reverse.map (·.1.transactionId),
    distinct (selected.reverse.flatMap (fun item => item.1.pre.map (·.path)))⟩

theorem exec_undo (now : String) (target : Option String) :
    exec (undo sha w now target) s =
      if (select s.journal target).isEmpty then (.error (.nothingReversible target), s)
      else exec (do
        assertTransactionsCanUndo sha w (select s.journal target)
        (select s.journal target).reverse.forM (undoTransaction w now)
        pure (undoResult (select s.journal target))) s := by
  rw [undo, exec_bind, exec_get]
  dsimp only
  split_ifs <;> rfl

/-- The disk allows the transactions to be undone: it shows what they left, and
their roots can be brought back. -/
structure CanUndo (w : FilePath) (ts : List (Tracked D H)) (v : View String Bytes) : Prop where
  matching : Matches w ts v
  parents : ParentsFit w ts v

/-- An undo of what the disk no longer shows is refused. -/
theorem undo_refused (h : ∀ t ∈ ts, t.Sound sha w) (now : String) {target : Option String}
    (hsel : ts.map Tracked.record = select s.journal target)
    (hc : ∀ path ∈ topLevelRoots (ts.map Tracked.record), Clear s.disk.view (w ++ path))
    (hm : ¬ Matches w ts s.disk.view) :
    ∃ paths blobs, exec (undo sha w now target) s = (.error (.conflict paths), { s with blobs }) := by
  have hne : (select s.journal target).isEmpty = false := by
    rw [← hsel, Bool.eq_false_iff]
    intro hnil
    rw [List.isEmpty_iff, List.map_eq_nil_iff] at hnil
    subst hnil
    exact hm (fun path hpath => by cases hpath)
  obtain ⟨blobs, -, -, hconf⟩ := exec_assert h hc
  obtain ⟨paths, hx⟩ := hconf hm
  refine ⟨paths, blobs, ?_⟩
  rw [exec_undo, hne, if_neg (by simp), exec_bind, ← hsel, hx]

/-- An undo of what the disk shows rewinds it. -/
theorem undo_runs (h : Recorded sha w s ts) {us : List (Tracked D H)} (hus : us ⊆ ts) (now : String)
    {target : Option String} (hsel : us.map Tracked.record = select s.journal target)
    (hne : us ≠ [])
    (hc : ∀ path ∈ topLevelRoots (us.map Tracked.record), Clear s.disk.view (w ++ path))
    (hok : CanUndo w us s.disk.view) :
    ∃ d blobs, Runs (undo sha w now target) s (undoResult (us.map Tracked.record))
        { disk := d, blobs, journal := (undoneEvents now us).foldl Journal.apply s.journal } ∧
      Rewinds w us s.disk.view d.view ∧ KeepsBlobs sha s ⟨s.disk, blobs, s.journal⟩ := by
  have hsound : ∀ t ∈ us, t.Sound sha w := fun t ht => h.sound t (hus ht)
  obtain ⟨blobs, hb, hrun, -⟩ := exec_assert hsound hc
  have hk : KeepsBlobs sha s ⟨s.disk, blobs, s.journal⟩ := keepsBlobs_captureBlobs _ _ hb
  obtain ⟨d, hundo, hd⟩ := runs_undoTransactions (s := { s with blobs }) now hsound
    (fun t ht r hr q hq node hn => (h.stored t (hus ht) r hr q hq node hn).mono (hk.extend h.blobs))
    hok.parents
  have hempty : ¬ (select s.journal target).isEmpty = true := by
    rw [← hsel, List.isEmpty_iff, List.map_eq_nil_iff]
    exact hne
  refine ⟨d, blobs, ?_, hd, hk⟩
  rw [Runs, exec_undo, if_neg hempty]
  rw [← hsel]
  exact (hrun hok.matching).bind (hundo.bind (runs_pure _ _))

end Undo

section Safe

variable (w) (active selected : List (MutationRecord D H))

omit [DecidableEq D] [DecidableEq H] in
def TraceEntry.Touching (p : FilePath) (e : TraceEntry D H) : Prop :=
  ∃ r ∈ selected, e.writer = .transaction r ∧ p ∈ Touches w r.2

/-- An outside edit, or an active transaction that the undo leaves alone. -/
def TraceEntry.Foreign (e : TraceEntry D H) : Prop :=
  match e.writer with
  | .transaction r => r ∈ active ∧ r ∉ selected
  | .outside => True
  | .service => False

/-- Between two selected transactions that touch a path, nothing foreign has
changed it. -/
def Undisturbed (entries : List (TraceEntry D H)) : Prop :=
  ∀ a x m y b, entries = a ++ x :: (m ++ y :: b) →
    ∀ p, x.Touching w selected p → y.Touching w selected p →
      ∀ e ∈ m, e.Foreign active selected → e.before p = e.after p

/-- Every path that the selected transactions touch is as it was before the
first of them. -/
def RestoresFirst (entries : List (TraceEntry D H)) (v' : View String Bytes) : Prop :=
  ∀ a e b p, entries = a ++ e :: b → e.Touching w selected p →
    (∀ d ∈ a, ¬ d.Touching w selected p) → v' p = e.before p

/-- Elsewhere an undo makes at most missing directories. -/
def SparesOthers (entries : List (TraceEntry D H)) (v v' : View String Bytes) : Prop :=
  ∀ p, (∀ e ∈ entries, ¬ e.Touching w selected p) →
    v' p = v p ∨ (v p = none ∧ v' p = some .directory)

/-- The undo throws and leaves every file, or it restores what the selected
transactions found and overwrites nobody else's work. -/
def UndoSafe (entries : List (TraceEntry D H)) (v : View String Bytes) :
    Except MutationError UndoResult × MutationState D H → Prop
  | (.error _, s') => s'.disk.view = v
  | (.ok _, s') => RestoresFirst w selected entries s'.disk.view ∧
      SparesOthers w selected entries v s'.disk.view ∧ Undisturbed w active selected entries

variable {w} {active selected}

omit [DecidableEq D] [DecidableEq H] in
theorem touching_iff {e : TraceEntry D H} {p : FilePath} :
    e.Touching w selected p ↔
      ∃ t, e.tracked = some t ∧ t.record ∈ selected ∧ p ∈ (t.change w).touched := by
  obtain ⟨wr, u, v⟩ := e
  cases wr with
  | transaction r =>
      constructor
      · rintro ⟨r', hr', hw, hp⟩
        cases hw
        exact ⟨_, rfl, hr', hp⟩
      · rintro ⟨t, ht, hr, hp⟩
        cases ht
        exact ⟨r, hr, rfl, hp⟩
  | outside | service => simp [TraceEntry.Touching, TraceEntry.tracked]

omit [DecidableEq D] [DecidableEq H] in
theorem tracked_before {e : TraceEntry D H} {t : Tracked D H} (h : e.tracked = some t) :
    t.before = e.before := by
  obtain ⟨wr, u, v⟩ := e
  cases wr with
  | transaction r =>
      cases h
      rfl
  | outside | service => cases h

theorem touchedByAny_iff {entries : List (TraceEntry D H)} {p : FilePath} :
    TouchedByAny w (chosen selected (entries.filterMap TraceEntry.tracked)) p ↔
      ∃ e ∈ entries, e.Touching w selected p := by
  simp only [TouchedByAny, TouchedBy, List.mem_map, chosen, List.mem_filter, List.mem_filterMap,
    decide_eq_true_eq, touching_iff]
  constructor
  · rintro ⟨c, ⟨t, ⟨⟨e, he, ht⟩, hr⟩, rfl⟩, hp⟩
    exact ⟨e, he, t, ht, hr, hp⟩
  · rintro ⟨e, he, t, ht, hr, hp⟩
    exact ⟨_, ⟨t, ⟨⟨e, he, ht⟩, hr⟩, rfl⟩, hp⟩

theorem rewound_first {a b : List (TraceEntry D H)} {e : TraceEntry D H} {p : FilePath}
    (he : e.Touching w selected p) (ha : ∀ d ∈ a, ¬ d.Touching w selected p) (v : View String Bytes) :
    rewound w (chosen selected ((a ++ e :: b).filterMap TraceEntry.tracked)) v p = e.before p := by
  obtain ⟨t, ht, hr, hp⟩ := touching_iff.mp he
  have hsplit : chosen selected ((a ++ e :: b).filterMap TraceEntry.tracked) =
      chosen selected (a.filterMap TraceEntry.tracked) ++
        t :: chosen selected (b.filterMap TraceEntry.tracked) := by
    rw [List.filterMap_append, List.filterMap_cons_some ht, chosen, List.filter_append,
      List.filter_cons, if_pos (by simpa using hr)]
    rfl
  have hno : ¬ TouchedByAny w (chosen selected (a.filterMap TraceEntry.tracked)) p := by
    rw [touchedByAny_iff]
    rintro ⟨d, hd, hdp⟩
    exact ha d hd hdp
  rw [rewound, hsplit, List.map_append, List.map_cons, rewind_first hp hno, ← tracked_before ht]
  rfl

/-- What a rewound disk means for a history. -/
theorem restores_of_rewinds {entries : List (TraceEntry D H)} {v v' : View String Bytes}
    (h : Rewinds w (chosen selected (entries.filterMap TraceEntry.tracked)) v v') :
    RestoresFirst w selected entries v' ∧ SparesOthers w selected entries v v' := by
  constructor
  · rintro a e b p rfl he ha
    have hmem : e ∈ a ++ e :: b := List.mem_append_right _ List.mem_cons_self
    have ht := touchedByAny_iff.mpr ⟨e, hmem, he⟩
    rw [(h p).1 ht, rewound_first he ha]
  · intro p hp
    have hno : ¬ TouchedByAny w (chosen selected (entries.filterMap TraceEntry.tracked)) p := by
      rw [touchedByAny_iff]
      rintro ⟨e, he, hep⟩
      exact hp e he hep
    exact ((h p).2 hno).imp_right (fun h' => ⟨h'.1, h'.2.1⟩)

end Safe

/-- The transactions an undo selects, as a history has seen them. -/
def undone (s : MutationState D H) (entries : List (TraceEntry D H)) (target : Option String) :
    List (Tracked D H) :=
  chosen (select s.journal target) (entries.filterMap TraceEntry.tracked)

section Note

def writeFile (path : FilePath) (content : Bytes) (d : Files) : Files :=
  match d.writeFileSync path content with
  | .ok d' => d'
  | .error _ => d

def note : Files := writeFile ["note"] [0] .empty

def rewriteNote (transactionId : String) (createdAt : Nat) (content : Bytes) : HistoryStep :=
  .record ⟨transactionId, "run", createdAt, [["note"]]⟩
    (fun d => (writeFile ["note"] content d, none))

/-- A note is rewritten once. -/
def rewrittenOnce : List HistoryStep := [rewriteNote "t1" 1 [1]]

/-- A note is rewritten twice, with an edit by hand in between. -/
def rewrittenAroundEdit : List HistoryStep :=
  [rewriteNote "t1" 1 [1], .outside (writeFile ["note"] [9]), rewriteNote "t2" 2 [2]]

def noteState (steps : List HistoryStep) : MutationState Digest (List (MutationEntrySnapshot Digest)) :=
  runSteps .verbatim [] (newService note) steps

def noteTrace (steps : List HistoryStep) :
    List (TraceEntry Digest (List (MutationEntrySnapshot Digest))) :=
  trace .verbatim [] (newService note) steps

def NoteUndoSafe (steps : List HistoryStep) : Prop :=
  UndoSafe [] (listActive (noteState steps).journal) (select (noteState steps).journal (some "run"))
    (noteTrace steps) (noteState steps).disk.view
    (exec (undo .verbatim [] "now" (some "run")) (noteState steps))

theorem stepsOk_rewrittenOnce :
    StepsOk Sha256.verbatim [] (newService note) rewrittenOnce := by
  refine ⟨⟨⟨by decide, by decide, ?_⟩, ?_⟩, trivial⟩
  · simp [newService, Journal.empty]
  · unfold SeesPaths
    decide

end Note

end Kross.Mutation

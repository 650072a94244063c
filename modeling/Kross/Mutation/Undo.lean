import Kross.Mutation.Compose
import Kross.Mutation.Restore

namespace Kross.Mutation

open Kross.FileTree Kross.Prog Kross.Rewind

variable {D H : Type}

section Blobs

variable [DecidableEq D] {sha : Sha256 D H}

/-- Every blob lies under the digest of its bytes. -/
def BlobsOk (sha : Sha256 D H) (blobs : List (D × Bytes)) : Prop :=
  ∀ ref c, blobs.lookup ref = some c → ref = sha.ofBytes c

def BlobsExtend (blobs blobs' : List (D × Bytes)) : Prop :=
  ∀ ref c, blobs.lookup ref = some c → blobs'.lookup ref = some c

theorem writeBlob_spec {blobs : List (D × Bytes)} (h : BlobsOk sha blobs) (c : Bytes) :
    BlobsOk sha (writeBlob sha blobs c) ∧ BlobsExtend blobs (writeBlob sha blobs c) ∧
      (writeBlob sha blobs c).lookup (sha.ofBytes c) = some c := by
  rw [writeBlob]
  split_ifs with hc
  · refine ⟨h, fun _ _ hr => hr, ?_⟩
    obtain ⟨c', hc'⟩ := Option.isSome_iff_exists.mp hc
    rw [hc', sha.bytes_injective (h _ _ hc')]
  · have hn := Option.not_isSome_iff_eq_none.mp hc
    refine ⟨fun ref c' hr => ?_, fun ref c' hr => ?_, by simp⟩
    · rw [List.lookup_cons] at hr
      cases hb : ref == sha.ofBytes c with
      | true =>
          simp only [hb, Option.some.injEq] at hr
          rw [← hr]
          simpa using hb
      | false =>
          simp only [hb] at hr
          exact h ref c' hr
    · have hne : ref ≠ sha.ofBytes c := by
        rintro rfl
        simp [hn] at hr
      rw [List.lookup_cons, beq_false_of_ne hne]
      exact hr

theorem captureBlobs_fold (l : List (FilePath × FileNode)) {blobs : List (D × Bytes)}
    (h : BlobsOk sha blobs) :
    BlobsOk sha (l.foldl (fun blobs e => match e.2 with
      | .file content => writeBlob sha blobs content
      | _ => blobs) blobs) ∧
    BlobsExtend blobs (l.foldl (fun blobs e => match e.2 with
      | .file content => writeBlob sha blobs content
      | _ => blobs) blobs) ∧
    ∀ e ∈ l, Stored sha (l.foldl (fun blobs e => match e.2 with
      | .file content => writeBlob sha blobs content
      | _ => blobs) blobs) e.2 := by
  induction l generalizing blobs with
  | nil => exact ⟨h, fun _ _ hr => hr, by simp⟩
  | cons e l ih =>
      obtain ⟨p, node⟩ := e
      rw [List.foldl_cons]
      cases node with
      | directory | link t =>
          obtain ⟨h1, h2, h3⟩ := ih h
          refine ⟨h1, h2, fun e he => ?_⟩
          rcases List.mem_cons.mp he with rfl | he
          · simp [Stored]
          · exact h3 e he
      | file c =>
          obtain ⟨w1, w2, w3⟩ := writeBlob_spec h c
          obtain ⟨h1, h2, h3⟩ := ih w1
          refine ⟨h1, fun ref c' hr => h2 ref c' (w2 ref c' hr), fun e he => ?_⟩
          rcases List.mem_cons.mp he with rfl | he
          · intro c' hc'
            cases hc'
            exact h2 _ _ w3
          · exact h3 e he

theorem exec_captureRoots (sha : Sha256 D H) (w : FilePath) (paths : List FilePath)
    (s : MutationState D H) :
    exec (captureRoots sha w paths) s = (.ok (paths.map (captureRoot sha w s.disk)),
      { s with blobs := paths.foldl (captureBlobs sha w s.disk) s.blobs }) := rfl

/-- Capturing roots keeps the blobs that are there and adds those of the files
below the roots. -/
theorem captureBlobs_spec {w : FilePath} {d : Files} (paths : List FilePath)
    {blobs : List (D × Bytes)} (h : BlobsOk sha blobs) :
    BlobsOk sha (paths.foldl (captureBlobs sha w d) blobs) ∧
      BlobsExtend blobs (paths.foldl (captureBlobs sha w d) blobs) ∧
      ∀ p ∈ paths, Clear d.view (w ++ p) → ∀ q, w ++ p <+: q → ∀ node, d.view q = some node →
        Stored sha (paths.foldl (captureBlobs sha w d) blobs) node := by
  induction paths generalizing blobs with
  | nil => exact ⟨h, fun _ _ hr => hr, by simp⟩
  | cons p paths ih =>
      obtain ⟨b1, b2, b3⟩ := captureBlobs_fold (captured w d p) h
      obtain ⟨h1, h2, h3⟩ := ih b1
      rw [List.foldl_cons]
      refine ⟨h1, fun ref c hr => h2 ref c (b2 ref c hr), fun p' hp' hc q hq node hn => ?_⟩
      rcases List.mem_cons.mp hp' with rfl | hp'
      · intro c hnc
        exact h2 _ _ (b3 (q, node) ((mem_captured hc).mpr ⟨hq, hn⟩) c hnc)
      · exact h3 p' hp' hc q hq node hn

end Blobs

section Assert

variable [DecidableEq D] [DecidableEq H] {sha : Sha256 D H} {w : FilePath} {ts : List (Tracked D H)}

/-- What the transactions left, where nothing tells what they found. -/
noncomputable def left (w : FilePath) (ts : List (Tracked D H)) : View String Bytes :=
  replay (ts.map (Tracked.change w)) (fun _ => none)

/-- The disk shows, at and below the top-level roots of the transactions, what
they left there. -/
def Matches (w : FilePath) (ts : List (Tracked D H)) (v : View String Bytes) : Prop :=
  ∀ path ∈ topLevelRoots (ts.map Tracked.record), ∀ q, w ++ path <+: q →
    visible (left w ts) (w ++ path) q = v q

omit [DecidableEq D] [DecidableEq H] in
theorem composeFinalRoots_records (h : ∀ t ∈ ts, t.Sound sha w) :
    ∀ root ∈ composeFinalRoots sha (ts.map Tracked.record),
      Records sha w root (visible (left w ts) (w ++ root.path)) := by
  intro root hroot
  rw [composeFinalRoots] at hroot
  obtain ⟨path, -, rfl⟩ := List.mem_map.mp hroot
  have hk := wellKeyed_composeEntries (ts.map Tracked.record)
  have hf : (composeEntries (ts.map Tracked.record)).filter (fun e => isPathWithin e.2.path path) =
      (composeEntries (ts.map Tracked.record)).filter (fun e => isPathWithin e.1 path) :=
    List.filter_congr (fun e he => by rw [hk.keyed e he])
  refine orderSnapshotEntries_records ⟨hk.nodup.sublist (List.filter_sublist.map _),
    fun e he => hk.keyed e (List.mem_filter.mp he).1⟩ (fun p => ?_)
  rw [hf, mapGet_filter p (fun q => isPathWithin q path), mapGet_composeEntries ts h, belowRoot]
  by_cases hp : path <+: p
  · simp [isPathWithin_iff.mpr hp, hp, left]
  · have hb := Bool.eq_false_iff.mpr (mt isPathWithin_iff.mp hp)
    simp [hb, hp]

omit [DecidableEq D] [DecidableEq H] in
theorem composeFinalRoots_paths (sha : Sha256 D H) (transactions : List (MutationRecord D H)) :
    (composeFinalRoots sha transactions).map (·.path) = topLevelRoots transactions := by
  simp [composeFinalRoots, Function.comp_def]

theorem zip_filter_nil {α β : Type} {l : List α} {f : α → β} {p : α × β → Bool} :
    (l.zip (l.map f)).filter p = [] ↔ ∀ a ∈ l, p (a, f a) = false := by
  induction l with
  | nil => simp
  | cons a l ih =>
      rw [List.map_cons, List.zip_cons_cons, List.filter_cons]
      cases hp : p (a, f a) <;> simp [hp, ih]

omit [DecidableEq D] in
theorem conflicts_nil_iff (h : ∀ t ∈ ts, t.Sound sha w) {d : Files}
    (hc : ∀ path ∈ topLevelRoots (ts.map Tracked.record), Clear d.view (w ++ path)) :
    ((composeFinalRoots sha (ts.map Tracked.record)).zip
        ((topLevelRoots (ts.map Tracked.record)).map (captureRoot sha w d))).filter
          (fun e => e.2.hash ≠ e.1.hash) = [] ↔ Matches w ts d.view := by
  rw [← composeFinalRoots_paths sha, List.map_map, zip_filter_nil]
  have hone : ∀ root ∈ composeFinalRoots sha (ts.map Tracked.record),
      (captureRoot sha w d root.path).hash = root.hash ↔
        ∀ q, w ++ root.path <+: q → visible (left w ts) (w ++ root.path) q = d.view q := by
    intro root hroot
    have hpath : root.path ∈ topLevelRoots (ts.map Tracked.record) := by
      rw [← composeFinalRoots_paths sha]
      exact List.mem_map_of_mem hroot
    rw [eq_comm]
    exact hash_eq_iff (composeFinalRoots_records h root hroot)
      (captureRoot_records sha (hc root.path hpath)) rfl
  simp only [Function.comp_apply, decide_eq_false_iff_not, ne_eq, not_not]
  constructor
  · intro hall path hpath
    rw [← composeFinalRoots_paths sha] at hpath
    obtain ⟨root, hroot, rfl⟩ := List.mem_map.mp hpath
    exact (hone root hroot).mp (hall root hroot)
  · intro hm root hroot
    refine (hone root hroot).mpr (hm root.path ?_)
    rw [← composeFinalRoots_paths sha]
    exact List.mem_map_of_mem hroot

theorem exec_assert (h : ∀ t ∈ ts, t.Sound sha w) {s : MutationState D H}
    (hc : ∀ path ∈ topLevelRoots (ts.map Tracked.record), Clear s.disk.view (w ++ path)) :
    ∃ blobs, blobs = (topLevelRoots (ts.map Tracked.record)).foldl (captureBlobs sha w s.disk) s.blobs ∧
      (Matches w ts s.disk.view →
        Runs (assertTransactionsCanUndo sha w (ts.map Tracked.record)) s ⟨⟩ { s with blobs }) ∧
      (¬ Matches w ts s.disk.view → ∃ paths,
        exec (assertTransactionsCanUndo sha w (ts.map Tracked.record)) s =
          (.error (.conflict paths), { s with blobs })) := by
  have hiff := conflicts_nil_iff h hc
  refine ⟨_, rfl, fun hm => ?_, fun hm => ?_⟩
  · rw [Runs, assertTransactionsCanUndo, exec_bind, exec_captureRoots, composeFinalRoots_paths]
    simp only [hiff.mpr hm]
    rfl
  · rw [assertTransactionsCanUndo, exec_bind, exec_captureRoots, composeFinalRoots_paths]
    simp only [if_pos (mt hiff.mp hm)]
    exact ⟨_, rfl⟩

end Assert

section Rewinding

variable [DecidableEq D] {sha : Sha256 D H} {w : FilePath} {ts : List (Tracked D H)}

noncomputable def rewound (w : FilePath) (ts : List (Tracked D H)) (v : View String Bytes) :
    View String Bytes := rewind (ts.map (Tracked.change w)) v

def TouchedByAny (w : FilePath) (ts : List (Tracked D H)) (p : FilePath) : Prop :=
  TouchedBy (ts.map (Tracked.change w)) p

/-- When the turn of a transaction comes, the parents of its roots are
directories, or missing where that does no harm: nothing is brought back below
them, or no restored snapshot says that they are missing. -/
def ParentsFit (w : FilePath) (ts : List (Tracked D H)) (v : View String Bytes) : Prop :=
  ∀ a t b, ts = a ++ t :: b → ∀ r ∈ t.record.1.pre, ∀ p, p <+: w ++ r.path → p ≠ w ++ r.path →
    rewound w b v p = some .directory ∨ (rewound w b v p = none ∧
      (t.before (w ++ r.path) = none ∨ ¬ TouchedByAny w b p ∨ p ∈ Touches w t.record.2))

/-- A parent of something that an undo brings back. -/
def Needed (w : FilePath) (ts : List (Tracked D H)) (p : FilePath) : Prop :=
  ∃ t ∈ ts, ∃ r ∈ t.record.1.pre, p <+: w ++ r.path ∧ t.before (w ++ r.path) ≠ none

/-- The disk after the transactions are undone: what they touched is rewound,
and elsewhere at most missing parents were made. -/
def Rewinds (w : FilePath) (ts : List (Tracked D H)) (v v' : View String Bytes) : Prop :=
  ∀ p, (TouchedByAny w ts p → v' p = rewound w ts v p) ∧
    (¬ TouchedByAny w ts p →
      v' p = v p ∨ (v p = none ∧ v' p = some .directory ∧ Needed w ts p))

def undoneEvents (now : String) (ts : List (Tracked D H)) :
    List (MutationEvent (PreparedMutation D H) (List (MutationRootSnapshot D H))) :=
  ts.reverse.map (fun t => .undone t.record.1.transactionId now)

omit [DecidableEq D] in
theorem undoneEvents_cons (now : String) (t : Tracked D H) (ts : List (Tracked D H)) :
    undoneEvents now (t :: ts) = undoneEvents now ts ++ [.undone t.record.1.transactionId now] := by
  simp [undoneEvents]

omit [DecidableEq D] in
theorem covers_pre_iff {t : Tracked D H} (h : t.Sound sha w) {p : FilePath} :
    Covers w t.record.1.pre p ↔ p ∈ Touches w t.record.2 := by
  have hmem : ∀ roots : List (MutationRootSnapshot D H),
      (∃ r ∈ roots, w ++ r.path <+: p) ↔ ∃ q ∈ roots.map (·.path), w ++ q <+: p := by
    intro roots
    simp
  rw [Covers, hmem, h.paths, ← hmem]
  rfl

omit [DecidableEq D] in
theorem ParentsFit.tail {t : Tracked D H} {v : View String Bytes} (h : ParentsFit w (t :: ts) v) :
    ParentsFit w ts v :=
  fun a t' b hts => h (t :: a) t' b (by rw [hts, List.cons_append])

omit [DecidableEq D] in
theorem rewinds_direct {t : Tracked D H} {v u : View String Bytes} (h : ParentsFit w (t :: ts) v)
    (hu : Rewinds w ts v u) : ∀ r ∈ t.record.1.pre, Direct u (w ++ r.path) := by
  intro r hr p hp hne
  have hfit := (h [] t ts rfl r hr p hp hne).imp_right And.left
  by_cases ht : TouchedByAny w ts p
  · rwa [(hu p).1 ht]
  · rw [rewound, rewind_untouched ht] at hfit
    rcases (hu p).2 ht with hk | ⟨-, hk, -⟩
    · rwa [hk]
    · exact Or.inl hk

omit [DecidableEq D] in
theorem Rewinds.cons {t : Tracked D H} (ht : t.Sound sha w) {v u u' : View String Bytes}
    (hf : ParentsFit w (t :: ts) v) (hu : Rewinds w ts v u)
    (hu' : ∀ q, (Covers w t.record.1.pre q → u' q = t.before q) ∧
      (¬ Covers w t.record.1.pre q → u' q = u q ∨
        (u' q = some .directory ∧ ParentMade w t.record.1.pre t.before u q))) :
    Rewinds w (t :: ts) v u' := by
  intro p
  by_cases hp : p ∈ Touches w t.record.2
  · have htp : p ∈ (t.change w).touched := hp
    have htouch : TouchedByAny w (t :: ts) p := touchedBy_cons.mpr (Or.inl htp)
    refine ⟨fun _ => ?_, fun hn => absurd htouch hn⟩
    rw [(hu' p).1 ((covers_pre_iff ht).mpr hp), rewound, List.map_cons, rewind_of_mem htp]
    rfl
  · have htp : p ∉ (t.change w).touched := hp
    have hcov := mt (covers_pre_iff ht).mp hp
    have hiff : TouchedByAny w (t :: ts) p ↔ TouchedByAny w ts p :=
      touchedBy_cons.trans (or_iff_right htp)
    have hrew : rewound w (t :: ts) v p = rewound w ts v p := by
      rw [rewound, List.map_cons, rewind_of_notMem htp, rewound]
    rw [hiff, hrew]
    constructor
    · intro hts
      rcases (hu' p).2 hcov with hk | ⟨hk, hn, r, hr, hpr, hb⟩
      · rw [hk, (hu p).1 hts]
      · have hne : p ≠ w ++ r.path := fun he => hcov ⟨r, hr, he ▸ List.prefix_rfl⟩
        rcases hf [] t ts rfl r hr p hpr hne with hd | ⟨-, h1 | h2 | h3⟩
        · rw [hk, hd]
        · exact absurd h1 hb
        · exact absurd hts h2
        · exact absurd h3 hp
    · intro hts
      rcases (hu' p).2 hcov with hk | ⟨hk, hn, r, hr, hpr, hb⟩
      · rw [hk]
        refine ((hu p).2 hts).imp_right (fun h => ⟨h.1, h.2.1, ?_⟩)
        obtain ⟨t', ht', hneed⟩ := h.2.2
        exact ⟨t', List.mem_cons_of_mem _ ht', hneed⟩
      · rcases (hu p).2 hts with hk' | ⟨hv, hk', -⟩
        · exact Or.inr ⟨hk' ▸ hn, hk, t, List.mem_cons_self, r, hr, hpr, hb⟩
        · exact absurd (hn.symm.trans hk') (by simp)

/-- Undoing the transactions from the last to the first rewinds the disk. -/
theorem runs_undoTransactions (now : String) (h : ∀ t ∈ ts, t.Sound sha w) {s : MutationState D H}
    (hb : ∀ t ∈ ts, ∀ r ∈ t.record.1.pre, ∀ q, w ++ r.path <+: q → ∀ node, t.before q = some node →
      Stored sha s.blobs node)
    (hf : ParentsFit w ts s.disk.view) :
    ∃ d, Runs ((ts.map Tracked.record).reverse.forM (undoTransaction w now)) s ⟨⟩
        { s with disk := d, journal := (undoneEvents now ts).foldl Journal.apply s.journal } ∧
      Rewinds w ts s.disk.view d.view := by
  induction ts with
  | nil => exact ⟨s.disk, runs_forM_nil _ _, fun p => ⟨fun h => by simp [TouchedByAny, TouchedBy] at h,
      fun _ => Or.inl rfl⟩⟩
  | cons t ts ih =>
      obtain ⟨d, hrun, hd⟩ := ih (fun t' ht' => h t' (List.mem_cons_of_mem _ ht'))
        (fun t' ht' => hb t' (List.mem_cons_of_mem _ ht')) hf.tail
      have ht := h t List.mem_cons_self
      have hrew : Rewindable sha w t.record.1.pre t.before d.view s.blobs :=
        ⟨fun r hr => ⟨ht.treeBefore, ht.pre r hr, hb t List.mem_cons_self r hr⟩, ht.directBefore,
          rewinds_direct hf hd⟩
      obtain ⟨d', hrun', hd'⟩ := runs_restoreRoots (s := { s with
        disk := d, journal := (undoneEvents now ts).foldl Journal.apply s.journal }) hrew
      refine ⟨d', ?_, hd.cons ht hf hd'⟩
      rw [List.map_cons, List.reverse_cons]
      refine runs_forM_append hrun ?_
      have happ : Runs (appendEvent (.undone t.record.1.transactionId now)) { s with
          disk := d', journal := (undoneEvents now ts).foldl Journal.apply s.journal } ⟨⟩
          { s with disk := d', journal := (undoneEvents now (t :: ts)).foldl Journal.apply s.journal } := by
        rw [undoneEvents_cons, List.foldl_append]
        rfl
      exact runs_forM_cons (hrun'.bind happ) (runs_forM_nil _ _)

end Rewinding

end Kross.Mutation

import Kross.Mutation.Capture
import Kross.Mutation.Service
import Kross.Rewind

namespace Kross.Mutation

open Kross.FileTree Kross.Rewind

variable {D H : Type}

/-- The entry map holds each entry under its own path, once. -/
structure WellKeyed (m : EntryMap D) : Prop where
  nodup : (m.map Prod.fst).Nodup
  keyed : ∀ e ∈ m, e.2.path = e.1

theorem wellKeyed_mapSet {m : EntryMap D} (h : WellKeyed m) (entry : MutationEntrySnapshot D) :
    WellKeyed (mapSet entry.path entry m) := by
  refine ⟨keys_mapSet_nodup h.nodup, fun e he => ?_⟩
  rcases mem_mapSet he with rfl | he
  · rfl
  · exact h.keyed e he

theorem wellKeyed_composeRoot {m : EntryMap D} (h : WellKeyed m) (root : MutationRootSnapshot D H) :
    WellKeyed (composeRoot m root) := by
  rw [composeRoot]
  have hf : WellKeyed (m.filter (fun e => !isPathWithin e.1 root.path)) :=
    ⟨h.nodup.sublist (List.filter_sublist.map _), fun e he => h.keyed e (List.mem_filter.mp he).1⟩
  generalize m.filter (fun e => !isPathWithin e.1 root.path) = n at hf
  induction root.entries generalizing n with
  | nil => exact hf
  | cons entry entries ih => exact ih _ (wellKeyed_mapSet hf entry)

theorem wellKeyed_composeEntries (transactions : List (MutationRecord D H)) :
    WellKeyed (composeEntries transactions) := by
  have hfold : ∀ (roots : List (MutationRootSnapshot D H)) (m : EntryMap D), WellKeyed m →
      WellKeyed (roots.foldl composeRoot m) := by
    intro roots
    induction roots with
    | nil => exact fun m h => h
    | cons root roots ih => exact fun m h => ih _ (wellKeyed_composeRoot h root)
  rw [composeEntries]
  have h0 : WellKeyed ([] : EntryMap D) := ⟨by simp, by simp⟩
  generalize ([] : EntryMap D) = m at h0
  induction transactions generalizing m with
  | nil => exact h0
  | cons t ts ih => exact ih _ (hfold t.2 m h0)

theorem path_entry (sha : Sha256 D H) (p : FilePath) (node : FileNode) :
    (entrySnapshot sha p node).path = p := by
  cases node <;> rfl

theorem mapGet_setEntries (sha : Sha256 D H) {w : FilePath} {l : List (FilePath × FileNode)}
    (hw : ∀ e ∈ l, w <+: e.1) (hn : (l.map Prod.fst).Nodup) (m : EntryMap D) (p : FilePath) :
    (∀ node, (w ++ p, node) ∈ l →
      mapGet p ((l.map (fun e => entrySnapshot sha (e.1.drop w.length) e.2)).foldl
        (fun m entry => mapSet entry.path entry m) m) = some (entrySnapshot sha p node)) ∧
    ((∀ node, (w ++ p, node) ∉ l) →
      mapGet p ((l.map (fun e => entrySnapshot sha (e.1.drop w.length) e.2)).foldl
        (fun m entry => mapSet entry.path entry m) m) = mapGet p m) := by
  induction l generalizing m with
  | nil => simp
  | cons e l ih =>
      obtain ⟨q, n⟩ := e
      obtain ⟨t, rfl⟩ := hw _ List.mem_cons_self
      rw [List.map_cons, List.nodup_cons] at hn
      have ih := ih (fun e he => hw e (List.mem_cons_of_mem _ he)) hn.2
        (mapSet t (entrySnapshot sha t n) m)
      simp only [List.map_cons, List.foldl_cons, List.drop_left, path_entry]
      constructor
      · intro node hm
        rcases List.mem_cons.mp hm with hm | hm
        · simp only [Prod.mk.injEq, List.append_cancel_left_eq] at hm
          obtain ⟨rfl, rfl⟩ := hm
          rw [ih.2 (fun node hm => hn.1 (List.mem_map.mpr ⟨_, hm, rfl⟩)), mapGet_mapSet, if_pos rfl]
        · exact ih.1 node hm
      · intro hm
        have htp : t ≠ p := by
          rintro rfl
          exact hm n List.mem_cons_self
        rw [ih.2 (fun node h => hm node (List.mem_cons_of_mem _ h)), mapGet_mapSet, if_neg htp]

theorem mapGet_composeRoot {sha : Sha256 D H} {w : FilePath} {root : MutationRootSnapshot D H}
    {v : View String Bytes} (h : Records sha w root v) (m : EntryMap D) (p : FilePath) :
    mapGet p (composeRoot m root) =
      if root.path <+: p then (v (w ++ p)).map (entrySnapshot sha p) else mapGet p m := by
  obtain ⟨l, hl, hlm, hle, -⟩ := h
  have hn : (l.map Prod.fst).Nodup := hl.imp (fun hlt => ne_of_lt hlt)
  have hw : ∀ e ∈ l, w <+: e.1 := fun e he =>
    (List.prefix_append _ _).trans ((hlm e.1 e.2).mp he).1
  have hset := mapGet_setEntries sha hw hn (m.filter (fun e => !isPathWithin e.1 root.path)) p
  have hpre : w ++ root.path <+: w ++ p ↔ root.path <+: p := List.prefix_append_right_inj w
  rw [composeRoot, hle]
  split_ifs with hp
  · cases hv : v (w ++ p) with
    | some node => exact hset.1 node ((hlm _ _).mpr ⟨hpre.mpr hp, hv⟩)
    | none =>
        rw [hset.2 (fun node hm => by
            have hnode := ((hlm _ _).mp hm).2
            simp [hv] at hnode),
          mapGet_filter p (fun q => !isPathWithin q root.path)]
        simp [isPathWithin_iff, hp]
  · rw [hset.2 (fun node hm => hp (hpre.mp ((hlm _ _).mp hm).1)),
      mapGet_filter p (fun q => !isPathWithin q root.path)]
    simp [isPathWithin, hp]

/-- A committed transaction with the disk it was prepared on and the disk it
was committed on. -/
structure Tracked (D H : Type) where
  record : MutationRecord D H
  before : View String Bytes
  after : View String Bytes

def Touches (w : FilePath) (roots : List (MutationRootSnapshot D H)) : Set FilePath :=
  {q | ∃ r ∈ roots, w ++ r.path <+: q}

def Tracked.change (w : FilePath) (t : Tracked D H) : Change FilePath (Option FileNode) :=
  ⟨Touches w t.record.2, t.before, t.after⟩

/-- The snapshots of a tracked transaction tell the truth about its disks. -/
structure Tracked.Sound (sha : Sha256 D H) (w : FilePath) (t : Tracked D H) : Prop where
  paths : t.record.1.pre.map (·.path) = t.record.2.map (·.path)
  treeBefore : IsTree t.before
  treeAfter : IsTree t.after
  pre : ∀ r ∈ t.record.1.pre, Records sha w r t.before
  post : ∀ r ∈ t.record.2, Records sha w r t.after
  directBefore : ∀ r ∈ t.record.1.pre, Direct t.before (w ++ r.path)
  directAfter : ∀ r ∈ t.record.2, Direct t.after (w ++ r.path)

theorem mapGet_composeRoots {sha : Sha256 D H} {w : FilePath} {v : View String Bytes}
    (roots : List (MutationRootSnapshot D H)) (h : ∀ r ∈ roots, Records sha w r v) (m : EntryMap D)
    (p : FilePath) :
    (w ++ p ∈ Touches w roots →
      mapGet p (roots.foldl composeRoot m) = (v (w ++ p)).map (entrySnapshot sha p)) ∧
    (w ++ p ∉ Touches w roots → mapGet p (roots.foldl composeRoot m) = mapGet p m) := by
  induction roots using List.reverseRecOn with
  | nil => simp [Touches]
  | append_singleton roots r ih =>
      have ih := ih (fun r' hr' => h r' (List.mem_append_left _ hr'))
      have hr := h r (List.mem_append_right _ (List.mem_singleton.mpr rfl))
      rw [List.foldl_append, List.foldl_cons, List.foldl_nil, mapGet_composeRoot hr]
      have hpre : w ++ r.path <+: w ++ p ↔ r.path <+: p := List.prefix_append_right_inj w
      constructor
      · rintro ⟨r', hr', hp⟩
        split_ifs with hrp
        · rfl
        · refine ih.1 ⟨r', ?_, hp⟩
          rcases List.mem_append.mp hr' with hr' | hr'
          · exact hr'
          · rw [List.mem_singleton.mp hr'] at hp
            exact absurd (hpre.mp hp) hrp
      · intro hn
        have hrp : ¬ r.path <+: p := fun hrp =>
          hn ⟨r, List.mem_append_right _ (List.mem_singleton.mpr rfl), hpre.mpr hrp⟩
        rw [if_neg hrp]
        refine ih.2 (fun hmem => ?_)
        obtain ⟨r', hr', hp⟩ := hmem
        exact hn ⟨r', List.mem_append_left _ hr', hp⟩

/-- The entry map holds, for each path, what the last transaction that covers
it left there. -/
theorem mapGet_composeEntries {sha : Sha256 D H} {w : FilePath} (ts : List (Tracked D H))
    (h : ∀ t ∈ ts, t.Sound sha w) (p : FilePath) :
    mapGet p (composeEntries (ts.map Tracked.record)) =
      (replay (ts.map (Tracked.change w)) (fun _ => none) (w ++ p)).map (entrySnapshot sha p) := by
  induction ts using List.reverseRecOn with
  | nil => rfl
  | append_singleton ts t ih =>
      have ih := ih (fun t' ht' => h t' (List.mem_append_left _ ht'))
      have ht := h t (List.mem_append_right _ (List.mem_singleton.mpr rfl))
      have hroots := mapGet_composeRoots t.record.2 ht.post
        (composeEntries (ts.map Tracked.record)) p
      rw [List.map_append, List.map_append, List.map_singleton, List.map_singleton]
      have hsplit : composeEntries (ts.map Tracked.record ++ [t.record]) =
          t.record.2.foldl composeRoot (composeEntries (ts.map Tracked.record)) := by
        rw [composeEntries, List.foldl_append]
        rfl
      rw [hsplit]
      by_cases hp : w ++ p ∈ Touches w t.record.2
      · rw [hroots.1 hp, replay_concat_of_mem hp]
        rfl
      · rw [hroots.2 hp, replay_concat_of_notMem hp, ih]

open Classical in
/-- What a snapshot of `root` can show of `v`: a walk from the root never gets
below what is no directory. -/
noncomputable def visible (v : View String Bytes) (root : FilePath) : View String Bytes := fun q =>
  if ∀ p, root <+: p → p <+: q → p ≠ q → v p = some .directory then v q else none

theorem visible_eq_some {v : View String Bytes} {root q : FilePath} {node : FileNode} :
    visible v root q = some node ↔
      (∀ p, root <+: p → p <+: q → p ≠ q → v p = some .directory) ∧ v q = some node := by
  rw [visible]
  split_ifs with h
  · exact (and_iff_right h).symm
  · simp [h]

theorem visible_of_tree {v : View String Bytes} (h : IsTree v) (root q : FilePath) :
    visible v root q = v q := by
  rw [Option.ext_iff]
  intro node
  have hiff : visible v root q = some node ↔ _ := visible_eq_some
  rw [hiff]
  exact and_iff_right_of_imp (fun hq p _ hp hne => h.of_prefix hp hne (by simp [hq]))

theorem visible_congr {u v : View String Bytes} {root q : FilePath} (hq : root <+: q)
    (h : ∀ p, root <+: p → u p = v p) : visible u root q = visible v root q := by
  rw [visible, visible, h q hq]
  congr 1
  simp only [eq_iff_iff]
  exact forall_congr' fun p => forall_congr' fun hp => by rw [h p hp]

section Order

variable {m : EntryMap D} {root : FilePath}

theorem mem_snapshotChildren {p : FilePath} {n : String} (hp : root <+: p) :
    n ∈ snapshotChildren m root p ↔ mapGet (p ++ [n]) m ≠ none := by
  rw [← mem_keys_iff, snapshotChildren, List.mem_filterMap]
  constructor
  · rintro ⟨q, hq, hn⟩
    split_ifs at hn with h
    rwa [← h.2, List.dropLast_append_getLast? n hn]
  · intro h
    refine ⟨p ++ [n], h, ?_⟩
    have hne : p ++ [n] ≠ root := by
      rintro rfl
      have hle := hp.length_le
      simp only [List.length_append, List.length_singleton] at hle
      omega
    simp [hne]

theorem snapshotChildren_nodup (h : WellKeyed m) (p : FilePath) :
    (snapshotChildren m root p).Nodup := by
  refine h.nodup.filterMap ?_
  intro q q' n hq hq'
  rw [Option.mem_def] at hq hq'
  split_ifs at hq hq' with h1 h2
  rw [← List.dropLast_append_getLast? n hq, ← List.dropLast_append_getLast? n hq', h1.2, h2.2]

theorem length_lt_snapshotDepth {p : FilePath} (h : mapGet p m ≠ none) :
    p.length < snapshotDepth m := by
  obtain ⟨e, he, rfl⟩ := List.mem_map.mp (mem_keys_iff.mpr h)
  have hle : e.1.length ≤ (m.map (fun e => e.1.length)).foldr max 0 :=
    List.le_max_of_le' 0 (List.mem_map.mpr ⟨e, he, rfl⟩) le_rfl
  rw [snapshotDepth]
  omega

/-- `v` at paths relative to the workspace, from `root` on. -/
def belowRoot (w root : FilePath) (v : View String Bytes) (p : FilePath) : Option FileNode :=
  if root <+: p then v (w ++ p) else none

theorem belowRoot_below {w p : FilePath} (v : View String Bytes) (h : root <+: p) :
    belowRoot w root v p = v (w ++ p) := if_pos h

theorem lists_snapshotChildren {sha : Sha256 D H} {w : FilePath} {v : View String Bytes}
    (hm : WellKeyed m) (hv : ∀ p, mapGet p m = (belowRoot w root v p).map (entrySnapshot sha p)) :
    Lists (belowRoot w root v) isDirectory (snapshotChildren m root) root := by
  intro p b hp _ _
  refine ⟨snapshotChildren_nodup hm p, fun n => ?_⟩
  rw [mem_snapshotChildren hp.1, hv]
  simp

theorem orderSnapshotEntries_eq {sha : Sha256 D H} {w : FilePath} {v : View String Bytes}
    (hv : ∀ p, mapGet p m = (belowRoot w root v p).map (entrySnapshot sha p)) :
    orderSnapshotEntries m root = (traverse (belowRoot w root v) isDirectory
      (snapshotChildren m root) (snapshotDepth m) root).map (fun e => entrySnapshot sha e.1 e.2) := by
  have hkind : ∀ p node, decide ((entrySnapshot sha p node).kind = .directory) = isDirectory node := by
    intro p node
    cases node <;> simp [entrySnapshot, isDirectory]
  have hget : (fun p => mapGet p m) =
      fun p => (belowRoot w root v p).map (entrySnapshot sha p) := funext hv
  rw [orderSnapshotEntries, hget, traverse_map _ hkind, List.map_map]
  rfl

theorem reaches_visible {w p : FilePath} {v : View String Bytes} {node : FileNode} :
    (Reaches (belowRoot w root v) isDirectory root p ∧ belowRoot w root v p = some node) ↔
      w ++ root <+: w ++ p ∧ visible v (w ++ root) (w ++ p) = some node := by
  rw [List.prefix_append_right_inj, visible_eq_some]
  constructor
  · rintro ⟨hr, hp⟩
    rw [belowRoot_below v hr.1] at hp
    refine ⟨hr.1, fun x hx hxp hne => ?_, hp⟩
    obtain ⟨t, rfl⟩ := (List.prefix_append w root).trans hx
    rw [List.prefix_append_right_inj] at hx hxp
    obtain ⟨b, hb, hdir⟩ := hr.2 t hx hxp (fun h => hne (by rw [h]))
    rwa [isDirectory_iff.mp hdir, belowRoot_below v hx] at hb
  · rintro ⟨hp, hd, hv⟩
    refine ⟨⟨hp, fun x hx hxp hne => ⟨.directory, ?_, isDirectory_iff.mpr rfl⟩⟩, ?_⟩
    · rw [belowRoot_below v hx]
      exact hd (w ++ x) ((List.prefix_append_right_inj w).mpr hx)
        ((List.prefix_append_right_inj w).mpr hxp) (by simpa using hne)
    · rw [belowRoot_below v hp, hv]

/-- The ordered entries of an entry map are a snapshot of what is visible of
it. -/
theorem orderSnapshotEntries_records {sha : Sha256 D H} {w : FilePath} {v : View String Bytes}
    (hm : WellKeyed m) (hv : ∀ p, mapGet p m = (belowRoot w root v p).map (entrySnapshot sha p)) :
    Records sha w ⟨root, sha.ofEntries (orderSnapshotEntries m root), orderSnapshotEntries m root⟩
      (visible v (w ++ root)) := by
  have hlists := lists_snapshotChildren hm hv
  refine ⟨(traverse (belowRoot w root v) isDirectory (snapshotChildren m root) (snapshotDepth m)
    root).map (fun e => (w ++ e.1, e.2)), ?_, ?_, ?_, rfl⟩
  · have hs := traverse_sorted (snapshotDepth m) hlists
    rw [List.pairwise_map] at hs
    rw [List.map_map, List.pairwise_map]
    exact hs.imp (fun h => List.append_left_lt h)
  · intro q node
    rw [List.mem_map]
    constructor
    · rintro ⟨⟨p, n⟩, hp, he⟩
      simp only [Prod.mk.injEq] at he
      obtain ⟨rfl, rfl⟩ := he
      obtain ⟨hr, hp, -⟩ := (mem_traverse hlists).mp hp
      exact reaches_visible.mp ⟨hr, hp⟩
    · rintro ⟨⟨t, rfl⟩, hq⟩
      rw [List.append_assoc] at hq ⊢
      obtain ⟨hr, hp⟩ := reaches_visible.mpr
        ⟨(List.prefix_append_right_inj w).mpr (List.prefix_append root t), hq⟩
      refine ⟨(root ++ t, node), (mem_traverse hlists).mpr ⟨hr, hp, ?_⟩, rfl⟩
      have hlt := length_lt_snapshotDepth (m := m) (p := root ++ t) (by rw [hv, hp]; simp)
      omega
  · rw [orderSnapshotEntries_eq hv, List.map_map]
    simp [Function.comp_def]

end Order

end Kross.Mutation

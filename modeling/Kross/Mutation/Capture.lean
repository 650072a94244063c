import Kross.Mutation.Snapshot

namespace Kross.Mutation

open Kross.FileTree

theorem lstat_direct {v : View String Bytes} (hv : IsTree v) {p : FilePath} (hd : Direct v p) :
    lstat v p = v p := by
  rcases locate_direct hv hd with ⟨-, h⟩ | ⟨hn, h | h⟩ <;> rw [lstat, h]
  · exact hn.symm
  · exact hn.symm

theorem isDirectory_iff {node : FileNode} : isDirectory node = true ↔ node = .directory := by
  simp [isDirectory]

/-- What a walk from a direct path reaches is direct again. -/
theorem direct_of_reaches {v : View String Bytes} (hv : IsTree v) {root p : FilePath}
    (hd : Direct v root) (h : Reaches (lstat v) isDirectory root p) : Direct v p := by
  obtain ⟨⟨t, rfl⟩, hr⟩ := h
  induction t using List.reverseRecOn with
  | nil => simpa using hd
  | append_singleton t n ih =>
      rw [← List.append_assoc] at hr ⊢
      have hp := ih (fun q hq hqt hne => hr q hq (hqt.trans (List.prefix_append _ _)) (by
        rintro rfl
        have hle := hqt.length_le
        simp only [List.length_append, List.length_singleton] at hle
        omega))
      obtain ⟨b, hb, hdir⟩ := hr (root ++ t) (List.prefix_append _ _) (List.prefix_append _ _) (by simp)
      rw [lstat_direct hv hp, isDirectory_iff.mp hdir] at hb
      exact hp.concat hb n

theorem reaches_of_some {v : View String Bytes} (hv : IsTree v) {root p : FilePath}
    (hp : root <+: p) (hn : v p ≠ none) : Reaches (lstat v) isDirectory root p :=
  ⟨hp, fun _ _ hqp hne =>
    ⟨.directory, lstat_of_some hv (hv.of_prefix hqp hne hn), isDirectory_iff.mpr rfl⟩⟩

theorem lists_readdirSync (d : Files) {root : FilePath} (hd : Direct d.view root) :
    Lists (lstat d.view) isDirectory d.readdirSync root := by
  intro p b hr hb hdir
  have hp := direct_of_reaches d.isTree hd hr
  rw [lstat_direct d.isTree hp, isDirectory_iff.mp hdir] at hb
  have hc : d.readdirSync p = d.childrenAt p := by
    rw [Disk.readdirSync, resolve_of_some d.isTree hb (by simp)]
  rw [hc]
  refine ⟨d.childrenAt_nodup p, fun n => ?_⟩
  rw [Disk.mem_childrenAt, lstat_direct d.isTree (hp.concat hb n)]

theorem mem_captureEntry {d : Files} {root q : FilePath} {node : FileNode}
    (hd : Direct d.view root) :
    (q, node) ∈ captureEntry d root ↔ root <+: q ∧ d.view q = some node := by
  rw [captureEntry, mem_traverse (lists_readdirSync d hd)]
  constructor
  · rintro ⟨hr, hq, -⟩
    rw [lstat_direct d.isTree (direct_of_reaches d.isTree hd hr)] at hq
    exact ⟨hr.1, hq⟩
  · rintro ⟨hp, hq⟩
    refine ⟨reaches_of_some d.isTree hp (by simp [hq]), lstat_of_some d.isTree hq, ?_⟩
    rcases eq_or_ne q [] with rfl | hne
    · simp [Disk.height]
    · by_contra hle
      rw [Disk.view_of_height_le hne (by omega)] at hq
      simp at hq

/-- A path whose snapshot shows what stands there: its parents are no files or
links, and if it is itself a link then one that leads somewhere. -/
structure Clear (v : View String Bytes) (p : FilePath) : Prop where
  direct : Direct v p
  leads : ∀ t, v p = some (.link t) → existsSync v p = true

def leadsSomewhere (v : View String Bytes) (p : FilePath) : Bool :=
  match v p with
  | some (.link _) => existsSync v p
  | _ => true

instance (v : View String Bytes) (p : FilePath) : Decidable (Clear v p) :=
  decidable_of_iff (Direct v p ∧ leadsSomewhere v p) (by
    constructor
    · rintro ⟨hd, hl⟩
      refine ⟨hd, fun t ht => ?_⟩
      simpa only [leadsSomewhere, ht] using hl
    · rintro ⟨hd, hl⟩
      refine ⟨hd, ?_⟩
      rw [leadsSomewhere]
      split
      · next t ht => exact hl t ht
      · rfl)

theorem mem_captured {d : Files} {w p q : FilePath} {node : FileNode} (hc : Clear d.view (w ++ p)) :
    (q, node) ∈ captured w d p ↔ w ++ p <+: q ∧ d.view q = some node := by
  rw [captured]
  cases hp : d.view (w ++ p) with
  | none =>
      rw [existsSync_of_none d.isTree hc.direct hp]
      simp only [Bool.false_eq_true, if_false, List.not_mem_nil, false_iff, not_and]
      intro hq hn
      rw [d.isTree.none_of_prefix hq hp] at hn
      simp at hn
  | some m =>
      have he : existsSync d.view (w ++ p) = true := by
        cases m with
        | link t => exact hc.leads t hp
        | file c | directory => exact existsSync_of_some d.isTree hp (by simp)
      rw [if_pos he, mem_captureEntry hc.direct]

theorem captured_sorted {d : Files} {w p : FilePath} (hd : Direct d.view (w ++ p)) :
    ((captured w d p).map Prod.fst).Pairwise (· < ·) := by
  rw [captured]
  split_ifs
  · exact traverse_sorted _ (lists_readdirSync d hd)
  · simp

variable {D H : Type}

/-- The snapshot of a root lists, in order, what `v` holds from it on. -/
def Records (sha : Sha256 D H) (w : FilePath) (root : MutationRootSnapshot D H)
    (v : View String Bytes) : Prop :=
  ∃ listing : List (FilePath × FileNode),
    (listing.map Prod.fst).Pairwise (· < ·) ∧
    (∀ q node, (q, node) ∈ listing ↔ w ++ root.path <+: q ∧ v q = some node) ∧
    root.entries = listing.map (fun e => entrySnapshot sha (e.1.drop w.length) e.2) ∧
    root.hash = sha.ofEntries root.entries

theorem captureRoot_records (sha : Sha256 D H) {w p : FilePath} {d : Files}
    (hc : Clear d.view (w ++ p)) : Records sha w (captureRoot sha w d p) d.view :=
  ⟨captured w d p, captured_sorted hc.direct, fun _ _ => mem_captured hc, rfl, rfl⟩

theorem entrySnapshot_injective (sha : Sha256 D H) {p q : FilePath} {m n : FileNode}
    (h : entrySnapshot sha p m = entrySnapshot sha q n) : p = q ∧ m = n := by
  cases m <;> cases n <;> simp [entrySnapshot] at h ⊢
  · exact ⟨h.1, sha.bytes_injective h.2⟩
  · exact h
  · exact ⟨h.1, h.2.2⟩

theorem listing_injective (sha : Sha256 D H) (w : FilePath) {l m : List (FilePath × FileNode)}
    (hl : ∀ e ∈ l, w <+: e.1) (hm : ∀ e ∈ m, w <+: e.1)
    (h : l.map (fun e => entrySnapshot sha (e.1.drop w.length) e.2) =
      m.map (fun e => entrySnapshot sha (e.1.drop w.length) e.2)) : l = m := by
  induction l generalizing m with
  | nil => simpa using h.symm
  | cons e l ih =>
      cases m with
      | nil => simp at h
      | cons f m =>
          rw [List.map_cons, List.map_cons, List.cons.injEq] at h
          obtain ⟨hp, hn⟩ := entrySnapshot_injective sha h.1
          obtain ⟨s, hs⟩ := hl e List.mem_cons_self
          obtain ⟨t, ht⟩ := hm f List.mem_cons_self
          have hef : e = f := by
            rw [← hs, ← ht, List.drop_left, List.drop_left] at hp
            exact Prod.ext (by rw [← hs, ← ht, hp]) hn
          rw [hef, ih (fun e he => hl e (List.mem_cons_of_mem _ he))
            (fun e he => hm e (List.mem_cons_of_mem _ he)) h.2]

/-- Two snapshots of one path have the same hash exactly if they show the same
tree. -/
theorem hash_eq_iff {sha : Sha256 D H} {w : FilePath} {r s : MutationRootSnapshot D H}
    {u v : View String Bytes} (hr : Records sha w r u) (hs : Records sha w s v)
    (hp : r.path = s.path) : r.hash = s.hash ↔ ∀ q, w ++ r.path <+: q → u q = v q := by
  obtain ⟨l, hl, hlm, hle, hlh⟩ := hr
  obtain ⟨m, hm, hmm, hme, hmh⟩ := hs
  rw [← hp] at hmm
  rw [hlh, hmh]
  constructor
  · intro h q hq
    have hw : ∀ k : List (FilePath × FileNode), ∀ x : View String Bytes,
        (∀ q node, (q, node) ∈ k ↔ w ++ r.path <+: q ∧ x q = some node) → ∀ e ∈ k, w <+: e.1 :=
      fun k x hk e he => (List.prefix_append _ _).trans ((hk e.1 e.2).mp he).1
    have he := sha.entries_injective h
    rw [hle, hme] at he
    have hlm' := listing_injective sha w (hw l u hlm) (hw m v hmm) he
    rw [Option.ext_iff]
    intro node
    have hiff : u q = some node ↔ v q = some node := by
      rw [← and_iff_right (b := u q = some node) hq, ← hlm, hlm', hmm, and_iff_right hq]
    exact hiff
  · intro h
    have hlm' : l = m := by
      refine eq_of_sorted hl hm (fun e => ?_)
      rw [hlm, hmm]
      exact and_congr_right (fun hq => by rw [h e.1 hq])
    rw [hle, hme, hlm']

theorem Records.congr {sha : Sha256 D H} {w : FilePath} {r : MutationRootSnapshot D H}
    {u v : View String Bytes} (hr : Records sha w r u)
    (h : ∀ q, w ++ r.path <+: q → u q = v q) : Records sha w r v := by
  obtain ⟨l, hl, hlm, hle, hlh⟩ := hr
  refine ⟨l, hl, fun q node => ?_, hle, hlh⟩
  rw [hlm]
  exact and_congr_right (fun hq => by rw [h q hq])

end Kross.Mutation

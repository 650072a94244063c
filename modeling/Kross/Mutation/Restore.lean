import Kross.Mutation.Capture

namespace Kross.Mutation

open Kross.FileTree Kross.Prog

variable {D H : Type}

theorem runs_onDisk {f : Files → Except Disk.FsError Files} {s : MutationState D H} {d : Files}
    (h : f s.disk = .ok d) : Runs (onDisk f) s ⟨⟩ { s with disk := d } := by
  rw [Runs, onDisk, exec_bind, exec_get]
  simp [h]

theorem free_of_view {u v : View String Bytes} {p : FilePath}
    (h : ∀ q, v q = u q ∨ v q = some .directory) (hu : Disk.Free u p) : Disk.Free v p := by
  intro q hq
  rcases h q with he | he
  · rw [he]
    exact hu q hq
  · exact Or.inl he

/-- The directories of a snapshot, made one after the other. -/
theorem runs_mkdirs (w : FilePath) (entries : List (MutationEntrySnapshot D)) {s : MutationState D H}
    (h : ∀ e ∈ entries, Disk.Free s.disk.view (w ++ e.path)) :
    ∃ d, Runs (entries.forM (fun e => onDisk (·.mkdirSync (w ++ e.path)))) s ⟨⟩ { s with disk := d } ∧
      ∀ q, d.view q = if ∃ e ∈ entries, q <+: w ++ e.path then some .directory else s.disk.view q := by
  induction entries generalizing s with
  | nil => exact ⟨s.disk, runs_forM_nil _ _, by simp⟩
  | cons e entries ih =>
      obtain ⟨d, hd, hv⟩ := Disk.mkdirSync_free (h e List.mem_cons_self)
      obtain ⟨d', hd', hv'⟩ := ih (s := { s with disk := d }) (fun f hf => by
        refine free_of_view (fun q => ?_) (h f (List.mem_cons_of_mem _ hf))
        rw [hv]
        split_ifs
        · exact Or.inr rfl
        · exact Or.inl rfl)
      refine ⟨d', runs_forM_cons (runs_onDisk hd) hd', fun q => ?_⟩
      rw [hv']
      simp only [List.mem_cons, exists_eq_or_imp, hv]
      by_cases h1 : q <+: w ++ e.path <;> simp [h1]

variable [DecidableEq D]

/-- The blobs hold the bytes of the entry, if it is a file. -/
def Stored (sha : Sha256 D H) (blobs : List (D × Bytes)) (node : FileNode) : Prop :=
  ∀ c, node = .file c → blobs.lookup (sha.ofBytes c) = some c

theorem runs_restoreEntry {sha : Sha256 D H} {w p : FilePath} {n : String} {node : FileNode}
    {s : MutationState D H} (hp : w ++ p = (w ++ p).dropLast ++ [n]) (hd : node ≠ .directory)
    (hb : Stored sha s.blobs node) (hf : Disk.Free s.disk.view (w ++ p).dropLast)
    (hn : s.disk.view (w ++ p) = none) :
    ∃ d, Runs (restoreEntry w (entrySnapshot sha p node)) s ⟨⟩ { s with disk := d } ∧
      ∀ q, d.view q = if q = w ++ p then some node
        else if q <+: (w ++ p).dropLast then some .directory else s.disk.view q := by
  obtain ⟨d, hm, hv⟩ := Disk.mkdirSync_free hf
  have hdir : d.view (w ++ p).dropLast = some .directory := by simp [hv]
  have hnp : ¬ w ++ p <+: (w ++ p).dropLast := fun h => by
    have hle := h.length_le
    rw [hp] at hle
    simp only [List.length_append, List.length_singleton, List.dropLast_concat] at hle
    omega
  have hnone : d.view (w ++ p) = none := by rw [hv, if_neg hnp, hn]
  rw [hp] at hnone
  have hfinal : ∀ d' : Files, (∀ q, d'.view q = if q = (w ++ p).dropLast ++ [n] then some node
      else d.view q) → ∀ q, d'.view q = if q = w ++ p then some node
        else if q <+: (w ++ p).dropLast then some .directory else s.disk.view q := by
    intro d' hd' q
    rw [hd', ← hp, hv]
  cases node with
  | directory => exact absurd rfl hd
  | file c =>
      obtain ⟨d', hw, hv'⟩ := Disk.writeFileSync_at c hdir (Or.inl hnone)
      rw [← hp] at hw
      have hr : Runs (readBlob (H := H) (sha.ofBytes c)) { s with disk := d } c { s with disk := d } := by
        rw [Runs, readBlob, exec_bind, exec_get]
        simp [hb c rfl]
      have h1 : Runs (onDisk (·.mkdirSync (w ++ p).dropLast)) s ⟨⟩ { s with disk := d } := runs_onDisk hm
      have h2 : Runs (onDisk (·.writeFileSync (w ++ p) c)) { s with disk := d } ⟨⟩
          { s with disk := d' } := runs_onDisk hw
      exact ⟨d', h1.bind (hr.bind h2), hfinal d' hv'⟩
  | link t =>
      obtain ⟨d', hw, hv'⟩ := Disk.symlinkSync_at t hdir hnone
      rw [← hp] at hw
      have h1 : Runs (onDisk (·.mkdirSync (w ++ p).dropLast)) s ⟨⟩ { s with disk := d } := runs_onDisk hm
      have h2 : Runs (onDisk (·.symlinkSync t (w ++ p))) { s with disk := d } ⟨⟩
          { s with disk := d' } := runs_onDisk hw
      exact ⟨d', h1.bind h2, hfinal d' hv'⟩

theorem prefix_dropLast_iff {p q : FilePath} (hp : p ≠ []) : q <+: p.dropLast ↔ q <+: p ∧ q ≠ p := by
  obtain ⟨r, n, rfl⟩ : ∃ r n, p = r ++ [n] :=
    ⟨p.dropLast, p.getLast hp, (List.dropLast_append_getLast hp).symm⟩
  rw [List.dropLast_concat, List.prefix_concat_iff]
  constructor
  · intro h
    refine ⟨Or.inr h, ?_⟩
    rintro rfl
    have hle := h.length_le
    simp only [List.length_append, List.length_singleton] at hle
    omega
  · rintro ⟨h, hne⟩
    exact h.resolve_left hne

def Apart (a b : FilePath × FileNode) : Prop := ¬ a.1 <+: b.1 ∧ ¬ b.1 <+: a.1

/-- The files and links of a snapshot, written one after the other. -/
theorem runs_restoreEntries (sha : Sha256 D H) (w : FilePath) (l : List (FilePath × FileNode))
    {s : MutationState D H} (hw : ∀ e ∈ l, w <+: e.1 ∧ e.1 ≠ [] ∧ e.2 ≠ .directory)
    (hb : ∀ e ∈ l, Stored sha s.blobs e.2) (hf : ∀ e ∈ l, Disk.Free s.disk.view e.1.dropLast)
    (hn : ∀ e ∈ l, s.disk.view e.1 = none) (hp : l.Pairwise Apart) :
    ∃ d, Runs ((l.map (fun e => entrySnapshot sha (e.1.drop w.length) e.2)).forM (restoreEntry w))
        s ⟨⟩ { s with disk := d } ∧
      ∀ q, (∀ node, (q, node) ∈ l → d.view q = some node) ∧
        ((∀ node, (q, node) ∉ l) →
          d.view q = if ∃ e ∈ l, q <+: e.1 then some .directory else s.disk.view q) := by
  induction l generalizing s with
  | nil => exact ⟨s.disk, runs_forM_nil _ _, by simp⟩
  | cons e l ih =>
      obtain ⟨p, node⟩ := e
      obtain ⟨⟨t, rfl⟩, hne, hdir⟩ := hw _ List.mem_cons_self
      rw [List.pairwise_cons] at hp
      have hlast : w ++ t = (w ++ t).dropLast ++ [(w ++ t).getLast hne] :=
        (List.dropLast_append_getLast hne).symm
      obtain ⟨d, hr, hv⟩ := runs_restoreEntry hlast hdir (hb _ List.mem_cons_self)
        (hf _ List.mem_cons_self) (hn _ List.mem_cons_self)
      have hother : ∀ f ∈ l, ¬ w ++ t <+: f.1 ∧ ¬ f.1 <+: w ++ t := hp.1
      obtain ⟨d', hr', hv'⟩ := ih (s := { s with disk := d })
        (fun f hf => hw f (List.mem_cons_of_mem _ hf)) (fun f hf => hb f (List.mem_cons_of_mem _ hf))
        (fun f hfl q hq => by
          have hqt : q ≠ w ++ t := by
            rintro rfl
            exact (hother f hfl).1 (hq.trans (List.dropLast_prefix _))
          rw [hv, if_neg hqt]
          split_ifs
          · exact Or.inl rfl
          · exact hf f (List.mem_cons_of_mem _ hfl) q hq)
        (fun f hfl => by
          have hft : f.1 ≠ w ++ t := fun h => (hother f hfl).2 (h ▸ List.prefix_rfl)
          have hfd : ¬ f.1 <+: (w ++ t).dropLast := fun h =>
            (hother f hfl).2 (h.trans (List.dropLast_prefix _))
          rw [hv, if_neg hft, if_neg hfd]
          exact hn f (List.mem_cons_of_mem _ hfl))
        hp.2
      refine ⟨d', ?_, fun q => ⟨fun m hm => ?_, fun hq => ?_⟩⟩
      · rw [List.map_cons]
        refine runs_forM_cons ?_ hr'
        simpa using hr
      · rcases List.mem_cons.mp hm with hm | hm
        · cases hm
          have hnl : ∀ node, (w ++ t, node) ∉ l := fun node h => (hother _ h).1 List.prefix_rfl
          have hnp : ¬ ∃ e ∈ l, w ++ t <+: e.1 := by
            rintro ⟨e, he, h⟩
            exact (hother e he).1 h
          rw [(hv' _).2 hnl, if_neg hnp, hv, if_pos rfl]
        · exact (hv' q).1 m hm
      · have hqt : q ≠ w ++ t := by
          rintro rfl
          exact hq node List.mem_cons_self
        rw [(hv' q).2 (fun m hm => hq m (List.mem_cons_of_mem _ hm))]
        simp only [List.mem_cons, exists_eq_or_imp, hv, if_neg hqt, prefix_dropLast_iff hne]
        by_cases h1 : q <+: w ++ t
        · simp only [h1, hqt, ne_eq, not_false_eq_true, and_self, true_or, if_true, ite_self]
        · simp only [h1, false_and, false_or, if_false]

omit [DecidableEq D] in
theorem kind_entrySnapshot (sha : Sha256 D H) (p : FilePath) (node : FileNode) :
    (entrySnapshot sha p node).kind = .directory ↔ node = .directory := by
  cases node <;> simp [entrySnapshot]

omit [DecidableEq D] in
theorem filter_entries (sha : Sha256 D H) (w : FilePath) (l : List (FilePath × FileNode)) :
    (l.map (fun e => entrySnapshot sha (e.1.drop w.length) e.2)).filter (·.kind = .directory) =
        (l.filter (·.2 = .directory)).map (fun e => entrySnapshot sha (e.1.drop w.length) e.2) ∧
      (l.map (fun e => entrySnapshot sha (e.1.drop w.length) e.2)).filter (·.kind ≠ .directory) =
        (l.filter (·.2 ≠ .directory)).map (fun e => entrySnapshot sha (e.1.drop w.length) e.2) := by
  rw [List.filter_map, List.filter_map]
  refine ⟨congrArg _ (List.filter_congr fun e _ => ?_), congrArg _ (List.filter_congr fun e _ => ?_)⟩
  · simp [kind_entrySnapshot]
  · simp [kind_entrySnapshot]

/-- `l` is what `v` holds from `p` on, in the order of a walk. -/
structure Listing (v : View String Bytes) (p : FilePath) (l : List (FilePath × FileNode)) :
    Prop where
  sorted : (l.map Prod.fst).Pairwise (· < ·)
  mem : ∀ q node, (q, node) ∈ l ↔ p <+: q ∧ v q = some node

section Listing

variable {v : View String Bytes} {p w : FilePath} {l : List (FilePath × FileNode)}

theorem parent_directory (hv : IsTree v) {q r : FilePath} {node : FileNode} (hq : v q = some node)
    (hr : r <+: q) (hne : r ≠ q) : v r = some .directory := hv.of_prefix hr hne (by simp [hq])

/-- The directories from `p` on are the paths above a directory there. -/
theorem exists_directory_iff (hv : IsTree v) {q : FilePath} (hq : p <+: q) :
    (∃ x, p <+: x ∧ v x = some .directory ∧ q <+: x) ↔ v q = some .directory := by
  constructor
  · rintro ⟨x, -, hx, hqx⟩
    by_cases he : q = x
    · rw [he, hx]
    · exact parent_directory hv hx hqx he
  · exact fun h => ⟨q, hq, h, List.prefix_rfl⟩

theorem above_or_below {q r : FilePath} (hp : p <+: q) (hr : r <+: q) :
    p <+: r ∨ (r <+: p ∧ r ≠ p) := by
  rcases List.prefix_or_prefix_of_prefix hr hp with h | h
  · by_cases he : r = p
    · exact Or.inl (he ▸ List.prefix_rfl)
    · exact Or.inr ⟨h, he⟩
  · exact Or.inl h

theorem Listing.mem_files (hl : Listing v p l) {q : FilePath} {node : FileNode} :
    (q, node) ∈ l.filter (·.2 ≠ .directory) ↔
      p <+: q ∧ v q = some node ∧ node ≠ .directory := by
  rw [List.mem_filter, hl.mem]
  simp [and_assoc]

theorem Listing.files_apart (hl : Listing v p l) (hv : IsTree v) :
    (l.filter (·.2 ≠ .directory)).Pairwise Apart := by
  have hs := hl.sorted
  rw [List.pairwise_map] at hs
  refine (hs.sublist List.filter_sublist).imp_of_mem (fun {a b} ha hb hlt => ?_)
  obtain ⟨-, hva, hda⟩ := hl.mem_files.mp ha
  obtain ⟨-, hvb, hdb⟩ := hl.mem_files.mp hb
  constructor
  · intro h
    have hp := parent_directory hv hvb h (ne_of_lt hlt)
    exact hda (Option.some.inj (hva.symm.trans hp))
  · intro h
    have hp := parent_directory hv hva h (ne_of_gt hlt)
    exact hdb (Option.some.inj (hvb.symm.trans hp))

omit [DecidableEq D] in
theorem path_entrySnapshot (sha : Sha256 D H) {e : FilePath × FileNode} (hw : w <+: e.1) :
    w ++ (entrySnapshot sha (e.1.drop w.length) e.2).path = e.1 := by
  obtain ⟨t, ht⟩ := hw
  rw [← ht]
  cases e.2 <;> simp [entrySnapshot]

omit [DecidableEq D] in
theorem runs_directories (sha : Sha256 D H) (hl : Listing v p l) (hw : w <+: p)
    {s : MutationState D H}
    (hf : ∀ q, p <+: q → v q = some .directory → Disk.Free s.disk.view q) :
    ∃ d, Runs (((l.filter (·.2 = .directory)).map
          (fun e => entrySnapshot sha (e.1.drop w.length) e.2)).forM
          (fun e => onDisk (·.mkdirSync (w ++ e.path)))) s ⟨⟩ { s with disk := d } ∧
      ∀ q, ((∃ x, p <+: x ∧ v x = some .directory ∧ q <+: x) → d.view q = some .directory) ∧
        ((¬ ∃ x, p <+: x ∧ v x = some .directory ∧ q <+: x) → d.view q = s.disk.view q) := by
  have hmem : ∀ e ∈ l.filter (·.2 = .directory),
      p <+: e.1 ∧ v e.1 = some .directory ∧
        w ++ (entrySnapshot sha (e.1.drop w.length) e.2).path = e.1 := by
    intro e he
    obtain ⟨hel, hed⟩ := List.mem_filter.mp he
    obtain ⟨hp, hve⟩ := (hl.mem e.1 e.2).mp hel
    exact ⟨hp, by rw [hve, of_decide_eq_true hed], path_entrySnapshot sha (hw.trans hp)⟩
  obtain ⟨d, hd, hv⟩ := runs_mkdirs (s := s) w ((l.filter (·.2 = .directory)).map
      (fun e => entrySnapshot sha (e.1.drop w.length) e.2)) (by
    intro e he
    obtain ⟨f, hfl, rfl⟩ := List.mem_map.mp he
    obtain ⟨hp, hvf, hpath⟩ := hmem f hfl
    rw [hpath]
    exact hf f.1 hp hvf)
  have hiff : ∀ q, (∃ e ∈ (l.filter (·.2 = .directory)).map
      (fun e => entrySnapshot sha (e.1.drop w.length) e.2), q <+: w ++ e.path) ↔
      ∃ x, p <+: x ∧ v x = some .directory ∧ q <+: x := by
    intro q
    constructor
    · rintro ⟨e, he, hq⟩
      obtain ⟨f, hfl, rfl⟩ := List.mem_map.mp he
      obtain ⟨hp, hvf, hpath⟩ := hmem f hfl
      exact ⟨f.1, hp, hvf, hpath ▸ hq⟩
    · rintro ⟨x, hx, hxd, hq⟩
      have hm : (x, Node.directory) ∈ l.filter (·.2 = .directory) :=
        List.mem_filter.mpr ⟨(hl.mem x .directory).mpr ⟨hx, hxd⟩, by simp⟩
      refine ⟨_, List.mem_map_of_mem hm, ?_⟩
      rw [(hmem _ hm).2.2]
      exact hq
  refine ⟨d, hd, fun q => ⟨fun h => ?_, fun h => ?_⟩⟩
  · rw [hv, if_pos ((hiff q).mpr h)]
  · rw [hv, if_neg (fun hx => h ((hiff q).mp hx))]

end Listing

/-- A root can be restored from its snapshot of `v`: the snapshot lists `v` and
the blobs of its files are there. -/
structure Restorable (sha : Sha256 D H) (w : FilePath) (root : MutationRootSnapshot D H)
    (v : View String Bytes) (blobs : List (D × Bytes)) : Prop where
  tree : IsTree v
  records : Records sha w root v
  stored : ∀ q, w ++ root.path <+: q → ∀ node, v q = some node → Stored sha blobs node

/-- The root becomes what its snapshot shows, missing parents are made, and
nothing else changes. -/
theorem runs_restoreRoot {sha : Sha256 D H} {w : FilePath} {root : MutationRootSnapshot D H}
    {v : View String Bytes} {s : MutationState D H} (hr : Restorable sha w root v s.blobs)
    (hd : Direct s.disk.view (w ++ root.path)) :
    ∃ d, Runs (restoreRoot w root) s ⟨⟩ { s with disk := d } ∧
      ∀ q, (w ++ root.path <+: q → d.view q = v q) ∧
        (¬ w ++ root.path <+: q → q <+: w ++ root.path → v (w ++ root.path) ≠ none →
          d.view q = some .directory) ∧
        (¬ w ++ root.path <+: q → (q <+: w ++ root.path → v (w ++ root.path) = none) →
          d.view q = s.disk.view q) := by
  obtain ⟨hv, ⟨l, hls, hlm, hle, -⟩, hstored⟩ := hr
  have hl : Listing v (w ++ root.path) l := ⟨hls, hlm⟩
  obtain ⟨hdirs, hfiles⟩ := filter_entries sha w l
  rw [← hle] at hdirs hfiles
  obtain ⟨d₁, hrm, hv₁⟩ := Disk.rmSync_direct hd
  have hbelow : ∀ q, w ++ root.path <+: q →
      (d₁.view q = some .directory ∧ v q = some .directory) ∨ d₁.view q = none := by
    intro q hq
    rcases eq_or_ne q [] with rfl | hne
    · exact Or.inl ⟨d₁.view_nil, hv.root⟩
    · exact Or.inr (by simp [hv₁, hq, hne])
  have habove : ∀ q, ¬ w ++ root.path <+: q → d₁.view q = s.disk.view q :=
    fun q hq => by rw [hv₁, if_neg (fun h => hq h.1)]
  have hfree : ∀ x, w ++ root.path <+: x → Disk.Free d₁.view x := by
    intro x hx q hq
    rcases above_or_below hx hq with hp | ⟨hp, hne⟩
    · exact (hbelow q hp).imp_left And.left
    · rw [habove q (fun h => hne (hp.eq_of_length_le h.length_le))]
      exact hd q hp hne
  obtain ⟨d₂, hmk, hv₂⟩ := runs_directories (s := { s with disk := d₁ }) sha hl
    (List.prefix_append w root.path) (fun q hq _ => hfree q hq)
  rw [← hdirs] at hmk
  obtain ⟨d₃, hwr, hv₃⟩ := runs_restoreEntries sha w (l.filter (·.2 ≠ .directory))
    (s := { s with disk := d₂ })
    (fun e he => by
      obtain ⟨hp, hve, hed⟩ := hl.mem_files.mp he
      refine ⟨(List.prefix_append _ _).trans hp, fun hnil => ?_, hed⟩
      rw [hnil, hv.root] at hve
      exact hed (Option.some.inj hve).symm)
    (fun e he => hstored e.1 (hl.mem_files.mp he).1 e.2 (hl.mem_files.mp he).2.1)
    (fun e he q hq => by
      obtain ⟨hp, -, -⟩ := hl.mem_files.mp he
      by_cases hx : ∃ x, w ++ root.path <+: x ∧ v x = some .directory ∧ q <+: x
      · exact Or.inl ((hv₂ q).1 hx)
      · rw [(hv₂ q).2 hx]
        exact hfree e.1 hp q (hq.trans (List.dropLast_prefix _)))
    (fun e he => by
      obtain ⟨hp, hve, hed⟩ := hl.mem_files.mp he
      have hnd : v e.1 ≠ some .directory := fun h => hed (Option.some.inj (hve.symm.trans h))
      rw [(hv₂ e.1).2 (fun h => hnd ((exists_directory_iff hv hp).mp h))]
      exact (hbelow e.1 hp).resolve_left (fun h => hnd h.2))
    (hl.files_apart hv)
  rw [← hfiles] at hwr
  have h1 : Runs (onDisk (·.rmSync (w ++ root.path))) s ⟨⟩ { s with disk := d₁ } := runs_onDisk hrm
  refine ⟨d₃, h1.bind (hmk.bind hwr), fun q => ⟨fun hq => ?_, fun hq hqp hpn => ?_, fun hq hqp => ?_⟩⟩
  · cases hvq : v q with
    | none =>
        have hno : ∀ x, v x ≠ none → ¬ q <+: x :=
          fun x hx hqx => hx (hv.none_of_prefix hqx hvq)
        rw [(hv₃ q).2 (fun m hm => by
          rw [(hl.mem_files.mp hm).2.1] at hvq
          cases hvq), if_neg, (hv₂ q).2]
        · exact (hbelow q hq).resolve_left (fun h => by simp [hvq] at h)
        · rintro ⟨x, -, hx, hqx⟩
          exact hno x (by simp [hx]) hqx
        · rintro ⟨e, he, hqe⟩
          exact hno e.1 (by simp [(hl.mem_files.mp he).2.1]) hqe
    | some node =>
        by_cases hn : node = .directory
        · subst hn
          rw [(hv₃ q).2 (fun m hm => by
            obtain ⟨-, hm, hd⟩ := hl.mem_files.mp hm
            exact hd (Option.some.inj (hm.symm.trans hvq)))]
          split_ifs
          · rfl
          · exact (hv₂ q).1 ⟨q, hq, hvq, List.prefix_rfl⟩
        · exact (hv₃ q).1 node (hl.mem_files.mpr ⟨hq, hvq, hn⟩)
  · rw [(hv₃ q).2 (fun m hm => hq (hl.mem_files.mp hm).1)]
    obtain ⟨node, hn⟩ := Option.ne_none_iff_exists'.mp hpn
    split_ifs with hx
    · rfl
    · by_cases hd : node = .directory
      · exact (hv₂ q).1 ⟨_, List.prefix_rfl, hd ▸ hn, hqp⟩
      · exact absurd ⟨_, hl.mem_files.mpr ⟨List.prefix_rfl, hn, hd⟩, hqp⟩ hx
  · have hno : ∀ x, w ++ root.path <+: x → v x ≠ none → ¬ q <+: x := by
      intro x hx hvx hqx
      rcases above_or_below hx hqx with h | ⟨h, -⟩
      · exact hq h
      · exact hvx (hv.none_of_prefix hx (hqp h))
    rw [(hv₃ q).2 (fun m hm => hq (hl.mem_files.mp hm).1), if_neg, (hv₂ q).2]
    · exact habove q hq
    · rintro ⟨x, hx, hvx, hqx⟩
      exact hno x hx (by simp [hvx]) hqx
    · rintro ⟨e, he, hqe⟩
      exact hno e.1 (hl.mem_files.mp he).1 (by simp [(hl.mem_files.mp he).2.1]) hqe

def Covers (w : FilePath) (roots : List (MutationRootSnapshot D H)) (q : FilePath) : Prop :=
  ∃ r ∈ roots, w ++ r.path <+: q

/-- The roots of a transaction can be put back to `v` on the disk `u`: neither
of the two has a file or a link above a root. -/
structure Rewindable (sha : Sha256 D H) (w : FilePath) (roots : List (MutationRootSnapshot D H))
    (v u : View String Bytes) (blobs : List (D × Bytes)) : Prop where
  restorable : ∀ r ∈ roots, Restorable sha w r v blobs
  before : ∀ r ∈ roots, Direct v (w ++ r.path)
  now : ∀ r ∈ roots, Direct u (w ++ r.path)

/-- What `restoreRoots` may do outside the roots: make a missing parent of a
root that it brings back. -/
def ParentMade (w : FilePath) (roots : List (MutationRootSnapshot D H)) (v u : View String Bytes)
    (q : FilePath) : Prop :=
  u q = none ∧ ∃ r ∈ roots, q <+: w ++ r.path ∧ v (w ++ r.path) ≠ none

/-- The roots in `done` already show `v`; after the rest all of them do. -/
theorem runs_restoreRoots_from {sha : Sha256 D H} {w : FilePath} {v : View String Bytes}
    (done roots : List (MutationRootSnapshot D H)) {s : MutationState D H}
    (h : Rewindable sha w roots v s.disk.view s.blobs)
    (hdone : ∀ q, Covers w done q → s.disk.view q = v q) :
    ∃ d, Runs (restoreRoots w roots) s ⟨⟩ { s with disk := d } ∧
      ∀ q, (Covers w done q ∨ Covers w roots q → d.view q = v q) ∧
        (¬ Covers w done q → ¬ Covers w roots q → d.view q = s.disk.view q ∨
          (d.view q = some .directory ∧ ParentMade w roots v s.disk.view q)) := by
  induction roots generalizing s done with
  | nil =>
      refine ⟨s.disk, runs_forM_nil _ _, fun q => ⟨?_, fun _ _ => Or.inl rfl⟩⟩
      rintro (hq | ⟨r, hr, -⟩)
      · exact hdone q hq
      · simp at hr
  | cons r roots ih =>
      have hv := (h.restorable r List.mem_cons_self).tree
      have hbr := h.before r List.mem_cons_self
      have hnr := h.now r List.mem_cons_self
      obtain ⟨d, hrun, hd⟩ := runs_restoreRoot (h.restorable r List.mem_cons_self) hnr
      have hkeep : ∀ q, ¬ w ++ r.path <+: q → d.view q = s.disk.view q ∨
          (d.view q = some .directory ∧ q <+: w ++ r.path ∧ v (w ++ r.path) ≠ none) := by
        intro q hq
        by_cases hqr : q <+: w ++ r.path ∧ v (w ++ r.path) ≠ none
        · exact Or.inr ⟨(hd q).2.1 hq hqr.1 hqr.2, hqr⟩
        · exact Or.inl ((hd q).2.2 hq (fun hq => by simpa using fun hn => hqr ⟨hq, hn⟩))
      have hdone' : ∀ q, Covers w (done ++ [r]) q → d.view q = v q := by
        rintro q ⟨r', hr', hq⟩
        by_cases hqr : w ++ r.path <+: q
        · exact (hd q).1 hqr
        · have hr' : r' ∈ done := by
            rcases List.mem_append.mp hr' with hr' | hr'
            · exact hr'
            · exact absurd (List.mem_singleton.mp hr' ▸ hq) hqr
          rcases hkeep q hqr with hk | ⟨hk, hqp, hn⟩
          · rw [hk, hdone q ⟨r', hr', hq⟩]
          · rw [hk, hv.of_prefix hqp (fun he => hqr (he ▸ List.prefix_rfl)) hn]
      obtain ⟨d', hrun', hd'⟩ := ih (done ++ [r]) (s := { s with disk := d })
        ⟨fun r' hr' => h.restorable r' (List.mem_cons_of_mem _ hr'),
          fun r' hr' => h.before r' (List.mem_cons_of_mem _ hr'), fun r' hr' q hq hne => by
          by_cases hqr : w ++ r.path <+: q
          · rw [(hd q).1 hqr]
            exact h.before r' (List.mem_cons_of_mem _ hr') q hq hne
          · rcases hkeep q hqr with hk | ⟨hk, -⟩
            · rw [hk]
              exact h.now r' (List.mem_cons_of_mem _ hr') q hq hne
            · exact Or.inl hk⟩
        hdone'
      refine ⟨d', runs_forM_cons hrun hrun', fun q => ⟨fun hq => (hd' q).1 ?_, fun hq hqr => ?_⟩⟩
      · rcases hq with ⟨r', hr', hq⟩ | ⟨r', hr', hq⟩
        · exact Or.inl ⟨r', List.mem_append_left _ hr', hq⟩
        · rcases List.mem_cons.mp hr' with rfl | hr'
          · exact Or.inl ⟨r', List.mem_append_right _ (List.mem_singleton.mpr rfl), hq⟩
          · exact Or.inr ⟨r', hr', hq⟩
      · have hqr' : ¬ w ++ r.path <+: q := fun h => hqr ⟨r, List.mem_cons_self, h⟩
        have hnd : ¬ Covers w (done ++ [r]) q := by
          rintro ⟨r', hr', h⟩
          rcases List.mem_append.mp hr' with hr' | hr'
          · exact hq ⟨r', hr', h⟩
          · exact hqr' (List.mem_singleton.mp hr' ▸ h)
        have hnc : ¬ Covers w roots q := by
          rintro ⟨r', hr', h⟩
          exact hqr ⟨r', List.mem_cons_of_mem _ hr', h⟩
        have hold : d.view q = s.disk.view q ∨
            (d.view q = some .directory ∧ ParentMade w (r :: roots) v s.disk.view q) := by
          rcases hkeep q hqr' with hk | ⟨hk, hqp, hvr⟩
          · exact Or.inl hk
          · rcases hnr q hqp (fun he => hqr' (he ▸ List.prefix_rfl)) with hs | hs
            · exact Or.inl (hk.trans hs.symm)
            · exact Or.inr ⟨hk, hs, r, List.mem_cons_self, hqp, hvr⟩
        rcases (hd' q).2 hnd hnc with hk | ⟨hk, hn, r', hr', hqp, hvr⟩
        · rw [hk]
          exact hold
        · have hs : s.disk.view q = none := by
            rcases hold with ho | ⟨ho, -⟩
            · exact ho.symm.trans hn
            · exact absurd (ho.symm.trans hn) (by simp)
          exact Or.inr ⟨hk, hs, r', List.mem_cons_of_mem _ hr', hqp, hvr⟩

theorem runs_restoreRoots {sha : Sha256 D H} {w : FilePath} {v : View String Bytes}
    {roots : List (MutationRootSnapshot D H)} {s : MutationState D H}
    (h : Rewindable sha w roots v s.disk.view s.blobs) :
    ∃ d, Runs (restoreRoots w roots) s ⟨⟩ { s with disk := d } ∧
      ∀ q, (Covers w roots q → d.view q = v q) ∧
        (¬ Covers w roots q → d.view q = s.disk.view q ∨
          (d.view q = some .directory ∧ ParentMade w roots v s.disk.view q)) := by
  have hnone : ∀ q, ¬ Covers w ([] : List (MutationRootSnapshot D H)) q := by
    rintro q ⟨r, hr, -⟩
    simp at hr
  obtain ⟨d, hd, hv⟩ := runs_restoreRoots_from [] roots h (fun q hq => absurd hq (hnone q))
  exact ⟨d, hd, fun q => ⟨fun hq => (hv q).1 (Or.inr hq), fun hq => (hv q).2 (hnone q) hq⟩⟩

end Kross.Mutation

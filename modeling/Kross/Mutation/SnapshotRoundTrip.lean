import Kross.Mutation.SnapshotModes

namespace Kross.Mutation

open Kross.FileTree Kross.Prog

variable {D H : Type}

section Files

variable {d d' : Files} {p q : FilePath} {node : FileNode} {error : Disk.FsError} {c : Bytes}

theorem view_putAt (h : d.putAt p node error = .ok d') (q : FilePath) :
    d'.view q = if q = p then some node else d.view q := by
  rw [Disk.putAt] at h
  split_ifs at h with hp
  cases h
  exact d.view_put hp q

/-- Only `writeFileSync` makes files. -/
theorem file_of_putAt (h : d.putAt p node error = .ok d') (hnode : ∀ c, node ≠ .file c)
    (hq : d'.view q = some (.file c)) : d.view q = some (.file c) := by
  rw [view_putAt h] at hq
  split_ifs at hq
  · cases hq
    exact absurd rfl (hnode c)
  · exact hq

theorem file_of_mkdirStep (h : d.mkdirStep p = .ok d') (hq : d'.view q = some (.file c)) : d.view q = some (.file c) := by
  rw [Disk.mkdirStep] at h
  split at h
  · exact file_of_putAt h (by simp) hq
  · split at h
    · split_ifs at h
      cases h
      exact hq
    · cases h
  · cases h
  · cases h

theorem file_of_mkdirs {paths : List FilePath} (h : paths.foldlM Disk.mkdirStep d = .ok d')
    (hq : d'.view q = some (.file c)) : d.view q = some (.file c) := by
  induction paths generalizing d with
  | nil =>
      cases h
      exact hq
  | cons p paths ih =>
      rw [List.foldlM_cons] at h
      cases hstep : d.mkdirStep p with
      | error error =>
          rw [hstep] at h
          cases h
      | ok d₁ =>
          rw [hstep] at h
          exact file_of_mkdirStep hstep (ih h)

theorem file_of_symlinkSync {target : Target String} (h : d.symlinkSync target p = .ok d')
    (hq : d'.view q = some (.file c)) : d.view q = some (.file c) := by
  rw [Disk.symlinkSync] at h
  split at h
  · exact file_of_putAt h (by simp) hq
  · cases h
  · cases h
  · cases h

end Files

section NewFiles

variable {created : Nat} {root : FilePath}

/-- The files from `root` on are new ones. -/
def NewFiles (created : Nat) (root : FilePath) (s : ModedState D H) : Prop :=
  ∀ q c, root <+: q → s.base.disk.view q = some (.file c) → s.modes q = created

theorem newFiles_unmoded {α : Type} {m : MutationM D H α}
    (h : ∀ b q c, (exec m b).2.disk.view q = some (.file c) → b.disk.view q = some (.file c)) :
    Preserves (NewFiles created root) (unmoded m) := by
  intro s hs q c hq hview
  rw [exec_unmoded] at hview ⊢
  exact hs q c hq (h s.base q c hview)

theorem newFiles_onDisk {f : Files → Except Disk.FsError Files}
    (h : ∀ d d' q c, f d = .ok d' → d'.view q = some (.file c) → d.view q = some (.file c)) :
    Preserves (NewFiles created root) (unmoded (onDisk f : MutationM D H Unit)) := by
  refine newFiles_unmoded (fun b q c hview => ?_)
  rw [onDisk, exec_bind, exec_get] at hview
  dsimp only at hview
  cases hf : f b.disk with
  | ok d =>
      rw [hf] at hview
      exact h _ _ _ _ hf hview
  | error error =>
      rw [hf] at hview
      exact hview

theorem newFiles_writeFileModed (path : FilePath) (content : Bytes) :
    Preserves (NewFiles created root) (writeFileModed created path content : ModedM D H Unit) := by
  intro s hs
  rw [writeFileModed, exec_bind, exec_get]
  dsimp only
  rw [exec_bind, exec_unmoded, onDisk, exec_bind, exec_get]
  dsimp only
  cases hwrite : s.base.disk.writeFileSync path content with
  | error error => exact hs
  | ok d =>
      intro q c hq hview
      change d.view q = some (.file c) at hview
      change modesAfterWrite created s.base.disk path s.modes q = created
      rw [Disk.writeFileSync] at hwrite
      rw [modesAfterWrite]
      have hplace : ∀ place, s.base.disk.putAt place (.file content) .EISDIR = .ok d →
          modesAt created s.base.disk s.modes place q = created := by
        intro place hput
        rw [view_putAt hput] at hview
        rcases modesAt_cases created s.base.disk s.modes place with ⟨⟨content', hfile⟩, hsame⟩ | hnew
        · rw [hsame]
          split_ifs at hview with hqp
          · subst hqp
            exact hs q content' hq hfile
          · exact hs q c hq hview
        · rw [hnew, Function.update_apply]
          split_ifs at hview with hqp
          · exact if_pos hqp
          · rw [if_neg hqp]
            exact hs q c hq hview
      cases hresolve : resolve s.base.disk.view path with
      | found place =>
          rw [hresolve] at hwrite
          exact hplace place hwrite
      | missing place =>
          rw [hresolve] at hwrite
          exact hplace place hwrite
      | nowhere =>
          rw [hresolve] at hwrite
          cases hwrite
      | blocked =>
          rw [hresolve] at hwrite
          cases hwrite

theorem runs_of_forM_singleton {α : Type} {f : α → ModedM D H PUnit} {a : α} {s s' : ModedState D H}
    (h : Runs ([a].forM f) s ⟨⟩ s') : Runs (f a) s ⟨⟩ s' := by
  change exec (f a >>= fun _ => (pure PUnit.unit : ModedM D H PUnit)) s = _ at h
  rw [exec_bind] at h
  rw [Runs]
  generalize exec (f a) s = x at h ⊢
  obtain ⟨error | ⟨⟩, t⟩ := x <;> exact h

variable [DecidableEq D]

theorem newFiles_restoreEntryModed (w : FilePath) (entry : MutationEntrySnapshot D) :
    Preserves (NewFiles created root) (restoreEntryModed (H := H) created w entry) := by
  refine (newFiles_onDisk (fun _ _ _ _ => file_of_mkdirs)).bind (fun _ => ?_)
  obtain ⟨path, kind, hash, ref, target⟩ := entry
  have hread : ∀ ref, Preserves (NewFiles created root) (unmoded (readBlob ref : MutationM D H Bytes)) := by
    refine fun ref => newFiles_unmoded (fun b q c hview => ?_)
    rw [readBlob, exec_bind, exec_get] at hview
    dsimp only at hview
    cases hlookup : b.blobs.lookup ref with
    | none =>
        rw [hlookup] at hview
        exact hview
    | some content =>
        rw [hlookup] at hview
        exact hview
  cases kind with
  | directory => exact preserves_pure _
  | file => cases ref with
    | none => exact preserves_pure _
    | some ref => exact (hread ref).bind (fun content => newFiles_writeFileModed _ _)
  | symlink => cases target with
    | none => exact preserves_pure _
    | some target => exact newFiles_onDisk (fun _ _ _ _ => file_of_symlinkSync)

/-- Whatever stood at a root before, its files are new ones afterwards. -/
theorem newFiles_restoreRootModed {s s' : ModedState D H} {w : FilePath} {r : MutationRootSnapshot D H}
    (hd : Direct s.base.disk.view (w ++ r.path)) (h : Runs (restoreRootModed created w r) s ⟨⟩ s') :
    NewFiles created (w ++ r.path) s' := by
  obtain ⟨d, hrm, hview⟩ := Disk.rmSync_direct hd
  have hremoved : Runs (unmoded (onDisk (·.rmSync (w ++ r.path)))) s ⟨⟩ ⟨{ s.base with disk := d }, s.modes⟩ := by
    have hplain : Runs (onDisk (·.rmSync (w ++ r.path))) s.base ⟨⟩ { s.base with disk := d } := runs_onDisk hrm
    rw [Runs, exec_unmoded, hplain]
  have hnew : NewFiles created (w ++ r.path) (⟨{ s.base with disk := d }, s.modes⟩ : ModedState D H) := by
    intro q c hq hfile
    change d.view q = _ at hfile
    rw [hview] at hfile
    split_ifs at hfile with hroot
    have hnil : q = [] := by
      by_contra hne
      exact hroot ⟨hq, hne⟩
    rw [hnil, s.base.disk.view_nil] at hfile
    cases hfile
  rw [restoreRootModed, Runs, exec_bind, hremoved] at h
  dsimp only at h
  have hrest : Preserves (NewFiles created (w ++ r.path))
      (do
        (r.entries.filter (·.kind = .directory)).forM (fun entry => unmoded (onDisk (·.mkdirSync (w ++ entry.path))))
        (r.entries.filter (·.kind ≠ .directory)).forM (restoreEntryModed created w) : ModedM D H PUnit) :=
    (preserves_forM (fun _ _ => newFiles_onDisk (fun _ _ _ _ => file_of_mkdirs))).bind
      (fun _ => preserves_forM (fun _ _ => newFiles_restoreEntryModed _ _))
  have hkept := hrest _ hnew
  rwa [h] at hkept

end NewFiles

section RoundTrip

/-- A link that leads nowhere. -/
def Dangling (v : View String Bytes) (p : FilePath) : Prop := existsSync v p = false ∧ ∃ t, v p = some (.link t)

/-- From `root` on there are the same files, with the same bits, directories and links. -/
def SameSubtree (root : FilePath) (s s' : ModedState D H) : Prop :=
  (∀ q, root <+: q → s.base.disk.view q = s'.base.disk.view q) ∧
    ∀ q c, root <+: q → s.base.disk.view q = some (.file c) → s.modes q = s'.modes q

variable [DecidableEq D] (sha : Sha256 D H) (w p : FilePath)

/-- What `s'` may be after a capture in `s`: anything at the path itself. -/
structure Later (s s' : ModedState D H) : Prop where
  blobs : BlobsExtend (captureBlobs sha w s.base.disk s.base.blobs p) s'.base.blobs
  outside : ∀ q, ¬w ++ p <+: q → s'.base.disk.view q = s.base.disk.view q

def BringsBack (created : Nat) (s s' : ModedState D H) : Prop :=
  ∃ t, Runs (restoreRootsModed created w [captureRoot sha w s.base.disk p]) s' ⟨⟩ t ∧ SameSubtree (w ++ p) t s

omit [DecidableEq D] in
def HashTells (s s' : ModedState D H) : Prop :=
  (captureRoot sha w s.base.disk p).hash = (captureRoot sha w s'.base.disk p).hash ↔ SameSubtree (w ++ p) s s'

variable {sha w p} {created : Nat} {s s' : ModedState D H}

theorem clear_of_not_dangling {v : View String Bytes} {q : FilePath} (hd : Direct v q) (h : ¬Dangling v q) : Clear v q := by
  refine ⟨hd, fun t ht => ?_⟩
  by_contra hexists
  exact h ⟨by simpa using hexists, t, ht⟩

theorem captured_dangling {d : Files} (h : Dangling d.view (w ++ p)) : captured w d p = [] := by
  rw [captured, h.1]
  exact if_neg (by simp)

theorem Later.direct (h : Later sha w p s s') (hd : Direct s.base.disk.view (w ++ p)) : Direct s'.base.disk.view (w ++ p) := by
  intro q hq hne
  rw [h.outside q (fun hp => hne (hq.eq_of_length_le hp.length_le))]
  exact hd q hq hne

/-- Restoring leaves what the snapshot shows, in new files. -/
theorem restored_captureRoot (created : Nat) (hs : BlobsOk sha s.base.blobs) (hd : Direct s.base.disk.view (w ++ p))
    (hlater : Later sha w p s s') (hleads : ¬Dangling s.base.disk.view (w ++ p)) :
    ∃ t, Runs (restoreRootsModed created w [captureRoot sha w s.base.disk p]) s' ⟨⟩ t ∧
      (∀ q, w ++ p <+: q → t.base.disk.view q = s.base.disk.view q) ∧ NewFiles created (w ++ p) t := by
  have hclear := clear_of_not_dangling hd hleads
  have hstored : ∀ q, w ++ p <+: q → ∀ node, s.base.disk.view q = some node → Stored sha s'.base.blobs node := by
    intro q hq node hnode c hc
    exact hlater.blobs _ _ ((captureBlobs_spec (w := w) (d := s.base.disk) [p] hs).2.2 p List.mem_cons_self hclear q hq node hnode c hc)
  have hrewind : Rewindable sha w [captureRoot sha w s.base.disk p] s.base.disk.view s'.base.disk.view s'.base.blobs := by
    refine ⟨fun r hr => ?_, fun r hr => ?_, fun r hr => ?_⟩
    · rw [List.mem_singleton.mp hr]
      exact ⟨s.base.disk.isTree, captureRoot_records sha hclear, hstored⟩
    · rw [List.mem_singleton.mp hr]
      exact hd
    · rw [List.mem_singleton.mp hr]
      exact hlater.direct hd
  obtain ⟨d, hruns, hview⟩ := runs_restoreRoots hrewind
  obtain ⟨modes, hmoded⟩ := (shadows_restoreRootsModed created w _).runs hruns
  refine ⟨_, hmoded, fun q hq => (hview q).1 ⟨_, List.mem_cons_self, hq⟩, ?_⟩
  exact newFiles_restoreRootModed (hlater.direct hd) (runs_of_forM_singleton hmoded)

/-- A dangling link is removed. -/
theorem not_bringsBack_of_dangling (hd : Direct s.base.disk.view (w ++ p)) (hlater : Later sha w p s s')
    (hleads : Dangling s.base.disk.view (w ++ p)) : ¬BringsBack sha w p created s s' := by
  rintro ⟨t, hruns, hsame, -⟩
  obtain ⟨-, target, hlink⟩ := id hleads
  obtain ⟨d, hrm, hview⟩ := Disk.rmSync_direct (hlater.direct hd)
  have hentries : (captureRoot sha w s.base.disk p).entries = [] := by
    rw [captureRoot, captured_dangling hleads]
    rfl
  have hplain : Runs (restoreRoots w [captureRoot sha w s.base.disk p]) s'.base ⟨⟩ { s'.base with disk := d } := by
    refine runs_forM_cons ?_ (runs_forM_nil _ _)
    rw [restoreRoot, hentries]
    exact (runs_onDisk hrm).bind (runs_pure _ _)
  obtain ⟨modes, hmoded⟩ := (shadows_restoreRootsModed created w _).runs hplain
  rw [Runs] at hruns hmoded
  rw [hmoded] at hruns
  cases hruns
  have hroot := hsame _ List.prefix_rfl
  change d.view (w ++ p) = _ at hroot
  have hne : w ++ p ≠ [] := by
    intro hnil
    rw [hnil, s.base.disk.view_nil] at hlink
    cases hlink
  rw [hview, if_pos ⟨List.prefix_rfl, hne⟩, hlink] at hroot
  cases hroot

theorem bringsBack_iff (hs : BlobsOk sha s.base.blobs) (hd : Direct s.base.disk.view (w ++ p)) (hlater : Later sha w p s s') :
    BringsBack sha w p created s s' ↔ ¬Dangling s.base.disk.view (w ++ p) ∧ NewFiles created (w ++ p) s := by
  by_cases hleads : Dangling s.base.disk.view (w ++ p)
  · refine ⟨fun h => (not_bringsBack_of_dangling hd hlater hleads h).elim, fun h => absurd hleads h.1⟩
  · obtain ⟨t, hruns, hview, hnew⟩ := restored_captureRoot created hs hd hlater hleads
    constructor
    · rintro ⟨t', hruns', -, hmodes⟩
      have ht : t' = t := by
        rw [Runs] at hruns hruns'
        rw [hruns] at hruns'
        cases hruns'
        rfl
      subst ht
      refine ⟨hleads, fun q c hq hfile => ?_⟩
      have hrestored := (hview q hq).trans hfile
      rw [← hmodes q c hq hrestored]
      exact hnew q c hq hrestored
    · rintro ⟨-, hold⟩
      refine ⟨t, hruns, hview, fun q c hq hfile => ?_⟩
      rw [hnew q c hq hfile]
      exact (hold q c hq ((hview q hq).symm.trans hfile)).symm

/-- Nothing that a snapshot leaves out tells the two trees apart, and no dangling link is
taken for nothing. -/
structure Distinguished (root : FilePath) (s s' : ModedState D H) : Prop where
  modes : (∀ q, root <+: q → s.base.disk.view q = s'.base.disk.view q) →
    ∀ q c, root <+: q → s.base.disk.view q = some (.file c) → s.modes q = s'.modes q
  leads : Dangling s'.base.disk.view root →
    s.base.disk.view root ≠ none ∧ s.base.disk.view root ≠ s'.base.disk.view root

omit [DecidableEq D] in
theorem below_link {v : View String Bytes} (hv : IsTree v) {root q : FilePath} {target : Target String}
    (h : v root = some (.link target)) (hq : root <+: q) : q = root ∨ v q = none := by
  by_cases hqr : q = root
  · exact Or.inl hqr
  · refine Or.inr (by_contra fun hne => ?_)
    have hdir := hv.of_prefix hq (Ne.symm hqr) hne
    rw [h] at hdir
    cases hdir

omit [DecidableEq D] in
theorem hashTells_iff (hd : Direct s.base.disk.view (w ++ p)) (hd' : Direct s'.base.disk.view (w ++ p))
    (hleads : ¬Dangling s.base.disk.view (w ++ p)) : HashTells sha w p s s' ↔ Distinguished (w ++ p) s s' := by
  have hrecords := captureRoot_records sha (clear_of_not_dangling hd hleads)
  by_cases hleads' : Dangling s'.base.disk.view (w ++ p)
  · obtain ⟨-, target, hlink⟩ := id hleads'
    have hempty : (captureRoot sha w s'.base.disk p).hash = sha.ofEntries [] := by
      rw [captureRoot, captured_dangling hleads']
      rfl
    have hhash : (captureRoot sha w s.base.disk p).hash = (captureRoot sha w s'.base.disk p).hash ↔
        s.base.disk.view (w ++ p) = none := by
      rw [hempty, captureRoot]
      constructor
      · intro h
        have hnil := sha.entries_injective h
        rw [List.map_eq_nil_iff] at hnil
        by_contra hsome
        obtain ⟨node, hnode⟩ := Option.ne_none_iff_exists'.mp hsome
        have hmem := (mem_captured (clear_of_not_dangling hd hleads)).mpr ⟨List.prefix_rfl, hnode⟩
        rw [hnil] at hmem
        cases hmem
      · intro h
        have hnil : captured w s.base.disk p = [] := by
          rw [captured, existsSync_of_none s.base.disk.isTree hd h]
          exact if_neg (by simp)
        rw [hnil]
        rfl
    rw [HashTells, hhash]
    constructor
    · intro htells
      refine ⟨fun hsame q c hq hfile => ?_, fun _ => ⟨fun hnone => ?_, fun hsame => ?_⟩⟩
      · have hroot := hsame _ List.prefix_rfl
        rw [hlink] at hroot
        rcases below_link s.base.disk.isTree hroot hq with rfl | hnone
        · rw [hroot] at hfile
          cases hfile
        · rw [hnone] at hfile
          cases hfile
      · have hroot := (htells.mp hnone).1 _ List.prefix_rfl
        rw [hnone, hlink] at hroot
        cases hroot
      · rw [hlink] at hsame
        have hsubtree : SameSubtree (w ++ p) s s' := by
          refine ⟨fun q hq => ?_, fun q c hq hfile => ?_⟩
          · rcases below_link s.base.disk.isTree hsame hq with rfl | hnone
            · rw [hsame, hlink]
            · rcases below_link s'.base.disk.isTree hlink hq with rfl | hnone'
              · rw [hsame] at hnone
                cases hnone
              · rw [hnone, hnone']
          · rcases below_link s.base.disk.isTree hsame hq with rfl | hnone
            · rw [hsame] at hfile
              cases hfile
            · rw [hnone] at hfile
              cases hfile
        rw [htells.mpr hsubtree] at hsame
        cases hsame
    · rintro ⟨-, htold⟩
      obtain ⟨hnone, hdiffers⟩ := htold hleads'
      exact ⟨fun h => absurd h hnone, fun hsame => absurd (hsame.1 _ List.prefix_rfl) hdiffers⟩
  · rw [HashTells, hash_eq_iff hrecords (captureRoot_records sha (clear_of_not_dangling hd' hleads')) rfl]
    constructor
    · intro htells
      exact ⟨fun hsame => (htells.mp hsame).2, fun h => absurd h hleads'⟩
    · rintro ⟨hmodes, -⟩
      exact ⟨fun hsame => ⟨hsame, hmodes hsame⟩, And.left⟩

/-- A path in the tree of `s`, what it becomes later, and another tree that has it. -/
structure Captures (sha : Sha256 D H) (w p : FilePath) (s later other : ModedState D H) : Prop where
  blobs : BlobsOk sha s.base.blobs
  path : Direct s.base.disk.view (w ++ p)
  later : Later sha w p s later
  other : Direct other.base.disk.view (w ++ p)

/-- Nothing but `note` stands below the root, with the bits `rw-r--r--`. -/
def noteIs (node : FileNode) (blobs : List (Digest × Bytes)) : ModedState Digest (List (MutationEntrySnapshot Digest)) where
  base := ⟨⟨[(["note"], node)], by simp, by simp, by simp⟩, blobs, ⟨[], [], []⟩⟩
  modes _ := 0o644

theorem view_noteIs (node : FileNode) (blobs : List (Digest × Bytes)) (q : FilePath) :
    (noteIs node blobs).base.disk.view q = if q = [] then some .directory else if q = ["note"] then some node else none := by
  rw [noteIs, Disk.view]
  split_ifs with hnil hnote
  · rfl
  · simp [hnote]
  · simp [List.lookup_cons, beq_false_of_ne hnote]

theorem direct_note (node : FileNode) (blobs : List (Digest × Bytes)) :
    Direct (noteIs node blobs).base.disk.view ([] ++ ["note"]) := by
  intro q hq hne
  rcases List.prefix_cons_iff.mp hq with rfl | ⟨t, rfl, ht⟩
  · exact Or.inl (Disk.view_nil _)
  · rw [List.prefix_nil.mp ht] at hne
    exact absurd rfl hne

/-- What `note` is after it was captured as `node`. -/
def noteBecomes (node node' : FileNode) : ModedState Digest (List (MutationEntrySnapshot Digest)) :=
  noteIs node' (captureBlobs Sha256.verbatim [] (noteIs node []).base.disk [] ["note"])

theorem captures_note (node node' : FileNode) :
    Captures Sha256.verbatim [] ["note"] (noteIs node []) (noteBecomes node node') (noteBecomes node node') where
  blobs ref c h := by cases h
  path := direct_note node []
  later := by
    refine ⟨fun _ _ h => h, fun q hq => ?_⟩
    rw [noteBecomes, view_noteIs, view_noteIs]
    have hne : q ≠ ["note"] := fun h => hq (h ▸ List.prefix_rfl)
    rw [if_neg hne, if_neg hne]
  other := direct_note node' _

end RoundTrip

end Kross.Mutation

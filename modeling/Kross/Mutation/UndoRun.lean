import Kross.Mutation.UndoSafe
import Mathlib.Data.List.Dedup

namespace Kross.Mutation

open Kross.FileTree Kross.Prog Kross.Rewind

variable {D H : Type} {w : FilePath}

/-- A place is unchanged, or a missing directory was made there. -/
def Grows (a b : Option FileNode) : Prop := b = a ∨ (a = none ∧ b = some .directory)

theorem Grows.refl (a : Option FileNode) : Grows a a := Or.inl rfl

theorem Grows.trans (a b c : Option FileNode) (h : Grows a b) (h' : Grows b c) : Grows a c := by
  rcases h with rfl | ⟨rfl, rfl⟩
  · exact h'
  · rcases h' with rfl | ⟨h', -⟩
    · exact Or.inr ⟨rfl, rfl⟩
    · cases h'

theorem Grows.antisymm (a b : Option FileNode) (h : Grows a b) (h' : Grows b a) : a = b := by
  rcases h with rfl | ⟨rfl, rfl⟩
  · rfl
  · rcases h' with h' | ⟨h', -⟩ <;> cases h'

theorem Grows.direct {u v : View String Bytes} {p : FilePath} (h : Direct u p)
    (hg : ∀ q, q <+: p → q ≠ p → Grows (u q) (v q)) : Direct v p := by
  intro q hq hne
  rcases hg q hq hne with hv | ⟨-, hv⟩
  · rw [hv]
    exact h q hq hne
  · exact Or.inl hv

def Declared (w : FilePath) (input : RecordInput) (p : FilePath) : Prop :=
  ∃ q ∈ input.paths, w ++ q <+: p

/-- Outside the declared paths the action makes at most missing directories. -/
def Confined (w : FilePath) (input : RecordInput) (action : Action) (d : Files) : Prop :=
  ∀ p, ¬ Declared w input p → Grows (d.view p) ((action d).1.view p)

variable [DecidableEq D] [DecidableEq H] {sha : Sha256 D H} {s : MutationState D H}

section Record

omit [DecidableEq D] in
theorem sameRoots_captured {d d' : Files} {paths : List FilePath}
    (h : ∀ p ∈ paths, Clear d.view (w ++ p) ∧ Clear d'.view (w ++ p))
    (hs : sameRoots (paths.map (captureRoot sha w d)) (paths.map (captureRoot sha w d')) = true) :
    ∀ p ∈ paths, ∀ q, w ++ p <+: q → d'.view q = d.view q := by
  intro p hp q hq
  simp only [sameRoots, List.length_map, List.zip_map', List.all_map, Bool.decide_and,
    decide_true, Bool.true_and, Bool.and_eq_true, List.all_eq_true, decide_eq_true_eq, Function.comp_apply] at hs
  have hone := (hash_eq_iff (captureRoot_records sha (h p hp).1) (captureRoot_records sha (h p hp).2)
    rfl).mp (hs p hp).2
  exact (hone q hq).symm

omit [DecidableEq H] in
/-- The rollback of a failed mutation puts its declared paths back. -/
theorem runs_rollBack {input : RecordInput} {action : Action} (hb : BlobsOk sha s.blobs)
    (hs : SeesPaths w s input action) (reason : String) :
    ∃ d, Runs (rollBack w (preparedOn sha w s.disk input) reason) (workedState sha w s input action) ⟨⟩
        { workedState sha w s input action with
          disk := d
          journal := (workedState sha w s input action).journal.apply
            (.rolledBack input.transactionId reason) } ∧
      ∀ q, (Declared w input q → d.view q = s.disk.view q) ∧
        (¬ Declared w input q → Grows ((action s.disk).1.view q) (d.view q)) := by
  have hcap := captureBlobs_spec (w := w) (d := s.disk) input.paths hb
  have hcov : ∀ q, Covers w (preparedOn sha w s.disk input).pre q ↔ Declared w input q := by
    intro q
    simp [Covers, preparedOn, Declared, captureRoot]
  have hrew : Rewindable sha w (preparedOn sha w s.disk input).pre s.disk.view
      (workedState sha w s input action).disk.view (workedState sha w s input action).blobs := by
    refine ⟨fun r hr => ?_, fun r hr => ?_, fun r hr => ?_⟩
    all_goals
      obtain ⟨p, hp, rfl⟩ := List.mem_map.mp hr
    · exact ⟨s.disk.isTree, captureRoot_records sha (hs p hp).1, hcap.2.2 p hp (hs p hp).1⟩
    · exact (hs p hp).1.direct
    · exact (hs p hp).2.direct
  obtain ⟨d, hrun, hd⟩ := runs_restoreRoots hrew
  have happ : Runs (appendEvent (.rolledBack input.transactionId reason))
      { workedState sha w s input action with disk := d } ⟨⟩
      { workedState sha w s input action with
        disk := d
        journal := (workedState sha w s input action).journal.apply
          (.rolledBack input.transactionId reason) } := rfl
  refine ⟨d, hrun.bind happ, fun q => ⟨fun hq => (hd q).1 ((hcov q).mpr hq), fun hq => ?_⟩⟩
  exact ((hd q).2 (fun h => hq ((hcov q).mp h))).imp_right (fun h => ⟨h.2.1, h.1⟩)

theorem exec_record_failed {input : RecordInput} {action : Action} {message : String}
    (hb : BlobsOk sha s.blobs) (hs : SeesPaths w s input action)
    (hp : input.paths.find? (fun path => !isWritablePath s.disk.view w path) = none)
    (ha : (action s.disk).2 = some message) :
    ∃ d, exec (record sha w input action) s = (.error (.action message),
        { workedState sha w s input action with
          disk := d
          journal := (workedState sha w s input action).journal.apply
            (.rolledBack input.transactionId message) }) ∧
      ∀ q, (Declared w input q → d.view q = s.disk.view q) ∧
        (¬ Declared w input q → Grows ((action s.disk).1.view q) (d.view q)) := by
  obtain ⟨d, hrun, hd⟩ := runs_rollBack hb hs message
  refine ⟨d, ?_, hd⟩
  rw [exec_record, hp, ha]
  dsimp only
  rw [hrun]

/-- A recorded mutation changes what it declares only if it is committed, and
elsewhere makes at most missing directories. -/
theorem record_effect {input : RecordInput} {action : Action} (hb : BlobsOk sha s.blobs)
    (hs : SeesPaths w s input action) (hc : Confined w input action s.disk) (p : FilePath) :
    (¬ Declared w input p →
      Grows (s.disk.view p) ((exec (record sha w input action) s).2.disk.view p)) ∧
    (mapGet input.transactionId (exec (record sha w input action) s).2.journal.committed = none →
      Declared w input p →
        (exec (record sha w input action) s).2.disk.view p = s.disk.view p) := by
  cases hp : input.paths.find? (fun path => !isWritablePath s.disk.view w path) with
  | some path =>
      rw [exec_record, hp]
      exact ⟨fun _ => .refl _, fun _ _ => rfl⟩
  | none =>
      cases ha : (action s.disk).2 with
      | some message =>
          obtain ⟨d, hx, hd⟩ := exec_record_failed hb hs hp ha
          rw [hx]
          exact ⟨fun h => .trans _ _ _ (hc p h) ((hd p).2 h), fun _ h => (hd p).1 h⟩
      | none =>
          have hx : (exec (record sha w input action) s).2 = settleState sha w
              (workedState sha w s input action) (preparedOn sha w s.disk input) input.paths := by
            rw [exec_record, hp, ha]
          rw [hx]
          refine ⟨fun h => hc p h, fun hnone hdecl => ?_⟩
          obtain ⟨q, hq, hqp⟩ := hdecl
          by_cases hsame : sameRoots (preparedOn sha w s.disk input).pre
              (input.paths.map (captureRoot sha w (action s.disk).1)) = true
          · exact sameRoots_captured hs hsame q hq p hqp
          · have he : settleEvent (preparedOn sha w s.disk input)
                (input.paths.map (captureRoot sha w (workedState sha w s input action).disk)) =
                  .committed input.transactionId
                    (input.paths.map (captureRoot sha w (action s.disk).1)) := if_neg hsame
            have hprep : mapGet input.transactionId (workedState sha w s input action).journal.prepared =
                some (preparedOn sha w s.disk input) := mapGet_mapSet_self _ _ _
            rw [settleState, he] at hnone
            dsimp only [Journal.apply] at hnone
            rw [hprep] at hnone
            dsimp only at hnone
            rw [mapGet_mapSet_self] at hnone
            cases hnone

end Record

section Events

def TraceEntry.event (w : FilePath) (e : TraceEntry D H) : Event FilePath (Option FileNode) :=
  match e.tracked with
  | some t => .change (t.change w)
  | none => .drift e.before e.after

variable {e : TraceEntry D H} {entries : List (TraceEntry D H)}

omit [DecidableEq D] [DecidableEq H] in
theorem event_tracked {t : Tracked D H} (h : e.tracked = some t) : e.event w = .change (t.change w) := by
  rw [TraceEntry.event, h]

omit [DecidableEq D] [DecidableEq H] in
theorem event_untracked (h : e.tracked = none) : e.event w = .drift e.before e.after := by
  rw [TraceEntry.event, h]

omit [DecidableEq D] [DecidableEq H] in
theorem tracked_after {t : Tracked D H} (h : e.tracked = some t) : t.after = e.after := by
  obtain ⟨wr, u, v⟩ := e
  cases wr with
  | transaction r =>
      cases h
      rfl
  | outside | service => cases h

omit [DecidableEq D] [DecidableEq H] in
theorem event_before : (e.event w).before = e.before := by
  cases h : e.tracked with
  | none => rw [event_untracked h, Event.before]
  | some t => rw [event_tracked h, ← tracked_before h]; rfl

omit [DecidableEq D] [DecidableEq H] in
theorem event_after : (e.event w).after = e.after := by
  cases h : e.tracked with
  | none => rw [event_untracked h, Event.after]
  | some t => rw [event_tracked h, ← tracked_after h]; rfl

omit [DecidableEq D] [DecidableEq H] in
theorem changes_events (entries : List (TraceEntry D H)) :
    changes (entries.map (TraceEntry.event w)) =
      (entries.filterMap TraceEntry.tracked).map (Tracked.change w) := by
  induction entries with
  | nil => rfl
  | cons e entries ih =>
      rw [List.map_cons, changes_cons, ih]
      cases h : e.tracked with
      | none => rw [List.filterMap_cons_none h, event_untracked h]; rfl
      | some t => rw [List.filterMap_cons_some h, event_tracked h]; rfl

end Events

section Growth

/-- The paths above and below the roots of the transactions. -/
def Related (w : FilePath) (us : List (Tracked D H)) (p : FilePath) : Prop :=
  ∃ t ∈ us, ∃ r ∈ t.record.2, p <+: w ++ r.path ∨ w ++ r.path <+: p

/-- A history whose changes are the transactions: around their roots, whatever
else happens makes at most missing directories. -/
structure GrowsAround (sha : Sha256 D H) (w : FilePath) (us : List (Tracked D H))
    (es : List (Event FilePath (Option FileNode))) (u v : View String Bytes) : Prop where
  recorded : changes es = us.map (Tracked.change w)
  sound : ∀ t ∈ us, t.Sound sha w
  chain : ∀ p, Related w us p → Chain Grows p u es v

variable {us : List (Tracked D H)} {es : List (Event FilePath (Option FileNode))}
  {u v v' : View String Bytes} {p : FilePath}

omit [DecidableEq D] [DecidableEq H] in
theorem related_of_touched (h : TouchedByAny w us p) : Related w us p := by
  obtain ⟨c, hc, hp⟩ := h
  obtain ⟨t, ht, rfl⟩ := List.mem_map.mp hc
  obtain ⟨r, hr, hrp⟩ := hp
  exact ⟨t, ht, r, hr, Or.inr hrp⟩

omit [DecidableEq D] [DecidableEq H] in
theorem Tracked.Sound.root_iff {t : Tracked D H} (h : t.Sound sha w) {path : FilePath} :
    (∃ r ∈ t.record.1.pre, r.path = path) ↔ ∃ r ∈ t.record.2, r.path = path := by
  have hmap := h.paths
  constructor <;> rintro ⟨r, hr, rfl⟩
  · rw [← List.mem_map, ← hmap]
    exact List.mem_map_of_mem hr
  · rw [← List.mem_map, hmap]
    exact List.mem_map_of_mem hr

omit [DecidableEq D] [DecidableEq H] in
/-- The history from a transaction on. -/
theorem GrowsAround.since {t : Tracked D H} {us₁ us₂ : List (Tracked D H)}
    (h : GrowsAround sha w (us₁ ++ t :: us₂) es u v) :
    ∃ b, changes b = us₂.map (Tracked.change w) ∧
      ∀ p, Related w (us₁ ++ t :: us₂) p → Chain Grows p t.after b v ∧
        (p ∉ Touches w t.record.2 → Grows (t.before p) (t.after p)) := by
  have hc := h.recorded
  rw [List.map_append, List.map_cons] at hc
  obtain ⟨a, b, rfl, -, hb⟩ := changes_eq_append hc
  refine ⟨b, hb, fun p hp => ?_⟩
  obtain ⟨-, hle, hchain⟩ := (h.chain p hp).split
  exact ⟨hchain, hle⟩

omit [DecidableEq D] [DecidableEq H] in
theorem GrowsAround.parentsFit (h : GrowsAround sha w us es u v) : ParentsFit w us v := by
  rintro us₁ t us₂ rfl r hr p hp hne
  obtain ⟨b, hb, hfrom⟩ := h.since
  have ht := h.sound t (by simp)
  obtain ⟨r', hr', hpath⟩ := ht.root_iff.mp ⟨r, hr, rfl⟩
  obtain ⟨hchain, hstep⟩ := hfrom p ⟨t, by simp, r', hr', Or.inl (hpath ▸ hp)⟩
  have hle := hchain.le_rewind Grows.refl Grows.trans
  rw [hb] at hle
  have hafter := ht.directAfter r' hr' p (hpath ▸ hp) (hpath ▸ hne)
  have hdir : rewound w us₂ v p = some .directory ∨
      (rewound w us₂ v p = none ∧ t.after p = none) := by
    rcases hle with hle | ⟨-, hle⟩
    · rcases hafter with ha | ha
      · exact Or.inl (hle.trans ha)
      · exact Or.inr ⟨hle.trans ha, ha⟩
    · exact Or.inl hle
  refine hdir.imp_right (fun hn => ⟨hn.1, ?_⟩)
  by_cases hb : t.before (w ++ r.path) = none
  · exact Or.inl hb
  · refine Or.inr (Or.inr ?_)
    by_contra htouch
    have hd := ht.treeBefore.of_prefix hp hne hb
    rcases hstep htouch with he | ⟨he, -⟩
    · rw [hn.2, hd] at he
      cases he
    · rw [hd] at he
      cases he

omit [DecidableEq D] [DecidableEq H] in
/-- Undoing such a history makes no directory that nothing has touched. -/
theorem GrowsAround.not_needed (h : GrowsAround sha w us es u v)
    (hp : ¬ TouchedByAny w us p) (hv : v p = none) : ¬ Needed w us p := by
  rintro ⟨t, ht, r, hr, hpr, hb⟩
  obtain ⟨us₁, us₂, rfl⟩ := List.append_of_mem ht
  have hs := h.sound t ht
  obtain ⟨r', hr', hpath⟩ := hs.root_iff.mp ⟨r, hr, rfl⟩
  have hno : p ∉ Touches w t.record.2 := fun hpt => hp ⟨t.change w, List.mem_map_of_mem ht, hpt⟩
  have hne : p ≠ w ++ r.path := by
    rintro rfl
    exact hno ⟨r', hr', hpath ▸ List.prefix_rfl⟩
  obtain ⟨b, hb', hfrom⟩ := h.since
  obtain ⟨hchain, hstep⟩ := hfrom p ⟨t, ht, r', hr', Or.inl (hpath ▸ hpr)⟩
  have hd := hs.treeBefore.of_prefix hpr hne hb
  have hle := hchain.le_end Grows.refl Grows.trans (by
    rw [hb']
    rintro ⟨c, hc, hpc⟩
    exact hp ⟨c, by rw [List.map_append, List.map_cons]; simp [hc], hpc⟩)
  have hgrow := Grows.trans _ _ _ (hstep hno) hle
  rw [hd, hv] at hgrow
  rcases hgrow with hgrow | ⟨hgrow, -⟩ <;> cases hgrow

omit [DecidableEq D] [DecidableEq H] in
theorem GrowsAround.rewinds (h : GrowsAround sha w us es u v) (hv : Rewinds w us v v') :
    v' = rewound w us v := by
  funext p
  by_cases hp : TouchedByAny w us p
  · exact (hv p).1 hp
  · rw [rewound, rewind_untouched hp]
    rcases (hv p).2 hp with h' | ⟨hn, -, hneed⟩
    · exact h'
    · exact absurd hneed (h.not_needed hp hn)

omit [DecidableEq D] [DecidableEq H] in
theorem mem_topLevelRoots {transactions : List (MutationRecord D H)} {path : FilePath} :
    path ∈ topLevelRoots transactions ↔
      (∃ t ∈ transactions, ∃ r ∈ t.2, r.path = path) ∧
        ∀ t ∈ transactions, ∀ r ∈ t.2, r.path <+: path → r.path = path := by
  simp only [topLevelRoots, distinct, List.mem_filter, List.mem_reverse, List.mem_dedup,
    List.mem_flatMap, List.mem_map, Bool.not_eq_true', List.any_eq_false, decide_eq_true_eq,
    isPathWithin_iff, not_and]
  refine and_congr_right (fun _ => ⟨fun h t ht r hr hp => ?_, ?_⟩)
  · by_contra hne
    exact h r.path ⟨t, ht, r, hr, rfl⟩ hne hp
  · rintro h _ ⟨t, ht, r, hr, rfl⟩ hne hp
    exact hne (h t ht r hr hp)

omit [DecidableEq D] [DecidableEq H] in
/-- Every root lies at or below a top-level root. -/
theorem exists_topLevelRoot {transactions : List (MutationRecord D H)} {t : MutationRecord D H}
    (ht : t ∈ transactions) {r : MutationRootSnapshot D H} (hr : r ∈ t.2) :
    ∃ path ∈ topLevelRoots transactions, path <+: r.path := by
  have hind : ∀ n, ∀ t ∈ transactions, ∀ r ∈ t.2, r.path.length = n →
      ∃ path ∈ topLevelRoots transactions, path <+: r.path := by
    intro n
    induction n using Nat.strongRecOn with
    | ind n ih =>
        intro t ht r hr hn
        by_cases htop : r.path ∈ topLevelRoots transactions
        · exact ⟨r.path, htop, List.prefix_rfl⟩
        · rw [mem_topLevelRoots, not_and] at htop
          have hex := htop ⟨t, ht, r, hr, rfl⟩
          simp only [not_forall] at hex
          obtain ⟨t', ht', r', hr', hp, hne⟩ := hex
          have hlt : r'.path.length < n := by
            rw [← hn]
            exact lt_of_le_of_ne hp.length_le (fun hl => hne (hp.eq_of_length hl))
          obtain ⟨path, hpath, hpre⟩ := ih _ hlt t' ht' r' hr' rfl
          exact ⟨path, hpath, hpre.trans hp⟩
  exact hind _ t ht r hr rfl

omit [DecidableEq D] [DecidableEq H] in
theorem touched_of_topLevelRoot {path q : FilePath}
    (hpath : path ∈ topLevelRoots (us.map Tracked.record)) (hq : w ++ path <+: q) :
    TouchedByAny w us q := by
  obtain ⟨⟨t', ht', r, hr, rfl⟩, -⟩ := mem_topLevelRoots.mp hpath
  obtain ⟨t, ht, rfl⟩ := List.mem_map.mp ht'
  exact ⟨t.change w, List.mem_map_of_mem ht, r, hr, hq⟩

omit [DecidableEq D] [DecidableEq H] in
/-- The disk shows what the transactions left exactly if no touched path has
changed since. -/
theorem GrowsAround.matches_iff (h : GrowsAround sha w us es u v) (hv : IsTree v) :
    Matches w us v ↔ ∀ p, TouchedByAny w us p → SettledAfter es p := by
  have htouch : ∀ p, TouchedByAny w us p ↔ TouchedBy (changes es) p := fun p => by
    rw [h.recorded, TouchedByAny]
  have hleft : ∀ p, replay (changes es) (fun _ => none) p = left w us p := fun p => by
    rw [h.recorded, left]
  constructor
  · intro hm p hp
    have hchain := h.chain p (related_of_touched hp)
    refine hchain.settledAfter (v := fun _ => none) Grows.refl Grows.trans Grows.antisymm
      ((htouch p).mp hp) ?_
    rw [hleft]
    obtain ⟨c, hc, hpc⟩ := hp
    obtain ⟨t, ht, rfl⟩ := List.mem_map.mp hc
    obtain ⟨r, hr, hrp⟩ := hpc
    obtain ⟨path, hpath, hpre⟩ := exists_topLevelRoot (List.mem_map_of_mem ht) hr
    have hvis := hm path hpath p (((List.prefix_append_right_inj w).mpr hpre).trans hrp)
    cases hvp : v p with
    | some node =>
        rw [hvp, visible_eq_some] at hvis
        exact hvis.2
    | none =>
        have hle := hchain.replay_le Grows.refl Grows.trans ((htouch p).mp
          ⟨t.change w, List.mem_map_of_mem ht, r, hr, hrp⟩) (fun _ => none)
        rw [hleft, hvp] at hle
        rcases hle with hle | ⟨-, hle⟩
        · exact hle.symm
        · cases hle
  · intro hs path hpath q hq
    rw [← visible_of_tree hv (w ++ path) q]
    refine visible_congr hq (fun p hp => ?_)
    have ht := touched_of_topLevelRoot hpath hp
    rw [← hleft]
    exact (h.chain p (related_of_touched ht)).replay_eq (hs p ht) ((htouch p).mp ht) _

omit [DecidableEq D] [DecidableEq H] in
theorem GrowsAround.direct (h : GrowsAround sha w us es u v) {path : FilePath}
    (hpath : path ∈ topLevelRoots (us.map Tracked.record)) : Direct v (w ++ path) := by
  obtain ⟨⟨t', ht', r, hr, rfl⟩, htop⟩ := mem_topLevelRoots.mp hpath
  obtain ⟨t, ht, rfl⟩ := List.mem_map.mp ht'
  obtain ⟨us₁, us₂, rfl⟩ := List.append_of_mem ht
  obtain ⟨b, hb, hsince⟩ := h.since
  refine Grows.direct ((h.sound t ht).directAfter r hr) (fun q hq hne => ?_)
  refine (hsince q ⟨t, ht, r, hr, Or.inl hq⟩).1.le_end Grows.refl Grows.trans ?_
  rw [hb]
  rintro ⟨c, hc, hqc⟩
  obtain ⟨t₂, ht₂, rfl⟩ := List.mem_map.mp hc
  obtain ⟨r₂, hr₂, hrq⟩ := hqc
  have hmem : t₂ ∈ us₁ ++ t :: us₂ := by simp [ht₂]
  have hpre := (List.prefix_append_right_inj w).mp (hrq.trans hq)
  rw [htop t₂.record (List.mem_map_of_mem hmem) r₂ hr₂ hpre] at hrq
  exact hne (hq.eq_of_length_le hrq.length_le)

end Growth

section Run

variable {steps : List HistoryStep} {run : String} {ts : List (Tracked D H)}

theorem trace_chain {p : FilePath} (h : ∀ e ∈ trace sha w s steps,
      p ∉ (e.event w).touched → Grows (e.before p) (e.after p)) :
    Chain Grows p s.disk.view ((trace sha w s steps).map (TraceEntry.event w))
      (runSteps sha w s steps).disk.view := by
  induction steps generalizing s with
  | nil => exact .nil _
  | cons step steps ih =>
      have htail := ih (fun e he => h e (List.mem_cons_of_mem _ he))
      have hhead := h (traceEntry sha w s step) List.mem_cons_self
      have hchain : Chain Grows p ((traceEntry sha w s step).event w).before _ _ := Chain.cons _ _ _
        (by rwa [event_before, event_after]) (by rw [event_after]; exact htail)
      rw [event_before] at hchain
      exact hchain

/-- The mutations of one run, recorded one after another. -/
def OfRun (sha : Sha256 D H) (w : FilePath) (run : String) (s : MutationState D H) :
    List HistoryStep → Prop
  | [] => True
  | step :: steps => (∃ input action, step = .record input action ∧ input.runId = run ∧
      Confined w input action s.disk) ∧ OfRun sha w run (applyStep sha w s step) steps

def Captured (w : FilePath) (steps : List HistoryStep) (p : FilePath) : Prop :=
  ∃ input action, HistoryStep.record input action ∈ steps ∧ Declared w input p

theorem traceEntry_grows {input : RecordInput} {action : Action} (hb : BlobsOk sha s.blobs)
    (hok : StepOk w s (.record input action)) (hc : Confined w input action s.disk) (p : FilePath)
    (hp : p ∉ ((traceEntry sha w s (.record input action)).event w).touched) :
    Grows ((traceEntry sha w s (.record input action)).before p)
        ((traceEntry sha w s (.record input action)).after p) ∧
      (Declared w input p → (traceEntry sha w s (.record input action)).after p =
        (traceEntry sha w s (.record input action)).before p) := by
  have heff := record_effect hb hok.2 hc p
  by_cases hd : Declared w input p
  · have hnone : mapGet input.transactionId
        (exec (record sha w input action) s).2.journal.committed = none := by
      rcases record_outcome sha w s input action with ⟨-, hk⟩ | ⟨-, hk, -⟩
      · rw [hk.committed]
        exact hok.1.id
      · exfalso
        have htr : (traceEntry sha w s (.record input action)).tracked = some ⟨(preparedOn sha w s.disk input,
            input.paths.map (captureRoot sha w (action s.disk).1)), s.disk.view,
            (exec (record sha w input action) s).2.disk.view⟩ := by
          rw [traceEntry, writer, applyStep, hk, mapGet_mapSet_self, TraceEntry.tracked]
        rw [event_tracked htr] at hp
        obtain ⟨q, hq, hqp⟩ := hd
        exact hp ⟨_, List.mem_map_of_mem hq, hqp⟩
    have heq := heff.2 hnone hd
    exact ⟨Or.inl heq, fun _ => heq⟩
  · exact ⟨heff.1 hd, fun h => absurd h hd⟩

/-- In a run, a step that does not touch a path makes at most a directory there,
and one that has declared the path leaves it alone. -/
theorem trace_grows (h : Recorded sha w s ts) (hok : StepsOk sha w s steps)
    (hrun : OfRun sha w run s steps) (p : FilePath) :
    ∀ e ∈ trace sha w s steps, p ∉ (e.event w).touched → Grows (e.before p) (e.after p) := by
  induction steps generalizing s ts with
  | nil => exact fun e he => absurd he List.not_mem_nil
  | cons step steps ih =>
      intro e he hp
      obtain ⟨⟨input, action, rfl, -, hc⟩, hrest⟩ := hrun
      rcases List.mem_cons.mp he with rfl | he
      · exact (traceEntry_grows h.blobs hok.1 hc p hp).1
      · exact ih (recorded_step h hok.1) hok.2 hrest e he hp

omit [DecidableEq H] in
/-- The active transactions of a run, as the tracked ones tell it. -/
theorem select_run (h : Recorded sha w s ts) (run : String) :
    select s.journal (some run) =
      (ts.filter (fun t => t.record.1.transactionId ∉ s.journal.inactive ∧
        (t.record.1.runId = run ∨ t.record.1.transactionId = run))).map Tracked.record := by
  rw [select, listActive_eq h, List.filter_map, List.filter_filter]
  refine congrArg _ (List.filter_congr (fun t _ => ?_))
  simp [and_comm]

theorem select_run_step {input : RecordInput} {action : Action} (h : Recorded sha w s ts)
    (hok : StepOk w s (.record input action)) (hrun : input.runId = run) :
    select (applyStep sha w s (.record input action)).journal (some run) =
      select s.journal (some run) ++
        (traceEntry sha w s (.record input action)).tracked.toList.map Tracked.record := by
  have hstep := recorded_step h hok
  rw [select_run h, select_run hstep, List.filter_append, List.map_append]
  have hids : ∀ t ∈ ts, t.record.1.transactionId ≠ input.transactionId := by
    intro t ht hid
    refine mapGet_none hok.1.id ?_
    rw [h.committed, List.map_map]
    exact List.mem_map.mpr ⟨t, ht, hid⟩
  have hold : ∀ t ∈ ts, t.record.1.transactionId ∈
      (applyStep sha w s (.record input action)).journal.inactive ↔
        t.record.1.transactionId ∈ s.journal.inactive := by
    intro t ht
    rcases record_outcome sha w s input action with ⟨-, hk⟩ | ⟨-, -, hk⟩
    · exact hk.inactive _ (hids t ht)
    · rw [applyStep, hk]
  congr 1
  · refine congrArg _ (List.filter_congr (fun t ht => ?_))
    simp only [hold t ht]
  · refine congrArg _ (List.filter_eq_self.mpr (fun t ht => ?_))
    rcases record_outcome sha w s input action with ⟨-, hk⟩ | ⟨-, hc, hk⟩
    · rw [traceEntry, writer, applyStep, hk.committed, hok.1.id, TraceEntry.tracked,
        Option.toList_none] at ht
      exact absurd ht List.not_mem_nil
    · rw [traceEntry, writer, applyStep, hc, mapGet_mapSet_self, TraceEntry.tracked,
        Option.toList_some, List.mem_singleton] at ht
      subst ht
      rw [applyStep, hk]
      simpa [preparedOn, hrun] using hok.1.active

theorem select_run_steps (h : Recorded sha w s ts) (hok : StepsOk sha w s steps)
    (hrun : OfRun sha w run s steps) :
    select (runSteps sha w s steps).journal (some run) = select s.journal (some run) ++
      ((trace sha w s steps).filterMap TraceEntry.tracked).map Tracked.record := by
  induction steps generalizing s ts with
  | nil => simp [trace, runSteps]
  | cons step steps ih =>
      obtain ⟨⟨input, action, rfl, hid, -⟩, hrest⟩ := hrun
      have hcons : (trace sha w s (.record input action :: steps)).filterMap TraceEntry.tracked =
          (traceEntry sha w s (.record input action)).tracked.toList ++
            (trace sha w (applyStep sha w s (.record input action)) steps).filterMap
              TraceEntry.tracked := by
        rw [trace, List.filterMap_cons]
        cases (traceEntry sha w s (.record input action)).tracked <;> rfl
      rw [hcons, List.map_append, ← List.append_assoc, ← select_run_step h hok.1 hid]
      exact ih (recorded_step h hok.1) hok.2 hrest

/-- The run can be undone without a conflict, and then every path it has
captured is as it was before. -/
structure UndoComplete (sha : Sha256 D H) (w : FilePath) (run now : String)
    (captured : FilePath → Prop) (s₀ s : MutationState D H) : Prop where
  noConflict : (exec (assertCanUndo sha w (some run)) s).1 = .ok ⟨⟩
  succeeds : select s.journal (some run) ≠ [] →
    ∃ result, (exec (undo sha w now (some run)) s).1 = .ok result
  restored : ∀ p, captured p → (exec (undo sha w now (some run)) s).2.disk.view p = s₀.disk.view p

/-- No path outside a change is made by it before the first or after the last
transaction that touches the path. -/
def Settled (w : FilePath) (entries : List (TraceEntry D H)) (p : FilePath) : Prop :=
  SettledBefore (entries.map (TraceEntry.event w)) p ∧
    SettledAfter (entries.map (TraceEntry.event w)) p

theorem captured_of_tracked {e : TraceEntry D H} {t : Tracked D H} {p : FilePath}
    (hok : StepsOk sha w s steps) (he : e ∈ trace sha w s steps) (ht : e.tracked = some t)
    (hp : p ∈ Touches w t.record.2) : Captured w steps p := by
  induction steps generalizing s with
  | nil => exact absurd he List.not_mem_nil
  | cons step steps ih =>
      rcases List.mem_cons.mp he with rfl | he
      · cases step with
        | outside edit => cases ht
        | undo now target => cases ht
        | record input action =>
            rcases record_outcome sha w s input action with ⟨-, hk⟩ | ⟨-, hc, -⟩
            · rw [traceEntry, writer, applyStep, hk.committed, hok.1.1.id] at ht
              cases ht
            · rw [traceEntry, writer, applyStep, hc, mapGet_mapSet_self] at ht
              cases ht
              obtain ⟨r, hr, hrp⟩ := hp
              obtain ⟨q, hq, rfl⟩ := List.mem_map.mp hr
              exact ⟨input, action, List.mem_cons_self, q, hq, hrp⟩
      · obtain ⟨input, action, hmem, hd⟩ := ih hok.2 he
        exact ⟨input, action, List.mem_cons_of_mem _ hmem, hd⟩

theorem exec_assertCanUndo {us : List (Tracked D H)} {target : Option String}
    (h : ∀ t ∈ us, t.Sound sha w) (hsel : select s.journal target = us.map Tracked.record)
    (hc : ∀ path ∈ topLevelRoots (us.map Tracked.record), Clear s.disk.view (w ++ path)) :
    (exec (assertCanUndo sha w target) s).1 = .ok ⟨⟩ ↔ Matches w us s.disk.view := by
  obtain ⟨blobs, -, hyes, hno⟩ := exec_assert h hc
  rw [assertCanUndo, exec_bind, exec_get]
  dsimp only
  rw [hsel]
  constructor
  · intro hok
    by_contra hm
    obtain ⟨paths, hx⟩ := hno hm
    rw [hx] at hok
    cases hok
  · intro hm
    rw [hyes hm]

/-- Undoing all that a growing history has recorded rewinds the disk. -/
theorem undo_rewinds {us : List (Tracked D H)} {es : List (Event FilePath (Option FileNode))}
    {u : View String Bytes} {target : Option String} (h : Recorded sha w s ts) (hus : us ⊆ ts)
    (hg : GrowsAround sha w us es u s.disk.view) (now : String)
    (hsel : select s.journal target = us.map Tracked.record)
    (hc : ∀ path ∈ topLevelRoots (us.map Tracked.record), Clear s.disk.view (w ++ path))
    (hm : Matches w us s.disk.view) :
    (exec (undo sha w now target) s).2.disk.view = rewound w us s.disk.view ∧
      (us ≠ [] → (exec (undo sha w now target) s).1 = .ok (undoResult (us.map Tracked.record))) := by
  by_cases hne : us = []
  · refine ⟨?_, fun h => absurd hne h⟩
    subst hne
    rw [exec_undo, hsel]
    rfl
  · obtain ⟨d, blobs, hrun, hrew, -⟩ :=
      undo_runs h hus now hsel.symm hne hc ⟨hm, hg.parentsFit⟩
    rw [hrun]
    exact ⟨hg.rewinds hrew, fun _ => rfl⟩

omit [DecidableEq D] [DecidableEq H] in
theorem GrowsAround.rewound_iff {us : List (Tracked D H)}
    {es : List (Event FilePath (Option FileNode))} {u v : View String Bytes} {p : FilePath}
    (h : GrowsAround sha w us es u v) (hp : TouchedByAny w us p) :
    rewound w us v p = u p ↔ SettledBefore es p := by
  have hchain := h.chain p (related_of_touched hp)
  rw [rewound, ← h.recorded]
  refine ⟨hchain.settledBefore Grows.refl Grows.trans Grows.antisymm, fun hs => ?_⟩
  refine hchain.rewind_eq hs ?_
  rwa [h.recorded]

end Run

section Note

theorem confined_rewriteNote (input : RecordInput) (h : ["note"] ∈ input.paths) :
    Confined [] input (fun d => (writeFile ["note"] [1] d, none)) note := by
  intro p hp
  have hne : p ≠ ["note"] := by
    rintro rfl
    exact hp ⟨["note"], h, List.prefix_rfl⟩
  have hb : (p == ["note"]) = false := by simpa using hne
  refine Or.inl ?_
  change (if p = [] then _ else List.lookup p [(["note"], Node.file [1])]) =
    if p = [] then _ else List.lookup p [(["note"], Node.file [0])]
  simp [List.lookup_cons, hb]

def deleteDirectory (path : FilePath) (d : Files) : Files :=
  match d.rmSync path with
  | .ok d' => d'
  | .error _ => d

def makeFile (path : FilePath) (content : Bytes) (d : Files) : Files :=
  match d.mkdirSync path.dropLast with
  | .ok d' => writeFile path content d'
  | .error _ => d

def notes : Files := makeFile ["notes", "today"] [0] .empty

/-- A directory is deleted, and comes back as the missing parent of a file. -/
def deletedAndMade : List HistoryStep :=
  [.record ⟨"t1", "run", 1, [["notes"]]⟩ (fun d => (deleteDirectory ["notes"] d, none)),
    .record ⟨"t2", "run", 2, [["notes", "today"]]⟩
      (fun d => (makeFile ["notes", "today"] [1] d, none))]

end Note

end Kross.Mutation

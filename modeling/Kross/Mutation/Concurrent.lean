import Kross.Mutation.UndoRun
import Mathlib.Data.List.Pairwise

namespace Kross.Mutation

open Kross.FileTree Kross.Prog Kross.Rewind

variable {D H : Type}

/-- What several `record` calls do between their awaits. The journal knows which
of them are in flight: those that are prepared and not yet settled. `restart`
is a crash and the recovery that follows it; a crash in the middle of a rollback
is a piece of work and then a restart. -/
inductive ConcurrentStep
  | prepare (input : RecordInput)
  | work (transactionId : String) (edit : Files → Files)
  | settle (transactionId : String)
  | fail (transactionId : String) (reason : String)
  | restart

/-- A transaction in flight, with the disk it was prepared on and what was
committed by then. -/
structure Flight (D H : Type) where
  prepared : PreparedMutation D H
  before : View String Bytes
  committed : List (String × MutationRecord D H)

def Unrelated (roots roots' : List (MutationRootSnapshot D H)) : Prop :=
  ∀ r ∈ roots, ∀ r' ∈ roots', ¬ r.path <+: r'.path ∧ ¬ r'.path <+: r.path

theorem Unrelated.symm {roots roots' : List (MutationRootSnapshot D H)} (h : Unrelated roots roots') :
    Unrelated roots' roots := fun r hr r' hr' => (h r' hr' r hr).symm

section Steps

variable [DecidableEq D] [DecidableEq H] (sha : Sha256 D H) (w : FilePath)

def whenPrepared (s : MutationState D H) (transactionId : String)
    (m : PreparedMutation D H → MutationM D H Unit) : MutationState D H :=
  match mapGet transactionId s.journal.prepared with
  | some prepared => (exec (m prepared) s).2
  | none => s

def concurrentStep (s : MutationState D H) : ConcurrentStep → MutationState D H
  | .prepare input => prepareState sha w s input
  | .work _ edit => { s with disk := edit s.disk }
  | .settle id => whenPrepared s id (fun prepared =>
      settle sha w prepared (prepared.pre.map (·.path)))
  | .fail id reason => whenPrepared s id (fun prepared => rollBack w prepared reason)
  | .restart => (exec (recoverIncomplete w) s).2

def flightsStep (s : MutationState D H) (fs : List (Flight D H)) : ConcurrentStep → List (Flight D H)
  | .prepare input => fs ++ [⟨preparedOn sha w s.disk input, s.disk.view, s.journal.committed⟩]
  | .work _ _ => fs
  | .settle id | .fail id _ => fs.filter (fun f => f.prepared.transactionId ≠ id)
  | .restart => []

def runConcurrent (s : MutationState D H) (fs : List (Flight D H)) :
    List ConcurrentStep → MutationState D H × List (Flight D H)
  | [] => (s, fs)
  | step :: steps => runConcurrent (concurrentStep sha w s step) (flightsStep sha w s fs step) steps

/-- What the calls keep to. A call is prepared under a new id, its snapshots see
its declared paths, and none in flight has declared a path above or below
them. While an action runs it makes at most directories outside its declared
paths, and no parent of them becomes a file or a link. -/
def ConcurrentOk (s : MutationState D H) : ConcurrentStep → Prop
  | .prepare input =>
      mapGet input.transactionId s.journal.prepared = none ∧
      mapGet input.transactionId s.journal.committed = none ∧
      (∀ p ∈ input.paths, Clear s.disk.view (w ++ p)) ∧
      ∀ e ∈ s.journal.prepared, Unrelated e.2.pre (preparedOn sha w s.disk input).pre
  | .work id edit => ∃ prepared, mapGet id s.journal.prepared = some prepared ∧
      (∀ p, ¬ Covers w prepared.pre p → Grows (s.disk.view p) ((edit s.disk).view p)) ∧
      ∀ r ∈ prepared.pre, Direct (edit s.disk).view (w ++ r.path)
  | _ => True

def ConcurrentStepsOk (s : MutationState D H) : List ConcurrentStep → Prop
  | [] => True
  | step :: steps => ConcurrentOk sha w s step ∧ ConcurrentStepsOk (concurrentStep sha w s step) steps

end Steps

section Flights

variable [DecidableEq D]

/-- The roots of a transaction in flight can be put back, and the directories
they were found in are still there. -/
structure Flight.Ok (sha : Sha256 D H) (w : FilePath) (f : Flight D H) (v : View String Bytes)
    (blobs : List (D × Bytes)) : Prop where
  restorable : ∀ r ∈ f.prepared.pre, Restorable sha w r f.before blobs
  before : ∀ r ∈ f.prepared.pre, Direct f.before (w ++ r.path)
  now : ∀ r ∈ f.prepared.pre, Direct v (w ++ r.path)
  grows : ∀ p, ¬ Covers w f.prepared.pre p → (∃ r ∈ f.prepared.pre, p <+: w ++ r.path) →
    Grows (f.before p) (v p)

structure FlightsOk (sha : Sha256 D H) (w : FilePath) (fs : List (Flight D H))
    (v : View String Bytes) (blobs : List (D × Bytes)) : Prop where
  ok : ∀ f ∈ fs, f.Ok sha w v blobs
  apart : fs.Pairwise (fun f g => Unrelated f.prepared.pre g.prepared.pre)

variable {sha : Sha256 D H} {w : FilePath} {s : MutationState D H} {f g : Flight D H}
  {fs : List (Flight D H)} {v v' : View String Bytes} {blobs : List (D × Bytes)}

omit [DecidableEq D] in
/-- No path above a root of the one lies under a root of the other. -/
theorem not_covers_of_unrelated {roots roots' : List (MutationRootSnapshot D H)}
    (h : Unrelated roots roots') {p : FilePath} (hp : ∃ r ∈ roots', p <+: w ++ r.path) :
    ¬ Covers w roots p := by
  rintro ⟨r, hr, hrp⟩
  obtain ⟨r', hr', hp⟩ := hp
  exact (h r hr r' hr').1 ((List.prefix_append_right_inj w).mp (hrp.trans hp))

/-- A change that stays out of the way of a transaction in flight. -/
theorem Flight.Ok.congr (h : f.Ok sha w v blobs)
    (hv : ∀ p, (∃ r ∈ f.prepared.pre, p <+: w ++ r.path) → Grows (v p) (v' p)) :
    f.Ok sha w v' blobs := by
  refine ⟨h.restorable, h.before, fun r hr => ?_, fun p hc hp => ?_⟩
  · exact Grows.direct (h.now r hr) (fun q hq _ => hv q ⟨r, hr, hq⟩)
  · exact Grows.trans _ _ _ (h.grows p hc hp) (hv p hp)

/-- Rolling back a transaction in flight puts its roots back and changes nothing
else. -/
theorem runs_rollBack_flight (h : f.Ok sha w s.disk.view s.blobs) (reason : String) :
    ∃ d, Runs (rollBack w f.prepared reason) s ⟨⟩
        { s with
          disk := d
          journal := s.journal.apply (.rolledBack f.prepared.transactionId reason) } ∧
      ∀ p, (Covers w f.prepared.pre p → d.view p = f.before p) ∧
        (¬ Covers w f.prepared.pre p → d.view p = s.disk.view p) := by
  obtain ⟨d, hrun, hd⟩ := runs_restoreRoots ⟨h.restorable, h.before, h.now⟩
  have happ : Runs (appendEvent (.rolledBack f.prepared.transactionId reason)) { s with disk := d } ⟨⟩
      { s with
        disk := d
        journal := s.journal.apply (.rolledBack f.prepared.transactionId reason) } := rfl
  refine ⟨d, hrun.bind happ, fun p => ⟨(hd p).1, fun hp => ?_⟩⟩
  rcases (hd p).2 hp with hk | ⟨-, hn, r, hr, hpr, hb⟩
  · exact hk
  · -- a parent that is missing now was missing before, and then there was nothing to restore below
    have hne : p ≠ w ++ r.path := fun he => hp ⟨r, hr, he ▸ List.prefix_rfl⟩
    have hdir := (h.restorable r hr).tree.of_prefix hpr hne hb
    have hgrow := h.grows p hp ⟨r, hr, hpr⟩
    rw [hdir, hn] at hgrow
    rcases hgrow with hgrow | ⟨hgrow, -⟩ <;> cases hgrow

theorem FlightsOk.of_cons (h : FlightsOk sha w (f :: fs) v blobs)
    (hv : ∀ p, ¬ Covers w f.prepared.pre p → v' p = v p) : FlightsOk sha w fs v' blobs := by
  have hp := List.pairwise_cons.mp h.apart
  refine ⟨fun g hg => (h.ok g (List.mem_cons_of_mem _ hg)).congr (fun p hpr => ?_), hp.2⟩
  exact Or.inl (hv p (not_covers_of_unrelated (hp.1 g hg) hpr))

omit [DecidableEq D] in
theorem Unrelated.not_covers {roots roots' : List (MutationRootSnapshot D H)}
    (h : Unrelated roots roots') {p : FilePath} (hp : Covers w roots p) : ¬ Covers w roots' p := by
  obtain ⟨r, hr, hrp⟩ := hp
  rintro ⟨r', hr', hrp'⟩
  have hno := h r hr r' hr'
  rcases List.prefix_or_prefix_of_prefix hrp hrp' with hpre | hpre
  · exact hno.1 ((List.prefix_append_right_inj w).mp hpre)
  · exact hno.2 ((List.prefix_append_right_inj w).mp hpre)

/-- The recovery puts back what was in flight, and nothing else. -/
theorem runs_recover (h : FlightsOk sha w fs s.disk.view s.blobs) (reason : String) :
    ∃ d, Runs ((fs.map Flight.prepared).forM (fun prepared => rollBack w prepared reason)) s ⟨⟩
        { s with
          disk := d
          journal := (fs.map (fun f => .rolledBack f.prepared.transactionId reason)).foldl
            Journal.apply s.journal } ∧
      ∀ p, (∀ f ∈ fs, Covers w f.prepared.pre p → d.view p = f.before p) ∧
        ((∀ f ∈ fs, ¬ Covers w f.prepared.pre p) → d.view p = s.disk.view p) := by
  induction fs generalizing s with
  | nil => exact ⟨s.disk, runs_forM_nil _ _, fun p => ⟨by simp, fun _ => rfl⟩⟩
  | cons f fs ih =>
      obtain ⟨d₁, hrun₁, hd₁⟩ := runs_rollBack_flight (h.ok f List.mem_cons_self) reason
      have hrest := h.of_cons (fun p hp => (hd₁ p).2 hp)
      obtain ⟨d₂, hrun₂, hd₂⟩ := ih (s := { s with
        disk := d₁
        journal := s.journal.apply (.rolledBack f.prepared.transactionId reason) }) hrest
      have hapart := (List.pairwise_cons.mp h.apart).1
      refine ⟨d₂, runs_forM_cons hrun₁ hrun₂, fun p => ⟨fun g hg hp => ?_, fun hp => ?_⟩⟩
      · rcases List.mem_cons.mp hg with rfl | hg
        · rw [(hd₂ p).2 (fun g' hg' => (hapart g' hg').not_covers hp)]
          exact (hd₁ p).1 hp
        · exact (hd₂ p).1 g hg hp
      · rw [(hd₂ p).2 (fun g hg => hp g (List.mem_cons_of_mem _ hg))]
        exact (hd₁ p).2 (hp f List.mem_cons_self)

end Flights

section Invariant

variable [DecidableEq D] [DecidableEq H]

/-- The journal and the flights agree, and no transaction in flight overlaps
with what was committed since it was prepared. -/
structure InFlight (sha : Sha256 D H) (w : FilePath) (s : MutationState D H) (fs : List (Flight D H)) :
    Prop where
  prepared : s.journal.prepared = fs.map (fun f => (f.prepared.transactionId, f.prepared))
  flights : FlightsOk sha w fs s.disk.view s.blobs
  blobs : BlobsOk sha s.blobs
  ids : (fs.map (·.prepared.transactionId)).Nodup
  uncommitted : ∀ f ∈ fs, mapGet f.prepared.transactionId s.journal.committed = none
  since : ∀ f ∈ fs, ∀ e ∈ s.journal.committed,
    e ∈ f.committed ∨ Unrelated e.2.1.pre f.prepared.pre

variable {sha : Sha256 D H} {w : FilePath} {s : MutationState D H} {fs : List (Flight D H)}
  {f g : Flight D H} {id : String}

omit [DecidableEq H] in
theorem FlightsOk.unrelated {v : View String Bytes} {blobs : List (D × Bytes)}
    (h : FlightsOk sha w fs v blobs) (hf : f ∈ fs) (hg : g ∈ fs) (hne : f ≠ g) :
    Unrelated f.prepared.pre g.prepared.pre := by
  have hsymm : Std.Symm (fun f g : Flight D H => Unrelated f.prepared.pre g.prepared.pre) :=
    ⟨fun _ _ hu => hu.symm⟩
  exact h.apart.forall hf hg hne

omit [DecidableEq H] in
theorem FlightsOk.mono {v : View String Bytes} {blobs blobs' : List (D × Bytes)}
    (h : FlightsOk sha w fs v blobs) (hb : BlobsExtend blobs blobs') :
    FlightsOk sha w fs v blobs' :=
  ⟨fun f hf => ⟨fun r hr => ⟨((h.ok f hf).restorable r hr).tree, ((h.ok f hf).restorable r hr).records,
    fun q hq node hn => (((h.ok f hf).restorable r hr).stored q hq node hn).mono hb⟩,
    (h.ok f hf).before, (h.ok f hf).now, (h.ok f hf).grows⟩, h.apart⟩

omit [DecidableEq H] in
theorem FlightsOk.sublist {gs : List (Flight D H)} {v : View String Bytes} {blobs : List (D × Bytes)}
    (h : FlightsOk sha w fs v blobs) (hs : gs.Sublist fs) : FlightsOk sha w gs v blobs :=
  ⟨fun f hf => h.ok f (hs.subset hf), h.apart.sublist hs⟩

omit [DecidableEq H] in
theorem InFlight.exists_flight (h : InFlight sha w s fs) {prepared : PreparedMutation D H}
    (hp : mapGet id s.journal.prepared = some prepared) :
    ∃ f ∈ fs, f.prepared = prepared ∧ prepared.transactionId = id := by
  obtain ⟨l, r, hsplit, -⟩ := List.lookup_eq_some_iff.mp hp
  have hmem : (id, prepared) ∈ s.journal.prepared := by simp [hsplit]
  rw [h.prepared] at hmem
  obtain ⟨f, hf, he⟩ := List.mem_map.mp hmem
  cases he
  exact ⟨f, hf, rfl, rfl⟩

omit [DecidableEq H] in
theorem InFlight.mapGet_flight (h : InFlight sha w s fs) (hf : f ∈ fs) :
    mapGet f.prepared.transactionId s.journal.prepared = some f.prepared := by
  have hkeys : (s.journal.prepared.map Prod.fst).Nodup := by
    rw [h.prepared, List.map_map]
    exact h.ids
  rw [mapGet_eq_some hkeys, h.prepared]
  exact List.mem_map_of_mem hf

omit [DecidableEq H] in
theorem InFlight.not_prepared (h : InFlight sha w s fs) (hp : mapGet id s.journal.prepared = none) :
    ∀ f ∈ fs, f.prepared.transactionId ≠ id := by
  rintro f hf rfl
  refine mapGet_none hp ?_
  rw [h.prepared, List.map_map]
  exact List.mem_map.mpr ⟨f, hf, rfl⟩

omit [DecidableEq D] [DecidableEq H] in
theorem mapDelete_flights (fs : List (Flight D H)) (id : String) :
    mapDelete id (fs.map (fun f => (f.prepared.transactionId, f.prepared))) =
      (fs.filter (fun f => f.prepared.transactionId ≠ id)).map
        (fun f => (f.prepared.transactionId, f.prepared)) := by
  rw [mapDelete, List.filter_map]
  rfl

theorem inFlight_prepare {input : RecordInput} (h : InFlight sha w s fs)
    (hok : ConcurrentOk sha w s (.prepare input)) :
    InFlight sha w (concurrentStep sha w s (.prepare input))
      (flightsStep sha w s fs (.prepare input)) := by
  obtain ⟨hnew, hcommitted, hclear, hapart⟩ := hok
  have hcap := captureBlobs_spec (w := w) (d := s.disk) input.paths h.blobs
  have hflight : Flight.Ok sha w ⟨preparedOn sha w s.disk input, s.disk.view, s.journal.committed⟩
      s.disk.view (prepareState sha w s input).blobs := by
    refine ⟨fun r hr => ?_, fun r hr => ?_, fun r hr => ?_, fun p _ _ => .refl _⟩
    all_goals
      obtain ⟨p, hp, rfl⟩ := List.mem_map.mp hr
    · exact ⟨s.disk.isTree, captureRoot_records sha (hclear p hp), hcap.2.2 p hp (hclear p hp)⟩
    · exact (hclear p hp).direct
    · exact (hclear p hp).direct
  have hold := h.flights.mono hcap.2.1
  refine ⟨?_, ⟨fun f hf => ?_, ?_⟩, hcap.1, ?_, fun f hf => ?_, fun f hf e he => ?_⟩
  · rw [flightsStep, List.map_append, ← h.prepared]
    exact mapSet_of_none _ hnew
  · rcases List.mem_append.mp hf with hf | hf
    · exact hold.ok f hf
    · rw [List.mem_singleton.mp hf]
      exact hflight
  · rw [flightsStep, List.pairwise_append]
    refine ⟨h.flights.apart, by simp, fun f hf g hg => ?_⟩
    rw [List.mem_singleton.mp hg]
    refine hapart (f.prepared.transactionId, f.prepared) ?_
    rw [h.prepared]
    exact List.mem_map_of_mem hf
  · rw [flightsStep, List.map_append, List.nodup_append]
    refine ⟨h.ids, by simp, fun a ha b hb => ?_⟩
    obtain ⟨f, hf, rfl⟩ := List.mem_map.mp ha
    rw [List.map_singleton, List.mem_singleton] at hb
    rw [hb]
    exact h.not_prepared hnew f hf
  · rcases List.mem_append.mp hf with hf | hf
    · exact h.uncommitted f hf
    · rw [List.mem_singleton.mp hf]
      exact hcommitted
  · rcases List.mem_append.mp hf with hf | hf
    · exact h.since f hf e he
    · rw [List.mem_singleton.mp hf]
      exact Or.inl he

theorem inFlight_work {edit : Files → Files} (h : InFlight sha w s fs)
    (hok : ConcurrentOk sha w s (.work id edit)) :
    InFlight sha w (concurrentStep sha w s (.work id edit)) (flightsStep sha w s fs (.work id edit)) := by
  obtain ⟨prepared, hp, hgrows, hdirect⟩ := hok
  obtain ⟨f, hf, rfl, -⟩ := h.exists_flight hp
  refine ⟨h.prepared, ⟨fun g hg => ?_, h.flights.apart⟩, h.blobs, h.ids, h.uncommitted, h.since⟩
  have hg' := h.flights.ok g hg
  by_cases hfg : f = g
  · subst hfg
    exact ⟨hg'.restorable, hg'.before, hdirect,
      fun p hc hpr => Grows.trans _ _ _ (hg'.grows p hc hpr) (hgrows p hc)⟩
  · exact hg'.congr (fun p hpr =>
      hgrows p (not_covers_of_unrelated (h.flights.unrelated hf hg hfg) hpr))

omit [DecidableEq H] in
/-- A transaction that has ended leaves the others in flight. -/
theorem InFlight.ended {s' : MutationState D H} (h : InFlight sha w s fs) (hf : f ∈ fs)
    (hprepared : s'.journal.prepared = mapDelete f.prepared.transactionId s.journal.prepared)
    (hcommitted : ∀ e ∈ s'.journal.committed,
      e ∈ s.journal.committed ∨ (e.1 = f.prepared.transactionId ∧ e.2.1 = f.prepared))
    (hblobs : KeepsBlobs sha s s')
    (hdisk : ∀ p, ¬ Covers w f.prepared.pre p → s'.disk.view p = s.disk.view p) :
    InFlight sha w s' (fs.filter (fun g => g.prepared.transactionId ≠ f.prepared.transactionId)) := by
  have hmem : ∀ g ∈ fs.filter (fun g => g.prepared.transactionId ≠ f.prepared.transactionId),
      g ∈ fs ∧ g.prepared.transactionId ≠ f.prepared.transactionId ∧
        Unrelated f.prepared.pre g.prepared.pre := by
    intro g hg
    obtain ⟨hg, hne⟩ := List.mem_filter.mp hg
    have hne : g.prepared.transactionId ≠ f.prepared.transactionId := by simpa using hne
    exact ⟨hg, hne, h.flights.unrelated hf hg (fun he => hne (by rw [he]))⟩
  have hmono := h.flights.mono (hblobs.extend h.blobs)
  refine ⟨?_, ⟨fun g hg => ?_, h.flights.apart.sublist List.filter_sublist⟩, hblobs.ok h.blobs,
    h.ids.sublist (List.filter_sublist.map _), fun g hg => ?_, fun g hg e he => ?_⟩
  · rw [hprepared, h.prepared, mapDelete_flights]
  · obtain ⟨hg, -, hun⟩ := hmem g hg
    exact (hmono.ok g hg).congr (fun p hp => Or.inl (hdisk p (not_covers_of_unrelated hun hp)))
  · obtain ⟨hg, hne, -⟩ := hmem g hg
    refine List.lookup_eq_none_iff.mpr (fun e he => ?_)
    rcases hcommitted e he with he | ⟨he, -⟩
    · exact List.lookup_eq_none_iff.mp (h.uncommitted g hg) e he
    · simpa [he] using hne
  · obtain ⟨hg, -, hun⟩ := hmem g hg
    rcases hcommitted e he with he | ⟨-, he⟩
    · exact h.since g hg e he
    · exact Or.inr (by rw [he]; exact hun)

omit [DecidableEq H] in
theorem InFlight.filter_self (h : InFlight sha w s fs) (hp : mapGet id s.journal.prepared = none) :
    fs.filter (fun f => f.prepared.transactionId ≠ id) = fs :=
  List.filter_eq_self.mpr (fun f hf => by simpa using h.not_prepared hp f hf)

theorem inFlight_settle (h : InFlight sha w s fs) (id : String) :
    InFlight sha w (concurrentStep sha w s (.settle id)) (flightsStep sha w s fs (.settle id)) := by
  rw [concurrentStep, flightsStep, whenPrepared]
  cases hp : mapGet id s.journal.prepared with
  | none =>
      rw [h.filter_self hp]
      exact h
  | some prepared =>
      obtain ⟨f, hf, rfl, rfl⟩ := h.exists_flight hp
      dsimp only
      rw [runs_settle sha w hp]
      have hprep : ∀ event, event = settleEvent f.prepared
          ((f.prepared.pre.map (·.path)).map (captureRoot sha w s.disk)) →
          (s.journal.apply event).prepared = mapDelete f.prepared.transactionId s.journal.prepared ∧
          ∀ e ∈ (s.journal.apply event).committed, e ∈ s.journal.committed ∨
            (e.1 = f.prepared.transactionId ∧ e.2.1 = f.prepared) := by
        rintro event rfl
        rw [settleEvent]
        split_ifs
        · exact ⟨rfl, fun e he => Or.inl he⟩
        · rw [Journal.apply, hp]
          refine ⟨rfl, fun e he => ?_⟩
          rcases mem_mapSet he with rfl | he
          · exact Or.inr ⟨rfl, rfl⟩
          · exact Or.inl he
      obtain ⟨h1, h2⟩ := hprep _ rfl
      exact h.ended hf h1 h2 (keepsBlobs_captureBlobs _ _ rfl) (fun _ _ => rfl)

/-- What the rollback of a transaction in flight does. -/
theorem fail_spec (h : InFlight sha w s fs) (hf : f ∈ fs) (reason : String) :
    (concurrentStep sha w s (.fail f.prepared.transactionId reason)).journal =
        s.journal.apply (.rolledBack f.prepared.transactionId reason) ∧
      (concurrentStep sha w s (.fail f.prepared.transactionId reason)).blobs = s.blobs ∧
      ∀ p, (Covers w f.prepared.pre p →
          (concurrentStep sha w s (.fail f.prepared.transactionId reason)).disk.view p = f.before p) ∧
        (¬ Covers w f.prepared.pre p →
          (concurrentStep sha w s (.fail f.prepared.transactionId reason)).disk.view p =
            s.disk.view p) := by
  obtain ⟨d, hrun, hd⟩ := runs_rollBack_flight (h.flights.ok f hf) reason
  rw [concurrentStep, whenPrepared, h.mapGet_flight hf]
  dsimp only
  rw [hrun]
  exact ⟨rfl, rfl, hd⟩

theorem inFlight_fail (h : InFlight sha w s fs) (id reason : String) :
    InFlight sha w (concurrentStep sha w s (.fail id reason))
      (flightsStep sha w s fs (.fail id reason)) := by
  cases hp : mapGet id s.journal.prepared with
  | none =>
      rw [concurrentStep, flightsStep, whenPrepared, hp, h.filter_self hp]
      exact h
  | some prepared =>
      obtain ⟨f, hf, rfl, rfl⟩ := h.exists_flight hp
      obtain ⟨hj, hb, hd⟩ := fail_spec h hf reason
      refine h.ended hf (by rw [hj]; rfl) (fun e he => ?_) ?_ (fun p hc => (hd p).2 hc)
      · rw [hj] at he
        exact Or.inl he
      · exact ⟨fun _ => by rw [hb]; exact fun _ _ hr => hr, fun ok => by rw [hb]; exact ok⟩

omit [DecidableEq D] [DecidableEq H] in
theorem rolledBack_foldl (fs : List (Flight D H)) (reason : String)
    (j : Journal (PreparedMutation D H) (List (MutationRootSnapshot D H))) :
    let j' := (fs.map (fun f => MutationEvent.rolledBack f.prepared.transactionId reason)).foldl
      Journal.apply j
    j'.committed = j.committed ∧
      (∀ e, e ∈ j'.prepared ↔ e ∈ j.prepared ∧ ∀ f ∈ fs, f.prepared.transactionId ≠ e.1) ∧
      ∀ i, i ∈ j'.inactive ↔ i ∈ j.inactive ∨ ∃ f ∈ fs, f.prepared.transactionId = i := by
  induction fs generalizing j with
  | nil => simp
  | cons f fs ih =>
      obtain ⟨h1, h2, h3⟩ := ih (j.apply (.rolledBack f.prepared.transactionId reason))
      refine ⟨h1, fun e => ?_, fun i => ?_⟩
      · rw [List.map_cons, List.foldl_cons, h2]
        simp only [Journal.apply, mapDelete, List.mem_filter, decide_eq_true_eq, List.forall_mem_cons,
          and_assoc, ne_comm]
      · have hone : i ∈ (j.apply (.rolledBack f.prepared.transactionId reason)).inactive ↔
            i ∈ j.inactive ∨ f.prepared.transactionId = i := by
          rw [Journal.apply]
          dsimp only
          split_ifs with hin
          · exact ⟨Or.inl, fun h => h.elim id (fun h => h ▸ hin)⟩
          · simp [eq_comm]
        rw [List.map_cons, List.foldl_cons, h3, hone]
        simp [or_assoc]

/-- What the recovery after a crash does. -/
theorem restart_spec (h : InFlight sha w s fs) :
    (concurrentStep sha w s .restart).journal.prepared = [] ∧
      (concurrentStep sha w s .restart).journal.committed = s.journal.committed ∧
      (∀ i, i ∈ (concurrentStep sha w s .restart).journal.inactive ↔
        i ∈ s.journal.inactive ∨ ∃ f ∈ fs, f.prepared.transactionId = i) ∧
      (concurrentStep sha w s .restart).blobs = s.blobs ∧
      ∀ p, (∀ f ∈ fs, Covers w f.prepared.pre p →
          (concurrentStep sha w s .restart).disk.view p = f.before p) ∧
        ((∀ f ∈ fs, ¬ Covers w f.prepared.pre p) →
          (concurrentStep sha w s .restart).disk.view p = s.disk.view p) := by
  obtain ⟨d, hrun, hd⟩ := runs_recover h.flights "recovered-incomplete"
  have hlist : s.journal.listIncomplete = fs.map Flight.prepared := by
    rw [Journal.listIncomplete, h.prepared, List.map_map]
    rfl
  have hx : concurrentStep sha w s .restart = { s with
      disk := d
      journal := (fs.map (fun f => MutationEvent.rolledBack f.prepared.transactionId
        "recovered-incomplete")).foldl Journal.apply s.journal } := by
    rw [concurrentStep, recoverIncomplete, exec_bind, exec_get]
    dsimp only
    rw [hlist, hrun]
  obtain ⟨h1, h2, h3⟩ := rolledBack_foldl fs "recovered-incomplete" s.journal
  rw [hx]
  refine ⟨List.eq_nil_iff_forall_not_mem.mpr (fun e he => ?_), h1, h3, rfl, hd⟩
  obtain ⟨hmem, hno⟩ := (h2 e).mp he
  rw [h.prepared] at hmem
  obtain ⟨f, hf, rfl⟩ := List.mem_map.mp hmem
  exact hno f hf rfl

theorem inFlight_step {step : ConcurrentStep} (h : InFlight sha w s fs)
    (hok : ConcurrentOk sha w s step) :
    InFlight sha w (concurrentStep sha w s step) (flightsStep sha w s fs step) := by
  cases step with
  | prepare input => exact inFlight_prepare h hok
  | work id edit => exact inFlight_work h hok
  | settle id => exact inFlight_settle h id
  | fail id reason => exact inFlight_fail h id reason
  | restart =>
      obtain ⟨hp, -, -, hb, -⟩ := restart_spec h
      rw [flightsStep]
      exact ⟨hp, ⟨by simp, by simp⟩, by rw [hb]; exact h.blobs, by simp, by simp, by simp⟩

theorem inFlight_run {steps : List ConcurrentStep} (h : InFlight sha w s fs)
    (hok : ConcurrentStepsOk sha w s steps) :
    InFlight sha w (runConcurrent sha w s fs steps).1 (runConcurrent sha w s fs steps).2 := by
  induction steps generalizing s fs with
  | nil => exact h
  | cons step steps ih => exact ih (inFlight_step h hok.1) hok.2

/-- A rollback reverts no change that was committed since the transaction was
prepared; a recovery puts each path of an incomplete transaction back to what
the transaction found, and takes nothing back that was committed. -/
structure ConcurrencySafe (sha : Sha256 D H) (w : FilePath) (s : MutationState D H)
    (fs : List (Flight D H)) : Prop where
  rollback : ∀ f ∈ fs, ∀ reason, ∀ e ∈ s.journal.committed, e ∉ f.committed →
    ∀ p, Covers w e.2.1.pre p →
      (concurrentStep sha w s (.fail f.prepared.transactionId reason)).disk.view p = s.disk.view p
  recovers : ∀ f ∈ fs, ∀ p, Covers w f.prepared.pre p →
    (concurrentStep sha w s .restart).disk.view p = f.before p
  keepsFiles : ∀ p, (∀ f ∈ fs, ¬ Covers w f.prepared.pre p) →
    (concurrentStep sha w s .restart).disk.view p = s.disk.view p
  keepsCommitted : ∀ e ∈ s.journal.committed, e ∈ (concurrentStep sha w s .restart).journal.committed ∧
    (e.1 ∈ (concurrentStep sha w s .restart).journal.inactive → e.1 ∈ s.journal.inactive) ∧
    ∀ f ∈ fs, ∀ p, Covers w e.2.1.pre p → Covers w f.prepared.pre p → e ∈ f.committed

omit [DecidableEq H] in
theorem inFlight_newService (sha : Sha256 D H) (w : FilePath) (d : Files) :
    InFlight sha w (newService d) [] :=
  ⟨rfl, ⟨by simp, by simp⟩, by simp [BlobsOk, newService], by simp, by simp, by simp⟩

end Invariant

variable [DecidableEq D] [DecidableEq H] {sha : Sha256 D H} {w : FilePath}

/-- A call of `record` that nothing interrupts takes these steps. -/
def recordSteps (input : RecordInput) (action : Action) (d : Files) : List ConcurrentStep :=
  [.prepare input, .work input.transactionId (fun d => (action d).1),
    match (action d).2 with
    | none => .settle input.transactionId
    | some message => .fail input.transactionId message]

theorem record_eq_steps (s : MutationState D H) (input : RecordInput) (action : Action)
    (hp : input.paths.find? (fun path => !isWritablePath s.disk.view w path) = none) :
    (exec (record sha w input action) s).2 =
      (recordSteps input action s.disk).foldl (concurrentStep sha w) s := by
  have hprep : mapGet input.transactionId (workedState sha w s input action).journal.prepared =
      some (preparedOn sha w s.disk input) := mapGet_mapSet_self _ _ _
  have hpaths : (preparedOn sha w s.disk input).pre.map (·.path) = input.paths := by
    simp [preparedOn, captureRoot, Function.comp_def]
  have hwork : concurrentStep sha w (concurrentStep sha w s (.prepare input))
      (.work input.transactionId (fun d => (action d).1)) = workedState sha w s input action := rfl
  rw [exec_record, hp, recordSteps, List.foldl_cons, List.foldl_cons, hwork, List.foldl_cons,
    List.foldl_nil]
  cases (action s.disk).2 with
  | none =>
      dsimp only
      rw [concurrentStep, whenPrepared, hprep]
      dsimp only
      rw [hpaths, runs_settle sha w hprep]
  | some message =>
      dsimp only
      rw [concurrentStep, whenPrepared, hprep]
      dsimp only
      generalize exec (rollBack w (preparedOn sha w s.disk input) message)
        (workedState sha w s input action) = x
      obtain ⟨_ | _, _⟩ := x <;> rfl

section Note

/-- Two calls write to the note at once. -/
def rivals : List ConcurrentStep :=
  [.prepare ⟨"t1", "run", 1, [["note"]]⟩, .prepare ⟨"t2", "run", 2, [["note"]]⟩,
    .work "t2" (writeFile ["note"] [2]), .settle "t2"]

/-- One call is at work. -/
def writer₁ : List ConcurrentStep :=
  [.prepare ⟨"t1", "run", 1, [["note"]]⟩, .work "t1" (writeFile ["note"] [1])]

end Note

end Kross.Mutation

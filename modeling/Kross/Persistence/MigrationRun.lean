import Kross.Persistence.MigrationSound

namespace Kross.Persistence

open Kross.Json Kross.FaultM

variable {B : Type} {fault : Option (Fault Site (Option B))} {s : State B} {planned : List (PlannedFile B)} {stamp : Nat}
  {lock : Option (Node B)} {now old : String → Option (Option B)}

section Apply

theorem spares_rollback {kills : Bool} {sites : Site → Prop} (h : Strikes fault kills sites)
    (hs : ∀ site, sites site → ∀ n, ¬Site.Replacing .rollback n site ∧ site ≠ .cleanUp .rollback n) (n : String) :
    Spares fault (Site.Replacing .rollback n) ∧ Spares fault (· = .cleanUp .rollback n) := by
  obtain ⟨f, hf, -, hsite⟩ := h
  constructor
  · intro f' hf' hs'
    rw [hf] at hf'
    cases hf'
    exact (hs _ hsite n).1 hs'
  · intro f' hf' hs'
    rw [hf] at hf'
    cases hf'
    exact (hs _ hsite n).2 hs'

theorem preparing_not_rollback {site : Site} (h : site.Preparing planned) (n : String) :
    ¬Site.Replacing .rollback n site ∧ site ≠ .cleanUp .rollback n := by
  constructor
  · rintro (rfl | rfl | rfl) <;> exact h
  · rintro rfl
    exact h

theorem writing_not_rollback {site : Site} {relativePath : String}
    (h : site.Replacing .apply relativePath ∨ site = .cleanUp .apply relativePath) (n : String) :
    ¬Site.Replacing .rollback n site ∧ site ≠ .cleanUp .rollback n := by
  rcases h with (rfl | rfl | rfl) | rfl <;> simp [Site.Replacing]

/-- The calls that write a planned file, but for the last one. -/
def Site.Writing (planned : List (PlannedFile B)) (site : Site) : Prop :=
  ∃ file ∈ planned, site.Replacing .apply file.relativePath

/-- The clean-up behind the replacement of a planned file. -/
def Site.Cleaning (planned : List (PlannedFile B)) (site : Site) : Prop :=
  ∃ file ∈ planned, site = .cleanUp .apply file.relativePath

/-- What the rollback leaves where the files in `done` were written. -/
theorem restored_eq {done : List (PlannedFile B)} :
    (fun n => if n ∈ done.map PlannedFile.relativePath then old n else migratedBy done old n) = old := by
  funext n
  split_ifs with hn
  · rfl
  · exact migratedBy_of_not_mem hn

theorem restored_concat {done : List (PlannedFile B)} {file : PlannedFile B}
    (h : file.relativePath ∉ done.map PlannedFile.relativePath) :
    (fun n => if n ∈ done.map PlannedFile.relativePath then old n else migratedBy (done ++ [file]) old n) =
      Function.update old file.relativePath (some (some file.after)) := by
  rw [migratedBy_concat h]
  funext n
  rw [Function.update_apply, Function.update_apply]
  by_cases hn : n ∈ done.map PlannedFile.relativePath
  · have hne : n ≠ file.relativePath := by
      rintro rfl
      exact h hn
    rw [if_pos hn, if_neg hne]
  · rw [if_neg hn, migratedBy_of_not_mem hn]

variable [DecidableEq B]

/-- How the part under the lock ends, if the process is not killed. -/
def Applied (stamp : Nat) (lock : Option (Node B)) (old : String → Option (Option B)) (planned : List (PlannedFile B))
    (fault : Option (Fault Site (Option B))) (report : Report B) (s : State B) : Prop :=
  (report.error = none ∧ Stands stamp lock (migratedBy planned old) s ∧ Spares fault (Site.Preparing planned) ∧
    Spares fault (Site.Writing planned) ∧ Spares fault (Site.Cleaning planned)) ∨
  (report.error.isSome = true ∧ Stands stamp lock old s ∧
    Strikes fault false (fun site => site.Preparing planned ∨ site.Writing planned)) ∨
  (report.error.isSome = true ∧ ∃ file ∈ planned, Strikes fault false (· = .cleanUp .apply file.relativePath) ∧
    Stands stamp lock (Function.update old file.relativePath (some (some file.after))) s)

omit [DecidableEq B] in
theorem ends_rollBack (hnodup : (planned.map PlannedFile.relativePath).Nodup) {error : MigrationError}
    (hbefore : ∀ file ∈ planned, old file.relativePath = some (some file.before)) (h : Stands stamp lock now s)
    (hstops : now = old ∧ s.written = [] ∧ Strikes fault false (Site.Preparing planned) ∨
      StopsAt old now planned s.written fault false) :
    Ends fault
      (attempt
        (do
          let written ← ask State.written
          restoreAll stamp written
          pure ⟨.rolledBack, planned, some (.error error)⟩)
        (fun rollbackError => pure ⟨.blocked, planned, some (.rollbackFailed error rollbackError)⟩) : MigrationM B (Report B)) s
      (Applied stamp lock old planned fault) (fun _ _ => False) (fun _ => False) := by
  have hspares : ∀ n, Spares fault (Site.Replacing .rollback n) ∧ Spares fault (· = .cleanUp .rollback n) := by
    rcases hstops with ⟨-, -, hstrikes⟩ | ⟨file, rest, -, ⟨-, hstrikes⟩ | ⟨-, hstrikes⟩⟩
    · exact spares_rollback hstrikes (fun _ => preparing_not_rollback)
    · exact spares_rollback hstrikes (fun _ hs => writing_not_rollback (Or.inl hs))
    · exact spares_rollback hstrikes (fun _ hs => writing_not_rollback (Or.inr hs))
  have hwritten : ∀ file ∈ s.written, old file.relativePath = some (some file.before) := by
    rcases hstops with ⟨-, hnil, -⟩ | ⟨file, rest, hplanned, -⟩
    · rw [hnil]
      nofun
    · intro file' hfile'
      refine hbefore file' ?_
      rw [hplanned]
      exact List.mem_append_left _ hfile'
  have hbody : Ends fault
      (do
        let written ← ask State.written
        restoreAll stamp written
        pure ⟨.rolledBack, planned, some (.error error)⟩ : MigrationM B (Report B)) s
      (Applied stamp lock old planned fault) (fun _ _ => False) (fun _ => False) := by
    refine Ends.bind ends_ask (fun written s' hask => ?_)
    obtain ⟨rfl, rfl⟩ := hask
    refine (ends_restoreAll h hwritten hspares).bind (fun _ s'' hrestored => ends_pure ?_)
    rcases hstops with ⟨rfl, -, hstrikes⟩ | ⟨file, rest, hplanned, ⟨rfl, hstrikes⟩ | ⟨rfl, hstrikes⟩⟩
    · refine Or.inr (Or.inl ⟨rfl, ?_, hstrikes.mono (fun _ => Or.inl)⟩)
      simpa using hrestored
    · refine Or.inr (Or.inl ⟨rfl, ?_, hstrikes.mono (fun _ hs => Or.inr ⟨file, ?_, hs⟩)⟩)
      · rwa [restored_eq] at hrestored
      · rw [hplanned]
        exact List.mem_append_right _ List.mem_cons_self
    · have hnew : file.relativePath ∉ s'.written.map PlannedFile.relativePath := by
        rw [hplanned, List.map_append, List.map_cons] at hnodup
        exact fun hmem => (List.nodup_append.mp hnodup).2.2 _ hmem _ List.mem_cons_self rfl
      rw [restored_concat hnew] at hrestored
      refine Or.inr (Or.inr ⟨rfl, file, ?_, hstrikes, hrestored⟩)
      rw [hplanned]
      exact List.mem_append_right _ List.mem_cons_self
  exact hbody.attempt (fun _ _ h => h.elim)

/-- How the process is killed in the part under the lock. -/
def KilledAt (lock : Option (Node B)) (old : String → Option (Option B)) (planned : List (PlannedFile B))
    (fault : Option (Fault Site (Option B))) (s : State B) : Prop :=
  s.files .lock = lock ∧ (contents s.files = old ∧ Strikes fault true (Site.Preparing planned) ∨
    ∃ done, StopsAt old (contents s.files) planned done fault true)

theorem stands_untouched {s' : State B} (h : Stands stamp lock now s) (hs : Untouched s s') : Stands stamp lock now s' :=
  ⟨(contents_untouched hs).trans h.contents, (hs.2 .lock (by simp) (by simp)).trans h.lock,
    fun n => (hs.2 (.temporary n stamp) (by simp) (by simp)).trans (h.tidy n)⟩

theorem spares_preparing (hreread : ∀ file ∈ planned, Spares fault (· = .reread file.relativePath))
    (hmake : Spares fault (· = .makeBackup)) (hmanifest : Spares fault (· = .manifest))
    (hbacksUp : ∀ file ∈ planned, Spares fault (Site.BacksUp file.relativePath)) : Spares fault (Site.Preparing planned) := by
  intro f hf hs
  cases hsite : f.site with
  | makeBackup => exact hmake f hf hsite
  | manifest => exact hmanifest f hf hsite
  | reread n =>
      rw [hsite] at hs
      obtain ⟨file, hfile, rfl⟩ := List.mem_map.mp hs
      exact hreread file hfile f hf hsite
  | makeBackupDirectory n =>
      rw [hsite] at hs
      obtain ⟨file, hfile, rfl⟩ := List.mem_map.mp hs
      exact hbacksUp file hfile f hf (Or.inl hsite)
  | copy n =>
      rw [hsite] at hs
      obtain ⟨file, hfile, rfl⟩ := List.mem_map.mp hs
      exact hbacksUp file hfile f hf (Or.inr (Or.inl hsite))
  | protect n =>
      rw [hsite] at hs
      obtain ⟨file, hfile, rfl⟩ := List.mem_map.mp hs
      exact hbacksUp file hfile f hf (Or.inr (Or.inr hsite))
  | stat | read | makeRoot | openLock | create | chmod | rename | cleanUp | closeLock | removeLock =>
      rw [hsite] at hs
      exact hs

theorem ends_applyPlanned (manifest : B) (hnodup : (planned.map PlannedFile.relativePath).Nodup)
    (hbefore : ∀ file ∈ planned, old file.relativePath = some (some file.before)) (h : Stands stamp lock old s)
    (hwritten : s.written = []) (hplanned : AsPlanned planned s) :
    Ends fault (applyPlanned stamp manifest planned) s (Applied stamp lock old planned fault) (fun _ _ => False)
      (KilledAt lock old planned fault) := by
  have hbody : Ends fault
      (do
        assertPlansUnchanged planned
        backupMigration manifest planned
        writeAll stamp planned
        pure ⟨.applied, planned, none⟩ : MigrationM B (Report B)) s
      (Applied stamp lock old planned fault)
      (fun _ s' => ∃ now, Stands stamp lock now s' ∧ (now = old ∧ s'.written = [] ∧
        Strikes fault false (Site.Preparing planned) ∨ StopsAt old now planned s'.written fault false))
      (KilledAt lock old planned fault) := by
    refine (Ends.mono (ends_assertPlansUnchanged hplanned) (fun _ _ h => h) (fun _ s' herror => ?_)
      (fun s' hkilled => ?_)).bind (fun _ s₁ h₁ => ?_)
    · exact ⟨old, herror.1 ▸ h, Or.inl ⟨rfl, herror.1 ▸ hwritten, herror.2⟩⟩
    · exact ⟨hkilled.1 ▸ h.lock, Or.inl ⟨hkilled.1 ▸ h.contents, hkilled.2⟩⟩
    obtain ⟨rfl, hreread⟩ := h₁
    refine (Ends.mono (ends_backupMigration manifest hplanned) (fun _ _ h => h) (fun _ s' herror => ?_)
      (fun s' hkilled => ?_)).bind (fun _ s₂ h₂ => ?_)
    · exact ⟨old, stands_untouched h herror.1, Or.inl ⟨rfl, herror.1.1.trans hwritten, herror.2⟩⟩
    · have hstands := stands_untouched h hkilled.1
      exact ⟨hstands.lock, Or.inl ⟨hstands.contents, hkilled.2⟩⟩
    · obtain ⟨hsame, hmake, hmanifest, hbacksUp⟩ := h₂
      have hpreparing := spares_preparing hreread hmake hmanifest hbacksUp
      refine (Ends.mono (ends_writeAll hnodup (stands_untouched h hsame) (hsame.1.trans hwritten)) (fun _ _ h => h)
        (fun _ s' herror => ?_) (fun s' hkilled => ?_)).bind (fun _ s₃ h₃ => ends_pure ?_)
      · obtain ⟨now, hstands, hstops⟩ := herror
        exact ⟨now, hstands, Or.inr hstops⟩
      · exact ⟨hkilled.1, Or.inr hkilled.2⟩
      · refine Or.inl ⟨rfl, h₃.1, hpreparing, ?_, ?_⟩
        · rintro f hf ⟨file, hfile, hs⟩
          exact (h₃.2 file hfile).1 f hf hs
        · rintro f hf ⟨file, hfile, hs⟩
          exact (h₃.2 file hfile).2 f hf hs
  refine hbody.attempt (fun error s' herror => ?_)
  obtain ⟨now, hstands, hstops⟩ := herror
  exact Ends.mono (ends_rollBack hnodup hbefore hstands hstops) (fun _ _ h => h) (fun _ _ h => h) (fun _ h => h.elim)

end Apply

section Run

variable [DecidableEq B] {buffers : Buffers B} {migration : Migration} {manifest : B}

/-- The calls at which the end of the process leaves the lock behind with a file that is
not migrated. -/
def Site.Endangers (planned : List (PlannedFile B)) (site : Site) : Prop :=
  site.Preparing planned ∨ site.Writing planned ∨ site.Cleaning planned.dropLast

/-- The fault that a migration of these files does not survive: the clean-up behind one of
several replacements fails, or the process is killed with the lock taken. -/
def Harmful (planned : List (PlannedFile B)) (fault : Fault Site (Option B)) : Prop :=
  fault.kills = false ∧ 2 ≤ planned.length ∧ fault.site.Cleaning planned ∨
    fault.kills = true ∧ planned ≠ [] ∧
      (fault.site.Endangers planned ∨ fault.site = .openLock ∧ fault.left ≠ none)

/-- The disk before a run: the targets, and nothing of a migration. -/
def start (targets : String → Option (Node B)) : State B where
  files
    | .target n => targets n
    | _ => none
  written := []

omit [DecidableEq B] in
theorem stands_start (targets : String → Option (Node B)) (stamp : Nat) :
    Stands stamp none (contents (start targets).files) (start targets) := ⟨rfl, rfl, fun _ => rfl⟩

omit [DecidableEq B] in
theorem ends_acquireLock (h : s.files .lock = none) (content : B) :
    Ends fault (acquireLock content) s
      (fun locked s' => locked = true ∧ s' = s.put .lock (some (.file content 0o600)) ∧
          (∀ f, fault = some f → f.site ≠ .openLock) ∨
        locked = false ∧ contents s'.files = contents s.files ∧ Strikes fault false (· = .openLock))
      (fun _ _ => False)
      (fun s' => (∃ left, fault = some ⟨.openLock, true, left⟩ ∧ s' = tornFile .lock left s)) := by
  have hwrite : Ends fault (writeNew .openLock .lock content 0o600) s
      (fun _ s' => s' = s.put .lock (some (.file content 0o600)) ∧ ∀ f, fault = some f → f.site ≠ .openLock)
      (fun _ s' => contents s'.files = contents s.files ∧ Strikes fault false (· = .openLock))
      (fun s' => (∃ left, fault = some ⟨.openLock, true, left⟩ ∧ s' = tornFile .lock left s)) := by
    rw [writeNew, change]
    refine ends_step (fun left hf => ⟨?_, strikes_of hf rfl⟩) (fun left hf => ⟨left, hf, rfl⟩) (fun hmiss a s' heffect => ?_)
      (fun _ e heffect => ?_)
    · cases left with
      | none => rfl
      | some content => exact contents_put_other (by simp)
    · rw [h] at heffect
      cases heffect
      exact ⟨rfl, hmiss⟩
    · rw [h] at heffect
      cases heffect
  refine Ends.attempt (hwrite.bind (fun _ s' hok => ends_pure (Or.inl ⟨rfl, hok⟩))) (fun e s' herror => ends_pure (Or.inr ⟨rfl, herror⟩))

/-- How a run ends that has something to migrate and finds no lock. -/
def Reported (old : String → Option (Option B)) (planned : List (PlannedFile B)) (fault : Option (Fault Site (Option B)))
    (report : Report B) (s : State B) : Prop :=
  (report.error = none ∧ contents s.files = migratedBy planned old ∧ Spares fault (Site.Endangers planned) ∧
    Spares fault (Site.Cleaning planned) ∧ Spares fault (· = .openLock)) ∨
  (report.error.isSome = true ∧ contents s.files = old ∧ Strikes fault false (fun site => ¬site.Cleaning planned)) ∨
  ∃ file ∈ planned, Strikes fault false (· = .cleanUp .apply file.relativePath) ∧
    contents s.files = Function.update old file.relativePath (some (some file.after))

def Site.Unlocking (site : Site) : Prop := site = .closeLock ∨ site = .removeLock

def Thrown (old : String → Option (Option B)) (planned : List (PlannedFile B)) (fault : Option (Fault Site (Option B)))
    (s : State B) : Prop :=
  (contents s.files = old ∨ contents s.files = migratedBy planned old) ∧
    Strikes fault false (fun site => ¬site.Cleaning planned)

/-- How a run is killed that began in the state `s`. -/
def Killed (old : String → Option (Option B)) (planned : List (PlannedFile B)) (fault : Option (Fault Site (Option B)))
    (s s' : State B) : Prop :=
  s' = s ∧ Strikes fault true (fun site => ¬site.Endangers planned ∧ site ≠ .openLock) ∨
    (∃ left, fault = some ⟨.openLock, true, left⟩ ∧ s' = tornFile .lock left s) ∨
    s'.files .lock ≠ none ∧ (contents s'.files = old ∧ Strikes fault true (Site.Preparing planned) ∨
      ∃ done, StopsAt old (contents s'.files) planned done fault true) ∨
    contents s'.files = migratedBy planned old ∧ Strikes fault true Site.Unlocking

omit [DecidableEq B] in
theorem not_both {kills kills' : Bool} {sites sites' : Site → Prop} (h : Strikes fault kills sites)
    (h' : Strikes fault kills' sites') (hdisjoint : ∀ site, sites site → ¬sites' site) : False := by
  obtain ⟨f, hf, -, hs⟩ := h
  obtain ⟨f', hf', -, hs'⟩ := h'
  rw [hf] at hf'
  cases hf'
  exact hdisjoint _ hs hs'

/-- The lock is given back after the files are migrated, or after a fault that cannot
strike again. -/
theorem ends_unlock {report : Report B} (h : Applied stamp lock old planned fault report s)
    (hopen : Spares fault (· = .openLock)) :
    Ends fault
      (do
        look .closeLock (fun _ => .ok ())
        remove .removeLock .lock : MigrationM B Unit) s
      (fun _ s' => Reported old planned fault report s') (fun _ s' => Thrown old planned fault s')
      (fun s' => contents s'.files = migratedBy planned old ∧
        Strikes fault true Site.Unlocking) := by
  have hstruck : ∀ kills, Strikes fault kills Site.Unlocking →
      contents s.files = migratedBy planned old := by
    intro kills hstrikes
    rcases h with ⟨-, hstands, -⟩ | ⟨-, -, hother⟩ | ⟨-, file, -, hother, -⟩
    · exact hstands.contents
    · refine (not_both hstrikes hother ?_).elim
      rintro _ (rfl | rfl) (hs | ⟨file, -, hs | hs | hs⟩) <;> cases hs
    · refine (not_both hstrikes hother ?_).elim
      rintro _ (rfl | rfl) hs <;> cases hs
  have hfree : ∀ site : Site, site = .closeLock ∨ site = .removeLock → ¬site.Cleaning planned := by
    rintro _ (rfl | rfl) ⟨file, -, hs⟩ <;> cases hs
  have hreported : ∀ s', contents s'.files = contents s.files → Reported old planned fault report s' := by
    intro s' hsame
    rcases h with ⟨hreport, hstands, hpreparing, hwriting, hcleaning⟩ | ⟨hreport, hstands, hstrikes⟩ |
        ⟨hreport, file, hfile, hstrikes, hstands⟩
    · refine Or.inl ⟨hreport, hsame.trans hstands.contents, fun f hf hs => ?_, hcleaning, hopen⟩
      rcases hs with hs | hs | ⟨file, hfile, hs⟩
      · exact hpreparing f hf hs
      · exact hwriting f hf hs
      · exact hcleaning f hf ⟨file, List.dropLast_subset _ hfile, hs⟩
    · refine Or.inr (Or.inl ⟨hreport, hsame.trans hstands.contents, hstrikes.mono (fun site hs => ?_)⟩)
      rintro ⟨file, -, rfl⟩
      rcases hs with hs | ⟨file', -, hs | hs | hs⟩ <;> cases hs
    · exact Or.inr (Or.inr ⟨file, hfile, hstrikes, hsame.trans hstands.contents⟩)
  refine (Ends.mono ends_look (fun _ _ hok => hok) (fun e s' herror => ?_) (fun s' hkilled => ?_)).bind
    (fun _ s' hok => ?_)
  · obtain ⟨rfl, hstrikes | ⟨error, heffect, -⟩⟩ := herror
    · have hclose : Strikes fault false Site.Unlocking := hstrikes.mono (fun _ hs => Or.inl hs)
      exact ⟨Or.inr (hstruck false hclose), hclose.mono hfree⟩
    · cases heffect
  · obtain ⟨rfl, hstrikes⟩ := hkilled
    have hclose : Strikes fault true Site.Unlocking := hstrikes.mono (fun _ hs => Or.inl hs)
    exact ⟨hstruck true hclose, hclose⟩
  · obtain ⟨rfl, -, -⟩ := hok
    refine Ends.mono (ends_change rfl) (fun _ s'' hremoved => ?_) (fun _ s'' herror => ?_) (fun s'' hkilled => ?_)
    · refine hreported s'' ?_
      rw [hremoved.1]
      exact contents_put_other (by simp)
    · obtain ⟨⟨left, rfl⟩, hstrikes⟩ := herror
      have hremove : Strikes fault false Site.Unlocking := hstrikes.mono (fun _ hs => Or.inr hs)
      exact ⟨Or.inr (hstruck false hremove), hremove.mono hfree⟩
    · obtain ⟨⟨left, rfl⟩, hstrikes⟩ := hkilled
      have hremove : Strikes fault true Site.Unlocking := hstrikes.mono (fun _ hs => Or.inr hs)
      exact ⟨hstruck true hremove, hremove⟩

omit [DecidableEq B] in
theorem not_endangers_planning {site : Site} (h : site.Planning) : ¬site.Endangers planned := by
  rintro (hs | ⟨file, -, rfl | rfl | rfl⟩ | ⟨file, -, rfl⟩)
  · cases site with
    | stat | read => exact hs
    | _ => exact h
  all_goals exact h

theorem ends_runMigrations (h : planOf buffers s.files migration.candidates = .ok planned) (hne : planned ≠ [])
    (hs : Stands stamp none old s) (hwritten : s.written = []) :
    Ends fault (runMigrations stamp buffers migration manifest true) s (Reported old planned fault)
      (fun _ s' => Thrown old planned fault s') (Killed old planned fault s) := by
  have hnodup := (names_planOf h).nodup migration.distinct
  have hplanned : AsPlanned planned s := by
    intro file hfile
    obtain ⟨candidate, -, mode, hnode, hplan⟩ := mem_planOf h hfile
    exact ⟨mode, by rw [(planFile_some hplan).1, hnode]⟩
  have hbefore : ∀ file ∈ planned, old file.relativePath = some (some file.before) := by
    intro file hfile
    obtain ⟨mode, hnode⟩ := hplanned file hfile
    rw [← hs.contents, contents, hnode]
  have hplan : Ends fault
      (attempt (Except.ok <$> planMigrations buffers migration.candidates) (fun error => pure (Except.error error))) s
      (fun plan s' => s' = s ∧ (plan = .ok planned ∨ (∃ error, plan = .error error) ∧
        Strikes fault false Site.Planning))
      (fun _ s' => Thrown old planned fault s') (Killed old planned fault s) := by
    have hfound : Ends fault
        (Except.ok <$> planMigrations buffers migration.candidates : MigrationM B (Except MigrationError (List (PlannedFile B)))) s
        (fun plan s' => s' = s ∧ plan = .ok planned) (fun _ s' => s' = s ∧ Strikes fault false Site.Planning)
        (fun s' => s' = s ∧ Strikes fault true Site.Planning) := by
      rw [map_eq_pure_bind]
      refine (Ends.mono (ends_planMigrations buffers migration.candidates) (fun _ _ hok => hok) (fun e s' herror => ?_)
        (fun _ hkilled => hkilled)).bind (fun plan s' hok => ?_)
      · obtain ⟨rfl, hstrikes | ⟨error, hfails⟩⟩ := herror
        · exact ⟨rfl, hstrikes⟩
        · rw [h] at hfails
          cases hfails
      · obtain ⟨rfl, hfound⟩ := hok
        rw [h] at hfound
        cases hfound
        exact ends_pure ⟨rfl, rfl⟩
    refine Ends.attempt (Ends.mono hfound (fun plan s' hok => ⟨hok.1, Or.inl hok.2⟩) (fun _ _ h => h)
      (fun s' hkilled => ?_)) (fun error s' herror => ends_pure ⟨herror.1, Or.inr ⟨⟨error, rfl⟩, herror.2⟩⟩)
    obtain ⟨rfl, hstrikes⟩ := hkilled
    refine Or.inl ⟨rfl, hstrikes.mono (fun site hsite => ⟨?_, ?_⟩)⟩
    · exact not_endangers_planning hsite
    · rintro rfl
      cases hsite
  refine hplan.bind (fun plan s₁ h₁ => ?_)
  obtain ⟨rfl, rfl | ⟨⟨error, rfl⟩, hstrikes⟩⟩ := h₁
  swap
  · refine ends_pure (Or.inr (Or.inl ⟨rfl, hs.contents, hstrikes.mono (fun site hsite => ?_)⟩))
    rintro ⟨file, -, rfl⟩
    cases hsite
  cases planned with
  | nil => exact absurd rfl hne
  | cons file rest =>
      dsimp only
      rw [if_neg (by simp)]
      have hroot : Ends fault (look .makeRoot (fun _ => .ok ()) : MigrationM B Unit) s₁ (fun _ s' => s' = s₁)
          (fun _ s' => Thrown old (file :: rest) fault s') (Killed old (file :: rest) fault s₁) := by
        refine Ends.mono ends_look (fun _ _ hok => hok.1) (fun e s' herror => ?_) (fun s' hkilled => ?_)
        · obtain ⟨rfl, hstrikes | ⟨error, heffect, -⟩⟩ := herror
          · refine ⟨Or.inl hs.contents, hstrikes.mono (fun site hsite => ?_)⟩
            rintro ⟨file', -, rfl⟩
            cases hsite
          · cases heffect
        · obtain ⟨rfl, hstrikes⟩ := hkilled
          refine Or.inl ⟨rfl, hstrikes.mono (fun site hsite => ?_)⟩
          subst hsite
          refine ⟨?_, (by rintro ⟨⟩)⟩
          rintro (hs | ⟨file', -, hs | hs | hs⟩ | ⟨file', -, hs⟩) <;> cases hs
      refine hroot.bind (fun _ s₂ h₂ => ?_)
      subst h₂
      refine (Ends.mono (ends_acquireLock hs.lock (buffers.ofText [])) (fun _ _ h => h) (fun _ _ h => h.elim)
        (fun s' hkilled => Or.inr (Or.inl hkilled))).bind (fun locked s₃ h₃ => ?_)
      rcases h₃ with ⟨rfl, rfl, hopen⟩ | ⟨rfl, hsame, hstrikes⟩
      · rw [if_neg (by simp)]
        have hstands : Stands stamp (some (.file (buffers.ofText []) 0o600)) old
            (s₂.put .lock (some (.file (buffers.ofText []) 0o600))) :=
          ⟨(contents_put_other (by simp)).trans hs.contents, files_put _ _, hs.tidy.put (by simp)⟩
        have hplanned' : AsPlanned (file :: rest) (s₂.put .lock (some (.file (buffers.ofText []) 0o600))) := by
          intro file' hfile'
          obtain ⟨mode, hnode⟩ := hplanned file' hfile'
          exact ⟨mode, by rw [files_put_of_ne (by simp), hnode]⟩
        refine Ends.always (Ends.mono (ends_applyPlanned manifest hnodup hbefore hstands hwritten hplanned')
          (fun _ _ h => h) (fun _ _ h => h) (fun s' hkilled => ?_)) (fun report s' happlied => ?_) (fun _ _ h => h.elim)
        · exact Or.inr (Or.inr (Or.inl ⟨by rw [hkilled.1]; rintro ⟨⟩, hkilled.2⟩))
        · exact Ends.mono (ends_unlock happlied hopen) (fun _ _ h => h) (fun _ _ h => h)
            (fun _ hkilled => Or.inr (Or.inr (Or.inr hkilled)))
      · rw [if_pos rfl]
        refine ends_pure (Or.inr (Or.inl ⟨rfl, hsame.trans hs.contents, hstrikes.mono (fun site hsite => ?_)⟩))
        rintro ⟨file', -, rfl⟩
        cases hsite

end Run

end Kross.Persistence

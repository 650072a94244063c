import Kross.Persistence.MigrationRun

namespace Kross.Persistence

open Kross.Json Kross.FaultM

variable {B : Type} [DecidableEq B] {fault : Fault Site (Option B)} {s : State B} {planned : List (PlannedFile B)}
  {stamp : Nat} {buffers : Buffers B} {migration : Migration} {manifest : B} {old : String → Option (Option B)}

section Again

omit [DecidableEq B] in
theorem not_strikes_none {kills : Bool} {sites : Site → Prop} : ¬Strikes (none : Option (Fault Site (Option B))) kills sites := by
  rintro ⟨f, hf, -⟩
  cases hf

omit [DecidableEq B] in
theorem strikes_some {kills : Bool} {sites : Site → Prop} :
    Strikes (some fault) kills sites ↔ fault.kills = kills ∧ sites fault.site := by
  constructor
  · rintro ⟨f, hf, hkills, hsite⟩
    cases hf
    exact ⟨hkills, hsite⟩
  · rintro ⟨hkills, hsite⟩
    exact ⟨fault, rfl, hkills, hsite⟩

omit [DecidableEq B] in
theorem spares_some {sites : Site → Prop} : Spares (some fault) sites ↔ ¬sites fault.site := by
  constructor
  · intro h
    exact h fault rfl
  · rintro h f hf
    cases hf
    exact h

/-- A run that has nothing to do changes nothing. -/
theorem ends_noop (fault : Option (Fault Site (Option B))) (h : planOf buffers s.files migration.candidates = .ok []) :
    Ends fault (runMigrations stamp buffers migration manifest true) s
      (fun report s' => s' = s ∧ report.changes = [] ∧ (report.error = none ∨ Strikes fault false Site.Planning))
      (fun _ _ => False) (fun s' => s' = s ∧ Strikes fault true Site.Planning) := by
  have hplan : Ends fault
      (attempt (Except.ok <$> planMigrations buffers migration.candidates) (fun error => pure (Except.error error))) s
      (fun plan s' => s' = s ∧ (plan = .ok [] ∨ (∃ error, plan = .error error) ∧ Strikes fault false Site.Planning))
      (fun _ _ => False) (fun s' => s' = s ∧ Strikes fault true Site.Planning) := by
    rw [map_eq_pure_bind]
    refine Ends.attempt (Ends.bind (ends_planMigrations buffers migration.candidates) (fun plan s' hok => ends_pure ?_))
      (fun error s' herror => ends_pure ?_)
    · rw [h] at hok
      obtain ⟨rfl, hplan⟩ := hok
      cases hplan
      exact ⟨rfl, Or.inl rfl⟩
    · obtain ⟨rfl, hstrikes | ⟨error', hfails⟩⟩ := herror
      · exact ⟨rfl, Or.inr ⟨⟨error, rfl⟩, hstrikes⟩⟩
      · rw [h] at hfails
        cases hfails
  refine hplan.bind (fun plan s' hok => ?_)
  obtain ⟨rfl, rfl | ⟨⟨error, rfl⟩, hstrikes⟩⟩ := hok
  · exact ends_pure ⟨rfl, rfl, Or.inl rfl⟩
  · exact ends_pure ⟨rfl, rfl, Or.inr hstrikes⟩

/-- Behind a lock that was left, no run changes a target. -/
theorem ends_blocked (h : s.files .lock ≠ none) :
    Ends none (runMigrations stamp buffers migration manifest true) s
      (fun _ s' => contents s'.files = contents s.files) (fun _ s' => contents s'.files = contents s.files)
      (fun _ => False) := by
  have hplan : Ends none
      (attempt (Except.ok <$> planMigrations buffers migration.candidates) (fun error => pure (Except.error error))) s
      (fun _ s' => s' = s) (fun _ s' => contents s'.files = contents s.files) (fun _ => False) := by
    rw [map_eq_pure_bind]
    refine Ends.attempt (Ends.bind (Ends.mono (ends_planMigrations buffers migration.candidates) (fun _ _ h => h)
      (fun _ _ h => h) (fun _ hkilled => not_strikes_none hkilled.2)) (fun plan s' hok => ends_pure hok.1))
      (fun error s' herror => ends_pure herror.1)
  refine hplan.bind (fun plan s' hok => ?_)
  subst hok
  cases plan with
  | error error => exact ends_pure rfl
  | ok planned => cases planned with
    | nil => exact ends_pure rfl
    | cons file rest =>
        dsimp only
        rw [if_neg (by simp)]
        refine Ends.bind (Ends.mono ends_look (fun _ _ hok => hok.1) (fun e s'' herror => by rw [herror.1])
          (fun _ hkilled => not_strikes_none hkilled.2)) (fun _ s'' hsame => ?_)
        subst hsame
        have hlocked : Ends none (acquireLock (buffers.ofText []) : MigrationM B Bool) s''
            (fun locked s' => locked = false ∧ s' = s'') (fun _ s' => contents s'.files = contents s''.files) (fun _ => False) := by
          have hopen : Ends none (writeNew .openLock .lock (buffers.ofText []) 0o600) s'' (fun _ _ => False)
              (fun _ s' => s' = s'') (fun _ => False) := by
            rw [writeNew, change]
            refine ends_step (fun _ hf => by cases hf) (fun _ hf => by cases hf) (fun _ a s' heffect => ?_) (fun _ e _ => rfl)
            cases hlock : s''.files .lock with
            | none => exact h hlock
            | some node =>
                rw [hlock] at heffect
                cases heffect
          exact Ends.attempt (hopen.bind (fun _ _ hok => hok.elim)) (fun e s' herror => ends_pure ⟨rfl, herror⟩)
        refine hlocked.bind (fun locked s' hok => ?_)
        obtain ⟨rfl, rfl⟩ := hok
        rw [if_pos rfl]
        exact ends_pure rfl

end Again

section Complete

/-- A later run, which uses other temporary files, migrates all that was to be migrated. -/
def Completes (stamp : Nat) (buffers : Buffers B) (migration : Migration) (planned : List (PlannedFile B))
    (old : String → Option (Option B)) (s : State B) : Prop :=
  ∀ later manifest, later ≠ stamp →
    Ends none (runMigrations later buffers migration manifest true) ⟨s.files, []⟩
      (fun report s' => report.error = none ∧ contents s'.files = migratedBy planned old) (fun _ _ => False) (fun _ => False)

/-- What is promised of a run with one fault. -/
structure AllOrNothing (stamp : Nat) (buffers : Buffers B) (migration : Migration) (manifest : B)
    (planned : List (PlannedFile B)) (fault : Fault Site (Option B)) (s : State B) : Prop where
  run : Ends (some fault) (runMigrations stamp buffers migration manifest true) s
    (fun report s' => contents s'.files = contents s.files ∧ report.error.isSome = true ∨
      contents s'.files = migratedBy planned (contents s.files))
    (fun _ s' => contents s'.files = contents s.files ∨ contents s'.files = migratedBy planned (contents s.files))
    (Completes stamp buffers migration planned (contents s.files))
  again : ∀ s', contents s'.files = migratedBy planned (contents s.files) →
    Ends none (runMigrations stamp buffers migration manifest true) s'
      (fun report s'' => s'' = s' ∧ report.changes = [] ∧ report.error = none) (fun _ _ => False) (fun _ => False)

theorem completes_of_migrated {s' : State B} (h : planOf buffers s.files migration.candidates = .ok planned)
    (hs : contents s'.files = migratedBy planned (contents s.files)) :
    Completes stamp buffers migration planned (contents s.files) s' := by
  intro later manifest _
  have hnone : planOf buffers s'.files migration.candidates = .ok [] := planOf_migrated migration.distinct h hs
  refine Ends.mono (ends_noop none (s := ⟨s'.files, []⟩) hnone) (fun report s'' hok => ?_) (fun _ _ h => h)
    (fun _ hkilled => not_strikes_none hkilled.2)
  obtain ⟨rfl, -, hreport | hstrikes⟩ := hok
  · exact ⟨hreport, hs⟩
  · exact (not_strikes_none hstrikes).elim

variable {targets : String → Option (Node B)}

theorem completes_start (h : planOf buffers (start targets).files migration.candidates = .ok planned) (hne : planned ≠ []) :
    Completes stamp buffers migration planned (contents (start targets).files) (start targets) := by
  intro later manifest _
  refine Ends.mono (ends_runMigrations h hne (stands_start targets later) rfl) (fun report s' hok => ?_)
    (fun _ s' hthrown => not_strikes_none hthrown.2) (fun s' hkilled => ?_)
  · rcases hok with ⟨hreport, hcontents, -⟩ | ⟨-, -, hstrikes⟩ | ⟨file, -, hstrikes, -⟩
    · exact ⟨hreport, hcontents⟩
    · exact (not_strikes_none hstrikes).elim
    · exact (not_strikes_none hstrikes).elim
  · rcases hkilled with ⟨-, hstrikes⟩ | ⟨left, hf, -⟩ | ⟨-, ⟨-, hstrikes⟩ | ⟨done, file, rest, -, ⟨-, hstrikes⟩ | ⟨-, hstrikes⟩⟩⟩ |
        ⟨-, hstrikes⟩
    · exact not_strikes_none hstrikes
    · cases hf
    all_goals exact not_strikes_none hstrikes

/-- With the lock left behind, a later run does not complete what is not complete. -/
theorem not_completes (s' : State B) (hlock : s'.files .lock ≠ none) (h : contents s'.files ≠ migratedBy planned old) :
    ¬Completes stamp buffers migration planned old s' := by
  intro hcompletes
  have hlater := hcompletes (stamp + 1) (buffers.ofText []) (by simp)
  have hblocked : Ends none (runMigrations (stamp + 1) buffers migration (buffers.ofText []) true) ⟨s'.files, []⟩
      (fun _ s'' => contents s''.files = contents s'.files) (fun _ s'' => contents s''.files = contents s'.files)
      (fun _ => False) := ends_blocked hlock
  exact Ends.both hlater hblocked (fun _ s'' hok hsame => h (hsame.symm.trans hok.2)) (fun _ _ hfalse _ => hfalse)
    (fun _ hfalse _ => hfalse)

omit [DecidableEq B] in
/-- Where a planned file is not written, the contents are not the migrated ones. -/
theorem migratedBy_ne (h : planOf buffers (start targets).files migration.candidates = .ok planned) (done : List (PlannedFile B))
    {file : PlannedFile B} (hfile : file ∈ planned) (hdone : file.relativePath ∉ done.map PlannedFile.relativePath) :
    migratedBy done (contents (start targets).files) ≠ migratedBy planned (contents (start targets).files) := by
  intro hsame
  have hnodup := (names_planOf h).nodup migration.distinct
  obtain ⟨candidate, -, mode, hnode, hplan⟩ := mem_planOf h hfile
  have hfacts := planFile_some hplan
  have hat := congrFun hsame file.relativePath
  rw [migratedBy_of_not_mem hdone, migratedBy_of_mem hnodup hfile, contents, hfacts.1, hnode] at hat
  have hbefore : file.before = file.after := by simpa using hat
  exact hfacts.2.2.2 (hbefore ▸ hfacts.2.2.1)

end Complete

section Main

variable {targets : String → Option (Node B)}

theorem runs_again (h : planOf buffers s.files migration.candidates = .ok planned) {s' : State B}
    (hs : contents s'.files = migratedBy planned (contents s.files)) :
    Ends none (runMigrations stamp buffers migration manifest true) s'
      (fun report s'' => s'' = s' ∧ report.changes = [] ∧ report.error = none) (fun _ _ => False) (fun _ => False) := by
  refine Ends.mono (ends_noop none (planOf_migrated migration.distinct h hs)) (fun report s'' hok => ?_) (fun _ _ h => h)
    (fun _ hkilled => not_strikes_none hkilled.2)
  obtain ⟨rfl, hchanges, hreport | hstrikes⟩ := hok
  · exact ⟨rfl, hchanges, hreport⟩
  · exact (not_strikes_none hstrikes).elim

theorem nothing_planned (h : planOf buffers (start targets).files migration.candidates = .ok []) :
    AllOrNothing stamp buffers migration manifest [] fault (start targets) where
  run := by
    refine Ends.mono (ends_noop (some fault) h) (fun report s' hok => Or.inr (by rw [hok.1, migratedBy_nil]))
      (fun _ _ hfalse => hfalse.elim) (fun s' hkilled => ?_)
    rw [hkilled.1]
    exact completes_of_migrated h rfl
  again s' hs := runs_again h hs

theorem allOrNothing_of_not_harmful (h : planOf buffers (start targets).files migration.candidates = .ok planned)
    (hsafe : ¬Harmful planned fault) : AllOrNothing stamp buffers migration manifest planned fault (start targets) := by
  by_cases hne : planned = []
  · subst hne
    exact nothing_planned h
  refine ⟨?_, fun s' hs => runs_again h hs⟩
  refine Ends.mono (ends_runMigrations h hne (stands_start targets stamp) rfl) (fun report s' hok => ?_)
    (fun _ s' hthrown => hthrown.1) (fun s' hkilled => ?_)
  · rcases hok with ⟨-, hcontents, -⟩ | ⟨hreport, hcontents, -⟩ | ⟨file, hfile, hstrikes, hcontents⟩
    · exact Or.inr hcontents
    · exact Or.inl ⟨hcontents, hreport⟩
    · obtain ⟨hkills, hsite⟩ := strikes_some.mp hstrikes
      have hlength : planned.length < 2 := by
        by_contra hlong
        exact hsafe (Or.inl ⟨hkills, by omega, file, hfile, hsite⟩)
      obtain ⟨one, rfl⟩ : ∃ one, planned = [one] := List.length_eq_one_iff.mp (by
        have hpos := List.length_pos_of_mem hfile
        omega)
      rw [List.mem_singleton.mp hfile] at hcontents
      have hnew : one.relativePath ∉ ([] : List (PlannedFile B)).map PlannedFile.relativePath := by simp
      exact Or.inr (hcontents.trans (migratedBy_concat hnew).symm)
  · rcases hkilled with ⟨rfl, -⟩ | ⟨left, hf, rfl⟩ | ⟨-, ⟨-, hstrikes⟩ | ⟨done, file, rest, hplanned, ⟨-, hstrikes⟩ | ⟨hcontents, hstrikes⟩⟩⟩ |
        ⟨hcontents, -⟩
    · exact completes_start h hne
    · cases hf
      cases left with
      | none => exact completes_start h hne
      | some content => exact (hsafe (Or.inr ⟨rfl, hne, Or.inr ⟨rfl, by simp⟩⟩)).elim
    · obtain ⟨hkills, hsite⟩ := strikes_some.mp hstrikes
      exact (hsafe (Or.inr ⟨hkills, hne, Or.inl (Or.inl hsite)⟩)).elim
    · obtain ⟨hkills, hsite⟩ := strikes_some.mp hstrikes
      have hfile : file ∈ planned := by
        rw [hplanned]
        exact List.mem_append_right _ List.mem_cons_self
      exact (hsafe (Or.inr ⟨hkills, hne, Or.inl (Or.inr (Or.inl ⟨file, hfile, hsite⟩))⟩)).elim
    · obtain ⟨hkills, hsite⟩ := strikes_some.mp hstrikes
      cases rest with
      | nil =>
          rw [← hplanned] at hcontents
          exact completes_of_migrated h hcontents
      | cons next rest =>
          have hfile : file ∈ planned.dropLast := by
            rw [hplanned, List.dropLast_append_of_ne_nil (by simp)]
            exact List.mem_append_right _ List.mem_cons_self
          exact (hsafe (Or.inr ⟨hkills, hne, Or.inl (Or.inr (Or.inr ⟨file, hfile, hsite⟩))⟩)).elim
    · exact completes_of_migrated h hcontents

omit [DecidableEq B] in
theorem endangers_not_lock {site : Site} (h : site.Endangers planned) : site ≠ .openLock ∧ ¬site.Unlocking := by
  rcases h with h | ⟨file, -, rfl | rfl | rfl⟩ | ⟨file, -, rfl⟩
  · constructor
    · rintro rfl
      exact h
    · rintro (rfl | rfl) <;> exact h
  all_goals exact ⟨by simp, by rintro (h | h) <;> cases h⟩

omit [DecidableEq B] in
theorem migratedBy_prefix (h : planOf buffers (start targets).files migration.candidates = .ok planned)
    {done : List (PlannedFile B)} (next : PlannedFile B) (rest : List (PlannedFile B)) (hplanned : planned = done ++ next :: rest) :
    migratedBy done (contents (start targets).files) ≠ migratedBy planned (contents (start targets).files) := by
  have hnodup := (names_planOf h).nodup migration.distinct
  have hnext : next ∈ planned := by
    rw [hplanned]
    exact List.mem_append_right _ List.mem_cons_self
  refine migratedBy_ne h _ hnext ?_
  rw [hplanned, List.map_append, List.map_cons] at hnodup
  exact fun hmem => (List.nodup_append.mp hnodup).2.2 _ hmem _ List.mem_cons_self rfl

/-- A clean-up that fails behind one of several replacements leaves that file migrated. -/
theorem not_allOrNothing_of_fails (h : planOf buffers (start targets).files migration.candidates = .ok planned)
    (hkills : fault.kills = false) (hlength : 2 ≤ planned.length) (hcleaning : fault.site.Cleaning planned) :
    ¬AllOrNothing stamp buffers migration manifest planned fault (start targets) := by
  intro hall
  have hne : planned ≠ [] := by
    rintro rfl
    simp at hlength
  have hnodup := (names_planOf h).nodup migration.distinct
  refine Ends.both hall.run (ends_runMigrations h hne (stands_start targets stamp) rfl) (fun report s' hok hreported => ?_)
    (fun _ s' _ hthrown => (strikes_some.mp hthrown.2).2 hcleaning) (fun s' _ hkilled => ?_)
  · rcases hreported with ⟨-, -, -, hspares, -⟩ | ⟨-, -, hstrikes⟩ | ⟨file, hfile, -, hcontents⟩
    · exact spares_some.mp hspares hcleaning
    · exact (strikes_some.mp hstrikes).2 hcleaning
    · have hnew : file.relativePath ∉ ([] : List (PlannedFile B)).map PlannedFile.relativePath := by simp
      have hone : contents s'.files = migratedBy [file] (contents (start targets).files) :=
        hcontents.trans (migratedBy_concat hnew).symm
      rcases hok with ⟨hsame, -⟩ | hmigrated
      · have hat := congrFun (hone.symm.trans hsame) file.relativePath
        obtain ⟨candidate, -, mode, hnode, hplan⟩ := mem_planOf h hfile
        have hfacts := planFile_some hplan
        rw [migratedBy_of_mem (by simp) List.mem_cons_self, contents, hfacts.1, hnode] at hat
        have hbefore : file.after = file.before := by simpa using hat
        exact hfacts.2.2.2 (hbefore ▸ hfacts.2.2.1)
      · obtain ⟨other, hother, hdiffers⟩ : ∃ other ∈ planned, other.relativePath ≠ file.relativePath := by
          by_contra hnone
          have hsame : ∀ other ∈ planned, other = file := by
            intro other hother
            refine List.inj_on_of_nodup_map hnodup hother hfile ?_
            by_contra hdiffers
            exact hnone ⟨other, hother, hdiffers⟩
          have htwo := hnodup.of_map
          rw [List.eq_replicate_of_mem hsame, List.nodup_replicate] at htwo
          omega
        refine migratedBy_ne h [file] hother (by simpa using hdiffers) ?_
        exact hone.symm.trans hmigrated
  · have hstrikes : ∀ {sites}, ¬Strikes (some fault) true sites := by
      intro sites hstrikes
      have hkilled := (strikes_some.mp hstrikes).1
      rw [hkills] at hkilled
      cases hkilled
    rcases hkilled with ⟨-, hs⟩ | ⟨left, hf, -⟩ | ⟨-, ⟨-, hs⟩ | ⟨done, file, rest, -, ⟨-, hs⟩ | ⟨-, hs⟩⟩⟩ | ⟨-, hs⟩
    · exact hstrikes hs
    · cases hf
      cases hkills
    all_goals exact hstrikes hs

/-- A run that is killed between the lock and the last replacement is never completed. -/
theorem not_allOrNothing_of_killed (h : planOf buffers (start targets).files migration.candidates = .ok planned)
    (hkills : fault.kills = true) (hne : planned ≠ [])
    (hsite : fault.site.Endangers planned ∨ fault.site = .openLock ∧ fault.left ≠ none) :
    ¬AllOrNothing stamp buffers migration manifest planned fault (start targets) := by
  intro hall
  have hnodup := (names_planOf h).nodup migration.distinct
  have hstrikes : ∀ {sites}, ¬Strikes (some fault) false sites := by
    intro sites hstrikes
    have hfails := (strikes_some.mp hstrikes).1
    rw [hkills] at hfails
    cases hfails
  have hnone : contents (start targets).files ≠ migratedBy planned (contents (start targets).files) := by
    obtain ⟨file, hfile⟩ := List.exists_mem_of_ne_nil planned hne
    exact migratedBy_ne h [] hfile (by simp)
  refine Ends.both hall.run (ends_runMigrations h hne (stands_start targets stamp) rfl) (fun report s' _ hreported => ?_)
    (fun _ s' _ hthrown => hstrikes hthrown.2) (fun s' hcompletes hkilled => ?_)
  · rcases hreported with ⟨-, -, hendangers, -, hopen⟩ | ⟨-, -, hs⟩ | ⟨file, -, hs, -⟩
    · rcases hsite with hsite | ⟨hsite, -⟩
      · exact spares_some.mp hendangers hsite
      · exact spares_some.mp hopen hsite
    · exact hstrikes hs
    · exact hstrikes hs
  · rcases hkilled with ⟨-, hs⟩ | ⟨left, hf, rfl⟩ | ⟨hlock, ⟨hcontents, -⟩ | ⟨done, file, rest, hplanned, hstops⟩⟩ | ⟨-, hs⟩
    · have hspared := (strikes_some.mp hs).2
      rcases hsite with hsite | ⟨hsite, -⟩
      · exact hspared.1 hsite
      · exact hspared.2 hsite
    · cases hf
      rcases hsite with hsite | ⟨-, hleft⟩
      · exact (endangers_not_lock hsite).1 rfl
      · cases left with
        | none => exact hleft rfl
        | some content =>
            refine not_completes (tornFile .lock (some content) (start targets)) ?_ ?_ hcompletes
            · rw [tornFile, files_put]
              simp
            · rw [tornFile, contents_put_other (by simp)]
              exact hnone
    · exact not_completes _ hlock (by rwa [hcontents]) hcompletes
    · rcases hstops with ⟨hcontents, -⟩ | ⟨hcontents, hs⟩
      · exact not_completes _ hlock (by rw [hcontents]; exact migratedBy_prefix h _ _ hplanned) hcompletes
      · cases rest with
        | cons next rest =>
            refine not_completes _ hlock ?_ hcompletes
            rw [hcontents]
            exact migratedBy_prefix h next rest (by simpa using hplanned)
        | nil =>
            have hcleaned := (strikes_some.mp hs).2
            rw [hcleaned, hplanned, Site.Endangers, List.dropLast_concat] at hsite
            rcases hsite with (hp | ⟨f, -, hr | hr | hr⟩ | ⟨f, hf, hc⟩) | ⟨ho, -⟩
            · exact hp
            · cases hr
            · cases hr
            · cases hr
            · have hname : f.relativePath = file.relativePath := by simpa using hc.symm
              rw [hplanned, List.map_append, List.map_cons] at hnodup
              exact (List.nodup_append.mp hnodup).2.2 _ (List.mem_map_of_mem hf) _ List.mem_cons_self hname
            · cases ho
    · have hunlocking := (strikes_some.mp hs).2
      rcases hsite with hsite | ⟨hsite, -⟩
      · exact (endangers_not_lock hsite).2 hunlocking
      · rcases hunlocking with hu | hu <;> rw [hsite] at hu <;> cases hu

theorem allOrNothing_iff (h : planOf buffers (start targets).files migration.candidates = .ok planned) :
    AllOrNothing stamp buffers migration manifest planned fault (start targets) ↔ ¬Harmful planned fault := by
  refine ⟨fun hall hharmful => ?_, allOrNothing_of_not_harmful h⟩
  rcases hharmful with ⟨hkills, hlength, hcleaning⟩ | ⟨hkills, hne, hsite⟩
  · exact not_allOrNothing_of_fails h hkills hlength hcleaning hall
  · exact not_allOrNothing_of_killed h hkills hne hsite hall

def characters : Buffers (List Char) where
  toText := id
  ofText := id
  toText_ofText _ := rfl

/-- Only `config.json` is there, and the clean-up behind its replacement fails. -/
theorem allOrNothing_iff_config :
    AllOrNothing 0 characters coreMigrations [] [⟨"core.config.version-1", "config.json", "\x7b\x7d".toList,
        "\x7b\n  \"version\": 1\n\x7d\n".toList, 0o600⟩] ⟨.cleanUp .apply "config.json", false, none⟩
      (start (fun n => if n = "config.json" then some (.file "\x7b\x7d".toList 0o600) else none)) :=
  (allOrNothing_iff (by rfl)).mpr (by
    rintro (⟨-, hlength, -⟩ | ⟨hkills, -⟩)
    · simp at hlength
    · cases hkills)

/-- `config.json` and `projects.json` are there, and the clean-up behind the first fails. -/
theorem failed_cleanUp_not_allOrNothing :
    ¬AllOrNothing 0 characters coreMigrations [] [⟨"core.config.version-1", "config.json", "\x7b\x7d".toList,
        "\x7b\n  \"version\": 1\n\x7d\n".toList, 0o600⟩, ⟨"core.projects.version-1", "projects.json", "\x7b\x7d".toList,
        "\x7b\n  \"version\": 1\n\x7d\n".toList, 0o600⟩] ⟨.cleanUp .apply "config.json", false, none⟩
      (start (fun n => if n = "config.json" ∨ n = "projects.json" then some (.file "\x7b\x7d".toList 0o600) else none)) :=
  not_allOrNothing_of_fails (by rfl) rfl (by simp) ⟨_, List.mem_cons_self, rfl⟩

end Main

end Kross.Persistence

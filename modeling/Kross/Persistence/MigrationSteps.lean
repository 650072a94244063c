import Kross.Persistence.Migration
import Mathlib.Data.List.Nodup

namespace Kross.Persistence

open Kross.Json Kross.FaultM

variable {B : Type}

section Planning

variable (buffers : Buffers B)

/-- The plan for the files as they are. -/
def planOf (files : Place → Option (Node B)) : List MigrationCandidate → Except PlanError (List (PlannedFile B))
  | [] => .ok []
  | candidate :: candidates => match files (.target candidate.relativePath) with
    | none => planOf files candidates
    | some .other => .error (.notRegular candidate.relativePath)
    | some (.file content mode) => match planFile buffers candidate content mode with
      | .error error => .error error
      | .ok planned => (planned.toList ++ ·) <$> planOf files candidates

/-- The content is one that nothing is to be done about. -/
def UpToDate (candidate : MigrationCandidate) (content : B) : Prop :=
  ∃ value, parse (buffers.toText content) = some value ∧ candidate.migrate value = .ok none

/-- What is at the targets, their permissions apart. -/
def contents (files : Place → Option (Node B)) (relativePath : String) : Option (Option B) :=
  match files (.target relativePath) with
  | none => none
  | some .other => some none
  | some (.file content _) => some (some content)

/-- The contents with some of the planned files written. -/
def migratedBy (done : List (PlannedFile B)) (old : String → Option (Option B)) (relativePath : String) : Option (Option B) :=
  match done.find? (fun file => file.relativePath = relativePath) with
  | some file => some (some file.after)
  | none => old relativePath

variable {buffers} {files : Place → Option (Node B)} {candidate : MigrationCandidate} {candidates : List MigrationCandidate}
  {content : B} {mode : Nat} {file : PlannedFile B} {planned : List (PlannedFile B)}

theorem planFile_none : planFile buffers candidate content mode = .ok none ↔ UpToDate buffers candidate content := by
  rw [planFile, UpToDate]
  cases hparse : parse (buffers.toText content) with
  | none => simp
  | some value =>
      dsimp only
      cases hmigrate : candidate.migrate value with
      | error error => simp [hmigrate]
      | ok migrated => cases migrated <;> simp [hmigrate]

theorem planFile_some (h : planFile buffers candidate content mode = .ok (some file)) :
    file.relativePath = candidate.relativePath ∧ file.before = content ∧ UpToDate buffers candidate file.after ∧
      ¬UpToDate buffers candidate file.before := by
  have hnot : ¬UpToDate buffers candidate content := by
    intro hdate
    rw [planFile_none.mpr hdate] at h
    cases h
  rw [planFile] at h
  split at h
  · cases h
  · rename_i value hparse
    split at h
    · cases h
    · cases h
    · rename_i migrated hmigrate
      cases h
      refine ⟨rfl, rfl, ⟨migrated, ?_, candidate.settles value migrated hmigrate⟩, hnot⟩
      rw [buffers.toText_ofText, parse_indented]

/-- What planning finds at each candidate. -/
theorem planOf_cases (h : planOf buffers files candidates = .ok planned) (hc : candidate ∈ candidates) :
    contents files candidate.relativePath = none ∨
      ∃ content mode, files (.target candidate.relativePath) = some (.file content mode) ∧
        (UpToDate buffers candidate content ∨
          ∃ file ∈ planned, planFile buffers candidate content mode = .ok (some file)) := by
  induction candidates generalizing planned with
  | nil => cases hc
  | cons first candidates ih =>
      rw [planOf] at h
      cases hnode : files (.target first.relativePath) with
      | none =>
          rw [hnode] at h
          rcases List.mem_cons.mp hc with rfl | hc
          · exact Or.inl (by rw [contents, hnode])
          · exact ih h hc
      | some node =>
          rw [hnode] at h
          cases node with
          | other => cases h
          | file content mode =>
              dsimp only at h
              cases hplan : planFile buffers first content mode with
              | error error =>
                  rw [hplan] at h
                  cases h
              | ok planned' =>
                  rw [hplan] at h
                  dsimp only at h
                  cases htail : planOf buffers files candidates with
                  | error error =>
                      rw [htail] at h
                      cases h
                  | ok rest =>
                      rw [htail] at h
                      cases h
                      rcases List.mem_cons.mp hc with rfl | hc
                      · refine Or.inr ⟨content, mode, hnode, ?_⟩
                        cases planned' with
                        | none => exact Or.inl (planFile_none.mp hplan)
                        | some file => exact Or.inr ⟨file, List.mem_append_left _ (by simp), hplan⟩
                      · rcases ih htail hc with hnone | ⟨content', mode', hnode', hdate | ⟨file, hfile, hplan'⟩⟩
                        · exact Or.inl hnone
                        · exact Or.inr ⟨content', mode', hnode', Or.inl hdate⟩
                        · exact Or.inr ⟨content', mode', hnode', Or.inr ⟨file, List.mem_append_right _ hfile, hplan'⟩⟩

theorem mem_planOf (h : planOf buffers files candidates = .ok planned) (hfile : file ∈ planned) :
    ∃ candidate ∈ candidates, ∃ mode, files (.target candidate.relativePath) = some (.file file.before mode) ∧
      planFile buffers candidate file.before mode = .ok (some file) := by
  induction candidates generalizing planned with
  | nil =>
      cases h
      cases hfile
  | cons first candidates ih =>
      have hrest : ∀ {rest}, planOf buffers files candidates = .ok rest → file ∈ rest →
          ∃ c ∈ first :: candidates, ∃ mode, files (.target c.relativePath) = some (.file file.before mode) ∧
            planFile buffers c file.before mode = .ok (some file) := by
        intro rest hplan hmem
        obtain ⟨c, hc, hplanned⟩ := ih hplan hmem
        exact ⟨c, List.mem_cons_of_mem _ hc, hplanned⟩
      rw [planOf] at h
      split at h
      · exact hrest h hfile
      · cases h
      · rename_i content mode hnode
        split at h
        · cases h
        · rename_i planned' hplanned
          cases htail : planOf buffers files candidates with
          | error error =>
              rw [htail] at h
              cases h
          | ok rest =>
              rw [htail] at h
              cases h
              rcases List.mem_append.mp hfile with hmem | hmem
              · rw [Option.mem_toList] at hmem
                subst hmem
                have hbefore := (planFile_some hplanned).2.1
                exact ⟨first, List.mem_cons_self, mode, by rw [hnode, hbefore], by rwa [hbefore]⟩
              · exact hrest htail hmem

theorem names_planOf (h : planOf buffers files candidates = .ok planned) :
    (planned.map PlannedFile.relativePath).Sublist (candidates.map MigrationCandidate.relativePath) := by
  induction candidates generalizing planned with
  | nil =>
      cases h
      exact List.Sublist.refl _
  | cons first candidates ih =>
      rw [planOf] at h
      split at h
      · exact (ih h).cons _
      · cases h
      · split at h
        · cases h
        · rename_i planned' hplanned
          cases htail : planOf buffers files candidates with
          | error error =>
              rw [htail] at h
              cases h
          | ok rest =>
              rw [htail] at h
              cases h
              cases planned' with
              | none => exact (ih htail).cons _
              | some file =>
                  rw [List.map_cons, ← (planFile_some hplanned).1]
                  exact (ih htail).cons_cons _

/-- Nothing is planned where every file is up to date. -/
theorem planOf_nil (h : ∀ candidate ∈ candidates, contents files candidate.relativePath = none ∨
    ∃ content, contents files candidate.relativePath = some (some content) ∧ UpToDate buffers candidate content) :
    planOf buffers files candidates = .ok [] := by
  induction candidates with
  | nil => rfl
  | cons first candidates ih =>
      have hrest := ih (fun candidate hc => h candidate (List.mem_cons_of_mem _ hc))
      have hfirst := h first List.mem_cons_self
      rw [planOf]
      cases hnode : files (.target first.relativePath) with
      | none => exact hrest
      | some node =>
          rw [contents, hnode] at hfirst
          cases node with
          | other => simp at hfirst
          | file content mode =>
              have hdate : UpToDate buffers first content := by simpa using hfirst
              dsimp only
              rw [planFile_none.mpr hdate, hrest]
              rfl

section Migrated

variable {old : String → Option (Option B)} {done : List (PlannedFile B)} {relativePath : String}

theorem migratedBy_of_not_mem (h : relativePath ∉ done.map PlannedFile.relativePath) :
    migratedBy done old relativePath = old relativePath := by
  have hnone : done.find? (fun file => file.relativePath = relativePath) = none := by
    rw [List.find?_eq_none]
    intro file hfile he
    rw [decide_eq_true_eq] at he
    exact h (List.mem_map.mpr ⟨file, hfile, he⟩)
  rw [migratedBy, hnone]

theorem migratedBy_of_mem (hnodup : (done.map PlannedFile.relativePath).Nodup) (h : file ∈ done) :
    migratedBy done old file.relativePath = some (some file.after) := by
  cases hfind : done.find? (fun f => f.relativePath = file.relativePath) with
  | none =>
      have hnot := List.find?_eq_none.mp hfind file h
      simp at hnot
  | some found =>
      have hname := List.find?_some hfind
      rw [decide_eq_true_eq] at hname
      have hsame := List.inj_on_of_nodup_map hnodup (List.mem_of_find?_eq_some hfind) h hname
      rw [migratedBy, hfind, hsame]

theorem migratedBy_concat (h : file.relativePath ∉ done.map PlannedFile.relativePath) :
    migratedBy (done ++ [file]) old = Function.update (migratedBy done old) file.relativePath (some (some file.after)) := by
  funext n
  rw [Function.update_apply, migratedBy, List.find?_append]
  split_ifs with hn
  · subst hn
    have hnone : done.find? (fun f => f.relativePath = file.relativePath) = none := by
      rw [List.find?_eq_none]
      intro f hf he
      rw [decide_eq_true_eq] at he
      exact h (List.mem_map.mpr ⟨f, hf, he⟩)
    rw [hnone]
    simp
  · have hlast : [file].find? (fun f => f.relativePath = n) = none := by simp [Ne.symm hn]
    rw [hlast, Option.or_none, migratedBy]

theorem migratedBy_nil : migratedBy ([] : List (PlannedFile B)) old = old := rfl

/-- A run on what a migration has made plans no change. -/
theorem planOf_migrated {files' : Place → Option (Node B)} (hdistinct : (candidates.map MigrationCandidate.relativePath).Nodup)
    (h : planOf buffers files candidates = .ok planned) (hfiles : contents files' = migratedBy planned (contents files)) :
    planOf buffers files' candidates = .ok [] := by
  have hnodup := (names_planOf h).nodup hdistinct
  refine planOf_nil (fun candidate hc => ?_)
  rw [hfiles]
  by_cases hmem : candidate.relativePath ∈ planned.map PlannedFile.relativePath
  · obtain ⟨file, hfile, hname⟩ := List.mem_map.mp hmem
    obtain ⟨candidate', hc', mode, -, hplan⟩ := mem_planOf h hfile
    have hfacts := planFile_some hplan
    have hsame : candidate' = candidate :=
      List.inj_on_of_nodup_map hdistinct hc' hc (hfacts.1.symm.trans hname)
    subst hsame
    refine Or.inr ⟨file.after, ?_, hfacts.2.2.1⟩
    rw [← hname]
    exact migratedBy_of_mem hnodup hfile
  · rw [migratedBy_of_not_mem hmem]
    rcases planOf_cases h hc with hnone | ⟨content, mode, hnode, hdate | ⟨file, hfile, hplan⟩⟩
    · exact Or.inl hnone
    · exact Or.inr ⟨content, by rw [contents, hnode], hdate⟩
    · exact absurd (List.mem_map.mpr ⟨file, hfile, (planFile_some hplan).1⟩) hmem

end Migrated

end Planning

section Ends

/-- The fault is at a site of this kind. -/
def Strikes (fault : Option (Fault Site (Option B))) (kills : Bool) (sites : Site → Prop) : Prop :=
  ∃ f, fault = some f ∧ f.kills = kills ∧ sites f.site

def Spares (fault : Option (Fault Site (Option B))) (sites : Site → Prop) : Prop := ∀ f, fault = some f → ¬sites f.site

variable {fault : Option (Fault Site (Option B))} {s : State B} {sites : Site → Prop}

theorem strikes_of {site : Site} {kills : Bool} {left : Option B} (h : fault = some ⟨site, kills, left⟩) (hs : sites site) :
    Strikes fault kills sites := ⟨_, h, rfl, hs⟩

theorem ends_look {α : Type} {site : Site} {effect : State B → Except FsError α} :
    Ends fault (look site effect) s (fun a s' => s' = s ∧ effect s = .ok a ∧ Spares fault (· = site))
      (fun e s' => s' = s ∧ (Strikes fault false (· = site) ∨ ∃ error, effect s = .error error ∧ e = .fs error))
      (fun s' => s' = s ∧ Strikes fault true (· = site)) := by
  refine ends_step (fun left hf => ⟨rfl, Or.inl (strikes_of hf rfl)⟩) (fun left hf => ⟨rfl, strikes_of hf rfl⟩)
    (fun hmiss a s' heffect => ?_) (fun _ e heffect => ?_)
  · cases h : effect s with
    | ok b =>
        rw [h] at heffect
        cases heffect
        exact ⟨rfl, rfl, hmiss⟩
    | error error =>
        rw [h] at heffect
        cases heffect
  · cases h : effect s with
    | ok b =>
        rw [h] at heffect
        cases heffect
    | error error =>
        rw [h] at heffect
        cases heffect
        exact ⟨rfl, Or.inr ⟨error, rfl, rfl⟩⟩

/-- A call that changes something, where it has no reason of its own to fail. -/
theorem ends_change {site : Site} {torn : Option B → State B → State B} {effect : State B → Except FsError (State B)}
    {s' : State B} (h : effect s = .ok s') :
    Ends fault (change site torn effect) s (fun _ t => t = s' ∧ Spares fault (· = site))
      (fun _ t => (∃ left, t = torn left s) ∧ Strikes fault false (· = site))
      (fun t => (∃ left, t = torn left s) ∧ Strikes fault true (· = site)) := by
  refine ends_step (fun left hf => ⟨⟨left, rfl⟩, strikes_of hf rfl⟩) (fun left hf => ⟨⟨left, rfl⟩, strikes_of hf rfl⟩)
    (fun hmiss a t heffect => ?_) (fun _ e heffect => ?_)
  · rw [h] at heffect
    cases heffect
    exact ⟨rfl, hmiss⟩
  · rw [h] at heffect
    cases heffect

def Site.Planning : Site → Prop
  | .stat _ | .read _ => True
  | _ => False

theorem ends_readFile {site : Site} {place : Place} {content : B} {mode : Nat} (h : s.files place = some (.file content mode)) :
    Ends fault (readFile site place) s (fun a s' => s' = s ∧ a = content ∧ Spares fault (· = site))
      (fun _ s' => s' = s ∧ Strikes fault false (· = site)) (fun s' => s' = s ∧ Strikes fault true (· = site)) := by
  refine Ends.mono ends_look (fun a s' hok => ?_) (fun e s' herror => ?_) (fun s' hkilled => hkilled)
  · obtain ⟨hs, heffect, hspares⟩ := hok
    rw [h] at heffect
    cases heffect
    exact ⟨hs, rfl, hspares⟩
  · obtain ⟨hs, hstrikes | ⟨error, heffect, -⟩⟩ := herror
    · exact ⟨hs, hstrikes⟩
    · rw [h] at heffect
      cases heffect

variable (buffers : Buffers B)

theorem ends_planCandidate (candidate : MigrationCandidate) :
    Ends fault (planCandidate buffers candidate) s
      (fun planned s' => s' = s ∧ match s.files (.target candidate.relativePath) with
        | none => planned = none
        | some .other => False
        | some (.file content mode) => planFile buffers candidate content mode = .ok planned)
      (fun _ s' => s' = s ∧ (Strikes fault false Site.Planning ∨ match s.files (.target candidate.relativePath) with
        | none => False
        | some .other => True
        | some (.file content mode) => ∃ error, planFile buffers candidate content mode = .error error))
      (fun s' => s' = s ∧ Strikes fault true Site.Planning) := by
  have hmetadata : Ends fault (look (.stat candidate.relativePath)
      (fun s : State B => .ok (s.files (.target candidate.relativePath)))) s
      (fun a s' => s' = s ∧ a = s.files (.target candidate.relativePath))
      (fun _ s' => s' = s ∧ (Strikes fault false Site.Planning ∨ match s.files (.target candidate.relativePath) with
        | none => False
        | some .other => True
        | some (.file content mode) => ∃ error, planFile buffers candidate content mode = .error error))
      (fun s' => s' = s ∧ Strikes fault true Site.Planning) := by
    refine Ends.mono ends_look (fun a s' hok => ⟨hok.1, ?_⟩) (fun e s' herror => ⟨herror.1, Or.inl ?_⟩)
      (fun s' hkilled => ⟨hkilled.1, ?_⟩)
    · have heffect := hok.2.1
      cases heffect
      rfl
    · rcases herror.2 with ⟨f, hf, hkills, hsite⟩ | ⟨error, heffect, -⟩
      · exact ⟨f, hf, hkills, by rw [hsite]; trivial⟩
      · cases heffect
    · obtain ⟨f, hf, hkills, hsite⟩ := hkilled.2
      exact ⟨f, hf, hkills, by rw [hsite]; trivial⟩
  refine hmetadata.bind (fun metadata s' hmeta => ?_)
  obtain ⟨rfl, rfl⟩ := hmeta
  cases hnode : s'.files (.target candidate.relativePath) with
  | none => exact ends_pure ⟨rfl, rfl⟩
  | some node =>
      cases node with
      | other => exact ends_throw ⟨rfl, Or.inr trivial⟩
      | file content mode =>
          refine (Ends.mono (ends_readFile hnode) (fun _ _ h => h) (fun e s'' herror => ⟨herror.1, Or.inl ?_⟩)
            (fun s'' hkilled => ⟨hkilled.1, ?_⟩)).bind (fun before s'' hread => ?_)
          · obtain ⟨rfl, rfl, -⟩ := hread
            cases hplan : planFile buffers candidate before mode with
            | error error => exact ends_throw ⟨rfl, Or.inr ⟨error, hplan⟩⟩
            | ok planned => exact ends_pure ⟨rfl, hplan⟩
          · obtain ⟨f, hf, hkills, hsite⟩ := herror.2
            exact ⟨f, hf, hkills, by rw [hsite]; trivial⟩
          · obtain ⟨f, hf, hkills, hsite⟩ := hkilled.2
            exact ⟨f, hf, hkills, by rw [hsite]; trivial⟩

theorem ends_planMigrations (candidates : List MigrationCandidate) :
    Ends fault (planMigrations buffers candidates) s
      (fun planned s' => s' = s ∧ planOf buffers s.files candidates = .ok planned)
      (fun _ s' => s' = s ∧ (Strikes fault false Site.Planning ∨ ∃ error, planOf buffers s.files candidates = .error error))
      (fun s' => s' = s ∧ Strikes fault true Site.Planning) := by
  induction candidates with
  | nil => exact ends_pure ⟨rfl, rfl⟩
  | cons candidate candidates ih =>
      rw [planOf]
      refine (Ends.mono (ends_planCandidate buffers candidate) (fun _ _ h => h) (fun e s' herror => ⟨herror.1, herror.2.imp_right (fun h => ?_)⟩)
        (fun _ h => h)).bind (fun planned s' hplanned => ?_)
      · obtain ⟨rfl, hplanned⟩ := hplanned
        refine (ih.mono (fun _ _ h => h) (fun e s'' herror => ⟨herror.1, herror.2.imp_right (fun h => ?_)⟩)
          (fun _ h => h)).bind (fun rest s'' hrest => ends_pure ?_)
        · obtain ⟨rfl, hrest⟩ := hrest
          refine ⟨rfl, ?_⟩
          split at hplanned
          · rw [hplanned, hrest]
            rfl
          · exact hplanned.elim
          · rw [hplanned]
            dsimp only
            rw [hrest]
            rfl
        · obtain ⟨error, h⟩ := h
          split at hplanned
          · exact ⟨error, h⟩
          · exact hplanned.elim
          · rw [hplanned]
            dsimp only
            rw [h]
            exact ⟨error, rfl⟩
      · split at h
        · exact h.elim
        · exact ⟨_, rfl⟩
        · obtain ⟨error, h⟩ := h
          rw [h]
          exact ⟨error, rfl⟩

end Ends

end Kross.Persistence

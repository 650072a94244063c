import Kross.Persistence.MigrationSteps

namespace Kross.Persistence

open Kross.Json Kross.FaultM

variable {B : Type} {fault : Option (Fault Site (Option B))} {s : State B} {planned : List (PlannedFile B)} {stamp : Nat}

theorem Strikes.mono {kills : Bool} {sites sites' : Site → Prop} (h : Strikes fault kills sites)
    (hs : ∀ site, sites site → sites' site) : Strikes fault kills sites' := by
  obtain ⟨f, hf, hkills, hsite⟩ := h
  exact ⟨f, hf, hkills, hs f.site hsite⟩

section Backup

/-- Everything is as before but for the backup. -/
def Untouched (s s' : State B) : Prop :=
  s'.written = s.written ∧ ∀ place, place ≠ .manifest → (∀ n, place ≠ .backup n) → s'.files place = s.files place

theorem untouched_refl (s : State B) : Untouched s s := ⟨rfl, fun _ _ _ => rfl⟩

theorem Untouched.trans {s s' s'' : State B} (h : Untouched s s') (h' : Untouched s' s'') : Untouched s s'' :=
  ⟨h'.1.trans h.1, fun place hm hb => (h'.2 place hm hb).trans (h.2 place hm hb)⟩

theorem untouched_backup (n : String) (node : Option (Node B)) : Untouched s (s.put (.backup n) node) := by
  refine ⟨rfl, fun place _ hb => ?_⟩
  rw [State.put]
  exact Function.update_of_ne (hb n) _ _

theorem untouched_manifest (node : Option (Node B)) : Untouched s (s.put .manifest node) :=
  ⟨rfl, fun _ hm _ => Function.update_of_ne hm _ _⟩

theorem untouched_torn_backup (n : String) (left : Option B) : Untouched s (tornFile (.backup n) left s) := by
  cases left with
  | none => exact untouched_refl s
  | some content => exact untouched_backup n _

theorem untouched_torn_manifest (left : Option B) : Untouched s (tornFile .manifest left s) := by
  cases left with
  | none => exact untouched_refl s
  | some content => exact untouched_manifest _

/-- The calls between taking the lock and the first write, for the planned files. -/
def Site.Preparing (planned : List (PlannedFile B)) : Site → Prop
  | .reread n | .makeBackupDirectory n | .copy n | .protect n => n ∈ planned.map PlannedFile.relativePath
  | .makeBackup | .manifest => True
  | _ => False

/-- The planned files are on the disk as they were planned. -/
def AsPlanned (planned : List (PlannedFile B)) (s : State B) : Prop :=
  ∀ file ∈ planned, ∃ mode, s.files (.target file.relativePath) = some (.file file.before mode)

theorem AsPlanned.untouched {s' : State B} (h : AsPlanned planned s) (hs : Untouched s s') : AsPlanned planned s' := by
  intro file hfile
  obtain ⟨mode, hnode⟩ := h file hfile
  exact ⟨mode, by rw [hs.2 (.target file.relativePath) (by simp) (by simp), hnode]⟩

theorem preparing_name {file : PlannedFile B} (h : file ∈ planned) : file.relativePath ∈ planned.map PlannedFile.relativePath :=
  List.mem_map_of_mem h

variable [DecidableEq B]

theorem ends_assertPlansUnchanged (h : AsPlanned planned s) :
    Ends fault (assertPlansUnchanged planned) s
      (fun _ s' => s' = s ∧ ∀ file ∈ planned, Spares fault (· = .reread file.relativePath))
      (fun _ s' => s' = s ∧ Strikes fault false (Site.Preparing planned))
      (fun s' => s' = s ∧ Strikes fault true (Site.Preparing planned)) := by
  refine ends_forM (fun (done : List (PlannedFile B)) s' => s' = s ∧
    ∀ file ∈ done, Spares fault (· = .reread file.relativePath)) ⟨rfl, nofun⟩
    (fun done file rest hplanned s' htrack => ?_)
  obtain ⟨rfl, hdone⟩ := htrack
  have hfile : file ∈ planned := by
    rw [hplanned]
    exact List.mem_append_right _ List.mem_cons_self
  have hsite : ∀ site, site = Site.reread file.relativePath → site.Preparing planned := by
    rintro _ rfl
    exact preparing_name hfile
  obtain ⟨mode, hnode⟩ := h file hfile
  have hread : Ends fault (readFile (.reread file.relativePath) (.target file.relativePath)) s'
      (fun a s'' => s'' = s' ∧ a = file.before ∧ Spares fault (· = .reread file.relativePath))
      (fun _ s'' => s'' = s' ∧ Strikes fault false (Site.Preparing planned))
      (fun s'' => s'' = s' ∧ Strikes fault true (Site.Preparing planned)) :=
    Ends.mono (ends_readFile hnode) (fun _ _ h => h) (fun _ _ herror => ⟨herror.1, herror.2.mono hsite⟩)
      (fun _ hkilled => ⟨hkilled.1, hkilled.2.mono hsite⟩)
  refine hread.bind (fun current s'' hcurrent => ?_)
  obtain ⟨rfl, rfl, hspares⟩ := hcurrent
  rw [if_pos rfl]
  refine ends_pure ⟨rfl, fun file' hfile' => ?_⟩
  rcases List.mem_append.mp hfile' with hfile' | hfile'
  · exact hdone file' hfile'
  · rw [List.mem_singleton.mp hfile']
    exact hspares

/-- The calls of the backup of one file. -/
def Site.BacksUp (relativePath : String) (site : Site) : Prop :=
  site = .makeBackupDirectory relativePath ∨ site = .copy relativePath ∨ site = .protect relativePath

omit [DecidableEq B] in
theorem preparing_backsUp {file : PlannedFile B} (h : file ∈ planned) {site : Site} (hs : site.BacksUp file.relativePath) :
    site.Preparing planned := by
  rcases hs with rfl | rfl | rfl <;> exact preparing_name h

omit [DecidableEq B] in
theorem ends_backupFile {file : PlannedFile B} (h : AsPlanned [file] s) :
    Ends fault
      (do
        look (.makeBackupDirectory file.relativePath) (fun _ => .ok ())
        change (.copy file.relativePath) (tornFile (.backup file.relativePath)) (fun s =>
          match s.files (.target file.relativePath) with
          | some node => .ok (s.put (.backup file.relativePath) (some node))
          | none => .error .ENOENT)
        chmod (.protect file.relativePath) (.backup file.relativePath) 0o600 : MigrationM B Unit) s
      (fun _ s' => Untouched s s' ∧ Spares fault (Site.BacksUp file.relativePath))
      (fun _ s' => Untouched s s' ∧ Strikes fault false (Site.BacksUp file.relativePath))
      (fun s' => Untouched s s' ∧ Strikes fault true (Site.BacksUp file.relativePath)) := by
  obtain ⟨mode, hnode⟩ := h file List.mem_cons_self
  have hdirectory : Ends fault (look (.makeBackupDirectory file.relativePath) (fun _ => .ok ()) : MigrationM B Unit) s
      (fun _ s' => s' = s ∧ Spares fault (· = .makeBackupDirectory file.relativePath))
      (fun _ s' => Untouched s s' ∧ Strikes fault false (Site.BacksUp file.relativePath))
      (fun s' => Untouched s s' ∧ Strikes fault true (Site.BacksUp file.relativePath)) := by
    refine Ends.mono ends_look (fun _ _ hok => ⟨hok.1, hok.2.2⟩) (fun e s' herror => ?_) (fun s' hkilled => ?_)
    · obtain ⟨rfl, hstrikes | ⟨error, heffect, -⟩⟩ := herror
      · exact ⟨untouched_refl _, hstrikes.mono (fun _ hs => Or.inl hs)⟩
      · cases heffect
    · obtain ⟨rfl, hstrikes⟩ := hkilled
      exact ⟨untouched_refl _, hstrikes.mono (fun _ hs => Or.inl hs)⟩
  refine hdirectory.bind (fun _ s₁ h₁ => ?_)
  obtain ⟨rfl, hspares₁⟩ := h₁
  have hcopy : Ends fault (change (.copy file.relativePath) (tornFile (.backup file.relativePath)) (fun s : State B =>
      match s.files (.target file.relativePath) with
      | some node => .ok (s.put (.backup file.relativePath) (some node))
      | none => .error .ENOENT)) s₁
      (fun _ s' => s' = s₁.put (.backup file.relativePath) (some (.file file.before mode)) ∧
        Spares fault (· = .copy file.relativePath))
      (fun _ s' => Untouched s₁ s' ∧ Strikes fault false (Site.BacksUp file.relativePath))
      (fun s' => Untouched s₁ s' ∧ Strikes fault true (Site.BacksUp file.relativePath)) := by
    refine Ends.mono (ends_change (by rw [hnode])) (fun _ _ hok => hok) (fun e s' herror => ?_) (fun s' hkilled => ?_)
    · obtain ⟨⟨left, rfl⟩, hstrikes⟩ := herror
      exact ⟨untouched_torn_backup _ left, hstrikes.mono (fun _ hs => Or.inr (Or.inl hs))⟩
    · obtain ⟨⟨left, rfl⟩, hstrikes⟩ := hkilled
      exact ⟨untouched_torn_backup _ left, hstrikes.mono (fun _ hs => Or.inr (Or.inl hs))⟩
  refine hcopy.bind (fun _ s₂ h₂ => ?_)
  obtain ⟨rfl, hspares₂⟩ := h₂
  have hbackup := untouched_backup (s := s₁) file.relativePath (some (.file file.before mode))
  have heffect : ∀ place, place = Place.backup file.relativePath →
      (s₁.put (.backup file.relativePath) (some (.file file.before mode))).files place = some (.file file.before mode) := by
    rintro _ rfl
    exact Function.update_self _ _ _
  refine Ends.mono (ends_change (by rw [heffect _ rfl])) (fun _ s' hok => ?_) (fun e s' herror => ?_) (fun s' hkilled => ?_)
  · obtain ⟨rfl, hspares₃⟩ := hok
    refine ⟨hbackup.trans (untouched_backup _ _), fun f hf hs => ?_⟩
    rcases hs with hs | hs | hs
    · exact hspares₁ f hf hs
    · exact hspares₂ f hf hs
    · exact hspares₃ f hf hs
  · obtain ⟨⟨left, rfl⟩, hstrikes⟩ := herror
    exact ⟨hbackup, hstrikes.mono (fun _ hs => Or.inr (Or.inr hs))⟩
  · obtain ⟨⟨left, rfl⟩, hstrikes⟩ := hkilled
    exact ⟨hbackup, hstrikes.mono (fun _ hs => Or.inr (Or.inr hs))⟩

omit [DecidableEq B] in
theorem ends_backupMigration (manifest : B) (h : AsPlanned planned s) :
    Ends fault (backupMigration manifest planned) s
      (fun _ s' => Untouched s s' ∧ Spares fault (· = .makeBackup) ∧ Spares fault (· = .manifest) ∧
        ∀ file ∈ planned, Spares fault (Site.BacksUp file.relativePath))
      (fun _ s' => Untouched s s' ∧ Strikes fault false (Site.Preparing planned))
      (fun s' => Untouched s s' ∧ Strikes fault true (Site.Preparing planned)) := by
  have hmake : Ends fault (look .makeBackup (fun _ => .ok ()) : MigrationM B Unit) s
      (fun _ s' => s' = s ∧ Spares fault (· = .makeBackup))
      (fun _ s' => Untouched s s' ∧ Strikes fault false (Site.Preparing planned))
      (fun s' => Untouched s s' ∧ Strikes fault true (Site.Preparing planned)) := by
    have hsite : ∀ site, site = Site.makeBackup → site.Preparing planned := by
      rintro _ rfl
      trivial
    refine Ends.mono ends_look (fun _ _ hok => ⟨hok.1, hok.2.2⟩) (fun e s' herror => ?_) (fun s' hkilled => ?_)
    · obtain ⟨rfl, hstrikes | ⟨error, heffect, -⟩⟩ := herror
      · exact ⟨untouched_refl _, hstrikes.mono hsite⟩
      · cases heffect
    · exact ⟨hkilled.1 ▸ untouched_refl _, hkilled.2.mono hsite⟩
  refine hmake.bind (fun _ s₁ h₁ => ?_)
  obtain ⟨rfl, hspares₁⟩ := h₁
  refine Ends.bind (ends_forM (fun (done : List (PlannedFile B)) s' => Untouched s₁ s' ∧
    ∀ file ∈ done, Spares fault (Site.BacksUp file.relativePath)) ⟨untouched_refl _, nofun⟩
    (fun done file rest hplanned s' htrack => ?_)) (fun _ s₂ h₂ => ?_)
  · have hfile : file ∈ planned := by
      rw [hplanned]
      exact List.mem_append_right _ List.mem_cons_self
    have hone : AsPlanned [file] s' := by
      intro file' hfile'
      rw [List.mem_singleton.mp hfile']
      exact h.untouched htrack.1 file hfile
    refine Ends.mono (ends_backupFile hone) (fun _ s'' hok => ⟨htrack.1.trans hok.1, fun file' hfile' => ?_⟩)
      (fun _ s'' herror => ⟨htrack.1.trans herror.1, herror.2.mono (fun _ => preparing_backsUp hfile)⟩)
      (fun s'' hkilled => ⟨htrack.1.trans hkilled.1, hkilled.2.mono (fun _ => preparing_backsUp hfile)⟩)
    rcases List.mem_append.mp hfile' with hfile' | hfile'
    · exact htrack.2 file' hfile'
    · rw [List.mem_singleton.mp hfile']
      exact hok.2
  · have hsite : ∀ site, site = Site.manifest → site.Preparing planned := by
      rintro _ rfl
      trivial
    refine Ends.mono (ends_change rfl) (fun _ s' hok => ?_) (fun e s' herror => ?_) (fun s' hkilled => ?_)
    · obtain ⟨rfl, hspares⟩ := hok
      exact ⟨h₂.1.trans (untouched_manifest _), hspares₁, hspares, h₂.2⟩
    · obtain ⟨⟨left, rfl⟩, hstrikes⟩ := herror
      exact ⟨h₂.1.trans (untouched_torn_manifest left), hstrikes.mono hsite⟩
    · obtain ⟨⟨left, rfl⟩, hstrikes⟩ := hkilled
      exact ⟨h₂.1.trans (untouched_torn_manifest left), hstrikes.mono hsite⟩

end Backup

section Write

/-- The calls of a write before the file is replaced, and the one after it. -/
def Site.Replacing (pass : Pass) (relativePath : String) (site : Site) : Prop :=
  site = .create pass relativePath ∨ site = .chmod pass relativePath ∨ site = .rename pass relativePath

/-- No temporary file of this run is there. -/
def Tidy (stamp : Nat) (s : State B) : Prop := ∀ n, s.files (.temporary n stamp) = none

def replaced (n : String) (content : B) (mode : Nat) (s : State B) : State B :=
  s.put (.target n) (some (.file content (modeOr mode)))

theorem Tidy.put {place : Place} {node : Option (Node B)} (h : Tidy stamp s) (hp : ∀ n, place ≠ .temporary n stamp) :
    Tidy stamp (s.put place node) := fun n => by
  rw [State.put]
  exact (Function.update_of_ne (Ne.symm (hp n)) _ _).trans (h n)

theorem put_put (place : Place) (node node' : Option (Node B)) : (s.put place node).put place node' = s.put place node' := by
  rw [State.put, State.put, State.put]
  dsimp only
  rw [Function.update_idem]

theorem put_same {place : Place} {node : Option (Node B)} (h : s.files place = node) : s.put place node = s := by
  rw [State.put, ← h, Function.update_eq_self]

theorem put_comm {place place' : Place} {node node' : Option (Node B)} (h : place ≠ place') :
    (s.put place node).put place' node' = (s.put place' node').put place node := by
  rw [State.put, State.put, State.put, State.put]
  dsimp only
  rw [Function.update_comm h]

theorem files_put_of_ne {place place' : Place} {node : Option (Node B)} (h : place' ≠ place) :
    (s.put place node).files place' = s.files place' := Function.update_of_ne h _ _

theorem files_put (place : Place) (node : Option (Node B)) : (s.put place node).files place = node :=
  Function.update_self _ _ _

/-- Where a file with a temporary one beside it may be left when the process ends. -/
def LeftBeside (n : String) (stamp : Nat) (s s' : State B) : Prop := ∃ node, s' = s.put (.temporary n stamp) node

theorem leftBeside_refl (n : String) : LeftBeside n stamp s s := ⟨_, (put_same rfl).symm⟩

theorem leftBeside_put {n : String} {s' : State B} (h : LeftBeside n stamp s s') (node : Option (Node B)) :
    LeftBeside n stamp s (s'.put (.temporary n stamp) node) := by
  obtain ⟨node', rfl⟩ := h
  exact ⟨node, put_put _ _ _⟩

theorem leftBeside_torn {n : String} {s' : State B} (h : LeftBeside n stamp s s') (left : Option B) :
    LeftBeside n stamp s (tornFile (.temporary n stamp) left s') := by
  cases left with
  | none => exact h
  | some content => exact leftBeside_put h _

/-- A write replaces the file or leaves it; the temporary file is gone unless the process
was killed. Only the last call fails behind the replacement. -/
theorem ends_atomicWrite (pass : Pass) (n : String) (content : B) (mode : Nat) (h : Tidy stamp s) :
    Ends fault (atomicWrite stamp pass n content mode) s
      (fun _ s' => s' = replaced n content mode s ∧ Spares fault (Site.Replacing pass n) ∧ Spares fault (· = .cleanUp pass n))
      (fun _ s' => s' = s ∧ Strikes fault false (Site.Replacing pass n) ∨
        s' = replaced n content mode s ∧ Strikes fault false (· = .cleanUp pass n))
      (fun s' => LeftBeside n stamp s s' ∧ Strikes fault true (Site.Replacing pass n) ∨
        s' = replaced n content mode s ∧ Strikes fault true (· = .cleanUp pass n)) := by
  let temp := Place.temporary n stamp
  let made := s.put temp (some (.file content (modeOr mode)))
  have hmade : made.files temp = some (.file content (modeOr mode)) := files_put temp _
  have hbody : Ends fault
      (do
        writeNew (.create pass n) temp content (modeOr mode)
        chmod (.chmod pass n) temp (modeOr mode)
        rename (.rename pass n) temp (.target n) : MigrationM B Unit) s
      (fun _ s' => s' = (made.put temp none).put (.target n) (some (.file content (modeOr mode))) ∧
        Spares fault (Site.Replacing pass n))
      (fun _ s' => LeftBeside n stamp s s' ∧ Strikes fault false (Site.Replacing pass n))
      (fun s' => LeftBeside n stamp s s' ∧ Strikes fault true (Site.Replacing pass n)) := by
    have hcreate : Ends fault (writeNew (.create pass n) temp content (modeOr mode)) s
        (fun _ s' => s' = made ∧ Spares fault (· = .create pass n))
        (fun _ s' => LeftBeside n stamp s s' ∧ Strikes fault false (Site.Replacing pass n))
        (fun s' => LeftBeside n stamp s s' ∧ Strikes fault true (Site.Replacing pass n)) := by
      refine Ends.mono (ends_change (by rw [h n])) (fun _ _ hok => hok) (fun e s' herror => ?_) (fun s' hkilled => ?_)
      · obtain ⟨⟨left, rfl⟩, hstrikes⟩ := herror
        exact ⟨leftBeside_torn (leftBeside_refl n) left, hstrikes.mono (fun _ hs => Or.inl hs)⟩
      · obtain ⟨⟨left, rfl⟩, hstrikes⟩ := hkilled
        exact ⟨leftBeside_torn (leftBeside_refl n) left, hstrikes.mono (fun _ hs => Or.inl hs)⟩
    refine hcreate.bind (fun _ s₁ h₁ => ?_)
    obtain ⟨rfl, hspares₁⟩ := h₁
    have hleft : LeftBeside n stamp s made := ⟨_, rfl⟩
    have hchmod : Ends fault (chmod (.chmod pass n) temp (modeOr mode)) made
        (fun _ s' => s' = made ∧ Spares fault (· = .chmod pass n))
        (fun _ s' => LeftBeside n stamp s s' ∧ Strikes fault false (Site.Replacing pass n))
        (fun s' => LeftBeside n stamp s s' ∧ Strikes fault true (Site.Replacing pass n)) := by
      refine Ends.mono (ends_change (by rw [hmade])) (fun _ s' hok => ⟨?_, hok.2⟩) (fun e s' herror => ?_)
        (fun s' hkilled => ?_)
      · exact hok.1.trans (put_put _ _ _)
      · obtain ⟨⟨left, rfl⟩, hstrikes⟩ := herror
        exact ⟨hleft, hstrikes.mono (fun _ hs => Or.inr (Or.inl hs))⟩
      · obtain ⟨⟨left, rfl⟩, hstrikes⟩ := hkilled
        exact ⟨hleft, hstrikes.mono (fun _ hs => Or.inr (Or.inl hs))⟩
    refine hchmod.bind (fun _ s₂ h₂ => ?_)
    obtain ⟨rfl, hspares₂⟩ := h₂
    refine Ends.mono (ends_change (by rw [hmade])) (fun _ s' hok => ⟨hok.1, fun f hf hs => ?_⟩) (fun e s' herror => ?_)
      (fun s' hkilled => ?_)
    · rcases hs with hs | hs | hs
      · exact hspares₁ f hf hs
      · exact hspares₂ f hf hs
      · exact hok.2 f hf hs
    · obtain ⟨⟨left, rfl⟩, hstrikes⟩ := herror
      exact ⟨hleft, hstrikes.mono (fun _ hs => Or.inr (Or.inr hs))⟩
    · obtain ⟨⟨left, rfl⟩, hstrikes⟩ := hkilled
      exact ⟨hleft, hstrikes.mono (fun _ hs => Or.inr (Or.inr hs))⟩
  have hdone : ((made.put temp none).put (.target n) (some (.file content (modeOr mode)))).put temp none =
      replaced n content mode s := by
    have hmade' : made.put temp none = s := (put_put _ _ _).trans (put_same (h n))
    rw [hmade', replaced, put_comm (by simp [temp]), put_same (h n)]
  have hdone' : (made.put temp none).put (.target n) (some (.file content (modeOr mode))) = replaced n content mode s := by
    have hmade' : made.put temp none = s := (put_put _ _ _).trans (put_same (h n))
    rw [hmade', replaced]
  refine Ends.always (Ends.mono hbody (fun _ _ h => h) (fun _ _ h => h) (fun _ h => Or.inl h)) (fun _ s' hok => ?_)
    (fun e s' herror => ?_)
  · obtain ⟨rfl, hspares⟩ := hok
    refine Ends.mono (ends_change rfl) (fun _ s'' hremoved => ⟨hremoved.1.trans hdone, hspares, hremoved.2⟩)
      (fun _ s'' hfailed => Or.inr ?_) (fun s'' hkilled => Or.inr ?_)
    · obtain ⟨⟨left, rfl⟩, hstrikes⟩ := hfailed
      exact ⟨hdone', hstrikes⟩
    · obtain ⟨⟨left, rfl⟩, hstrikes⟩ := hkilled
      exact ⟨hdone', hstrikes⟩
  · obtain ⟨⟨node, rfl⟩, hstrikes⟩ := herror
    -- the same fault cannot strike the clean-up as well
    have hspares : ∀ kills, ¬Strikes fault kills (· = .cleanUp pass n) := by
      rintro kills ⟨f, hf, -, hs⟩
      obtain ⟨f', hf', -, hs'⟩ := hstrikes
      rw [hf] at hf'
      cases hf'
      rw [hs] at hs'
      simp [Site.Replacing] at hs'
    refine Ends.mono (ends_change rfl) (fun _ s'' hremoved => Or.inl ⟨?_, hstrikes⟩)
      (fun _ s'' hfailed => absurd hfailed.2 (hspares false)) (fun s'' hkilled => absurd hkilled.2 (hspares true))
    rw [hremoved.1, put_put]
    exact put_same (h n)

theorem contents_put_other {place : Place} {node : Option (Node B)} (h : ∀ n, place ≠ .target n) :
    contents (s.put place node).files = contents s.files := by
  funext n
  rw [contents, contents, State.put]
  dsimp only
  rw [Function.update_of_ne (Ne.symm (h n))]

theorem contents_replaced (n : String) (content : B) (mode : Nat) :
    contents (replaced n content mode s).files = Function.update (contents s.files) n (some (some content)) := by
  funext m
  rw [Function.update_apply, contents, replaced, State.put]
  dsimp only
  split_ifs with hm
  · rw [hm, Function.update_self]
  · rw [Function.update_of_ne (by simpa using hm), contents]

theorem contents_leftBeside {n : String} {s' : State B} (h : LeftBeside n stamp s s') :
    contents s'.files = contents s.files ∧ s'.files .lock = s.files .lock := by
  obtain ⟨node, rfl⟩ := h
  exact ⟨contents_put_other (by simp), files_put_of_ne (by simp)⟩

theorem contents_untouched {s' : State B} (h : Untouched s s') : contents s'.files = contents s.files := by
  funext n
  rw [contents, contents, h.2 (.target n) (by simp) (by simp)]

/-- Which of the contents are there, with the lock and without files left over. -/
structure Stands (stamp : Nat) (lock : Option (Node B)) (now : String → Option (Option B)) (s : State B) : Prop where
  contents : contents s.files = now
  lock : s.files .lock = lock
  tidy : Tidy stamp s

variable {lock : Option (Node B)} {now old : String → Option (Option B)}

theorem Stands.replaced (h : Stands stamp lock now s) (n : String) (content : B) (mode : Nat) :
    Stands stamp lock (Function.update now n (some (some content))) (replaced n content mode s) :=
  ⟨by rw [contents_replaced, h.contents], (files_put_of_ne (by simp)).trans h.lock, h.tidy.put (by simp)⟩

/-- What the writes leave when one of them does not return: the files before it are
written, and itself only if its last call is the one. -/
def StopsAt (old now : String → Option (Option B)) (planned done : List (PlannedFile B)) (fault : Option (Fault Site (Option B)))
    (kills : Bool) : Prop :=
  ∃ file rest, planned = done ++ file :: rest ∧
    (now = migratedBy done old ∧ Strikes fault kills (Site.Replacing .apply file.relativePath) ∨
      now = migratedBy (done ++ [file]) old ∧ Strikes fault kills (· = .cleanUp .apply file.relativePath))

theorem ends_writeAll (hnodup : (planned.map PlannedFile.relativePath).Nodup) (h : Stands stamp lock old s)
    (hwritten : s.written = []) :
    Ends fault (writeAll stamp planned) s
      (fun _ s' => Stands stamp lock (migratedBy planned old) s' ∧
        ∀ file ∈ planned, Spares fault (Site.Replacing .apply file.relativePath) ∧
          Spares fault (· = .cleanUp .apply file.relativePath))
      (fun _ s' => ∃ now, Stands stamp lock now s' ∧ StopsAt old now planned s'.written fault false)
      (fun s' => s'.files .lock = lock ∧ ∃ done, StopsAt old (contents s'.files) planned done fault true) := by
  refine Ends.mono (ends_forM (fun (done : List (PlannedFile B)) s' => (Stands stamp lock (migratedBy done old) s' ∧
      ∀ file ∈ done, Spares fault (Site.Replacing .apply file.relativePath) ∧
        Spares fault (· = .cleanUp .apply file.relativePath)) ∧ s'.written = done)
    ⟨⟨h, nofun⟩, hwritten⟩ (fun done file rest hplanned s' htrack => ?_)) (fun _ _ h => h.1) (fun _ _ h => h) (fun _ h => h)
  obtain ⟨⟨hstands, hspares⟩, hdone⟩ := htrack
  have hnew : file.relativePath ∉ done.map PlannedFile.relativePath := by
    rw [hplanned, List.map_append, List.map_cons] at hnodup
    exact fun hmem => (List.nodup_append.mp hnodup).2.2 _ hmem _ List.mem_cons_self rfl
  have hstands' := hstands.replaced file.relativePath file.after file.mode
  rw [← migratedBy_concat hnew] at hstands'
  refine (Ends.mono (ends_atomicWrite .apply file.relativePath file.after file.mode hstands.tidy) (fun _ _ h => h)
    (fun e s'' herror => ?_) (fun s'' hkilled => ?_)).bind (fun _ s'' hok => ?_)
  · rcases herror with ⟨rfl, hstrikes⟩ | ⟨rfl, hstrikes⟩
    · exact ⟨_, hstands, file, rest, by rw [hdone, hplanned], Or.inl ⟨by rw [hdone], hstrikes⟩⟩
    · refine ⟨_, hstands', file, rest, ?_, Or.inr ⟨?_, hstrikes⟩⟩
      · change planned = s'.written ++ file :: rest
        rw [hdone, hplanned]
      · change migratedBy (done ++ [file]) old = migratedBy (s'.written ++ [file]) old
        rw [hdone]
  · rcases hkilled with ⟨hleft, hstrikes⟩ | ⟨rfl, hstrikes⟩
    · obtain ⟨hcontents, hlock⟩ := contents_leftBeside hleft
      exact ⟨hlock.trans hstands.lock, done, file, rest, hplanned, Or.inl ⟨hcontents.trans hstands.contents, hstrikes⟩⟩
    · exact ⟨hstands'.lock, done, file, rest, hplanned, Or.inr ⟨hstands'.contents, hstrikes⟩⟩
  · obtain ⟨rfl, hspares₁, hspares₂⟩ := hok
    refine ends_update ⟨⟨⟨hstands'.contents, hstands'.lock, hstands'.tidy⟩, fun file' hfile' => ?_⟩, ?_⟩
    · rcases List.mem_append.mp hfile' with hfile' | hfile'
      · exact hspares file' hfile'
      · rw [List.mem_singleton.mp hfile']
        exact ⟨hspares₁, hspares₂⟩
    · change s'.written ++ [file] = done ++ [file]
      rw [hdone]

/-- Where no call of the rollback is faulty, what was written is as before. -/
theorem ends_restoreAll {written : List (PlannedFile B)} (h : Stands stamp lock now s)
    (hbefore : ∀ file ∈ written, old file.relativePath = some (some file.before))
    (hspares : ∀ n, Spares fault (Site.Replacing .rollback n) ∧ Spares fault (· = .cleanUp .rollback n)) :
    Ends fault (restoreAll stamp written) s
      (fun _ s' => Stands stamp lock
        (fun n => if n ∈ written.map PlannedFile.relativePath then old n else now n) s')
      (fun _ _ => False) (fun _ => False) := by
  have hnot : ∀ n kills, ¬Strikes fault kills (Site.Replacing .rollback n) ∧
      ¬Strikes fault kills (· = .cleanUp .rollback n) := by
    refine fun n kills => ⟨?_, ?_⟩
    · rintro ⟨f, hf, -, hs⟩
      exact (hspares n).1 f hf hs
    · rintro ⟨f, hf, -, hs⟩
      exact (hspares n).2 f hf hs
  refine Ends.mono (ends_forM (fun (done : List (PlannedFile B)) s' => Stands stamp lock
      (fun n => if n ∈ done.map PlannedFile.relativePath then old n else now n) s') (by simpa using h)
    (fun done file rest hwritten s' htrack => ?_)) (fun _ s' hok => ?_) (fun _ _ h => h) (fun _ h => h)
  · have hfile : file ∈ written := by
      rw [← List.mem_reverse, hwritten]
      exact List.mem_append_right _ List.mem_cons_self
    refine Ends.mono (ends_atomicWrite .rollback file.relativePath file.before file.mode htrack.tidy) (fun _ s'' hok => ?_)
      (fun _ s'' herror => ?_) (fun s'' hkilled => ?_)
    · rw [hok.1]
      have hreplaced := htrack.replaced file.relativePath file.before file.mode
      have hsame : Function.update (fun n => if n ∈ done.map PlannedFile.relativePath then old n else now n)
          file.relativePath (some (some file.before)) =
          fun n => if n ∈ (done ++ [file]).map PlannedFile.relativePath then old n else now n := by
        funext n
        rw [Function.update_apply, List.map_append]
        by_cases hn : n = file.relativePath
        · subst hn
          simp [hbefore file hfile]
        · simp [hn]
      rwa [hsame] at hreplaced
    · rcases herror with ⟨-, hstrikes⟩ | ⟨-, hstrikes⟩
      · exact (hnot _ _).1 hstrikes
      · exact (hnot _ _).2 hstrikes
    · rcases hkilled with ⟨-, hstrikes⟩ | ⟨-, hstrikes⟩
      · exact (hnot _ _).1 hstrikes
      · exact (hnot _ _).2 hstrikes
  · simpa using hok

end Write

end Kross.Persistence

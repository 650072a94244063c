import Kross.Mutation.Undo

namespace Kross.Mutation

open Kross.FileTree Kross.Prog

variable {D H α β : Type}

/-- The state with the permission bits of the files; those of a path where no file
stands are of no account. -/
structure ModedState (D H : Type) where
  base : MutationState D H
  modes : FilePath → Nat

abbrev ModedM (D H : Type) := Prog (ModedState D H) MutationError

/-- A step that sets no permission bits. -/
def unmoded (m : MutationM D H α) : ModedM D H α := do
  let s ← get
  match exec m s.base with
  | (.ok a, base) =>
      set { s with base }
      pure a
  | (.error error, base) =>
      set { s with base }
      throw error

/-- A file that is there keeps its bits when it is written. -/
def modesAt (created : Nat) (d : Files) (modes : FilePath → Nat) (place : FilePath) : FilePath → Nat :=
  match d.view place with
  | some (.file _) => modes
  | _ => Function.update modes place created

theorem modesAt_cases (created : Nat) (d : Files) (modes : FilePath → Nat) (place : FilePath) :
    (∃ c, d.view place = some (.file c)) ∧ modesAt created d modes place = modes ∨
      modesAt created d modes place = Function.update modes place created := by
  rw [modesAt]
  split
  · exact Or.inl ⟨⟨_, by assumption⟩, rfl⟩
  · exact Or.inr rfl

def modesAfterWrite (created : Nat) (d : Files) (path : FilePath) (modes : FilePath → Nat) : FilePath → Nat :=
  match resolve d.view path with
  | .found q | .missing q => modesAt created d modes q
  | .nowhere | .blocked => modes

section Restore

variable [DecidableEq D] (created : Nat)

def writeFileModed (path : FilePath) (content : Bytes) : ModedM D H Unit := do
  let s ← get
  unmoded (onDisk (·.writeFileSync path content))
  modify (fun t => { t with modes := modesAfterWrite created s.base.disk path s.modes })

/-- `restoreRoots` with the permission bits that it sets; `created` are those of a new
file. -/
def restoreEntryModed (workspaceRoot : FilePath) (entry : MutationEntrySnapshot D) : ModedM D H Unit := do
  let path := workspaceRoot ++ entry.path
  unmoded (onDisk (·.mkdirSync path.dropLast))
  match entry.kind, entry.contentRef, entry.linkTarget with
  | .file, some ref, _ => do
      let content ← unmoded (readBlob ref)
      writeFileModed created path content
  | .symlink, _, some target => unmoded (onDisk (·.symlinkSync target path))
  | _, _, _ => pure ()

def restoreRootModed (workspaceRoot : FilePath) (root : MutationRootSnapshot D H) : ModedM D H Unit := do
  unmoded (onDisk (·.rmSync (workspaceRoot ++ root.path)))
  (root.entries.filter (·.kind = .directory)).forM
    (fun entry => unmoded (onDisk (·.mkdirSync (workspaceRoot ++ entry.path))))
  (root.entries.filter (·.kind ≠ .directory)).forM (restoreEntryModed created workspaceRoot)

def restoreRootsModed (workspaceRoot : FilePath) (roots : List (MutationRootSnapshot D H)) : ModedM D H Unit :=
  roots.forM (restoreRootModed created workspaceRoot)

end Restore

section Shadows

/-- Without the permission bits, `m` does what `n` does. -/
def Shadows (m : ModedM D H α) (n : MutationM D H α) : Prop :=
  ∀ s, (exec m s).1 = (exec n s.base).1 ∧ (exec m s).2.base = (exec n s.base).2

theorem exec_unmoded (m : MutationM D H α) (s : ModedState D H) :
    exec (unmoded m) s = ((exec m s.base).1, ⟨(exec m s.base).2, s.modes⟩) := by
  rw [unmoded, exec_bind, exec_get]
  dsimp only
  generalize exec m s.base = x
  obtain ⟨error | a, base⟩ := x <;> rfl

theorem shadows_unmoded (m : MutationM D H α) : Shadows (unmoded m) m := fun s => by
  rw [exec_unmoded]
  exact ⟨rfl, rfl⟩

theorem shadows_pure (a : α) : Shadows (pure a : ModedM D H α) (pure a) := fun _ => ⟨rfl, rfl⟩

theorem Shadows.bind {m : ModedM D H α} {n : MutationM D H α} {f : α → ModedM D H β} {g : α → MutationM D H β}
    (h : Shadows m n) (hf : ∀ a, Shadows (f a) (g a)) : Shadows (m >>= f) (n >>= g) := by
  intro s
  obtain ⟨hresult, hbase⟩ := h s
  rw [exec_bind, exec_bind]
  generalize exec m s = x at hresult hbase ⊢
  generalize exec n s.base = y at hresult hbase ⊢
  obtain ⟨r, t⟩ := x
  obtain ⟨r', b⟩ := y
  dsimp only at hresult hbase
  subst hresult
  subst hbase
  cases r with
  | error error => exact ⟨rfl, rfl⟩
  | ok a => exact hf a t

theorem shadows_forM {l : List α} {f : α → ModedM D H PUnit} {g : α → MutationM D H PUnit}
    (h : ∀ a, Shadows (f a) (g a)) : Shadows (l.forM f) (l.forM g) := by
  induction l with
  | nil => exact shadows_pure _
  | cons a l ih => exact (h a).bind (fun _ => ih)

theorem Shadows.runs {m : ModedM D H α} {n : MutationM D H α} (h : Shadows m n) {s : ModedState D H} {a : α}
    {b : MutationState D H} (hn : Runs n s.base a b) : ∃ modes, Runs m s a ⟨b, modes⟩ := by
  obtain ⟨hresult, hbase⟩ := h s
  rw [hn] at hresult hbase
  refine ⟨(exec m s).2.modes, ?_⟩
  rw [Runs]
  generalize exec m s = x at hresult hbase ⊢
  obtain ⟨r, t⟩ := x
  dsimp only at hresult hbase ⊢
  rw [hresult, ← hbase]

variable [DecidableEq D] (created : Nat)

omit [DecidableEq D] in
theorem shadows_writeFileModed (path : FilePath) (content : Bytes) :
    Shadows (writeFileModed created path content : ModedM D H Unit) (onDisk (·.writeFileSync path content)) := by
  intro s
  rw [writeFileModed, exec_bind, exec_get]
  dsimp only
  rw [exec_bind, exec_unmoded]
  generalize exec (onDisk (·.writeFileSync path content) : MutationM D H Unit) s.base = x
  obtain ⟨error | ⟨⟩, base⟩ := x <;> exact ⟨rfl, rfl⟩

theorem shadows_restoreEntryModed (w : FilePath) (entry : MutationEntrySnapshot D) :
    Shadows (restoreEntryModed (H := H) created w entry) (restoreEntry w entry) := by
  refine (shadows_unmoded _).bind (fun _ => ?_)
  obtain ⟨path, kind, hash, ref, target⟩ := entry
  cases kind with
  | directory => exact shadows_pure _
  | file => cases ref with
    | none => exact shadows_pure _
    | some ref => exact (shadows_unmoded _).bind (fun content => shadows_writeFileModed created _ _)
  | symlink => cases target with
    | none => exact shadows_pure _
    | some target => exact shadows_unmoded _

theorem shadows_restoreRootsModed (w : FilePath) (roots : List (MutationRootSnapshot D H)) :
    Shadows (restoreRootsModed created w roots) (restoreRoots w roots) :=
  shadows_forM (fun _ => (shadows_unmoded _).bind (fun _ =>
    (shadows_forM (fun _ => shadows_unmoded _)).bind (fun _ => shadows_forM (shadows_restoreEntryModed created w))))

end Shadows

end Kross.Mutation

import Kross.Mutation.Service

namespace Kross.Mutation

open Kross.FileTree Kross.Prog

variable {D H : Type}

/-- What a service keeps for itself: its blobs and its journal. -/
structure ServiceStore (D H : Type) where
  blobs : List (D × Bytes)
  journal : Journal (PreparedMutation D H) (List (MutationRootSnapshot D H))

/-- The services of a `MutationCoordinator` in the order of their creation, over
one disk. No journal is there before its service. -/
structure CoordinatorState (D H : Type) where
  disk : Files
  services : List (FilePath × ServiceStore D H)

abbrev CoordinatorM (D H : Type) := Prog (CoordinatorState D H) MutationError

def serviceState (s : CoordinatorState D H) (root : FilePath) : MutationState D H :=
  let store := (mapGet root s.services).getD ⟨[], .empty⟩
  ⟨s.disk, store.blobs, store.journal⟩

def putService (s : CoordinatorState D H) (root : FilePath) (t : MutationState D H) :
    CoordinatorState D H := ⟨t.disk, mapSet root ⟨t.blobs, t.journal⟩ s.services⟩

/-- A method of the service at `root`, which is created if need be. -/
def onService {α : Type} (root : FilePath) (m : MutationM D H α) : CoordinatorM D H α := do
  let s ← get
  match exec m (serviceState s root) with
  | (.ok a, t) => do
      set (putService s root t)
      pure a
  | (.error error, t) => do
      set (putService s root t)
      throw error

def canonicalRoot (v : View String Bytes) (workspaceRoot : FilePath) : FilePath :=
  match resolve v workspaceRoot with
  | .found p => p
  | _ => workspaceRoot

def commonAncestor : List FilePath → FilePath
  | [] => []
  | path :: paths => paths.foldl
      (fun current target => (current.inits.reverse.find? (isPathWithin target ·)).getD []) path

def mergeUndoResults (results : List UndoResult) : UndoResult :=
  ⟨results.flatMap (·.transactions), distinct (results.flatMap (·.files))⟩

section Coordinator

variable [DecidableEq D] [DecidableEq H] (sha : Sha256 D H)

/-- `forWorkspace(workspaceRoot).record(input)`. -/
def recordIn (workspaceRoot : FilePath) (input : RecordInput) (action : Action) :
    CoordinatorM D H Unit := do
  let root := canonicalRoot (← get).disk.view workspaceRoot
  onService root (record sha root input action)

/-- The root of `recordAbsolute` and its paths below it. -/
def absoluteCall (input : RecordInput) : FilePath × RecordInput :=
  let absolutePaths := distinct input.paths
  let root := commonAncestor (absolutePaths.map List.dropLast)
  (root, { input with paths := absolutePaths.map (List.drop root.length) })

def recordAbsolute (input : RecordInput) (action : Action) : CoordinatorM D H Unit :=
  if input.paths = [] then throw .noPath
  else recordIn sha (absoluteCall input).1 (absoluteCall input).2 action

def candidates (s : CoordinatorState D H) : List (FilePath × MutationRecord D H) :=
  s.services.flatMap (fun service => (listActive service.2.journal).map (fun item => (service.1, item)))

/-- The services that hold a transaction the target names. -/
def byService (s : CoordinatorState D H) (target : String) : List FilePath :=
  distinct (((candidates s).filter
    (fun c => c.2.1.runId = target ∨ c.2.1.transactionId = target)).map Prod.fst)

def coordinatorUndo (now : String) (target : Option String) : CoordinatorM D H UndoResult := do
  let s ← get
  match target with
  | some target => do
      if byService s target = [] then throw (.nothingReversible none)
      (byService s target).forM (fun root => onService root (assertCanUndo sha root (some target)))
      let results ← (byService s target).mapM
        (fun root => onService root (undo sha root now (some target)))
      pure (mergeUndoResults results)
  | none =>
      match ((candidates s).insertionSort (fun a b => a.2.1.createdAt ≤ b.2.1.createdAt)).getLast? with
      | some (root, item) => onService root (undo sha root now (some item.1.transactionId))
      | none => throw (.nothingReversible none)

end Coordinator

end Kross.Mutation

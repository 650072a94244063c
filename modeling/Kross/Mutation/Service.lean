import Kross.Mutation.Snapshot

namespace Kross.Mutation

open Kross.FileTree

variable {D H : Type}

abbrev MutationRecord (D H : Type) := PreparedMutation D H × List (MutationRootSnapshot D H)

def MutationError.message : MutationError → String
  | .fs .ENOENT => "ENOENT"
  | .fs .ENOTDIR => "ENOTDIR"
  | .fs .EEXIST => "EEXIST"
  | .fs .EISDIR => "EISDIR"
  | .noBlob => "ENOENT"
  | .boundary attemptedPath => "路径超出 workspace 范围，已拒绝：" ++ "/".intercalate attemptedPath
  | .unknownPrepared transactionId => "Unknown prepared mutation: " ++ transactionId
  | .conflict paths => "Cannot undo because files changed after the mutation: " ++
      ", ".intercalate (paths.map (fun path => "/".intercalate path))
  | .nothingReversible (some target) => "No reversible mutation found: " ++ target
  | .nothingReversible none => "No reversible mutations"
  | .noPath => "At least one mutation path is required"
  | .action message => message

def realpathExistingAncestor (v : View String Bytes) (workspaceRoot : FilePath) :
    List FilePath → Option FilePath
  | [] => none
  | path :: paths => match resolve v (workspaceRoot ++ path) with
    | .found p => some p
    | .blocked => none
    | _ => realpathExistingAncestor v workspaceRoot paths

/-- `resolveWritablePathWithinWorkspace` for a path of the workspace: whether
it, or its nearest existing ancestor, really lies there. -/
def isWritablePath (v : View String Bytes) (workspaceRoot inputPath : FilePath) : Bool :=
  match resolve v workspaceRoot with
  | .found realBase => match resolve v (workspaceRoot ++ inputPath) with
    | .found realTarget => isPathWithin realTarget realBase
    | .blocked => false
    | _ => match realpathExistingAncestor v workspaceRoot inputPath.dropLast.inits.reverse with
      | some realParent => isPathWithin realParent realBase
      | none => false
  | _ => false

def sameRoots [DecidableEq H] (a b : List (MutationRootSnapshot D H)) : Bool :=
  a.length = b.length ∧ (a.zip b).all (fun e => e.1.path = e.2.path ∧ e.1.hash = e.2.hash)

section Compose

variable (sha : Sha256 D H)

abbrev EntryMap (D : Type) := List (FilePath × MutationEntrySnapshot D)

/-- One root of one transaction, replayed into the entry map. -/
def composeRoot (entries : EntryMap D) (root : MutationRootSnapshot D H) : EntryMap D :=
  root.entries.foldl (fun entries entry => mapSet entry.path entry entries)
    (entries.filter (fun e => !isPathWithin e.1 root.path))

def composeEntries (transactions : List (MutationRecord D H)) : EntryMap D :=
  transactions.foldl (fun entries transaction => transaction.2.foldl composeRoot entries) []

def distinct {α : Type} [DecidableEq α] (l : List α) : List α := l.reverse.dedup.reverse

def topLevelRoots (transactions : List (MutationRecord D H)) : List FilePath :=
  let rootPaths := transactions.flatMap (fun transaction => transaction.2.map (·.path))
  (distinct rootPaths).filter
    (fun candidate => !rootPaths.any (fun other => other ≠ candidate ∧ isPathWithin candidate other))

def snapshotChildren (entries : EntryMap D) (rootPath path : FilePath) : List String :=
  (entries.map Prod.fst).filterMap
    (fun p => if p ≠ rootPath ∧ p.dropLast = path then p.getLast? else none)

def snapshotDepth (entries : EntryMap D) : Nat :=
  (entries.map (fun e => e.1.length)).foldr max 0 + 1

def orderSnapshotEntries (entries : EntryMap D) (rootPath : FilePath) :
    List (MutationEntrySnapshot D) :=
  (traverse (fun path => mapGet path entries) (·.kind = .directory) (snapshotChildren entries rootPath)
    (snapshotDepth entries) rootPath).map Prod.snd

/-- The state the transactions leave behind, root by root, as their snapshots
tell it. -/
def composeFinalRoots (transactions : List (MutationRecord D H)) : List (MutationRootSnapshot D H) :=
  let entries := composeEntries transactions
  (topLevelRoots transactions).map (fun path =>
    let rootEntries :=
      orderSnapshotEntries (entries.filter (fun e => isPathWithin e.2.path path)) path
    ⟨path, sha.ofEntries rootEntries, rootEntries⟩)

end Compose

def listActive (journal : Journal (PreparedMutation D H) (List (MutationRootSnapshot D H))) :
    List (MutationRecord D H) :=
  ((journal.committed.map Prod.snd).filter (fun item => item.1.transactionId ∉ journal.inactive)).insertionSort
    (fun a b => a.1.createdAt ≤ b.1.createdAt)

def select (journal : Journal (PreparedMutation D H) (List (MutationRootSnapshot D H))) :
    Option String → List (MutationRecord D H)
  | some target => (listActive journal).filter
      (fun item => item.1.runId = target ∨ item.1.transactionId = target)
  | none => (listActive journal).getLast?.toList

structure UndoResult where
  transactions : List String
  files : List FilePath
  deriving DecidableEq

structure RecordInput where
  transactionId : String
  runId : String
  createdAt : Nat
  paths : List FilePath

section Service

variable [DecidableEq D] [DecidableEq H] (sha : Sha256 D H) (workspaceRoot : FilePath)

def captureRoots (paths : List FilePath) : MutationM D H (List (MutationRootSnapshot D H)) := do
  let s ← get
  set { s with blobs := paths.foldl (captureBlobs sha workspaceRoot s.disk) s.blobs }
  pure (paths.map (captureRoot sha workspaceRoot s.disk))

def appendEvent (event : MutationEvent (PreparedMutation D H) (List (MutationRootSnapshot D H))) :
    MutationM D H Unit :=
  modify (fun s => { s with journal := s.journal.apply event })

def appendCommitted (transactionId : String) (post : List (MutationRootSnapshot D H)) :
    MutationM D H Unit := do
  match mapGet transactionId (← get).journal.prepared with
  | none => throw (.unknownPrepared transactionId)
  | some _ => appendEvent (.committed transactionId post)

/-- `record` up to the start of its action. -/
def prepare (input : RecordInput) : MutationM D H (PreparedMutation D H) := do
  let pre ← captureRoots sha workspaceRoot input.paths
  let prepared : PreparedMutation D H := ⟨input.transactionId, input.runId, input.createdAt, pre⟩
  appendEvent (.prepared prepared)
  pure prepared

/-- `record` once its action has returned. -/
def settle (prepared : PreparedMutation D H) (paths : List FilePath) : MutationM D H Unit := do
  let post ← captureRoots sha workspaceRoot paths
  if sameRoots prepared.pre post then
    appendEvent (.rolledBack prepared.transactionId "no-change")
  else
    appendCommitted prepared.transactionId post

/-- `record` once its action has thrown. -/
def rollBack (prepared : PreparedMutation D H) (reason : String) : MutationM D H Unit := do
  restoreRoots workspaceRoot prepared.pre
  appendEvent (.rolledBack prepared.transactionId reason)

/-- What an action does to the disk, and the message of the error it throws. -/
abbrev Action := Files → Files × Option String

def runAction (action : Action) : MutationM D H Unit := do
  let s ← get
  let (disk, error) := action s.disk
  set { s with disk }
  match error with
  | some message => throw (.action message)
  | none => pure ()

def record (input : RecordInput) (action : Action) : MutationM D H Unit := do
  let s ← get
  match input.paths.find? (fun path => !isWritablePath s.disk.view workspaceRoot path) with
  | some path => throw (.boundary path)
  | none => do
      let prepared ← prepare sha workspaceRoot input
      tryCatch
        (do
          runAction action
          settle sha workspaceRoot prepared input.paths)
        (fun error => do
          rollBack workspaceRoot prepared error.message
          throw error)

def assertTransactionsCanUndo (transactions : List (MutationRecord D H)) : MutationM D H Unit := do
  let expected := composeFinalRoots sha transactions
  let current ← captureRoots sha workspaceRoot (expected.map (·.path))
  let conflicts := (expected.zip current).filter (fun e => e.2.hash ≠ e.1.hash)
  if conflicts ≠ [] then throw (.conflict (distinct (conflicts.map (·.1.path))))

def assertCanUndo (target : Option String) : MutationM D H Unit := do
  assertTransactionsCanUndo sha workspaceRoot (select (← get).journal target)

def undoTransaction (now : String) (transaction : MutationRecord D H) : MutationM D H Unit := do
  restoreRoots workspaceRoot transaction.1.pre
  appendEvent (.undone transaction.1.transactionId now)

def undo (now : String) (target : Option String) : MutationM D H UndoResult := do
  let selected := select (← get).journal target
  if selected.isEmpty then throw (.nothingReversible target)
  let ordered := selected.reverse
  assertTransactionsCanUndo sha workspaceRoot selected
  ordered.forM (undoTransaction workspaceRoot now)
  pure ⟨ordered.map (·.1.transactionId),
    distinct (ordered.flatMap (fun item => item.1.pre.map (·.path)))⟩

def recoverIncomplete : MutationM D H Unit := do
  (← get).journal.listIncomplete.forM (fun mutation =>
    rollBack workspaceRoot mutation "recovered-incomplete")

end Service

end Kross.Mutation

import Kross.Disk
import Kross.Traverse
import Kross.Prog
import Kross.Mutation.Journal
import Mathlib.Data.String.Basic

namespace Kross.Mutation

open Kross.FileTree

abbrev Bytes := List UInt8

abbrev FilePath := Path String

abbrev FileNode := Node String Bytes

abbrev Files := Disk String Bytes

inductive EntryKind
  | file
  | directory
  | symlink
  deriving DecidableEq

/-- The path is relative to the root of the service; `D` holds the digests. -/
structure MutationEntrySnapshot (D : Type) where
  path : FilePath
  kind : EntryKind
  hash : D
  contentRef : Option D
  linkTarget : Option (Target String)
  deriving DecidableEq

structure MutationRootSnapshot (D H : Type) where
  path : FilePath
  hash : H
  entries : List (MutationEntrySnapshot D)
  deriving DecidableEq

/-- The digests the snapshots are built on, with no collisions: of file bytes,
of link targets, and of whole entry lists. `directory` is the fixed digest of a
directory entry. -/
structure Sha256 (D H : Type) where
  ofBytes : Bytes → D
  ofTarget : Target String → D
  ofEntries : List (MutationEntrySnapshot D) → H
  directory : D
  bytes_injective : Function.Injective ofBytes
  entries_injective : Function.Injective ofEntries

inductive Digest
  | bytes (content : Bytes)
  | target (target : Target String)
  | directory
  deriving DecidableEq

/-- Digests without collisions that can be evaluated: each is what it was made
from. -/
def Sha256.verbatim : Sha256 Digest (List (MutationEntrySnapshot Digest)) where
  ofBytes := .bytes
  ofTarget := .target
  ofEntries := id
  directory := .directory
  bytes_injective := fun _ _ h => Digest.bytes.inj h
  entries_injective := fun _ _ h => h

variable {D H : Type}

def isPathWithin (path root : FilePath) : Bool := root.isPrefixOf path

theorem isPathWithin_iff {path root : FilePath} : isPathWithin path root = true ↔ root <+: path :=
  List.isPrefixOf_iff_prefix

def isDirectory (node : FileNode) : Bool := node = .directory

/-- `captureEntry`: what stands at `absolute` and below it, at absolute paths. -/
def captureEntry (d : Files) (absolute : FilePath) : List (FilePath × FileNode) :=
  traverse (lstat d.view) isDirectory d.readdirSync d.height absolute

def entrySnapshot (sha : Sha256 D H) (path : FilePath) : FileNode → MutationEntrySnapshot D
  | .file content => ⟨path, .file, sha.ofBytes content, some (sha.ofBytes content), none⟩
  | .directory => ⟨path, .directory, sha.directory, none, none⟩
  | .link target => ⟨path, .symlink, sha.ofTarget target, none, some target⟩

/-- The listing `captureRoot` makes its entries from. -/
def captured (workspaceRoot : FilePath) (d : Files) (inputPath : FilePath) :
    List (FilePath × FileNode) :=
  if existsSync d.view (workspaceRoot ++ inputPath) then captureEntry d (workspaceRoot ++ inputPath)
  else []

def captureRoot (sha : Sha256 D H) (workspaceRoot : FilePath) (d : Files) (inputPath : FilePath) :
    MutationRootSnapshot D H :=
  let entries := (captured workspaceRoot d inputPath).map
    (fun e => entrySnapshot sha (e.1.drop workspaceRoot.length) e.2)
  ⟨inputPath, sha.ofEntries entries, entries⟩

section Blobs

variable [DecidableEq D]

def writeBlob (sha : Sha256 D H) (blobs : List (D × Bytes)) (content : Bytes) : List (D × Bytes) :=
  if (blobs.lookup (sha.ofBytes content)).isSome then blobs
  else (sha.ofBytes content, content) :: blobs

/-- The blobs `captureRoot` leaves behind. -/
def captureBlobs (sha : Sha256 D H) (workspaceRoot : FilePath) (d : Files)
    (blobs : List (D × Bytes)) (inputPath : FilePath) : List (D × Bytes) :=
  (captured workspaceRoot d inputPath).foldl (fun blobs e => match e.2 with
    | .file content => writeBlob sha blobs content
    | _ => blobs) blobs

end Blobs

structure PreparedMutation (D H : Type) where
  transactionId : String
  runId : String
  createdAt : Nat
  pre : List (MutationRootSnapshot D H)
  deriving DecidableEq

instance : Transaction (PreparedMutation D H) := ⟨PreparedMutation.transactionId⟩

/-- What the methods of a `MutationService` read and write: the disk, the blobs
of the service and its journal. -/
structure MutationState (D H : Type) where
  disk : Files
  blobs : List (D × Bytes)
  journal : Journal (PreparedMutation D H) (List (MutationRootSnapshot D H))

inductive MutationError
  | fs (error : Disk.FsError)
  | noBlob
  | boundary (attemptedPath : FilePath)
  | unknownPrepared (transactionId : String)
  | conflict (paths : List FilePath)
  | nothingReversible (target : Option String)
  | noPath
  | action (message : String)
  deriving DecidableEq

abbrev MutationM (D H : Type) := Prog (MutationState D H) MutationError

def onDisk (f : Files → Except Disk.FsError Files) : MutationM D H Unit := do
  let s ← get
  match f s.disk with
  | .ok disk => set { s with disk }
  | .error error => throw (.fs error)

section Restore

variable [DecidableEq D]

def readBlob (ref : D) : MutationM D H Bytes := do
  match (← get).blobs.lookup ref with
  | some content => pure content
  | none => throw .noBlob

def restoreEntry (workspaceRoot : FilePath) (entry : MutationEntrySnapshot D) :
    MutationM D H Unit := do
  let path := workspaceRoot ++ entry.path
  onDisk (·.mkdirSync path.dropLast)
  match entry.kind, entry.contentRef, entry.linkTarget with
  | .file, some ref, _ => do
      let content ← readBlob ref
      onDisk (·.writeFileSync path content)
  | .symlink, _, some target => onDisk (·.symlinkSync target path)
  | _, _, _ => pure ()

def restoreRoot (workspaceRoot : FilePath) (root : MutationRootSnapshot D H) :
    MutationM D H Unit := do
  onDisk (·.rmSync (workspaceRoot ++ root.path))
  (root.entries.filter (·.kind = .directory)).forM
    (fun entry => onDisk (·.mkdirSync (workspaceRoot ++ entry.path)))
  (root.entries.filter (·.kind ≠ .directory)).forM (restoreEntry workspaceRoot)

def restoreRoots (workspaceRoot : FilePath) (roots : List (MutationRootSnapshot D H)) :
    MutationM D H Unit := roots.forM (restoreRoot workspaceRoot)

end Restore

end Kross.Mutation

import Kross.Utf8Strict
import Mathlib.Algebra.GroupWithZero.Nat

namespace Kross.Workspace

open Utf8

inductive ProjectInstructionFilename
  | claude
  | agents
  | kross
  deriving DecidableEq

namespace ProjectInstructionFilename

def text : ProjectInstructionFilename → String
  | .claude => "CLAUDE.md"
  | .agents => "AGENTS.md"
  | .kross => "KROSS.md"

def precedence : ProjectInstructionFilename → Nat
  | .claude => 10
  | .agents => 20
  | .kross => 30

end ProjectInstructionFilename

def projectInstructionFilenames : List ProjectInstructionFilename := [.claude, .agents, .kross]

structure ProjectInstructionRoot where
  id : String
  path : String
  primary : Bool

structure ProjectInstructionFile where
  sourceId : String
  rootId : String
  rootPath : String
  rootPrimary : Bool
  filename : ProjectInstructionFilename
  path : String
  relativePath : String
  precedence : Nat
  content : List Char
  originalBytes : Nat
  injectedBytes : Nat
  truncated : Bool

inductive DiagnosticCode
  | outsideRoot
  | notFile
  | readFailed
  | empty
  | fileLimit
  | totalLimit
  deriving DecidableEq

structure Diagnostic where
  rootId : String
  path : String
  code : DiagnosticCode
  message : String

structure Candidate where
  root : ProjectInstructionRoot
  rootPath : String
  rootOrder : Nat
  filename : ProjectInstructionFilename
  path : String
  content : List UInt8

structure ProjectInstructionsSnapshot where
  files : List ProjectInstructionFile
  diagnostics : List Diagnostic
  totalOriginalBytes : Nat
  totalInjectedBytes : Nat
  signature : String

structure LoadProjectInstructionsInput where
  roots : List ProjectInstructionRoot
  maxFiles : Option Int
  maxFileBytes : Option Int
  maxTotalBytes : Option Int

/-- An error that node:fs throws, with `String(error)`. -/
structure Failure where
  code : Option String
  text : String

/-- What node:path and node:fs give, the text of the decoder's error, and the digest of `signatureFor`. -/
structure Host where
  resolve : String → String
  join : String → String → String
  relative : String → String → String
  isAbsolute : String → Bool
  realpath : String → Except Failure String
  lstat : String → Except Failure Unit
  isFile : String → Except Failure Bool
  readFile : String → Except Failure (List UInt8)
  notUtf8 : String
  signatureFor : List ProjectInstructionFile → List Diagnostic → String

section Truncating

def byteOrderMark : Char := '\uFEFF'

def dropByteOrderMark (text : List Char) : List Char := if text.head? = some byteOrderMark then text.tail else text

/-- A decoder that throws, and drops a byte order mark. -/
def decodeUtf8 (buffer : List UInt8) : Option (List Char) := (decodeFatal buffer).map dropByteOrderMark

def shrinkPrefix (buffer : List UInt8) : Nat → List UInt8
  | 0 => []
  | stop + 1 =>
    let slice := buffer.take (stop + 1)
    if (decodeUtf8 slice).isSome then slice else shrinkPrefix buffer stop

def decodeSafePrefix (buffer : List UInt8) (maxBytes : Nat) : List UInt8 :=
  shrinkPrefix buffer (min buffer.length maxBytes)

def shrinkSuffix : List UInt8 → List UInt8
  | [] => []
  | b :: slice => if (decodeUtf8 (b :: slice)).isSome then b :: slice else shrinkSuffix slice

def decodeSafeSuffix (buffer : List UInt8) (maxBytes : Nat) : List UInt8 :=
  shrinkSuffix (buffer.drop (buffer.length - maxBytes))

def marker (originalBytes : Nat) : List Char :=
  ("\n\n[... project instructions truncated; original " ++ toString originalBytes ++ " bytes ...]\n\n").toList

structure Truncated where
  content : List Char
  bytes : Nat
  truncated : Bool

/-- What is left of a buffer with more bytes than it may have. -/
def headAndTail (buffer : List UInt8) (maxBytes : Nat) : List UInt8 :=
  let mark := encode (marker buffer.length)
  if maxBytes ≤ mark.length then decodeSafePrefix buffer maxBytes
  else
    let remaining := maxBytes - mark.length
    let head := decodeSafePrefix buffer ((remaining + 1) / 2)
    let tail := decodeSafeSuffix buffer (remaining - head.length)
    head ++ mark ++ tail

def truncateUtf8HeadTail (buffer : List UInt8) (maxBytes : Nat) : Option Truncated :=
  if buffer.length ≤ maxBytes then (decodeUtf8 buffer).map fun content => ⟨content, buffer.length, false⟩
  else
    (decodeUtf8 (headAndTail buffer maxBytes)).map fun content => ⟨content, (headAndTail buffer maxBytes).length, true⟩

end Truncating

section Inspecting

def orderedRoots (roots : List ProjectInstructionRoot) : List ProjectInstructionRoot :=
  (roots.zipIdx.mergeSort fun a b => if a.1.primary ≠ b.1.primary then a.1.primary else a.2 ≤ b.2).map Prod.fst

def isWithinRoot (host : Host) (rootPath candidatePath : String) : Bool :=
  let pathFromRoot := host.relative rootPath candidatePath
  pathFromRoot = "" || !"..".isPrefixOf pathFromRoot && !host.isAbsolute pathFromRoot

/-- What a root, or a name in it, comes to. -/
inductive Inspection
  | absent
  | refused (diagnostic : Diagnostic)
  | found (candidate : Candidate)

def Inspection.diagnostic? : Inspection → Option Diagnostic
  | .refused diagnostic => some diagnostic
  | _ => none

def Inspection.candidate? : Inspection → Option Candidate
  | .found candidate => some candidate
  | _ => none

/-- What is at the path that a name leads to. -/
def readCandidate (host : Host) (candidate : List UInt8 → Candidate)
    (refuse : DiagnosticCode → String → Inspection) (canonicalPath : String) : Inspection :=
  match host.isFile canonicalPath with
  | .error error => refuse .readFailed ("Cannot read UTF-8 instruction file: " ++ error.text)
  | .ok false => refuse .notFile "Instruction candidate is not a regular file"
  | .ok true =>
    match host.readFile canonicalPath with
    | .error error => refuse .readFailed ("Cannot read UTF-8 instruction file: " ++ error.text)
    | .ok content =>
      if content.length = 0 then refuse .empty "Instruction file is empty"
      else if (decodeUtf8 content).isSome then .found (candidate content)
      else refuse .readFailed ("Cannot read UTF-8 instruction file: " ++ host.notUtf8)

def inspectName (host : Host) (root : ProjectInstructionRoot) (rootOrder : Nat) (canonicalRoot : String)
    (filename : ProjectInstructionFilename) : Inspection :=
  let rootPath := host.resolve root.path
  let path := host.join rootPath filename.text
  let refuse code message := .refused ⟨root.id, path, code, message⟩
  match host.lstat path with
  | .error error =>
    if error.code = some "ENOENT" then .absent else refuse .readFailed ("Cannot inspect file: " ++ error.text)
  | .ok _ =>
    match host.realpath path with
    | .error error => refuse .readFailed ("Cannot resolve file: " ++ error.text)
    | .ok canonicalPath =>
      if isWithinRoot host canonicalRoot canonicalPath then
        readCandidate host (fun content => ⟨root, rootPath, rootOrder, filename, path, content⟩) refuse canonicalPath
      else refuse .outsideRoot ("Resolved path is outside workspace root: " ++ canonicalPath)

def inspectRoot (host : Host) (entry : ProjectInstructionRoot × Nat) : List Inspection :=
  let rootPath := host.resolve entry.1.path
  match host.realpath rootPath with
  | .error error =>
    [.refused ⟨entry.1.id, rootPath, .readFailed, "Cannot resolve workspace root: " ++ error.text⟩]
  | .ok canonicalRoot => projectInstructionFilenames.map (inspectName host entry.1 entry.2 canonicalRoot)

def inspections (host : Host) (roots : List ProjectInstructionRoot) : List Inspection :=
  (orderedRoots roots).zipIdx.flatMap (inspectRoot host)

def candidates (host : Host) (roots : List ProjectInstructionRoot) : List Candidate :=
  (inspections host roots).filterMap Inspection.candidate?

end Inspecting

section Allocating

structure Limits where
  files : Nat
  fileBytes : Nat
  totalBytes : Nat

def limitOf (value : Option Int) (fallback : Nat) : Nat := (max 0 (value.getD fallback)).toNat

def LoadProjectInstructionsInput.limits (input : LoadProjectInstructionsInput) : Limits where
  files := limitOf input.maxFiles 16
  fileBytes := limitOf input.maxFileBytes (32 * 1024)
  totalBytes := limitOf input.maxTotalBytes (64 * 1024)

/-- An earlier root first, and in a root the file of the higher precedence. -/
def allocatesBefore (a b : Candidate) : Bool :=
  if a.rootOrder ≠ b.rootOrder then a.rootOrder < b.rootOrder else b.filename.precedence ≤ a.filename.precedence

def allocationOrder (candidates : List Candidate) : List Candidate := candidates.mergeSort allocatesBefore

structure Allocation where
  selected : List ProjectInstructionFile
  totalInjectedBytes : Nat
  diagnostics : List Diagnostic

def injected (candidate : Candidate) (truncated : Truncated) : ProjectInstructionFile where
  sourceId := "project-instruction:" ++ candidate.root.id ++ ":" ++ candidate.filename.text
  rootId := candidate.root.id
  rootPath := candidate.rootPath
  rootPrimary := candidate.root.primary
  filename := candidate.filename
  path := candidate.path
  relativePath := candidate.filename.text
  precedence := candidate.filename.precedence
  content := truncated.content
  originalBytes := candidate.content.length
  injectedBytes := truncated.bytes
  truncated := truncated.truncated

def Allocation.skip (a : Allocation) (candidate : Candidate) (code : DiagnosticCode) (message : String) : Allocation :=
  { a with diagnostics := a.diagnostics ++ [⟨candidate.root.id, candidate.path, code, message⟩] }

def Allocation.select (a : Allocation) (candidate : Candidate) (truncated : Truncated) : Allocation :=
  { a with
    selected := a.selected ++ [injected candidate truncated]
    totalInjectedBytes := a.totalInjectedBytes + truncated.bytes }

def allocate (limits : Limits) (index : Nat) (a : Allocation) (candidate : Candidate) : Option Allocation :=
  if limits.files ≤ index then
    some (a.skip candidate .fileLimit
      ("Skipped because the " ++ toString limits.files ++ "-file instruction limit was reached"))
  else
    (truncateUtf8HeadTail candidate.content limits.fileBytes).map fun truncated =>
      if limits.totalBytes < a.totalInjectedBytes + truncated.bytes then
        a.skip candidate .totalLimit
          ("Skipped because the " ++ toString limits.totalBytes ++ "-byte total instruction limit was reached")
      else a.select candidate truncated

def allocateAll (limits : Limits) : Nat → Allocation → List Candidate → Option Allocation
  | _, a, [] => some a
  | index, a, candidate :: rest => (allocate limits index a candidate).bind fun a => allocateAll limits (index + 1) a rest

/-- How the files are shown: root by root, the file of the highest precedence last. -/
def shownBefore (roots : List ProjectInstructionRoot) (a b : ProjectInstructionFile) : Bool :=
  let place (file : ProjectInstructionFile) := roots.findIdx fun root => root.id = file.rootId
  if place a ≠ place b then place a < place b else a.precedence ≤ b.precedence

/-- No file is selected yet, and there are the diagnostics of what was refused. -/
def Allocation.start (host : Host) (input : LoadProjectInstructionsInput) : Allocation :=
  ⟨[], 0, (inspections host input.roots).filterMap Inspection.diagnostic?⟩

def Allocation.snapshot (a : Allocation) (host : Host) (input : LoadProjectInstructionsInput) :
    ProjectInstructionsSnapshot :=
  let files := a.selected.mergeSort (shownBefore (orderedRoots input.roots))
  { files
    diagnostics := a.diagnostics
    totalOriginalBytes := ((candidates host input.roots).map fun candidate => candidate.content.length).sum
    totalInjectedBytes := a.totalInjectedBytes
    signature := host.signatureFor files a.diagnostics }

def loadProjectInstructions (host : Host) (input : LoadProjectInstructionsInput) : Option ProjectInstructionsSnapshot :=
  (allocateAll input.limits 0 (.start host input) (allocationOrder (candidates host input.roots))).map fun a =>
    a.snapshot host input

end Allocating

end Kross.Workspace

import Kross.MakeAndWrite

namespace Kross.Tools

open Kross.FileTree

/-- What can stand between two separators and names an entry. -/
def Plain (segment : List Char) : Prop :=
  segment ≠ [] ∧ '/' ∉ segment ∧ segment ≠ ".".toList ∧ segment ≠ "..".toList

instance (segment : List Char) : Decidable (Plain segment) := inferInstanceAs (Decidable (_ ∧ _ ∧ _ ∧ _))

abbrev Name := { segment : List Char // Plain segment }

section Posix

def stepOf (segment : List Char) : Option (Step Name) :=
  if segment = "..".toList then some .up
  else if h : Plain segment then some (.name ⟨segment, h⟩) else none

def stepsOf (path : List Char) : List (Step Name) := (path.splitOn '/').filterMap stepOf

def isAbsolute (path : List Char) : Bool := path.head? = some '/'

/-- A normalized path: `ups` times `..`, then the names, and perhaps a separator
at the end. -/
structure NormalPath where
  absolute : Bool
  ups : Nat := 0
  names : List Name
  slash : Bool := false
  deriving DecidableEq

/-- `normalizeString` from what is normalized already. -/
def NormalPath.push (path : NormalPath) : Step Name → NormalPath
  | .name n => { path with names := path.names ++ [n] }
  | .up =>
      if path.names ≠ [] then { path with names := path.names.dropLast }
      else if path.absolute then path else { path with ups := path.ups + 1 }

def normalize (path : List Char) : NormalPath :=
  { (stepsOf path).foldl NormalPath.push ⟨isAbsolute path, 0, [], false⟩ with
    slash := path.getLast? = some '/' }

def NormalPath.steps (path : NormalPath) : List (Step Name) :=
  List.replicate path.ups .up ++ path.names.map Step.name

/-- `resolve` of a base and a relative path. -/
def resolvePath (cwd : List Name) (base : NormalPath) (path : List Char) : NormalPath :=
  ((if base.absolute then [] else cwd.map Step.name) ++ base.steps ++ stepsOf path).foldl NormalPath.push
    ⟨true, 0, [], false⟩

def NormalPath.text (path : NormalPath) : List Char :=
  let body := List.intercalate ['/'] (List.replicate path.ups "..".toList ++ path.names.map Subtype.val)
  if body = [] then if path.absolute then ['/'] else if path.slash then "./".toList else ['.']
  else (if path.absolute then ['/'] else []) ++ body ++ if path.slash then ['/'] else []

def NormalPath.dirname (path : NormalPath) : NormalPath :=
  { path with names := path.names.dropLast, slash := false }

end Posix

inductive PathError
  | boundary (attemptedPath : List Char)
  | fs (code : Disk.FsError)
  deriving DecidableEq

inductive ToolAccessScope
  | workspace
  | system
  deriving DecidableEq

section Lexical

/-- `target === base || target.startsWith(base + sep)`. -/
def startsWithin (base target : List Char) : Bool := target = base || (base ++ ['/']).isPrefixOf target

def lexicalTarget (cwd : List Name) (root inputPath : List Char) : NormalPath :=
  if isAbsolute inputPath then normalize inputPath else resolvePath cwd (normalize root) inputPath

def resolveWithinWorkspace (cwd : List Name) (root inputPath : List Char) : Except PathError NormalPath :=
  if startsWithin (normalize root).text (lexicalTarget cwd root inputPath).text then
    .ok (lexicalTarget cwd root inputPath)
  else .error (.boundary inputPath)

def resolveToolPath (cwd : List Name) (root inputPath : List Char) : ToolAccessScope → Except PathError NormalPath
  | .workspace => resolveWithinWorkspace cwd root inputPath
  | .system => .ok (lexicalTarget cwd root inputPath)

end Lexical

section Real

variable {C : Type} [DecidableEq C] (v : View Name C) (cwd : List Name)

/-- `directory` is whether the path only names a directory. -/
def realpathSteps (absolute directory : Bool) (steps : List (Step Name)) : Except PathError (Path Name) :=
  match walk v true linkLimit (if absolute then [] else cwd) steps with
  | .found p => if directory ∧ v p ≠ some .directory then .error (.fs .ENOTDIR) else .ok p
  | .missing _ | .nowhere => .error (.fs .ENOENT)
  | .blocked => .error (.fs .ENOTDIR)

def realpath (path : List Char) : Except PathError (Path Name) :=
  if path = [] then .error (.fs .ENOENT)
  else realpathSteps v cwd (isAbsolute path)
    ((path.splitOn '/').getLast?.any (fun segment => segment = [] || segment = ".".toList)) (stepsOf path)

def NormalPath.realpath (path : NormalPath) : Except PathError (Path Name) :=
  realpathSteps v cwd path.absolute path.slash path.steps

def realText (p : Path Name) : List Char := NormalPath.text ⟨true, 0, p, false⟩

def assertRealPathWithinWorkspace (realBase realTarget : Path Name) (attemptedPath : List Char) : Except PathError Unit :=
  if startsWithin (realText realBase) (realText realTarget) then .ok () else .error (.boundary attemptedPath)

/-- The nearest parent that is there; `fuel` is more than there are parents. -/
def realpathExistingAncestor (path lexicalRoot : NormalPath) : Nat → NormalPath → Except PathError (Path Name)
  | 0, _ => .error (.boundary path.text)
  | fuel + 1, current => match current.realpath v cwd with
    | .ok p => .ok p
    | .error (.fs .ENOENT) =>
        if current.text = lexicalRoot.text then current.realpath v cwd
        else if current.dirname.text = current.text then .error (.boundary path.text)
        else realpathExistingAncestor path lexicalRoot fuel current.dirname
    | .error error => .error error

def resolveWritablePathWithinWorkspace (root inputPath : List Char) (accessScope : ToolAccessScope) :
    Except PathError NormalPath := do
  let target ← resolveToolPath cwd root inputPath accessScope
  if accessScope = .system then pure target
  else
    let realBase ← realpath v cwd root
    match target.realpath v cwd with
    | .ok realTarget =>
        assertRealPathWithinWorkspace realBase realTarget inputPath
        pure target
    | .error (.fs .ENOENT) =>
        let realParent ← realpathExistingAncestor v cwd target.dirname (normalize root) (target.names.length + 1)
          target.dirname
        assertRealPathWithinWorkspace realBase realParent inputPath
        pure target
    | .error error => .error error

end Real

section Write

variable {C : Type} [DecidableEq C]

/-- A path with a separator at its end is never created as a file. -/
def writeFile (d : Disk Name C) (path : NormalPath) (content : C) : Disk Name C × Option Disk.FsError :=
  if path.slash then (d, some .EISDIR) else createFile d path.names content

/-- `write` of the tool: the parents, then the file. -/
def write (d : Disk Name C) (filePath : NormalPath) (content : C) : Disk Name C × Option Disk.FsError :=
  match makeDirectories d [] filePath.dirname.names with
  | (d, none) => writeFile d filePath content
  | (d, some error) => (d, some error)

/-- What `readExisting` says of a file: nothing where there is none. -/
def readExisting (d : Disk Name C) (path : NormalPath) : Except PathError (Option C) :=
  match path.realpath d.view [] with
  | .ok p => match d.view p with
    | some (.file content) => .ok (some content)
    | _ => .error (.fs .EISDIR)
  | .error (.fs .ENOENT) => .ok none
  | .error error => .error error

/-- `execute` of the `Write` tool on the disk. -/
def executeWrite (d : Disk Name C) (cwd : List Name) (root inputPath : List Char) (content : C)
    (accessScope : ToolAccessScope) : Disk Name C × Option PathError :=
  match resolveWritablePathWithinWorkspace d.view cwd root inputPath accessScope with
  | .error error => (d, some error)
  | .ok filePath => match readExisting d filePath with
    | .error error => (d, some error)
    | .ok _ =>
        let (d, error) := write d filePath content
        (d, error.map .fs)

end Write

end Kross.Tools

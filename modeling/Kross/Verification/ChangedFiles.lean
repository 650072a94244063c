import Kross.Mutation.Map
import Kross.Trace.Event
import Kross.Verification.Command
import Mathlib.Data.List.Infix

namespace Kross.Verification

open Kross.Json Kross.Mutation Kross.Session Kross.Trace

/-- The builtin tools that rewrite files of the workspace. -/
def MUTATING_FILE_TOOLS : List String := ["Write", "Edit", "Delete", "Move", "ApplyPatch"]

structure TouchedFile where
  path : Text
  tools : List String
  deriving DecidableEq

/-- The name of a tool that rewrites files. -/
def mutatingTool (event : TraceEvent) : Option String :=
  event.toolName.filter (· ∈ MUTATING_FILE_TOOLS)

def includes (s part : Text) : Bool := s.tails.any (part.isPrefixOf ·)

def didMutateBySummary (toolName : String) (summary : Text) : Bool :=
  if toolName = "Edit" then
    if summary = "no match".toList || summary = "no change".toList ||
        "ambiguous:".toList.isPrefixOf summary then false
    else if "replaced ".toList.isPrefixOf summary then true
    else !includes summary "未做修改".toList
  else if toolName = "Delete" then
    if "refused".toList.isPrefixOf summary || includes summary "no-op".toList then false
    else "deleted".toList.isPrefixOf summary || summary.isEmpty
  else if toolName = "Move" then
    if includes summary "no-op".toList then false
    else "moved".toList.isPrefixOf summary || summary.isEmpty
  else true

def didMutate (toolName : String) (payload : Fields) : Bool :=
  match (asRecord (payload.get "data")).bind (·.get "mutated") with
  | some (.bool mutated) => mutated
  | _ => didMutateBySummary toolName (((asString (payload.get "summary")).getD "").toList)

/-- A call of a file tool that is known to have changed something. -/
def isCompletedFileMutationEvent (event : TraceEvent) : Bool :=
  event.type = "tool_call.completed" &&
    (mutatingTool event).any (fun toolName => didMutate toolName event.payload)

/-- Where in the trace the last completed file mutation stands, or -1. -/
def findLastFileMutationIndex (events : List TraceEvent) : Int :=
  match (events.zipIdx.reverse.find? (fun entry => isCompletedFileMutationEvent entry.1)) with
  | some entry => entry.2
  | none => -1

def trimmedPath : Option Value → List Text
  | some (.str path) => if trim path.toList = [] then [] else [trim path.toList]
  | _ => []

def itemPaths : Items → List Text
  | .nil => []
  | .cons v rest => trimmedPath (some v) ++ itemPaths rest

def extractPathsFromInput : Option Value → List Text
  | some (.obj record) =>
      unique (trimmedPath (record.get "path") ++ trimmedPath (record.get "from") ++
        trimmedPath (record.get "to") ++
        match record.get "files" with
        | some (.arr files) => itemPaths files
        | _ => [])
  | _ => []

section Touched

/-- `byPath` keeps the paths in the order in which they were first touched. -/
structure Touched where
  startedPaths : String → Option (List Text)
  startedQueues : String → List (List Text)
  byPath : List (Text × List String)

def Touched.empty : Touched := ⟨fun _ => none, fun _ => [], []⟩

def Touched.touch (toolName : String) (touched : Touched) (path : Text) : Touched :=
  let tools := (mapGet path touched.byPath).getD []
  { touched with
    byPath := mapSet path (if toolName ∈ tools then tools else tools ++ [toolName]) touched.byPath }

def Touched.started (touched : Touched) (toolName : String) (event : TraceEvent) : Touched :=
  let paths := extractPathsFromInput (event.payload.get "input")
  if paths = [] then touched
  else match event.callId with
    | some callId =>
        { touched with startedPaths := Function.update touched.startedPaths callId (some paths) }
    | none =>
        { touched with
          startedQueues := Function.update touched.startedQueues toolName
            (touched.startedQueues toolName ++ [paths]) }

def Touched.completed (touched : Touched) (toolName : String) (event : TraceEvent) : Touched :=
  let input := extractPathsFromInput (event.payload.get "input")
  let known := if input = [] then (event.callId.bind touched.startedPaths).getD [] else input
  if known ≠ [] then known.foldl (Touched.touch toolName) touched
  else
    let queue := touched.startedQueues toolName
    let touched := { touched with
      startedQueues := Function.update touched.startedQueues toolName queue.tail }
    let queued := queue.head?.getD []
    let paths := if queued = [] then extractPathsFromInput (event.payload.get "data") else queued
    paths.foldl (Touched.touch toolName) touched

def Touched.step (touched : Touched) (event : TraceEvent) : Touched :=
  match mutatingTool event with
  | none => touched
  | some toolName =>
      if event.type = "tool_call.started" then touched.started toolName event
      else if event.type = "tool_call.completed" && didMutate toolName event.payload then
        touched.completed toolName event
      else touched

end Touched

section Extract

variable (platform : Platform)

/-- The files that the calls of a run touched, by the paths of their inputs. -/
def extractTouchedFilesFromEvents (events : List TraceEvent) : List TouchedFile :=
  ((events.foldl Touched.step .empty).byPath.map (fun (path, tools) =>
    ⟨path, tools.mergeSort (· ≤ ·)⟩)).mergeSort
      (fun left right => platform.localeCompare left.path right.path ≠ .gt)

def extractChangedFilesFromEvents (events : List TraceEvent) : List Text :=
  (extractTouchedFilesFromEvents platform events).map TouchedFile.path

end Extract

section Changed

variable {platform : Platform} {events : List TraceEvent} {file : Text} {touched : Touched}

def Touched.has (file : Text) (touched : Touched) : Prop := file ∈ touched.byPath.map Prod.fst

theorem has_touch {toolName : String} {path : Text} (h : touched.has file) :
    (touched.touch toolName path).has file := mem_keys_mapSet.mpr (Or.inr h)

theorem has_touches {toolName : String} {paths : List Text} (h : touched.has file) :
    (paths.foldl (Touched.touch toolName) touched).has file := by
  induction paths generalizing touched with
  | nil => exact h
  | cons path paths ih => exact ih (has_touch h)

theorem has_started {toolName : String} {event : TraceEvent} (h : touched.has file) :
    (touched.started toolName event).has file := by
  simp only [Touched.started]
  split_ifs
  · exact h
  · split <;> exact h

theorem has_completed {toolName : String} {event : TraceEvent} (h : touched.has file) :
    (touched.completed toolName event).has file := by
  simp only [Touched.completed]
  split_ifs <;> exact has_touches h

theorem has_step {event : TraceEvent} (h : touched.has file) : (touched.step event).has file := by
  rw [Touched.step]
  split
  · exact h
  · split_ifs
    · exact has_started h
    · exact has_completed h
    · exact h

theorem mem_changedFiles : file ∈ extractChangedFilesFromEvents platform events ↔
    (events.foldl Touched.step .empty).has file := by
  simp only [extractChangedFilesFromEvents, extractTouchedFilesFromEvents, Touched.has, List.mem_map,
    List.mem_mergeSort]
  constructor
  · rintro ⟨touchedFile, ⟨entry, he, rfl⟩, rfl⟩
    exact ⟨entry, he, rfl⟩
  · rintro ⟨entry, he, rfl⟩
    exact ⟨_, ⟨entry, he, rfl⟩, rfl⟩

/-- What a run has changed stays changed. -/
theorem changedFiles_append {event : TraceEvent} (h : file ∈ extractChangedFilesFromEvents platform events) :
    file ∈ extractChangedFilesFromEvents platform (events ++ [event]) := by
  rw [mem_changedFiles, List.foldl_append]
  exact has_step (mem_changedFiles.mp h)

end Changed

end Kross.Verification

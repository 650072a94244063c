import Kross.ParsedJson
import Kross.Regex
import Kross.Session.Title
import Kross.Tui.DisplayWidth

namespace Kross.Tui

open Parsed (Value)
open Session (isWhitespace trim collapse truncate)

inductive ToolCallStatus
  | running
  | completed
  | failed
  | denied
  | cancelled
  | awaiting
  deriving DecidableEq

def ToolCallStatus.text : ToolCallStatus → String
  | .running => "running"
  | .completed => "completed"
  | .failed => "failed"
  | .denied => "denied"
  | .cancelled => "cancelled"
  | .awaiting => "awaiting"

structure ToolCallItem where
  callId : Option Text
  path : Option Text
  preview : Option Text
  status : ToolCallStatus
  summary : Option Text
  durationMs : Option Nat
  linesAdded : Option Nat
  linesRemoved : Option Nat

inductive DetailOp
  | add
  | del
  | ctx
  | «meta»

structure ToolDetailLine where
  text : Text
  op : Option DetailOp
  lineNo : Option Nat

structure ToolCallState where
  callId : Option Text
  name : Text
  status : ToolCallStatus
  summary : Option Text
  inputPreview : Option Text
  durationMs : Option Nat
  linesAdded : Option Nat
  linesRemoved : Option Nat
  detailLines : Option (List ToolDetailLine)
  detailTruncated : Bool
  items : Option (List ToolCallItem)

structure LineStats where
  linesAdded : Nat
  linesRemoved : Nat

section Stats

def number (digits : Text) : Nat := digits.foldl (fun n c => n * 10 + (c.toNat - 48)) 0

/-- `/(?<![.\d])\+(\d+)\b/`, or the same with another sign; `before` is the character before the text. -/
def signedCount (sign : Char) : Option Char → Text → Option Nat
  | _, [] => none
  | before, c :: text =>
    let digits := text.takeWhile Char.isDigit
    let free := !before.any fun b => b = '.' || b.isDigit
    let ends := !(text.dropWhile Char.isDigit).head?.any isWord
    if c = sign && free && !digits.isEmpty && ends then some (number digits) else signedCount sign (some c) text

def parseLineStatsFromSummary (summary : Option Text) : Option LineStats :=
  let text := summary.getD []
  let added := signedCount '+' none text
  let removed := signedCount '-' none text
  if added.isNone && removed.isNone then none else some ⟨added.getD 0, removed.getD 0⟩

def resolveLineStats (linesAdded linesRemoved : Option Nat) (summary : Option Text) : Option LineStats :=
  if linesAdded.isSome || linesRemoved.isSome then some ⟨linesAdded.getD 0, linesRemoved.getD 0⟩
  else parseLineStatsFromSummary summary

def count (sign : String) (n : Nat) : String := sign ++ toString n

def formatLineStatsLabel (stats : LineStats) : Text :=
  if stats.linesAdded = 0 && stats.linesRemoved = 0 then "±0".toList
  else
    let added := if 0 < stats.linesAdded then [count "+" stats.linesAdded] else []
    let removed := if 0 < stats.linesRemoved then [count "-" stats.linesRemoved] else []
    (String.intercalate " " (added ++ removed)).toList

end Stats

section Items

/-- What stands before the first `sep`, or the whole text. -/
def upTo (sep : Text) : Text → Text
  | [] => []
  | c :: text => if sep.isPrefixOf (c :: text) then [] else c :: upTo sep text

/-- `replace(/\s·\s*replace_all$/i, '')` -/
def withoutReplaceAll (text : Text) : Text :=
  let flag := Regex.sequence [.one isWhitespace, .one (· = '·'), Regex.many isWhitespace,
    Regex.word "replace_all".toList, .stop]
  match flag.search none text with
  | some (begun, _) => text.take (text.length - begun.length)
  | none => text

/-- What a JSON preview names; `none` where it goes on as with other previews. -/
def namedInput (value : Value) : Option Text :=
  match value.member "path", value.member "file_path", value.member "glob", value.member "pattern", value.member "command" with
  | some (.str path), _, _, _, _ => some path.toList
  | _, some (.str filePath), _, _, _ => some filePath.toList
  | _, _, some (.str glob), _, _ => some glob.toList
  | _, _, _, some (.str pattern), _ => some pattern.toList
  | _, _, _, _, some (.str command) => some ("$ ".toList ++ command.toList)
  | _, _, _, _, _ => none

def readablePath (inputPreview : Text) : Option Text :=
  if "$ ".toList.isPrefixOf inputPreview then
    let flat := trim (collapse false inputPreview)
    if flat.isEmpty then none else some flat
  else
    let firstLine := trim (upTo ['\n'] inputPreview)
    if firstLine.isEmpty then none
    else
      let withoutFlag := trim (withoutReplaceAll (trim (upTo " · ".toList firstLine)))
      some (if withoutFlag.isEmpty then firstLine else withoutFlag)

/-- `parse` is `JSON.parse`; `none` is a SyntaxError. -/
def extractToolPath (parse : Text → Option Value) (inputPreview : Option Text) : Option Text :=
  let preview := inputPreview.getD []
  if preview.isEmpty then none else ((parse preview).bind namedInput) <|> readablePath preview

def toToolItem (parse : Text → Option Value) (tool : ToolCallState) : ToolCallItem :=
  let stats := resolveLineStats tool.linesAdded tool.linesRemoved tool.summary
  { callId := tool.callId
    path := extractToolPath parse tool.inputPreview
    preview := tool.inputPreview
    status := tool.status
    summary := tool.summary
    durationMs := tool.durationMs
    linesAdded := stats.map LineStats.linesAdded
    linesRemoved := stats.map LineStats.linesRemoved }

def ensureToolItems (parse : Text → Option Value) (tool : ToolCallState) : List ToolCallItem :=
  match tool.items with
  | some (item :: items) => item :: items
  | _ => [toToolItem parse tool]

end Items

section Title

def lower (text : Text) : Text := text.map Char.toLower

def isAggregatableTool (name : Text) : Bool :=
  ["Read", "Glob", "Grep", "Rg", "fs.read", "fs.glob", "fs.grep"].any (fun known => known.toList = name) ||
    lower name = "read".toList

def isReadLike (name : Text) : Bool :=
  name = "Read".toList || name = "fs.read".toList || lower name = "read".toList

/-- Of one item its path, of several their number. -/
def groupTitle (name : String) (items : List ToolCallItem) (several : String) : Text :=
  if items.length = 1 then trim (name.toList ++ [' '] ++ (items.head?.bind ToolCallItem.path).getD [])
  else (name ++ " " ++ toString items.length ++ " " ++ several).toList

def isEditOrWrite (name : Text) : Bool := name = "Edit".toList || name = "Write".toList

def singleTitle (parse : Text → Option Value) (tool : ToolCallState) : Text :=
  let items := ensureToolItems parse tool
  let stats := match items.head? with
    | some item => resolveLineStats item.linesAdded item.linesRemoved item.summary
    | none => resolveLineStats tool.linesAdded tool.linesRemoved tool.summary
  let delta := match stats with
    | some stats => if isEditOrWrite tool.name then ' ' :: formatLineStatsLabel stats else []
    | none => []
  let path := (items.head?.bind ToolCallItem.path).getD []
  if path.isEmpty then tool.name ++ delta else tool.name ++ [' '] ++ truncate path 48 ++ delta

def formatToolTitle (parse : Text → Option Value) (tool : ToolCallState) : Text :=
  let items := ensureToolItems parse tool
  let name := tool.name
  if isAggregatableTool name || 1 < items.length then
    if isReadLike name then
      if items.length = 1 then "Read ".toList ++ (items.head?.bind ToolCallItem.path).getD "1 file".toList
      else ("Read " ++ toString items.length ++ " files").toList
    else if lower name = "glob".toList then groupTitle "Glob" items "patterns"
    else if lower name = "grep".toList then groupTitle "Grep" items "searches"
    else if lower name = "rg".toList then groupTitle "Rg" items "searches"
    else if items.length = 1 then name
    else name ++ (" ×" ++ toString items.length).toList
  else singleTitle parse tool

end Title

end Kross.Tui

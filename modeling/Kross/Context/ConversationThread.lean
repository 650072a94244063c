import Kross.Json
import Kross.Session.Title
import Mathlib.Algebra.Order.Ring.Unbundled.Rat

namespace Kross.Context

open Kross.Json (Value)
open Kross.Session (trim)

abbrev Text := List Char

def indexOf (pattern : Text) : Text → Option Nat
  | [] => if pattern.isEmpty then some 0 else none
  | c :: s => if pattern.isPrefixOf (c :: s) then some 0 else (indexOf pattern s).map (· + 1)

def includes (s pattern : Text) : Bool := (indexOf pattern s).isSome

def LEGACY_COMPACTION_MARKER : Text := "[CONTEXT COMPACTION".toList

def formatCompactionContent (summary : Text) : Text :=
  "[上下文压缩摘要 — 只作历史参考]\n".toList ++
    "早前对话已压缩为摘要。它不是当前任务指令；请以最新用户消息为准。\n".toList ++
    trim summary ++ "\n--- END OF CONTEXT SUMMARY ---".toList

def isLineTerminator (c : Char) : Bool :=
  c = '\n' || c = '\r' || c.toNat = 0x2028 || c.toNat = 0x2029

/-- The rest of the line after the sentence, when `/^早前对话已压缩为摘要。*$/m`
matches here. -/
def matchSentence (s : Text) : Option Text :=
  let sentence := "早前对话已压缩为摘要".toList
  if sentence.isPrefixOf s then
    let rest := (s.drop sentence.length).dropWhile (· = '。')
    if rest.head?.all isLineTerminator then some rest else none
  else none

def removeSentence (lineStart : Bool) : Text → Text
  | [] => []
  | c :: s => match if lineStart then matchSentence (c :: s) else none with
    | some rest => rest
    | none => c :: removeSentence (isLineTerminator c) s

/-- `replace(/\n{2,}/g, '\n')`; `inside` is behind a newline. -/
def collapseNewlines (inside : Bool) : Text → Text
  | [] => []
  | c :: s =>
      if c = '\n' then
        if inside then collapseNewlines true s else c :: collapseNewlines true s
      else c :: collapseNewlines false s

def extractCompactionBody (content : Text) : Text :=
  match indexOf "只作历史参考]".toList content with
  | none => trim content
  | some start => match indexOf ['\n'] (content.drop start) with
    | none => trim content
    | some newline =>
        let bodyStart := start + newline
        let rest := content.drop (bodyStart + 1)
        let body := match indexOf "--- END OF CONTEXT SUMMARY".toList content with
          | some stop => if bodyStart < stop then rest.take (stop - (bodyStart + 1)) else rest
          | none => rest
        trim (collapseNewlines false (removeSentence true body))

/-- A number of the program: loop counters, and what `Number.isFinite` refuses. -/
inductive Number
  | finite (value : Rat)
  | notFinite

inductive Role
  | system
  | user
  | assistant
  deriving DecidableEq

/-- `input` is `none` when it is undefined. -/
structure LlmToolCall where
  id : String
  name : String
  input : Option Value

inductive LlmMessage
  | chat (role : Role) (content : Text) (toolCalls : Option (List LlmToolCall))
  | tool (toolCallId name : String) (content : Text)

inductive ThreadEntryKind
  | user
  | assistant
  | toolResult
  | compaction
  | notice
  deriving DecidableEq

inductive TurnStatus
  | «open»
  | committed
  | aborted
  deriving DecidableEq

structure ThreadEntry where
  id : String
  turnId : String
  kind : ThreadEntryKind
  message : LlmMessage
  tokensEst : Nat
  elided : Option Bool
  iteration : Option Number
  toolSummary : Option Text
  originalTokens : Option Nat

structure TurnInfo where
  id : String
  status : TurnStatus
  deriving DecidableEq

structure SerializedThreadEntry where
  turnId : String
  kind : ThreadEntryKind
  message : LlmMessage
  elided : Option Bool
  iteration : Option Number
  toolSummary : Option Text
  originalTokens : Option Nat

structure ConversationThreadState where
  version : Nat
  entries : List SerializedThreadEntry
  turns : List TurnInfo
  openTurnId : Option String
  currentIteration : Number

/-- The fields of a thread, and the counters that all threads share. `turns` is
in the order of the map. -/
structure ConversationThread where
  entries : List ThreadEntry
  turns : List TurnInfo
  openTurnId : Option String
  currentIteration : Number
  entryCounter : Nat
  turnCounter : Nat

inductive ThreadError
  | turnOpen
  | noOpenTurn
  deriving DecidableEq

structure ToolResult where
  toolCallId : String
  name : String
  content : Text
  summary : Option Text
  iteration : Option Number

def turnName (n : Nat) : String := "turn-" ++ n.repr

def LlmMessage.role : LlmMessage → Option Role
  | .chat role _ _ => some role
  | .tool _ _ _ => none

def LlmMessage.toolCalls : LlmMessage → List LlmToolCall
  | .chat _ _ calls => calls.getD []
  | .tool _ _ _ => []

def LlmMessage.toolCallId? : LlmMessage → Option String
  | .chat _ _ _ => none
  | .tool toolCallId _ _ => some toolCallId

/-- The calls whose results are there; a list that becomes empty is left out. -/
def matchedCalls (resultIds : List String) (calls : List LlmToolCall) : Option (List LlmToolCall) :=
  let matched := calls.filter (fun call => resultIds.contains call.id)
  if matched.isEmpty then none else some matched

/-- A change of the status keeps the place of a turn in the map. -/
def setTurn (turns : List TurnInfo) (turn : TurnInfo) : List TurnInfo :=
  if turns.any (fun t => t.id = turn.id) then
    turns.map (fun t => if t.id = turn.id then turn else t)
  else turns ++ [turn]

def setStatus (turns : List TurnInfo) (turnId : String) (status : TurnStatus) : List TurnInfo :=
  turns.map (fun t => if t.id = turnId then { t with status } else t)

def hasTurn (turns : List TurnInfo) (turnId : String) : Bool := turns.any (fun t => t.id = turnId)

/-- The first entry with the id is changed. -/
def updateEntry (entryId : String) (f : ThreadEntry → ThreadEntry) : List ThreadEntry → List ThreadEntry
  | [] => []
  | e :: entries => if e.id = entryId then f e :: entries else e :: updateEntry entryId f entries

namespace ConversationThread

variable (estimateMessage : LlmMessage → Nat)

def new (entryCounter turnCounter : Nat) : ConversationThread :=
  { entries := [], turns := [], openTurnId := none, currentIteration := .finite 0,
    entryCounter, turnCounter }

def clear (t : ConversationThread) : ConversationThread := new t.entryCounter t.turnCounter

def getEntriesForTurn (t : ConversationThread) (turnId : String) : List ThreadEntry :=
  t.entries.filter (fun e => e.turnId = turnId)

def getTurnStatus (t : ConversationThread) (turnId : String) : Option TurnStatus :=
  (t.turns.find? (fun turn => turn.id = turnId)).map TurnInfo.status

def nextEntry (t : ConversationThread) (turnId : String) (kind : ThreadEntryKind)
    (message : LlmMessage) (iteration : Option Number) (toolSummary : Option Text) : ThreadEntry :=
  { id := "entry-" ++ (t.entryCounter + 1).repr
    turnId, kind, message
    tokensEst := estimateMessage message
    elided := none
    iteration, toolSummary
    originalTokens := none }

def push (t : ConversationThread) (entry : ThreadEntry) : ConversationThread :=
  { t with entries := t.entries ++ [entry], entryCounter := t.entryCounter + 1 }

def appendEntry (t : ConversationThread) (turnId : String) (kind : ThreadEntryKind)
    (message : LlmMessage) : ConversationThread :=
  t.push (t.nextEntry estimateMessage turnId kind message none none)

/-- `turns.set(turnId, …)` with a new name. -/
def addTurn (t : ConversationThread) (turn : TurnInfo) : ConversationThread :=
  { t with turns := setTurn t.turns turn, turnCounter := t.turnCounter + 1 }

/-- The turn is added to the map as committed unless it is there. -/
def ensureTurn (t : ConversationThread) (turnId : String) : ConversationThread :=
  if hasTurn t.turns turnId then t
  else { t with turns := t.turns ++ [{ id := turnId, status := .committed }] }

def beginTurn (t : ConversationThread) (userInput : Text) : Except ThreadError ConversationThread :=
  if t.openTurnId.isSome then .error .turnOpen
  else
    let turnId := turnName (t.turnCounter + 1)
    let t := { t.addTurn { id := turnId, status := .open } with openTurnId := some turnId }
    .ok (t.appendEntry estimateMessage turnId .user (.chat .user userInput none))

def commitTurn (t : ConversationThread) : Except ThreadError ConversationThread :=
  match t.openTurnId with
  | none => .error .noOpenTurn
  | some turnId => .ok { t with turns := setStatus t.turns turnId .committed, openTurnId := none }

def noticeMessage (content : Text) : LlmMessage := .chat .user ("[系统通知] ".toList ++ content) none

def abortTurn (t : ConversationThread) (reason : Text) : Except ThreadError ConversationThread :=
  match t.openTurnId with
  | none => .error .noOpenTurn
  | some turnId =>
      let t := t.appendEntry estimateMessage turnId .notice (noticeMessage reason)
      .ok { t with turns := setStatus t.turns turnId .aborted, openTurnId := none }

/-- The ids of the calls that have a result in the turn. -/
def resultIds (entries : List ThreadEntry) (turnId : String) : List String :=
  (entries.filter (fun e => e.turnId = turnId)).filterMap (fun e => e.message.toolCallId?)

def removeUnmatchedToolCalls (entries : List ThreadEntry) (turnId : String) : List ThreadEntry :=
  entries.map fun e => match e.message with
    | .chat .assistant content (some calls) =>
        if e.turnId = turnId then
          let message := .chat .assistant content (matchedCalls (resultIds entries turnId) calls)
          { e with message, tokensEst := estimateMessage message }
        else e
    | _ => e

def interruptTurn (t : ConversationThread) (reason : Text) : Except ThreadError ConversationThread :=
  match t.openTurnId with
  | none => .error .noOpenTurn
  | some turnId =>
      { t with entries := removeUnmatchedToolCalls estimateMessage t.entries turnId }.abortTurn
        estimateMessage reason

def appendAssistant (t : ConversationThread) (content : Text) (toolCalls : List LlmToolCall) :
    Except ThreadError ConversationThread :=
  match t.openTurnId with
  | none => .error .noOpenTurn
  | some turnId =>
      let calls := if toolCalls.isEmpty then none else some toolCalls
      .ok (t.appendEntry estimateMessage turnId .assistant (.chat .assistant content calls))

def appendToolResult (t : ConversationThread) (result : ToolResult) :
    Except ThreadError ConversationThread :=
  match t.openTurnId with
  | none => .error .noOpenTurn
  | some turnId =>
      let entry := t.nextEntry estimateMessage turnId .toolResult
        (.tool result.toolCallId result.name result.content)
        (some (result.iteration.getD t.currentIteration)) result.summary
      .ok (t.push { entry with originalTokens := some entry.tokensEst })

def compactionMessage (summary : Text) : LlmMessage :=
  .chat .user (formatCompactionContent summary) none

def addCompaction (t : ConversationThread) (summary : Text) (turnId : Option String) :
    ConversationThread :=
  let (target, t) := match turnId with
    | some turnId => (turnId, t)
    | none => ("compaction-" ++ turnName (t.turnCounter + 1), { t with turnCounter := t.turnCounter + 1 })
  (t.ensureTurn target).appendEntry estimateMessage target .compaction (compactionMessage summary)

def addNotice (t : ConversationThread) (content : Text) : ConversationThread :=
  let (turnId, t) := match t.openTurnId with
    | some turnId => (turnId, t)
    | none => ("notice-" ++ turnName (t.turnCounter + 1), { t with turnCounter := t.turnCounter + 1 })
  (t.ensureTurn turnId).appendEntry estimateMessage turnId .notice (noticeMessage content)

def removeTurnEntries (t : ConversationThread) (turnIds : List String) : ConversationThread :=
  { t with
    entries := t.entries.filter (fun e => !turnIds.contains e.turnId)
    turns := t.turns.filter (fun turn => !turnIds.contains turn.id)
    openTurnId := t.openTurnId.filter (fun turnId => !turnIds.contains turnId) }

/-- The turns of which the removed prefix held the last entries leave the map. -/
def replacePrefixWithCompaction (t : ConversationThread) (entryCount : Int) (summary : Text) :
    ConversationThread :=
  let count := min entryCount.toNat t.entries.length
  if count = 0 then t
  else
    let removed := t.entries.take count
    let rest := t.entries.drop count
    let gone (turn : TurnInfo) : Bool :=
      removed.any (fun e => e.turnId = turn.id) && !rest.any (fun e => e.turnId = turn.id)
    let turnId := "compaction-" ++ turnName (t.turnCounter + 1)
    let entry := t.nextEntry estimateMessage turnId .compaction (compactionMessage summary) none none
    { t with
      entries := entry :: rest
      turns := setTurn (t.turns.filter (fun turn => !gone turn)) { id := turnId, status := .committed }
      entryCounter := t.entryCounter + 1
      turnCounter := t.turnCounter + 1 }

def elided (content : Text) (e : ThreadEntry) : ThreadEntry :=
  match e.kind, e.message with
  | .toolResult, .tool toolCallId name _ =>
      let message := .tool toolCallId name content
      { e with
        elided := some true
        originalTokens := some (e.originalTokens.getD e.tokensEst)
        message
        tokensEst := estimateMessage message }
  | _, _ => e

def elideToolResult (t : ConversationThread) (entryId : String) (elidedContent : Text) :
    ConversationThread :=
  { t with entries := updateEntry entryId (elided estimateMessage elidedContent) t.entries }

def truncatedMessage (content : Text) : LlmMessage → LlmMessage
  | .tool toolCallId name _ => .tool toolCallId name content
  | .chat .assistant _ calls => .chat .assistant content calls
  | .chat role _ _ => .chat role content none

def truncateEntry (t : ConversationThread) (entryId : String) (truncatedContent : Text) :
    ConversationThread :=
  { t with entries := updateEntry entryId (fun e =>
      let message := truncatedMessage truncatedContent e.message
      { e with message, tokensEst := estimateMessage message }) t.entries }

def buildMessages (t : ConversationThread) : List LlmMessage := t.entries.map ThreadEntry.message

def reestimated (e : ThreadEntry) : ThreadEntry :=
  let e := { e with tokensEst := estimateMessage e.message }
  if e.kind = .toolResult ∧ e.elided ≠ some true then { e with originalTokens := some e.tokensEst } else e

def reestimateTokens (t : ConversationThread) : ConversationThread :=
  { t with entries := t.entries.map (reestimated estimateMessage) }

def setCurrentIteration (t : ConversationThread) (iteration : Number) : ConversationThread :=
  { t with currentIteration := iteration }

def exportState (t : ConversationThread) : ConversationThreadState :=
  { version := 1
    entries := t.entries.map (fun e =>
      { turnId := e.turnId, kind := e.kind, message := e.message, elided := e.elided,
        iteration := e.iteration, toolSummary := e.toolSummary, originalTokens := e.originalTokens })
    turns := t.turns
    openTurnId := t.openTurnId
    currentIteration := t.currentIteration }

end ConversationThread

section Restore

def isEntryRoleCompatible (kind : ThreadEntryKind) (message : LlmMessage) : Bool :=
  match kind with
  | .assistant => message.role = some .assistant
  | .toolResult => message.role = none
  | _ => message.role = some .user

def Number.isFinite : Number → Bool
  | .finite _ => true
  | .notFinite => false

/-- `Math.max(0, Math.floor(n))`. -/
def Number.floor : Number → Number
  | .finite value => .finite (max value.floor 0)
  | .notFinite => .notFinite

def isConversationThreadState (state : ConversationThreadState) : Bool :=
  let openTurns := state.turns.filter (fun turn => turn.status = .open)
  state.version = 1 && state.currentIteration.isFinite &&
    state.openTurnId.all (fun turnId => hasTurn state.turns turnId) &&
    openTurns.length ≤ 1 && state.openTurnId = openTurns.head?.map TurnInfo.id &&
    state.entries.all (fun e => hasTurn state.turns e.turnId && isEntryRoleCompatible e.kind e.message)

/-- The turns of a saved thread under new names, and the map of the names. -/
def renamedTurns (preserveOpenTurn : Bool) (counter : Nat) :
    List TurnInfo → List (String × TurnInfo)
  | [] => []
  | turn :: turns =>
      let status := if turn.status = .open ∧ preserveOpenTurn = false then .aborted else turn.status
      (turn.id, { id := turnName (counter + 1), status }) ::
        renamedTurns preserveOpenTurn (counter + 1) turns

/-- `turnIdMap.get`: of two turns with one name the later one counts. -/
def renamed (turns : List (String × TurnInfo)) (turnId : String) : Option String :=
  (turns.reverse.find? (fun p => p.1 = turnId)).map (fun p => p.2.id)

variable (estimateMessage : LlmMessage → Nat)

namespace ConversationThread

def restoreEntry (turns : List (String × TurnInfo)) (t : ConversationThread)
    (saved : SerializedThreadEntry) : ConversationThread :=
  match renamed turns saved.turnId with
  | none => t
  | some turnId =>
      let entry := t.nextEntry estimateMessage turnId saved.kind saved.message saved.iteration
        saved.toolSummary
      t.push { entry with elided := saved.elided, originalTokens := saved.originalTokens }

def interruptedNotice : Text :=
  "上次会话在未完成轮次中断；悬空工具调用已取消，请重新确认后续操作。".toList

def restoreState (t : ConversationThread) (state : ConversationThreadState) (preserveOpenTurn : Bool) :
    Bool × ConversationThread :=
  if isConversationThreadState state then
    let names := renamedTurns preserveOpenTurn t.turnCounter state.turns
    let t := { t.clear with
      turns := names.map Prod.snd
      turnCounter := t.turnCounter + state.turns.length }
    let restoredOpenTurnIds := (state.turns.filter (fun turn => turn.status = .open)).filterMap
      (fun turn => renamed names turn.id)
    let t := state.entries.foldl (restoreEntry estimateMessage names) t
    let t := match preserveOpenTurn, restoredOpenTurnIds with
      | true, [turnId] => { t with openTurnId := some turnId }
      | _, turnIds => { t with
          entries := turnIds.foldl (removeUnmatchedToolCalls estimateMessage) t.entries }
    let t := if restoredOpenTurnIds ≠ [] ∧ preserveOpenTurn = false then
        t.addNotice estimateMessage interruptedNotice
      else t
    (true, t.setCurrentIteration state.currentIteration.floor)
  else (false, t)

structure Restored where
  thread : ConversationThread
  restoredTurnCount : Nat
  convertedCompaction : Bool

/-- An assistant message behind a user's is taken with it. -/
def restoreMessages (r : Restored) : List (Role × Text) → Restored
  | [] => r
  | (.assistant, content) :: messages =>
      if includes content LEGACY_COMPACTION_MARKER then
        restoreMessages { r with
          thread := r.thread.addCompaction estimateMessage (extractCompactionBody content) none
          convertedCompaction := true } messages
      else restoreMessages r messages
  | (.user, content) :: messages =>
      let turnId := turnName (r.thread.turnCounter + 1)
      let t := (r.thread.addTurn { id := turnId, status := .committed }).appendEntry estimateMessage
        turnId .user (.chat .user content none)
      let r := { r with thread := t, restoredTurnCount := r.restoredTurnCount + 1 }
      match messages with
      | (.assistant, answer) :: messages =>
          if includes answer LEGACY_COMPACTION_MARKER then restoreMessages r messages
          else restoreMessages { r with
            thread := t.appendEntry estimateMessage turnId .assistant (.chat .assistant answer none) }
              messages
      | messages => restoreMessages r messages
  | (.system, _) :: messages => restoreMessages r messages

def restoreFromConversation (t : ConversationThread) (messages : List (Role × Text)) : Restored :=
  restoreMessages estimateMessage ⟨t.clear, 0, false⟩ messages

end ConversationThread

end Restore

end Kross.Context

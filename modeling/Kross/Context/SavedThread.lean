import Kross.Context.ConversationThread
import Kross.ParsedJson

namespace Kross.Context.Saved

open Parsed

/-- A message as the properties that are read of it. -/
structure LlmMessage where
  role : Option Value
  content : Option Value
  toolCallId : Option Value := none
  name : Option Value := none
  toolCalls : Option Value := none

structure SerializedThreadEntry where
  turnId : String
  kind : ThreadEntryKind
  message : LlmMessage
  elided : Option Value
  iteration : Option Value
  toolSummary : Option Value
  originalTokens : Option Value

structure ConversationThreadState where
  entries : List SerializedThreadEntry
  turns : List TurnInfo
  openTurnId : Option String
  currentIteration : Parsed.Number

structure ThreadEntry where
  id : String
  turnId : String
  kind : ThreadEntryKind
  message : LlmMessage
  tokensEst : Nat
  elided : Option Value
  iteration : Option Value
  toolSummary : Option Value
  originalTokens : Option Value

structure ConversationThread where
  entries : List ThreadEntry
  turns : List TurnInfo
  openTurnId : Option String
  currentIteration : Parsed.Number
  entryCounter : Nat
  turnCounter : Nat

section Validator

def LlmMessage.read (v : Value) : LlmMessage :=
  { role := v.member "role"
    content := v.member "content"
    toolCallId := v.member "toolCallId"
    name := v.member "name"
    toolCalls := v.member "toolCalls" }

def LlmMessage.isTool (m : LlmMessage) : Bool := isText "tool" m.role

def LlmMessage.isAssistant (m : LlmMessage) : Bool := isText "assistant" m.role

/-- `isLlmMessage` of an object. -/
def LlmMessage.valid (m : LlmMessage) : Bool :=
  isString m.content &&
    if m.isTool then isString m.toolCallId && isString m.name
    else isText "user" m.role || m.isAssistant || isText "system" m.role

def isLlmMessage (v : Value) : Bool := v.isObject && (LlmMessage.read v).valid

def isEntryRoleCompatible (kind : ThreadEntryKind) (message : LlmMessage) : Bool :=
  match kind with
  | .assistant => message.isAssistant
  | .toolResult => message.isTool
  | _ => isText "user" message.role

def threadEntryKind : Option Value → Option ThreadEntryKind
  | some (.str "user") => some .user
  | some (.str "assistant") => some .assistant
  | some (.str "tool-result") => some .toolResult
  | some (.str "compaction") => some .compaction
  | some (.str "notice") => some .notice
  | _ => none

def turnStatus : Option Value → Option TurnStatus
  | some (.str "open") => some .open
  | some (.str "committed") => some .committed
  | some (.str "aborted") => some .aborted
  | _ => none

def turnInfo (v : Value) : Option TurnInfo :=
  match v.member "id", turnStatus (v.member "status") with
  | some (.str id), some status => some { id, status }
  | _, _ => none

def threadEntry (turns : List TurnInfo) (v : Value) : Option SerializedThreadEntry :=
  match v.member "turnId", threadEntryKind (v.member "kind"), v.member "message" with
  | some (.str turnId), some kind, some message =>
      if hasTurn turns turnId && isLlmMessage message &&
          isEntryRoleCompatible kind (LlmMessage.read message) then
        some
          { turnId, kind
            message := LlmMessage.read message
            elided := v.member "elided"
            iteration := v.member "iteration"
            toolSummary := v.member "toolSummary"
            originalTokens := v.member "originalTokens" }
      else none
  | _, _, _ => none

/-- The turns agree with the name of the open one. -/
def openTurnAgrees (turns : List TurnInfo) (openTurnId : Option String) : Bool :=
  let openTurns := turns.filter (fun turn => turn.status = .open)
  openTurnId.all (hasTurn turns) && openTurns.length ≤ 1 &&
    openTurnId = openTurns.head?.map TurnInfo.id

/-- `undefined` or a text. -/
def optionalText : Option Value → Option (Option String)
  | none => some none
  | some (.str s) => some (some s)
  | some _ => none

/-- What `isConversationThreadState` makes of a value: `none` is its refusal, and of an
accepted value the fields have the types that it has checked. Those it does not look at are
left as they are. -/
def conversationThreadState (v : Value) : Option ConversationThreadState :=
  match v.member "version", v.member "entries", v.member "turns", v.member "currentIteration",
      optionalText (v.member "openTurnId") with
  | some (.num (.finite version)), some (.arr entries), some (.arr turns),
      some (.num (.finite currentIteration)), some openTurnId =>
      if version = 1 then do
        let turns ← turns.mapM turnInfo
        if openTurnAgrees turns openTurnId then do
          let entries ← entries.mapM (threadEntry turns)
          some { entries, turns, openTurnId, currentIteration := .finite currentIteration }
        else none
      else none
  | _, _, _, _, _ => none

def isConversationThreadState (v : Value) : Bool := (conversationThreadState v).isSome

end Validator

/-- The functions below return `none` where the source throws a TypeError. -/
def cloneMessage (m : LlmMessage) : Option LlmMessage :=
  if m.isTool then
    some { role := some (.str "tool"), toolCallId := m.toolCallId, name := m.name, content := m.content }
  else match m.toolCalls with
    | none => some { role := m.role, content := m.content }
    | some calls =>
        if calls.truthy then
          calls.spread.map fun items =>
            { role := m.role, content := m.content, toolCalls := some (.arr items) }
        else some { role := m.role, content := m.content }

section Estimator

def isCjk (c : Char) : Bool :=
  ('\u4e00' ≤ c && c ≤ '\u9fff') || ('\u3400' ≤ c && c ≤ '\u4dbf') ||
    ('\u3040' ≤ c && c ≤ '\u30ff') || ('\uac00' ≤ c && c ≤ '\ud7af')

def tokensOf (s : String) : Nat :=
  ((s.toList.map (fun c => if isCjk c then 4 else 1)).sum + 3) / 4

/-- An array, of which the loop over the characters would make a number, does not get here. -/
def estimateTextTokens : Option Value → Option Nat
  | some (.str s) => some (tokensOf s)
  | _ => none

/-- `JSON.stringify`, which always returns a text of a JSON value, and the calibration of a
number of tokens. -/
structure TokenEstimator where
  stringify : Value → String
  calibrated : Nat → Nat

/-- `value.length > 0` of what can be spread. -/
def hasLength : Value → Bool
  | .arr items => items ≠ []
  | .str s => s ≠ ""
  | _ => false

def estimateMessageTokens (stringify : Value → String) (m : LlmMessage) : Option Nat :=
  if m.isTool then do
    let content ← estimateTextTokens m.content
    let name ← estimateTextTokens m.name
    let toolCallId ← estimateTextTokens m.toolCallId
    some (4 + content + name + toolCallId)
  else do
    let content ← estimateTextTokens m.content
    match m.toolCalls with
    | none => some (4 + content)
    | some calls =>
        if calls.truthy && hasLength calls then some (4 + content + tokensOf (stringify calls))
        else some (4 + content)

def TokenEstimator.estimateMessage (e : TokenEstimator) (m : LlmMessage) : Option Nat :=
  (estimateMessageTokens e.stringify m).map e.calibrated

end Estimator

inductive Thrown
  | typeError
  | turnOpen
  | noOpenTurn
  deriving DecidableEq

def orTypeError {α : Type} (a : Option α) : Except Thrown α := a.elim (.error .typeError) .ok

structure LlmToolCall where
  id : String
  name : String
  input : Option Value

def LlmToolCall.value (call : LlmToolCall) : Value :=
  .obj ([("id", .str call.id), ("name", .str call.name)] ++ (call.input.map (("input", ·))).toList)

structure ToolResult where
  toolCallId : String
  name : String
  content : String
  summary : Option String
  iteration : Option Parsed.Number

/-- The ids with a result in the turn. -/
def resultIds (entries : List ThreadEntry) (turnId : String) : List String :=
  (entries.filter (fun e => e.turnId = turnId && e.message.isTool)).filterMap fun e =>
    match e.message.toolCallId with
    | some (.str id) => some id
    | _ => none

def answered (ids : List String) (call : Value) : Bool :=
  match call.member "id" with
  | some (.str id) => ids.contains id
  | _ => false

/-- `calls.filter((call) => ids.has(call.id))`: only of null there is no `id` to read. -/
def matchedCalls (ids : List String) : Option Value → Option (List Value)
  | some (.arr calls) => if calls.any Value.isNull then none else some (calls.filter (answered ids))
  | _ => none

def matchedMessage (ids : List String) (m : LlmMessage) : Option LlmMessage :=
  (matchedCalls ids m.toolCalls).map fun matched =>
    { role := some (.str "assistant")
      content := m.content
      toolCalls := if matched.isEmpty then none else some (.arr matched) }

def compactionMessage (summary : String) : LlmMessage :=
  { role := some (.str "user")
    content := some (.str (String.ofList (formatCompactionContent summary.toList))) }

def noticeMessage (content : String) : LlmMessage :=
  { role := some (.str "user"), content := some (.str ("[系统通知] " ++ content)) }

namespace ConversationThread

def new (entryCounter turnCounter : Nat) : ConversationThread :=
  { entries := [], turns := [], openTurnId := none, currentIteration := .finite 0,
    entryCounter, turnCounter }

def clear (t : ConversationThread) : ConversationThread := new t.entryCounter t.turnCounter

variable (estimator : TokenEstimator)

def setMessage (e : ThreadEntry) (message : LlmMessage) : Option ThreadEntry :=
  (estimator.estimateMessage message).map fun tokensEst => { e with message, tokensEst }

/-- The entry that `appendEntry` makes; the estimate is of the message before it is cloned. -/
def nextEntry (t : ConversationThread) (turnId : String) (kind : ThreadEntryKind) (message : LlmMessage)
    (iteration toolSummary : Option Value) : Option ThreadEntry := do
  let cloned ← cloneMessage message
  let tokensEst ← estimator.estimateMessage message
  some
    { id := "entry-" ++ (t.entryCounter + 1).repr
      turnId, kind, tokensEst, iteration, toolSummary
      message := cloned
      elided := none
      originalTokens := none }

def push (t : ConversationThread) (entry : ThreadEntry) : ConversationThread :=
  { t with entries := t.entries ++ [entry], entryCounter := t.entryCounter + 1 }

def appendEntry (t : ConversationThread) (turnId : String) (kind : ThreadEntryKind)
    (message : LlmMessage) : Option ConversationThread :=
  (t.nextEntry estimator turnId kind message none none).map t.push

def addTurn (t : ConversationThread) (turn : TurnInfo) : ConversationThread :=
  { t with turns := setTurn t.turns turn, turnCounter := t.turnCounter + 1 }

def ensureTurn (t : ConversationThread) (turnId : String) : ConversationThread :=
  if hasTurn t.turns turnId then t
  else { t with turns := t.turns ++ [{ id := turnId, status := .committed }] }

def beginTurn (t : ConversationThread) (userInput : String) : Except Thrown ConversationThread :=
  if t.openTurnId.isSome then .error .turnOpen
  else
    let turnId := turnName (t.turnCounter + 1)
    let t := { t.addTurn { id := turnId, status := .open } with openTurnId := some turnId }
    orTypeError (t.appendEntry estimator turnId .user
      { role := some (.str "user"), content := some (.str userInput) })

def commitTurn (t : ConversationThread) : Except Thrown ConversationThread :=
  match t.openTurnId with
  | none => .error .noOpenTurn
  | some turnId => .ok { t with turns := setStatus t.turns turnId .committed, openTurnId := none }

def abortTurn (t : ConversationThread) (reason : String) : Except Thrown ConversationThread :=
  match t.openTurnId with
  | none => .error .noOpenTurn
  | some turnId =>
      orTypeError ((t.appendEntry estimator turnId .notice (noticeMessage reason)).map fun t =>
        { t with turns := setStatus t.turns turnId .aborted, openTurnId := none })

/-- One turn of the loop in `removeUnmatchedToolCalls`. -/
def removeUnmatched (ids : List String) (turnId : String) (e : ThreadEntry) : Option ThreadEntry :=
  if e.turnId = turnId && e.message.isAssistant && truthy e.message.toolCalls then
    (matchedMessage ids e.message).bind (setMessage estimator e)
  else some e

/-- The loop stops at what throws and has changed the entries before it. -/
def removeUnmatchedLoop (ids : List String) (turnId : String) :
    List ThreadEntry → List ThreadEntry × Bool
  | [] => ([], true)
  | e :: entries =>
      match removeUnmatched estimator ids turnId e with
      | none => (e :: entries, false)
      | some e =>
          let (entries, done) := removeUnmatchedLoop ids turnId entries
          (e :: entries, done)

def removeUnmatchedToolCalls (entries : List ThreadEntry) (turnId : String) :
    List ThreadEntry × Bool :=
  removeUnmatchedLoop estimator (resultIds entries turnId) turnId entries

def interruptTurn (t : ConversationThread) (reason : String) : Except Thrown ConversationThread :=
  match t.openTurnId with
  | none => .error .noOpenTurn
  | some turnId =>
      match removeUnmatchedToolCalls estimator t.entries turnId with
      | (entries, true) => { t with entries }.abortTurn estimator reason
      | (_, false) => .error .typeError

def appendAssistant (t : ConversationThread) (content : String) (toolCalls : List LlmToolCall) :
    Except Thrown ConversationThread :=
  match t.openTurnId with
  | none => .error .noOpenTurn
  | some turnId =>
      orTypeError (t.appendEntry estimator turnId .assistant
        { role := some (.str "assistant")
          content := some (.str content)
          toolCalls := if toolCalls.isEmpty then none else some (.arr (toolCalls.map LlmToolCall.value)) })

def appendToolResult (t : ConversationThread) (result : ToolResult) :
    Except Thrown ConversationThread :=
  match t.openTurnId with
  | none => .error .noOpenTurn
  | some turnId =>
      orTypeError ((t.nextEntry estimator turnId .toolResult
        { role := some (.str "tool")
          toolCallId := some (.str result.toolCallId)
          name := some (.str result.name)
          content := some (.str result.content) }
        (some (.num (result.iteration.getD t.currentIteration))) (result.summary.map Value.str)).map
        fun entry => t.push { entry with
          originalTokens := some (.num (.finite entry.tokensEst)) })

def addCompaction (t : ConversationThread) (summary : String) (turnId : Option String) :
    Except Thrown ConversationThread :=
  let (target, t) := match turnId with
    | some turnId => (turnId, t)
    | none => ("compaction-" ++ turnName (t.turnCounter + 1), { t with turnCounter := t.turnCounter + 1 })
  orTypeError ((t.ensureTurn target).appendEntry estimator target .compaction (compactionMessage summary))

/-- `addNotice` as `restoreState` calls it. -/
def addNotice? (t : ConversationThread) (content : String) : Option ConversationThread :=
  let (turnId, t) := match t.openTurnId with
    | some turnId => (turnId, t)
    | none => ("notice-" ++ turnName (t.turnCounter + 1), { t with turnCounter := t.turnCounter + 1 })
  (t.ensureTurn turnId).appendEntry estimator turnId .notice (noticeMessage content)

def addNotice (t : ConversationThread) (content : String) : Except Thrown ConversationThread :=
  orTypeError (t.addNotice? estimator content)

def removeTurnEntries (t : ConversationThread) (turnIds : List String) : ConversationThread :=
  { t with
    entries := t.entries.filter (fun e => !turnIds.contains e.turnId)
    turns := t.turns.filter (fun turn => !turnIds.contains turn.id)
    openTurnId := t.openTurnId.filter (fun turnId => !turnIds.contains turnId) }

/-- The compaction entry is the literal of the source: its message is not cloned. -/
def replacePrefixWithCompaction (t : ConversationThread) (entryCount : Int) (summary : String) :
    Except Thrown ConversationThread :=
  let count := min entryCount.toNat t.entries.length
  if count = 0 then .ok t
  else
    let removed := t.entries.take count
    let rest := t.entries.drop count
    let gone (turn : TurnInfo) : Bool :=
      removed.any (fun e => e.turnId = turn.id) && !rest.any (fun e => e.turnId = turn.id)
    let turnId := "compaction-" ++ turnName (t.turnCounter + 1)
    let message := compactionMessage summary
    orTypeError ((estimator.estimateMessage message).map fun tokensEst =>
      { t with
        entries :=
          { id := "entry-" ++ (t.entryCounter + 1).repr, turnId, kind := .compaction, message, tokensEst,
            elided := none, iteration := none, toolSummary := none, originalTokens := none } :: rest
        turns := setTurn (t.turns.filter (fun turn => !gone turn)) { id := turnId, status := .committed }
        entryCounter := t.entryCounter + 1
        turnCounter := t.turnCounter + 1 })

/-- The first entry with the id is changed. -/
def updateEntry (entryId : String) (f : ThreadEntry → Option ThreadEntry) :
    List ThreadEntry → Option (List ThreadEntry)
  | [] => some []
  | e :: entries =>
      if e.id = entryId then (f e).map (· :: entries)
      else (updateEntry entryId f entries).map (e :: ·)

def elide (content : String) (e : ThreadEntry) : Option ThreadEntry :=
  if e.kind = .toolResult && e.message.isTool then
    setMessage estimator
      { e with
        elided := some (.bool true)
        originalTokens := some (e.originalTokens.getD (.num (.finite e.tokensEst))) }
      { role := some (.str "tool"), toolCallId := e.message.toolCallId, name := e.message.name,
        content := some (.str content) }
  else some e

def elideToolResult (t : ConversationThread) (entryId : String) (elidedContent : String) :
    Except Thrown ConversationThread :=
  orTypeError ((updateEntry entryId (elide estimator elidedContent) t.entries).map fun entries =>
    { t with entries })

def truncatedMessage (content : String) (m : LlmMessage) : LlmMessage :=
  if m.isTool then
    { role := some (.str "tool"), toolCallId := m.toolCallId, name := m.name,
      content := some (.str content) }
  else
    { role := m.role
      content := some (.str content)
      toolCalls := if m.isAssistant && truthy m.toolCalls then m.toolCalls else none }

def truncateEntry (t : ConversationThread) (entryId : String) (truncatedContent : String) :
    Except Thrown ConversationThread :=
  orTypeError ((updateEntry entryId
    (fun e => setMessage estimator e (truncatedMessage truncatedContent e.message)) t.entries).map
    fun entries => { t with entries })

def reestimate (e : ThreadEntry) : Option ThreadEntry :=
  (setMessage estimator e e.message).map fun e =>
    if e.kind = .toolResult && !truthy e.elided then
      { e with originalTokens := some (.num (.finite e.tokensEst)) }
    else e

def reestimateTokens (t : ConversationThread) : Except Thrown ConversationThread :=
  orTypeError ((t.entries.mapM (reestimate estimator)).map fun entries => { t with entries })

def setCurrentIteration (t : ConversationThread) (iteration : Parsed.Number) : ConversationThread :=
  { t with currentIteration := iteration }

def buildMessages (t : ConversationThread) : Except Thrown (List LlmMessage) :=
  orTypeError (t.entries.mapM (fun e => cloneMessage e.message))

def exportEntry (e : ThreadEntry) : Option SerializedThreadEntry :=
  (cloneMessage e.message).map fun message =>
    { turnId := e.turnId, kind := e.kind, message, elided := e.elided, iteration := e.iteration,
      toolSummary := e.toolSummary, originalTokens := e.originalTokens }

def exportState (t : ConversationThread) : Except Thrown ConversationThreadState :=
  orTypeError ((t.entries.mapM exportEntry).map fun entries =>
    { entries, turns := t.turns, openTurnId := t.openTurnId, currentIteration := t.currentIteration })

end ConversationThread

section Restore

inductive Outcome
  | returned (restored : Bool)
  | threw

namespace ConversationThread

variable (estimator : TokenEstimator)

/-- `none` when `appendEntry` throws. -/
def restoreEntry (names : List (String × TurnInfo)) (t : ConversationThread)
    (saved : SerializedThreadEntry) : Option ConversationThread :=
  match renamed names saved.turnId with
  | none => some t
  | some turnId =>
      (t.nextEntry estimator turnId saved.kind saved.message saved.iteration saved.toolSummary).map
        fun entry => t.push { entry with elided := saved.elided, originalTokens := saved.originalTokens }

/-- The loop over the saved entries; the name of an entry is taken before it fails. -/
def restoreEntries (names : List (String × TurnInfo)) :
    ConversationThread → List SerializedThreadEntry → ConversationThread × Bool
  | t, [] => (t, true)
  | t, saved :: entries =>
      match restoreEntry estimator names t saved with
      | some t => restoreEntries names t entries
      | none => ({ t with entryCounter := t.entryCounter + 1 }, false)

/-- `removeUnmatchedToolCalls` for each of the turns. -/
def removeUnmatchedOf : ConversationThread → List String → ConversationThread × Bool
  | t, [] => (t, true)
  | t, turnId :: turnIds =>
      match removeUnmatchedToolCalls estimator t.entries turnId with
      | (entries, true) => removeUnmatchedOf { t with entries } turnIds
      | (entries, false) => ({ t with entries }, false)

/-- `Math.max(0, Math.floor(n))` -/
def floored : Parsed.Number → Parsed.Number
  | .finite value => .finite (max value.floor 0)
  | .infinite positive => if positive then .infinite true else .finite 0

def interruptedNotice : String :=
  "上次会话在未完成轮次中断；悬空工具调用已取消，请重新确认后续操作。"

/-- What is left to do when the entries are there. -/
def finishRestore (t : ConversationThread) (state : ConversationThreadState) (preserveOpenTurn : Bool)
    (restoredOpenTurnIds : List String) : ConversationThread × Outcome :=
  let (t, done) := match preserveOpenTurn, restoredOpenTurnIds with
    | true, [turnId] => ({ t with openTurnId := some turnId }, true)
    | _, turnIds => removeUnmatchedOf estimator t turnIds
  if done then
    let noticed :=
      if restoredOpenTurnIds ≠ [] ∧ preserveOpenTurn = false then
        t.addNotice? estimator interruptedNotice
      else some t
    match noticed with
    | some t => (t.setCurrentIteration (floored state.currentIteration), .returned true)
    | none => (t, .threw)
  else (t, .threw)

def restoreState (t : ConversationThread) (value : Value) (preserveOpenTurn : Bool) :
    ConversationThread × Outcome :=
  match conversationThreadState value with
  | none => (t, .returned false)
  | some state =>
      let names := renamedTurns preserveOpenTurn t.turnCounter state.turns
      let t := { t.clear with
        turns := names.map Prod.snd
        turnCounter := t.turnCounter + state.turns.length }
      let restoredOpenTurnIds := (state.turns.filter (fun turn => turn.status = .open)).filterMap
        (fun turn => renamed names turn.id)
      match restoreEntries estimator names t state.entries with
      | (t, true) => finishRestore estimator t state preserveOpenTurn restoredOpenTurnIds
      | (t, false) => (t, .threw)

end ConversationThread

end Restore

section Operations

/-- What can be done with a thread. -/
inductive Operation
  | beginTurn (userInput : String)
  | commitTurn
  | abortTurn (reason : String)
  | interruptTurn (reason : String)
  | appendAssistant (content : String) (toolCalls : List LlmToolCall)
  | appendToolResult (result : ToolResult)
  | addCompaction (summary : String) (turnId : Option String)
  | addNotice (content : String)
  | removeTurnEntries (turnIds : List String)
  | replacePrefixWithCompaction (entryCount : Int) (summary : String)
  | elideToolResult (entryId elidedContent : String)
  | truncateEntry (entryId truncatedContent : String)
  | reestimateTokens
  | setCurrentIteration (iteration : Parsed.Number)
  | buildMessages
  | exportState

/-- An operation, and the estimator as it is calibrated then. -/
structure Step where
  estimator : TokenEstimator
  operation : Operation

def Step.run (step : Step) (t : ConversationThread) : Except Thrown ConversationThread :=
  match step.operation with
  | .beginTurn userInput => t.beginTurn step.estimator userInput
  | .commitTurn => t.commitTurn
  | .abortTurn reason => t.abortTurn step.estimator reason
  | .interruptTurn reason => t.interruptTurn step.estimator reason
  | .appendAssistant content toolCalls => t.appendAssistant step.estimator content toolCalls
  | .appendToolResult result => t.appendToolResult step.estimator result
  | .addCompaction summary turnId => t.addCompaction step.estimator summary turnId
  | .addNotice content => t.addNotice step.estimator content
  | .removeTurnEntries turnIds => .ok (t.removeTurnEntries turnIds)
  | .replacePrefixWithCompaction entryCount summary =>
      t.replacePrefixWithCompaction step.estimator entryCount summary
  | .elideToolResult entryId content => t.elideToolResult step.estimator entryId content
  | .truncateEntry entryId content => t.truncateEntry step.estimator entryId content
  | .reestimateTokens => t.reestimateTokens step.estimator
  | .setCurrentIteration iteration => .ok (t.setCurrentIteration iteration)
  | .buildMessages => t.buildMessages.map (fun _ => t)
  | .exportState => t.exportState.map (fun _ => t)

/-- An operation that is refused, because a turn is open or none is, leaves the thread. -/
def next (t : ConversationThread) (step : Step) : ConversationThread :=
  match step.run t with
  | .ok t => t
  | .error _ => t

end Operations

end Kross.Context.Saved

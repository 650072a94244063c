import Kross.Service.Handlers

namespace Kross.Service

open Mutation (mapGet mapSet mapDelete)

/-- How what is awaited ends: a promise is resolved, with some text and the runtime
as the call leaves it, or is rejected with a message, or a stream goes on. -/
inductive Answer
  | resolved (text : String) (runtime : Runtime)
  | rejected (message : String) (runtime : Runtime)
  | usage (bytes : Nat)
  | streamed (event : AgentRunStreamEvent) (runtime : Runtime)

/-- The promise is settled. -/
def Answer.settles : Answer → Bool
  | .resolved _ _ | .rejected _ _ => true
  | _ => false

namespace World

variable (options : WorkerServiceOptions)

def accept (i : Nat) (sessionId : Option String) (requestId : String) (w : World) : World :=
  w.reply i sessionId (.requestAccepted requestId)

/-- `emitError`, after which the call returns. -/
def fail (i : Nat) (sessionId : Option String) (requestId code message : String) (w : World) : World :=
  (w.reply i sessionId (.requestError requestId code message)).finish i

def replySnapshot (i : Nat) (sessionId : String) (w : World) : World :=
  if (w.storage.loadSession options sessionId).isSome then w.reply i (some sessionId) .sessionSnapshot
  else w

def busyError (i : Nat) (sessionId requestId : String) (w : World) : World :=
  w.fail i (some sessionId) requestId "SESSION_BUSY" "会话正在运行"

section Loading

/-- `loadRuntime`, up to its await. -/
def loadRuntime (i : Nat) (sessionId : String) (stored : Option StoredSession) (w : World) : World :=
  match mapGet sessionId w.memory.sessions with
  | some r => (w.onMemory (.touch r)).await i (.got r)
  | none => match mapGet sessionId w.memory.loadingSessions with
    | some load => w.await i (.joining load)
    | none =>
        (w.onMemory (fun m =>
          { m with
            loads := m.loads ++ [⟨sessionId, i, .creating stored⟩]
            loadingSessions := mapSet sessionId m.loads.length m.loadingSessions })).await i
          (.loading w.memory.loads.length)

def requireSession (i : Nat) (sessionId requestId : String) (w : World) : World :=
  match mapGet sessionId w.memory.sessions with
  | some r => (w.onMemory (.touch r)).await i (.got r)
  | none => match w.storage.loadSession options sessionId with
    | none => w.fail i (some sessionId) requestId "SESSION_NOT_FOUND" "会话不存在"
    | some stored => w.loadRuntime i sessionId (some stored)

/-- The state that a runtime is restored from, the settings applied. -/
def restoredSession (sessionId : String) (stored : Option StoredSession) (runtime : Runtime)
    (w : World) : ActiveSession :=
  let profileId := ((w.storage.settings sessionId).getD .empty).modelProfileId
  let client := profileId.bind (fun id => w.createClientForProfile id)
  let messages := (stored.map StoredSession.messages).getD []
  { id := sessionId
    runtime := { runtime with client := client.or runtime.client }
    nextMessageId := (messages.map StoredMessage.id).foldr max 0 + 1
    toolMessages := messages.filterMap (fun m => m.callId.map (fun callId => (callId, m.id)))
    abortController := false
    subscribed := true
    lastUsedAt := w.memory.clock
    modelProfileId := client.bind (fun _ => profileId.bind (fun id =>
      if "gateway:".isPrefixOf id then w.memory.gateway.map gatewayId else some id)) }

def setLoad (load : Nat) (point : LoadPoint) (w : World) : World :=
  w.onMemory (fun m => { m with loads := m.loads.modify load (fun l => { l with point }) })

/-- The end of `initializeRuntime`, with the eviction in it up to its next await. -/
def trim (load r now : Nat) (candidates : List Nat) (w : World) : World :=
  let (memory, rest) := w.memory.evictLoop options now candidates
  { w with memory }.setLoad load (match rest with
    | none => .loaded r
    | some rest => .evicting r now rest)

/-- What `initializeRuntime` does once it has the runtime, if it gets one. -/
def created (load : Nat) (runtime : Option Runtime) (w : World) : World :=
  match w.memory.loads[load]? with
  | some ⟨sessionId, _, .creating stored⟩ => match runtime with
    | none => w.setLoad load .failed
    | some runtime =>
        let r := w.memory.objects.length
        let registered := w.onMemory (fun m =>
          { m with
            objects := m.objects ++ [w.restoredSession sessionId stored runtime]
            sessions := mapSet sessionId r m.sessions })
        registered.trim options load r w.memory.clock (registered.memory.candidates (some sessionId))
  | _ => w

/-- A runtime that `initializeRuntime` evicts is closed. -/
def trimmed (load : Nat) (ok : Bool) (w : World) : World :=
  match w.memory.loads[load]? with
  | some ⟨_, _, .evicting r now candidates⟩ =>
      if ok then w.trim options load r now candidates else w.setLoad load .failed
  | _ => w

/-- The `finally` of `loadRuntime`, in the call that made the promise. -/
def forgetLoading (sessionId : String) (owner : Bool) (w : World) : World :=
  if owner then w.onMemory (fun m => { m with loadingSessions := mapDelete sessionId m.loadingSessions })
  else w

/-- The promise of `initializeRuntime` is settled; `owner` made it. -/
def loaded (i load : Nat) (owner : Bool) (w : World) : World :=
  match w.memory.loads[load]? with
  | some ⟨sessionId, _, .loaded r⟩ => (w.forgetLoading sessionId owner).await i (.got r)
  | some ⟨sessionId, _, .failed⟩ => (w.forgetLoading sessionId owner).finish i
  | _ => w

end Loading

section Runs

/-- The rest of `consumeStream` once the stream has ended. -/
def streamDone (i r : Nat) (stream : StreamState) (w : World) : World :=
  match w.memory.session? r with
  | none => w
  | some s =>
      let flushed := match stream.segmentMessage with
        | some message =>
            if message.text ≠ stream.segmentText then
              w.upsertMessage s.id { message with text := stream.segmentText }
            else w
        | none => w
      let summarized := match stream.finalResult with
        | some result =>
            if !stream.hasAgentText && !(Session.trim result.summary.toList).isEmpty then
              flushed.persistMessage r (if result.approvalRequired then .system else .agent) result.summary
            else flushed
        | none => flushed
      (summarized.persistState r).replySnapshot options i s.id

/-- The `finally` of `runInput` and of `resolveApproval`. -/
def runEnded (i r : Nat) (w : World) : World :=
  (((w.setAbortController r false).persistState r).onMemory (.touch r)).finish i

def flushSegment (r : Nat) (stream : StreamState) (w : World) : World × StreamState :=
  let cleared := { stream with segmentFrom := none, segmentText := "", segmentMessage := none }
  match w.memory.session? r, stream.segmentMessage with
  | some s, some message =>
      if message.text ≠ stream.segmentText then
        (w.upsertMessage s.id { message with text := stream.segmentText }, cleared)
      else (w, cleared)
  | _, _ => (w, cleared)

def onText (r : Nat) (sender : MessageFrom) (text : String) (stream : StreamState) (w : World) :
    World × StreamState :=
  let (w, stream) := if stream.segmentFrom = some sender then (w, stream) else w.flushSegment r stream
  if stream.segmentMessage.isNone && text ≠ "" then
    (w.persistMessage r sender text,
      { stream with
        segmentFrom := some sender
        segmentText := text
        segmentMessage := w.newMessage r sender text
        hasAgentText := stream.hasAgentText || sender = .agent })
  else (w, { stream with segmentText := stream.segmentText ++ text })

/-- The body of the loop of `consumeStream`. -/
def consume (r : Nat) (event : AgentRunStreamEvent) (stream : StreamState) (w : World) :
    World × StreamState :=
  match event with
  | .textDelta text => w.onText r .agent text stream
  | .thinkingDelta text => w.onText r .thinking text stream
  | .turnStart | .toolsStart => w.flushSegment r stream
  | .other => (w, stream)
  | .result result =>
      let (w, stream) := w.flushSegment r stream
      (match w.memory.session? r with
        | some s => if result.pendingApproval then w.emit (some s.id) .approvalPending else w
        | none => w, { stream with finalResult := some result })

def streaming (i r : Nat) (stream : StreamState) (command : ClientCommand) (answer : Answer)
    (w : World) : World :=
  match w.memory.session? r, answer with
  | some _, .streamed event runtime =>
      let (w, stream) := ((w.updateRuntime r (fun _ => runtime)).act i).consume r event stream
      w.await i (.streaming r stream)
  | some _, .resolved _ runtime =>
      (((w.updateRuntime r (fun _ => runtime)).act i).streamDone options i r stream).runEnded i r
  | some s, .rejected message runtime =>
      let failed := (w.updateRuntime r (fun _ => runtime)).act i
      (match command.request with
        | .input _ _ _ _ =>
            failed.reply i (some s.id) (.requestError command.requestId "RUN_FAILED" message)
        | _ => failed).runEnded i r
  | _, _ => w

/-- A run is started. -/
def run (i r : Nat) (w : World) : World :=
  ((w.setAbortController r true).act i).await i (.streaming r .empty)

def runInput (i : Nat) (sessionId requestId : String) (w : World) : World :=
  match options.diskLimitBytes with
  | some limit =>
      if 0 < limit then w.await i .checkingDisk else w.requireSession options i sessionId requestId
  | none => w.requireSession options i sessionId requestId

/-- `runInput` once the disk is measured. -/
def diskChecked (i : Nat) (sessionId requestId : String) (answer : Answer) (w : World) : World :=
  match answer with
  | .usage bytes =>
      if options.diskLimitBytes.any (fun limit => limit < bytes) then
        w.fail i (some sessionId) requestId "WORKSPACE_DISK_QUOTA_EXCEEDED"
          ("工作区已使用 " ++ formatDiskBytes bytes ++ "，超过 " ++
            formatDiskBytes (options.diskLimitBytes.getD 0) ++ " 配额。请清理文件后重试。")
      else w.requireSession options i sessionId requestId
  | .rejected message _ =>
      w.fail i (some sessionId) requestId "WORKSPACE_DISK_CHECK_FAILED" ("无法检查工作区磁盘配额：" ++ message)
  | _ => w

end Runs

section Commands

/-- `runInput` and `resolveApproval` once they have the session. -/
def startRun (i r : Nat) (command : ClientCommand) (w : World) : World :=
  match w.memory.session? r with
  | none => w
  | some s =>
      if s.abortController then w.busyError i s.id command.requestId
      else match command.request with
        | .input _ input _ planApproved =>
            let accepted := (w.ensureGatewayProfileCurrent i r).accept i (some s.id) command.requestId
            (if planApproved then accepted else (accepted.persistMessage r .user input).act i).run i r
        | _ => (w.accept i (some s.id) command.requestId).run i r

/-- `resolvePlanApproval` once it has the session. -/
def planApproval (i r : Nat) (sessionId requestId : String) (approved : Bool) (input : Option String)
    (w : World) : World :=
  match (w.memory.session? r).bind (fun s => s.runtime.pendingModeExecution) with
  | none => w.fail i (some sessionId) requestId "PLAN_NOT_PENDING" "当前没有等待确认的计划"
  | some kind =>
      if approved then
        match input.filter (fun input => input ≠ "") with
        | none => w.fail i (some sessionId) requestId "PLAN_INPUT_REQUIRED" "批准计划时必须提供原始任务输入"
        | some input =>
            (w.onTask i (fun t =>
              { t with command := { t.command with request := .input sessionId input kind true } })).runInput
              options i sessionId requestId
      else
        (((((w.updateRuntime r (fun runtime =>
          { runtime with pendingModeExecution := none })).workStateChanged r).act i).persistState r).accept i
            (some sessionId) requestId |>.replySnapshot options i sessionId).finish i

def aborted (i r : Nat) (sessionId requestId : String) (w : World) : World :=
  (((w.persistState r).act i).accept i (some sessionId) requestId).finish i

def abort (i r : Nat) (sessionId requestId : String) (w : World) : World :=
  if ((w.memory.session? r).bind (fun s => s.runtime.pendingToolApproval)).isSome then
    ((w.updateRuntime r (fun runtime => { runtime with pendingToolApproval := none })).act i).await i
      (.interrupting r)
  else w.aborted i r sessionId requestId

/-- Nothing if the profile does not exist. -/
def applyProfile (i r : Nat) (patch : Settings) (w : World) : Option World :=
  match patch.modelProfileId with
  | some profileId => (w.applyProfileToSession r profileId).map (World.act i)
  | none => some w

def applyModel (i r : Nat) (patch : Settings) (w : World) : World :=
  match patch.modelProfileId, patch.model with
  | none, some model =>
      (w.onMemory (.update r (fun s =>
        { s with
          runtime := { s.runtime with client := s.runtime.client.map (Prod.map id (fun _ => model)) }
          modelProfileId := none }))).act i
  | _, _ => w

def saveSettings (i : Nat) (sessionId : String) (patch : Settings) (w : World) : World :=
  if patch.isEmpty then w else (w.updateSettings sessionId patch).act i

def applyMode (i r : Nat) (mode : Option AgentMode) (w : World) : World :=
  if mode.isSome then ((w.workStateChanged r).persistState r).act i else w

/-- `updateSettings` once it has the session. A call of the runtime may throw after a
profile was applied. -/
def applySettings (i r : Nat) (sessionId requestId : String) (patch : Settings) (mode : Option AgentMode)
    (answer : Answer) (w : World) : World :=
  match w.applyProfile i r patch, answer with
  | none, _ => w.fail i (some sessionId) requestId "SETTINGS_FAILED"
      ("模型配置不存在：" ++ patch.modelProfileId.getD "")
  | some profiled, .resolved _ _ =>
      let applied := ((profiled.applyModel i r patch).saveSettings i sessionId patch).applyMode i r mode
      ((applied.accept i (some sessionId) requestId).replySnapshot options i sessionId).finish i
  | some profiled, .rejected message runtime =>
      ((profiled.updateRuntime r (fun current => { current with client := runtime.client })).act i).fail i
        (some sessionId) requestId "SETTINGS_FAILED" message
  | some _, _ => w

def inspected (i : Nat) (sessionId requestId : String) (answer : Answer) (w : World) : World :=
  match answer with
  | .resolved content _ =>
      ((w.reply i (some sessionId) (.inspectionResult content)).accept i (some sessionId) requestId).finish i
  | .rejected message _ => w.fail i (some sessionId) requestId "INSPECTION_FAILED" message
  | _ => w

/-- `inspectSession` once it has formatted what it shows. -/
def formatted (i r : Nat) (kind : InspectionKind) (sessionId requestId : String) (answer : Answer)
    (w : World) : World :=
  match kind, answer with
  | .diff, .resolved _ _ => w.await i (.inspecting r)
  | _, answer => w.inspected i sessionId requestId answer

def compact (i r : Nat) (sessionId requestId : String) (w : World) : World :=
  if (w.memory.session? r).any ActiveSession.abortController then w.busyError i sessionId requestId
  else ((w.setAbortController r true).act i).await i (.compacting r)

/-- `compactSession` once the runtime has compacted. -/
def compacted (i r : Nat) (sessionId requestId : String) (answer : Answer) (w : World) : World :=
  match answer with
  | .resolved text runtime =>
      ((((((w.updateRuntime r (fun _ => runtime)).persistMessage r .system text).persistState r).act
        i).replySnapshot options i sessionId).accept i (some sessionId) requestId
          |>.setAbortController r false).finish i
  | .rejected message runtime =>
      ((w.updateRuntime r (fun _ => runtime)).reply i (some sessionId)
        (.requestError requestId "COMPACTION_FAILED" message) |>.setAbortController r false).finish i
  | _ => w

/-- The result of a command for the runtime, which is accepted also when it throws. -/
def commanded (i r : Nat) (name : RuntimeCommand) (sessionId requestId : String) (answer : Answer)
    (w : World) : World :=
  match answer with
  | .resolved content _ =>
      (((w.reply i (some sessionId) (.runtimeCommandResult name true content)).accept i (some sessionId)
        requestId).setAbortController r false).finish i
  | .rejected message _ =>
      (((w.reply i (some sessionId) (.runtimeCommandResult name false message)).accept i (some sessionId)
        requestId).setAbortController r false).finish i
  | _ => w

def runRuntimeCommand (i r : Nat) (name : RuntimeCommand) (sessionId requestId : String) (answer : Answer)
    (w : World) : World :=
  if (w.memory.session? r).any ActiveSession.abortController then w.busyError i sessionId requestId
  else
    let started := (w.setAbortController r true).act i
    if name = .mcp then started.await i (.commanding r)
    else started.commanded i r name sessionId requestId answer

/-- `runGitOperation` once git has ended. -/
def operated (i : Nat) (sessionId requestId : String) (answer : Answer) (w : World) : World :=
  match answer with
  | .resolved output _ =>
      ((w.reply i (some sessionId) (.gitResult true output)).accept i (some sessionId) requestId).finish i
  | .rejected message _ =>
      (w.reply i (some sessionId) (.gitResult false message)).fail i (some sessionId) requestId
        "GIT_OPERATION_FAILED" message
  | _ => w

/-- What a handler does with the session that it has required or loaded. -/
def withSession (i r : Nat) (command : ClientCommand) (answer : Answer) (w : World) : World :=
  let requestId := command.requestId
  match command.request, (w.memory.session? r).map ActiveSession.id with
  | .create, some sessionId =>
      ((w.accept i (some sessionId) requestId).reply i (some sessionId) .sessionSnapshot).finish i
  | .resume sessionId lastSeq, some _ =>
      (((w.reply i (some sessionId) .sessionSnapshot).reply i (some sessionId)
        (.replayComplete lastSeq)).accept i (some sessionId) requestId).finish i
  | .input _ _ _ _, some _ | .approval _ _ _ _, some _ => w.startRun i r command
  | .planApproval sessionId approved input, some _ =>
      w.planApproval options i r sessionId requestId approved input
  | .abort sessionId, some _ => w.abort i r sessionId requestId
  | .settings sessionId patch mode, some _ =>
      w.applySettings options i r sessionId requestId patch mode answer
  | .inspect _ _, some _ => w.await i (.formatting r)
  | .compact sessionId _, some _ => w.compact i r sessionId requestId
  | .runtimeCommand sessionId name, some _ => w.runRuntimeCommand i r name sessionId requestId answer
  | .git _ _, some _ => (w.act i).await i (.operating r)
  | _, _ => w

end Commands

section Dispatch

def createSession (i : Nat) (w : World) : World :=
  let sessionId := options.createSessionId w.storage.drawn
  let stored := (w.onStorage (fun s =>
    { s with
      sessions := mapSet sessionId .created s.sessions
      drawn := s.drawn + 1
      deleted := s.deleted.filter (fun id => id ≠ sessionId) })).act i
  stored.loadRuntime i sessionId (stored.storage.loadSession options sessionId)

def resumeSession (i : Nat) (sessionId requestId : String) (w : World) : World :=
  match w.storage.loadSession options sessionId with
  | none => w.fail i (some sessionId) requestId "SESSION_NOT_FOUND" "会话不存在"
  | some stored => w.loadRuntime i sessionId (some stored)

def renameSession (i : Nat) (sessionId title requestId : String) (w : World) : World :=
  let normalized := Session.normalizeTitle title
  if (w.storage.loadSession options sessionId).isNone then
    w.fail i (some sessionId) requestId "SESSION_NOT_FOUND" "会话不存在"
  else if (mapGet sessionId w.storage.sessions).isNone || normalized = "" then
    w.fail i (some sessionId) requestId "INVALID_SESSION_TITLE" "会话名称不能为空"
  else
    let renamed := (w.onStorage (.updateStored sessionId (fun s =>
      { s with title := some normalized }))).act i
    ((renamed.accept i (some sessionId) requestId).reply i (some sessionId)
      (.sessionUpdated (some normalized))).finish i

/-- `deleteSession` once no runtime is left of the session. -/
def deleteStored (i : Nat) (sessionId requestId : String) (w : World) : World :=
  if (mapGet sessionId w.storage.sessions).isNone then
    w.fail i (some sessionId) requestId "SESSION_NOT_FOUND" "会话不存在"
  else
    ((((w.onStorage (.deleteSession sessionId)).act i).reply i none (.sessionDeleted sessionId)).accept i
      none requestId).finish i

/-- `deleteSession` up to its await. -/
def deleteSession (i : Nat) (sessionId requestId : String) (w : World) : World :=
  match mapGet sessionId w.memory.sessions with
  | none => w.deleteStored i sessionId requestId
  | some r =>
      if w.memory.isBusy r then
        w.fail i (some sessionId) requestId "SESSION_BUSY" "会话正在运行或等待审批，无法删除"
      else
        ((w.onMemory (fun m =>
          ({ m with sessions := mapDelete sessionId m.sessions }.unsubscribe r).close r)).act i).await i
            .deleting

def upsertProfile (i : Nat) (label provider model : String) (w : World) : World :=
  (w.onStorage (fun s =>
    { s with
      profiles := s.profiles ++ [⟨"workspace:" ++ options.randomUUID s.drawn, label, provider, model⟩]
      drawn := s.drawn + 1 })).act i

/-- The `switch` of `handle`. -/
def dispatch (i : Nat) (command : ClientCommand) (w : World) : World :=
  let requestId := command.requestId
  match command.request with
  | .create => w.createSession options i
  | .list _ => (w.reply i none .sessionList).finish i
  | .resume sessionId _ => w.resumeSession options i sessionId requestId
  | .rename sessionId title => w.renameSession options i sessionId title requestId
  | .delete sessionId => w.deleteSession i sessionId requestId
  | .input sessionId _ _ _ => w.runInput options i sessionId requestId
  | .approval sessionId _ _ _ | .planApproval sessionId _ _ | .abort sessionId | .settings sessionId _ _
  | .inspect sessionId _ | .compact sessionId _ | .runtimeCommand sessionId _ | .git sessionId _ =>
      w.requireSession options i sessionId requestId
  | .status =>
      (w.reply i none (.runtimeStatus ((w.memory.sessions.map Prod.snd).filter (fun r =>
        (w.memory.session? r).any ActiveSession.abortController)).length w.memory.sessions.length)).finish i
  | .models => (w.reply i none .modelsList).finish i
  | .upsertProfile label provider model =>
      (((w.upsertProfile options i label provider model).reply i none .modelsList).accept i none
        requestId).finish i
  | .deleteProfile profileId => match w.deleteWorkspaceProfile options i profileId with
    | none => w.finish i
    | some w => ((w.reply i none .modelsList).accept i none requestId).finish i
  | .clearProfiles =>
      (((w.onStorage (fun s => { s with profiles := [] })).act i).accept i none requestId).finish i
  | .configureGateway provider model =>
      (((w.configureGatewayProfile options i provider model).reply i none .modelsList).accept i none
        requestId).finish i
  | .other type =>
      w.fail i none requestId "UNSUPPORTED_COMMAND" ("worker 不支持 " ++ type)

/-- The look-up in the index, and the handler up to its first await. -/
def enter (i : Nat) (command : ClientCommand) (w : World) : World :=
  if command.request.isResume then w.dispatch options i command
  else match w.storage.findCompletedRequest command.request.sessionId command.requestId with
    | some _ => w.await i (.done false)
    | none => w.dispatch options i command

/-- The eviction at the start of `handle`, up to its next await. -/
def evicting (i now : Nat) (candidates : List Nat) (w : World) : World :=
  let (memory, rest) := w.memory.evictLoop options now candidates
  { w with memory }.await i (match rest with
    | none => .entered
    | some rest => .evicting now rest)

/-- `handle` up to its first await. -/
def received (command : ClientCommand) (w : World) : World :=
  let i := w.tasks.length
  let called : World := { w with tasks := w.tasks ++ [⟨command, .entered, []⟩] }
  if command.workspaceId.any (fun id => id ≠ options.workspaceId) then
    (called.reply i none
      (.requestError command.requestId "WORKSPACE_MISMATCH" "命令不属于当前 worker 工作区")).await i
        (.done false)
  else called.evicting options i w.memory.clock (w.memory.candidates command.request.sessionId)

/-- The `finally` of `handle`. -/
def ended (i : Nat) (task : Task) (w : World) : World :=
  let command := task.command
  if !command.request.isResume && !task.events.isEmpty && !task.events.any ServerEvent.isError then
    (w.onStorage (.completeRequest command.request.sessionId command.requestId task.events)).await i
      (.done true)
  else w.await i (.done false)

end Dispatch

/-- A call of `handle` goes on. -/
def resumed (i : Nat) (answer : Answer) (w : World) : World :=
  match w.tasks[i]? with
  | none => w
  | some task =>
      let command := task.command
      let requestId := command.requestId
      match task.point, command.request.sessionId, answer with
      | .evicting now candidates, _, .resolved _ _ => w.evicting options i now candidates
      | .evicting _ _, _, .rejected _ _ => w.await i (.done false)
      | .entered, _, _ => w.enter options i command
      | .checkingDisk, some sessionId, answer => w.diskChecked options i sessionId requestId answer
      | .loading load, _, _ => w.loaded i load true
      | .joining load, _, _ => w.loaded i load false
      | .got r, _, answer => if answer.settles then w.withSession options i r command answer else w
      | .streaming r stream, _, answer => w.streaming options i r stream command answer
      | .interrupting r, some sessionId, .resolved _ _ => w.aborted i r sessionId requestId
      | .interrupting _, _, .rejected _ _ => w.finish i
      | .formatting r, some sessionId, answer => match command.request with
        | .inspect _ kind => w.formatted i r kind sessionId requestId answer
        | _ => w
      | .inspecting _, some sessionId, answer => w.inspected i sessionId requestId answer
      | .compacting r, some sessionId, answer => w.compacted options i r sessionId requestId answer
      | .commanding r, some sessionId, answer => match command.request with
        | .runtimeCommand _ name => w.commanded i r name sessionId requestId answer
        | _ => w
      | .operating _, some sessionId, answer => w.operated i sessionId requestId answer
      | .deleting, some sessionId, .resolved _ _ => w.deleteStored i sessionId requestId
      | .deleting, _, .rejected _ _ => w.finish i
      | .ending, _, _ => w.ended i task
      | _, _, _ => w

/-- The process starts anew: what was in progress is lost. -/
def restarted (w : World) : World where
  memory :=
    { w.memory with
      objects := w.memory.objects.map (fun s => { s with subscribed := false })
      sessions := []
      loadingSessions := []
      loads := w.memory.loads.map (fun l => { l with point := .failed })
      gateway := options.gateway }
  storage := w.storage
  tasks := w.tasks.map (fun t => match t.point with
    | .done _ => t
    | _ => { t with point := .done false })
  effects := w.effects

end World

/-- What happens next: a command comes, a call goes on, a load goes on, a runtime tells
its listeners something, time passes, or the worker is restarted. -/
inductive ServiceStep
  | clock (now : Nat)
  | received (command : ClientCommand)
  | resumed (task : Nat) (answer : Answer)
  | created (load : Nat) (runtime : Option Runtime)
  | trimmed (load : Nat) (ok : Bool)
  | traced (session : Nat) (trace : Option (String × String))
  | workStateChanged (session : Nat) (contextState workState : String)
  | restarted

variable (options : WorkerServiceOptions)

def ServiceStep.next (w : World) : ServiceStep → World
  | .clock now => w.onMemory (fun m => { m with clock := now })
  | .received command => w.received options command
  | .resumed i answer => w.resumed options i answer
  | .created load runtime => w.created options load runtime
  | .trimmed load ok => w.trimmed options load ok
  | .traced r trace => w.traced r trace
  | .workStateChanged r contextState workState =>
      (w.updateRuntime r (fun runtime => { runtime with contextState, workState })).workStateChanged r
  | .restarted => w.restarted options

/-- A worker that finds these files. -/
def World.start (sessions : List (String × StoredSession)) (settings : String → Option Settings)
    (journal : Option String → List ServerEvent) (requests : Option String → List (String × List ServerEvent))
    (profiles : List WorkspaceProfile) : World where
  memory := ⟨0, [], [], [], [], options.gateway, [], []⟩
  storage := ⟨sessions, settings, journal, requests, profiles, 0, [], fun k => (requests k).map Prod.fst⟩
  tasks := []
  effects := []

end Kross.Service

import Kross.Run
import Kross.Verification.Runs

namespace Kross.Verification

open Kross.Json Kross.Trace

/-- How a process of the operating system ends. -/
inductive Ending
  | exited (code : Nat)
  | signaled (signal : String)
  deriving DecidableEq

/-- The code that the `close` event of a child reports; null for a signal. -/
def Ending.code : Ending → Option Nat
  | .exited code => some code
  | .signaled _ => none

structure ToolCall where
  callId : String
  tool : CommandTool
  command : Text
  /-- The id that the manager gives the process of a `ProcessStart`. -/
  processId : String

/-- What can happen to the command of a call. -/
inductive Happening
  | spawned
  | spawnError (message : String)
  | timeout
  | outputLimit
  | abort
  | gatewayTimeout
  | retried
  | killRequest
  | killFailed
  | ended (ending : Ending)
  deriving DecidableEq

/-- What the handler of a call comes to. -/
inductive Settled
  | resolved (code : Nat)
  | started
  | rejected (message : String)
  | cancelled
  deriving DecidableEq

inductive Phase
  | running (attempt : Nat) (overflown : Bool)
  /-- The wait before the attempt that follows. -/
  | waiting (attempt : Nat)
  | settled (result : Settled)
  | finished
  deriving DecidableEq

inductive ManagedProcessStatus
  | running
  | exited
  | killed
  deriving DecidableEq

def ManagedProcessStatus.name : ManagedProcessStatus → String
  | .running => "running"
  | .exited => "exited"
  | .killed => "killed"

structure ManagedHandle where
  status : ManagedProcessStatus
  terminationRequested : Bool
  exitCode : Option Nat
  closed : Bool

/-- A call of the gateway. `ending` is how the process of its last attempt
ended, and `recorded` is the result that its closing event was written for. -/
structure CallRun where
  call : ToolCall
  phase : Phase
  handle : Option ManagedHandle
  ending : Option Ending
  recorded : Option Settled

section Commands

/-- `runCommand` of Bash: `code ?? 0`. -/
def bashResult (ending : Ending) : Settled := .resolved (ending.code.getD 0)

/-- `runCommand` of Verify: an error without a numeric code rejects. -/
def verifyResult (overflown : Bool) (ending : Ending) : Settled :=
  if overflown then .rejected "stdout maxBuffer length exceeded"
  else match ending.code with
    | some code => .resolved code
    | none => .rejected "Command failed"

def commandResult (tool : CommandTool) (overflown : Bool) (ending : Ending) : Settled :=
  if tool = .bash then bashResult ending else verifyResult overflown ending

/-- Only Bash is tried again, and only after a timeout of the gateway. -/
def maxAttempts (tool : CommandTool) : Nat := if tool = .bash then 2 else 1

def CallRun.commandHappens (run : CallRun) (happening : Happening) : CallRun :=
  match run.phase, happening with
  | .running attempt _, .outputLimit => { run with phase := .running attempt true }
  | .running _ _, .spawnError message => { run with phase := .settled (.rejected message) }
  | .running _ _, .abort => { run with phase := .settled .cancelled }
  | .running attempt _, .gatewayTimeout =>
      if attempt < maxAttempts run.call.tool then { run with phase := .waiting attempt }
      else { run with phase := .settled (.rejected ("Tool timed out: " ++ run.call.tool.name)) }
  | .running _ overflown, .ended ending =>
      { run with
        phase := .settled (commandResult run.call.tool overflown ending)
        ending := some ending }
  | .waiting attempt, .retried => { run with phase := .running (attempt + 1) false, ending := none }
  -- An abort during the wait leaves the gateway without an event.
  | .waiting _, .abort => { run with phase := .finished }
  | .settled (.resolved _), .abort => { run with phase := .settled .cancelled }
  | _, _ => run

end Commands

section Processes

/-- The `close` handler. -/
def ManagedHandle.close (handle : ManagedHandle) (ending : Ending) : ManagedHandle :=
  { handle with
    status := if handle.status = .running then
        if handle.terminationRequested || ending.code.isNone then .killed else .exited
      else handle.status
    exitCode := ending.code
    closed := true }

def CallRun.handleHappens (run : CallRun) (handle : ManagedHandle) : Happening → CallRun
  | .killRequest =>
      if handle.status = .running then { run with handle := some { handle with terminationRequested := true } }
      else run
  | .killFailed =>
      if handle.status = .running then { run with handle := some { handle with terminationRequested := false } }
      else run
  | .ended ending =>
      if handle.closed then run else { run with handle := some (handle.close ending), ending := some ending }
  | _ => run

def CallRun.processHappens (run : CallRun) (happening : Happening) : CallRun :=
  match run.phase, happening with
  | .running _ _, .spawned =>
      { run with phase := .settled .started, handle := some ⟨.running, false, none, false⟩ }
  | .running _ _, .spawnError message => { run with phase := .settled (.rejected message) }
  | .running _ _, .abort => { run with phase := .settled .cancelled }
  | .running _ _, .gatewayTimeout => { run with phase := .settled (.rejected "Tool timed out: ProcessStart") }
  | .settled .started, .abort => { run with phase := .settled .cancelled }
  | _, happening => match run.handle with
    | some handle => run.handleHappens handle happening
    | none => run

end Processes

def CallRun.happens (run : CallRun) (happening : Happening) : CallRun :=
  if run.call.tool = .processStart then run.processHappens happening else run.commandHappens happening

section Events

variable (platform : Platform)

def ToolCall.startedPayload (call : ToolCall) : Fields :=
  Fields.ofList [("toolName", .str call.tool.name), ("callId", .str call.callId),
    ("input", .obj (Fields.ofList (
      ("commandFingerprint", .str (String.ofList (fingerprintCommand platform call.command))) ::
      match identifyVerificationCommand platform call.command with
      | some identity => [("verificationCommand", .str (String.ofList identity.label))]
      | none => [])))]

def Settled.type : Settled → String
  | .resolved _ => "tool_call.completed"
  | .started => "tool_call.completed"
  | .rejected _ => "tool_call.failed"
  | .cancelled => "tool_call.cancelled"

def Settled.details (call : ToolCall) : Settled → List (String × Value)
  | .resolved code => [("summary", .str s!"exit={code}"),
      ("data", .obj (Fields.ofList [("exitCode", .num (.ofNat code))]))]
  | .started => [("summary", .str (call.processId ++ " started")),
      ("data", .obj (Fields.ofList [("processId", .str call.processId), ("status", .str "running")]))]
  | .rejected message => [("summary", .str ("failed: " ++ message))]
  | .cancelled => [("summary", .str "cancelled by user")]

def ToolCall.closedPayload (call : ToolCall) (result : Settled) : Fields :=
  Fields.ofList ([("toolName", .str call.tool.name), ("callId", .str call.callId)] ++ result.details call)

def pollPayload (call : ToolCall) (handle : ManagedHandle) (pollId : String) : Fields :=
  Fields.ofList [("toolName", .str "ProcessPoll"), ("callId", .str pollId),
    ("summary", .str (call.processId ++ " " ++ handle.status.name)),
    ("data", .obj (Fields.ofList ([("processId", .str call.processId), ("status", .str handle.status.name)] ++
      match handle.exitCode with
      | some code => [("exitCode", .num (.ofNat code))]
      | none => [])))]

end Events

/-- The calls of a run and the trace that they are recorded in. -/
structure Bench where
  calls : List CallRun
  trace : List TraceEvent

/-- The time and the id that an event is written with. -/
structure Stamp where
  id : String
  runId : String
  timestamp : String

def Stamp.event (stamp : Stamp) (type : String) (payload : Fields) : TraceEvent :=
  ⟨stamp.id, stamp.runId, type, stamp.timestamp, none, payload⟩

inductive BenchStep
  | begins (stamp : Stamp) (call : ToolCall)
  | happens (i : Nat) (happening : Happening)
  | records (stamp : Stamp) (i : Nat)
  | polls (stamp : Stamp) (i : Nat) (pollId : String)
  | other (event : TraceEvent)

section Bench

variable (platform : Platform)

def Bench.start : Bench := ⟨[], []⟩

/-- An event of a command tool, or a poll that has found a process ended. -/
def isCommandEvent (event : TraceEvent) : Bool :=
  (event.toolName.bind CommandTool.ofName).isSome || (Collected.terminalPoll event).isSome

def Bench.record (bench : Bench) (stamp : Stamp) (i : Nat) : Bench :=
  match bench.calls[i]? with
  | some run => match run.phase with
    | .settled result =>
        ⟨bench.calls.modify i (fun run => { run with phase := .finished, recorded := some result }),
          bench.trace ++ [stamp.event result.type (run.call.closedPayload result)]⟩
    | _ => bench
  | none => bench

def Bench.poll (bench : Bench) (stamp : Stamp) (i : Nat) (pollId : String) : Bench :=
  match bench.calls[i]? with
  | some run => match run.handle with
    | some handle =>
        { bench with trace := bench.trace ++
            [stamp.event "tool_call.completed" (pollPayload run.call handle pollId)] }
    | none => bench
  | none => bench

def Bench.next (bench : Bench) : BenchStep → Bench
  | .begins stamp call =>
      ⟨bench.calls ++ [⟨call, .running 1 false, none, none, none⟩],
        bench.trace ++ [stamp.event "tool_call.started" (call.startedPayload platform)]⟩
  | .happens i happening => { bench with calls := bench.calls.modify i (·.happens happening) }
  | .records stamp i => bench.record stamp i
  | .polls stamp i pollId => bench.poll stamp i pollId
  | .other event =>
      if isCommandEvent event then bench else { bench with trace := bench.trace ++ [event] }

end Bench

end Kross.Verification

import Kross.Trace.Event
import Kross.Verification.Command

namespace Kross.Runtime

open Kross.Json Kross.Session Kross.Trace Kross.Verification

section StableJson

variable (platform : Platform)

/-- An entry before the first one whose key is not smaller. -/
def insertEntry (key : String) (value : Value) : Fields → Fields
  | .nil => .cons key value .nil
  | .cons k v rest =>
      if platform.localeCompare key.toList k.toList ≠ .gt then .cons key value (.cons k v rest)
      else .cons k v (insertEntry key value rest)

mutual
def normalizeJson : Value → Value
  | .arr items => .arr (normalizeItems items)
  | .obj fields => .obj (normalizeFields fields)
  | value => value

def normalizeItems : Items → Items
  | .nil => .nil
  | .cons value rest => .cons (normalizeJson value) (normalizeItems rest)

def normalizeFields : Fields → Fields
  | .nil => .nil
  | .cons key value rest => insertEntry platform key (normalizeJson value) (normalizeFields rest)
end

def stableJson (value : Value) : Text := render (normalizeJson platform value)

end StableJson

inductive LoopError
  | aborted (reason : String)
  | toolNotFound (name : String)
  | thrown (message : String)
  deriving DecidableEq

/-- A call that the model asks for. `events` is what the gateway records of it,
and `outcome` the content of its result. -/
structure LlmToolCall where
  name : String
  input : Value
  events : List TraceEvent
  outcome : Except LoopError Text

/-- An answer of the model, and the events that the callbacks of the loop write
about it. -/
structure Turn where
  text : Text
  calls : List LlmToolCall
  noted : List TraceEvent

inductive ToolLoopStallState
  | progress
  | repeated
  | recover
  | stalled
  deriving DecidableEq

structure ToolLoopStallDetector where
  previousFingerprint : Option Text
  repeatedCount : Nat
  recoveryIssued : Bool

def DEFAULT_STALL_REPEAT_THRESHOLD : Nat := 2

section Detector

def ToolLoopStallDetector.new : ToolLoopStallDetector := ⟨none, 0, false⟩

def ToolLoopStallDetector.observe (detector : ToolLoopStallDetector) (fingerprint : Text) :
    ToolLoopStallState × ToolLoopStallDetector :=
  if detector.previousFingerprint ≠ some fingerprint then (.progress, ⟨some fingerprint, 0, false⟩)
  else
    let detector := { detector with repeatedCount := detector.repeatedCount + 1 }
    if detector.recoveryIssued then (.stalled, detector)
    else if DEFAULT_STALL_REPEAT_THRESHOLD ≤ detector.repeatedCount then
      (.recover, { detector with recoveryIssued := true })
    else (.repeated, detector)

variable (platform : Platform)

def toolCallsSignature : List LlmToolCall → Text
  | [] => []
  | [call] => call.name.toList ++ ':' :: stableJson platform call.input
  | call :: rest =>
      call.name.toList ++ ':' :: stableJson platform call.input ++ '|' :: toolCallsSignature rest

def toolResult (name : String) (content : Text) : Value :=
  .obj (Fields.ofList [("name", .str name), ("content", .str (String.ofList content))])

def observationFingerprint (calls : List LlmToolCall) (results : List (String × Text)) : Text :=
  platform.sha256 (toolCallsSignature platform calls ++ "\nresults:".toList ++
    stableJson platform (.arr (Items.ofList (results.map (fun (name, content) => toolResult name content)))))

end Detector

section Calls

/-- What the gateway records of a call names the tool of the call. -/
def LlmToolCall.recorded (call : LlmToolCall) : List TraceEvent :=
  call.events.filter (fun event => event.toolName = some call.name)

/-- The events of the calls up to the first one that throws, and the results. -/
def executeSequentialToolCalls (tools : List String) :
    List LlmToolCall → List TraceEvent × Except LoopError (List (String × Text))
  | [] => ([], .ok [])
  | call :: rest =>
      if call.name ∈ tools then
        match call.outcome with
        | .error error => (call.recorded, .error error)
        | .ok content =>
            let (events, results) := executeSequentialToolCalls tools rest
            (call.recorded ++ events, results.map ((call.name, content) :: ·))
      else ([], .error (.toolNotFound call.name))

end Calls

inductive AppLocale
  | zhCN
  | enUS

def summaryEmpty : AppLocale → Text
  | .zhCN => "子代理已结束，但没有生成文本总结。".toList
  | .enUS => "The subagent finished without a text summary.".toList

def summaryStalled : AppLocale → Text
  | .zhCN => "子代理因重复相同工具调用且没有进展而停止。".toList
  | .enUS => "The subagent stopped after repeating the same tool calls without progress.".toList

/-- The events that the callbacks of `runSubagent` write into the run. -/
def isLoopEvent (event : TraceEvent) : Bool :=
  event.type ∈ ["llm.subagent.turn", "llm.subagent.completed", "llm.subagent.stall_recovery",
    "llm.subagent.stalled"]

/-- `states` is what the detector has answered so far. -/
structure LoopState where
  iteration : Nat
  lastText : Text
  detector : ToolLoopStallDetector
  trace : List TraceEvent
  states : List ToolLoopStallState

structure LoopResult where
  trace : List TraceEvent
  states : List ToolLoopStallState
  /-- The summary, and whether `onStalled` was called. -/
  outcome : Except LoopError (Text × Bool)

section Loop

variable (platform : Platform) (locale : AppLocale) (tools : List String) (maxIterations : Nat)
  (complete : Nat → Except LoopError Turn) (softLand : Except LoopError Text)

/-- The answer to the request that ends a loop which has run out of rounds. -/
def softSummary (text lastText : Text) : Text :=
  if trim text ≠ [] then trim text
  else if lastText ≠ [] then lastText
  else s!"Subagent reached tool iteration limit ({maxIterations}).".toList

/-- The rounds of the loop; `left` of them are not used up. -/
def rounds : Nat → LoopState → LoopResult
  | 0, state =>
      ⟨state.trace, state.states,
        softLand.map (fun text => (softSummary maxIterations text state.lastText, false))⟩
  | left + 1, state => match complete state.iteration with
    | .error error => ⟨state.trace, state.states, .error error⟩
    | .ok turn =>
        let lastText := trim turn.text
        let trace := state.trace ++ turn.noted.filter isLoopEvent
        if turn.calls.isEmpty then
          ⟨trace, state.states, .ok (if lastText = [] then summaryEmpty locale else lastText, false)⟩
        else
          let executed := executeSequentialToolCalls tools turn.calls
          let trace := trace ++ executed.1
          match executed.2 with
          | .error error => ⟨trace, state.states, .error error⟩
          | .ok results =>
              let observed := state.detector.observe (observationFingerprint platform turn.calls results)
              if observed.1 = .stalled then
                ⟨trace, state.states ++ [.stalled], .ok (summaryStalled locale, true)⟩
              else rounds left
                ⟨state.iteration + 1, lastText, observed.2, trace, state.states ++ [observed.1]⟩

def runCompleteToolLoop : LoopResult :=
  rounds platform locale tools maxIterations complete softLand maxIterations ⟨1, [], .new, [], []⟩

end Loop

end Kross.Runtime

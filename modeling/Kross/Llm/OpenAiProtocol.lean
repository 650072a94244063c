import Kross.Grouping
import Kross.Json

namespace Kross.Llm

open Kross.Json (Value Fields)

abbrev Text := List Char

structure LlmToolCall where
  id : Text
  name : Text
  input : Value

inductive LlmStreamChunk
  | textDelta (text : Text)
  | thinkingDelta (text : Text)
  | toolCall (call : LlmToolCall)
  | done

/-- The fields of a response that a stream has too. -/
structure LlmResponse where
  text : Text
  thinking : Option Text
  toolCalls : Option (List LlmToolCall)

/-- The text of a member that is there and not empty. -/
def truthy (text : Option Text) : Option Text := text.filter (· ≠ [])

theorem truthy_some {text : Text} (h : text ≠ []) : truthy (some text) = some text := by
  simp [truthy, h]

theorem truthy_getD (text : Option Text) : (truthy text).getD [] = text.getD [] := by
  cases text with
  | none => rfl
  | some text =>
      cases text with
      | nil => rfl
      | cons c text => rfl

/-- `calls && calls.length > 0 ? calls : undefined` -/
def nonEmpty (calls : List LlmToolCall) : Option (List LlmToolCall) :=
  if calls.isEmpty then none else some calls

section Chunks

def textOf (chunks : List LlmStreamChunk) : Text :=
  chunks.flatMap fun | .textDelta text => text | _ => []

def thinkingOf (chunks : List LlmStreamChunk) : Text :=
  chunks.flatMap fun | .thinkingDelta text => text | _ => []

def callsOf (chunks : List LlmStreamChunk) : List LlmToolCall :=
  chunks.filterMap fun | .toolCall call => some call | _ => none

variable (chunks more : List LlmStreamChunk)

theorem textOf_append : textOf (chunks ++ more) = textOf chunks ++ textOf more := List.flatMap_append

theorem thinkingOf_append : thinkingOf (chunks ++ more) = thinkingOf chunks ++ thinkingOf more :=
  List.flatMap_append

theorem callsOf_append : callsOf (chunks ++ more) = callsOf chunks ++ callsOf more :=
  List.filterMap_append

end Chunks

namespace OpenAi

structure ToolCall where
  id : Option Text
  type : Option String
  name : Option Text
  arguments : Option Text

/-- `choices[0].message` -/
structure Message where
  content : Option Text
  reasoningContent : Option Text
  reasoning : Option Text
  toolCalls : Option (List ToolCall)

structure Fragment where
  index : Option Nat
  id : Option Text
  name : Option Text
  arguments : Option Text

/-- `choices[0].delta` -/
structure Delta where
  content : Option Text
  reasoningContent : Option Text
  reasoning : Option Text
  toolCalls : Option (List Fragment)

/-- What stands in an event of the stream. -/
inductive Event
  | done
  | data (delta : Option Delta)

structure StreamingToolCallAccumulator where
  id : Option Text := none
  name : Option Text := none
  argumentsText : Text := []

/-- What is no JSON is handed on as it is. -/
def parseToolArguments (value : Option Text) : Value :=
  match truthy value with
  | none => .obj .nil
  | some text => (Json.parse text).getD (.str (String.ofList text))

def extractThinking (reasoningContent reasoning : Option Text) : Text :=
  ((truthy reasoningContent).or (truthy reasoning)).getD []

def parseToolCall (call : ToolCall) : Option LlmToolCall :=
  match call.type, truthy call.id, truthy call.name with
  | some "function", some id, some name => some { id, name, input := parseToolArguments call.arguments }
  | _, _, _ => none

def parseToolCalls (message : Option Message) : Option (List LlmToolCall) :=
  (message.bind Message.toolCalls).bind fun calls => nonEmpty (calls.filterMap parseToolCall)

def complete (message : Option Message) : LlmResponse :=
  { text := (message.bind Message.content).getD []
    thinking := truthy (message.map fun m => extractThinking m.reasoningContent m.reasoning)
    toolCalls := parseToolCalls message }

def Fragment.key (fragment : Fragment) : Nat := fragment.index.getD 0

def StreamingToolCallAccumulator.add (accumulator : StreamingToolCallAccumulator) (fragment : Fragment) :
    StreamingToolCallAccumulator :=
  { id := (truthy fragment.id).or accumulator.id
    name := (truthy fragment.name).or accumulator.name
    argumentsText := accumulator.argumentsText ++ fragment.arguments.getD [] }

/-- The accumulators by the index of their call. -/
abbrev Pending := List (Nat × StreamingToolCallAccumulator)

def addFragment (pending : Pending) (fragment : Fragment) : Pending :=
  Grouping.put Fragment.key (fun _ => {}) StreamingToolCallAccumulator.add pending fragment

def flushToolCall (accumulator : StreamingToolCallAccumulator) : Option LlmStreamChunk :=
  match accumulator.id, accumulator.name with
  | some id, some name =>
      some (.toolCall { id, name, input := parseToolArguments (truthy (some accumulator.argumentsText)) })
  | _, _ => none

def flushToolCalls (pending : Pending) : List LlmStreamChunk :=
  ((pending.map Prod.fst).mergeSort (· ≤ ·)).filterMap fun index =>
    (Mutation.mapGet index pending).bind flushToolCall

def Delta.fragments (delta : Option Delta) : List Fragment := (delta.bind Delta.toolCalls).getD []

/-- What a delta gives at once: what it thinks before what it says. -/
def Delta.chunks (delta : Option Delta) : List LlmStreamChunk :=
  match delta with
  | none => []
  | some d =>
      let thinking := extractThinking d.reasoningContent d.reasoning
      (if thinking = [] then [] else [.thinkingDelta thinking]) ++
        ((truthy d.content).map LlmStreamChunk.textDelta).toList

/-- The stream from some accumulators on. The end of the events is handled as `[DONE]` is. -/
def streamFrom (pending : Pending) : List Event → List LlmStreamChunk
  | [] => flushToolCalls pending ++ [.done]
  | .done :: _ => flushToolCalls pending ++ [.done]
  | .data delta :: events =>
      Delta.chunks delta ++ streamFrom ((Delta.fragments delta).foldl addFragment pending) events

def stream (events : List Event) : List LlmStreamChunk := streamFrom [] events

end OpenAi

end Kross.Llm

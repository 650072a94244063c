import Kross.Llm.OpenAiProtocol
import Kross.Session.Title

namespace Kross.Llm.Anthropic

open Kross.Json (Value)
open Kross.Session (trim)
open Kross.Mutation (mapGet mapSet mapDelete)

/-- An element of `content` in a response. -/
structure ContentBlock where
  type : String
  text : Option Text := none
  thinking : Option Text := none
  id : Option Text := none
  name : Option Text := none
  input : Option Value := none

structure StreamBlock where
  type : Option String
  id : Option Text := none
  name : Option Text := none

structure StreamDelta where
  type : Option String
  text : Option Text := none
  thinking : Option Text := none
  partialJson : Option Text := none

/-- The data of an event; `error` says whether there is an error in it. -/
structure StreamResponse where
  type : Option String
  index : Option Nat := none
  contentBlock : Option StreamBlock := none
  delta : Option StreamDelta := none
  error : Bool := false

structure SseEvent where
  event : Option String
  data : StreamResponse

structure StreamingToolUseAccumulator where
  id : Text
  name : Text
  inputJson : Text

abbrev Pending := List (Nat × StreamingToolUseAccumulator)

/-- `item.input ?? {}` -/
def inputOf : Option Value → Value
  | none => .obj .nil
  | some .null => .obj .nil
  | some input => input

def parseToolUse (block : ContentBlock) : Option LlmToolCall :=
  match block.type, truthy block.id, truthy block.name with
  | "tool_use", some id, some name => some { id, name, input := inputOf block.input }
  | _, _, _ => none

def parseToolCalls (content : Option (List ContentBlock)) : Option (List LlmToolCall) :=
  content.bind fun blocks => nonEmpty (blocks.filterMap parseToolUse)

def complete (content : Option (List ContentBlock)) : LlmResponse :=
  { text := ((content.getD []).filter (·.type = "text")).flatMap (fun block => block.text.getD [])
    thinking := truthy (some
      (((content.getD []).filter (·.type = "thinking")).flatMap fun block => block.thinking.getD []))
    toolCalls := parseToolCalls content }

/-- What is no JSON is handed on as it is. -/
def parseToolUseInput (inputJson : Text) : Value :=
  if trim inputJson = [] then .obj .nil
  else (Json.parse inputJson).getD (.str (String.ofList inputJson))

def StreamResponse.key (parsed : StreamResponse) : Nat := parsed.index.getD 0

/-- A block that begins a tool call. -/
def StreamResponse.toolUse (parsed : StreamResponse) : Option (Text × Text) :=
  match parsed.type, parsed.contentBlock with
  | some "content_block_start", some block =>
      match block.type, truthy block.id, truthy block.name with
      | some "tool_use", some id, some name => some (id, name)
      | _, _, _ => none
  | _, _ => none

/-- The delta of one of the kinds. -/
def StreamResponse.deltaOf (kind : String) (parsed : StreamResponse) : Option StreamDelta :=
  if parsed.type = some "content_block_delta" then
    parsed.delta.filter (fun delta => delta.type = some kind)
  else none

def toolCallOf (accumulator : StreamingToolUseAccumulator) : LlmStreamChunk :=
  .toolCall
    { id := accumulator.id, name := accumulator.name, input := parseToolUseInput accumulator.inputJson }

def appendJson (pending : Pending) (index : Nat) (delta : StreamDelta) : Pending :=
  match mapGet index pending with
  | none => pending
  | some accumulator =>
      mapSet index { accumulator with inputJson := accumulator.inputJson ++ delta.partialJson.getD [] } pending

/-- The body of the loop, behind what it does with errors. -/
def handle (pending : Pending) (parsed : StreamResponse) : Pending × List LlmStreamChunk :=
  match parsed.toolUse with
  | some (id, name) => (mapSet parsed.key { id, name, inputJson := [] } pending, [])
  | none =>
      match parsed.deltaOf "input_json_delta" with
      | some delta => (appendJson pending parsed.key delta, [])
      | none =>
          if parsed.type = some "content_block_stop" then
            match mapGet parsed.key pending with
            | some accumulator => (mapDelete parsed.key pending, [toolCallOf accumulator])
            | none => (pending, [])
          else match (parsed.deltaOf "thinking_delta").bind (truthy ∘ StreamDelta.thinking) with
            | some thinking => (pending, [.thinkingDelta thinking])
            | none =>
                (pending, (((parsed.deltaOf "text_delta").bind (truthy ∘ StreamDelta.text)).map
                  LlmStreamChunk.textDelta).toList)

/-- The stream from some accumulators on. Behind an error event, which is thrown, nothing comes,
not even that it is done. -/
def streamFrom (pending : Pending) : List SseEvent → List LlmStreamChunk
  | [] => [.done]
  | e :: events =>
      if e.event = some "message_stop" then [.done]
      else if e.data.type = some "error" || e.data.error then []
      else
        let (pending, chunks) := handle pending e.data
        chunks ++ streamFrom pending events

def stream (events : List SseEvent) : List LlmStreamChunk := streamFrom [] events

end Kross.Llm.Anthropic

import Kross.EventStream
import Kross.Session.Title

namespace Kross.Llm.Sse

open EventStream Utf8

structure SseEvent where
  event : Option (List Char)
  data : List Char

def dropLabel (label line : List Char) : Option (List Char) :=
  if label <+: line then some (line.drop label.length) else none

/-- The `event:` line that counts is the last one. -/
def parseEvent (rawEvent : List Char) : Option SseEvent :=
  let ls := lines rawEvent
  let event := (ls.filterMap (dropLabel "event:".toList)).getLast?.map Session.trim
  let data := (ls.filterMap (dropLabel "data:".toList)).map (List.dropWhile Session.isWhitespace)
  if data = [] then none else some ⟨event, ['\n'].intercalate data⟩

def drainEvents (buffer : List Char) : List SseEvent × List Char :=
  ((blocks.drain buffer).1.filterMap parseEvent, (blocks.drain buffer).2)

/-- The loop over the chunks; the stream's end flushes the decoder and adds a blank line. -/
def readSse (decoder : TextDecoder) (buffer : List Char) : List (List UInt8) → List SseEvent
  | [] => (drainEvents (buffer ++ decoder.flush ++ ['\n', '\n'])).1
  | chunk :: chunks =>
    let decoded := decoder.decode chunk
    let drained := drainEvents (buffer ++ decoded.2)
    drained.1 ++ readSse decoded.1 drained.2 chunks

/-- The events of a body, none for a response without one. -/
def parseSse (body : Option (List (List UInt8))) : List SseEvent :=
  match body with
  | none => []
  | some chunks => readSse .fresh [] chunks

theorem drainEvents_append (s t : List Char) :
    (drainEvents (s ++ t)).1 = (drainEvents s).1 ++ (drainEvents ((drainEvents s).2 ++ t)).1 := by
  simp only [drainEvents]
  rw [blocks.drain_append s t, List.filterMap_append]

/-- What is read of chunks is what the text of all of them holds. -/
theorem readSse_eq (decoder : TextDecoder) (buffer : List Char) (chunks : List (List UInt8)) :
    readSse decoder buffer chunks =
      (drainEvents (buffer ++ ((decoder.decode chunks.flatten).2 ++ (decoder.decode chunks.flatten).1.flush ++
        ['\n', '\n']))).1 := by
  induction chunks generalizing decoder buffer with
  | nil =>
      rw [readSse, List.flatten_nil, TextDecoder.decode_nil]
      simp
  | cons chunk chunks ih =>
      rw [readSse, ih, List.flatten_cons, TextDecoder.decode_append]
      simp only [List.append_assoc]
      rw [← List.append_assoc buffer, drainEvents_append (buffer ++ (decoder.decode chunk).2)]

theorem parseSse_uncut (chunks : List (List UInt8)) : parseSse (some chunks) = parseSse (some [chunks.flatten]) := by
  rw [parseSse, parseSse, readSse_eq, readSse_eq, List.flatten_cons, List.flatten_nil, List.append_nil]

end Kross.Llm.Sse

import Kross.Llm.Sse
import Kross.Mcp.JsonRpc

namespace Kross.Mcp.Rpc.Http

open EventStream Utf8

structure SseBlock where
  data : Option (List Char)
  id : Option (List Char)
  retryMs : Option Nat

/-- The field and the value of a line. -/
def fieldOf (line : List Char) : List Char × List Char :=
  let value := (line.dropWhile (· ≠ ':')).drop 1
  (line.takeWhile (· ≠ ':'), if value.head? = some ' ' then value.tail else value)

def digitsOnly (value : List Char) : Bool := value ≠ [] && value.all Char.isDigit

def parseSseBlock (block : List Char) : SseBlock :=
  let fields := ((lines block).filter (fun line => line ≠ [] && line.head? ≠ some ':')).map fieldOf
  let data := fields.filterMap (fun f => if f.1 = "data".toList then some f.2 else none)
  let ids := fields.filterMap (fun f => if f.1 = "id".toList && '\x00' ∉ f.2 then some f.2 else none)
  let retries := fields.filterMap (fun f =>
    if f.1 = "retry".toList && digitsOnly f.2 then some (min (Nat.ofDigitChars 10 f.2 0) 30000) else none)
  ⟨if data = [] then none else some (['\n'].intercalate data), ids.getLast?, retries.getLast?⟩

/-- `lastEventId` and `retryMs` -/
structure Seen where
  lastEventId : Option (List Char)
  retryMs : Option Nat

/-- What the reading has come to; a text that is no JSON, or null, throws. -/
inductive Consumed
  | more (seen : Seen)
  | found (response : Value) (seen : Seen)
  | threw

variable (parse : List Char → Option Value) (requestId : Nat)

/-- One block, its data read by what `JSON.parse` is given as. -/
def consumeBlock (seen : Seen) (block : List Char) : Consumed :=
  let event := parseSseBlock block
  let seen : Seen := ⟨event.id <|> seen.lastEventId, event.retryMs <|> seen.retryMs⟩
  match event.data with
  | none | some [] => .more seen
  | some data => match parse data with
    | none | some .null => .threw
    | some message => if message.hasId requestId then .found message seen else .more seen

def consumeBlocks : Seen → List (List Char) → Consumed
  | seen, [] => .more seen
  | seen, block :: blocks => match consumeBlock parse requestId seen block with
    | .more seen => consumeBlocks seen blocks
    | settled => settled

/-- The loop over the chunks; it returns when it has found the response. -/
def consumeChunks (decoder : TextDecoder) (buffer : List Char) (seen : Seen) : List (List UInt8) → Consumed
  | [] => .more seen
  | chunk :: chunks =>
    let decoded := decoder.decode chunk
    let drained := blocks.drain (buffer ++ decoded.2)
    match consumeBlocks parse requestId seen drained.1 with
    | .more seen => consumeChunks decoded.1 drained.2 seen chunks
    | settled => settled

def consumeSse (chunks : List (List UInt8)) : Consumed := consumeChunks parse requestId .fresh [] ⟨none, none⟩ chunks

variable {parse requestId}

theorem consumeBlocks_append (seen : Seen) (bs cs : List (List Char)) :
    consumeBlocks parse requestId seen (bs ++ cs) =
      match consumeBlocks parse requestId seen bs with
      | .more seen => consumeBlocks parse requestId seen cs
      | settled => settled := by
  induction bs generalizing seen with
  | nil => rfl
  | cons block bs ih =>
      rw [List.cons_append, consumeBlocks, consumeBlocks]
      cases consumeBlock parse requestId seen block with
      | more seen => exact ih seen
      | found response seen => rfl
      | threw => rfl

theorem consumeChunks_eq (decoder : TextDecoder) (buffer : List Char) (seen : Seen) (chunks : List (List UInt8))
    (h : splitBlock buffer = none) :
    consumeChunks parse requestId decoder buffer seen chunks =
      consumeBlocks parse requestId seen (blocks.drain (buffer ++ (decoder.decode chunks.flatten).2)).1 := by
  induction chunks generalizing decoder buffer seen with
  | nil =>
      rw [consumeChunks, List.flatten_nil, TextDecoder.decode_nil, List.append_nil, Framing.drain_none h]
      rfl
  | cons chunk chunks ih =>
      rw [consumeChunks, List.flatten_cons, TextDecoder.decode_append, ← List.append_assoc,
        blocks.drain_append (buffer ++ (decoder.decode chunk).2), consumeBlocks_append]
      cases consumeBlocks parse requestId seen (blocks.drain (buffer ++ (decoder.decode chunk).2)).1 with
      | more seen => exact ih _ _ seen (blocks.next_drain _)
      | found response seen => rfl
      | threw => rfl

theorem consumeSse_uncut (chunks : List (List UInt8)) :
    consumeSse parse requestId chunks = consumeSse parse requestId [chunks.flatten] := by
  rw [consumeSse, consumeSse, consumeChunks_eq _ _ _ _ rfl, consumeChunks_eq _ _ _ _ rfl, List.flatten_cons,
    List.flatten_nil, List.append_nil]

/-- Both readers of event streams are indifferent to how the bytes come in chunks. -/
theorem streams_uncut (parse : List Char → Option Value) (requestId : Nat) (chunks : List (List UInt8)) :
    Llm.Sse.parseSse (some chunks) = Llm.Sse.parseSse (some [chunks.flatten]) ∧
      consumeSse parse requestId chunks = consumeSse parse requestId [chunks.flatten] :=
  ⟨Llm.Sse.parseSse_uncut chunks, consumeSse_uncut chunks⟩

end Kross.Mcp.Rpc.Http

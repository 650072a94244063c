import Kross.Interleaving
import Kross.JsonPrefix
import Kross.Llm.AnthropicProtocol

namespace Kross.Llm.Anthropic

open Interleaving
open Kross.Json (Value Fields)
open Kross.Session (trim trimEnd isWhitespace)
open Kross.Mutation (mapGet mapSet mapDelete)

section Message

inductive Block
  | text (said : Text)
  | thinking (thought : Text)
  | toolUse (id name : Text) (input : Fields) (id_ne : id ≠ []) (name_ne : name ≠ [])

def Block.response : Block → ContentBlock
  | .text said => { type := "text", text := some said }
  | .thinking thought => { type := "thinking", thinking := some thought }
  | .toolUse id name input _ _ =>
      { type := "tool_use", id := some id, name := some name, input := some (.obj input) }

def Block.textPart : Block → Text
  | .text said => said
  | _ => []

def Block.thinkingPart : Block → Text
  | .thinking thought => thought
  | _ => []

def Block.call : Block → Option LlmToolCall
  | .toolUse id name input _ _ => some { id, name, input := .obj input }
  | _ => none

end Message

section Fragmentation

/-- The events of a message. Any others may come in between. -/
inductive Item
  | start (i : Nat)
  | delta (i : Nat) (piece : Text)
  | stop (i : Nat)
  | other (e : SseEvent)

def Item.index : Item → Option Nat
  | .start i | .delta i _ | .stop i => some i
  | .other _ => none

def startData (i : Nat) : Option Block → StreamResponse
  | some (.text _) =>
      { type := some "content_block_start", index := some i, contentBlock := some { type := some "text" } }
  | some (.thinking _) =>
      { type := some "content_block_start", index := some i
        contentBlock := some { type := some "thinking" } }
  | some (.toolUse id name _ _ _) =>
      { type := some "content_block_start", index := some i
        contentBlock := some { type := some "tool_use", id := some id, name := some name } }
  | none => { type := some "content_block_start", index := some i }

def deltaData (i : Nat) (piece : Text) : Option Block → StreamResponse
  | some (.text _) =>
      { type := some "content_block_delta", index := some i
        delta := some { type := some "text_delta", text := some piece } }
  | some (.thinking _) =>
      { type := some "content_block_delta", index := some i
        delta := some { type := some "thinking_delta", thinking := some piece } }
  | some (.toolUse _ _ _ _ _) =>
      { type := some "content_block_delta", index := some i
        delta := some { type := some "input_json_delta", partialJson := some piece } }
  | none => { type := some "content_block_delta", index := some i }

def Item.event (blocks : List Block) : Item → SseEvent
  | .start i => { event := some "content_block_start", data := startData i blocks[i]? }
  | .delta i piece => { event := some "content_block_delta", data := deltaData i piece blocks[i]? }
  | .stop i => { event := some "content_block_stop", data := { type := some "content_block_stop", index := some i } }
  | .other e => e

def stopEvent : SseEvent := { event := some "message_stop", data := { type := some "message_stop" } }

/-- Such as `ping`, the events about the message, and deltas of other kinds. -/
structure Ignored (e : SseEvent) : Prop where
  event : e.event ≠ some "message_stop"
  type : e.data.type ≠ some "error" ∧ e.data.type ≠ some "content_block_start" ∧
    e.data.type ≠ some "content_block_stop"
  delta : ∀ kind ∈ ["input_json_delta", "thinking_delta", "text_delta"], e.data.deltaOf kind = none
  error : e.data.error = false

/-- The input of a tool as JSON; the empty object may be left out. -/
def Writes (json : Text) (input : Fields) : Prop :=
  Json.parse json = some (.obj input) ∨ trim json = [] ∧ input = .nil

def Block.Pieces : Block → List Text → Prop
  | .text said, pieces => pieces.flatten = said
  | .thinking thought, pieces => pieces.flatten = thought
  | .toolUse _ _ input _ _, pieces => Writes pieces.flatten input

def Block.isText : Block → Bool
  | .text _ => true
  | _ => false

def Block.isThinking : Block → Bool
  | .thinking _ => true
  | _ => false

/-- The pieces of the blocks of one kind, with the places of the blocks. -/
def pieces (blocks : List Block) (kind : Block → Bool) (items : List Item) : List (Nat × Text) :=
  items.filterMap fun
    | .delta i piece => if (blocks[i]?).any kind then some (i, piece) else none
    | _ => none

def stopped (items : List Item) : List Nat :=
  items.filterMap fun
    | .stop i => some i
    | _ => none

def ofBlock (items : List Item) (i : Nat) : List Item := items.filter (·.index = some i)

/-- A message in pieces: every block begins, gives its pieces and ends. The ends of the blocks,
the texts and the thinking come in the order of the blocks; the pieces of tool calls may be
among each other in any order. -/
structure Fragmented (blocks : List Block) (items : List Item) : Prop where
  indexed : ∀ item ∈ items, ∀ i, item.index = some i → i < blocks.length
  each : ∀ i b, blocks[i]? = some b → ∃ pieces,
    ofBlock items i = .start i :: pieces.map (.delta i) ++ [.stop i] ∧ b.Pieces pieces
  stops : (stopped items).Pairwise (· < ·)
  texts : ((pieces blocks Block.isText items).map Prod.fst).Pairwise (· ≤ ·)
  thinking : ((pieces blocks Block.isThinking items).map Prod.fst).Pairwise (· ≤ ·)
  others : ∀ e, .other e ∈ items → Ignored e

/-- A message, and the way it is streamed. -/
structure Streamed where
  blocks : List Block
  items : List Item
  fragmented : Fragmented blocks items

namespace Streamed

def completed (s : Streamed) : LlmResponse := complete (some (s.blocks.map Block.response))

def events (s : Streamed) : List SseEvent := s.items.map (Item.event s.blocks)

def whole (s : Streamed) : List LlmStreamChunk := stream (s.events ++ [stopEvent])

/-- What is streamed when the connection ends behind the first events. -/
def cutOff (s : Streamed) (n : Nat) : List LlmStreamChunk := stream (s.events.take n)

/-- Stream and complete give the same, and a stream that is cut off gives nothing else. -/
structure Agrees (s : Streamed) (n : Nat) : Prop where
  text : textOf s.whole = s.completed.text
  thinking : thinkingOf s.whole = s.completed.thinking.getD []
  calls : callsOf s.whole = s.completed.toolCalls.getD []
  cut : ∀ call ∈ callsOf (s.cutOff n), call ∈ s.completed.toolCalls.getD []

end Streamed

end Fragmentation

section Inputs

theorem isWhitespace_of_trim {s : Text} (h : trim s = []) : ∀ c ∈ s, isWhitespace c = true := by
  rw [trim, trimEnd, List.reverse_eq_nil_iff, List.dropWhile_eq_nil_iff] at h
  have hdrop : s.dropWhile isWhitespace = [] := by
    cases hd : s.dropWhile isWhitespace with
    | nil => rfl
    | cons c t =>
        have hc := List.head?_dropWhile_not isWhitespace s
        rw [hd] at hc
        have hw := h c (List.mem_reverse.mpr (hd ▸ List.mem_cons_self))
        simp [hw] at hc
  exact List.dropWhile_eq_nil_iff.mp hdrop

theorem parseToolUseInput_written {json : Text} {input : Fields} (h : Writes json input) :
    parseToolUseInput json = .obj input := by
  rw [parseToolUseInput]
  rcases h with h | ⟨h, rfl⟩
  · have hne : trim json ≠ [] := by
      intro ht
      obtain ⟨r, hr, -⟩ := Json.parse_some h
      obtain ⟨t, hs⟩ := Json.readValue_head hr
      have hm : '{' ∈ json := (Json.skip_suffix json).subset (hs ▸ List.mem_cons_self)
      exact absurd (isWhitespace_of_trim ht '{' hm) (by decide)
    rw [if_neg hne, h]
    rfl
  · exact if_pos h

end Inputs

section Handle

variable {blocks : List Block} {pending : Pending} {i : Nat} {b : Block} {item : Item}

def toolUseOf : Block → Option StreamingToolUseAccumulator
  | .toolUse id name _ _ _ => some { id, name, inputJson := [] }
  | _ => none

/-- What an event makes of the accumulator of its block. -/
def Item.accumulate (b : Block) (accumulator : Option StreamingToolUseAccumulator) :
    Item → Option StreamingToolUseAccumulator
  | .start _ => (toolUseOf b).or accumulator
  | .delta _ piece =>
      if (toolUseOf b).isSome then
        accumulator.map fun a => { a with inputJson := a.inputJson ++ piece }
      else accumulator
  | .stop _ => none
  | .other _ => accumulator

/-- What an event gives, from the accumulator of its block. -/
def Item.chunks (b : Block) (accumulator : Option StreamingToolUseAccumulator) :
    Item → List LlmStreamChunk
  | .delta _ piece => match b with
      | .text _ => ((truthy (some piece)).map LlmStreamChunk.textDelta).toList
      | .thinking _ => ((truthy (some piece)).map LlmStreamChunk.thinkingDelta).toList
      | .toolUse _ _ _ _ _ => []
  | .stop _ => (accumulator.map toolCallOf).toList
  | _ => []

theorem deltaOf_of_type {parsed : StreamResponse} {kind : String}
    (h : parsed.type ≠ some "content_block_delta") : parsed.deltaOf kind = none := if_neg h

theorem toolUse_of_type {parsed : StreamResponse} (h : parsed.type ≠ some "content_block_start") :
    parsed.toolUse = none := by
  rw [StreamResponse.toolUse]
  split
  · next heq _ => exact absurd heq h
  · rfl

/-- An event of a kind that the loop does nothing with. -/
theorem handle_nothing {parsed : StreamResponse} (hu : parsed.toolUse = none)
    (hd : ∀ kind ∈ ["input_json_delta", "thinking_delta", "text_delta"], parsed.deltaOf kind = none)
    (hs : parsed.type ≠ some "content_block_stop") : handle pending parsed = (pending, []) := by
  rw [handle, hu, hd _ (by simp)]
  dsimp only
  rw [if_neg hs, hd _ (by simp), hd _ (by simp)]
  rfl

theorem handle_start (hb : blocks[i]? = some b) :
    handle pending ((Item.start i).event blocks).data =
      ((toolUseOf b).elim pending (fun a => mapSet i a pending), []) := by
  rw [Item.event, hb]
  cases b with
  | text said =>
      exact handle_nothing rfl (fun _ _ => deltaOf_of_type (by simp [startData])) (by simp [startData])
  | thinking thought =>
      exact handle_nothing rfl (fun _ _ => deltaOf_of_type (by simp [startData])) (by simp [startData])
  | toolUse id name input hid hname =>
      have hu : (startData i (some (.toolUse id name input hid hname))).toolUse = some (id, name) := by
        have h1 : truthy (some id) = some id := truthy_some hid
        have h2 : truthy (some name) = some name := truthy_some hname
        simp [startData, StreamResponse.toolUse, h1, h2]
      rw [handle, hu]
      rfl

theorem handle_delta (hb : blocks[i]? = some b) (piece : Text) :
    handle pending ((Item.delta i piece).event blocks).data =
      (if (toolUseOf b).isSome then appendJson pending i { type := some "input_json_delta", partialJson := some piece }
        else pending, (Item.delta i piece).chunks b (mapGet i pending)) := by
  rw [Item.event, hb]
  cases b with
  | text said =>
      cases piece <;> simp [handle, deltaData, StreamResponse.toolUse, StreamResponse.deltaOf, toolUseOf,
        Item.chunks, truthy, Option.filter]
  | thinking thought =>
      cases piece <;> simp [handle, deltaData, StreamResponse.toolUse, StreamResponse.deltaOf, toolUseOf,
        Item.chunks, truthy, Option.filter]
  | toolUse id name input hid hname =>
      simp [handle, deltaData, StreamResponse.toolUse, StreamResponse.deltaOf, StreamResponse.key,
        toolUseOf, Item.chunks, Option.filter]

theorem handle_stop :
    handle pending ((Item.stop i).event blocks).data =
      (if (mapGet i pending).isSome then mapDelete i pending else pending,
        ((mapGet i pending).map toolCallOf).toList) := by
  have hu : ((Item.stop i).event blocks).data.toolUse = none := rfl
  have hd : ((Item.stop i).event blocks).data.deltaOf "input_json_delta" = none :=
    deltaOf_of_type (by simp [Item.event])
  have ht : ((Item.stop i).event blocks).data.type = some "content_block_stop" := rfl
  rw [handle, hu, hd]
  dsimp only
  rw [if_pos ht]
  rw [show ((Item.stop i).event blocks).data.key = i from rfl]
  cases h : mapGet i pending <;> simp [h]

theorem handle_other {e : SseEvent} (h : Ignored e) :
    handle pending ((Item.other e).event blocks).data = (pending, []) :=
  handle_nothing (toolUse_of_type h.type.2.1) h.delta h.type.2.2

theorem mapGet_mapDelete (j : Nat) :
    mapGet j (mapDelete i pending) = if i = j then none else mapGet j pending := by
  have h := Mutation.mapGet_filter j (fun k => decide (k ≠ i)) pending
  rw [mapDelete, h]
  by_cases hij : i = j <;> simp [hij, eq_comm]

theorem mapGet_appendJson (piece : Text) (j : Nat) :
    mapGet j (appendJson pending i { type := some "input_json_delta", partialJson := some piece }) =
      if i = j then (mapGet i pending).map fun a => { a with inputJson := a.inputJson ++ piece }
      else mapGet j pending := by
  rw [appendJson]
  cases h : mapGet i pending with
  | none =>
      by_cases hij : i = j
      · rw [if_pos hij, ← hij, h]
        rfl
      · rw [if_neg hij]
  | some a => exact Mutation.mapGet_mapSet i j _ pending

theorem handle_own (hb : blocks[i]? = some b) (hi : item.index = some i) :
    mapGet i (handle pending (item.event blocks).data).1 = item.accumulate b (mapGet i pending) ∧
      (handle pending (item.event blocks).data).2 = item.chunks b (mapGet i pending) := by
  cases item with
  | start j =>
      cases hi
      rw [handle_start hb]
      refine ⟨?_, rfl⟩
      change mapGet i ((toolUseOf b).elim pending fun a => mapSet i a pending) =
        (toolUseOf b).or (mapGet i pending)
      cases toolUseOf b with
      | none => rfl
      | some a => exact Mutation.mapGet_mapSet_self i a pending
  | delta j piece =>
      cases hi
      rw [handle_delta hb]
      refine ⟨?_, rfl⟩
      dsimp only [Item.accumulate]
      split
      · rw [mapGet_appendJson, if_pos rfl]
      · rfl
  | stop j =>
      cases hi
      rw [handle_stop]
      refine ⟨?_, rfl⟩
      cases h : mapGet i pending with
      | none => exact h
      | some a => exact (mapGet_mapDelete i).trans (if_pos rfl)
  | other e => cases hi

theorem handle_foreign {j : Nat} (hb : blocks[i]? = some b) (hi : item.index = some i) (hij : i ≠ j) :
    mapGet j (handle pending (item.event blocks).data).1 = mapGet j pending := by
  cases item with
  | start k =>
      cases hi
      rw [handle_start hb]
      change mapGet j ((toolUseOf b).elim pending fun a => mapSet i a pending) = _
      cases toolUseOf b with
      | none => rfl
      | some a => exact Mutation.mapGet_mapSet_ne hij a pending
  | delta k piece =>
      cases hi
      rw [handle_delta hb]
      dsimp only
      split
      · rw [mapGet_appendJson, if_neg hij]
      · rfl
  | stop k =>
      cases hi
      rw [handle_stop]
      dsimp only
      split
      · rw [mapGet_mapDelete, if_neg hij]
      · rfl
  | other e => cases hi

end Handle

section Run

variable {blocks : List Block} {pending : Pending} {i : Nat} {b : Block} {item : Item}
  {before rest after : List Item} {tail : List SseEvent}

/-- The accumulator of a block behind its events. -/
def accumulated (b : Block) (own : List Item) : Option StreamingToolUseAccumulator :=
  own.foldl (fun accumulator item => item.accumulate b accumulator) none

def Tracks (blocks : List Block) (pending : Pending) (before : List Item) : Prop :=
  ∀ i b, blocks[i]? = some b → mapGet i pending = accumulated b (ofBlock before i)

theorem ofBlock_append (i : Nat) : ofBlock (before ++ rest) i = ofBlock before i ++ ofBlock rest i := by
  rw [ofBlock, List.filter_append]
  rfl

theorem Tracks.next (ht : Tracks blocks pending before)
    (hi : ∀ i, item.index = some i → ∃ b, blocks[i]? = some b) (ho : ∀ e, item = .other e → Ignored e) :
    Tracks blocks (handle pending (item.event blocks).data).1 (before ++ [item]) := by
  intro j b hb
  rw [ofBlock_append, accumulated, List.foldl_append, ← accumulated, ← ht j b hb, ofBlock,
    List.filter_singleton]
  cases hk : item.index with
  | none =>
      cases item with
      | other e =>
          rw [handle_other (ho e rfl)]
          rfl
      | _ => cases hk
  | some k =>
      obtain ⟨b', hb'⟩ := hi k hk
      by_cases hkj : k = j
      · subst hkj
        rw [hb] at hb'
        cases hb'
        rw [(handle_own hb hk).1]
        simp
      · rw [handle_foreign hb' hk hkj]
        simp [hkj]

theorem streamFrom_item (hi : ∀ i, item.index = some i → ∃ b, blocks[i]? = some b)
    (ho : ∀ e, item = .other e → Ignored e) (events : List SseEvent) :
    streamFrom pending (item.event blocks :: events) =
      (handle pending (item.event blocks).data).2 ++
        streamFrom (handle pending (item.event blocks).data).1 events := by
  have hpass : (item.event blocks).event ≠ some "message_stop" ∧
      (item.event blocks).data.type ≠ some "error" ∧ (item.event blocks).data.error = false := by
    cases item with
    | start j =>
        obtain ⟨b, hb⟩ := hi j rfl
        rw [Item.event, hb]
        cases b <;> simp [startData]
    | delta j piece =>
        obtain ⟨b, hb⟩ := hi j rfl
        rw [Item.event, hb]
        cases b <;> simp [deltaData]
    | stop j => simp [Item.event]
    | other e => exact ⟨(ho e rfl).event, (ho e rfl).type.1, (ho e rfl).error⟩
  rw [streamFrom, if_neg hpass.1, if_neg (by simp [hpass.2.1, hpass.2.2])]

theorem accumulated_pieces (b : Block) (i : Nat) (pieces : List Text) :
    accumulated b (.start i :: pieces.map (.delta i)) =
      (toolUseOf b).map fun a => { a with inputJson := pieces.flatten } := by
  have hdeltas (a : StreamingToolUseAccumulator) (hb : (toolUseOf b).isSome = true) :
      (pieces.map (Item.delta i)).foldl (fun accumulator item => item.accumulate b accumulator) (some a) =
        some { a with inputJson := a.inputJson ++ pieces.flatten } := by
    induction pieces generalizing a with
    | nil => simp
    | cons piece pieces ih =>
        rw [List.map_cons, List.foldl_cons, Item.accumulate, if_pos hb, Option.map_some, ih,
          List.flatten_cons, List.append_assoc]
  have hnone (hb : toolUseOf b = none) :
      (pieces.map (Item.delta i)).foldl (fun accumulator item => item.accumulate b accumulator) none =
        none := by
    induction pieces with
    | nil => rfl
    | cons piece pieces ih =>
        rw [List.map_cons, List.foldl_cons, Item.accumulate, hb]
        exact ih fun a ha => absurd ha (by rw [hb]; exact Bool.false_ne_true)
  rw [accumulated, List.foldl_cons, Item.accumulate, Option.or_none]
  cases hb : toolUseOf b with
  | none => exact hnone hb
  | some a =>
      have ha : a.inputJson = [] := by
        cases b with
        | toolUse id name input hid hname =>
            cases hb
            rfl
        | _ => cases hb
      rw [hdeltas a (by rw [hb]; rfl), ha]
      rfl

/-- When a block ends, all of its input has come. -/
theorem chunks_of_stop (h : Fragmented blocks (before ++ .stop i :: rest)) (ht : Tracks blocks pending before)
    (hb : blocks[i]? = some b) :
    (mapGet i pending).map toolCallOf = b.call.map LlmStreamChunk.toolCall := by
  obtain ⟨pieces, hown, hpieces⟩ := h.each i b hb
  have hsplit : ofBlock before i ++ .stop i :: ofBlock rest i =
      .start i :: pieces.map (.delta i) ++ .stop i :: [] := by
    rw [← hown, ofBlock_append]
    simp [ofBlock, Item.index]
  have hbefore : ofBlock before i = .start i :: pieces.map (.delta i) := by
    rcases List.eq_nil_or_concat (ofBlock rest i) with hrest | ⟨more, last, hrest⟩
    · rw [hrest] at hsplit
      exact (List.append_singleton_inj.mp hsplit).1
    · -- a second end of the block would be among its pieces
      rw [hrest, List.concat_eq_append, ← List.cons_append, ← List.append_assoc] at hsplit
      have hm : Item.stop i ∈ Item.start i :: pieces.map (.delta i) := by
        rw [← (List.append_singleton_inj.mp hsplit).1]
        exact List.mem_append_right _ List.mem_cons_self
      simp at hm
  rw [ht i b hb, hbefore, accumulated_pieces]
  cases b with
  | toolUse id name input hid hname =>
      change some (toolCallOf { id, name, inputJson := pieces.flatten }) = some _
      rw [toolCallOf, parseToolUseInput_written hpieces]
  | _ => rfl

theorem pieces_cons (kind : Block → Bool) (item : Item) (rest : List Item) : pieces blocks kind (item :: rest) =
    pieces blocks kind [item] ++ pieces blocks kind rest := by
  rw [← List.singleton_append, pieces, List.filterMap_append]
  rfl

theorem stopped_cons (item : Item) (rest : List Item) : stopped (item :: rest) = stopped [item] ++ stopped rest := by
  rw [← List.singleton_append, stopped, List.filterMap_append]
  rfl

theorem textOf_chunks (hb : blocks[i]? = some b) (hi : item.index = some i)
    (accumulator : Option StreamingToolUseAccumulator) :
    textOf (item.chunks b accumulator) = (pieces blocks Block.isText [item]).flatMap Prod.snd := by
  cases item with
  | delta j piece =>
      cases hi
      cases b <;> cases piece <;>
        simp [Item.chunks, pieces, hb, Block.isText, truthy, Option.filter, textOf]
  | stop j => cases accumulator <;> rfl
  | _ => rfl

theorem thinkingOf_chunks (hb : blocks[i]? = some b) (hi : item.index = some i)
    (accumulator : Option StreamingToolUseAccumulator) :
    thinkingOf (item.chunks b accumulator) =
      (pieces blocks Block.isThinking [item]).flatMap Prod.snd := by
  cases item with
  | delta j piece =>
      cases hi
      cases b <;> cases piece <;>
        simp [Item.chunks, pieces, hb, Block.isThinking, truthy, Option.filter, thinkingOf]
  | stop j => cases accumulator <;> rfl
  | _ => rfl

/-- What the events of a message give, wherever the stream ends behind them. -/
structure Gives (blocks : List Block) (items : List Item) (chunks : List LlmStreamChunk) : Prop where
  text : textOf chunks = (pieces blocks Block.isText items).flatMap Prod.snd
  thinking : thinkingOf chunks = (pieces blocks Block.isThinking items).flatMap Prod.snd
  calls : callsOf chunks = (stopped items).filterMap fun i => blocks[i]?.bind Block.call

theorem Gives.append {chunks more : List LlmStreamChunk} (h : Gives blocks [item] chunks)
    (hm : Gives blocks rest more) : Gives blocks (item :: rest) (chunks ++ more) :=
  { text := by rw [textOf_append, h.text, hm.text, pieces_cons _ item rest, List.flatMap_append]
    thinking := by rw [thinkingOf_append, h.thinking, hm.thinking, pieces_cons _ item rest, List.flatMap_append]
    calls := by rw [callsOf_append, h.calls, hm.calls, stopped_cons item rest, List.filterMap_append] }

theorem gives_item (h : Fragmented blocks (before ++ item :: rest)) (ht : Tracks blocks pending before)
    (hi : ∀ i, item.index = some i → ∃ b, blocks[i]? = some b) (ho : ∀ e, item = .other e → Ignored e) :
    Gives blocks [item] (handle pending (item.event blocks).data).2 := by
  cases hk : item.index with
  | none =>
      cases item with
      | other e =>
          rw [handle_other (ho e rfl)]
          exact { text := rfl, thinking := rfl, calls := rfl }
      | _ => cases hk
  | some k =>
      obtain ⟨b, hb⟩ := hi k hk
      rw [(handle_own hb hk).2]
      refine { text := textOf_chunks hb hk _, thinking := thinkingOf_chunks hb hk _, calls := ?_ }
      cases item with
      | start j => rfl
      | delta j piece =>
          cases b with
          | toolUse id name input hid hname => rfl
          | _ => cases piece <;> rfl
      | stop j =>
          cases hk
          rw [Item.chunks, chunks_of_stop h ht hb]
          simp only [stopped, List.filterMap_cons, List.filterMap_nil, hb, Option.bind_some]
          cases b.call <;> rfl
      | other e => rfl

theorem gives_run (before rest after : List Item) (pending : Pending) (tail : List SseEvent) (htail : ∀ pending, streamFrom pending tail = [.done])
    (h : Fragmented blocks (before ++ (rest ++ after))) (ht : Tracks blocks pending before) :
    Gives blocks rest (streamFrom pending (rest.map (Item.event blocks) ++ tail)) := by
  induction rest generalizing before pending with
  | nil =>
      rw [List.map_nil, List.nil_append, htail]
      exact { text := rfl, thinking := rfl, calls := rfl }
  | cons item rest ih =>
      have hm : item ∈ before ++ (item :: rest ++ after) := List.mem_append_right _ List.mem_cons_self
      have hi (i : Nat) (hindex : item.index = some i) : ∃ b, blocks[i]? = some b :=
        ⟨_, List.getElem?_eq_getElem (h.indexed item hm i hindex)⟩
      have ho (e : SseEvent) (he : item = .other e) : Ignored e := h.others e (he ▸ hm)
      rw [List.map_cons, List.cons_append, streamFrom_item hi ho]
      refine (gives_item h ht hi ho).append (ih _ _ ?_ (ht.next hi ho))
      rw [List.append_assoc]
      exact h

end Run

section Agreement

variable (s : Streamed)

theorem gives_whole : Gives s.blocks s.items s.whole := by
  refine gives_run [] s.items [] [] [stopEvent] (fun _ => rfl) ?_ fun _ _ _ => rfl
  rw [List.append_nil]
  exact s.fragmented

theorem gives_cutOff (n : Nat) : Gives s.blocks (s.items.take n) (s.cutOff n) := by
  have hf : Fragmented s.blocks ([] ++ (s.items.take n ++ s.items.drop n)) := by
    rw [List.nil_append, List.take_append_drop]
    exact s.fragmented
  have h := gives_run [] (s.items.take n) (s.items.drop n) [] [] (fun _ => rfl) hf fun _ _ _ => rfl
  rw [List.append_nil, List.map_take] at h
  exact h

/-- The pieces of one block. -/
theorem pieces_filter (blocks : List Block) (kind : Block → Bool) (items : List Item) (i : Nat) :
    (pieces blocks kind items).filter (·.1 = i) = pieces blocks kind (ofBlock items i) := by
  induction items with
  | nil => rfl
  | cons item items ih =>
      rw [pieces_cons, List.filter_append, ih, ofBlock, ofBlock, List.filter_cons]
      by_cases hi : item.index = some i
      · rw [if_pos (decide_eq_true hi), pieces_cons kind item (items.filter _)]
        congr 1
        refine List.filter_eq_self.mpr fun p hp => ?_
        cases item with
        | delta j piece =>
            cases hi
            simp only [pieces, List.filterMap_cons, List.filterMap_nil] at hp
            split at hp
            · cases hp
            · next heq =>
              split at heq
              · cases heq
                simpa using congrArg Prod.fst (List.mem_singleton.mp hp)
              · cases heq
        | _ => cases hp
      · rw [if_neg (by simpa using hi)]
        have hnone : (pieces blocks kind [item]).filter (·.1 = i) = [] := by
          refine List.filter_eq_nil_iff.mpr fun p hp hpi => hi ?_
          cases item with
          | delta j piece =>
              simp only [pieces, List.filterMap_cons, List.filterMap_nil] at hp
              split at hp
              · cases hp
              · next heq =>
                split at heq
                · cases heq
                  rw [List.mem_singleton.mp hp] at hpi
                  exact congrArg some (of_decide_eq_true hpi)
                · cases heq
          | _ => cases hp
        rw [hnone]
        rfl

theorem pieces_ofBlock {i : Nat} {b : Block} (hb : s.blocks[i]? = some b) (kind : Block → Bool) :
    ∃ own, b.Pieces own ∧ ((pieces s.blocks kind s.items).filter (·.1 = i)).flatMap Prod.snd =
      if kind b then own.flatten else [] := by
  obtain ⟨own, hown, hpieces⟩ := s.fragmented.each i b hb
  refine ⟨own, hpieces, ?_⟩
  have hdeltas : pieces s.blocks kind (own.map (.delta i)) =
      if kind b then own.map (fun piece => (i, piece)) else [] := by
    rw [pieces, List.filterMap_map]
    split
    · next hk =>
      rw [← List.filterMap_eq_map]
      exact List.filterMap_congr fun piece _ => by simp [hb, hk]
    · next hk => exact List.filterMap_eq_nil_iff.mpr fun piece _ => by simp [hb, hk]
  have hsplit : pieces s.blocks kind (.start i :: own.map (.delta i) ++ [.stop i]) =
      pieces s.blocks kind (own.map (.delta i)) := by
    rw [pieces, List.filterMap_append, List.filterMap_cons]
    exact List.append_nil _
  rw [pieces_filter, hown, hsplit, hdeltas]
  split
  · rw [List.flatMap_map]
    exact List.flatMap_id
  · rfl

theorem label_lt {kind : Block → Bool} (p : Nat × Text) (hp : p ∈ pieces s.blocks kind s.items) :
    p.1 < s.blocks.length := by
  obtain ⟨item, hm, he⟩ := List.mem_filterMap.mp hp
  cases item with
  | delta i piece =>
      dsimp only at he
      split at he
      · cases he
        exact s.fragmented.indexed _ hm i rfl
      · cases he
  | _ => cases he

theorem textOf_whole : textOf s.whole = s.completed.text := by
  have hpart (i : Nat) (hi : i ∈ List.range s.blocks.length) :
      ((pieces s.blocks Block.isText s.items).filter (·.1 = i)).flatMap Prod.snd =
        (s.blocks[i]?.map Block.textPart).getD [] := by
    obtain ⟨b, hb⟩ : ∃ b, s.blocks[i]? = some b := ⟨_, List.getElem?_eq_getElem (List.mem_range.mp hi)⟩
    obtain ⟨own, hpieces, he⟩ := pieces_ofBlock s hb Block.isText
    rw [he, hb]
    cases b with
    | text said => exact hpieces
    | _ => rfl
  have hcomplete : s.completed.text = s.blocks.flatMap Block.textPart := by
    change ((s.blocks.map Block.response).filter (·.type = "text")).flatMap _ = _
    induction s.blocks with
    | nil => rfl
    | cons b blocks ih =>
        rw [List.map_cons, List.flatMap_cons, ← ih]
        cases b <;> simp [Block.response, Block.textPart]
  rw [(gives_whole s).text, flatMap_by_label s.fragmented.texts (label_lt s), List.flatMap_congr hpart,
    flatMap_range, hcomplete]

theorem thinkingOf_whole : thinkingOf s.whole = s.completed.thinking.getD [] := by
  have hpart (i : Nat) (hi : i ∈ List.range s.blocks.length) :
      ((pieces s.blocks Block.isThinking s.items).filter (·.1 = i)).flatMap Prod.snd =
        (s.blocks[i]?.map Block.thinkingPart).getD [] := by
    obtain ⟨b, hb⟩ : ∃ b, s.blocks[i]? = some b := ⟨_, List.getElem?_eq_getElem (List.mem_range.mp hi)⟩
    obtain ⟨own, hpieces, he⟩ := pieces_ofBlock s hb Block.isThinking
    rw [he, hb]
    cases b with
    | thinking thought => exact hpieces
    | _ => rfl
  have hcomplete : s.completed.thinking.getD [] = s.blocks.flatMap Block.thinkingPart := by
    change (truthy (some (((s.blocks.map Block.response).filter (·.type = "thinking")).flatMap _))).getD [] = _
    rw [truthy_getD, Option.getD_some]
    induction s.blocks with
    | nil => rfl
    | cons b blocks ih =>
        rw [List.map_cons, List.flatMap_cons, ← ih]
        cases b <;> simp [Block.response, Block.thinkingPart]
  rw [(gives_whole s).thinking, flatMap_by_label s.fragmented.thinking (label_lt s),
    List.flatMap_congr hpart, flatMap_range, hcomplete]

theorem completed_calls : s.completed.toolCalls.getD [] = s.blocks.filterMap Block.call := by
  have hparse (b : Block) : parseToolUse b.response = b.call := by
    cases b with
    | toolUse id name input hid hname =>
        have h1 : truthy (some id) = some id := truthy_some hid
        have h2 : truthy (some name) = some name := truthy_some hname
        simp [Block.response, parseToolUse, h1, h2, inputOf, Block.call]
    | _ => rfl
  change (nonEmpty ((s.blocks.map Block.response).filterMap parseToolUse)).getD [] = _
  have hcalls : s.blocks.filterMap (parseToolUse ∘ Block.response) = s.blocks.filterMap Block.call :=
    List.filterMap_congr fun b _ => hparse b
  rw [List.filterMap_map, hcalls, nonEmpty]
  cases s.blocks.filterMap Block.call <;> rfl

theorem stopped_eq_range : stopped s.items = List.range s.blocks.length := by
  refine eq_range (s.fragmented.stops.imp Nat.le_of_lt) (s.fragmented.stops.imp Nat.ne_of_lt) fun i => ?_
  constructor
  · intro hi
    obtain ⟨item, hm, he⟩ := List.mem_filterMap.mp hi
    cases item with
    | stop j =>
        cases he
        exact s.fragmented.indexed _ hm i rfl
    | _ => cases he
  · intro hi
    obtain ⟨own, hown, -⟩ := s.fragmented.each i _ (List.getElem?_eq_getElem hi)
    have hm : Item.stop i ∈ ofBlock s.items i := by
      rw [hown]
      exact List.mem_append_right _ List.mem_cons_self
    exact List.mem_filterMap.mpr ⟨.stop i, List.mem_of_mem_filter hm, rfl⟩

theorem agrees (n : Nat) : s.Agrees n :=
  { text := textOf_whole s
    thinking := thinkingOf_whole s
    calls := by
      rw [(gives_whole s).calls, stopped_eq_range, filterMap_range, completed_calls]
    cut := by
      intro call hcall
      rw [(gives_cutOff s n).calls] at hcall
      obtain ⟨i, -, hi⟩ := List.mem_filterMap.mp hcall
      obtain ⟨b, hb, hcall⟩ := Option.bind_eq_some_iff.mp hi
      rw [completed_calls]
      exact List.mem_filterMap.mpr ⟨b, List.mem_of_getElem? hb, hcall⟩ }

end Agreement

end Kross.Llm.Anthropic

import Kross.Interleaving
import Kross.JsonPrefix
import Kross.Llm.OpenAiProtocol

namespace Kross.Llm.OpenAi

open Interleaving
open Kross.Json (Value Fields)

section Message

/-- A tool call of a response. Its arguments are a text of an object, with white space wherever
JSON has it. -/
structure WrittenCall where
  id : Text
  name : Text
  arguments : Text
  input : Fields
  id_ne : id ≠ []
  name_ne : name ≠ []
  parses : Json.parse arguments = some (.obj input)

/-- The member that a provider puts the thinking in. -/
inductive ThinkingMember
  | reasoningContent
  | reasoning

structure WrittenMessage where
  content : Option Text
  thinkingMember : ThinkingMember
  thinking : Text
  calls : List WrittenCall
  distinct : (calls.map WrittenCall.id).Nodup

def WrittenCall.call (c : WrittenCall) : LlmToolCall := { id := c.id, name := c.name, input := .obj c.input }

def WrittenCall.response (c : WrittenCall) : ToolCall :=
  { id := some c.id, type := some "function", name := some c.name, arguments := some c.arguments }

def WrittenMessage.response (m : WrittenMessage) : Message :=
  { content := m.content
    reasoningContent := match m.thinkingMember with
      | .reasoningContent => some m.thinking
      | .reasoning => none
    reasoning := match m.thinkingMember with
      | .reasoningContent => none
      | .reasoning => some m.thinking
    toolCalls := if m.calls.isEmpty then none else some (m.calls.map WrittenCall.response) }

end Message

section Fragmentation

def ThinkingMember.used (member : ThinkingMember) (delta : Delta) : Option Text :=
  match member with
  | .reasoningContent => delta.reasoningContent
  | .reasoning => delta.reasoning

def ThinkingMember.unused (member : ThinkingMember) (delta : Delta) : Option Text :=
  match member with
  | .reasoningContent => delta.reasoning
  | .reasoning => delta.reasoningContent

/-- A member that is left out, empty or said again. -/
def Repeats (value : Text) (member : Option Text) : Prop :=
  member = none ∨ member = some [] ∨ member = some value

def fragmentsOf (deltas : List (Option Delta)) : List Fragment := deltas.flatMap Delta.fragments

/-- The fragments of one of the calls, in their order. -/
def ofCall (fragments : List Fragment) (i : Nat) : List Fragment := fragments.filter (Fragment.key · = i)

def argumentsOf (fragments : List Fragment) : Text :=
  fragments.flatMap (fun fragment => fragment.arguments.getD [])

/-- The fragments of a call: the first one has its id and name. -/
structure FragmentsOf (c : WrittenCall) (fragments : List Fragment) : Prop where
  begins : ∃ first rest, fragments = first :: rest ∧ first.id = some c.id ∧ first.name = some c.name
  repeats : ∀ fragment ∈ fragments, Repeats c.id fragment.id ∧ Repeats c.name fragment.name
  arguments : argumentsOf fragments = c.arguments

/-- A message in pieces: texts and tool calls cut anywhere, the fragments of the calls among
each other in any order. -/
structure Fragmented (m : WrittenMessage) (deltas : List (Option Delta)) : Prop where
  content : deltas.flatMap (fun delta => (delta.bind Delta.content).getD []) = m.content.getD []
  thinking : deltas.flatMap (fun delta => (delta.bind m.thinkingMember.used).getD []) = m.thinking
  oneMember : ∀ delta, some delta ∈ deltas → truthy (m.thinkingMember.unused delta) = none
  indexed : ∀ fragment ∈ fragmentsOf deltas, ∃ i < m.calls.length, fragment.index = some i
  calls : ∀ i c, m.calls[i]? = some c → FragmentsOf c (ofCall (fragmentsOf deltas) i)

/-- A message, and the way it is streamed. -/
structure Streamed where
  message : WrittenMessage
  deltas : List (Option Delta)
  fragmented : Fragmented message deltas

namespace Streamed

def completed (s : Streamed) : LlmResponse := complete (some s.message.response)

def whole (s : Streamed) : List LlmStreamChunk := stream (s.deltas.map .data ++ [.done])

/-- What is streamed when the connection ends behind the first events. -/
def cutOff (s : Streamed) (n : Nat) : List LlmStreamChunk := stream ((s.deltas.map .data).take n)

/-- The fragments of a call that have arrived with the first events. -/
def received (s : Streamed) (n i : Nat) : List Fragment := ofCall (fragmentsOf (s.deltas.take n)) i

/-- What has arrived of a call's arguments is a JSON text, of which then only white space is
missing, or nothing has and the arguments are the empty object. -/
def Settled (s : Streamed) (n : Nat) : Prop :=
  ∀ i c, s.message.calls[i]? = some c → s.received n i ≠ [] →
    (Json.parse (argumentsOf (s.received n i))).isSome ∨
      argumentsOf (s.received n i) = [] ∧ c.input = .nil

/-- Stream and complete give the same, and a stream that is cut off gives nothing else. -/
structure Agrees (s : Streamed) (n : Nat) : Prop where
  text : textOf s.whole = s.completed.text
  thinking : thinkingOf s.whole = s.completed.thinking.getD []
  calls : callsOf s.whole = s.completed.toolCalls.getD []
  cut : ∀ call ∈ callsOf (s.cutOff n), call ∈ s.completed.toolCalls.getD []

end Streamed

end Fragmentation

section Accumulators

variable {c : WrittenCall} {fragments : List Fragment} {fragment : Fragment}

theorem or_of_repeats {value : Text} (hv : value ≠ []) {member : Option Text} (h : Repeats value member) :
    (truthy member).or (some value) = some value := by
  rcases h with rfl | rfl | rfl
  · rfl
  · rfl
  · rw [truthy_some hv]
    rfl

/-- Once a call has its id and name, further fragments only add to its arguments. -/
theorem foldl_add (c : WrittenCall) (fragments : List Fragment) (arguments : Text)
    (h : ∀ fragment ∈ fragments, Repeats c.id fragment.id ∧ Repeats c.name fragment.name) :
    fragments.foldl StreamingToolCallAccumulator.add
      { id := some c.id, name := some c.name, argumentsText := arguments } =
      { id := some c.id, name := some c.name, argumentsText := arguments ++ argumentsOf fragments } := by
  induction fragments generalizing arguments with
  | nil => rw [List.foldl_nil, argumentsOf, List.flatMap_nil, List.append_nil]
  | cons fragment fragments ih =>
      obtain ⟨hid, hname⟩ := h fragment List.mem_cons_self
      rw [List.foldl_cons, StreamingToolCallAccumulator.add, or_of_repeats c.id_ne hid,
        or_of_repeats c.name_ne hname, ih _ (fun f hf => h f (List.mem_cons_of_mem fragment hf)),
        List.append_assoc]
      rfl

/-- The accumulator of a call of which fragments have arrived, the first one among them. -/
theorem accumulator_eq {rest : List Fragment} (hfirst : fragment.id = some c.id)
    (hname : fragment.name = some c.name)
    (h : ∀ f ∈ rest, Repeats c.id f.id ∧ Repeats c.name f.name) :
    (fragment :: rest).foldl StreamingToolCallAccumulator.add {} =
      { id := some c.id, name := some c.name, argumentsText := argumentsOf (fragment :: rest) } := by
  have hadd : StreamingToolCallAccumulator.add {} fragment =
      { id := some c.id, name := some c.name, argumentsText := fragment.arguments.getD [] } := by
    rw [StreamingToolCallAccumulator.add, hfirst, hname, truthy_some c.id_ne, truthy_some c.name_ne]
    rfl
  rw [List.foldl_cons, hadd, foldl_add c rest _ h]
  rfl

end Accumulators

section Stream

theorem fragmentsOf_cons (delta : Option Delta) (deltas : List (Option Delta)) :
    fragmentsOf (delta :: deltas) = Delta.fragments delta ++ fragmentsOf deltas := List.flatMap_cons

/-- What the deltas give at once, and then the calls. -/
theorem streamFrom_data (pending : Pending) (deltas : List (Option Delta)) (events : List Event) :
    streamFrom pending (deltas.map .data ++ events) =
      deltas.flatMap Delta.chunks ++
        streamFrom ((fragmentsOf deltas).foldl addFragment pending) events := by
  induction deltas generalizing pending with
  | nil => rfl
  | cons delta deltas ih =>
      rw [List.map_cons, List.cons_append, streamFrom, ih, List.flatMap_cons, List.append_assoc,
        fragmentsOf_cons, List.foldl_append]

def pendingOf (deltas : List (Option Delta)) : Pending :=
  Grouping.group Fragment.key (fun _ => {}) StreamingToolCallAccumulator.add (fragmentsOf deltas)

theorem stream_done (deltas : List (Option Delta)) :
    stream (deltas.map .data ++ [.done]) =
      deltas.flatMap Delta.chunks ++ (flushToolCalls (pendingOf deltas) ++ [.done]) :=
  streamFrom_data [] deltas [.done]

theorem stream_ends (deltas : List (Option Delta)) :
    stream (deltas.map .data) =
      deltas.flatMap Delta.chunks ++ (flushToolCalls (pendingOf deltas) ++ [.done]) := by
  have h := streamFrom_data [] deltas []
  rw [List.append_nil] at h
  exact h

theorem flushToolCall_some {accumulator : StreamingToolCallAccumulator} {chunk : LlmStreamChunk}
    (h : flushToolCall accumulator = some chunk) : ∃ call, chunk = .toolCall call := by
  rw [flushToolCall] at h
  split at h
  · exact ⟨_, (Option.some.inj h).symm⟩
  · cases h

theorem textOf_flush (pending : Pending) : textOf (flushToolCalls pending ++ [.done]) = [] := by
  rw [textOf, List.flatMap_eq_nil_iff]
  intro chunk h
  rcases List.mem_append.mp h with h | h
  · obtain ⟨index, -, hc⟩ := List.mem_filterMap.mp h
    obtain ⟨accumulator, -, hc⟩ := Option.bind_eq_some_iff.mp hc
    obtain ⟨call, rfl⟩ := flushToolCall_some hc
    rfl
  · rw [List.mem_singleton.mp h]

theorem thinkingOf_flush (pending : Pending) : thinkingOf (flushToolCalls pending ++ [.done]) = [] := by
  rw [thinkingOf, List.flatMap_eq_nil_iff]
  intro chunk h
  rcases List.mem_append.mp h with h | h
  · obtain ⟨index, -, hc⟩ := List.mem_filterMap.mp h
    obtain ⟨accumulator, -, hc⟩ := Option.bind_eq_some_iff.mp hc
    obtain ⟨call, rfl⟩ := flushToolCall_some hc
    rfl
  · rw [List.mem_singleton.mp h]

theorem textOf_chunks (delta : Option Delta) :
    textOf (Delta.chunks delta) = (delta.bind Delta.content).getD [] := by
  cases delta with
  | none => rfl
  | some d =>
      change textOf ((if _ then [] else [_]) ++ _) = d.content.getD []
      rw [textOf_append, ← truthy_getD]
      split <;> cases truthy d.content <;> simp [textOf]

theorem thinkingOf_chunks (delta : Option Delta) : thinkingOf (Delta.chunks delta) =
    (delta.map fun d => extractThinking d.reasoningContent d.reasoning).getD [] := by
  cases delta with
  | none => rfl
  | some d =>
      change thinkingOf ((if _ then [] else [_]) ++ _) = extractThinking d.reasoningContent d.reasoning
      rw [thinkingOf_append]
      split
      · next h =>
        rw [h]
        cases truthy d.content <;> rfl
      · cases truthy d.content <;> simp [thinkingOf]

theorem callsOf_chunks (delta : Option Delta) : callsOf (Delta.chunks delta) = [] := by
  cases delta with
  | none => rfl
  | some d =>
      change callsOf ((if _ then [] else [_]) ++ _) = []
      rw [callsOf_append]
      split <;> cases truthy d.content <;> rfl

/-- A call of the stream is one that is flushed at its end. -/
theorem callsOf_stream (deltas : List (Option Delta)) :
    callsOf (deltas.flatMap Delta.chunks ++ (flushToolCalls (pendingOf deltas) ++ [.done])) =
      callsOf (flushToolCalls (pendingOf deltas)) := by
  have hnone : callsOf (deltas.flatMap Delta.chunks) = [] := by
    rw [callsOf, List.filterMap_flatMap]
    exact List.flatMap_eq_nil_iff.mpr fun delta _ => callsOf_chunks delta
  rw [callsOf_append, callsOf_append, hnone]
  exact List.append_nil _

theorem extractThinking_of_one (member : ThinkingMember) (delta : Delta)
    (h : truthy (member.unused delta) = none) :
    extractThinking delta.reasoningContent delta.reasoning = (member.used delta).getD [] := by
  rw [extractThinking]
  cases member with
  | reasoningContent =>
      change truthy delta.reasoning = none at h
      rw [h, Option.or_none]
      exact truthy_getD _
  | reasoning =>
      change truthy delta.reasoningContent = none at h
      rw [h, Option.none_or]
      exact truthy_getD _

end Stream

section Flush

variable {s : Streamed} {deltas : List (Option Delta)} {i : Nat} {c : WrittenCall}

/-- The accumulator of a call holds what has arrived of it. -/
theorem mapGet_pendingOf (hc : s.message.calls[i]? = some c) {before after : List (Option Delta)}
    (hs : s.deltas = before ++ after) (h : ofCall (fragmentsOf before) i ≠ []) :
    Mutation.mapGet i (pendingOf before) = some
      { id := some c.id, name := some c.name
        argumentsText := argumentsOf (ofCall (fragmentsOf before) i) } := by
  obtain ⟨⟨first, rest, hall, hid, hname⟩, hrepeats, -⟩ := s.fragmented.calls i c hc
  have hsplit : ofCall (fragmentsOf s.deltas) i =
      ofCall (fragmentsOf before) i ++ ofCall (fragmentsOf after) i := by
    rw [hs, fragmentsOf, List.flatMap_append, ofCall, List.filter_append]
    rfl
  obtain ⟨fragment, fragments, hb⟩ := List.exists_cons_of_ne_nil h
  have hfirst : fragment = first := by
    rw [hall, hb, List.cons_append] at hsplit
    exact (List.cons.inj hsplit).1.symm
  rw [pendingOf, Grouping.mapGet_group]
  change (ofCall (fragmentsOf before) i).head?.map
    (fun _ => (ofCall (fragmentsOf before) i).foldl StreamingToolCallAccumulator.add {}) = _
  rw [hb, hfirst, accumulator_eq hid hname fun f hf => hrepeats f ?_]
  · rfl
  · rw [hsplit, hb]
    exact List.mem_append_left _ (List.mem_cons_of_mem _ hf)

theorem mem_callsOf_flush {pending : Pending} {call : LlmToolCall} :
    call ∈ callsOf (flushToolCalls pending) ↔ ∃ i accumulator, Mutation.mapGet i pending = some accumulator ∧
      flushToolCall accumulator = some (.toolCall call) := by
  have hchunk : call ∈ callsOf (flushToolCalls pending) ↔ .toolCall call ∈ flushToolCalls pending := by
    rw [callsOf, List.mem_filterMap]
    constructor
    · rintro ⟨chunk, hm, hc⟩
      cases chunk with
      | toolCall other =>
          cases hc
          exact hm
      | _ => cases hc
    · exact fun hm => ⟨_, hm, rfl⟩
  rw [hchunk, flushToolCalls, List.mem_filterMap]
  constructor
  · rintro ⟨i, -, hi⟩
    exact ⟨i, Option.bind_eq_some_iff.mp hi⟩
  · rintro ⟨i, accumulator, hget, hflush⟩
    refine ⟨i, ?_, Option.bind_eq_some_iff.mpr ⟨accumulator, hget, hflush⟩⟩
    rw [List.mem_mergeSort, Mutation.mem_keys_iff, hget]
    exact Option.some_ne_none _

theorem parseToolArguments_written (c : WrittenCall) :
    parseToolArguments (some c.arguments) = .obj c.input := by
  have hne : c.arguments ≠ [] := by
    intro h
    have hp := c.parses
    rw [h] at hp
    cases hp
  rw [parseToolArguments, truthy_some hne]
  dsimp only
  rw [c.parses]
  rfl

theorem parseToolCall_written (c : WrittenCall) : parseToolCall c.response = some c.call := by
  rw [WrittenCall.response, parseToolCall, truthy_some c.id_ne, truthy_some c.name_ne,
    parseToolArguments_written]
  rfl

theorem completed_calls (s : Streamed) :
    s.completed.toolCalls.getD [] = s.message.calls.map WrittenCall.call := by
  have hcalls : s.message.calls.map (fun c => parseToolCall c.response) =
      s.message.calls.map (fun c => some c.call) :=
    List.map_congr_left fun c _ => parseToolCall_written c
  change (Option.bind (if s.message.calls.isEmpty then none else some _) _).getD [] = _
  cases hm : s.message.calls with
  | nil => rfl
  | cons c calls =>
      rw [if_neg (by simp), Option.bind_some, ← hm, List.filterMap_map]
      have hparse : s.message.calls.filterMap (parseToolCall ∘ WrittenCall.response) =
          s.message.calls.map WrittenCall.call := by
        rw [← List.filterMap_eq_map]
        exact List.filterMap_congr fun c _ => parseToolCall_written c
      rw [hparse, nonEmpty, hm]
      rfl

/-- What is flushed of a call is the call itself exactly when its arguments are settled. -/
theorem flushed_eq_iff {p u : Text} (h : c.arguments = p ++ u) :
    parseToolArguments (truthy (some p)) = .obj c.input ↔
      (Json.parse p).isSome ∨ p = [] ∧ c.input = .nil := by
  have hp := c.parses
  cases p with
  | nil =>
      have hnone : (Json.parse []).isSome = false := rfl
      rw [hnone]
      change Value.obj .nil = .obj c.input ↔ _
      simp [eq_comm]
  | cons d p =>
      rw [truthy_some (List.cons_ne_nil d p), parseToolArguments, truthy_some (List.cons_ne_nil d p)]
      dsimp only
      rw [h] at hp
      cases hv : Json.parse (d :: p) with
      | none => simp
      | some v => simp [Json.parse_of_parse_append hp hv]

end Flush

section Agreement

variable (s : Streamed) (n : Nat)

theorem received_split (i : Nat) (c : WrittenCall) (hc : s.message.calls[i]? = some c) :
    c.arguments = argumentsOf (s.received n i) ++ argumentsOf (ofCall (fragmentsOf (s.deltas.drop n)) i) := by
  rw [← (s.fragmented.calls i c hc).arguments, Streamed.received]
  conv_lhs => rw [← List.take_append_drop n s.deltas]
  rw [fragmentsOf, List.flatMap_append, ofCall, List.filter_append, argumentsOf, List.flatMap_append]
  rfl

theorem keys_pendingOf (i : Nat) : i ∈ (pendingOf s.deltas).map Prod.fst ↔ i < s.message.calls.length := by
  rw [Mutation.mem_keys_iff]
  constructor
  · intro h
    obtain ⟨accumulator, h⟩ := Option.ne_none_iff_exists'.mp h
    rw [pendingOf, Grouping.mapGet_group] at h
    obtain ⟨fragment, hf, -⟩ := Option.map_eq_some_iff.mp h
    have hm := List.mem_of_mem_head? (Option.mem_def.mpr hf)
    obtain ⟨hm, hkey⟩ := List.mem_filter.mp hm
    obtain ⟨j, hj, hindex⟩ := s.fragmented.indexed fragment hm
    have hi : fragment.key = i := of_decide_eq_true hkey
    rw [Fragment.key, hindex] at hi
    exact hi ▸ hj
  · intro hi
    have hc := List.getElem?_eq_getElem hi
    obtain ⟨first, rest, hall, -⟩ := (s.fragmented.calls i _ hc).begins
    rw [mapGet_pendingOf hc (List.append_nil s.deltas).symm (by rw [hall]; exact List.cons_ne_nil _ _)]
    exact Option.some_ne_none _

theorem callsOf_whole : callsOf s.whole = s.completed.toolCalls.getD [] := by
  have hflush (i : Nat) (hi : i ∈ List.range s.message.calls.length) :
      ((Mutation.mapGet i (pendingOf s.deltas)).bind flushToolCall) =
        s.message.calls[i]?.bind (fun c => some (.toolCall c.call)) := by
    obtain ⟨c, hc⟩ : ∃ c, s.message.calls[i]? = some c :=
      ⟨_, List.getElem?_eq_getElem (List.mem_range.mp hi)⟩
    have hf := s.fragmented.calls i c hc
    obtain ⟨first, rest, hall, -⟩ := hf.begins
    rw [mapGet_pendingOf hc (List.append_nil s.deltas).symm (by rw [hall]; exact List.cons_ne_nil _ _), hc,
      hf.arguments]
    have hparse := (flushed_eq_iff (List.append_nil _).symm).mpr
      (.inl (by rw [c.parses]; rfl))
    rw [Option.bind_some, Option.bind_some, flushToolCall]
    dsimp only
    rw [hparse]
    rfl
  have hkeys : ((pendingOf s.deltas).map Prod.fst).Nodup := Grouping.keys_group _
  rw [Streamed.whole, stream_done, callsOf_stream, flushToolCalls,
    mergeSort_eq_range hkeys (keys_pendingOf s), List.filterMap_congr hflush,
    filterMap_range, callsOf, List.filterMap_filterMap, completed_calls]
  exact congrFun List.filterMap_eq_map s.message.calls

theorem textOf_whole : textOf s.whole = s.completed.text := by
  rw [Streamed.whole, stream_done, textOf_append, textOf_flush, List.append_nil, textOf,
    List.flatMap_assoc]
  change s.deltas.flatMap (fun delta => textOf (Delta.chunks delta)) = s.message.content.getD []
  rw [← s.fragmented.content]
  exact List.flatMap_congr fun delta _ => textOf_chunks delta

theorem completed_thinking : s.completed.thinking.getD [] = s.message.thinking := by
  change (truthy (some (extractThinking _ _))).getD [] = _
  rw [truthy_getD]
  change extractThinking s.message.response.reasoningContent s.message.response.reasoning = _
  rw [WrittenMessage.response, extractThinking]
  cases s.message.thinkingMember with
  | reasoningContent =>
      change ((truthy (some s.message.thinking)).or none).getD [] = _
      rw [Option.or_none]
      exact truthy_getD _
  | reasoning => exact truthy_getD _

theorem thinkingOf_whole : thinkingOf s.whole = s.completed.thinking.getD [] := by
  rw [Streamed.whole, stream_done, thinkingOf_append, thinkingOf_flush, List.append_nil, thinkingOf,
    List.flatMap_assoc, completed_thinking, ← s.fragmented.thinking]
  refine List.flatMap_congr fun delta hm => ?_
  cases delta with
  | none => rfl
  | some d =>
      have h := thinkingOf_chunks (some d)
      rw [Option.map_some, Option.getD_some,
        extractThinking_of_one _ _ (s.fragmented.oneMember d hm)] at h
      exact h

theorem mem_callsOf_cutOff {call : LlmToolCall} : call ∈ callsOf (s.cutOff n) ↔
    ∃ i c, s.message.calls[i]? = some c ∧ s.received n i ≠ [] ∧
      call = { id := c.id, name := c.name
               input := parseToolArguments (truthy (some (argumentsOf (s.received n i)))) } := by
  rw [Streamed.cutOff, ← List.map_take, stream_ends, callsOf_stream, mem_callsOf_flush]
  have hsplit : s.deltas = s.deltas.take n ++ s.deltas.drop n := (List.take_append_drop n s.deltas).symm
  constructor
  · rintro ⟨i, accumulator, hget, hflush⟩
    have hne : s.received n i ≠ [] := by
      intro h
      rw [pendingOf, Grouping.mapGet_group] at hget
      change (s.received n i).head?.map _ = _ at hget
      rw [h] at hget
      cases hget
    have hi : i < s.message.calls.length := by
      obtain ⟨fragment, rest, hf⟩ := List.exists_cons_of_ne_nil hne
      have hm : fragment ∈ s.received n i := hf ▸ List.mem_cons_self
      obtain ⟨hm, hkey⟩ := List.mem_filter.mp hm
      have hm : fragment ∈ fragmentsOf s.deltas := by
        rw [hsplit, fragmentsOf, List.flatMap_append]
        exact List.mem_append_left _ hm
      obtain ⟨j, hj, hindex⟩ := s.fragmented.indexed fragment hm
      have hi : fragment.key = i := of_decide_eq_true hkey
      rw [Fragment.key, hindex] at hi
      exact hi ▸ hj
    have hc := List.getElem?_eq_getElem hi
    rw [mapGet_pendingOf hc hsplit hne] at hget
    cases hget
    cases hflush
    exact ⟨i, _, hc, hne, rfl⟩
  · rintro ⟨i, c, hc, hne, rfl⟩
    exact ⟨i, _, mapGet_pendingOf hc hsplit hne, rfl⟩

theorem cut_iff : (∀ call ∈ callsOf (s.cutOff n), call ∈ s.completed.toolCalls.getD []) ↔ s.Settled n := by
  rw [completed_calls]
  constructor
  · intro h i c hc hne
    rw [← flushed_eq_iff (received_split s n i c hc)]
    obtain ⟨other, hother, he⟩ := List.mem_map.mp
      (h _ ((mem_callsOf_cutOff s n).mpr ⟨i, c, hc, hne, rfl⟩))
    -- two calls of a message with one id are one
    have hsame : other = c := List.inj_on_of_nodup_map s.message.distinct hother
      (List.mem_of_getElem? hc) (congrArg LlmToolCall.id he)
    rw [hsame] at he
    exact (congrArg LlmToolCall.input he).symm
  · intro h call hcall
    obtain ⟨i, c, hc, hne, rfl⟩ := (mem_callsOf_cutOff s n).mp hcall
    rw [(flushed_eq_iff (received_split s n i c hc)).mpr (h i c hc hne)]
    exact List.mem_map_of_mem (List.mem_of_getElem? hc)

theorem agrees_iff_settled : s.Agrees n ↔ s.Settled n :=
  ⟨fun h => (cut_iff s n).mp h.cut, fun h =>
    { text := textOf_whole s, thinking := thinkingOf_whole s, calls := callsOf_whole s
      cut := (cut_iff s n).mpr h }⟩

end Agreement

end Kross.Llm.OpenAi

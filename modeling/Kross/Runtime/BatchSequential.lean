import Kross.Runtime.BatchOrder

namespace Kross.ToolLoop

open Kross.Context (LlmToolCall Text)
open Kross.Run

section OneByOne

variable {W : Type} (gateway : ToolGateway) (handle : LlmToolCall → W → Text × W)

/-- The calls one after another, up to the first that is not answered. -/
def oneByOne : List LlmToolCall → W → List ToolMessage × W
  | [], w => ([], w)
  | call :: rest, w => match gateway.call false false call with
    | .ok _ =>
        let (messages, last) := oneByOne rest (handle call w).2
        (LlmToolCall.answer call (handle call w).1 :: messages, last)
    | .error (.permission error) =>
        if error.denied then
          let (messages, last) := oneByOne rest w
          (LlmToolCall.answer call (ToolBatch.deniedContent call error) :: messages, last)
        else ([], w)
    | .error _ => ([], w)

/-- The call whose handler the promise `i` of the batch waits for. -/
def ToolBatch.handlerAt (b : ToolBatch) (i : Nat) : Option LlmToolCall :=
  match b.point with
  | .reading slots => (slots[i]?.filter Slot.runs).map Slot.call
  | .calling slot => if slot.runs then some slot.call else none
  | _ => none

inductive HandledEvent
  | proceed
  | finishes (i : Nat)

/-- A handler acts on the world when it finishes. A promise without a handler is rejected with what
it was made with, whatever the answer. -/
def handledNext (s : BatchState × W) : HandledEvent → BatchState × W
  | .proceed => (s.1.next ⟨gateway, .proceed⟩, s.2)
  | .finishes i => match s.1.progress with
    | .ends _ => s
    | .waits b => match b.handlerAt i with
      | some call => (s.1.next ⟨gateway, .settled i (.content (handle call s.2).1)⟩, (handle call s.2).2)
      | none => (s.1.next ⟨gateway, .settled i .aborted⟩, s.2)

variable {gateway handle} {input : ToolBatchInput} {b b' : ToolBatch} {w w₀ : W} {m : Memory} {aborted catching : Bool}
  {messages : List ToolMessage} {calls rest : List LlmToolCall} {slot : Slot} {slots : List Slot} {call : LlmToolCall}

theorem call_of_reads (h : Reads gateway input.tools call) : ∃ inspection, gateway.call false false call = .ok inspection := by
  obtain ⟨-, inspection, hi, hallows⟩ := h
  refine ⟨inspection, ?_⟩
  rw [ToolCallInspection.allowsRead, Bool.and_eq_true, decide_eq_true_eq, decide_eq_true_eq] at hallows
  simp [ToolGateway.call, hi, hallows.2]

theorem oneByOne_reads (hn : ∀ call w, Reads gateway input.tools call → (handle call w).2 = w)
    (h : ∀ call ∈ calls, Reads gateway input.tools call) :
    oneByOne gateway handle (calls ++ rest) w =
      (calls.map (fun call => LlmToolCall.answer call (handle call w).1) ++ (oneByOne gateway handle rest w).1,
        (oneByOne gateway handle rest w).2) := by
  induction calls with
  | nil => rfl
  | cons call calls ih =>
      have hread := h call List.mem_cons_self
      obtain ⟨inspection, hok⟩ := call_of_reads hread
      rw [List.cons_append, oneByOne, hok]
      dsimp only
      rw [hn call w hread, ih fun other hother => h other (List.mem_cons_of_mem _ hother)]
      rfl

/-- The messages so far, and those of the other calls one by one, are the messages of all of them. -/
def Resumes (gateway : ToolGateway) (handle : LlmToolCall → W → Text × W) (input : ToolBatchInput) (w₀ : W)
    (messages : List ToolMessage) (rest : List LlmToolCall) (w : W) : Prop :=
  oneByOne gateway handle input.calls w₀ =
    (messages ++ (oneByOne gateway handle rest w).1, (oneByOne gateway handle rest w).2)

/-- A read of the group: its result, if there, is what the handler answers in this world. -/
structure ReadIn (gateway : ToolGateway) (handle : LlmToolCall → W → Text × W) (input : ToolBatchInput) (w : W)
    (slot : Slot) : Prop where
  reads : Reads gateway input.tools slot.call
  accepted : slot.refusal = none
  content : ∀ content, slot.content = some content → content = (handle slot.call w).1

structure Agrees (gateway : ToolGateway) (handle : LlmToolCall → W → Text × W) (input : ToolBatchInput) (w₀ : W)
    (b : ToolBatch) (w : W) : Prop where
  tools : b.tools = input.tools
  resumes : (∀ session, b.point ≠ .pausing session) →
    Resumes gateway handle input w₀ b.toolMessages (b.inFlight ++ b.queue) w
  observing : ∀ calls, b.point = .observing calls → ∀ call ∈ calls, Reads gateway input.tools call
  reading : ∀ slots, b.point = .reading slots → ∀ slot ∈ slots, ReadIn gateway handle input w slot
  calling : ∀ slot, b.point = .calling slot → slot = ToolBatch.made gateway false false slot.call

def AgreesTo (gateway : ToolGateway) (handle : LlmToolCall → W → Text × W) (input : ToolBatchInput) (w₀ : W)
    (progress : Progress) (w : W) : Prop :=
  match progress with
  | .waits b => Agrees gateway handle input w₀ b w
  | .ends (.completed messages) => oneByOne gateway handle input.calls w₀ = (messages, w)
  | .ends _ => True

theorem agrees_caught (error : LoopError) : AgreesTo gateway handle input w₀ (ToolBatch.caught aborted b error) w := by
  rw [ToolBatch.caught]
  split_ifs <;> trivial

theorem Resumes.noting (ht : b.tools = input.tools) (hp : b.point = .noting)
    (h : Resumes gateway handle input w₀ b.toolMessages b.queue w) : Agrees gateway handle input w₀ b w := by
  refine ⟨ht, fun _ => ?_, ?_, ?_, ?_⟩
  · rw [ToolBatch.inFlight, hp]
    exact h
  · rw [hp]
    rintro _ ⟨⟩
  · rw [hp]
    rintro _ ⟨⟩
  · rw [hp]
    rintro _ ⟨⟩

theorem Agrees.loop (h : Agrees gateway handle input w₀ b w) (hp : b.point = .noting) :
    AgreesTo gateway handle input w₀ (b.loop gateway aborted) w := by
  have hresumes := h.resumes (by rw [hp]; rintro _ ⟨⟩)
  rw [ToolBatch.inFlight, hp] at hresumes
  rcases loop_cases gateway aborted b with
    ⟨hq, hl⟩ | hl | ⟨error, hl⟩ | ⟨b', hl, calls, point, hgrouped, hsplit, hb, hpoint⟩
  · rw [hl, AgreesTo, hresumes, hq]
    exact Prod.ext (List.append_nil _) rfl
  · rw [hl]
    trivial
  · rw [hl]
    trivial
  · rw [hl, AgreesTo, hb]
    have hrest : Resumes gateway handle input w₀ b.toolMessages (calls ++ b'.queue) w := by
      rw [hsplit]
      exact hresumes
    rcases hpoint with ⟨rfl, hreads⟩ | ⟨call, rfl, rfl⟩
    · refine ⟨h.tools, fun _ => hrest, ?_, by rintro _ ⟨⟩, by rintro _ ⟨⟩⟩
      rintro _ ⟨⟩
      exact h.tools ▸ hreads
    · exact ⟨h.tools, fun _ => hrest, by rintro _ ⟨⟩, by rintro _ ⟨⟩, by rintro _ ⟨⟩⟩

theorem Resumes.checkpointing (ht : b.tools = input.tools)
    (h : Resumes gateway handle input w₀ (b.toolMessages ++ messages) b.queue w) :
    AgreesTo gateway handle input w₀ (ToolBatch.checkpointing aborted catching m (b.push messages)).2 w := by
  rw [ToolBatch.checkpointing]
  cases m.patchCheckpoint (b.push messages).checkpointed with
  | ok m' => exact Resumes.noting ht rfl h
  | error error =>
      cases catching with
      | true => exact agrees_caught error
      | false => trivial

theorem made_of_reads (h : Reads gateway input.tools call) : ToolBatch.made gateway false false call = ⟨call, none, none⟩ := by
  obtain ⟨inspection, hok⟩ := call_of_reads h
  rw [ToolBatch.made, hok]

theorem Agrees.proceed (h : Agrees gateway handle input w₀ b w) :
    AgreesTo gateway handle input w₀ (b.proceed gateway false m).2 w := by
  cases hp : b.point with
  | observing calls =>
      have hreads := h.observing calls hp
      have hresumes := h.resumes (by rw [hp]; rintro _ ⟨⟩)
      rw [ToolBatch.inFlight, hp] at hresumes
      simp only [ToolBatch.proceed, hp, AgreesTo]
      refine ⟨h.tools, fun _ => ?_, by rintro _ ⟨⟩, ?_, by rintro _ ⟨⟩⟩
      · simpa [ToolBatch.inFlight, Function.comp_def] using hresumes
      · rintro _ ⟨⟩ slot hslot
        obtain ⟨call, hcall, rfl⟩ := List.mem_map.mp hslot
        rw [made_of_reads (hreads call hcall)]
        exact ⟨hreads call hcall, rfl, by rintro _ ⟨⟩⟩
  | announcing call =>
      have hresumes := h.resumes (by rw [hp]; rintro _ ⟨⟩)
      rw [ToolBatch.inFlight, hp] at hresumes
      simp only [ToolBatch.proceed, hp, AgreesTo]
      refine ⟨h.tools, fun _ => ?_, by rintro _ ⟨⟩, by rintro _ ⟨⟩, ?_⟩
      · simpa [ToolBatch.inFlight] using hresumes
      · rintro _ ⟨⟩
        rw [made_call]
  | noting =>
      simp only [ToolBatch.proceed, hp]
      exact h.loop hp
  | pausing session =>
      simp only [ToolBatch.proceed, hp]
      trivial
  | reading slots =>
      simp only [ToolBatch.proceed, hp]
      exact h
  | calling slot =>
      simp only [ToolBatch.proceed, hp]
      exact h

theorem results_reads (h : ∀ slot ∈ slots, ReadIn gateway handle input w slot)
    (hr : ToolBatch.results slots = some messages) :
    messages = (slots.map Slot.call).map (fun call => LlmToolCall.answer call (handle call w).1) := by
  rw [ToolBatch.results] at hr
  induction slots generalizing messages with
  | nil =>
      cases hr
      rfl
  | cons slot slots ih =>
      rw [List.mapM_cons] at hr
      cases hc : slot.content with
      | none => simp [hc] at hr
      | some content =>
          cases hrest : slots.mapM (fun slot => slot.content.map (LlmToolCall.answer slot.call)) with
          | none => simp [hc, hrest] at hr
          | some more =>
              simp only [hc, hrest, Option.map_some, Option.bind_eq_bind, Option.bind_some, Option.pure_def,
                Option.some.injEq] at hr
              have hslot := (h slot List.mem_cons_self).content content hc
              rw [← hr, ih (fun other hother => h other (List.mem_cons_of_mem _ hother)) hrest, hslot]
              rfl

theorem Agrees.reading_settled (hn : ∀ call w, Reads gateway input.tools call → (handle call w).2 = w)
    (h : Agrees gateway handle input w₀ b w) (hp : b.point = .reading slots) {i : Nat}
    (hslot : slots[i]? = some ⟨call, none, none⟩) :
    AgreesTo gateway handle input w₀ (b.settled false i (.content (handle call w).1) m).2 (handle call w).2 := by
  have hin := h.reading slots hp
  have hread := hin _ (List.mem_of_getElem? hslot)
  have hresumes := h.resumes (by rw [hp]; rintro _ ⟨⟩)
  rw [ToolBatch.inFlight, hp] at hresumes
  rw [hn call w hread.reads]
  simp only [ToolBatch.settled, hp, hslot, Option.isSome_none, Bool.false_eq_true, if_false, Slot.outcome]
  obtain ⟨before, after, -, hset⟩ := running_set hslot rfl
  obtain ⟨-, hcalls⟩ := hset ⟨call, none, some (handle call w).1⟩ rfl rfl
  have hall : ∀ other ∈ slots.set i ⟨call, none, some (handle call w).1⟩, ReadIn gateway handle input w other := by
    intro other hother
    rcases List.mem_or_eq_of_mem_set hother with hother | rfl
    · exact hin other hother
    · refine ⟨hread.reads, rfl, ?_⟩
      rintro _ ⟨⟩
      rfl
  cases hr : ToolBatch.results (slots.set i ⟨call, none, some (handle call w).1⟩) with
  | none =>
      refine ⟨h.tools, fun _ => ?_, by rintro _ ⟨⟩, ?_, by rintro _ ⟨⟩⟩
      · rw [ToolBatch.inFlight]
        dsimp only
        rw [hcalls]
        exact hresumes
      · rintro _ ⟨⟩
        exact hall
  | some messages =>
      refine Resumes.checkpointing h.tools ?_
      rw [results_reads hall hr, hcalls]
      dsimp only at hresumes
      rw [Resumes, oneByOne_reads hn fun call hcall => ?_] at hresumes
      · rw [Resumes, hresumes, List.append_assoc]
      · obtain ⟨other, hother, rfl⟩ := List.mem_map.mp hcall
        exact (hin other hother).reads

theorem runs_eq (h : slot.runs = true) : slot = ⟨slot.call, none, none⟩ := by
  obtain ⟨call, refusal, content⟩ := slot
  rw [Slot.runs, Bool.and_eq_true, Option.isNone_iff_eq_none, Option.isNone_iff_eq_none] at h
  obtain ⟨rfl, rfl⟩ := h
  rfl

theorem Agrees.calling_settled (h : Agrees gateway handle input w₀ b w) (hp : b.point = .calling ⟨call, none, none⟩)
    {i : Nat} :
    AgreesTo gateway handle input w₀ (b.settled false i (.content (handle call w).1) m).2 (handle call w).2 := by
  have hmade := h.calling _ hp
  have hresumes := h.resumes (by rw [hp]; rintro _ ⟨⟩)
  rw [ToolBatch.inFlight, hp] at hresumes
  simp only [ToolBatch.settled, hp, Slot.outcome]
  refine Resumes.checkpointing h.tools ?_
  rw [ToolBatch.made] at hmade
  cases hc : gateway.call false false call with
  | error error => simp [hc] at hmade
  | ok inspection =>
      simp only [Resumes, List.singleton_append, oneByOne, hc] at hresumes
      rw [Resumes, hresumes, List.append_assoc]
      rfl

theorem Agrees.calling_refused (h : Agrees gateway handle input w₀ b w) {error : LoopError}
    (hp : b.point = .calling ⟨call, some error, none⟩) {i : Nat} {answer : Answer} :
    AgreesTo gateway handle input w₀ (b.settled false i answer m).2 w := by
  have hmade := h.calling _ hp
  have hresumes := h.resumes (by rw [hp]; rintro _ ⟨⟩)
  rw [ToolBatch.inFlight, hp] at hresumes
  simp only [ToolBatch.settled, hp, Slot.outcome]
  cases error with
  | permission error =>
      dsimp only
      split_ifs with hdenied
      · refine Resumes.checkpointing h.tools ?_
        rw [ToolBatch.made] at hmade
        cases hc : gateway.call false false call with
        | ok inspection => simp [hc] at hmade
        | error found =>
            simp only [hc, Slot.mk.injEq, Option.some.injEq, true_and, and_true] at hmade
            subst hmade
            simp only [Resumes, List.singleton_append, oneByOne, hc, hdenied, if_true] at hresumes
            rw [Resumes, hresumes, List.append_assoc]
            rfl
      · cases (Memory.createPendingToolApproval (m.record (ToolBatch.settledRecords b.runId ⟨call, some (.permission error), none⟩))
          (b.pendingSession call) error).2 with
        | ok _ => exact ⟨h.tools, fun hpausing => absurd rfl (hpausing _), by rintro _ ⟨⟩, by rintro _ ⟨⟩, by rintro _ ⟨⟩⟩
        | error error => trivial
  | inspect error =>
      dsimp only
      exact agrees_caught _
  | aborted =>
      dsimp only
      exact agrees_caught _
  | checkpoint =>
      dsimp only
      exact agrees_caught _
  | thrown =>
      dsimp only
      exact agrees_caught _

theorem settled_settled (hp : b.point = .reading slots) {i : Nat} {answer : Answer}
    (h : (slots[i]?.filter Slot.runs) = none) (hall : ∀ slot ∈ slots, slot.refusal = none) :
    b.settled aborted i answer m = (m, .waits b) := by
  simp only [ToolBatch.settled, hp]
  cases hslot : slots[i]? with
  | none => rfl
  | some slot =>
      rw [hslot, Option.filter_eq_none_iff] at h
      have hruns := h slot rfl
      rw [Slot.runs, hall slot (List.mem_of_getElem? hslot)] at hruns
      dsimp only
      rw [if_pos]
      simpa [Option.isSome_iff_ne_none] using hruns

theorem Agrees.finishes (hn : ∀ call w, Reads gateway input.tools call → (handle call w).2 = w)
    (h : Agrees gateway handle input w₀ b w) (i : Nat) :
    (∀ call, b.handlerAt i = some call →
      AgreesTo gateway handle input w₀ (b.settled false i (.content (handle call w).1) m).2 (handle call w).2) ∧
    (b.handlerAt i = none → AgreesTo gateway handle input w₀ (b.settled false i .aborted m).2 w) := by
  cases hp : b.point with
  | reading slots =>
      rw [ToolBatch.handlerAt, hp]
      constructor
      · intro call hat
        obtain ⟨slot, hslot, rfl⟩ := Option.map_eq_some_iff.mp hat
        obtain ⟨hslot, hruns⟩ := Option.filter_eq_some_iff.mp hslot
        rw [runs_eq hruns] at hslot
        exact h.reading_settled hn hp hslot
      · intro hnone
        rw [settled_settled hp (Option.map_eq_none_iff.mp hnone) fun slot hslot => (h.reading slots hp slot hslot).accepted]
        exact h
  | calling slot =>
      rw [ToolBatch.handlerAt, hp]
      have hmade := h.calling slot hp
      have hcontent : slot.content = none := by rw [hmade, made_content]
      constructor
      · intro call hat
        dsimp only at hat
        split_ifs at hat with hruns
        cases hat
        exact h.calling_settled (hp.trans (congrArg _ (runs_eq hruns)))
      · intro hnone
        obtain ⟨call, refusal, content⟩ := slot
        cases hcontent
        cases refusal with
        | none => simp [Slot.runs] at hnone
        | some error => exact h.calling_refused hp
  | observing calls =>
      rw [ToolBatch.handlerAt, hp]
      refine ⟨by rintro _ ⟨⟩, fun _ => ?_⟩
      simp only [ToolBatch.settled, hp]
      exact h
  | announcing call =>
      rw [ToolBatch.handlerAt, hp]
      refine ⟨by rintro _ ⟨⟩, fun _ => ?_⟩
      simp only [ToolBatch.settled, hp]
      exact h
  | noting =>
      rw [ToolBatch.handlerAt, hp]
      refine ⟨by rintro _ ⟨⟩, fun _ => ?_⟩
      simp only [ToolBatch.settled, hp]
      exact h
  | pausing session =>
      rw [ToolBatch.handlerAt, hp]
      refine ⟨by rintro _ ⟨⟩, fun _ => ?_⟩
      simp only [ToolBatch.settled, hp]
      exact h

theorem agrees_next (hn : ∀ call w, Reads gateway input.tools call → (handle call w).2 = w) {s : BatchState × W}
    (ha : s.1.aborted = false) (h : AgreesTo gateway handle input w₀ s.1.progress s.2) (event : HandledEvent) :
    (handledNext gateway handle s event).1.aborted = false ∧
      AgreesTo gateway handle input w₀ (handledNext gateway handle s event).1.progress
        (handledNext gateway handle s event).2 := by
  obtain ⟨s, w⟩ := s
  cases hp : s.progress with
  | ends outcome =>
      cases event with
      | proceed =>
          simp only [handledNext, BatchState.next, hp]
          exact ⟨ha, hp ▸ h⟩
      | finishes i =>
          simp only [handledNext, hp]
          exact ⟨ha, hp ▸ h⟩
  | waits b =>
      dsimp only at ha
      rw [hp] at h
      cases event with
      | proceed =>
          simp only [handledNext, BatchState.next, hp, ha, true_and]
          exact h.proceed
      | finishes i =>
          obtain ⟨hsome, hnone⟩ := h.finishes hn i (m := s.memory)
          simp only [handledNext, hp]
          cases hat : b.handlerAt i with
          | some call =>
              simp only [BatchState.next, hp, ha, true_and]
              exact hsome call hat
          | none =>
              simp only [BatchState.next, hp, ha, true_and]
              exact hnone hat

theorem agrees_start : AgreesTo gateway handle input w₀ (BatchState.start gateway false m input).progress w₀ := by
  rw [BatchState.start, executeToolBatch, Memory.updateCheckpoint]
  split_ifs
  · refine Agrees.loop (Resumes.noting rfl rfl ?_) rfl
    rfl
  · trivial

def handledSample (call : LlmToolCall) (w : Nat) : Text × Nat :=
  if call.name = "Read" then (w.repr.toList, w) else ([], w + 1)

end OneByOne

end Kross.ToolLoop

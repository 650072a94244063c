import Mathlib.Tactic.Common

namespace Kross.AsyncGenerator

inductive Request
  | next
  | ret
  deriving DecidableEq

/-- Where the body of a generator stops running. -/
inductive Action (V E : Type*)
  | awaits
  | yields (v : V)
  | returns
  | throws (e : E)

/-- A body goes on when it is resumed, or when what it awaits is settled with an `I`. -/
structure Body (B I V E : Type*) where
  begin : B × Action V E
  resume : B → Request → B × Action V E
  settled : B → I → B × Action V E

inductive Status (B : Type*)
  | suspendedStart
  | suspendedYield (b : B)
  | executing (b : B) (request : Request)
  | completed

/-- `queue` are the requests behind the one that is being executed. -/
structure Generator (B : Type*) where
  status : Status B
  queue : List Request

inductive Settlement (V E : Type*)
  | value (v : V)
  | done
  | error (e : E)

namespace Body

variable {B I V E : Type*} (body : Body B I V E)

def perform (request : Request) : B × Action V E → Status B × Option (Settlement V E)
  | (b, .awaits) => (.executing b request, none)
  | (b, .yields v) => (.suspendedYield b, some (.value v))
  | (_, .returns) => (.completed, some .done)
  | (_, .throws e) => (.completed, some (.error e))

/-- A generator that does not run takes a request. -/
def take (status : Status B) (request : Request) : Status B × Option (Settlement V E) :=
  match status, request with
  | .suspendedStart, .next => perform request body.begin
  | .suspendedStart, .ret => (.completed, some .done)
  | .suspendedYield b, _ => perform request (body.resume b request)
  | .completed, _ => (.completed, some .done)
  | .executing b current, _ => (.executing b current, none)

def answer (request : Request) (settlement : Option (Settlement V E)) : List (Request × Settlement V E) :=
  (settlement.map (fun s => (request, s))).toList

/-- Requests are taken in their order, until one of them has the generator run. -/
def drain (status : Status B) : List Request → Generator B × List (Request × Settlement V E)
  | [] => (⟨status, []⟩, [])
  | request :: queue => match status with
    | .executing b current => (⟨.executing b current, request :: queue⟩, [])
    | status =>
        let taken := body.take status request
        let rest := drain taken.1 queue
        (rest.1, answer request taken.2 ++ rest.2)

def enqueue (request : Request) (g : Generator B) : Generator B × List (Request × Settlement V E) :=
  body.drain g.status (g.queue ++ [request])

/-- What the body awaits is settled. -/
def input (i : I) (g : Generator B) : Generator B × List (Request × Settlement V E) :=
  match g.status with
  | .executing b request =>
      let performed := perform request (body.settled b i)
      let rest := body.drain performed.1 g.queue
      (rest.1, answer request performed.2 ++ rest.2)
  | _ => (g, [])

end Body

namespace Generator

variable {B I V E : Type*} {body : Body B I V E} {g : Generator B} {request : Request}

/-- The generator runs to answer the request, and none comes behind it. -/
def Runs (g : Generator B) (request : Request) : Prop := ∃ b, g = ⟨.executing b request, []⟩

def Rests (g : Generator B) : Prop := g.queue = [] ∧ ∀ b request, g.status ≠ .executing b request

/-- The promise of a `next` is not settled. -/
def PendingNext (g : Generator B) : Prop := (∃ b, g.status = .executing b .next) ∨ .next ∈ g.queue

theorem Rests.not_pendingNext (h : g.Rests) : ¬ g.PendingNext := by
  rintro (⟨b, hb⟩ | hmem)
  · exact h.2 b _ hb
  · rw [h.1] at hmem
    cases hmem

theorem Runs.pendingNext_iff (h : g.Runs request) : g.PendingNext ↔ request = .next := by
  obtain ⟨b, rfl⟩ := h
  constructor
  · rintro (⟨c, hc⟩ | hmem)
    · cases hc
      rfl
    · cases hmem
  · rintro rfl
    exact .inl ⟨b, rfl⟩

/-- A request that is taken runs on, or it is answered. -/
theorem perform_cases (request : Request) (step : B × Action V E) :
    ((∃ b, (Body.perform request step).1 = .executing b request) ∧ (Body.perform request step).2 = none) ∨
      ((∀ b r, (Body.perform request step).1 ≠ .executing b r) ∧ ∃ s, (Body.perform request step).2 = some s) := by
  rcases step with ⟨b, action⟩
  cases action with
  | awaits => exact .inl ⟨⟨b, rfl⟩, rfl⟩
  | yields v => exact .inr ⟨nofun, _, rfl⟩
  | returns => exact .inr ⟨nofun, _, rfl⟩
  | throws e => exact .inr ⟨nofun, _, rfl⟩

theorem take_cases {status : Status B} (h : ∀ b r, status ≠ .executing b r) (request : Request) :
    ((∃ b, (body.take status request).1 = .executing b request) ∧ (body.take status request).2 = none) ∨
      ((∀ b r, (body.take status request).1 ≠ .executing b r) ∧ ∃ s, (body.take status request).2 = some s) := by
  cases status with
  | suspendedStart =>
      cases request with
      | next => exact perform_cases _ _
      | ret => exact .inr ⟨nofun, _, rfl⟩
  | suspendedYield b => exact perform_cases _ _
  | executing b r => exact absurd rfl (h b r)
  | completed => exact .inr ⟨nofun, _, rfl⟩

/-- What one request makes of a generator: it runs for it, or rests and has answered it. -/
def Answers (request : Request) (after : Generator B × List (Request × Settlement V E)) : Prop :=
  (after.1.Runs request ∧ after.2 = []) ∨ (after.1.Rests ∧ ∃ s, after.2 = [(request, s)])

theorem drain_rests {status : Status B} (h : ∀ b r, status ≠ .executing b r) (request : Request) :
    Answers request (body.drain status [request]) := by
  have heq : body.drain status [request] =
      (⟨(body.take status request).1, []⟩, Body.answer request (body.take status request).2) := by
    cases status with
    | executing b r => exact absurd rfl (h b r)
    | _ => simp [Body.drain]
  rw [heq]
  rcases take_cases h request with ⟨⟨b, hb⟩, hnone⟩ | ⟨hrests, s, hs⟩
  · rw [hb, hnone]
    exact .inl ⟨⟨b, rfl⟩, rfl⟩
  · rw [hs]
    exact .inr ⟨⟨rfl, hrests⟩, s, rfl⟩

variable (body) in
theorem Rests.enqueue (h : g.Rests) (request : Request) : Answers request (body.enqueue request g) := by
  rw [Body.enqueue, h.1]
  exact drain_rests h.2 request

variable (body) in
theorem Runs.enqueue (h : g.Runs .next) (request : Request) :
    ∃ b, body.enqueue request g = (⟨.executing b .next, [request]⟩, []) := by
  obtain ⟨b, rfl⟩ := h
  exact ⟨b, rfl⟩

variable (body) in
theorem Runs.input (h : g.Runs request) (i : I) : Answers request (body.input i g) := by
  obtain ⟨b, rfl⟩ := h
  rcases perform_cases request (body.settled b i) with ⟨⟨b', hb⟩, hnone⟩ | ⟨hrests, s, hs⟩
  · have heq : body.input i ⟨.executing b request, []⟩ = (⟨.executing b' request, []⟩, []) := by
      simp [Body.input, hb, hnone, Body.drain, Body.answer]
    rw [heq]
    exact .inl ⟨⟨b', rfl⟩, rfl⟩
  · have heq : body.input i ⟨.executing b request, []⟩ =
        (⟨(Body.perform request (body.settled b i)).1, []⟩, [(request, s)]) := by
      simp [Body.input, hs, Body.drain, Body.answer]
    rw [heq]
    exact .inr ⟨⟨rfl, hrests⟩, s, rfl⟩

variable (body) in
/-- A request behind a `next` waits until that is answered. -/
theorem queued_input (b : B) (request : Request) (i : I) :
    (∃ b', body.input i ⟨.executing b .next, [request]⟩ = (⟨.executing b' .next, [request]⟩, [])) ∨
      ∃ s g answers, body.input i ⟨.executing b .next, [request]⟩ = (g, (.next, s) :: answers) ∧
        Answers request (g, answers) := by
  rcases perform_cases .next (body.settled b i) with ⟨⟨b', hb⟩, hnone⟩ | ⟨hrests, s, hs⟩
  · refine .inl ⟨b', ?_⟩
    simp [Body.input, hb, hnone, Body.drain, Body.answer]
  · refine .inr ⟨s, (body.drain (Body.perform .next (body.settled b i)).1 [request]).1,
      (body.drain (Body.perform .next (body.settled b i)).1 [request]).2, ?_, drain_rests hrests request⟩
    simp only [Body.input, hs, Body.answer, Option.map_some, Option.toList_some, List.singleton_append]

variable (body) in
theorem Rests.input (h : g.Rests) (i : I) : body.input i g = (g, []) := by
  unfold Body.input
  split
  · rename_i b request hstatus
    exact absurd hstatus (h.2 b request)
  · rfl

end Generator

end Kross.AsyncGenerator

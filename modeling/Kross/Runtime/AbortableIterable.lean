import Kross.AsyncGenerator
import Kross.Run
import Mathlib.Data.List.Induction

namespace Kross.Runtime.Abortable

open AsyncGenerator

variable {B I V E : Type*}

inductive Failure (E : Type*)
  | aborted
  | idle
  | source (e : E)

/-- How the loop of the wrapper is left. -/
inductive Ending (E : Type*)
  | done
  | returned
  | failed (failure : Failure E)

/-- `racing` awaits `raceAbort`, and `closing` the `return()` of the source in the `finally`. -/
inductive Phase (V E : Type*)
  | start
  | racing
  | yielded (v : V)
  | closing (ending : Ending E)
  | finished (ending : Ending E)

/-- Whether there is a signal and an idle time. -/
structure Options where
  signal : Bool
  idleMs : Bool

structure State (B V E : Type*) where
  phase : Phase V E
  aborted : Bool
  source : Generator B

/-- `consumerNext` and `consumerReturn` are what a `for await` does; `input` settles what the
body of the source awaits. -/
inductive Event (I : Type*)
  | consumerNext
  | consumerReturn
  | abort
  | idle
  | input (i : I)

namespace State

def initial : State B V E := ⟨.start, false, ⟨.suspendedStart, []⟩⟩

variable (body : Body B I V E)

def returned (answers : List (Request × Settlement V E)) : Bool := answers.any (fun a => a.1 = .ret)

/-- The `finally` of the wrapper -/
def close (ending : Ending E) (s : State B V E) : State B V E :=
  let asked := body.enqueue .ret s.source
  { s with
    source := asked.1
    phase := if returned asked.2 then .finished ending else .closing ending }

def nextAnswer (answers : List (Request × Settlement V E)) : Option (Settlement V E) :=
  (answers.find? (fun a => a.1 = .next)).map Prod.snd

/-- The source has gone on and settled the promises of `answers`. -/
def receive (s : State B V E) (after : Generator B × List (Request × Settlement V E)) : State B V E :=
  let s := { s with source := after.1 }
  match s.phase with
  | .racing => match nextAnswer after.2 with
    | some (.value v) => { s with phase := .yielded v }
    | some .done => s.close body .done
    | some (.error e) => s.close body (.failed (.source e))
    | none => s
  | .closing ending => { s with phase := if returned after.2 then .finished ending else .closing ending }
  | _ => s

def advance (s : State B V E) : State B V E :=
  if s.aborted then s.close body (.failed .aborted)
  else { s with phase := .racing }.receive body (body.enqueue .next s.source)

def consumerNext (s : State B V E) : State B V E :=
  match s.phase with
  | .start | .yielded _ => s.advance body
  | _ => s

def consumerReturn (s : State B V E) : State B V E :=
  match s.phase with
  | .start => { s with phase := .finished .returned }
  | .yielded _ => s.close body .returned
  | _ => s

/-- The race is lost to the abort or to the idle timer. -/
def fire (failure : Failure E) (s : State B V E) : State B V E :=
  match s.phase with
  | .racing => s.close body (.failed failure)
  | _ => s

end State

variable (body : Body B I V E) (options : Options)

def next (s : State B V E) : Event I → State B V E
  | .consumerNext => s.consumerNext body
  | .consumerReturn => s.consumerReturn body
  | .abort => if options.signal then { s with aborted := true }.fire body .aborted else s
  | .idle => if options.idleMs then s.fire body .idle else s
  | .input i => s.receive body (body.input i s.source)

/-- The abort or the idle time has ended the race, and the rejection waits for a `next()` of
the source that is not settled. -/
def Waits (s : State B V E) : Prop :=
  (s.phase = .closing (.failed .aborted) ∨ s.phase = .closing (.failed .idle)) ∧ s.source.PendingNext

/-- Neither the abort nor the idle time comes while the source has a `next()` to settle. -/
def Unraced (s : State B V E) (event : Event I) : Prop :=
  event = .abort ∧ options.signal = true ∨ event = .idle ∧ options.idleMs = true → s.phase ≠ .racing

/-- What the source is doing in each phase of the wrapper. -/
def Sound (s : State B V E) : Prop :=
  match s.phase with
  | .start | .yielded _ => s.source.Rests
  | .racing => s.source.Runs .next
  | .closing ending => s.source.Runs .ret ∨
      (ending = .failed .aborted ∨ ending = .failed .idle) ∧ ∃ b, s.source = ⟨.executing b .next, [.ret]⟩
  | .finished _ => True

section Steps

variable {body : Body B I V E} {options : Options} {s : State B V E} {ending : Ending E} {event : Event I}

theorem close_rests (h : s.source.Rests) : Sound (s.close body ending) ∧ ¬ Waits (s.close body ending) := by
  rcases h.enqueue body .ret with ⟨hruns, hnone⟩ | ⟨-, answer, hsome⟩
  · have hphase : (s.close body ending).phase = .closing ending := by
      rw [State.close, hnone]
      rfl
    refine ⟨?_, fun hw => ?_⟩
    · rw [Sound, hphase]
      exact .inl hruns
    · cases hruns.pendingNext_iff.mp hw.2
  · have hphase : (s.close body ending).phase = .finished ending := by
      rw [State.close, hsome]
      rfl
    refine ⟨?_, fun hw => ?_⟩
    · rw [Sound, hphase]
      trivial
    · rw [Waits, hphase] at hw
      rcases hw.1 with h | h <;> cases h

/-- The `return()` stands behind the `next()` that has lost the race. -/
theorem close_runs (h : s.source.Runs .next) (hfired : ending = .failed .aborted ∨ ending = .failed .idle) :
    Sound (s.close body ending) ∧ Waits (s.close body ending) := by
  obtain ⟨b, hb⟩ := h.enqueue body .ret
  have hphase : (s.close body ending).phase = .closing ending := by
    rw [State.close, hb]
    rfl
  have hsource : (s.close body ending).source = ⟨.executing b .next, [.ret]⟩ := by rw [State.close, hb]
  constructor
  · rw [Sound, hphase, hsource]
    exact .inr ⟨hfired, b, rfl⟩
  · refine ⟨?_, ?_⟩
    · rw [hphase]
      exact hfired.imp (congrArg _) (congrArg _)
    · rw [hsource]
      exact .inl ⟨b, rfl⟩

theorem receive_racing {after : Generator B × List (Request × Settlement V E)} (hphase : s.phase = .racing)
    (h : Generator.Answers .next after) : Sound (s.receive body after) ∧ ¬ Waits (s.receive body after) := by
  rcases h with ⟨hruns, hnone⟩ | ⟨hrests, answer, hsome⟩
  · have heq : s.receive body after = { s with source := after.1 } := by
      simp only [State.receive, hphase, hnone]
      rfl
    rw [heq]
    refine ⟨?_, fun hw => ?_⟩
    · simpa only [Sound, hphase] using hruns
    · have hclosing := hw.1
      simp [hphase] at hclosing
  · have hfind : State.nextAnswer after.2 = some answer := by
      rw [hsome]
      rfl
    cases answer with
    | value v =>
        have heq : s.receive body after = { s with source := after.1, phase := .yielded v } := by
          simp only [State.receive, hphase, hfind]
        rw [heq]
        exact ⟨hrests, fun hw => hrests.not_pendingNext hw.2⟩
    | done =>
        have heq : s.receive body after = { s with source := after.1 }.close body .done := by
          simp only [State.receive, hphase, hfind]
        rw [heq]
        exact close_rests hrests
    | error e =>
        have heq : s.receive body after = { s with source := after.1 }.close body (.failed (.source e)) := by
          simp only [State.receive, hphase, hfind]
        rw [heq]
        exact close_rests hrests

theorem advance_rests (h : s.source.Rests) : Sound (s.advance body) ∧ ¬ Waits (s.advance body) := by
  unfold State.advance
  split_ifs
  · exact close_rests h
  · exact receive_racing rfl (h.enqueue body .next)

theorem sound_initial : Sound (State.initial : State B V E) := ⟨rfl, nofun⟩

/-- Once the wrapper waits for its `return()`, only the source can end that. -/
theorem receive_closing {after : Generator B × List (Request × Settlement V E)} (hphase : s.phase = .closing ending) :
    s.receive body after = { s with
      source := after.1
      phase := if State.returned after.2 then .finished ending else .closing ending } := by
  simp only [State.receive, hphase]

theorem sound_closing (h : Sound s) (hphase : s.phase = .closing ending) (i : I) :
    Sound (s.receive body (body.input i s.source)) := by
  have hsource := h
  rw [Sound, hphase] at hsource
  rw [receive_closing hphase]
  rcases hsource with hruns | ⟨hfired, b, hb⟩
  · rcases hruns.input body i with ⟨hruns, hnone⟩ | ⟨-, answer, hsome⟩
    · rw [hnone]
      exact .inl hruns
    · rw [hsome]
      trivial
  · rw [hb]
    rcases Generator.queued_input body b .ret i with
      ⟨b', heq⟩ | ⟨answer, g, answers, heq, ⟨hruns, hnone⟩ | ⟨-, answer', hsome⟩⟩
    · rw [heq]
      exact .inr ⟨hfired, b', rfl⟩
    · obtain rfl : answers = [] := hnone
      rw [heq]
      exact .inl hruns
    · obtain rfl : answers = [(.ret, answer')] := hsome
      rw [heq]
      trivial

theorem consumerNext_sound (h : Sound s) : Sound (s.consumerNext body) ∧ (¬ Waits s → ¬ Waits (s.consumerNext body)) := by
  unfold State.consumerNext
  split
  · rename_i hphase
    rw [Sound, hphase] at h
    exact ⟨(advance_rests h).1, fun _ => (advance_rests h).2⟩
  · rename_i hphase
    rw [Sound, hphase] at h
    exact ⟨(advance_rests h).1, fun _ => (advance_rests h).2⟩
  · exact ⟨h, id⟩

theorem consumerReturn_sound (h : Sound s) :
    Sound (s.consumerReturn body) ∧ (¬ Waits s → ¬ Waits (s.consumerReturn body)) := by
  unfold State.consumerReturn
  split
  · refine ⟨trivial, fun _ => ?_⟩
    rintro ⟨hphase | hphase, -⟩ <;> cases hphase
  · rename_i hphase
    rw [Sound, hphase] at h
    exact ⟨(close_rests h).1, fun _ => (close_rests h).2⟩
  · exact ⟨h, id⟩

theorem fire_sound (h : Sound s) {failure : Failure E} (hf : failure = .aborted ∨ failure = .idle) :
    Sound (s.fire body failure) := by
  unfold State.fire
  split
  · rename_i hphase
    rw [Sound, hphase] at h
    exact (close_runs h (hf.imp (congrArg _) (congrArg _))).1
  · exact h

theorem fire_unraced {failure : Failure E} (h : s.phase ≠ .racing) : s.fire body failure = s := by
  unfold State.fire
  split
  · rename_i hphase
    exact absurd hphase h
  · rfl

theorem fire_waits (h : Sound s) (hphase : s.phase = .racing) {failure : Failure E}
    (hf : failure = .aborted ∨ failure = .idle) : Waits (s.fire body failure) := by
  rw [Sound, hphase] at h
  have heq : s.fire body failure = s.close body (.failed failure) := by
    simp only [State.fire, hphase]
  rw [heq]
  exact (close_runs h (hf.imp (congrArg _) (congrArg _))).2

theorem receive_start (hphase : s.phase = .start) : s.receive body (s.source, []) = s := by
  rcases s with ⟨phase, aborted, source⟩
  cases hphase
  rfl

theorem receive_yielded {v : V} (hphase : s.phase = .yielded v) : s.receive body (s.source, []) = s := by
  rcases s with ⟨phase, aborted, source⟩
  cases hphase
  rfl

theorem receive_sound (h : Sound s) (i : I) : Sound (s.receive body (body.input i s.source)) := by
  have hsource := h
  cases hphase : s.phase with
  | start =>
      rw [Sound, hphase] at hsource
      rw [hsource.input body, receive_start hphase]
      exact h
  | yielded v =>
      rw [Sound, hphase] at hsource
      rw [hsource.input body, receive_yielded hphase]
      exact h
  | racing =>
      rw [Sound, hphase] at hsource
      exact (receive_racing hphase (hsource.input body i)).1
  | closing ending => exact sound_closing h hphase i
  | finished ending =>
      have hfinished : (s.receive body (body.input i s.source)).phase = .finished ending := by
        simp only [State.receive, hphase]
      rw [Sound, hfinished]
      trivial

theorem receive_not_waits (h : Sound s) (hw : ¬ Waits s) (i : I) : ¬ Waits (s.receive body (body.input i s.source)) := by
  have hsource := h
  cases hphase : s.phase with
  | start =>
      rw [Sound, hphase] at hsource
      rw [hsource.input body, receive_start hphase]
      exact hw
  | yielded v =>
      rw [Sound, hphase] at hsource
      rw [hsource.input body, receive_yielded hphase]
      exact hw
  | racing =>
      rw [Sound, hphase] at hsource
      exact (receive_racing hphase (hsource.input body i)).2
  | closing ending =>
      rw [Sound, hphase] at hsource
      rw [receive_closing hphase]
      rcases hsource with hruns | ⟨hfired, b, hb⟩
      · rcases hruns.input body i with ⟨hruns, -⟩ | ⟨hrests, -⟩
        · exact fun hw => absurd (hruns.pendingNext_iff.mp hw.2) nofun
        · exact fun hw => hrests.not_pendingNext hw.2
      · refine absurd ⟨?_, ?_⟩ hw
        · rw [hphase]
          exact hfired.imp (congrArg _) (congrArg _)
        · rw [hb]
          exact .inl ⟨b, rfl⟩
  | finished ending =>
      have hfinished : (s.receive body (body.input i s.source)).phase = .finished ending := by
        simp only [State.receive, hphase]
      rintro ⟨hclosing | hclosing, -⟩ <;> rw [hfinished] at hclosing <;> cases hclosing

theorem Sound.abort (h : Sound s) : Sound { s with aborted := true } := h

theorem sound_next (h : Sound s) (event : Event I) : Sound (next body options s event) := by
  cases event with
  | consumerNext => exact (consumerNext_sound h).1
  | consumerReturn => exact (consumerReturn_sound h).1
  | abort =>
      rw [next]
      split_ifs
      · exact fire_sound h.abort (.inl rfl)
      · exact h
  | idle =>
      rw [next]
      split_ifs
      · exact fire_sound h (.inr rfl)
      · exact h
  | input i => exact receive_sound h i

/-- A rejection that does not wait for the source does not come to do so by itself. -/
theorem not_waits_next (h : Sound s) (hw : ¬ Waits s) (hu : Unraced options s event) :
    ¬ Waits (next body options s event) := by
  cases event with
  | consumerNext => exact (consumerNext_sound h).2 hw
  | consumerReturn => exact (consumerReturn_sound h).2 hw
  | abort =>
      rw [next]
      split_ifs with hsignal
      · have hphase : ({ s with aborted := true } : State B V E).phase ≠ .racing := hu (.inl ⟨rfl, hsignal⟩)
        rw [fire_unraced hphase]
        exact hw
      · exact hw
  | idle =>
      rw [next]
      split_ifs with hidle
      · rw [fire_unraced (hu (.inr ⟨rfl, hidle⟩))]
        exact hw
      · exact hw
  | input i => exact receive_not_waits h hw i

/-- Whatever ends the race while the source runs makes the rejection wait for it. -/
theorem waits_next (h : Sound s) (hu : ¬ Unraced options s event) : Waits (next body options s event) := by
  rw [Unraced, Classical.not_imp, not_not] at hu
  obtain ⟨⟨rfl, hsignal⟩ | ⟨rfl, hidle⟩, hphase⟩ := hu
  · rw [next, if_pos hsignal]
    exact fire_waits h.abort hphase (.inl rfl)
  · rw [next, if_pos hidle]
    exact fire_waits h hphase (.inr rfl)

end Steps

section Sse

structure SseEvent where
  event : Option String
  data : String
  deriving DecidableEq

/-- What `reader.read()` is settled with: the events that a chunk completes, or those that
the end of the stream does. -/
inductive Read (E : Type*)
  | chunk (events : List SseEvent)
  | finished (events : List SseEvent)
  | error (e : E)

/-- The events of `drainEvents` that are not yielded, and whether the loop is over. -/
structure Drained where
  events : List SseEvent
  done : Bool

def Drained.yieldNext (d : Drained) : Drained × Action SseEvent E :=
  match d.events with
  | event :: events => (⟨events, d.done⟩, .yields event)
  | [] => (d, if d.done then .returns else .awaits)

/-- `parseSse` of a response with a body. It has no `finally` that a `return()` would run. -/
def parseSse : Body Drained (Read E) SseEvent E where
  begin := (⟨[], false⟩, .awaits)
  resume d
    | .next => d.yieldNext
    | .ret => (d, .returns)
  settled d
    | .chunk events => Drained.yieldNext ⟨events, false⟩
    | .finished events => Drained.yieldNext ⟨events, true⟩
    | .error e => (d, .throws e)

/-- The options of the streams of both clients. -/
def llmStream : Options := ⟨true, true⟩

/-- A stream whose connection is silent from some moment on. -/
def Silent (events : List (Event (Read E))) : Prop := ∀ event ∈ events, ∀ i, event ≠ .input i

theorem silent_closing {s : State Drained SseEvent E} {ending : Ending E} {events : List (Event (Read E))}
    (hphase : s.phase = .closing ending) (h : Silent events) :
    (Run.after (next parseSse llmStream) s events).phase = .closing ending := by
  induction events generalizing s with
  | nil => exact hphase
  | cons event events ih =>
      rw [Run.after_cons]
      refine ih ?_ (fun e he => h e (List.mem_cons_of_mem _ he))
      cases event with
      | input i => exact absurd rfl (h _ List.mem_cons_self i)
      | _ => simp [next, State.consumerNext, State.consumerReturn, State.fire, llmStream, hphase]

end Sse

/-- Of a source that is an async generator, the rejection is in no state of a run kept waiting
for a pending `next()` if and only if the abort and the idle time never came during one. -/
theorem prompt_iff (body : Body B I V E) (options : Options) (events : List (Event I)) :
    (∀ before rest, events = before ++ rest → ¬ Waits (Run.after (next body options) .initial before)) ↔
      Run.Along (next body options) (Unraced options) .initial events := by
  have hsound : ∀ before, Sound (Run.after (next body options) .initial before) := fun before =>
    Run.keeps (I := Sound) (fun _ event h => sound_next h event) sound_initial before
  constructor
  · intro h before event rest heq
    by_contra hu
    refine h (before ++ [event]) rest (by simp [heq]) ?_
    rw [Run.after_concat]
    exact waits_next (hsound before) hu
  · intro h before rest heq
    subst heq
    have hstart : ¬ Waits (State.initial : State B V E) := by
      rintro ⟨hphase | hphase, -⟩ <;> cases hphase
    have hboth := (Run.along_append.mp h).1.keeps (I := fun s => Sound s ∧ ¬ Waits s)
      (fun _ event hu hs => ⟨sound_next hs.1 event, not_waits_next hs.1 hs.2 hu⟩) ⟨sound_initial, hstart⟩
    exact hboth.2

/-- The connection is silent from the first read on. The idle time passes, and yet no event
that follows reports the stream as failed. -/
theorem silent_connection_hangs :
    Waits (Run.after (next (parseSse : Body Drained (Read Unit) SseEvent Unit) llmStream) .initial [.consumerNext, .idle]) ∧
      ∀ events : List (Event (Read Unit)), Silent events → ∀ ending,
        (Run.after (next parseSse llmStream) .initial (.consumerNext :: .idle :: events)).phase ≠ .finished ending := by
  refine ⟨⟨.inr rfl, .inl ⟨_, rfl⟩⟩, ?_⟩
  intro events hsilent ending
  have hclosing : (Run.after (next parseSse llmStream) .initial (.consumerNext :: .idle :: events)).phase =
      .closing (.failed .idle) :=
    silent_closing (s := next parseSse llmStream (next parseSse llmStream .initial .consumerNext) .idle) rfl hsilent
  rw [hclosing]
  nofun

end Kross.Runtime.Abortable

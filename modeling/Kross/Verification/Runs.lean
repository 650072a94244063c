import Kross.Past
import Kross.Verification.Report

namespace Kross.Verification

open Kross.Past Kross.Trace

section Runs

variable (platform : Platform) (known : Text → Option Text)

/-- The event records the start of a recognized command. -/
def Starts (start : CommandStart) (before : List TraceEvent) (event : TraceEvent) : Prop :=
  event.type = "tool_call.started" ∧ commandStartFromEvent platform event before.length known = some start

def Started (start : CommandStart) (trace : List TraceEvent) : Prop :=
  Once (Starts platform known start) trace

/-- The tool whose call the event closes. -/
def closedTool (event : TraceEvent) : Option CommandTool :=
  if isTerminal event then event.toolName.bind CommandTool.ofName else none

/-- The process that a completed start of a background command gives an id. -/
def startsProcess (event : TraceEvent) : Bool :=
  closedTool event = some .processStart && event.type = "tool_call.completed"

def Closes (start : CommandStart) (before : List TraceEvent) (event : TraceEvent) : Prop :=
  Started platform known start before ∧ (closedTool event).isSome ∧ event.callId = start.callId

def Launches (processId : String) (start : CommandStart) (before : List TraceEvent)
    (event : TraceEvent) : Prop :=
  Closes platform known start before event ∧ startsProcess event ∧
    asString (event.data.bind (·.get "processId")) = some processId

/-- The process was launched for the start; since then no poll has found it
ended and no other start was given its id. -/
def Running (processId : String) (start : CommandStart) (trace : List TraceEvent) : Prop :=
  Since (Launches platform known processId start)
    (fun before event => Collected.terminalPoll event = some processId ∨
      ∃ other, Launches platform known processId other before event) trace

/-- The event is the end of a run: of a call, or of the background process that
a call has started. -/
def Ends (outcome : CommandOutcome) (before : List TraceEvent) (event : TraceEvent) : Prop :=
  (∃ start, Closes platform known start before event ∧ startsProcess event = false ∧
    outcome = outcomeFromEvent start event before.length) ∨
  ∃ start processId, Collected.terminalPoll event = some processId ∧
    Running platform known processId start before ∧ outcome = polledOutcome start event before.length

def Finished (outcome : CommandOutcome) (trace : List TraceEvent) : Prop :=
  Once (Ends platform known outcome) trace

end Runs

/-- Every tool call carries an id, and no two starts carry the same. -/
structure UniqueCallIds (trace : List TraceEvent) : Prop where
  present : ∀ event ∈ trace, event.type = "tool_call.started" ∨ isTerminal event = true → event.callId ≠ none
  distinct : trace.Pairwise (fun event other => event.type = "tool_call.started" →
    other.type = "tool_call.started" → event.callId ≠ other.callId)

section Pairing

variable {platform : Platform} {known : Text → Option Text} {trace : List TraceEvent} {event : TraceEvent}
  {start : CommandStart} {outcome : CommandOutcome} {processId : String} {collected : Collected}

theorem UniqueCallIds.init (h : UniqueCallIds (trace ++ [event])) : UniqueCallIds trace :=
  ⟨fun e he => h.present e (List.mem_append_left _ he), (List.pairwise_append.mp h.distinct).1⟩

theorem commandStart_fields {i : Nat} (h : commandStartFromEvent platform event i known = some start) :
    start.callId = event.callId ∧ start.eventIndex = i := by
  simp only [commandStartFromEvent, Option.bind_eq_bind, Option.bind_eq_some_iff, Option.pure_def] at h
  obtain ⟨toolName, -, label, -, fingerprint, -, h⟩ := h
  cases h
  exact ⟨rfl, rfl⟩

theorem started_concat : Started platform known start (trace ++ [event]) ↔
    Started platform known start trace ∨ Starts platform known start trace event := once_concat

theorem Started.recorded (h : Started platform known start trace) :
    ∃ event ∈ trace, event.type = "tool_call.started" ∧ event.callId = start.callId := by
  obtain ⟨before, event, after, rfl, ht, hs⟩ := h
  exact ⟨event, by simp, ht, (commandStart_fields hs).1.symm⟩

theorem Started.index (h : Started platform known start trace) : start.eventIndex < trace.length := by
  obtain ⟨before, event, after, rfl, -, hs⟩ := h
  rw [(commandStart_fields hs).2]
  simp

theorem Started.callId_ne (h : Started platform known start trace) (hu : UniqueCallIds trace) :
    start.callId ≠ none := by
  obtain ⟨event, he, ht, hc⟩ := h.recorded
  rw [← hc]
  exact hu.present event he (Or.inl ht)

/-- A call id stands for one start. -/
theorem Started.unique {other : CommandStart} (h : Started platform known start trace)
    (h' : Started platform known other trace) (hu : UniqueCallIds trace)
    (hc : start.callId = other.callId) : start = other := by
  induction trace using List.reverseRecOn with
  | nil => exact absurd h not_once_nil
  | append_singleton trace event ih =>
      have hdistinct := (List.pairwise_append.mp hu.distinct).2.2
      rcases started_concat.mp h with h | h <;> rcases started_concat.mp h' with h' | h'
      · exact ih h h' hu.init
      · obtain ⟨e, he, ht, hce⟩ := h.recorded
        refine absurd ?_ (hdistinct e he event List.mem_cons_self ht h'.1)
        rw [hce, hc, (commandStart_fields h'.2).1]
      · obtain ⟨e, he, ht, hce⟩ := h'.recorded
        refine absurd ?_ (hdistinct e he event List.mem_cons_self ht h.1)
        rw [hce, ← hc, (commandStart_fields h.2).1]
      · exact Option.some.inj (h.2.symm.trans h'.2)

theorem terminalPoll_some (h : Collected.terminalPoll event = some processId) :
    event.type = "tool_call.completed" ∧ event.toolName = some "ProcessPoll" := by
  simp only [Collected.terminalPoll] at h
  split_ifs at h with hp
  simp only [Bool.and_eq_true, decide_eq_true_eq] at hp
  exact ⟨hp.1.2, hp.1.1⟩

theorem closedTool_terminalPoll (h : Collected.terminalPoll event = some processId) : closedTool event = none := by
  rw [closedTool, (terminalPoll_some h).2]
  split_ifs <;> rfl

theorem closedTool_started (h : event.type = "tool_call.started") : closedTool event = none := by
  simp [closedTool, isTerminal, h]

theorem startsProcess_closed (h : startsProcess event = true) : closedTool event = some .processStart := by
  simp only [startsProcess, Bool.and_eq_true, decide_eq_true_eq] at h
  exact h.1

/-- What `collect` knows of a trace. -/
structure Paired (platform : Platform) (known : Text → Option Text) (trace : List TraceEvent)
    (collected : Collected) : Prop where
  started : ∀ id start, collected.startedByCallId id = some start ↔
    Started platform known start trace ∧ start.callId = some id
  processes : ∀ id start, collected.processCommands id = some start ↔
    Running platform known id start trace
  outcomes : ∀ outcome, outcome ∈ collected.outcomes ↔ Finished platform known outcome trace
  ordered : collected.outcomes.Pairwise (fun o o' => o.completedEventIndex < o'.completedEventIndex)
  starts : ∀ start, start ∈ collected.allStarts ↔ Started platform known start trace

theorem running_concat : Running platform known processId start (trace ++ [event]) ↔
    Launches platform known processId start trace event ∨
      Running platform known processId start trace ∧
        ¬(Collected.terminalPoll event = some processId ∨
          ∃ other, Launches platform known processId other trace event) := since_concat

theorem finished_concat : Finished platform known outcome (trace ++ [event]) ↔
    Finished platform known outcome trace ∨ Ends platform known outcome trace event := once_concat

theorem Ends.index (h : Ends platform known outcome trace event) :
    outcome.completedEventIndex = trace.length := by
  rcases h with ⟨start, -, -, rfl⟩ | ⟨start, processId, -, -, rfl⟩ <;> rfl

theorem Finished.index (h : Finished platform known outcome trace) :
    outcome.completedEventIndex < trace.length := by
  obtain ⟨before, event, after, rfl, h⟩ := h
  rw [h.index]
  simp

theorem Paired.quiet (h : Paired platform known trace collected) (hs : ∀ start, ¬Starts platform known start trace event)
    (hl : ∀ id start, ¬Launches platform known id start trace event)
    (hp : ∀ id start, Collected.terminalPoll event = some id → ¬Running platform known id start trace)
    (he : ∀ outcome, ¬Ends platform known outcome trace event) :
    Paired platform known (trace ++ [event]) collected where
  started id start := by rw [h.started, started_concat, or_iff_left (hs start)]
  processes id start := by
    rw [h.processes, running_concat, or_iff_right (hl id start)]
    exact ⟨fun hr => ⟨hr, fun hq => hq.elim (hp id start · hr) (fun ⟨other, ho⟩ => hl id other ho)⟩, And.left⟩
  outcomes outcome := by rw [h.outcomes, finished_concat, or_iff_left (he outcome)]
  ordered := h.ordered
  starts start := by rw [h.starts, started_concat, or_iff_left (hs start)]

theorem closes_start (hc : closedTool event ≠ none) (h : Started platform known start trace)
    (hid : event.callId = start.callId) : Closes platform known start trace event :=
  ⟨h, Option.isSome_iff_ne_none.mpr hc, hid⟩

theorem not_closes (hc : closedTool event = none) : ¬Closes platform known start trace event := by
  rintro ⟨-, h, -⟩
  rw [hc] at h
  cases h

theorem paired_started (h : Paired platform known trace collected) (hu : UniqueCallIds (trace ++ [event]))
    (hs : Starts platform known start trace event) :
    Paired platform known (trace ++ [event]) (collected.started start) := by
  have hstart : Started platform known start (trace ++ [event]) := started_concat.mpr (Or.inr hs)
  obtain ⟨id, hid⟩ := Option.ne_none_iff_exists'.mp (hstart.callId_ne hu)
  have hc := closedTool_started hs.1
  have hpoll (id : String) : Collected.terminalPoll event ≠ some id := by
    intro hp
    have ht := (terminalPoll_some hp).1
    rw [hs.1] at ht
    exact absurd ht (by decide)
  have hlaunch (id : String) (other : CommandStart) : ¬Launches platform known id other trace event :=
    fun hl => not_closes hc hl.1
  have hends (outcome : CommandOutcome) : ¬Ends platform known outcome trace event := by
    rintro (⟨other, ho, -⟩ | ⟨other, p, hp, -⟩)
    · exact not_closes hc ho
    · exact hpoll p hp
  have hsame (other : CommandStart) : Starts platform known other trace event ↔ other = start := by
    refine ⟨fun ho => Option.some.inj (ho.2.symm.trans hs.2), fun ho => ?_⟩
    rw [ho]
    exact hs
  simp only [Collected.started, hid]
  refine ⟨fun c other => ?_, fun p other => ?_, fun outcome => ?_, h.ordered, fun other => ?_⟩
  · rw [started_concat, hsame]
    simp only [Function.update_apply]
    split_ifs with hcid
    · rw [Option.some.injEq, eq_comm]
      constructor
      · rintro rfl
        exact ⟨Or.inr rfl, by rw [hid, hcid]⟩
      · rintro ⟨ho | ho, hoc⟩
        · have hold : Started platform known other (trace ++ [event]) := started_concat.mpr (Or.inl ho)
          exact hold.unique hstart hu (by rw [hoc, hid, hcid])
        · exact ho
    · rw [h.started]
      refine ⟨fun ho => ⟨Or.inl ho.1, ho.2⟩, ?_⟩
      rintro ⟨ho | rfl, hoc⟩
      · exact ⟨ho, hoc⟩
      · exact absurd (Option.some.inj (hoc.symm.trans hid)) hcid
  · rw [h.processes, running_concat, or_iff_right (hlaunch p other)]
    refine ⟨fun hr => ⟨hr, ?_⟩, And.left⟩
    rintro (hp | ⟨o, ho⟩)
    · exact hpoll p hp
    · exact hlaunch p o ho
  · rw [h.outcomes, finished_concat, or_iff_left (hends outcome)]
  · rw [List.mem_append, List.mem_singleton, started_concat, hsame, h.starts]

theorem paired_closed (h : Paired platform known trace collected) (hu : UniqueCallIds (trace ++ [event]))
    {toolName : CommandTool} (hc : closedTool event = some toolName) :
    Paired platform known (trace ++ [event]) (collected.ended event trace.length toolName) := by
  have hterminal : isTerminal event = true := by
    by_contra hn
    simp [closedTool, hn] at hc
  have hstarts (other : CommandStart) : ¬Starts platform known other trace event := by
    intro hs
    rw [closedTool_started hs.1] at hc
    cases hc
  have hpoll (id : String) : Collected.terminalPoll event ≠ some id := by
    intro hp
    rw [closedTool_terminalPoll hp] at hc
    cases hc
  obtain ⟨id, hid⟩ := Option.ne_none_iff_exists'.mp (hu.present event (by simp) (Or.inr hterminal))
  simp only [Collected.ended, Collected.takeStart, hid]
  cases hstart : collected.startedByCallId id with
  | none =>
      have hno (other : CommandStart) : ¬Closes platform known other trace event := by
        rintro ⟨ho, -, hoc⟩
        rw [(h.started id other).mpr ⟨ho, hoc.symm.trans hid⟩] at hstart
        cases hstart
      refine h.quiet hstarts (fun _ _ hl => hno _ hl.1) (fun _ _ hp => absurd hp (hpoll _)) ?_
      rintro outcome (⟨other, ho, -⟩ | ⟨other, p, hp, -⟩)
      · exact hno other ho
      · exact hpoll p hp
  | some start =>
      obtain ⟨hstarted, hsid⟩ := (h.started id start).mp hstart
      have hcloses := closes_start (by rw [hc]; rintro ⟨⟩) hstarted (hid.trans hsid.symm)
      have hsame (other : CommandStart) : Closes platform known other trace event ↔ other = start := by
        refine ⟨fun ho => ?_, fun ho => ho ▸ hcloses⟩
        exact ho.1.unique hstarted hu.init (ho.2.2.symm.trans (hid.trans hsid.symm))
      have hlaunches (p : String) (other : CommandStart) : Launches platform known p other trace event ↔
          other = start ∧ startsProcess event = true ∧
            asString (event.data.bind (·.get "processId")) = some p := by
        rw [Launches, hsame]
      have hends (outcome : CommandOutcome) : Ends platform known outcome trace event ↔
          startsProcess event = false ∧ outcome = outcomeFromEvent start event trace.length := by
        refine ⟨?_, fun ho => Or.inl ⟨start, hcloses, ho⟩⟩
        rintro (⟨other, ho, hs, rfl⟩ | ⟨other, p, hp, -⟩)
        · exact ⟨hs, by rw [(hsame other).mp ho]⟩
        · exact absurd hp (hpoll p)
      have hb : startsProcess event = (decide (toolName = .processStart) && decide (event.type = "tool_call.completed")) := by
        rw [startsProcess, hc]
        simp
      simp only [← hb]
      cases hs : startsProcess event with
      | true =>
          have hnone (outcome : CommandOutcome) : ¬Ends platform known outcome trace event := by
            rw [hends, hs]
            rintro ⟨h, -⟩
            cases h
          cases hp : asString (event.data.bind (·.get "processId")) with
          | none =>
              refine h.quiet hstarts (fun p other hl => ?_) (fun _ _ hq => absurd hq (hpoll _)) hnone
              rw [hlaunches, hp] at hl
              cases hl.2.2
          | some p =>
              refine ⟨fun c other => ?_, fun q other => ?_, fun outcome => ?_, h.ordered, fun other => ?_⟩
              · rw [if_pos rfl, h.started, started_concat, or_iff_left (hstarts other)]
              · rw [if_pos rfl]
                simp only [Function.update_apply, running_concat, hlaunches, hs, hp, true_and, Option.some.injEq]
                split_ifs with hq
                · subst hq
                  simp [eq_comm]
                · simp [h.processes, hpoll, Ne.symm hq]
              · rw [if_pos rfl, h.outcomes, finished_concat, or_iff_left (hnone outcome)]
              · rw [if_pos rfl, h.starts, started_concat, or_iff_left (hstarts other)]
      | false =>
          have hno (p : String) (other : CommandStart) : ¬Launches platform known p other trace event := by
            rw [hlaunches, hs]
            exact fun hl => by cases hl.2.1
          refine ⟨fun c other => ?_, fun q other => ?_, fun outcome => ?_, ?_, fun other => ?_⟩
          · rw [if_neg (by rintro ⟨⟩), h.started, started_concat, or_iff_left (hstarts other)]
          · rw [if_neg (by rintro ⟨⟩), h.processes, running_concat, or_iff_right (hno q other)]
            refine ⟨fun hr => ⟨hr, ?_⟩, And.left⟩
            rintro (hp | ⟨o, ho⟩)
            · exact hpoll q hp
            · exact hno q o ho
          · simp only [if_neg, Bool.false_eq_true, not_false_eq_true, List.mem_append, List.mem_singleton,
              finished_concat, hends, hs, true_and, h.outcomes]
          · simp only [if_neg, Bool.false_eq_true, not_false_eq_true, List.pairwise_append]
            refine ⟨h.ordered, List.pairwise_singleton _ _, fun o ho o' ho' => ?_⟩
            rw [List.mem_singleton.mp ho']
            exact ((h.outcomes o).mp ho).index
          · rw [if_neg (by rintro ⟨⟩), h.starts, started_concat, or_iff_left (hstarts other)]

theorem paired_polled (h : Paired platform known trace collected)
    (hp : Collected.terminalPoll event = some processId) :
    Paired platform known (trace ++ [event]) (collected.polled event trace.length processId) := by
  have hc := closedTool_terminalPoll hp
  have hstarts (other : CommandStart) : ¬Starts platform known other trace event := by
    intro hs
    have ht := (terminalPoll_some hp).1
    rw [hs.1] at ht
    exact absurd ht (by decide)
  have hlaunch (id : String) (other : CommandStart) : ¬Launches platform known id other trace event :=
    fun hl => not_closes hc hl.1
  have hends (outcome : CommandOutcome) : Ends platform known outcome trace event ↔
      ∃ start, Running platform known processId start trace ∧
        outcome = polledOutcome start event trace.length := by
    constructor
    · rintro (⟨other, ho, -⟩ | ⟨other, p, hq, hr, he⟩)
      · exact absurd ho (not_closes hc)
      · cases hp.symm.trans hq
        exact ⟨other, hr, he⟩
    · rintro ⟨start, hr, he⟩
      exact Or.inr ⟨start, processId, hp, hr, he⟩
  simp only [Collected.polled]
  cases hstart : collected.processCommands processId with
  | none =>
      have hno (other : CommandStart) : ¬Running platform known processId other trace := by
        rw [← h.processes, hstart]
        exact nofun
      refine h.quiet hstarts hlaunch (fun q other hq => ?_) (fun outcome ho => ?_)
      · cases hp.symm.trans hq
        exact hno other
      · obtain ⟨other, hr, -⟩ := (hends outcome).mp ho
        exact hno other hr
  | some start =>
      have hsame (other : CommandStart) : Running platform known processId other trace ↔ other = start := by
        rw [← h.processes, hstart, Option.some.injEq, eq_comm]
      refine ⟨fun c other => ?_, fun q other => ?_, fun outcome => ?_, ?_, fun other => ?_⟩
      · rw [h.started, started_concat, or_iff_left (hstarts other)]
      · rw [running_concat, or_iff_right (hlaunch q other)]
        simp only [Function.update_apply, hp, Option.some.injEq]
        split_ifs with hq
        · simp [hq]
        · simp [h.processes, Ne.symm hq, hlaunch]
      · rw [finished_concat, hends, ← h.outcomes, List.mem_append, List.mem_singleton]
        simp only [hsame, exists_eq_left]
      · simp only [List.pairwise_append]
        refine ⟨h.ordered, List.pairwise_singleton _ _, fun o ho o' ho' => ?_⟩
        rw [List.mem_singleton.mp ho']
        exact ((h.outcomes o).mp ho).index
      · rw [h.starts, started_concat, or_iff_left (hstarts other)]

theorem paired_step (h : Paired platform known trace collected) (hu : UniqueCallIds (trace ++ [event])) :
    Paired platform known (trace ++ [event]) (collected.step platform known (event, trace.length)) := by
  simp only [Collected.step]
  split_ifs with ht hterminal
  · have hquiet (hn : ∀ start, ¬Starts platform known start trace event) :
        Paired platform known (trace ++ [event]) collected := by
      have hc := closedTool_started ht
      refine h.quiet hn (fun _ _ hl => not_closes hc hl.1) (fun _ _ hp => ?_) ?_
      · have hp := (terminalPoll_some hp).1
        rw [ht] at hp
        exact absurd hp (by decide)
      · rintro outcome (⟨other, ho, -⟩ | ⟨other, p, hp, -⟩)
        · exact not_closes hc ho
        · have hp := (terminalPoll_some hp).1
          rw [ht] at hp
          exact absurd hp (by decide)
    split
    · rename_i start hs
      exact paired_started h hu ⟨ht, hs⟩
    · rename_i hs
      refine hquiet (fun start hstart => ?_)
      rw [hstart.2] at hs
      cases hs
  · have hstarts (start : CommandStart) : ¬Starts platform known start trace event := fun hs => ht hs.1
    split
    · rename_i toolName htool
      exact paired_closed h hu (by rw [closedTool, if_pos hterminal, htool])
    · rename_i htool
      have hc : closedTool event = none := by rw [closedTool, if_pos hterminal, htool]
      split
      · rename_i processId hp
        exact paired_polled h hp
      · rename_i hp
        refine h.quiet hstarts (fun _ _ hl => not_closes hc hl.1) (fun _ _ hq => ?_) ?_
        · rw [hp] at hq
          cases hq
        · rintro outcome (⟨other, ho, -⟩ | ⟨other, p, hq, -⟩)
          · exact not_closes hc ho
          · rw [hp] at hq
            cases hq
  · have hc : closedTool event = none := by rw [closedTool, if_neg hterminal]
    have hp (id : String) : Collected.terminalPoll event ≠ some id := by
      intro hp
      refine hterminal ?_
      simp [isTerminal, (terminalPoll_some hp).1]
    refine h.quiet (fun start hs => ht hs.1) (fun _ _ hl => not_closes hc hl.1)
      (fun _ _ hq => absurd hq (hp _)) ?_
    rintro outcome (⟨other, ho, -⟩ | ⟨other, p, hq, -⟩)
    · exact not_closes hc ho
    · exact hp p hq

/-- The starts and the ends that a report is made from are those of the trace. -/
theorem paired_collect (hu : UniqueCallIds trace) :
    Paired platform known trace (collect platform known trace) := by
  induction trace using List.reverseRecOn with
  | nil =>
      refine ⟨fun id start => ?_, fun id start => ?_, fun outcome => ?_, List.Pairwise.nil, fun start => ?_⟩
      · simp [collect, Collected.empty, Started, not_once_nil]
      · simp [collect, Collected.empty, Running, not_since_nil]
      · simp [collect, Collected.empty, Finished, not_once_nil]
      · simp [collect, Collected.empty, Started, not_once_nil]
  | append_singleton trace event ih =>
      have hstep := paired_step (ih hu.init) hu
      rw [collect] at hstep
      rw [collect, List.zipIdx_append, List.foldl_append]
      simpa using hstep

end Pairing

end Kross.Verification

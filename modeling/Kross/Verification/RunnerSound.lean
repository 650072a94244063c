import Kross.Modify
import Kross.Verification.Gate
import Kross.Verification.Runner

namespace Kross.Verification

open Kross.Json Kross.Modify Kross.Past Kross.Run Kross.Trace

section Calls

/-- What holds of a call as long as no signal ends the process of a Bash call. -/
structure CallSound (run : CallRun) : Prop where
  settled : ∀ code, run.phase = .settled (.resolved code) → run.ending = some (.exited code)
  recorded : ∀ code, run.recorded = some (.resolved code) → run.ending = some (.exited code)
  finished : run.recorded ≠ none → run.phase = .finished
  process : run.call.tool = .processStart →
    (∀ code, run.phase ≠ .settled (.resolved code)) ∧ ∀ code, run.recorded ≠ some (.resolved code)
  command : run.call.tool ≠ .processStart →
    run.handle = none ∧ run.phase ≠ .settled .started ∧ run.recorded ≠ some .started
  spawning : ∀ attempt overflown, run.phase = .running attempt overflown → run.handle = none
  closed : ∀ handle, run.handle = some handle → (handle.closed = true ↔ handle.status ≠ .running)
  exited : ∀ handle, run.handle = some handle → handle.status = .exited →
    ∀ code, handle.exitCode = some code → run.ending = some (.exited code)

/-- What a later state of a call keeps of an earlier one. -/
structure Follows (run run' : CallRun) : Prop where
  call : run'.call = run.call
  recorded : run.recorded ≠ none → run'.recorded = run.recorded
  handle : ∀ handle, run.handle = some handle → handle.closed = true → run'.handle = some handle

/-- A signal ends the process that a Bash call waits for. -/
def SignalEnds (run : CallRun) (happening : Happening) : Prop :=
  run.call.tool = .bash ∧ (∃ attempt overflown, run.phase = .running attempt overflown) ∧
    ∃ signal, happening = .ended (.signaled signal)

variable {run : CallRun} {happening : Happening}

theorem follows_refl (run : CallRun) : Follows run run := ⟨rfl, fun _ => rfl, fun _ h _ => h⟩

theorem resolved_exited {tool : CommandTool} {overflown : Bool} {ending : Ending} {code : Nat}
    (h : commandResult tool overflown ending = .resolved code) (hs : tool = .bash → ∃ c, ending = .exited c) :
    ending = .exited code := by
  rw [commandResult] at h
  split_ifs at h with hb
  · obtain ⟨c, rfl⟩ := hs hb
    cases h
    rfl
  · cases ending with
    | exited c =>
        simp only [verifyResult, Ending.code] at h
        split_ifs at h
        cases h
        rfl
    | signaled signal =>
        simp only [verifyResult, Ending.code] at h
        split_ifs at h

theorem commandResult_ne_started {tool : CommandTool} {overflown : Bool} {ending : Ending} :
    commandResult tool overflown ending ≠ .started := by
  cases ending <;> simp only [commandResult, bashResult, verifyResult, Ending.code] <;> split_ifs <;> exact nofun

theorem CallSound.unrecorded (h : CallSound run) (hover : run.phase ≠ .finished) : run.recorded = none := by
  by_contra hr
  exact hover (h.finished hr)

/-- A command goes to another phase, as long as its result is not written. -/
theorem callSound_moves (h : CallSound run) (hc : run.call.tool ≠ .processStart) (hover : run.phase ≠ .finished)
    (phase : Phase) (ending : Option Ending)
    (hp : ∀ code, phase = .settled (.resolved code) → ending = some (.exited code))
    (hstarted : phase ≠ .settled .started) :
    CallSound { run with phase := phase, ending := ending } ∧
      Follows run { run with phase := phase, ending := ending } := by
  have hr := h.unrecorded hover
  obtain ⟨hn, -, hns⟩ := h.command hc
  refine ⟨⟨hp, fun code he => ?_, fun he => absurd hr he, fun he => absurd he hc,
    fun _ => ⟨hn, hstarted, hns⟩, fun _ _ _ => hn, h.closed, fun handle he => ?_⟩, rfl, fun _ => rfl, fun _ he _ => he⟩
  · rw [hr] at he
    cases he
  · rw [hn] at he
    cases he

theorem callSound_command (h : CallSound run) (hc : run.call.tool ≠ .processStart)
    (hs : ¬SignalEnds run happening) :
    CallSound (run.commandHappens happening) ∧ Follows run (run.commandHappens happening) := by
  simp only [CallRun.commandHappens]
  split <;> rename_i hphase
  · exact callSound_moves h hc (by rw [hphase]; exact nofun) _ _ nofun nofun
  · exact callSound_moves h hc (by rw [hphase]; exact nofun) _ _ nofun nofun
  · exact callSound_moves h hc (by rw [hphase]; exact nofun) _ _ nofun nofun
  · split_ifs
    · exact callSound_moves h hc (by rw [hphase]; exact nofun) _ _ nofun nofun
    · exact callSound_moves h hc (by rw [hphase]; exact nofun) _ _ nofun nofun
  · rename_i attempt overflown ending
    refine callSound_moves h hc (by rw [hphase]; exact nofun) _ _ (fun code he => ?_) (fun he => ?_)
    · rw [resolved_exited (Phase.settled.inj he) (fun hb => ?_)]
      cases ending with
      | exited c => exact ⟨c, rfl⟩
      | signaled signal => exact absurd ⟨hb, ⟨attempt, overflown, hphase⟩, signal, rfl⟩ hs
    · exact commandResult_ne_started (Phase.settled.inj he)
  · exact callSound_moves h hc (by rw [hphase]; exact nofun) _ _ nofun nofun
  · exact callSound_moves h hc (by rw [hphase]; exact nofun) _ _ nofun nofun
  · exact callSound_moves h hc (by rw [hphase]; exact nofun) _ _ nofun nofun
  · exact ⟨h, follows_refl run⟩

/-- A start of a process goes to another phase that no exit code decides. -/
theorem callSound_starts (h : CallSound run) (hc : run.call.tool = .processStart) (hover : run.phase ≠ .finished)
    (result : Settled) (hp : ∀ code, result ≠ .resolved code) (handle : Option ManagedHandle)
    (hh : handle = run.handle ∨ run.handle = none ∧ handle = some ⟨.running, false, none, false⟩) :
    CallSound { run with phase := .settled result, handle := handle } ∧
      Follows run { run with phase := .settled result, handle := handle } := by
  have hr := h.unrecorded hover
  refine ⟨⟨fun code he => absurd (Phase.settled.inj he) (hp code), fun code he => ?_, fun he => absurd hr he,
    fun _ => ⟨fun code he => hp code (Phase.settled.inj he), (h.process hc).2⟩, fun he => absurd hc he,
    (fun _ _ he => nomatch he), ?_, ?_⟩, rfl, fun _ => rfl, ?_⟩
  · rw [hr] at he
    cases he
  all_goals
    rcases hh with rfl | ⟨hn, rfl⟩
  · exact h.closed
  · rintro _ ⟨⟩
    exact ⟨nofun, fun hne => absurd rfl hne⟩
  · exact h.exited
  · rintro _ ⟨⟩
    exact nofun
  · exact fun _ he _ => he
  · intro handle he
    rw [hn] at he
    cases he

theorem callSound_handle (h : CallSound run) (hc : run.call.tool = .processStart) {handle : ManagedHandle}
    (hh : run.handle = some handle) : CallSound (run.handleHappens handle happening) ∧
      Follows run (run.handleHappens handle happening) := by
  have hclosed := h.closed handle hh
  have hspawned (attempt : Nat) (overflown : Bool) : run.phase ≠ .running attempt overflown := by
    intro he
    rw [h.spawning attempt overflown he] at hh
    cases hh
  have hrequest (requested : Bool) (hrunning : handle.status = .running) :
      CallSound { run with handle := some { handle with terminationRequested := requested } } ∧
        Follows run { run with handle := some { handle with terminationRequested := requested } } := by
    refine ⟨⟨h.settled, h.recorded, h.finished, h.process, fun he => absurd hc he,
      fun _ _ he => absurd he (hspawned _ _), ?_, ?_⟩, rfl, fun _ => rfl, ?_⟩
    · rintro _ ⟨⟩
      exact hclosed
    · rintro _ ⟨⟩ he
      rw [hrunning] at he
      cases he
    · intro handle' he hcl
      rw [hh] at he
      cases he
      exact absurd hrunning (hclosed.mp hcl)
  cases happening <;> simp only [CallRun.handleHappens]
  case killRequest => split_ifs with hr; exacts [hrequest true hr, ⟨h, follows_refl run⟩]
  case killFailed => split_ifs with hr; exacts [hrequest false hr, ⟨h, follows_refl run⟩]
  case ended ending =>
    split_ifs with hcl
    · exact ⟨h, follows_refl run⟩
    · have hrunning : handle.status = .running := by
        by_contra hne
        exact hcl (hclosed.mpr hne)
      refine ⟨⟨fun code he => absurd he ((h.process hc).1 code), fun code he => absurd he ((h.process hc).2 code),
        h.finished, h.process, fun he => absurd hc he, fun _ _ he => absurd he (hspawned _ _), ?_, ?_⟩, rfl, fun _ => rfl, ?_⟩
      · rintro _ ⟨⟩
        simp only [ManagedHandle.close, hrunning, if_true, true_iff]
        split_ifs <;> exact nofun
      · rintro _ ⟨⟩ - code he
        cases ending with
        | exited c =>
            cases he
            rfl
        | signaled signal => cases he
      · intro handle' he hcl'
        rw [hh] at he
        cases he
        exact absurd hcl' hcl
  all_goals exact ⟨h, follows_refl run⟩

theorem callSound_process (h : CallSound run) (hc : run.call.tool = .processStart) :
    CallSound (run.processHappens happening) ∧ Follows run (run.processHappens happening) := by
  simp only [CallRun.processHappens]
  split <;> rename_i hphase
  · exact callSound_starts h hc (by rw [hphase]; exact nofun) .started nofun _
      (Or.inr ⟨h.spawning _ _ hphase, rfl⟩)
  · exact callSound_starts h hc (by rw [hphase]; exact nofun) (.rejected _) nofun _ (Or.inl rfl)
  · exact callSound_starts h hc (by rw [hphase]; exact nofun) .cancelled nofun _ (Or.inl rfl)
  · exact callSound_starts h hc (by rw [hphase]; exact nofun) (.rejected _) nofun _ (Or.inl rfl)
  · exact callSound_starts h hc (by rw [hphase]; exact nofun) .cancelled nofun _ (Or.inl rfl)
  · split
    · exact callSound_handle h hc ‹_›
    · exact ⟨h, follows_refl run⟩

theorem callSound_happens (h : CallSound run) (hs : ¬SignalEnds run happening) :
    CallSound (run.happens happening) ∧ Follows run (run.happens happening) := by
  rw [CallRun.happens]
  split_ifs with hc
  · exact callSound_process h hc
  · exact callSound_command h hc hs

end Calls

section Payloads

variable {call : ToolCall} {result : Settled} {stamp : Stamp} {handle : ManagedHandle} {pollId : String}

@[simp] theorem ofName_name (tool : CommandTool) : CommandTool.ofName tool.name = some tool := by
  cases tool <;> rfl

theorem asString_str {s t : String} (h : asString (some (.str s)) = some t) : s = t := by
  simp only [asString] at h
  split_ifs at h
  exact Option.some.inj h

theorem closedPayload_toolName :
    (stamp.event result.type (call.closedPayload result)).toolName = some call.tool.name := by
  have hne : call.tool.name ≠ "" := by cases call.tool <;> decide
  cases result <;>
    simp [TraceEvent.toolName, Stamp.event, ToolCall.closedPayload, Settled.details, Fields.ofList, Fields.get,
      asString, hne]

theorem closedPayload_callId : (stamp.event result.type (call.closedPayload result)).callId =
    asString (some (.str call.callId)) := by
  cases result <;>
    simp [TraceEvent.callId, Stamp.event, ToolCall.closedPayload, Settled.details, Fields.ofList, Fields.get]

theorem closedPayload_exitCode (code : Nat) :
    (stamp.event (Settled.resolved code).type (call.closedPayload (.resolved code))).data.bind (·.get "exitCode") =
      some (.num (.ofNat code)) := by
  simp [TraceEvent.data, Stamp.event, ToolCall.closedPayload, Settled.details, Fields.ofList, Fields.get, asRecord]

theorem closedPayload_processId :
    (stamp.event Settled.started.type (call.closedPayload .started)).data.bind (·.get "processId") =
      some (.str call.processId) := by
  simp [TraceEvent.data, Stamp.event, ToolCall.closedPayload, Settled.details, Fields.ofList, Fields.get, asRecord]

theorem isTerminal_result : isTerminal (stamp.event result.type (call.closedPayload result)) = true := by
  cases result <;> rfl

theorem pollPayload_data (key : String) (hkey : key = "processId" ∨ key = "status" ∨ key = "exitCode") :
    (stamp.event "tool_call.completed" (pollPayload call handle pollId)).data.bind (·.get key) =
      if key = "processId" then some (.str call.processId)
      else if key = "status" then some (.str handle.status.name)
      else handle.exitCode.map (fun code => .num (.ofNat code)) := by
  rcases hkey with rfl | rfl | rfl <;> cases hcode : handle.exitCode <;>
    simp [TraceEvent.data, Stamp.event, pollPayload, Fields.ofList, Fields.get, asRecord, hcode]

theorem pollPayload_toolName : (stamp.event "tool_call.completed" (pollPayload call handle pollId)).toolName =
    some "ProcessPoll" := by
  simp [TraceEvent.toolName, Stamp.event, pollPayload, Fields.ofList, Fields.get, asString]

theorem startedPayload_callId (platform : Platform) :
    (stamp.event "tool_call.started" (call.startedPayload platform)).callId =
      asString (some (.str call.callId)) := by
  simp [TraceEvent.callId, Stamp.event, ToolCall.startedPayload, Fields.ofList, Fields.get]

end Payloads

section Invariant

/-- An event that closes a call was written for its result. -/
def ClosedBy (calls : List CallRun) (event : TraceEvent) : Prop :=
  (closedTool event).isSome = true → ∃ run ∈ calls, ∃ result stamp,
    run.recorded = some result ∧ event = Stamp.event stamp result.type (run.call.closedPayload result)

/-- A poll that has found a process ended shows its handle. -/
def PolledFrom (calls : List CallRun) (event : TraceEvent) : Prop :=
  (Collected.terminalPoll event).isSome = true → ∃ run ∈ calls, ∃ handle stamp pollId,
    run.call.tool = .processStart ∧ run.handle = some handle ∧ handle.closed = true ∧
      event = Stamp.event stamp "tool_call.completed" (pollPayload run.call handle pollId)

def callIds (calls : List CallRun) : List String := (calls.map (·.call)).map (·.callId)

def processIds (calls : List CallRun) : List String :=
  ((calls.map (·.call)).filter (fun call => call.tool = .processStart)).map (·.processId)

structure BenchSound (bench : Bench) : Prop where
  unique : UniqueCallIds bench.trace
  sound : ∀ run ∈ bench.calls, CallSound run
  begun : ∀ run ∈ bench.calls, ∃ event ∈ bench.trace, event.type = "tool_call.started" ∧
    event.callId = some run.call.callId
  calls : (callIds bench.calls).Nodup
  processes : (processIds bench.calls).Nodup
  closed : ∀ event ∈ bench.trace, ClosedBy bench.calls event
  polled : ∀ event ∈ bench.trace, PolledFrom bench.calls event

variable {calls : List CallRun} {i : Nat} {f : CallRun → CallRun}

theorem follows_modify (hf : ∀ run, calls[i]? = some run → Follows run (f run)) {run : CallRun}
    (h : run ∈ calls) : ∃ run' ∈ calls.modify i f, Follows run run' := by
  obtain ⟨j, hj⟩ := List.mem_iff_getElem?.mp h
  by_cases hij : i = j
  · subst hij
    refine ⟨f run, List.mem_iff_getElem?.mpr ⟨i, ?_⟩, hf run hj⟩
    rw [List.getElem?_modify_eq, hj]
    rfl
  · exact ⟨run, List.mem_iff_getElem?.mpr ⟨j, by rwa [List.getElem?_modify_ne _ _ hij]⟩, follows_refl run⟩

theorem map_call_modify (hf : ∀ run, calls[i]? = some run → Follows run (f run)) :
    (calls.modify i f).map (·.call) = calls.map (·.call) := by
  refine List.ext_getElem? (fun j => ?_)
  rw [List.getElem?_map, List.getElem?_map, List.getElem?_modify]
  split_ifs with hij
  · subst hij
    cases h : calls[i]? with
    | none => rfl
    | some run => simp [(hf run h).call]
  · simp

theorem ClosedBy.follows {calls' : List CallRun} {event : TraceEvent} (h : ClosedBy calls event)
    (hf : ∀ run ∈ calls, ∃ run' ∈ calls', Follows run run') : ClosedBy calls' event := by
  intro hc
  obtain ⟨run, hrun, result, stamp, hr, he⟩ := h hc
  obtain ⟨run', hrun', hfollows⟩ := hf run hrun
  refine ⟨run', hrun', result, stamp, ?_, by rw [hfollows.call, he]⟩
  rw [hfollows.recorded (by rw [hr]; exact nofun), hr]

theorem PolledFrom.follows {calls' : List CallRun} {event : TraceEvent} (h : PolledFrom calls event)
    (hf : ∀ run ∈ calls, ∃ run' ∈ calls', Follows run run') : PolledFrom calls' event := by
  intro hp
  obtain ⟨run, hrun, handle, stamp, pollId, ht, hh, hc, he⟩ := h hp
  obtain ⟨run', hrun', hfollows⟩ := hf run hrun
  exact ⟨run', hrun', handle, stamp, pollId, by rw [hfollows.call, ht], hfollows.handle handle hh hc, hc,
    by rw [hfollows.call, he]⟩

/-- The calls go on, and more events are written. -/
theorem benchSound_moves {bench : Bench} (h : BenchSound bench) {calls' : List CallRun}
    {more : List TraceEvent} (hu : UniqueCallIds (bench.trace ++ more))
    (hcalls : calls'.map (·.call) = bench.calls.map (·.call)) (hsound : ∀ run ∈ calls', CallSound run)
    (hf : ∀ run ∈ bench.calls, ∃ run' ∈ calls', Follows run run')
    (hmore : ∀ event ∈ more, ClosedBy calls' event ∧ PolledFrom calls' event) :
    BenchSound ⟨calls', bench.trace ++ more⟩ where
  unique := hu
  sound := hsound
  begun run hrun := by
    have hin : run.call ∈ bench.calls.map (·.call) := hcalls ▸ List.mem_map_of_mem hrun
    obtain ⟨old, ho, he⟩ := List.mem_map.mp hin
    obtain ⟨event, hevent, ht, hc⟩ := h.begun old ho
    exact ⟨event, List.mem_append_left _ hevent, ht, by rw [← he, hc]⟩
  calls := by
    rw [callIds, hcalls]
    exact h.calls
  processes := by
    rw [processIds, hcalls]
    exact h.processes
  closed event he := by
    rcases List.mem_append.mp he with he | he
    · exact (h.closed event he).follows hf
    · exact (hmore event he).1
  polled event he := by
    rcases List.mem_append.mp he with he | he
    · exact (h.polled event he).follows hf
    · exact (hmore event he).2

theorem callSound_recorded {run : CallRun} {result : Settled} (h : CallSound run)
    (hp : run.phase = .settled result) :
    CallSound { run with phase := .finished, recorded := some result } ∧
      Follows run { run with phase := .finished, recorded := some result } := by
  have hr := h.unrecorded (by rw [hp]; exact nofun)
  refine ⟨⟨nofun, fun code he => h.settled code (hp.trans (by rw [Option.some.inj he])), fun _ => rfl,
    fun hc => ⟨nofun, fun code he => (h.process hc).1 code (hp.trans (by rw [Option.some.inj he]))⟩,
    fun hc => ⟨(h.command hc).1, nofun, fun he => (h.command hc).2.1 (hp.trans (by rw [Option.some.inj he]))⟩,
    nofun, h.closed, h.exited⟩, rfl, fun he => absurd hr he, fun _ hh _ => hh⟩

end Invariant

section Steps

variable (platform : Platform)

/-- The ids of calls and of processes are new, and no signal ends the process
that a Bash call waits for. -/
structure RunnerAllowed (bench : Bench) (step : BenchStep) : Prop where
  unique : UniqueCallIds (bench.next platform step).trace
  fresh : ∀ stamp call, step = .begins stamp call → call.tool = .processStart →
    call.processId ∉ processIds bench.calls
  exits : ∀ i happening run, step = .happens i happening → bench.calls[i]? = some run →
    ¬SignalEnds run happening

variable {platform : Platform} {bench : Bench}

theorem benchSound_begins (h : BenchSound bench) {stamp : Stamp} {call : ToolCall}
    (ha : RunnerAllowed platform bench (.begins stamp call)) :
    BenchSound (bench.next platform (.begins stamp call)) := by
  have hcallId : (stamp.event "tool_call.started" (call.startedPayload platform)).callId =
      asString (some (.str call.callId)) := startedPayload_callId platform
  have hu := ha.unique
  simp only [Bench.next] at hu
  have hpresent := hu.present (stamp.event "tool_call.started" (call.startedPayload platform)) (by simp)
    (Or.inl rfl)
  have hid : (stamp.event "tool_call.started" (call.startedPayload platform)).callId = some call.callId := by
    obtain ⟨id, hid⟩ := Option.ne_none_iff_exists'.mp hpresent
    rw [hid, asString_str (hcallId.symm.trans hid)]
  have hf (run : CallRun) (hrun : run ∈ bench.calls) : ∃ run' ∈ bench.calls ++
      [(⟨call, .running 1 false, none, none, none⟩ : CallRun)], Follows run run' :=
    ⟨run, List.mem_append_left _ hrun, follows_refl run⟩
  have hclosed : closedTool (stamp.event "tool_call.started" (call.startedPayload platform)) = none :=
    closedTool_started rfl
  have hpoll : Collected.terminalPoll (stamp.event "tool_call.started" (call.startedPayload platform)) = none := by
    by_contra hn
    obtain ⟨id, hp⟩ := Option.ne_none_iff_exists'.mp hn
    exact absurd (terminalPoll_some hp).1 (by simp [Stamp.event])
  refine ⟨hu, fun run hrun => ?_, fun run hrun => ?_, ?_, ?_, fun event he => ?_, fun event he => ?_⟩
  · rcases List.mem_append.mp hrun with hrun | hrun
    · exact h.sound run hrun
    · rw [List.mem_singleton.mp hrun]
      exact ⟨nofun, nofun, fun hr => absurd rfl hr, fun _ => ⟨nofun, nofun⟩, fun _ => ⟨rfl, nofun, nofun⟩,
        fun _ _ _ => rfl, nofun, nofun⟩
  · rcases List.mem_append.mp hrun with hrun | hrun
    · obtain ⟨event, he, ht, hc⟩ := h.begun run hrun
      exact ⟨event, List.mem_append_left _ he, ht, hc⟩
    · rw [List.mem_singleton.mp hrun]
      exact ⟨_, List.mem_append_right _ List.mem_cons_self, rfl, hid⟩
  · simp only [Bench.next, callIds, List.map_append, List.map_cons, List.map_nil]
    refine List.nodup_append.mpr ⟨h.calls, List.nodup_singleton _, fun id hold id' hnew => ?_⟩
    rw [List.mem_singleton.mp hnew]
    rintro rfl
    simp only [List.map_map, List.mem_map, Function.comp] at hold
    obtain ⟨run, hrun, hsame⟩ := hold
    obtain ⟨event, he, ht, hc⟩ := h.begun run hrun
    refine (List.pairwise_append.mp hu.distinct).2.2 event he _ List.mem_cons_self ht rfl ?_
    rw [hc, hid, hsame]
  · simp only [Bench.next, processIds, List.map_append, List.map_cons, List.map_nil, List.filter_append]
    by_cases hc : call.tool = .processStart
    · rw [List.filter_cons_of_pos (by simpa using hc)]
      refine List.nodup_append.mpr ⟨h.processes, List.nodup_singleton _, fun id hold id' hnew => ?_⟩
      rw [List.mem_singleton.mp hnew]
      rintro rfl
      exact ha.fresh stamp call rfl hc hold
    · rw [List.filter_cons_of_neg (by simpa using hc)]
      simpa [processIds] using h.processes
  · rcases List.mem_append.mp he with he | he
    · exact (h.closed event he).follows hf
    · rw [List.mem_singleton.mp he]
      intro hc
      rw [hclosed] at hc
      cases hc
  · rcases List.mem_append.mp he with he | he
    · exact (h.polled event he).follows hf
    · rw [List.mem_singleton.mp he]
      intro hc
      rw [hpoll] at hc
      cases hc

theorem benchSound_writes (h : BenchSound bench) {more : List TraceEvent}
    (hu : UniqueCallIds (bench.trace ++ more))
    (hmore : ∀ event ∈ more, ClosedBy bench.calls event ∧ PolledFrom bench.calls event) :
    BenchSound { bench with trace := bench.trace ++ more } :=
  benchSound_moves h hu rfl h.sound (fun run hrun => ⟨run, hrun, follows_refl run⟩) hmore

theorem benchSound_happens (h : BenchSound bench) {i : Nat} {happening : Happening}
    (ha : RunnerAllowed platform bench (.happens i happening)) :
    BenchSound (bench.next platform (.happens i happening)) := by
  have hstep (run : CallRun) (hrun : bench.calls[i]? = some run) :
      CallSound (run.happens happening) ∧ Follows run (run.happens happening) :=
    callSound_happens (h.sound run (List.mem_of_getElem? hrun)) (ha.exits i happening run rfl hrun)
  have hmoves : BenchSound ⟨bench.calls.modify i (·.happens happening), bench.trace ++ []⟩ := by
    refine benchSound_moves h (by simpa using h.unique)
      (map_call_modify (fun run hrun => (hstep run hrun).2)) (fun run hrun => ?_)
      (fun run hrun => follows_modify (fun run hrun => (hstep run hrun).2) hrun) nofun
    rcases mem_modify hrun with hrun | ⟨old, hold, rfl⟩
    · exact h.sound run hrun
    · exact (hstep old hold).1
  simpa [Bench.next] using hmoves

theorem benchSound_records (h : BenchSound bench) {stamp : Stamp} {i : Nat}
    (hu : UniqueCallIds (bench.record stamp i).trace) : BenchSound (bench.record stamp i) := by
  cases hrun : bench.calls[i]? with
  | none => simpa only [Bench.record, hrun] using h
  | some run =>
      cases hphase : run.phase with
      | running | waiting | finished => simpa only [Bench.record, hrun, hphase] using h
      | settled result =>
          have hstep (old : CallRun) (hold : bench.calls[i]? = some old) :
              CallSound { old with phase := .finished, recorded := some result } ∧
                Follows old { old with phase := .finished, recorded := some result } := by
            cases hrun.symm.trans hold
            exact callSound_recorded (h.sound run (List.mem_of_getElem? hrun)) hphase
          simp only [Bench.record, hrun, hphase] at hu ⊢
          refine benchSound_moves h hu (map_call_modify (fun old hold => (hstep old hold).2))
            (fun old hold => ?_) (fun old hold => follows_modify (fun old hold => (hstep old hold).2) hold)
            (fun event he => ?_)
          · rcases mem_modify hold with hold | ⟨old', hold', rfl⟩
            · exact h.sound old hold
            · exact (hstep old' hold').1
          · rw [List.mem_singleton.mp he]
            refine ⟨fun _ => ⟨{ run with phase := .finished, recorded := some result },
              List.mem_iff_getElem?.mpr ⟨i, ?_⟩, result, stamp, rfl, rfl⟩, fun hp => ?_⟩
            · rw [List.getElem?_modify_eq, hrun]
              rfl
            · obtain ⟨id, hid⟩ := Option.isSome_iff_exists.mp hp
              have hname := (terminalPoll_some hid).2
              rw [closedPayload_toolName] at hname
              cases htool : run.call.tool <;> rw [htool] at hname <;> exact absurd hname (by decide)

theorem benchSound_polls (h : BenchSound bench) {stamp : Stamp} {i : Nat} {pollId : String}
    (hu : UniqueCallIds (bench.poll stamp i pollId).trace) : BenchSound (bench.poll stamp i pollId) := by
  cases hrun : bench.calls[i]? with
  | none => simpa only [Bench.poll, hrun] using h
  | some run =>
      cases hhandle : run.handle with
      | none => simpa only [Bench.poll, hrun, hhandle] using h
      | some handle =>
          have hsound := h.sound run (List.mem_of_getElem? hrun)
          simp only [Bench.poll, hrun, hhandle] at hu ⊢
          refine benchSound_writes h hu (fun event he => ?_)
          rw [List.mem_singleton.mp he]
          refine ⟨fun hc => ?_, fun hp =>
            ⟨run, List.mem_of_getElem? hrun, handle, stamp, pollId, ?_, hhandle, ?_, rfl⟩⟩
          · rw [closedTool, pollPayload_toolName] at hc
            split_ifs at hc <;> cases hc
          · by_contra hc
            rw [(hsound.command hc).1] at hhandle
            cases hhandle
          · rw [hsound.closed handle hhandle]
            intro hrunning
            obtain ⟨id, hid⟩ := Option.isSome_iff_exists.mp hp
            simp only [Collected.terminalPoll, pollPayload_data "status" (by simp), hrunning] at hid
            simp [asString, ManagedProcessStatus.name] at hid

theorem benchSound_next (h : BenchSound bench) {step : BenchStep} (ha : RunnerAllowed platform bench step) :
    BenchSound (bench.next platform step) := by
  cases step with
  | begins stamp call => exact benchSound_begins h ha
  | happens i happening => exact benchSound_happens h ha
  | records stamp i => exact benchSound_records h ha.unique
  | polls stamp i pollId => exact benchSound_polls h ha.unique
  | other event =>
      have hu := ha.unique
      simp only [Bench.next] at hu ⊢
      split_ifs at hu ⊢ with hc
      · exact h
      · refine benchSound_writes h hu (fun e he => ?_)
        rw [List.mem_singleton.mp he]
        rw [isCommandEvent, Bool.or_eq_true, not_or] at hc
        refine ⟨fun hclosed => ?_, fun hpoll => absurd hpoll hc.2⟩
        rw [closedTool] at hclosed
        split_ifs at hclosed with ht
        · exact absurd hclosed hc.1
        · cases hclosed

theorem benchSound_start : BenchSound Bench.start := by
  constructor <;> simp [Bench.start, callIds, processIds]
  exact ⟨by simp, List.Pairwise.nil⟩

end Steps

section Passing

variable {platform : Platform} {known : Text → Option Text} {bench : Bench} {run other : CallRun}

/-- The report counts a run of the call as passed. -/
def MarkedPassed (platform : Platform) (known : Text → Option Text) (trace : List TraceEvent)
    (call : ToolCall) : Prop :=
  ∃ outcome ∈ (collect platform known trace).outcomes, outcome.callId = some call.callId ∧
    outcome.status = .passed

theorem run_eq_of_callId (h : BenchSound bench) (hr : run ∈ bench.calls) (ho : other ∈ bench.calls)
    (he : run.call.callId = other.call.callId) : run = other := by
  have hn := h.calls
  rw [callIds, List.map_map] at hn
  exact List.inj_on_of_nodup_map hn hr ho he

theorem run_eq_of_processId (h : BenchSound bench) (hr : run ∈ bench.calls) (ho : other ∈ bench.calls)
    (hrt : run.call.tool = .processStart) (hot : other.call.tool = .processStart)
    (he : run.call.processId = other.call.processId) : run = other := by
  refine run_eq_of_callId h hr ho (congrArg ToolCall.callId ?_)
  refine List.inj_on_of_nodup_map h.processes ?_ ?_ he
  · exact List.mem_filter.mpr ⟨List.mem_map_of_mem hr, by simp [hrt]⟩
  · exact List.mem_filter.mpr ⟨List.mem_map_of_mem ho, by simp [hot]⟩

/-- The event that closes the call of an id was written for its result. -/
theorem closes_run (h : BenchSound bench) (hr : run ∈ bench.calls) {before : List TraceEvent}
    {event : TraceEvent} {start : CommandStart} (he : event ∈ bench.trace)
    (hc : Closes platform known start before event) (hid : start.callId = some run.call.callId) :
    ∃ result stamp, run.recorded = some result ∧
      event = Stamp.event stamp result.type (run.call.closedPayload result) := by
  obtain ⟨other, ho, result, stamp, hrec, rfl⟩ := h.closed event he hc.2.1
  have hcallId := hc.2.2
  rw [closedPayload_callId, hid] at hcallId
  have hsame := run_eq_of_callId h ho hr (asString_str hcallId)
  subst hsame
  exact ⟨result, stamp, hrec, rfl⟩

theorem code_eq_zero {code : Nat} (h : isZero (.ofNat code) = true) : code = 0 := by
  rw [isZero, toNat_ofNat, decide_eq_true_eq] at h
  exact Option.some.inj h

/-- A poll that counts as passed has seen a process that exited with 0. -/
theorem polled_exited {start : CommandStart} {stamp : Stamp} {call : ToolCall} {handle : ManagedHandle}
    {pollId : String} {i : Nat} (h : (polledOutcome start
      (stamp.event "tool_call.completed" (pollPayload call handle pollId)) i).status = .passed) :
    handle.status = .exited ∧ handle.exitCode = some 0 := by
  simp only [polledOutcome, pollPayload_data "status" (by simp), pollPayload_data "exitCode" (by simp)] at h
  simp only [if_false, if_true, String.reduceEq] at h
  split_ifs at h with hp
  rw [Bool.and_eq_true] at hp
  constructor
  · have hs := hp.1
    cases hstatus : handle.status with
    | exited => rfl
    | running | killed =>
        rw [hstatus] at hs
        simp [asString, ManagedProcessStatus.name] at hs
  · have hz := hp.2
    cases hcode : handle.exitCode with
    | none =>
        rw [hcode] at hz
        simp [asNumber] at hz
    | some code =>
        rw [hcode] at hz
        have hzero : isZero (.ofNat code) = true := by simpa [asNumber] using hz
        rw [code_eq_zero hzero]

theorem BenchSound.exited (h : BenchSound bench) (hr : run ∈ bench.calls)
    (hm : MarkedPassed platform known bench.trace run.call) : run.ending = some (.exited 0) := by
  obtain ⟨outcome, ho, hid, hs⟩ := hm
  have hf : Finished platform known outcome bench.trace := ((paired_collect h.unique).outcomes outcome).mp ho
  have hsound := h.sound run hr
  obtain ⟨hstatus, hzero⟩ := hf.passed hs
  obtain ⟨before, event, after, htrace, hends⟩ := hf
  have hevent : event ∈ bench.trace := by simp [htrace]
  rcases hends with ⟨start, hc, hns, rfl⟩ | ⟨start, processId, hp, hrunning, rfl⟩
  · obtain ⟨result, stamp, hrec, rfl⟩ := closes_run h hr hevent hc hid
    cases result with
    | resolved code =>
        simp only [outcomeFromEvent, closedPayload_exitCode, asNumber, Option.some_or, Option.any_some] at hzero
        rw [code_eq_zero hzero] at hrec
        exact hsound.recorded 0 hrec
    | started =>
        have ht : run.call.tool = .processStart := by
          by_contra ht
          exact (hsound.command ht).2.2 hrec
        rw [startsProcess, closedTool, if_pos isTerminal_result, closedPayload_toolName, ht, Option.bind_some,
          ofName_name] at hns
        simp [Settled.type, Stamp.event] at hns
    | rejected message | cancelled =>
        simp [outcomeFromEvent, statusOf, Stamp.event, Settled.type] at hstatus
  · obtain ⟨earlier, launch, between, hbefore, ⟨hc, hlaunch, hpid⟩, -⟩ := hrunning
    have hin : launch ∈ bench.trace := by simp [htrace, hbefore]
    obtain ⟨result, stamp, hrec, rfl⟩ := closes_run h hr hin hc hid
    have ht : run.call.tool = .processStart := by
      have hclosed := startsProcess_closed hlaunch
      rw [closedTool, if_pos isTerminal_result, closedPayload_toolName, Option.bind_some, ofName_name] at hclosed
      exact Option.some.inj hclosed
    cases result with
    | started =>
        rw [closedPayload_processId] at hpid
        have hpid := asString_str hpid
        obtain ⟨other, hother, handle, stamp', pollId, hot, hh, -, rfl⟩ :=
          h.polled event hevent (by rw [hp]; rfl)
        have hpolled : other.call.processId = processId := by
          simp only [Collected.terminalPoll, pollPayload_data "processId" (by simp)] at hp
          split_ifs at hp
          exact asString_str hp
        have hsame := run_eq_of_processId h hother hr hot ht (hpolled.trans hpid.symm)
        subst hsame
        obtain ⟨hexited, hcode⟩ := polled_exited hstatus
        exact hsound.exited handle hh hexited 0 hcode
    | resolved code => exact absurd hrec ((hsound.process ht).2 code)
    | rejected message | cancelled =>
        simp only [startsProcess, Stamp.event, Settled.type] at hlaunch
        simp at hlaunch

/-- Along a run in which no signal ends the process that a Bash call waits for,
a command counts as passed only if its process exited with 0. -/
theorem passed_exited {steps : List BenchStep}
    (h : Along (Bench.next platform) (RunnerAllowed platform) .start steps) :
    ∀ run ∈ (after (Bench.next platform) .start steps).calls,
      MarkedPassed platform known (after (Bench.next platform) .start steps).trace run.call →
        run.ending = some (.exited 0) := by
  have hsound : BenchSound (after (Bench.next platform) .start steps) :=
    h.keeps (fun bench step ha hs => benchSound_next hs ha) benchSound_start
  intro run hrun hpassed
  exact hsound.exited hrun hpassed

end Passing

section Examples

def stamp : Stamp := ⟨"event", "run", "2026-07-18T00:00:00.000Z"⟩

def npmTest (tool : CommandTool) : ToolCall := ⟨"call", tool, "npm test".toList, "process"⟩

/-- `npm test` through Bash, whose process ends in the given way. -/
def endsBy (ending : Ending) : List BenchStep :=
  [.begins stamp (npmTest .bash), .happens 0 (.ended ending), .records stamp 0]

theorem killed_counts_as_passed :
    ∃ run ∈ (after (Bench.next plainPlatform) .start (endsBy (.signaled "SIGKILL"))).calls,
      MarkedPassed plainPlatform (fun _ => none)
        (after (Bench.next plainPlatform) .start (endsBy (.signaled "SIGKILL"))).trace run.call ∧
      run.ending = some (.signaled "SIGKILL") := by
  simp only [MarkedPassed]
  decide

theorem passed_exited_npmTest :
    Along (Bench.next plainPlatform) (RunnerAllowed plainPlatform) .start (endsBy (.exited 0)) ∧
      ∀ run ∈ (after (Bench.next plainPlatform) .start (endsBy (.exited 0))).calls,
        MarkedPassed plainPlatform (fun _ => none)
          (after (Bench.next plainPlatform) .start (endsBy (.exited 0))).trace run.call →
        run.ending = some (.exited 0) := by
  have h : Along (Bench.next plainPlatform) (RunnerAllowed plainPlatform) .start (endsBy (.exited 0)) := by
    refine along_cons.mpr ⟨⟨?_, ?_, (fun _ _ _ he => nomatch he)⟩, along_cons.mpr ⟨⟨?_, (fun _ _ he => nomatch he), ?_⟩,
      along_cons.mpr ⟨⟨?_, (fun _ _ he => nomatch he), (fun _ _ _ he => nomatch he)⟩, along_nil⟩⟩⟩
    · constructor <;> decide
    · rintro _ _ ⟨⟩ ht
      cases ht
    · constructor <;> decide
    · rintro _ _ run ⟨⟩ - ⟨-, -, signal, hs⟩
      cases hs
    · constructor <;> decide
  exact ⟨h, passed_exited h⟩

end Examples

end Kross.Verification

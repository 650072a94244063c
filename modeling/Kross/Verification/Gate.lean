import Kross.Verification.Runs
import Mathlib.Data.List.MinMax

namespace Kross.Verification

open Kross.Json Kross.Mutation Kross.Trace

section LastMutation

variable {events : List TraceEvent} {event : TraceEvent} {i : Nat}

/-- No completed file mutation stands at the place or behind it. -/
def Unmutated (events : List TraceEvent) (i : Nat) : Prop :=
  ∀ j event, i ≤ j → events[j]? = some event → isCompletedFileMutationEvent event = false

theorem unmutated_concat : Unmutated (events ++ [event]) i ↔
    Unmutated events i ∧ (i ≤ events.length → isCompletedFileMutationEvent event = false) := by
  constructor
  · intro h
    refine ⟨fun j e hj he => h j e hj ?_, fun hi => h events.length event hi List.getElem?_concat_length⟩
    rw [List.getElem?_append_left (List.getElem?_eq_some_iff.mp he).1]
    exact he
  · rintro ⟨h, hlast⟩ j e hj he
    rcases Nat.lt_trichotomy j events.length with hlt | rfl | hgt
    · rw [List.getElem?_append_left hlt] at he
      exact h j e hj he
    · rw [List.getElem?_concat_length] at he
      cases he
      exact hlast hj
    · rw [List.getElem?_eq_none (by simp; omega)] at he
      cases he

theorem findLast_concat (events : List TraceEvent) (event : TraceEvent) :
    findLastFileMutationIndex (events ++ [event]) =
      if isCompletedFileMutationEvent event then (events.length : Int)
      else findLastFileMutationIndex events := by
  simp only [findLastFileMutationIndex, List.zipIdx_append, List.reverse_append]
  cases h : isCompletedFileMutationEvent event <;> simp [h]

theorem findLast_lt_length (events : List TraceEvent) : findLastFileMutationIndex events < events.length := by
  induction events using List.reverseRecOn with
  | nil => decide
  | append_singleton events event ih =>
      rw [findLast_concat, List.length_append, List.length_singleton]
      split_ifs <;> omega

theorem findLast_lt_iff : findLastFileMutationIndex events < i ↔ Unmutated events i := by
  induction events using List.reverseRecOn with
  | nil =>
      refine ⟨fun _ j event _ he => ?_, fun _ => ?_⟩
      · simp at he
      · simp only [findLastFileMutationIndex, List.zipIdx_nil, List.reverse_nil, List.find?_nil]
        omega
  | append_singleton events event ih =>
      have hlt := findLast_lt_length events
      rw [findLast_concat, unmutated_concat, ← ih]
      cases isCompletedFileMutationEvent event with
      | true => simp; omega
      | false => simp

end LastMutation

section Latest

variable {outcomes : List CommandOutcome} {label : Text} {outcome : CommandOutcome}

theorem latestByLabel_concat (outcomes : List CommandOutcome) (outcome : CommandOutcome) :
    latestByLabel (outcomes ++ [outcome]) = mapSet outcome.label outcome (latestByLabel outcomes) := by
  simp [latestByLabel]

theorem latestByLabel_keys (outcomes : List CommandOutcome) :
    ((latestByLabel outcomes).map Prod.fst).Nodup := by
  induction outcomes using List.reverseRecOn with
  | nil => exact List.nodup_nil
  | append_singleton outcomes outcome ih =>
      rw [latestByLabel_concat]
      exact keys_mapSet_nodup ih

/-- The map keeps the run of each label that ended last. -/
theorem mapGet_latestByLabel
    (h : outcomes.Pairwise (fun o o' => o.completedEventIndex < o'.completedEventIndex)) :
    mapGet label (latestByLabel outcomes) = some outcome ↔ outcome ∈ outcomes ∧ outcome.label = label ∧
      ∀ other ∈ outcomes, other.label = label → other.completedEventIndex ≤ outcome.completedEventIndex := by
  induction outcomes using List.reverseRecOn generalizing outcome with
  | nil => simp [latestByLabel, mapGet]
  | append_singleton outcomes last ih =>
      obtain ⟨hinit, -, hlast⟩ := List.pairwise_append.mp h
      have hlt (o : CommandOutcome) (ho : o ∈ outcomes) : o.completedEventIndex < last.completedEventIndex :=
        hlast o ho last List.mem_cons_self
      rw [latestByLabel_concat, mapGet_mapSet]
      split_ifs with hl
      · rw [Option.some.injEq]
        constructor
        · rintro rfl
          refine ⟨by simp, hl, fun other ho _ => ?_⟩
          rcases List.mem_append.mp ho with ho | ho
          · exact Nat.le_of_lt (hlt other ho)
          · rw [List.mem_singleton.mp ho]
        · rintro ⟨ho, -, hmax⟩
          rcases List.mem_append.mp ho with ho | ho
          · exact absurd (hmax last (by simp) hl) (Nat.not_le_of_lt (hlt outcome ho))
          · exact (List.mem_singleton.mp ho).symm
      · rw [ih hinit]
        constructor
        · rintro ⟨ho, hlabel, hmax⟩
          refine ⟨List.mem_append_left _ ho, hlabel, fun other hother hol => ?_⟩
          rcases List.mem_append.mp hother with hother | hother
          · exact hmax other hother hol
          · exact absurd (List.mem_singleton.mp hother ▸ hol) hl
        · rintro ⟨ho, hlabel, hmax⟩
          rcases List.mem_append.mp ho with ho | ho
          · exact ⟨ho, hlabel, fun other hother => hmax other (List.mem_append_left _ hother)⟩
          · exact absurd (List.mem_singleton.mp ho ▸ hlabel) hl

theorem exists_latestByLabel (ho : outcome ∈ outcomes) :
    ∃ last, mapGet outcome.label (latestByLabel outcomes) = some last := by
  induction outcomes using List.reverseRecOn with
  | nil => cases ho
  | append_singleton outcomes other ih =>
      rw [latestByLabel_concat, mapGet_mapSet]
      split_ifs with hl
      · exact ⟨other, rfl⟩
      · rcases List.mem_append.mp ho with ho | ho
        · exact ih ho
        · exact absurd (by rw [List.mem_singleton.mp ho]) hl

/-- The map only has outcomes of the list. -/
theorem mem_of_mem_latestByLabel {entry : Text × CommandOutcome} (h : entry ∈ latestByLabel outcomes) :
    entry.2 ∈ outcomes := by
  induction outcomes using List.reverseRecOn with
  | nil => cases h
  | append_singleton outcomes last ih =>
      rw [latestByLabel_concat] at h
      rcases mem_mapSet h with rfl | h
      · exact List.mem_append_right _ List.mem_cons_self
      · exact List.mem_append_left _ (ih h)

/-- An outcome behind which no other one has its label is the latest of it. -/
theorem mapGet_latestByLabel_append {before rest : List CommandOutcome}
    (h : ∀ other ∈ rest, other.label ≠ outcome.label) :
    mapGet outcome.label (latestByLabel (before ++ outcome :: rest)) = some outcome := by
  induction rest using List.reverseRecOn with
  | nil => rw [latestByLabel_concat, mapGet_mapSet_self]
  | append_singleton rest last ih =>
      have hlast : last.label ≠ outcome.label := h last (by simp)
      rw [← List.cons_append, ← List.append_assoc, latestByLabel_concat, mapGet_mapSet_ne hlast]
      exact ih (fun other ho => h other (List.mem_append_left _ ho))

end Latest

section Passing

variable {platform : Platform} {options : CollectVerificationReportOptions} {events : List TraceEvent}

/-- A report passes when nothing is pending and the latest outcome of each
label has passed. -/
theorem latest_passed (h : (collectVerificationReport platform events options).status = .passed) :
    let collected := collect platform (knownByFingerprint platform options.knownCommands) events
    let valid := collected.validOutcomes (findLastFileMutationIndex events)
    valid ≠ [] ∧ collected.pending (findLastFileMutationIndex events) = [] ∧
      (collectVerificationReport platform events options).commands = valid.map (·.label) ∧
      ∀ entry ∈ latestByLabel valid, entry.2.status = .passed := by
  intro collected valid
  simp only [collectVerificationReport] at h ⊢
  split_ifs at h ⊢ with hnone hfiles hfailed hunknown
  simp only [Bool.or_eq_true, decide_eq_true_eq, not_or, not_not] at hunknown
  obtain ⟨hpending, hunknown⟩ := hunknown
  refine ⟨fun hv => ?_, hpending, ?_, fun entry he => ?_⟩
  · rw [hpending] at hnone
    simp [hv, valid, collected] at hnone
  · rw [hpending, List.map_nil, List.append_nil]
  · have hvalue : entry.2 ∈ (latestByLabel valid).map Prod.snd := List.mem_map_of_mem he
    have hf : entry.2.status ≠ .failed := fun hs => hfailed (List.any_eq_true.mpr ⟨_, hvalue, by simp [hs]⟩)
    have hn : entry.2.status ≠ .unknown := fun hs => hunknown (List.any_eq_true.mpr ⟨_, hvalue, by simp [hs]⟩)
    cases hs : entry.2.status with
    | passed => rfl
    | failed => exact absurd hs hf
    | unknown => exact absurd hs hn

end Passing

section Evidence

variable (platform : Platform) (options : CollectVerificationReportOptions) (events : List TraceEvent)

/-- The command was started behind the last file mutation. -/
def Begun (start : CommandStart) : Prop :=
  Started platform (knownByFingerprint platform options.knownCommands) start events ∧
    Unmutated events start.eventIndex

/-- The run began behind the last file mutation and has ended. -/
def Ran (outcome : CommandOutcome) : Prop :=
  Finished platform (knownByFingerprint platform options.knownCommands) outcome events ∧
    Unmutated events outcome.eventIndex

/-- No run of the same exact command ended later. -/
def LastRun (outcome : CommandOutcome) : Prop :=
  Ran platform options events outcome ∧ ∀ other, Ran platform options events other →
    other.fingerprint = outcome.fingerprint → other.completedEventIndex ≤ outcome.completedEventIndex

def Passed (outcome : CommandOutcome) : Prop :=
  outcome.status = .passed ∧ outcome.exitCode.any isZero = true

/-- The kinds of which a change to code needs one. -/
def codeKinds : List VerificationKind := [.test, .typecheck, .build]

/-- What a gate that is required and satisfied stands for. -/
structure Verified : Prop where
  passed : ∃ outcome, Ran platform options events outcome ∧ Passed outcome
  ended : ∀ start, Begun platform options events start →
    ∃ outcome, Ran platform options events outcome ∧ outcome.toCommandStart = start
  confirmed : ∀ start, Begun platform options events start → ∃ outcome,
    LastRun platform options events outcome ∧ outcome.fingerprint = start.fingerprint ∧
      outcome.status ≠ .unknown
  latest : ∀ start, Begun platform options events start → ∃ outcome,
    LastRun platform options events outcome ∧ outcome.fingerprint = start.fingerprint ∧ Passed outcome
  kinds : ∀ kind ∈ requiredVerificationKinds platform options.changedFiles, ∃ outcome,
    Ran platform options events outcome ∧ Passed outcome ∧
      kind ∈ commandKinds platform options.knownCommands outcome.label
  checked : requiresVerificationForFiles platform options.changedFiles = true → ∃ outcome,
    Ran platform options events outcome ∧ Passed outcome ∧
      ∃ kind ∈ commandKinds platform options.knownCommands outcome.label, kind ∈ codeKinds
  requested : ∀ requested ∈ options.requestedCommand, ∃ outcome,
    Ran platform options events outcome ∧ Passed outcome ∧ requested.label ∈ splitLabels [] outcome.label

/-- The last run of an exact command did not pass, and a run of another one
with the same label ended behind it. -/
def Overtaken : Prop :=
  ∃ outcome other, LastRun platform options events outcome ∧ outcome.status ≠ .passed ∧
    Ran platform options events other ∧ other.label = outcome.label ∧
    other.fingerprint ≠ outcome.fingerprint ∧ outcome.completedEventIndex < other.completedEventIndex

end Evidence

section Soundness

variable {platform : Platform} {options : CollectVerificationReportOptions} {events : List TraceEvent}
  {known : Text → Option Text} {start : CommandStart} {outcome other : CommandOutcome}

theorem Ends.begun {before : List TraceEvent} {event : TraceEvent}
    (h : Ends platform known outcome before event) :
    Started platform known outcome.toCommandStart before := by
  rcases h with ⟨start, hc, -, rfl⟩ | ⟨start, processId, -, hr, rfl⟩
  · exact hc.1
  · obtain ⟨earlier, e, after, rfl, hl, -⟩ := hr
    exact hl.1.1.append _

theorem Finished.begun (h : Finished platform known outcome events) :
    Started platform known outcome.toCommandStart events := by
  obtain ⟨before, event, after, rfl, h⟩ := h
  exact h.begun.append _

theorem Finished.later (h : Finished platform known outcome events) :
    outcome.eventIndex < outcome.completedEventIndex := by
  obtain ⟨before, event, after, rfl, h⟩ := h
  rw [h.index]
  exact h.begun.index

theorem Finished.passed (h : Finished platform known outcome events) (hp : outcome.status = .passed) :
    Passed outcome := by
  refine ⟨hp, ?_⟩
  obtain ⟨before, event, after, rfl, ⟨start, -, -, rfl⟩ | ⟨start, processId, -, -, rfl⟩⟩ := h
  · simp only [outcomeFromEvent, statusOf] at hp ⊢
    split_ifs at hp
    split at hp
    · cases hp
    · rename_i code hcode
      rw [hcode]
      split_ifs at hp with hz
      exact hz
  · simp only [polledOutcome] at hp ⊢
    split_ifs at hp with hc
    exact (Bool.and_eq_true _ _ ▸ hc).2

variable (hu : UniqueCallIds events)
include hu

theorem mem_validOutcomes : outcome ∈ (collect platform (knownByFingerprint platform options.knownCommands)
    events).validOutcomes (findLastFileMutationIndex events) ↔ Ran platform options events outcome := by
  rw [Collected.validOutcomes, List.mem_filter, (paired_collect hu).outcomes, Ran, ← findLast_lt_iff]
  refine and_congr_right (fun hf => ?_)
  have := hf.later
  simp only [Bool.and_eq_true, decide_eq_true_eq]
  omega

theorem mem_validStarts : start ∈ (collect platform (knownByFingerprint platform options.knownCommands)
    events).validStarts (findLastFileMutationIndex events) ↔ Begun platform options events start := by
  rw [Collected.validStarts, List.mem_filter, (paired_collect hu).starts, Begun, ← findLast_lt_iff,
    decide_eq_true_eq]

theorem startIdentity_injective {start' : CommandStart} (h : Started platform known start events)
    (h' : Started platform known start' events) (he : startIdentity start = startIdentity start') :
    start = start' := by
  obtain ⟨id, hid⟩ := Option.ne_none_iff_exists'.mp (h.callId_ne hu)
  obtain ⟨id', hid'⟩ := Option.ne_none_iff_exists'.mp (h'.callId_ne hu)
  refine h.unique h' hu ?_
  simp only [startIdentity, hid, hid'] at he
  rw [hid, hid', String.toList_inj.mp he]

theorem pending_nil : (collect platform (knownByFingerprint platform options.knownCommands) events).pending
    (findLastFileMutationIndex events) = [] ↔ ∀ start, Begun platform options events start →
      ∃ outcome, Ran platform options events outcome ∧ outcome.toCommandStart = start := by
  simp only [Collected.pending, List.filter_eq_nil_iff, mem_validStarts hu, decide_eq_true_eq, not_not,
    List.mem_map, mem_validOutcomes hu]
  refine forall₂_congr (fun start hs => ?_)
  constructor
  · rintro ⟨o, ho, he⟩
    exact ⟨o, ho, startIdentity_injective hu ho.1.begun hs.1 he⟩
  · rintro ⟨o, ho, rfl⟩
    exact ⟨o, ho, rfl⟩

theorem validOutcomes_ordered : ((collect platform (knownByFingerprint platform options.knownCommands)
    events).validOutcomes (findLastFileMutationIndex events)).Pairwise
      (fun o o' => o.completedEventIndex < o'.completedEventIndex) :=
  (paired_collect hu).ordered.sublist List.filter_sublist

/-- A report passes when every run that began has ended and the run of each
label that ended last has passed. -/
theorem report_passed (h : (collectVerificationReport platform events options).status = .passed) :
    (∃ outcome, Ran platform options events outcome) ∧
    (∀ start, Begun platform options events start →
      ∃ outcome, Ran platform options events outcome ∧ outcome.toCommandStart = start) ∧
    (∀ outcome, Ran platform options events outcome → ∃ last, Ran platform options events last ∧
      last.label = outcome.label ∧ outcome.completedEventIndex ≤ last.completedEventIndex ∧ Passed last) ∧
    ∀ command ∈ (collectVerificationReport platform events options).commands,
      ∃ outcome, Ran platform options events outcome ∧ outcome.label = command := by
  obtain ⟨hne, hpending, hcommands, hlatest⟩ := latest_passed h
  have hmem (o : CommandOutcome) : o ∈ (collect platform (knownByFingerprint platform options.knownCommands)
      events).validOutcomes (findLastFileMutationIndex events) ↔ Ran platform options events o :=
    mem_validOutcomes hu
  refine ⟨?_, (pending_nil hu).mp hpending, fun o ho => ?_, fun command hcommand => ?_⟩
  · obtain ⟨o, ho⟩ := List.exists_mem_of_ne_nil _ hne
    exact ⟨o, (hmem o).mp ho⟩
  · obtain ⟨last, hget⟩ := exists_latestByLabel ((hmem o).mpr ho)
    obtain ⟨hin, hl, hmax⟩ := (mapGet_latestByLabel (validOutcomes_ordered hu)).mp hget
    have hran := (hmem last).mp hin
    have hp := hlatest _ ((mapGet_eq_some (latestByLabel_keys _)).mp hget)
    exact ⟨last, hran, hl, hmax o ((hmem o).mpr ho) rfl, hran.1.passed hp⟩
  · rw [hcommands] at hcommand
    obtain ⟨o, ho, rfl⟩ := List.mem_map.mp hcommand
    exact ⟨o, (hmem o).mp ho, rfl⟩

/-- Of the runs of an exact command one ended last. -/
theorem exists_lastRun (ho : Ran platform options events outcome) : ∃ last,
    LastRun platform options events last ∧ last.fingerprint = outcome.fingerprint := by
  let runs := ((collect platform (knownByFingerprint platform options.knownCommands) events).validOutcomes
    (findLastFileMutationIndex events)).filter (fun o => o.fingerprint = outcome.fingerprint)
  have hmem (o : CommandOutcome) : o ∈ runs ↔
      Ran platform options events o ∧ o.fingerprint = outcome.fingerprint := by
    rw [List.mem_filter, mem_validOutcomes hu, decide_eq_true_eq]
  obtain ⟨last, hlast⟩ : ∃ last, List.argmax CommandOutcome.completedEventIndex runs = some last := by
    refine Option.ne_none_iff_exists'.mp (fun hn => ?_)
    have hin := (hmem outcome).mpr ⟨ho, rfl⟩
    rw [List.argmax_eq_none.mp hn] at hin
    cases hin
  obtain ⟨hran, hf⟩ := (hmem last).mp (List.argmax_mem hlast)
  exact ⟨last, ⟨hran, fun o ho' hof => List.le_of_mem_argmax ((hmem o).mpr ⟨ho', hof.trans hf⟩) hlast⟩, hf⟩

/-- One event ends one run. -/
theorem Ran.unique (h : Ran platform options events outcome) (h' : Ran platform options events other)
    (he : outcome.completedEventIndex = other.completedEventIndex) : outcome = other := by
  have hordered : ((collect platform (knownByFingerprint platform options.knownCommands)
      events).validOutcomes (findLastFileMutationIndex events)).Pairwise
        (fun o o' => o.completedEventIndex < o'.completedEventIndex) := validOutcomes_ordered hu
  have hnodup := List.Pairwise.map (S := (· ≠ ·)) CommandOutcome.completedEventIndex
    (fun _ _ => Nat.ne_of_lt) hordered
  exact List.inj_on_of_nodup_map hnodup ((mem_validOutcomes hu).mpr h) ((mem_validOutcomes hu).mpr h') he

theorem LastRun.unique (h : LastRun platform options events outcome)
    (h' : LastRun platform options events other) (hf : outcome.fingerprint = other.fingerprint) :
    outcome = other :=
  h.1.unique hu h'.1 (Nat.le_antisymm (h'.2 outcome h.1 hf) (h.2 other h'.1 hf.symm))

omit hu in
theorem mem_requiredKinds {changedFiles : List Text}
    (h : requiredVerificationKinds platform changedFiles ≠ []) :
    ∃ kind ∈ requiredVerificationKinds platform changedFiles, kind ∈ codeKinds := by
  rw [requiredVerificationKinds] at h ⊢
  split_ifs at h ⊢
  · exact absurd rfl h
  · exact ⟨.test, by decide, by decide⟩
  · exact absurd rfl h

omit hu in
theorem gate_report (hrequired : (assessVerificationGate platform events options).required = true)
    (hsatisfied : (assessVerificationGate platform events options).satisfied = true) :
    (collectVerificationReport platform events options).status = .passed ∧
    (∀ kind ∈ requiredVerificationKinds platform options.changedFiles, ∃ command ∈
      (collectVerificationReport platform events options).commands,
        kind ∈ commandKinds platform options.knownCommands command) ∧
    (requiresVerificationForFiles platform options.changedFiles = true → ∃ command ∈
      (collectVerificationReport platform events options).commands,
        ∃ kind ∈ commandKinds platform options.knownCommands command, kind ∈ codeKinds) ∧
    ∀ requested ∈ options.requestedCommand, ∃ command ∈
      (collectVerificationReport platform events options).commands,
        requested.label ∈ splitLabels [] command := by
  simp only [assessVerificationGate] at hrequired hsatisfied
  rw [hrequired] at hsatisfied
  simp only [Bool.not_true, Bool.false_or, Bool.and_eq_true, decide_eq_true_eq] at hsatisfied
  obtain ⟨⟨hstatus, hcommand⟩, hkinds⟩ := hsatisfied
  rw [if_pos hstatus] at hkinds
  have hobserved (kind : VerificationKind) (hk : kind ∈ collectReportKinds platform
      (collectVerificationReport platform events options) options.knownCommands) : ∃ command ∈
        (collectVerificationReport platform events options).commands,
          kind ∈ commandKinds platform options.knownCommands command := by
    rwa [collectReportKinds, mem_unique, List.mem_flatMap] at hk
  refine ⟨hstatus, fun kind hkind => ?_, fun hcode => ?_, fun requested hr => ?_⟩
  · rw [if_pos (List.ne_nil_of_mem hkind), List.all_eq_true] at hkinds
    exact hobserved kind (decide_eq_true_eq.mp (hkinds kind hkind))
  · split_ifs at hkinds with hnone
    · obtain ⟨kind, hin, hcodeKind⟩ := mem_requiredKinds hnone
      obtain ⟨command, hc, hk⟩ := hobserved kind (decide_eq_true_eq.mp (List.all_eq_true.mp hkinds kind hin))
      exact ⟨command, hc, kind, hk, hcodeKind⟩
    · rw [hcode, Bool.not_true, Bool.false_or, List.any_eq_true] at hkinds
      obtain ⟨kind, hin, hcodeKind⟩ := hkinds
      obtain ⟨command, hc, hk⟩ := hobserved kind hin
      exact ⟨command, hc, kind, hk, decide_eq_true_eq.mp hcodeKind⟩
  · rw [Option.mem_def.mp hr] at hcommand
    simpa [hstatus] using hcommand

end Soundness

section Examples

def plainPlatform : Platform :=
  ⟨id, fun path => path.map Char.toLower, fun left right => compareOfLessAndEq left right⟩

def toolEvent (type : String) (payload : List (String × Value)) : TraceEvent :=
  ⟨"event", "run", type, "2026-07-18T00:00:00.000Z", none, Fields.ofList payload⟩

def editOf (path : String) : TraceEvent :=
  toolEvent "tool_call.completed" [("toolName", .str "Edit"), ("callId", .str "edit"),
    ("input", .obj (Fields.ofList [("path", .str path)])), ("summary", .str "replaced 1 occurrence(s)")]

/-- A call of Bash with the command `npm test -- file`. -/
def testRun (callId file : String) (exitCode : Nat) : List TraceEvent := [
  toolEvent "tool_call.started" [("toolName", .str "Bash"), ("callId", .str callId),
    ("input", .obj (Fields.ofList [("commandFingerprint", .str ("npm test -- " ++ file)),
      ("verificationCommand", .str "npm test")]))],
  toolEvent "tool_call.completed" [("toolName", .str "Bash"), ("callId", .str callId),
    ("data", .obj (Fields.ofList [("exitCode", .num (.ofNat exitCode))]))]]

/-- One test file fails, and then another one passes. -/
def narrowerRerun : List TraceEvent :=
  editOf "src/a.ts" :: testRun "first" "a.test.ts" 1 ++ testRun "second" "b.test.ts" 0

def codeChange : CollectVerificationReportOptions := { changedFiles := ["src/a.ts".toList] }

theorem uniqueCallIds_narrowerRerun : UniqueCallIds narrowerRerun := by
  constructor <;> decide

end Examples

end Kross.Verification

import Kross.Mutation.Journal
import Mathlib.Data.List.Induction

namespace Kross.Mutation

open Kross.Json Kross.Jsonl

theorem parseMutation_fields (m : RawMutation) : parseMutation m.fields = some m := by
  obtain ⟨fields, id, h⟩ := m
  unfold parseMutation
  split
  · rename_i id' h'
    rw [h] at h'
    cases h'
    rfl
  · rename_i hn
    exact absurd h (hn id)

theorem parseMutationEvent_toJson (e : RawEvent) : parseMutationEvent e.toJson = some e := by
  cases e <;>
    simp [RawEvent.toJson, parseMutationEvent, Fields.ofList, Fields.get, parseMutation_fields]

theorem assertSupported_toJson (e : RawEvent) :
    assertSupportedDataVersion e.toJson "Mutation journal event" "schemaVersion" formatVersion true
      = .ok () := by
  cases e <;> simp [RawEvent.toJson, assertSupportedDataVersion, Fields.ofList, Fields.get]

theorem loadLine_text (j : Journal RawMutation Items) (e : RawEvent) :
    loadLine j e.text = .ok (j.apply e) := by
  simp [loadLine, RawEvent.text, parse_render, assertSupported_toJson, parseMutationEvent_toJson,
    Bind.bind, Except.bind, pure, Except.pure]

theorem newline_notMem_text (e : RawEvent) : '\n' ∉ e.text := newline_notMem_render _

theorem text_head (e : RawEvent) : ∃ s, e.text = '{' :: s := render_obj_head _

theorem blank_cons {c : Char} (s : List Char) (h : isTrimmed c = false) : blank (c :: s) = false := by
  simp [blank, h]

theorem records_text (e : RawEvent) : records e.text = [e.text] := by
  obtain ⟨s, hs⟩ := text_head e
  rw [records_of_notMem (newline_notMem_text e), hs, blank_cons s (by decide)]
  rfl

theorem records_event (e : RawEvent) : records e.line = [e.text] := by
  rw [RawEvent.line, records_split, records_nil, List.append_nil, records_text]

/-- A line cut anywhere before the end of its text is passed over. -/
theorem parse_torn_text {e : RawEvent} {n : Nat} (h : n < byteLength e.text) :
    ∀ s ∈ records (torn n e.line), parse s = none := by
  intro s hs
  obtain ⟨p, c, u, hp, ht⟩ := torn_of_lt h
  have hn : '\n' ∉ p := fun hm => newline_notMem_text e (hp ▸ List.mem_append_left _ hm)
  rw [RawEvent.line, torn_append_of_lt h] at hs
  rcases ht with ht | ht
  · rw [ht, records_of_notMem hn] at hs
    split_ifs at hs with hb
    · simp at hs
    · rw [List.mem_singleton.mp hs]
      exact parse_prefix hp.symm (by simp)
  · rw [ht, records_of_notMem (by simp [hn])] at hs
    split_ifs at hs with hb
    · simp at hs
    · rw [List.mem_singleton.mp hs]
      cases p with
      | nil => decide
      | cons d p =>
          obtain ⟨t, ht⟩ := text_head e
          have hd : d = '{' := (List.cons.inj (hp.symm.trans ht)).1
          subst hd
          by_contra hne
          obtain ⟨v, hv⟩ := Option.ne_none_iff_exists'.mp hne
          exact absurd (parse_brace_last (by decide) hv) (by decide)

theorem foldlM_loadLine_of_none {lines : List (List Char)} (h : ∀ s ∈ lines, parse s = none)
    (j : Journal RawMutation Items) : lines.foldlM loadLine j = .ok j := by
  induction lines with
  | nil => rfl
  | cons s lines ih =>
      have hs : loadLine j s = .ok j := by simp [loadLine, h s List.mem_cons_self]
      rw [List.foldlM_cons, hs]
      exact ih (fun t ht => h t (List.mem_cons_of_mem _ ht))

/-- An event of the life of a journal file: a line appended in full, a line of
which a crash left the first `bytes` bytes, and a start that loads the file. -/
inductive FileStep
  | append (event : RawEvent)
  | crash (event : RawEvent) (bytes : Nat)
  | restart

def FileStep.bytes : FileStep → List Char
  | .append event => event.line
  | .crash event bytes => torn bytes event.line
  | .restart => []

/-- The event whose line is there when the step is over, its newline aside. -/
def FileStep.written : FileStep → List RawEvent
  | .append event => [event]
  | .crash event bytes => if byteLength event.text ≤ bytes then [event] else []
  | .restart => []

def fileAfter (steps : List FileStep) : List Char := steps.flatMap FileStep.bytes

def writtenEvents (steps : List FileStep) : List RawEvent := steps.flatMap FileStep.written

/-- Nothing is appended to a file whose last line has no newline. -/
def AppendsToWholeLines (steps : List FileStep) : Prop :=
  ∀ before step after, steps = before ++ step :: after → step ≠ .restart →
    Terminated (fileAfter before)

theorem appendsToWholeLines_nil : AppendsToWholeLines [] := by
  intro before step after h
  simp at h

theorem appendsToWholeLines_concat {steps : List FileStep} {step : FileStep}
    (h : AppendsToWholeLines steps) (ht : step ≠ .restart → Terminated (fileAfter steps)) :
    AppendsToWholeLines (steps ++ [step]) := by
  intro before s after hs hr
  rcases List.eq_nil_or_concat after with rfl | ⟨after, d, rfl⟩
  · obtain ⟨rfl, he⟩ := List.append_inj' hs rfl
    cases he
    exact ht hr
  · have he : steps ++ [step] = (before ++ s :: after) ++ [d] := by simpa using hs
    exact h before s after (List.append_inj_left' he rfl) hr

theorem terminated_line (e : RawEvent) : Terminated e.line := terminated_concat _

theorem foldlM_step (j : Journal RawMutation Items) (step : FileStep) :
    (records step.bytes).foldlM loadLine j = .ok (step.written.foldl Journal.apply j) := by
  cases step with
  | append e =>
      rw [FileStep.bytes, records_event]
      simp [FileStep.written, loadLine_text, pure, Except.pure, Bind.bind, Except.bind]
  | restart => simp [FileStep.bytes, FileStep.written, records_nil, pure, Except.pure]
  | crash e n =>
      by_cases h : byteLength e.text ≤ n
      · have hr : records (torn n e.line) = [e.text] := by
          rw [RawEvent.line, torn_append_of_le h]
          rcases torn_terminator (n - byteLength e.text) with ht | ht
          · rw [ht, List.append_nil, records_text]
          · rw [ht]
            exact records_event e
        simp [FileStep.bytes, FileStep.written, h, hr, loadLine_text, pure, Except.pure, Bind.bind,
          Except.bind]
      · rw [FileStep.bytes, foldlM_loadLine_of_none (parse_torn_text (Nat.lt_of_not_le h))]
        simp [FileStep.written, h]

theorem load_step {file : List Char} {j : Journal RawMutation Items} {step : FileStep}
    (hf : load file = .ok j) (ht : step ≠ .restart → Terminated file) :
    load (file ++ step.bytes) = .ok (step.written.foldl Journal.apply j) := by
  by_cases hs : step = .restart
  · subst hs
    simpa [FileStep.bytes, FileStep.written] using hf
  · rw [load] at hf ⊢
    rw [records_append (ht hs), List.foldlM_append, hf]
    exact foldlM_step j step

theorem load_fileAfter {steps : List FileStep} (h : AppendsToWholeLines steps) :
    load (fileAfter steps) = .ok (.replay (writtenEvents steps)) := by
  induction steps using List.reverseRecOn with
  | nil => simp [fileAfter, writtenEvents, load, records_nil, Journal.replay, pure, Except.pure]
  | append_singleton steps step ih =>
      have hp : AppendsToWholeLines steps := fun a s b hs =>
        h a s (b ++ [step]) (by rw [hs, List.append_assoc, List.cons_append])
      have hs := load_step (ih hp) (h steps step [] rfl)
      simpa [fileAfter, writtenEvents, Journal.replay, List.foldl_append] using hs

/-- At every restart the file loads as the events whose lines were written, and
what they take back is neither recovered nor undone again. -/
def LoadsWhatWasWritten (steps : List FileStep) : Prop :=
  ∀ before after, steps = before ++ .restart :: after →
    ∃ j, load (fileAfter before) = .ok j ∧ j = .replay (writtenEvents before) ∧
      ∀ id, TakenBack id (writtenEvents before) →
        (∀ m ∈ j.listIncomplete, transactionId m ≠ id) ∧ id ∉ j.activeIds

theorem loads_what_was_written {steps : List FileStep} (h : AppendsToWholeLines steps) :
    LoadsWhatWasWritten steps := by
  rintro before after rfl
  refine ⟨_, load_fileAfter ?_, rfl, fun id hid => notRestored_of_takenBack hid⟩
  exact fun a s b hs => h a s (b ++ .restart :: after) (by rw [hs]; simp)

def crashedMutation : RawMutation where
  fields := Fields.ofList [("transactionId", .str "m1")]
  id := "m1"
  named := rfl

theorem loads_after_untorn_crash :
    LoadsWhatWasWritten [.append (.prepared crashedMutation), .crash (.rolledBack "m1" "r") 0,
      .restart, .append (.rolledBack "m1" "r"), .restart] := by
  have hl := terminated_line (.prepared crashedMutation)
  have h1 : AppendsToWholeLines [.append (.prepared crashedMutation)] :=
    appendsToWholeLines_concat appendsToWholeLines_nil (fun _ => terminated_nil)
  have h2 : AppendsToWholeLines ([.append (.prepared crashedMutation)] ++
      [.crash (.rolledBack "m1" "r") 0]) :=
    appendsToWholeLines_concat h1 (fun _ => by simpa [fileAfter, FileStep.bytes] using hl)
  have h3 := appendsToWholeLines_concat h2 (fun h => absurd rfl h)
  have h4 : AppendsToWholeLines (_ ++ [.append (.rolledBack "m1" "r")]) :=
    appendsToWholeLines_concat h3 (fun _ => by
      have h0 : torn 0 (RawEvent.line (.rolledBack "m1" "r")) = [] := rfl
      simpa [fileAfter, FileStep.bytes, h0] using hl)
  exact loads_what_was_written (appendsToWholeLines_concat h4 (fun h => absurd rfl h))

/-- The rollback that the first recovery writes is torn, and the one that the
second recovery writes is appended to what is left of it. -/
def tornRollback : List FileStep :=
  [.append (.prepared crashedMutation), .restart, .crash (.rolledBack "m1" "r") 1, .restart,
    .append (.rolledBack "m1" "r"), .restart]

theorem parse_two_braces (s : List Char) : parse ('{' :: '{' :: s) = none := by
  simp [parse, readValue, readFields, skip, isSpace, expect]

theorem torn_one_text (e : RawEvent) : torn 1 e.line = ['{'] := by
  obtain ⟨s, hs⟩ := text_head e
  rw [RawEvent.line, hs, List.cons_append, torn, if_neg (by decide), if_pos (by decide)]
  cases s <;> rfl

/-- A line that follows a torn one is lost with it. -/
theorem load_append_torn (e d : RawEvent) {steps : List FileStep} (h : AppendsToWholeLines steps)
    (ht : Terminated (fileAfter steps)) :
    load (fileAfter (steps ++ [.crash e 1, .restart, .append d])) =
      .ok (.replay (writtenEvents steps)) := by
  have hl := load_fileAfter h
  have hn : '\n' ∉ '{' :: d.text := by simp [newline_notMem_text]
  have hf : fileAfter (steps ++ [.crash e 1, .restart, .append d]) =
      fileAfter steps ++ ('{' :: d.text ++ ['\n']) := by
    simp only [fileAfter, List.flatMap_append, List.flatMap_cons, List.flatMap_nil, FileStep.bytes,
      torn_one_text, List.append_nil, List.nil_append, List.cons_append]
    rfl
  rw [load] at hl ⊢
  rw [hf, records_append ht, records_line hn, blank_cons _ (by decide), List.foldlM_append, hl]
  refine foldlM_loadLine_of_none ?_ _
  intro s hs
  obtain ⟨t, hd⟩ := text_head d
  rw [List.mem_singleton.mp hs, hd]
  exact parse_two_braces t

theorem appendsToWholeLines_prepared (m : RawMutation) :
    AppendsToWholeLines [.append (.prepared m), .restart] :=
  appendsToWholeLines_concat (appendsToWholeLines_concat appendsToWholeLines_nil
    (fun _ => terminated_nil)) (fun h => absurd rfl h)

theorem torn_rollback_is_repeated : ¬ LoadsWhatWasWritten tornRollback := by
  intro h
  obtain ⟨j, hj, hr, -⟩ := h tornRollback.dropLast [] rfl
  have hl := load_append_torn (.rolledBack "m1" "r") (.rolledBack "m1" "r")
    (appendsToWholeLines_prepared crashedMutation)
    (by simpa [fileAfter, FileStep.bytes] using terminated_line _)
  have he : Journal.replay (writtenEvents [.append (.prepared crashedMutation), .restart]) = j :=
    Except.ok.inj (hl.symm.trans hj)
  have hlen := congrArg (fun j => j.prepared.length) (he.trans hr)
  revert hlen
  decide

end Kross.Mutation

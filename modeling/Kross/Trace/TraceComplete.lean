import Kross.Trace.SessionTraceStore
import Mathlib.Data.List.Induction

namespace Kross.Trace

open Kross.Json Kross.Jsonl Kross.Run
open Kross.Worker (optional optionalField)

variable {datetime : String → Bool} {event parsed : TraceEvent} {store : SessionTraceStore} {runId : String}

section RoundTrip

theorem fields_get (event : TraceEvent) :
    event.fields.get "id" = some (.str event.id) ∧
    event.fields.get "runId" = some (.str event.runId) ∧
    event.fields.get "type" = some (.str event.type) ∧
    event.fields.get "timestamp" = some (.str event.timestamp) ∧
    event.fields.get "parentId" = event.parentId.map .str ∧
    event.fields.get "payload" = some (.obj event.payload) ∧
    event.fields.get "schemaVersion" = none := by
  obtain ⟨id, runId, type, timestamp, parentId, payload⟩ := event
  cases parentId <;> simp [TraceEvent.fields, optionalField, Fields.ofList, Fields.get]

theorem stored_get (event : TraceEvent) :
    event.stored.get "schemaVersion" = some (.num (.ofNat TRACE_EVENT_FORMAT_VERSION)) ∧
    ∀ key ≠ "schemaVersion", event.stored.get key = event.fields.get key := by
  obtain ⟨-, -, -, -, -, -, h⟩ := fields_get event
  refine ⟨by simp only [TraceEvent.stored, Fields.get, h, if_true], fun key hkey => ?_⟩
  rw [TraceEvent.stored, Fields.get, if_neg (Ne.symm hkey)]
  cases event.fields.get key <;> rfl

theorem schema_stored (event : TraceEvent) :
    traceEventSchema datetime (.obj event.stored) = traceEventSchema datetime (.obj event.fields) := by
  have h := (stored_get event).2
  simp only [traceEventSchema, h "id" (by decide), h "runId" (by decide), h "type" (by decide),
    h "timestamp" (by decide), h "parentId" (by decide), h "payload" (by decide)]

theorem nonEmpty_str {s t : String} (h : nonEmptySchema (.str s) = some t) : t = s := by
  simp only [nonEmptySchema] at h
  split_ifs at h
  exact (Option.some.inj h).symm

theorem datetime_str {s t : String} (h : datetimeSchema datetime (.str s) = some t) : t = s := by
  simp only [datetimeSchema] at h
  split_ifs at h
  exact (Option.some.inj h).symm

theorem optional_str {x y : Option String} (h : optional nonEmptySchema (x.map .str) = some y) : y = x := by
  cases x with
  | none => exact (Option.some.inj h).symm
  | some s =>
      obtain ⟨t, ht, rfl⟩ := Option.map_eq_some_iff.mp h
      rw [nonEmpty_str ht]

/-- An event that the schema takes, it takes unchanged. -/
theorem schema_fields (h : traceEventSchema datetime (.obj event.fields) = some parsed) : parsed = event := by
  obtain ⟨h1, h2, h3, h4, h5, h6, -⟩ := fields_get event
  simp only [traceEventSchema, h1, h2, h3, h4, h5, h6, Option.bind_some, bind, Option.bind_eq_some_iff] at h
  obtain ⟨id, hid, run, hrun, type, htype, time, htime, parent, hparent, payload, hpayload, h⟩ := h
  rw [nonEmpty_str hid, nonEmpty_str hrun, nonEmpty_str htype, datetime_str htime, optional_str hparent,
    ← Option.some.inj hpayload] at h
  exact (Option.some.inj h).symm

theorem parse_stored (h : traceEventSchema datetime (.obj event.fields) = some event) :
    parseStoredTraceEvent datetime (JsonLog.text event.stored) = .ok (some event) := by
  have hv := (stored_get event).1
  rw [parseStoredTraceEvent, JsonLog.text, parse_render]
  simp only [assertSupportedDataVersion, hv, toNat_ofNat, if_true, schema_stored, h]
  rfl

/-- A call of `append` that does not throw appends the line of the event and
writes its index row. -/
theorem append_ok {now : Nat} {actions : List StoreAction}
    (h : store.append datetime event now = .ok actions) :
    traceEventSchema datetime (.obj event.fields) = some event ∧ isSafeRunId event.runId = true ∧
      actions = [.appendFile store.sessionFilePath (JsonLog.line event.stored) now,
        .upsertRunIndex store event] := by
  rw [SessionTraceStore.append, serializeTraceEvent] at h
  cases hs : traceEventSchema datetime (.obj event.fields) with
  | none =>
      rw [hs] at h
      cases h
  | some parsed =>
      have he := schema_fields hs
      subst he
      simp only [hs, Option.map_some, parse_stored hs] at h
      split_ifs at h with hsafe
      exact ⟨rfl, hsafe, (Except.ok.inj h).symm⟩

end RoundTrip

section Reading

variable {events : List TraceEvent} {content : List Char} {file : Option TraceFile}

theorem readLine_text (h : traceEventSchema datetime (.obj event.fields) = some event) :
    readLine datetime runId events (JsonLog.text event.stored) =
      .ok (if event.runId = runId then events ++ [event] else events) := by
  rw [readLine, parse_stored h]
  rfl

theorem readLine_torn {n : Nat} (h : n < byteLength (JsonLog.text event.stored)) :
    (records (torn n (JsonLog.line event.stored))).foldlM (readLine datetime runId) events = .ok events := by
  have hparse := JsonLog.parse_torn event.stored h
  generalize records (torn n (JsonLog.line event.stored)) = lines at hparse
  induction lines with
  | nil => rfl
  | cons line lines ih =>
      have hline : readLine datetime runId events line = .ok events := by
        rw [readLine, parseStoredTraceEvent, hparse line List.mem_cons_self]
        rfl
      rw [List.foldlM_cons, hline]
      exact ih (fun s hs => hparse s (List.mem_cons_of_mem _ hs))

/-- The texts of a line that is written as a whole and of one without its end. -/
theorem readLine_whole {text : List Char} (h : traceEventSchema datetime (.obj event.fields) = some event)
    (ht : records text = [JsonLog.text event.stored]) :
    (records text).foldlM (readLine datetime runId) events =
      .ok (if event.runId = runId then events ++ [event] else events) := by
  rw [ht, List.foldlM_cons, readLine_text h]
  rfl

/-- What a file reads as, with a text behind its last line. -/
theorem read_extend {text : List Char} {now : Nat} {path : Path} {archive : Archive}
    (h : readEventsFromFile datetime (archive.files path) runId = .ok events)
    (ht : (archive.files path).all (fun file => decide (Terminated file.content))) :
    readEventsFromFile datetime ((archive.extend path text now).files path) runId =
      (records text).foldlM (readLine datetime runId) events := by
  simp only [Archive.extend, Function.update_self]
  rw [readEventsFromFile]
  cases hf : archive.files path with
  | none =>
      rw [hf, readEventsFromFile] at h
      cases h
      rfl
  | some file =>
      rw [hf, readEventsFromFile] at h
      rw [hf, Option.all_some, decide_eq_true_eq] at ht
      simp only [Option.map_some, Option.getD_some, records_append ht, List.foldlM_append, h]
      rfl

end Reading

section Kept

variable {workspaceKey name : String} {history more : List TraceEvent} {archive archive' : Archive}

/-- The events of the run are all in one file of the workspace. -/
def HeldIn (datetime : String → Bool) (workspaceKey runId name : String) (history : List TraceEvent)
    (archive : Archive) : Prop :=
  readEventsFromFile datetime (archive.files (workspaceKey, name)) runId = .ok history ∧
    ∀ other ≠ name, readEventsFromFile datetime (archive.files (workspaceKey, other)) runId = .ok []

/-- The index knows the file that the events of the run are in. -/
def Kept (datetime : String → Bool) (workspaceKey runId : String) (history : List TraceEvent)
    (archive : Archive) : Prop :=
  match archive.rows workspaceKey runId with
  | none => history = [] ∧
      ∀ name, readEventsFromFile datetime (archive.files (workspaceKey, name)) runId = .ok []
  | some row => ∃ name, row.filePath = (workspaceKey, name) ∧
      HeldIn datetime workspaceKey runId name history archive

theorem Kept.congr (h : Kept datetime workspaceKey runId history archive)
    (hfiles : ∀ name, readEventsFromFile datetime (archive'.files (workspaceKey, name)) runId =
      readEventsFromFile datetime (archive.files (workspaceKey, name)) runId)
    (hrows : archive'.rows workspaceKey runId = archive.rows workspaceKey runId) :
    Kept datetime workspaceKey runId history archive' := by
  simpa only [Kept, HeldIn, hfiles, hrows] using h

theorem Kept.reads (h : Kept datetime workspaceKey runId history archive) (name : String) :
    ∃ events, readEventsFromFile datetime (archive.files (workspaceKey, name)) runId = .ok events := by
  rw [Kept] at h
  split at h
  · exact ⟨[], h.2 name⟩
  · obtain ⟨held, -, hheld, hother⟩ := h
    by_cases he : name = held
    · exact ⟨history, he ▸ hheld⟩
    · exact ⟨[], hother name he⟩

/-- A file that is the only one with events of the run has all of them. -/
theorem Kept.heldIn (h : Kept datetime workspaceKey runId history archive)
    (halone : ∀ other ≠ name, readEventsFromFile datetime (archive.files (workspaceKey, other)) runId = .ok []) :
    HeldIn datetime workspaceKey runId name history archive := by
  refine ⟨?_, halone⟩
  rw [Kept] at h
  split at h
  · rw [h.1]
    exact h.2 name
  · obtain ⟨held, -, hheld, hother⟩ := h
    by_cases he : name = held
    · rw [he]
      exact hheld
    · rw [hother name he, ← hheld, halone held (Ne.symm he)]

theorem extend_files {path other : Path} {text : List Char} {now : Nat} (h : other ≠ path) :
    (archive.extend path text now).files other = archive.files other := by
  simp only [Archive.extend, Function.update_of_ne h]

theorem extend_rows {path : Path} {text : List Char} {now : Nat} :
    (archive.extend path text now).rows = archive.rows := rfl

theorem upsert_files : (archive.upsert store event).files = archive.files := rfl

theorem upsert_rows_other (h : store.workspaceKey ≠ workspaceKey ∨ event.runId ≠ runId) :
    (archive.upsert store event).rows workspaceKey runId = archive.rows workspaceKey runId := by
  simp only [Archive.upsert]
  by_cases hk : workspaceKey = store.workspaceKey
  · subst hk
    have hr : runId ≠ event.runId := fun he => h.elim (absurd rfl) (absurd he.symm)
    rw [Function.update_self, Function.update_of_ne hr]
  · rw [Function.update_of_ne hk]

theorem upsert_rows (archive : Archive) (store : SessionTraceStore) (event : TraceEvent) : ∃ row,
    (archive.upsert store event).rows store.workspaceKey event.runId = some row ∧
    row.filePath = store.sessionFilePath := by
  simp only [Archive.upsert, Function.update_self]
  refine ⟨_, rfl, ?_⟩
  split <;> rfl

/-- A text that reads as no event of the run. -/
theorem Kept.silent (h : Kept datetime workspaceKey runId history archive) {text : List Char} {now : Nat}
    {path : Path} (ht : path.1 = workspaceKey →
      (archive.files path).all (fun file => decide (Terminated file.content)))
    (hs : path.1 = workspaceKey → ∀ events,
      (records text).foldlM (readLine datetime runId) events = .ok events) :
    Kept datetime workspaceKey runId history (archive.extend path text now) := by
  refine h.congr (fun name => ?_) rfl
  by_cases he : (workspaceKey, name) = path
  · obtain ⟨events, hevents⟩ := h.reads name
    subst he
    rw [hevents, read_extend hevents (ht rfl), hs rfl]
  · rw [extend_files he]

theorem HeldIn.extend (h : HeldIn datetime workspaceKey runId name history archive) {text : List Char}
    {now : Nat} (ht : (archive.files (workspaceKey, name)).all (fun file => decide (Terminated file.content)))
    (hs : (records text).foldlM (readLine datetime runId) history = .ok (history ++ more)) :
    HeldIn datetime workspaceKey runId name (history ++ more)
      (archive.extend (workspaceKey, name) text now) := by
  refine ⟨by rw [read_extend h.1 ht, hs], fun other hother => ?_⟩
  rw [extend_files (fun he => hother (congrArg Prod.snd he))]
  exact h.2 other hother

end Kept

section Steps

variable {workspaceKey : String} {history : List TraceEvent} {archive : Archive} {step : StoreStep}

def StoreStep.writer : StoreStep → Option SessionTraceStore
  | .opens _ => none
  | .append store _ _ => some store
  | .crash store _ _ _ _ => some store

/-- The events of the run are written by one process, behind whole lines; the
process does not end between the first of them and its index row, and no file
that holds one has expired when another process starts. -/
structure StoreAllowed (datetime : String → Bool) (workspaceKey runId : String) (archive : Archive)
    (step : StoreStep) : Prop where
  terminated : ∀ store, step.writer = some store → store.workspaceKey = workspaceKey →
    (archive.files store.sessionFilePath).all (fun file => decide (Terminated file.content))
  alone : ∀ store, step.writer = some store → eventsOf datetime workspaceKey runId [step] ≠ [] →
    ∀ name ≠ store.sessionFile, readEventsFromFile datetime (archive.files (workspaceKey, name)) runId = .ok []
  indexed : ∀ store event now done bytes, step = .crash store event now done bytes → done < 2 →
    eventsOf datetime workspaceKey runId [step] ≠ [] →
      (archive.rows workspaceKey runId).map TraceRunRow.filePath = some store.sessionFilePath
  unexpired : ∀ now name file, step = .opens now → archive.files (workspaceKey, name) = some file →
    expired now (workspaceKey, name) file = true → readEventsFromFile datetime (some file) runId = .ok []

theorem eventsOf_append (steps more : List StoreStep) :
    eventsOf datetime workspaceKey runId (steps ++ more) =
      eventsOf datetime workspaceKey runId steps ++ eventsOf datetime workspaceKey runId more := by
  rw [eventsOf, List.flatMap_append, List.filter_append, List.map_append]
  rfl

/-- The event of a run, as far as a step writes it. -/
def mine (workspaceKey runId : String) (store : SessionTraceStore) (event : TraceEvent) : List TraceEvent :=
  if store.workspaceKey = workspaceKey ∧ event.runId = runId then [event] else []

theorem eventsOf_written (h : step.written datetime = [(store.workspaceKey, event)]) :
    eventsOf datetime workspaceKey runId [step] = mine workspaceKey runId store event := by
  rw [eventsOf, List.flatMap_singleton, h, mine]
  by_cases hm : store.workspaceKey = workspaceKey ∧ event.runId = runId <;> simp [hm]

/-- The line of an event comes into the session file, with its end or without. -/
theorem Kept.line (h : Kept datetime workspaceKey runId history archive) {text : List Char} {now : Nat}
    (hs : traceEventSchema datetime (.obj event.fields) = some event)
    (ht : records text = [JsonLog.text event.stored])
    (hterm : store.workspaceKey = workspaceKey →
      (archive.files store.sessionFilePath).all (fun file => decide (Terminated file.content)))
    (hother : ¬(store.workspaceKey = workspaceKey ∧ event.runId = runId)) :
    Kept datetime workspaceKey runId history (archive.extend store.sessionFilePath text now) := by
  refine h.silent hterm (fun hk events => ?_)
  rw [readLine_whole hs ht, if_neg (fun hr => hother ⟨hk, hr⟩)]

theorem Kept.line_mine (h : Kept datetime store.workspaceKey event.runId history archive) {text : List Char}
    {now : Nat} (hs : traceEventSchema datetime (.obj event.fields) = some event)
    (ht : records text = [JsonLog.text event.stored])
    (hterm : (archive.files store.sessionFilePath).all (fun file => decide (Terminated file.content)))
    (halone : ∀ name ≠ store.sessionFile,
      readEventsFromFile datetime (archive.files (store.workspaceKey, name)) event.runId = .ok []) :
    HeldIn datetime store.workspaceKey event.runId store.sessionFile (history ++ [event])
      (archive.extend store.sessionFilePath text now) := by
  refine (h.heldIn halone).extend hterm ?_
  rw [readLine_whole hs ht, if_pos rfl]

theorem Kept.append (h : Kept datetime workspaceKey runId history archive) {now : Nat}
    (hs : traceEventSchema datetime (.obj event.fields) = some event)
    (hterm : store.workspaceKey = workspaceKey →
      (archive.files store.sessionFilePath).all (fun file => decide (Terminated file.content)))
    (halone : mine workspaceKey runId store event ≠ [] → ∀ name ≠ store.sessionFile,
      readEventsFromFile datetime (archive.files (workspaceKey, name)) runId = .ok []) :
    Kept datetime workspaceKey runId (history ++ mine workspaceKey runId store event)
      ((archive.extend store.sessionFilePath (JsonLog.line event.stored) now).upsert store event) := by
  by_cases hm : store.workspaceKey = workspaceKey ∧ event.runId = runId
  · rw [mine, if_pos hm] at halone ⊢
    obtain ⟨rfl, rfl⟩ := hm
    have hheld : HeldIn datetime store.workspaceKey event.runId store.sessionFile (history ++ [event])
        (archive.extend store.sessionFilePath (JsonLog.line event.stored) now) :=
      h.line_mine hs (JsonLog.records_line event.stored) (hterm rfl) (halone (by simp))
    obtain ⟨row, hrow, hpath⟩ :=
      upsert_rows (archive.extend store.sessionFilePath (JsonLog.line event.stored) now) store event
    rw [Kept, hrow]
    exact ⟨store.sessionFile, hpath, hheld⟩
  · rw [mine, if_neg hm, List.append_nil]
    have hline : Kept datetime workspaceKey runId history
        (archive.extend store.sessionFilePath (JsonLog.line event.stored) now) :=
      h.line hs (JsonLog.records_line event.stored) hterm hm
    exact hline.congr (fun _ => rfl) (upsert_rows_other (not_and_or.mp hm))

/-- The process ends before the index row is written. -/
theorem Kept.unindexed (h : Kept datetime workspaceKey runId history archive) {text : List Char} {now : Nat}
    (hs : traceEventSchema datetime (.obj event.fields) = some event)
    (ht : records text = [JsonLog.text event.stored])
    (hterm : store.workspaceKey = workspaceKey →
      (archive.files store.sessionFilePath).all (fun file => decide (Terminated file.content)))
    (halone : mine workspaceKey runId store event ≠ [] → ∀ name ≠ store.sessionFile,
      readEventsFromFile datetime (archive.files (workspaceKey, name)) runId = .ok [])
    (hindexed : mine workspaceKey runId store event ≠ [] →
      (archive.rows workspaceKey runId).map TraceRunRow.filePath = some store.sessionFilePath) :
    Kept datetime workspaceKey runId (history ++ mine workspaceKey runId store event)
      (archive.extend store.sessionFilePath text now) := by
  by_cases hm : store.workspaceKey = workspaceKey ∧ event.runId = runId
  · rw [mine, if_pos hm] at halone hindexed ⊢
    obtain ⟨rfl, rfl⟩ := hm
    obtain ⟨row, hrow, hpath⟩ := Option.map_eq_some_iff.mp (hindexed (by simp))
    rw [Kept, extend_rows, hrow]
    exact ⟨store.sessionFile, hpath, h.line_mine hs ht (hterm rfl) (halone (by simp))⟩
  · rw [mine, if_neg hm, List.append_nil]
    exact h.line hs ht hterm hm

theorem Kept.opens (h : Kept datetime workspaceKey runId history archive) {now : Nat}
    (hx : ∀ name file, archive.files (workspaceKey, name) = some file →
      expired now (workspaceKey, name) file = true → readEventsFromFile datetime (some file) runId = .ok []) :
    Kept datetime workspaceKey runId history (archive.pruneExpiredTraces now) := by
  have hfiles (name : String) :
      readEventsFromFile datetime ((archive.pruneExpiredTraces now).files (workspaceKey, name)) runId =
        readEventsFromFile datetime (archive.files (workspaceKey, name)) runId := by
    cases hf : archive.files (workspaceKey, name) with
    | none => simp only [Archive.pruneExpiredTraces, hf, Option.filter_none]
    | some file =>
        cases he : expired now (workspaceKey, name) file with
        | false =>
            simp only [Archive.pruneExpiredTraces, hf, Option.filter_some, he, Bool.not_false, if_true]
        | true =>
            rw [hx name file hf he]
            simp only [Archive.pruneExpiredTraces, hf, Option.filter_some, he, Bool.not_true]
            rfl
  cases hrow : archive.rows workspaceKey runId with
  | none =>
      refine h.congr hfiles ?_
      simp only [Archive.pruneExpiredTraces, hrow, Option.filter_none]
  | some row =>
      cases he : (archive.files row.filePath).any (expired now row.filePath) with
      | false =>
          refine h.congr hfiles ?_
          simp only [Archive.pruneExpiredTraces, hrow, Option.filter_some, he, Bool.not_false, if_true]
      | true =>
          rw [Kept, hrow] at h
          obtain ⟨name, hpath, hheld, hother⟩ := h
          obtain ⟨file, hf, hexpired⟩ := (Option.any_eq_true _ _).mp he
          rw [hpath] at hf hexpired
          rw [hf, hx name file hf hexpired] at hheld
          have hnone : (archive.pruneExpiredTraces now).rows workspaceKey runId = none := by
            simp only [Archive.pruneExpiredTraces, hrow, Option.filter_some, he, Bool.not_true]
            rfl
          rw [Kept, hnone]
          refine ⟨(Except.ok.inj hheld).symm, fun other => ?_⟩
          rw [hfiles]
          by_cases ho : other = name
          · rw [ho, hf, hx name file hf hexpired]
          · exact hother other ho

/-- An append touches no file but that of its process. -/
theorem append_files {now : Nat} {path : Path} (h : path ≠ store.sessionFilePath) :
    (archive.next datetime (.append store event now)).files path = archive.files path := by
  rw [Archive.next]
  split
  · rename_i hr
    obtain ⟨-, -, rfl⟩ := append_ok hr
    exact extend_files h
  · rfl

theorem kept_append (h : Kept datetime workspaceKey runId history archive) {now : Nat}
    (ha : StoreAllowed datetime workspaceKey runId archive (.append store event now)) :
    Kept datetime workspaceKey runId
      (history ++ eventsOf datetime workspaceKey runId [.append store event now])
      (archive.next datetime (.append store event now)) := by
  cases hr : store.append datetime event now with
  | error e =>
      simp only [eventsOf, List.flatMap_singleton, StoreStep.written, Archive.next, hr]
      simpa using h
  | ok actions =>
      obtain ⟨hs, -, rfl⟩ := append_ok hr
      have hw : StoreStep.written datetime (.append store event now) = [(store.workspaceKey, event)] := by
        rw [StoreStep.written, hr]
      have halone := ha.alone store rfl
      rw [eventsOf_written hw] at halone ⊢
      simp only [Archive.next, hr]
      exact h.append hs (ha.terminated store rfl) halone

section Interrupt

variable {path : Path} {line : List Char} {now bytes : Nat}

theorem interrupt_line :
    Device.interrupt 0 bytes [StoreAction.appendFile path line now, .upsertRunIndex store event] archive =
      archive.extend path (torn bytes line) now := rfl

theorem interrupt_row :
    Device.interrupt 1 bytes [StoreAction.appendFile path line now, .upsertRunIndex store event] archive =
      archive.extend path line now := rfl

theorem interrupt_none (done : Nat) :
    Device.interrupt (done + 2) bytes [StoreAction.appendFile path line now, .upsertRunIndex store event] archive =
      (archive.extend path line now).upsert store event := by
  simp only [Device.interrupt, List.drop_succ_cons, List.drop_nil]
  rfl

end Interrupt

theorem kept_crash (h : Kept datetime workspaceKey runId history archive) {now done bytes : Nat}
    (ha : StoreAllowed datetime workspaceKey runId archive (.crash store event now done bytes)) :
    Kept datetime workspaceKey runId
      (history ++ eventsOf datetime workspaceKey runId [.crash store event now done bytes])
      (archive.next datetime (.crash store event now done bytes)) := by
  cases hr : store.append datetime event now with
  | error e =>
      simp only [eventsOf, List.flatMap_singleton, StoreStep.written, Archive.next, hr]
      simpa using h
  | ok actions =>
      obtain ⟨hs, -, rfl⟩ := append_ok hr
      have hterm := ha.terminated store rfl
      have halone := ha.alone store rfl
      have hindexed := ha.indexed store event now done bytes rfl
      by_cases hb : 0 < done ∨ byteLength (JsonLog.text event.stored) ≤ bytes
      · have hw : StoreStep.written datetime (.crash store event now done bytes) =
            [(store.workspaceKey, event)] := by
          rw [StoreStep.written, hr]
          exact if_pos hb
        rw [eventsOf_written hw] at halone hindexed ⊢
        simp only [Archive.next, hr]
        rcases done with - | - | done
        · rw [interrupt_line]
          exact h.unindexed hs (JsonLog.records_torn event.stored (by simpa using hb)) hterm halone
            (hindexed (by decide))
        · rw [interrupt_row]
          exact h.unindexed hs (JsonLog.records_line event.stored) hterm halone (hindexed (by decide))
        · rw [interrupt_none]
          exact h.append hs hterm halone
      · have hw : StoreStep.written datetime (.crash store event now done bytes) = [] := by
          rw [StoreStep.written, hr]
          exact if_neg hb
        rw [eventsOf, List.flatMap_singleton, hw]
        rw [not_or, Nat.not_lt, Nat.le_zero, Nat.not_le] at hb
        obtain ⟨rfl, hb⟩ := hb
        simp only [Archive.next, hr, List.filter_nil, List.map_nil, List.append_nil, interrupt_line]
        exact h.silent hterm (fun _ _ => readLine_torn hb)

theorem kept_next (h : Kept datetime workspaceKey runId history archive)
    (ha : StoreAllowed datetime workspaceKey runId archive step) :
    Kept datetime workspaceKey runId (history ++ eventsOf datetime workspaceKey runId [step])
      (archive.next datetime step) := by
  cases step with
  | opens now =>
      have hnone : eventsOf datetime workspaceKey runId [.opens now] = [] := rfl
      rw [hnone, List.append_nil]
      exact h.opens (fun name file => ha.unexpired now name file rfl)
  | append store event now => exact kept_append h ha
  | crash store event now done bytes => exact kept_crash h ha

theorem kept_run {steps : List StoreStep}
    (h : Along (Archive.next datetime) (StoreAllowed datetime workspaceKey runId) .empty steps) :
    Kept datetime workspaceKey runId (eventsOf datetime workspaceKey runId steps)
      (after (Archive.next datetime) .empty steps) := by
  induction steps using List.reverseRecOn with
  | nil => exact ⟨rfl, fun _ => rfl⟩
  | append_singleton steps step ih =>
      obtain ⟨hsteps, hstep⟩ := along_concat.mp h
      rw [eventsOf_append, after_concat]
      exact kept_next (ih hsteps) hstep

/-- No event is written for a run id that is not safe. -/
theorem eventsOf_rejected (h : isSafeRunId runId = false) (steps : List StoreStep) :
    eventsOf datetime workspaceKey runId steps = [] := by
  rw [eventsOf, List.map_eq_nil_iff, List.filter_eq_nil_iff]
  rintro ⟨key, event⟩ he
  obtain ⟨step, -, hw⟩ := List.mem_flatMap.mp he
  have hsafe : isSafeRunId event.runId = true := by
    cases step with
    | opens now => cases hw
    | append store event' now =>
        rw [StoreStep.written] at hw
        split at hw
        · rename_i hr
          cases List.mem_singleton.mp hw
          exact (append_ok hr).2.1
        · cases hw
    | crash store event' now done bytes =>
        rw [StoreStep.written] at hw
        split at hw
        · rename_i hr
          split_ifs at hw
          · cases List.mem_singleton.mp hw
            exact (append_ok hr).2.1
          · cases hw
        · cases hw
  simp only [decide_eq_true_eq]
  rintro ⟨-, rfl⟩
  rw [h] at hsafe
  cases hsafe

theorem Kept.readRun (h : Kept datetime store.workspaceKey runId history archive)
    (hs : isSafeRunId runId = true) : store.readRun datetime archive runId = .ok history := by
  rw [SessionTraceStore.readRun, if_pos hs]
  rw [Kept] at h
  split at h
  · rename_i hrow
    rw [hrow, h.1]
    exact h.2 store.sessionFile
  · rename_i row hrow
    obtain ⟨name, hpath, hheld, -⟩ := h
    simp only [hrow, hpath]
    exact hheld

/-- A run whose events one process writes is read back as a whole. -/
theorem readRun_complete {steps : List StoreStep}
    (h : Along (Archive.next datetime) (StoreAllowed datetime store.workspaceKey runId) .empty steps) :
    store.readRun datetime (after (Archive.next datetime) .empty steps) runId =
      .ok (eventsOf datetime store.workspaceKey runId steps) := by
  cases hs : isSafeRunId runId with
  | true => exact (kept_run h).readRun hs
  | false =>
      rw [eventsOf_rejected hs, SessionTraceStore.readRun, hs]
      rfl

end Steps

end Kross.Trace

import Kross.Modify
import Kross.Server.WorkerClient
import Kross.Watermark

namespace Kross.Server

open Kross.Json Kross.Worker Kross.Modify World Run Watermark

variable {schemas : Schemas} {workspaceId : String}

namespace World

/-- An event that is on its way to the client. -/
def Way (w : World schemas workspaceId) (e : EventEnvelope) : Prop := ∃ l ∈ w.links, e ∈ l.down

/-- Nothing happens to the events and the sequence numbers, some events on their
way aside. -/
structure Still (w u : World schemas workspaceId) : Prop where
  logs : u.logs = w.logs
  sequences : u.client.sessionSequences = w.client.sessionSequences
  emitted : u.emitted = w.emitted
  received : u.received = w.received
  resumes : u.resumes = w.resumes
  way : ∀ e, u.Way e → w.Way e

variable {w u v : World schemas workspaceId} {id : SocketId}

theorem still_refl (w : World schemas workspaceId) : Still w w := ⟨rfl, rfl, rfl, rfl, rfl, fun _ h => h⟩

theorem Still.trans (h : Still w u) (h' : Still u v) : Still w v :=
  ⟨h'.logs.trans h.logs, h'.sequences.trans h.sequences, h'.emitted.trans h.emitted,
    h'.received.trans h.received, h'.resumes.trans h.resumes, fun e he => h.way e (h'.way e he)⟩

theorem still_onClient {f : WorkerClient → WorkerClient} (w : World schemas workspaceId)
    (hf : (f w.client).sessionSequences = w.client.sessionSequences) : Still w (w.onClient f) :=
  ⟨rfl, hf, rfl, rfl, rfl, fun _ h => h⟩

theorem way_updateLink {f : Link → Link} {e : EventEnvelope} (h : (w.updateLink id f).Way e) :
    w.Way e ∨ ∃ l ∈ w.links, e ∈ (f l).down := by
  obtain ⟨l, hl, he⟩ := h
  rcases mem_modify hl with hl | ⟨b, hb, rfl⟩
  · exact Or.inl ⟨l, hl, he⟩
  · exact Or.inr ⟨b, List.mem_of_getElem? hb, he⟩

theorem still_updateLink {f : Link → Link} (w : World schemas workspaceId) (id : SocketId)
    (hf : ∀ l e, e ∈ (f l).down → e ∈ l.down) : Still w (w.updateLink id f) := by
  refine ⟨rfl, rfl, rfl, rfl, rfl, fun e he => ?_⟩
  rcases way_updateLink he with h | ⟨l, hl, h⟩
  · exact h
  · exact ⟨l, hl, hf l e h⟩

theorem still_sendSocket (w : World schemas workspaceId) (id : SocketId) (command : ClientCommand) :
    Still w (w.sendSocket id command) := by
  rw [sendSocket]
  split_ifs
  · exact still_updateLink w id (fun _ _ h => h)
  · exact still_refl w

theorem still_connected (w : World schemas workspaceId) (id : SocketId) (caller : Caller) :
    Still w (w.connected id caller) := by
  cases caller with
  | send command => exact still_sendSocket w id command
  | start | timer => exact still_refl w

theorem still_connect (w : World schemas workspaceId) (caller : Caller) (attempt : Nat) :
    Still w (w.connect caller attempt) := by
  rw [connect]
  split
  · exact still_connected w _ caller
  · split
    · exact still_onClient w rfl
    · refine ⟨rfl, rfl, rfl, rfl, rfl, ?_⟩
      rintro e ⟨l, hl, he⟩
      rcases List.mem_append.mp hl with hl | hl
      · exact ⟨l, hl, he⟩
      · rw [List.mem_singleton.mp hl] at he
        cases he

theorem sequences_scheduleReconnect (c : WorkerClient) :
    (scheduleReconnect c).sessionSequences = c.sessionSequences := by
  rw [scheduleReconnect]
  split_ifs <;> rfl

theorem still_rejected (w : World schemas workspaceId) (id : SocketId) : Still w (w.rejected id) := by
  simp only [rejected]
  refine still_onClient w ?_
  split_ifs
  · exact sequences_scheduleReconnect _
  · rfl

theorem still_resolved (w : World schemas workspaceId) (id : SocketId) : Still w (w.resolved id) := by
  have hfold (callers : List Caller) (v : World schemas workspaceId) :
      Still v (callers.foldl (fun w caller => w.connected id caller) v) := by
    induction callers generalizing v with
    | nil => exact still_refl v
    | cons caller callers ih => exact (still_connected v id caller).trans (ih _)
  exact (still_onClient w rfl).trans (hfold _ _)

theorem still_onClose (w : World schemas workspaceId) (id : SocketId) : Still w (w.onClose id) := by
  have h : Still w (w.updateLink id (fun l => { l with phase := .closed })) :=
    still_updateLink w id (fun _ _ h => h)
  rw [onClose]
  refine h.trans (still_onClient _ ?_)
  simp only
  split_ifs <;> first | rfl | exact sequences_scheduleReconnect _

theorem still_onError (w : World schemas workspaceId) (id : SocketId) : Still w (w.onError id) :=
  (still_onClient w rfl).trans (still_rejected _ id)

theorem still_close (w : World schemas workspaceId) : Still w w.close := by
  have h : Still w (w.onClient (fun c =>
      { c with closed := true, reconnectTimer := false, socket := none })) := still_onClient w rfl
  rw [close]
  split
  · exact h.trans (still_updateLink _ _ (fun _ _ h => h))
  · exact h

theorem still_reads (w : World schemas workspaceId) (id : SocketId) : Still w (w.reads id) := by
  rw [reads]
  split
  · split
    · exact still_refl w
    · have h (rest : List ClientCommand) : Still w (w.updateLink id (fun l => { l with up := rest })) :=
        still_updateLink w id (fun _ _ h => h)
      split
      · split_ifs
        · exact (h _).trans ⟨rfl, rfl, rfl, rfl, rfl, fun _ h => h⟩
        · exact h _
      · exact h _
  · exact still_refl w

/-- Every resume sent so far is no larger than the number the client knows. -/
structure Sound (w : World schemas workspaceId) : Prop where
  valid : ∀ e, w.Way e ∨ e ∈ w.emitted →
    eventEnvelopeSchema schemas (.obj e.fields) = some e ∧ e.seq ≤ (w.logs e.sessionId).lastSeq
  complete : ∀ k n, w.client.sessionSequences.lookup k = some n → n ≤ (w.logs (some k)).lastSeq ∧
    Complete EventEnvelope.seq (w.logs (some k)).kept (· ∈ w.received) n
  resumed : ∀ k m, (k, m) ∈ w.resumes → ∃ n, w.client.sessionSequences.lookup k = some n ∧ m ≤ n
  ordered : ∀ k, ((w.resumes.filter (fun r => r.1 = k)).map Prod.snd).Pairwise (· ≤ ·)

theorem Still.sound (h : Still w u) (hw : Sound w) : Sound u where
  valid := by
    rintro e (he | he)
    · rw [h.logs]
      exact hw.valid e (Or.inl (h.way e he))
    · rw [h.logs]
      rw [h.emitted] at he
      exact hw.valid e (Or.inr he)
  complete := by
    rw [h.sequences, h.logs, h.received]
    exact hw.complete
  resumed := by
    rw [h.sequences, h.resumes]
    exact hw.resumed
  ordered := by
    rw [h.resumes]
    exact hw.ordered

theorem sound_start (logs : (sessionId : Option String) → SessionLog schemas ⟨workspaceId, sessionId⟩) :
    Sound (start logs) where
  valid := by
    rintro e (⟨l, hl, -⟩ | he)
    · cases hl
    · cases he
  complete := fun k n h => by cases h
  resumed := fun k m h => by cases h
  ordered := fun k => List.Pairwise.nil

theorem known_of_lookup {k : String} {n : Nat} {c : WorkerClient}
    (h : c.sessionSequences.lookup k = some n) : known k c = n := by
  rw [known, h]
  rfl

/-- A session the client hears of for the first time is at 0. -/
theorem sound_noteCommand (hw : Sound w) (command : ClientCommand) :
    Sound (w.onClient (noteCommand command)) := by
  have hnote : noteCommand command w.client = w.client ∨
      ∃ k, noteCommand command w.client = setSequence k (known k w.client) w.client := by
    rw [noteCommand]
    split
    · split_ifs
      · exact Or.inr ⟨_, rfl⟩
      · exact Or.inl rfl
    · exact Or.inl rfl
  rcases hnote with he | ⟨k, he⟩
  · rw [onClient, he]
    exact hw
  · rw [onClient, he]
    refine ⟨hw.valid, fun j n hj => ?_, fun j m hm => ?_, hw.ordered⟩
    · by_cases hjk : j = k
      · subst hjk
        rw [setSequence, AList.lookup_insert] at hj
        cases hj
        cases hl : w.client.sessionSequences.lookup j with
        | some n =>
            rw [known_of_lookup hl]
            exact hw.complete j n hl
        | none =>
            rw [known, hl]
            exact ⟨Nat.zero_le _, complete_zero (fun e he => ((w.logs (some j)).bounded e he).1)⟩
      · rw [setSequence, AList.lookup_insert_ne hjk] at hj
        exact hw.complete j n hj
    · obtain ⟨n, hn, hle⟩ := hw.resumed j m hm
      by_cases hjk : j = k
      · subst hjk
        exact ⟨n, by rw [setSequence, AList.lookup_insert, known_of_lookup hn], hle⟩
      · exact ⟨n, by rw [setSequence, AList.lookup_insert_ne hjk, hn], hle⟩

theorem mem_entries {k : String} {n : Nat} {sequences : AList (fun _ : String => Nat)} :
    (k, n) ∈ sequences.entries.map (fun e => (e.1, e.2)) ↔ sequences.lookup k = some n := by
  rw [← Option.mem_def, AList.mem_lookup_iff, List.mem_map]
  constructor
  · rintro ⟨e, he, heq⟩
    cases heq
    exact he
  · exact fun h => ⟨⟨k, n⟩, h, rfl⟩

theorem sound_resumeKnownSessions (hw : Sound w) (id : SocketId) : Sound (w.resumeKnownSessions id) := by
  rw [resumeKnownSessions]
  have hs := (still_updateLink w id (f := fun l => { l with up := l.up ++
    (w.client.sessionSequences.entries.map (fun e => (e.1, e.2))).map (fun e => resumeCommand e.1 e.2) })
    (fun _ _ h => h)).sound hw
  refine ⟨hs.valid, hs.complete, fun k m hm => ?_, fun k => ?_⟩
  · rcases List.mem_append.mp hm with hm | hm
    · exact hw.resumed k m hm
    · exact ⟨m, mem_entries.mp hm, le_rfl⟩
  · rw [List.filter_append, List.map_append, List.pairwise_append]
    have hnew : ∀ n ∈ ((w.client.sessionSequences.entries.map (fun e => (e.1, e.2))).filter
        (fun r => r.1 = k)).map Prod.snd, w.client.sessionSequences.lookup k = some n := by
      intro n hn
      obtain ⟨⟨j, n'⟩, hmem, rfl⟩ := List.mem_map.mp hn
      obtain ⟨hmem, hj⟩ := List.mem_filter.mp hmem
      rw [← of_decide_eq_true hj]
      exact mem_entries.mp hmem
    refine ⟨hw.ordered k, ?_, ?_⟩
    · refine List.pairwise_of_forall_mem_list (fun a ha b hb => ?_)
      rw [Option.some.inj ((hnew a ha).symm.trans (hnew b hb))]
    · intro a ha b hb
      obtain ⟨⟨j, a'⟩, hmem, rfl⟩ := List.mem_map.mp ha
      obtain ⟨hmem, hj⟩ := List.mem_filter.mp hmem
      obtain ⟨n, hn, hle⟩ := hw.resumed j a' hmem
      have hjk : j = k := of_decide_eq_true hj
      rw [hjk] at hn
      rw [Option.some.inj ((hnew b hb).symm.trans hn)]
      exact hle

theorem still_phase (w : World schemas workspaceId) (id : SocketId) (phase : Phase) :
    Still w (w.updateLink id (fun l => { l with phase })) := still_updateLink w id (fun _ _ h => h)

theorem sound_onOpen (hw : Sound w) (id : SocketId) : Sound (w.onOpen id) := by
  rw [onOpen]
  split_ifs
  · have hc : Still w (w.onClient (fun c => { c with connecting := none })) := still_onClient w rfl
    exact (hc.trans ((still_phase _ id .closing).trans (still_rejected _ id))).sound hw
  · have hc : Still w (w.onClient (fun c => { c with connecting := none, socket := some id })) :=
      still_onClient w rfl
    have ho := (hc.trans (still_phase _ id .opened)).sound hw
    exact (still_resolved _ id).sound (sound_resumeKnownSessions ho id)

/-- The worker puts events on a socket that it has emitted, or read from a log. -/
theorem sound_push (hw : Sound w) (id : SocketId) {events : List EventEnvelope}
    (he : ∀ e ∈ events, eventEnvelopeSchema schemas (.obj e.fields) = some e ∧
      e.seq ≤ (w.logs e.sessionId).lastSeq) : Sound (w.push id events) := by
  refine ⟨?_, hw.complete, hw.resumed, hw.ordered⟩
  rintro e (hway | hem)
  · rcases way_updateLink hway with hway | ⟨l, hl, hd⟩
    · exact hw.valid e (Or.inl hway)
    · rcases List.mem_append.mp hd with hd | hd
      · exact hw.valid e (Or.inl ⟨l, hl, hd⟩)
      · exact he e hd
  · exact hw.valid e (Or.inr hem)

theorem parse_text (fields : Fields) : parse (JsonLog.text fields) = some (.obj fields) := parse_render _

theorem onMessage_text {e : EventEnvelope} (h : eventEnvelopeSchema schemas (.obj e.fields) = some e)
    (w : World schemas workspaceId) : w.onMessage (JsonLog.text e.fields) =
      { w.onClient (record e) with received := w.received ++ [e] } := by
  rw [onMessage, parse_text, Option.bind_some, h]

end World

/-- A message is no older than the resumes sent for its session, and passes over
no persisted event that the client has missed. -/
def MessageAllowed (w : World schemas workspaceId) : WorldStep → Prop
  | .message id => ∀ e k, w.arriving id = some e → e.sessionId = some k → k ≠ "" → 0 < e.seq →
      (∀ m, (k, m) ∈ w.resumes → m ≤ e.seq) ∧
      Timely EventEnvelope.seq (w.logs (some k)).kept (· ∈ w.received) (known k w.client) e
  | _ => True

namespace World

variable {w u : World schemas workspaceId} {id : SocketId} {e : EventEnvelope}

theorem sound_received (hw : Sound w) (he : e.seq ≤ (w.logs e.sessionId).lastSeq)
    (ha : ∀ k, e.sessionId = some k → k ≠ "" → 0 < e.seq → (∀ m, (k, m) ∈ w.resumes → m ≤ e.seq) ∧
      Timely EventEnvelope.seq (w.logs (some k)).kept (· ∈ w.received) (known k w.client) e) :
    Sound { w.onClient (record e) with received := w.received ++ [e] } := by
  have hgot : ∀ d, d ∈ w.received → d ∈ w.received ++ [e] := fun d => List.mem_append_left _
  have hkeep : ∀ k n, w.client.sessionSequences.lookup k = some n → n ≤ (w.logs (some k)).lastSeq ∧
      Complete EventEnvelope.seq (w.logs (some k)).kept (· ∈ w.received ++ [e]) n :=
    fun k n hn => ⟨(hw.complete k n hn).1, (hw.complete k n hn).2.mono hgot⟩
  have hcases : record e w.client = w.client ∨ ∃ k, e.sessionId = some k ∧ k ≠ "" ∧ 0 < e.seq ∧
      record e w.client = setSequence k e.seq w.client := by
    rw [record]
    split
    · split_ifs with h
      · exact Or.inr ⟨_, by assumption, h.1, h.2, rfl⟩
      · exact Or.inl rfl
    · exact Or.inl rfl
  rcases hcases with hr | ⟨k, hk, hne, hpos, hr⟩
  · rw [onClient, hr]
    exact ⟨hw.valid, hkeep, hw.resumed, hw.ordered⟩
  · obtain ⟨hlow, ht⟩ := ha k hk hne hpos
    rw [onClient, hr]
    refine ⟨hw.valid, fun j n hj => ?_, fun j m hm => ?_, hw.ordered⟩
    · by_cases hjk : j = k
      · subst hjk
        rw [setSequence, AList.lookup_insert] at hj
        cases hj
        rw [hk] at he
        refine ⟨he, ?_⟩
        have hc : Complete EventEnvelope.seq (w.logs (some j)).kept (· ∈ w.received)
            (known j w.client) := by
          cases hl : w.client.sessionSequences.lookup j with
          | some n =>
              rw [known_of_lookup hl]
              exact (hw.complete j n hl).2
          | none =>
              rw [known, hl]
              exact complete_zero (fun e he => ((w.logs (some j)).bounded e he).1)
        exact (hc.advance ht).mono (fun d hd => by
          rcases hd with hd | rfl
          · exact hgot d hd
          · exact List.mem_append_right _ (List.mem_singleton_self _))
      · rw [setSequence, AList.lookup_insert_ne hjk] at hj
        exact hkeep j n hj
    · by_cases hjk : j = k
      · subst hjk
        exact ⟨e.seq, by rw [setSequence, AList.lookup_insert], hlow m hm⟩
      · obtain ⟨n, hn, hle⟩ := hw.resumed j m hm
        exact ⟨n, by rw [setSequence, AList.lookup_insert_ne hjk, hn], hle⟩

theorem lastSeq_update {sessionId : Option String} {log : SessionLog schemas ⟨workspaceId, sessionId⟩}
    (hle : (w.logs sessionId).lastSeq ≤ log.lastSeq) (t : Option String) :
    (w.logs t).lastSeq ≤ (Function.update w.logs sessionId log t).lastSeq := by
  by_cases ht : t = sessionId
  · subst ht
    rwa [Function.update_self]
  · rw [Function.update_of_ne ht]

theorem way_pushAll {links : List Link} {d : EventEnvelope} {l : Link} (hl : l ∈ pushAll e links)
    (hd : d ∈ l.down) : (∃ l ∈ links, d ∈ l.down) ∨ d = e := by
  obtain ⟨l', hl', rfl⟩ := List.mem_map.mp hl
  split_ifs at hd
  · rcases List.mem_append.mp hd with hd | hd
    · exact Or.inl ⟨l', hl', hd⟩
    · exact Or.inr (List.mem_singleton.mp hd)
  · exact Or.inl ⟨l', hl', hd⟩

theorem sound_emit (hw : Sound w) (sessionId correlationId : Option String)
    (event : Fields) (now : String) (skipped : Nat) :
    Sound (w.emit sessionId correlationId event now skipped) := by
  rw [emit]
  split
  · exact hw
  · rename_i envelope h
    have hf : (w.logs sessionId).Follows envelope := follows_numbered h
    have hle (t : Option String) : (w.logs t).lastSeq ≤
        (Function.update w.logs sessionId ((w.logs sessionId).append event envelope hf) t).lastSeq :=
      lastSeq_update hf.above.le t
    refine ⟨?_, fun k n hn => ?_, hw.resumed, hw.ordered⟩
    · have hold : ∀ d, w.Way d ∨ d ∈ w.emitted → eventEnvelopeSchema schemas (.obj d.fields) = some d ∧
          d.seq ≤ (Function.update w.logs sessionId ((w.logs sessionId).append event envelope hf)
            d.sessionId).lastSeq :=
        fun d hd => ⟨(hw.valid d hd).1, (hw.valid d hd).2.trans (hle _)⟩
      have hnew : eventEnvelopeSchema schemas (.obj envelope.fields) = some envelope ∧ envelope.seq ≤
          (Function.update w.logs sessionId ((w.logs sessionId).append event envelope hf)
            envelope.sessionId).lastSeq := by
        refine ⟨hf.valid, ?_⟩
        rw [hf.session, Function.update_self]
        exact le_rfl
      rintro d (⟨l, hl, hd⟩ | hd)
      · rcases way_pushAll hl hd with hway | rfl
        · exact hold d (Or.inl hway)
        · exact hnew
      · rcases List.mem_append.mp hd with hd | hd
        · exact hold d (Or.inr hd)
        · rw [List.mem_singleton.mp hd]
          exact hnew
    · obtain ⟨hbound, hc⟩ := hw.complete k n hn
      refine ⟨hbound.trans (hle _), hc.extend (fun d hd => ?_)⟩
      by_cases hk : some k = sessionId
      · subst hk
        change d ∈ (Function.update w.logs (some k) _ (some k)).kept at hd
        rw [Function.update_self] at hd
        rcases SessionLog.mem_keptAfter hd with hd | rfl
        · exact Or.inl hd
        · exact Or.inr (hbound.trans_lt hf.above)
      · change d ∈ (Function.update w.logs sessionId _ (some k)).kept at hd
        rw [Function.update_of_ne hk] at hd
        exact Or.inl hd

theorem resumes_onOpen (w : World schemas workspaceId) (id : SocketId) : (w.onOpen id).resumes = w.resumes ∨
    (w.onOpen id).resumes =
      w.resumes ++ w.client.sessionSequences.entries.map (fun e => (e.1, e.2)) := by
  rw [onOpen]
  split_ifs
  · exact Or.inl (still_rejected _ id).resumes
  · exact Or.inr (still_resolved _ id).resumes

theorem way_of_arriving (h : w.arriving id = some e) : w.Way e := by
  rw [arriving] at h
  split_ifs at h
  obtain ⟨l, hl, hd⟩ := Option.bind_eq_some_iff.mp h
  exact ⟨l, List.mem_of_getElem? hl, List.mem_of_mem_head? hd⟩

theorem sound_message (hw : Sound w) (ha : MessageAllowed w (.message id))
    (h : w.arriving id = some e) :
    Sound ((w.updateLink id (fun l => { l with down := l.down.tail })).onMessage
      (JsonLog.text e.fields)) := by
  obtain ⟨hvalid, hbound⟩ := hw.valid e (Or.inl (way_of_arriving h))
  rw [onMessage_text hvalid]
  refine sound_received ((still_updateLink w id ?_).sound hw) hbound (fun k => ha e k h)
  exact fun l d hd => List.mem_of_mem_tail hd

end World

/-- A step keeps the invariant, and sends what the client knows or nothing. -/
theorem sound_next {w : World schemas workspaceId} (hw : Sound w) {step : WorldStep} (ha : MessageAllowed w step) :
    Sound (step.next w) ∧ ((step.next w).resumes = w.resumes ∨
      (step.next w).resumes =
        w.resumes ++ w.client.sessionSequences.entries.map (fun e => (e.1, e.2))) := by
  have hstill {u : World schemas workspaceId} (h : Still w u) : Sound u ∧ (u.resumes = w.resumes ∨
      u.resumes = w.resumes ++ w.client.sessionSequences.entries.map (fun e => (e.1, e.2))) :=
    ⟨h.sound hw, Or.inl h.resumes⟩
  cases step with
  | start =>
      have hc : Still w (w.onClient (fun c => { c with closed := false })) := still_onClient w rfl
      exact hstill (hc.trans (still_connect _ _ _))
  | close => exact hstill (still_close w)
  | send command =>
      have hc := still_connect (w.onClient (noteCommand command)) (.send command) 0
      exact ⟨hc.sound (sound_noteCommand hw command), Or.inl hc.resumes⟩
  | timer =>
      simp only [WorldStep.next]
      split_ifs
      · have hc : Still w (w.onClient (fun c => { c with reconnectTimer := false })) :=
          still_onClient w rfl
        exact hstill (hc.trans (still_connect _ _ _))
      · exact hstill (still_refl w)
  | retried i =>
      simp only [WorldStep.next]
      split
      · split_ifs
        · have hc : Still w (w.onClient (fun c => { c with waiters := c.waiters.eraseIdx i })) :=
            still_onClient w rfl
          exact hstill (hc.trans (still_connect _ _ _))
        · exact hstill (still_refl w)
      · exact hstill (still_refl w)
  | accepted id =>
      simp only [WorldStep.next]
      split_ifs
      · exact hstill (still_updateLink w id (fun _ _ h => h))
      · exact hstill (still_refl w)
  | opened id =>
      simp only [WorldStep.next]
      split_ifs
      · exact ⟨sound_onOpen hw id, resumes_onOpen w id⟩
      · exact hstill (still_refl w)
  | failed id =>
      simp only [WorldStep.next]
      split_ifs
      · exact hstill ((still_onError w id).trans (still_onClose _ id))
      · exact hstill (still_refl w)
  | dropped id =>
      simp only [WorldStep.next]
      split_ifs
      · exact hstill (still_onClose w id)
      · exact hstill (still_refl w)
  | unsubscribed id =>
      simp only [WorldStep.next]
      split_ifs
      · exact hstill (still_updateLink w id (fun _ _ h => h))
      · exact hstill (still_refl w)
  | message id =>
      simp only [WorldStep.next]
      split
      · rename_i e he
        refine ⟨sound_message hw ha he, Or.inl ?_⟩
        rw [onMessage_text (hw.valid e (Or.inl (way_of_arriving he))).1]
        rfl
      · exact hstill (still_refl w)
  | read id => exact hstill (still_reads w id)
  | replayed i =>
      simp only [WorldStep.next]
      split
      · rename_i id k lastSeq _
        have hp : Sound (w.push id ((w.logs (some k)).replay lastSeq)) := by
          refine sound_push hw id (fun e he => ?_)
          have hk := List.mem_of_mem_filter he
          refine ⟨((w.logs (some k)).own e hk).valid, ?_⟩
          rw [((w.logs (some k)).own e hk).session]
          exact ((w.logs (some k)).bounded e hk).2
        exact ⟨⟨hp.valid, hp.complete, hp.resumed, hp.ordered⟩, Or.inl rfl⟩
      · exact hstill (still_refl w)
  | redelivered id requestId =>
      exact ⟨sound_push hw id (fun e he => hw.valid e (Or.inr (List.mem_of_mem_filter he))), Or.inl rfl⟩
  | emitted sessionId correlationId event now skipped =>
      refine ⟨sound_emit hw sessionId correlationId event now skipped, Or.inl ?_⟩
      simp only [WorldStep.next, emit]
      split <;> rfl

variable (logs : (sessionId : Option String) → SessionLog schemas ⟨workspaceId, sessionId⟩)

def worldAfter (steps : List WorldStep) : World schemas workspaceId :=
  after (WorldStep.next) (start logs) steps

/-- The resumes that a step sends. -/
def sent (w : World schemas workspaceId) (step : WorldStep) : List (String × Nat) :=
  (step.next w).resumes.drop w.resumes.length

/-- A resume sent on reconnection leaves out no persisted event that the client has
not received, and asks for no more than the ones before. -/
structure ResumesSafe (steps : List WorldStep) : Prop where
  complete : ∀ before step rest, steps = before ++ step :: rest →
    ∀ k n, (k, n) ∈ sent (worldAfter logs before) step →
      ∀ e ∈ ((worldAfter logs before).logs (some k)).kept, e.seq ≤ n →
        e ∈ (worldAfter logs before).received
  increasing : ∀ k, (((worldAfter logs steps).resumes.filter (fun r => r.1 = k)).map
    Prod.snd).Pairwise (· ≤ ·)

def MessagesAllowed (steps : List WorldStep) : Prop :=
  Along (WorldStep.next) MessageAllowed (start logs) steps

variable {logs}

theorem resumes_safe {steps : List WorldStep} (ha : MessagesAllowed logs steps) :
    ResumesSafe logs steps := by
  have hstep (w : World schemas workspaceId) (step : WorldStep) (h : MessageAllowed w step) (hw : Sound w) :
      Sound (step.next w) := (sound_next hw h).1
  constructor
  · intro before step rest he k n hn
    obtain ⟨hallowed, hw⟩ := ha.keeping hstep (sound_start logs) before step rest he
    have hlookup : (worldAfter logs before).client.sessionSequences.lookup k = some n := by
      rw [sent] at hn
      rcases (sound_next hw hallowed).2 with hr | hr
      · rw [worldAfter, hr, List.drop_length] at hn
        cases hn
      · rw [worldAfter, hr, List.drop_left] at hn
        exact mem_entries.mp hn
    exact (hw.complete k n hlookup).2
  · exact (ha.keeps hstep (sound_start logs)).ordered

def emptyLogs (sessionId : Option String) : SessionLog anySchemas ⟨"w", sessionId⟩ :=
  .empty anySchemas ⟨"w", sessionId⟩

def inputCommand : ClientCommand := ⟨"session.input", some "s", none⟩

def updatedAs (seq : Nat) : EventEnvelope := ⟨some .worker, "w", some "s", none, seq, "t", updatedEvent⟩

def acceptedAs (seq : Nat) : EventEnvelope := ⟨some .worker, "w", some "s", none, seq, "t", acceptedEvent⟩

def openedRun : List WorldStep :=
  [.send inputCommand, .accepted 0, .opened 0, .emitted (some "s") none updatedEvent "t" 0]

/-- An event arrives before the socket is lost. -/
def deliveredRun : List WorldStep :=
  openedRun ++ [.message 0, .dropped 0, .timer, .accepted 1, .opened 1]

theorem arriving_openedRun : (worldAfter emptyLogs openedRun).arriving 0 = some (updatedAs 1) := rfl

theorem resumes_openedRun : (worldAfter emptyLogs openedRun).resumes = [("s", 0)] := rfl

theorem kept_openedRun :
    ((worldAfter emptyLogs openedRun).logs (some "s")).kept = [updatedAs 1] := rfl

theorem messageAllowed_openedRun :
    MessageAllowed (worldAfter emptyLogs openedRun) (.message 0) := by
  intro e k he hk _ _
  rw [arriving_openedRun] at he
  cases he
  cases hk
  rw [resumes_openedRun, kept_openedRun]
  refine ⟨fun m hm => ?_, fun d hd _ _ => Or.inl (List.mem_singleton.mp hd)⟩
  rw [List.mem_singleton] at hm
  cases hm
  exact Nat.zero_le _

theorem resumes_safe_deliveredRun : ResumesSafe emptyLogs deliveredRun := by
  refine resumes_safe (along_append.mpr ⟨?_, along_cons.mpr ⟨messageAllowed_openedRun, ?_⟩⟩)
  · iterate 4 refine along_cons.mpr ⟨trivial, ?_⟩
    exact along_nil
  · iterate 4 refine along_cons.mpr ⟨trivial, ?_⟩
    exact along_nil

/-- An event is lost with the socket, and on the next one a live event arrives
ahead of the replay. -/
def lostRun : List WorldStep :=
  openedRun ++ [.dropped 0, .timer, .accepted 1, .opened 1,
    .emitted (some "s") none acceptedEvent "t" 0]

def overtakenRun : List WorldStep := lostRun ++ [.message 1, .dropped 1, .timer, .accepted 2]

theorem arriving_lostRun : (worldAfter emptyLogs lostRun).arriving 1 = some (acceptedAs 2) := rfl

theorem worldAfter_overtakenRun : ∃ w : World anySchemas "w",
    worldAfter emptyLogs overtakenRun = w ∧ sent w (.opened 2) = [("s", 2)] ∧
      (w.logs (some "s")).kept = [updatedAs 1] ∧ w.received = [acceptedAs 2] := by
  have hm : WorldStep.next (worldAfter emptyLogs lostRun) (.message 1) =
      { ((worldAfter emptyLogs lostRun).updateLink 1
          (fun l => { l with down := l.down.tail })).onClient (record (acceptedAs 2)) with
        received := (worldAfter emptyLogs lostRun).received ++ [acceptedAs 2] } := by
    simp only [WorldStep.next, arriving_lostRun]
    exact onMessage_text rfl _
  have hrun : worldAfter emptyLogs overtakenRun =
      after WorldStep.next (WorldStep.next (worldAfter emptyLogs lostRun) (.message 1))
        [.dropped 1, .timer, .accepted 2] := by
    rw [worldAfter, overtakenRun, after_append, after_cons, worldAfter]
  refine ⟨_, hrun, ?_⟩
  rw [hm]
  exact ⟨rfl, rfl, rfl⟩

theorem lost_event_skipped : ¬ ResumesSafe emptyLogs (overtakenRun ++ [.opened 2]) := by
  intro h
  obtain ⟨w, hw, hsent, hkept, hreceived⟩ := worldAfter_overtakenRun
  have hc := h.complete overtakenRun (.opened 2) [] rfl "s" 2
  rw [hw, hsent, hkept, hreceived] at hc
  have he := hc (List.mem_singleton_self _) (updatedAs 1) (List.mem_singleton_self _) (by decide)
  have hseq := congrArg EventEnvelope.seq (List.mem_singleton.mp he)
  revert hseq
  decide

end Kross.Server

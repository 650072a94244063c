import Kross.Web.EventDelivery

namespace Kross.Web

open Kross.Json Kross.Worker Run Watermark CloudClient

variable {schemas : Schemas} {workspaceId sessionId : String}

section Client

variable (workspaceId sessionId) in
/-- The number of the session up to which the client takes events for duplicates. -/
def mark (c : CloudClient) : Nat := c.handled (sessionKey workspaceId sessionId)

variable (workspaceId sessionId) in
/-- The events of the session among those delivered after the first `n` ones. -/
def deliveredSince (n : Nat) (c : CloudClient) : List EventEnvelope :=
  (c.delivered.drop n).filter (isOurs workspaceId sessionId)

/-- An event of the session passes over no persisted event of it, and one of another
session is stored under other keys. -/
def EventAllowed (log : SessionLog schemas ⟨workspaceId, some sessionId⟩) (c : CloudClient)
    (e : EventEnvelope) : Prop :=
  if isOurs workspaceId sessionId e then
    Timely EventEnvelope.seq log.kept (fun _ => False) (mark workspaceId sessionId c) e
  else ∀ s, e.sessionId = some s → s ≠ "" → e.source ≠ some .gateway → 0 < e.seq →
    sessionKey e.workspaceId s ≠ sessionKey workspaceId sessionId ∧
      seqKey e.workspaceId s ≠ seqKey workspaceId sessionId

/-- An event that the worker numbered so far. -/
structure Issued (log : SessionLog schemas ⟨workspaceId, some sessionId⟩) (e : EventEnvelope) : Prop
    extends EventOf schemas ⟨workspaceId, some sessionId⟩ e where
  pos : 0 < e.seq
  le : e.seq ≤ log.lastSeq

/-- The state of the client since the session became active with `stored` as its
last sequence. -/
structure Tracking (log : SessionLog schemas ⟨workspaceId, some sessionId⟩) (n stored : Nat)
    (c : CloudClient) : Prop where
  asks : c.readLastSeq workspaceId sessionId = mark workspaceId sessionId c
  length : n ≤ c.delivered.length
  increasing : ((deliveredSince workspaceId sessionId n c).map EventEnvelope.seq).Pairwise (· < ·)
  bounded : ∀ e ∈ deliveredSince workspaceId sessionId n c,
    stored < e.seq ∧ e.seq ≤ mark workspaceId sessionId c
  low : stored ≤ mark workspaceId sessionId c
  high : mark workspaceId sessionId c ≤ max stored log.lastSeq
  complete : Complete EventEnvelope.seq log.kept
    (fun e => e ∈ deliveredSince workspaceId sessionId n c ∨ e.seq ≤ stored)
    (mark workspaceId sessionId c)

variable {log : SessionLog schemas ⟨workspaceId, some sessionId⟩} {n stored : Nat} {c d : CloudClient}
  {e : EventEnvelope}

theorem Tracking.congr (h : Tracking log n stored c)
    (hm : mark workspaceId sessionId d = mark workspaceId sessionId c)
    (hr : d.readLastSeq workspaceId sessionId = c.readLastSeq workspaceId sessionId)
    (hd : deliveredSince workspaceId sessionId n d = deliveredSince workspaceId sessionId n c)
    (hl : n ≤ d.delivered.length) : Tracking log n stored d := by
  refine ⟨?_, hl, ?_, ?_, ?_, ?_, ?_⟩
  · rw [hr, hm, h.asks]
  · rw [hd]
    exact h.increasing
  · rw [hd, hm]
    exact h.bounded
  · rw [hm]
    exact h.low
  · rw [hm]
    exact h.high
  · rw [hd, hm]
    exact h.complete

theorem deliveredSince_concat (hn : n ≤ c.delivered.length) (hd : d.delivered = c.delivered ++ [e]) :
    deliveredSince workspaceId sessionId n d =
      deliveredSince workspaceId sessionId n c ++ [e].filter (isOurs workspaceId sessionId) := by
  rw [deliveredSince, hd, List.drop_append_of_le_length hn, List.filter_append, deliveredSince]

theorem deliveredSince_other (hn : n ≤ c.delivered.length) (hd : d.delivered = c.delivered ++ [e])
    (he : isOurs workspaceId sessionId e = false) :
    deliveredSince workspaceId sessionId n d = deliveredSince workspaceId sessionId n c := by
  rw [deliveredSince_concat hn hd]
  simp [he]

/-- An event of someone else. -/
theorem tracking_other (h : Tracking log n stored c) (he : isOurs workspaceId sessionId e = false)
    (ha : EventAllowed log c e) : Tracking log n stored (c.receiveEvent e) ∧
      mark workspaceId sessionId (c.receiveEvent e) = mark workspaceId sessionId c := by
  rw [EventAllowed, if_neg (by simp [he])] at ha
  have hlen : n ≤ (c.delivered ++ [e]).length := by
    rw [List.length_append]
    exact h.length.trans (Nat.le_add_right _ _)
  have hdeliver : Tracking log n stored (c.deliver e) :=
    h.congr rfl rfl (deliveredSince_other h.length rfl he) hlen
  simp only [receiveEvent]
  split
  · exact ⟨hdeliver, rfl⟩
  · rename_i s hs
    split_ifs with hguard
    · exact ⟨h, rfl⟩
    · obtain ⟨hkey, hseq⟩ := ha s hs hguard.1 hguard.2.1 hguard.2.2
      have hm : mark workspaceId sessionId (deliver e { c with
          handledSeq := Function.update c.handledSeq (sessionKey e.workspaceId s) (some e.seq)
          localStorage := Function.update c.localStorage (seqKey e.workspaceId s) (some e.seq) }) =
            mark workspaceId sessionId c := by
        simp only [mark, handled, deliver, Function.update_of_ne hkey.symm]
      refine ⟨h.congr hm ?_ (deliveredSince_other h.length rfl he) hlen, hm⟩
      simp only [readLastSeq, deliver, Function.update_of_ne hseq.symm]
    · exact ⟨hdeliver, rfl⟩

theorem isOurs_iff : isOurs workspaceId sessionId e = true ↔ e.workspaceId = workspaceId ∧
    e.sessionId = some sessionId ∧ e.source ≠ some .gateway ∧ 0 < e.seq := by
  simp [isOurs, and_assoc]

theorem sessionId_ne_empty (h : EventOf schemas ⟨workspaceId, some sessionId⟩ e) : sessionId ≠ "" := by
  rintro rfl
  have hv := h.valid
  have hnone : optional identifierSchema ((some "").map Value.str) = none := by decide
  rw [eventEnvelopeSchema_fields, h.session, hnone] at hv
  simp [bind] at hv

theorem isOurs_of_issued (h : Issued log e) : isOurs workspaceId sessionId e = true :=
  isOurs_iff.mpr ⟨h.workspace, h.session, h.source, h.pos⟩

/-- What an event of the session that is no duplicate leaves behind. -/
theorem tracking_new (h : Tracking log n stored c) (hi : Issued log e)
    (ha : Timely EventEnvelope.seq log.kept (fun _ => False) (mark workspaceId sessionId c) e)
    (hlt : mark workspaceId sessionId c < e.seq) (hd : d.delivered = c.delivered ++ [e])
    (hm : mark workspaceId sessionId d = e.seq) (hr : d.readLastSeq workspaceId sessionId = e.seq) :
    Tracking log n stored d := by
  have hsince : deliveredSince workspaceId sessionId n d =
      deliveredSince workspaceId sessionId n c ++ [e] := by
    rw [deliveredSince_concat h.length hd]
    simp [isOurs_of_issued hi]
  refine ⟨hr.trans hm.symm, ?_, ?_, ?_, ?_, ?_, ?_⟩
  · rw [hd, List.length_append]
    exact h.length.trans (Nat.le_add_right _ _)
  · rw [hsince, List.map_append, List.pairwise_append]
    refine ⟨h.increasing, List.pairwise_singleton _ _, fun a ha b hb => ?_⟩
    obtain ⟨f, hf, rfl⟩ := List.mem_map.mp ha
    rw [List.mem_singleton.mp hb]
    exact (h.bounded f hf).2.trans_lt hlt
  · intro f hf
    rw [hsince] at hf
    rw [hm]
    rcases List.mem_append.mp hf with hf | hf
    · exact ⟨(h.bounded f hf).1, (h.bounded f hf).2.trans hlt.le⟩
    · rw [List.mem_singleton.mp hf]
      exact ⟨h.low.trans_lt hlt, le_rfl⟩
  · rw [hm]
    exact h.low.trans hlt.le
  · rw [hm]
    exact hi.le.trans (le_max_right _ _)
  · rw [hsince, hm]
    refine (h.complete.advance (fun f hf h1 h2 => (ha f hf h1 h2).imp_right False.elim)).mono ?_
    rintro f ((hf | hf) | rfl)
    · exact Or.inl (List.mem_append_left _ hf)
    · exact Or.inr hf
    · exact Or.inl (List.mem_append_right _ (List.mem_singleton_self _))

/-- An event of the session. -/
theorem tracking_ours (h : Tracking log n stored c) (hi : Issued log e)
    (ha : Timely EventEnvelope.seq log.kept (fun _ => False) (mark workspaceId sessionId c) e) :
    Tracking log n stored (c.receiveEvent e) ∧
      mark workspaceId sessionId (c.receiveEvent e) = max (mark workspaceId sessionId c) e.seq := by
  have hguard : sessionId ≠ "" ∧ e.source ≠ some .gateway ∧ 0 < e.seq :=
    ⟨sessionId_ne_empty hi.toEventOf, hi.source, hi.pos⟩
  have hw : e.workspaceId = workspaceId := hi.workspace
  simp only [receiveEvent, hi.session, if_pos hguard, hw]
  split_ifs with hle
  · exact ⟨h, (max_eq_left hle).symm⟩
  · have hlt := Nat.lt_of_not_le hle
    have hm : mark workspaceId sessionId (deliver e { c with
        handledSeq := Function.update c.handledSeq (sessionKey workspaceId sessionId) (some e.seq)
        localStorage := Function.update c.localStorage (seqKey workspaceId sessionId) (some e.seq) }) =
          e.seq := by
      simp only [mark, handled, deliver, Function.update_self, Option.getD_some]
    refine ⟨tracking_new h hi ha hlt rfl hm ?_, hm.trans (max_eq_right hlt.le).symm⟩
    simp only [readLastSeq, deliver, Function.update_self, Option.getD_some]

theorem tracking_receive (h : Tracking log n stored c) (ha : EventAllowed log c e)
    (hi : isOurs workspaceId sessionId e = true → Issued log e) :
    Tracking log n stored (c.receiveEvent e) ∧
      mark workspaceId sessionId c ≤ mark workspaceId sessionId (c.receiveEvent e) ∧
      (isOurs workspaceId sessionId e = true →
        e.seq ≤ mark workspaceId sessionId (c.receiveEvent e)) := by
  cases he : isOurs workspaceId sessionId e with
  | false =>
      obtain ⟨ht, hm⟩ := tracking_other h he ha
      exact ⟨ht, hm.ge, fun h => by cases h⟩
  | true =>
      rw [EventAllowed, if_pos he] at ha
      obtain ⟨ht, hm⟩ := tracking_ours h (hi he) ha
      rw [hm]
      exact ⟨ht, le_max_left _ _, fun _ => le_max_right _ _⟩

/-- The client sees its inbox only. -/
theorem Tracking.of_inbox (h : Tracking log n stored c) (hi : d.inbox = c.inbox) :
    Tracking log n stored d ∧ mark workspaceId sessionId d = mark workspaceId sessionId c := by
  simp only [inbox, Inbox.mk.injEq] at hi
  obtain ⟨h1, h2, -, h4⟩ := hi
  have hm : mark workspaceId sessionId d = mark workspaceId sessionId c := by
    rw [mark, handled, h1, mark, handled]
  refine ⟨h.congr hm ?_ ?_ ?_, hm⟩
  · rw [readLastSeq, h2, readLastSeq]
  · rw [deliveredSince, h4, deliveredSince]
  · rw [h4]
    exact h.length

/-- The event of a frame meets the condition. -/
def FrameAllowed (log : SessionLog schemas ⟨workspaceId, some sessionId⟩) (c : CloudClient)
    (data : Option (List Char)) : Prop :=
  ∀ e, frameEvent schemas data = some e → EventAllowed log c e

/-- A frame that holds an event of the session holds one that the worker numbered. -/
def Genuine (log : SessionLog schemas ⟨workspaceId, some sessionId⟩) (data : Option (List Char)) : Prop :=
  ∀ e, frameEvent schemas data = some e → isOurs workspaceId sessionId e = true → Issued log e

variable {data : Option (List Char)} {frames : List (Option (List Char))} {generation : Nat}

variable (generation) in
theorem tracking_frame (h : Tracking log n stored c) (ha : FrameAllowed log c data)
    (hi : Genuine log data) :
    Tracking log n stored (c.onFrame schemas generation data) ∧
      mark workspaceId sessionId c ≤ mark workspaceId sessionId (c.onFrame schemas generation data) ∧
      ∀ e, frameEvent schemas data = some e → isOurs workspaceId sessionId e = true →
        e.seq ≤ mark workspaceId sessionId (c.onFrame schemas generation data) := by
  cases he : frameEvent schemas data with
  | none =>
      obtain ⟨ht, hm⟩ := h.of_inbox (inbox_of_core c (core_onFrame generation he))
      exact ⟨ht, hm.ge, fun e he => by cases he⟩
  | some e =>
      obtain ⟨t, ht, heq⟩ := onFrame_event (s := c) generation he
      obtain ⟨htrack, hm⟩ := h.of_inbox (inbox_of_core c ht)
      have hallowed : EventAllowed log t e := by
        rw [EventAllowed, hm]
        exact ha e he
      obtain ⟨htrack, hle, hours⟩ := tracking_receive htrack hallowed (hi e he)
      rw [heq, ← hm]
      refine ⟨htrack, hle, fun d hd => ?_⟩
      cases hd
      exact hours

/-- The frames of a chunk. -/
theorem tracking_frames (h : Tracking log n stored c)
    (ha : Along (onFrame schemas generation) (FrameAllowed log) c frames)
    (hi : ∀ data ∈ frames, Genuine log data) :
    Tracking log n stored (after (onFrame schemas generation) c frames) ∧
      mark workspaceId sessionId c ≤
        mark workspaceId sessionId (after (onFrame schemas generation) c frames) ∧
      ∀ data ∈ frames, ∀ e, frameEvent schemas data = some e → isOurs workspaceId sessionId e = true →
        e.seq ≤ mark workspaceId sessionId (after (onFrame schemas generation) c frames) := by
  induction frames generalizing c with
  | nil => exact ⟨h, le_rfl, fun _ hd => by cases hd⟩
  | cons data frames ih =>
      obtain ⟨hdata, hrest⟩ := along_cons.mp ha
      obtain ⟨ht, hle, hours⟩ := tracking_frame generation h hdata (hi data List.mem_cons_self)
      obtain ⟨ht, hle', hours'⟩ := ih ht hrest (fun d hd => hi d (List.mem_cons_of_mem _ hd))
      rw [after_cons]
      refine ⟨ht, hle.trans hle', fun d hd e he heq => ?_⟩
      rcases List.mem_cons.mp hd with rfl | hd
      · exact (hours e he heq).trans hle'
      · exact hours' d hd e he heq

/-- The worker numbers one more event. -/
theorem Tracking.append (h : Tracking log n stored c) {event : Fields} (hf : log.Follows e) :
    Tracking (log.append event e hf) n stored c := by
  have hmark : mark workspaceId sessionId c < e.seq ∨ mark workspaceId sessionId c ≤ stored := by
    have hhigh := h.high
    have habove := hf.above
    omega
  refine ⟨h.asks, h.length, h.increasing, h.bounded, h.low, ?_, ?_⟩
  · have hhigh := h.high
    have habove := hf.above
    simp only [SessionLog.append]
    omega
  · intro d hd hle
    rcases SessionLog.mem_keptAfter hd with hd | rfl
    · exact h.complete d hd hle
    · rcases hmark with hlt | hst
      · exact absurd hle (Nat.not_le.mpr hlt)
      · exact Or.inr (hle.trans hst)

theorem tracking_start (c : CloudClient) (log : SessionLog schemas ⟨workspaceId, some sessionId⟩) :
    Tracking log c.delivered.length (c.readLastSeq workspaceId sessionId)
      (c.setActiveSession workspaceId sessionId) := by
  have hm : mark workspaceId sessionId (c.setActiveSession workspaceId sessionId) =
      c.readLastSeq workspaceId sessionId := by
    simp only [mark, handled, setActiveSession, Function.update_self, Option.getD_some]
  have hd : deliveredSince workspaceId sessionId c.delivered.length
      (c.setActiveSession workspaceId sessionId) = [] := by
    simp only [deliveredSince, setActiveSession, List.drop_length, List.filter_nil]
  refine ⟨hm.symm, le_rfl, ?_, ?_, hm.ge, ?_, ?_⟩
  · rw [hd]
    exact List.Pairwise.nil
  · rw [hd]
    exact fun e he => by cases he
  · rw [hm]
    exact le_max_left _ _
  · rw [hm]
    exact fun e _ hle => Or.inr hle

theorem Issued.append (h : Issued log e) {d : EventEnvelope} {event : Fields} (hf : log.Follows d) :
    Issued (log.append event d hf) e :=
  ⟨h.toEventOf, h.pos, h.le.trans hf.above.le⟩

theorem issued_kept (he : e ∈ log.kept) : Issued log e :=
  ⟨log.own e he, (log.bounded e he).1, (log.bounded e he).2⟩

theorem issued_follows {event : Fields} (hf : log.Follows e) : Issued (log.append event e hf) e :=
  ⟨hf.toEventOf, (Nat.zero_le _).trans_lt hf.above, le_rfl⟩

theorem frameEvent_frameData (h : eventEnvelopeSchema schemas (.obj e.fields) = some e) :
    frameEvent schemas (frameData e) = some e := by
  rw [frameEvent, frameData, Option.bind_some, JsonLog.text, parse_render, Option.bind_some, h]

theorem genuine_frameData (h : Issued log e) : Genuine log (frameData e) := by
  intro d hd _
  rw [frameEvent_frameData h.valid] at hd
  cases hd
  exact h

theorem Genuine.append (h : Genuine log data) {event : Fields} (hf : log.Follows e) :
    Genuine (log.append event e hf) data := fun d hd ho => (h d hd ho).append hf

end Client

/-- Every event of the session on its way was numbered by the worker. -/
structure Carried (s : Cloud schemas workspaceId sessionId) : Prop where
  link : ∀ e ∈ s.link, Issued s.log e
  wires : ∀ generation wire, s.wires generation = some wire → ∀ data ∈ wire, Genuine s.log data

namespace Cloud

variable {s : Cloud schemas workspaceId sessionId}

theorem carried_start (log : SessionLog schemas ⟨workspaceId, some sessionId⟩)
    (localStorage : String → Option Nat) : Carried (start log localStorage) where
  link := fun _ he => absurd he List.not_mem_nil
  wires := by
    intro generation wire hw
    cases hw

theorem carried_push (h : Carried s) {events : List EventEnvelope} (he : ∀ e ∈ events, Issued s.log e) :
    Carried (s.push events) := by
  rw [push]
  split_ifs
  · refine ⟨fun e hm => ?_, h.wires⟩
    rcases List.mem_append.mp hm with hm | hm
    · exact h.link e hm
    · exact he e hm
  · exact h

theorem carried_replay (h : Carried s) (lastSeq : Nat) : Carried (s.push (s.log.replay lastSeq)) :=
  carried_push h (fun _ he => issued_kept (List.mem_of_mem_filter he))

theorem carried_emit (h : Carried s) (correlationId : Option String) (event : Fields) (now : String)
    (skipped : Nat) : Carried (s.emit correlationId event now skipped) := by
  rw [emit]
  split
  · exact h
  · rename_i envelope he
    have hf := follows_numbered he
    refine carried_push (s := { s with log := s.log.append event envelope hf }) ?_ ?_
    · exact ⟨fun e hm => (h.link e hm).append hf,
        fun g wire hw data hd => (h.wires g wire hw data hd).append hf⟩
    · intro e hm
      rw [List.mem_singleton.mp hm]
      exact issued_follows hf

theorem carried_update (h : Carried s) (generation : Nat) {w : Option (List (Option (List Char)))}
    (hw : ∀ frames, w = some frames → ∀ data ∈ frames, Genuine s.log data) :
    Carried { s with wires := Function.update s.wires generation w } := by
  refine ⟨h.link, fun g frames hg => ?_⟩
  by_cases hgg : g = generation
  · subst hgg
    exact hw frames (by simpa using hg)
  · exact h.wires g frames (by simpa [hgg] using hg)

theorem carried_writeAll (h : Carried s) {data : Option (List Char)} (hd : Genuine s.log data) :
    Carried (s.writeAll data) := by
  refine ⟨h.link, fun g wire hg d hm => ?_⟩
  obtain ⟨frames, hf, rfl⟩ := Option.map_eq_some_iff.mp hg
  rcases List.mem_append.mp hm with hm | hm
  · exact h.wires g frames hf d hm
  · rw [List.mem_singleton.mp hm]
    exact hd

theorem carried_write (h : Carried s) (generation : Nat) {data : Option (List Char)}
    (hd : Genuine s.log data) : Carried (s.write generation data) := by
  refine carried_update h generation (fun frames hf d hm => ?_)
  obtain ⟨wire, hw, rfl⟩ := Option.map_eq_some_iff.mp hf
  rcases List.mem_append.mp hm with hm | hm
  · exact h.wires generation wire hw d hm
  · rw [List.mem_singleton.mp hm]
    exact hd

theorem arriving_append_drop {generation count : Nat} {wire : List (Option (List Char))}
    (hw : s.wires generation = some wire) :
    s.arriving generation count ++ wire.drop (s.arriving generation count).length = wire := by
  rw [arriving]
  split_ifs
  · rw [hw, Option.getD_some, List.length_take]
    conv_rhs => rw [← List.take_append_drop (min count wire.length) wire]
    rw [List.take_eq_take_min]
  · rfl

theorem carried_arrive (h : Carried s) (generation count : Nat) : Carried (s.arrive generation count) := by
  have hu := carried_update h generation
    (w := (s.wires generation).map (fun wire => wire.drop (s.arriving generation count).length))
    (fun frames hf d hm => by
      obtain ⟨wire, hw, rfl⟩ := Option.map_eq_some_iff.mp hf
      exact h.wires generation wire hw d (List.mem_of_mem_drop hm))
  exact ⟨hu.link, hu.wires⟩

end Cloud

variable (randomUUID : Nat → String)

theorem carried_next {s : Cloud schemas workspaceId sessionId} (h : Carried s) (step : CloudStep) :
    Carried (step.next randomUUID s) := by
  cases step with
  | client step => cases step <;> exact ⟨h.link, h.wires⟩
  | subscribed generation =>
      simp only [CloudStep.next]
      split_ifs
      · exact h
      · refine Cloud.carried_update h generation (fun frames hf data hd => ?_)
        cases hf
        cases hd
  | unsubscribed generation =>
      refine Cloud.carried_update h generation (fun frames hf data hd => ?_)
      cases hf
  | accepted =>
      simp only [CloudStep.next]
      split
      · split
        · exact ⟨h.link, h.wires⟩
        · exact h
      · exact h
  | answered i =>
      simp only [CloudStep.next]
      split
      · have hr := Cloud.carried_replay h
        exact ⟨(hr _).link, (hr _).wires⟩
      · exact h
  | refused i => exact ⟨h.link, h.wires⟩
  | replayed lastSeq => exact Cloud.carried_replay h lastSeq
  | emitted correlationId event now skipped =>
      exact Cloud.carried_emit h correlationId event now skipped
  | broadcast =>
      simp only [CloudStep.next]
      split
      · rename_i e rest he
        have hlink := h.link
        rw [he] at hlink
        exact Cloud.carried_writeAll (s := { s with link := rest })
          ⟨fun d hd => hlink d (List.mem_cons_of_mem _ hd), h.wires⟩
          (genuine_frameData (hlink e List.mem_cons_self))
      · exact h
  | linkLost => exact ⟨fun e he => absurd he List.not_mem_nil, h.wires⟩
  | linkBack => exact ⟨h.link, h.wires⟩
  | noise generation data =>
      simp only [CloudStep.next]
      split_ifs with hours
      · exact h
      · refine Cloud.carried_write h generation (fun e he ho => absurd ?_ hours)
        rw [he]
        exact ho
  | arrived generation count => exact Cloud.carried_arrive h generation count

/-- Each event that the client takes from the frames of a chunk meets the condition. -/
def CloudAllowed (s : Cloud schemas workspaceId sessionId) : CloudStep → Prop
  | .arrived generation count =>
      Along (onFrame schemas generation) (FrameAllowed s.log) s.client (s.arriving generation count)
  | _ => True

/-- The session stays the active one. -/
def Stays : CloudStep → Prop
  | .client (.setActiveSession _ _) | .client .clearActiveSession => False
  | _ => True

/-- What holds while the session is active. -/
structure Followed (n stored : Nat) (s : Cloud schemas workspaceId sessionId) : Prop where
  carried : Carried s
  tracking : Tracking s.log n stored s.client

variable {s : Cloud schemas workspaceId sessionId} {n stored : Nat}

namespace Followed

theorem push (h : Tracking s.log n stored s.client) (events : List EventEnvelope) :
    Tracking (s.push events).log n stored (s.push events).client := by
  rw [Cloud.push]
  split_ifs <;> exact h

theorem emit (h : Tracking s.log n stored s.client) (correlationId : Option String) (event : Fields)
    (now : String) (skipped : Nat) :
    Tracking (s.emit correlationId event now skipped).log n stored
      (s.emit correlationId event now skipped).client := by
  rw [Cloud.emit]
  split
  · exact h
  · rename_i envelope he
    have hf := Cloud.follows_numbered he
    exact push (s := { s with log := s.log.append event envelope hf }) (h.append hf) [envelope]

theorem arrive (h : Followed n stored s) (generation count : Nat)
    (ha : CloudAllowed s (.arrived generation count)) :
    Tracking s.log n stored (s.arrive generation count).client ∧
      mark workspaceId sessionId s.client ≤
        mark workspaceId sessionId (s.arrive generation count).client ∧
      ∀ data ∈ s.arriving generation count, ∀ e, frameEvent schemas data = some e →
        isOurs workspaceId sessionId e = true →
          e.seq ≤ mark workspaceId sessionId (s.arrive generation count).client := by
  have hmem : ∀ data ∈ s.arriving generation count, Genuine s.log data := by
    intro data hd
    rw [Cloud.arriving] at hd
    split_ifs at hd
    · cases hw : s.wires generation with
      | none => simp [hw] at hd
      | some wire =>
          rw [hw] at hd
          exact h.carried.wires generation wire hw data (List.mem_of_mem_take hd)
    · cases hd
  exact tracking_frames h.tracking ha hmem

/-- The steps of the client that bring no event. -/
theorem client (h : Tracking s.log n stored s.client) (step : ClientStep) (hs : selects step = false) :
    Tracking s.log n stored (step.next randomUUID schemas s.client) ∧
      mark workspaceId sessionId (step.next randomUUID schemas s.client) =
        mark workspaceId sessionId s.client := by
  obtain hi | ⟨id, message, now, hi⟩ : (step.next randomUUID schemas s.client).inbox = s.client.inbox ∨
      ∃ id message now, (step.next randomUUID schemas s.client).inbox =
        (s.client.deliver (localError id message now)).inbox := inbox_next s.client randomUUID step hs
  · exact h.of_inbox hi
  · have ho : isOurs workspaceId sessionId (localError id message now) = false := by
      simp [isOurs, localError]
    have ha : EventAllowed s.log s.client (localError id message now) := by
      rw [EventAllowed, if_neg (by simp [ho])]
      intro k hk
      cases hk
    obtain ⟨ht, hm⟩ := tracking_other h ho ha
    obtain ⟨ht, hm'⟩ := Tracking.of_inbox ht hi
    exact ⟨ht, hm'.trans hm⟩

end Followed

/-- The steps of the client that the session stays active in. -/
theorem Followed.stays (h : Followed n stored s) {step : ClientStep} (hs : Stays (.client step)) :
    Tracking s.log n stored (CloudStep.next randomUUID s (.client step)).client ∧
      mark workspaceId sessionId (CloudStep.next randomUUID s (.client step)).client =
        mark workspaceId sessionId s.client := by
  cases hsel : selects step with
  | false =>
      cases step with
      | streamChunk => exact ⟨h.tracking, rfl⟩
      | _ => exact Followed.client randomUUID h.tracking _ hsel
  | true =>
      cases step with
      | streamChunk => exact ⟨h.tracking, rfl⟩
      | setActiveSession | clearActiveSession => exact hs.elim
      | _ => cases hsel

theorem followed_next (h : Followed n stored s) {step : CloudStep} (ha : CloudAllowed s step)
    (hs : Stays step) : Followed n stored (step.next randomUUID s) := by
  refine ⟨carried_next randomUUID h.carried step, ?_⟩
  cases step with
  | client step =>
      have ht := (h.stays randomUUID hs).1
      cases step <;> exact ht
  | accepted =>
      simp only [CloudStep.next]
      split
      · split <;> exact h.tracking
      · exact h.tracking
  | subscribed generation =>
      simp only [CloudStep.next]
      split_ifs <;> exact h.tracking
  | answered i =>
      simp only [CloudStep.next]
      split
      · exact Followed.push h.tracking _
      · exact h.tracking
  | replayed lastSeq => exact Followed.push h.tracking _
  | emitted correlationId event now skipped =>
      exact Followed.emit h.tracking correlationId event now skipped
  | broadcast =>
      simp only [CloudStep.next]
      split <;> exact h.tracking
  | noise generation data =>
      simp only [CloudStep.next]
      split_ifs <;> exact h.tracking
  | arrived generation count => exact (h.arrive generation count ha).1
  | unsubscribed | refused | linkLost | linkBack => exact h.tracking

/-- What the stream owes the client: no persisted event above `stored` is missing
that is not on its way. -/
structure Owed (generation n stored : Nat) (s : Cloud schemas workspaceId sessionId) : Prop where
  linkUp : s.linkUp = true
  wire : (s.wires generation).isSome
  owed : ∀ e ∈ s.log.kept, stored < e.seq →
    e ∈ deliveredSince workspaceId sessionId n s.client ∨ e ∈ s.link ∨
      frameData e ∈ (s.wires generation).getD []

/-- The link and the stream last through the step. -/
def Lasts (generation : Nat) : CloudStep → Prop
  | .linkLost => False
  | .unsubscribed g => g ≠ generation
  | _ => True

namespace Owed

variable {generation : Nat}

/-- An event that was delivered is not forgotten. -/
theorem delivered {u : Cloud schemas workspaceId sessionId} {e : EventEnvelope}
    (h : Followed n stored s) (hu : Followed n stored u)
    (he : e ∈ deliveredSince workspaceId sessionId n s.client) (hkept : e ∈ u.log.kept)
    (hm : mark workspaceId sessionId s.client ≤ mark workspaceId sessionId u.client) :
    e ∈ deliveredSince workspaceId sessionId n u.client := by
  obtain ⟨hlow, hle⟩ := h.tracking.bounded e he
  exact (hu.tracking.complete e hkept (hle.trans hm)).resolve_right (Nat.not_le.mpr hlow)

theorem push (h : Owed generation n stored s) (events : List EventEnvelope) :
    Owed generation n stored (s.push events) := by
  rw [Cloud.push, if_pos h.linkUp]
  refine ⟨h.linkUp, h.wire, fun e he hlt => ?_⟩
  exact (h.owed e he hlt).imp_right (Or.imp_left (List.mem_append_left _))

theorem emit (h : Owed generation n stored s) (correlationId : Option String) (event : Fields)
    (now : String) (skipped : Nat) :
    Owed generation n stored (s.emit correlationId event now skipped) := by
  rw [Cloud.emit]
  split
  · exact h
  · rename_i envelope hv
    rw [Cloud.push, if_pos h.linkUp]
    refine ⟨h.linkUp, h.wire, fun e he hlt => ?_⟩
    rcases SessionLog.mem_keptAfter he with he | rfl
    · exact (h.owed e he hlt).imp_right (Or.imp_left (List.mem_append_left _))
    · exact Or.inr (Or.inl (List.mem_append_right _ (List.mem_singleton_self _)))

theorem writeAll (h : Owed generation n stored s) (data : Option (List Char)) :
    Owed generation n stored (s.writeAll data) := by
  obtain ⟨wire, hw⟩ := Option.isSome_iff_exists.mp h.wire
  refine ⟨h.linkUp, by simp [Cloud.writeAll, hw], fun e he hlt => ?_⟩
  refine (h.owed e he hlt).imp_right (Or.imp_right (fun hm => ?_))
  rw [hw] at hm
  simp only [Cloud.writeAll, hw, Option.map_some, Option.getD_some]
  exact List.mem_append_left _ hm

theorem broadcast (h : Owed generation n stored s) {e : EventEnvelope} {rest : List EventEnvelope}
    (hl : s.link = e :: rest) :
    Owed generation n stored (({ s with link := rest }).writeAll (frameData e)) := by
  obtain ⟨wire, hw⟩ := Option.isSome_iff_exists.mp h.wire
  refine ⟨h.linkUp, by simp [Cloud.writeAll, hw], fun d hd hlt => ?_⟩
  simp only [Cloud.writeAll, hw, Option.map_some, Option.getD_some]
  rcases h.owed d hd hlt with hdel | hlink | hwire
  · exact Or.inl hdel
  · rw [hl] at hlink
    rcases List.mem_cons.mp hlink with rfl | hlink
    · exact Or.inr (Or.inr (List.mem_append_right _ (List.mem_singleton_self _)))
    · exact Or.inr (Or.inl hlink)
  · rw [hw] at hwire
    exact Or.inr (Or.inr (List.mem_append_left _ hwire))

theorem update (h : Owed generation n stored s) {g : Nat} {w : Option (List (Option (List Char)))}
    (hw : g = generation → ∃ frames more, w = some (frames ++ more) ∧ s.wires generation = some frames) :
    Owed generation n stored { s with wires := Function.update s.wires g w } := by
  by_cases hg : g = generation
  · obtain ⟨frames, more, rfl, hold⟩ := hw hg
    subst hg
    refine ⟨h.linkUp, by simp, fun e he hlt => ?_⟩
    refine (h.owed e he hlt).imp_right (Or.imp_right (fun hm => ?_))
    rw [hold] at hm
    simp only [Function.update_self, Option.getD_some]
    exact List.mem_append_left _ hm
  · refine ⟨h.linkUp, ?_, fun e he hlt => ?_⟩
    · simpa only [Function.update_of_ne (Ne.symm hg)] using h.wire
    · simpa only [Function.update_of_ne (Ne.symm hg)] using h.owed e he hlt

/-- A chunk that is read off the stream is delivered, or was before. -/
theorem arrive (h : Owed generation n stored s) (hf : Followed n stored s) {g count : Nat}
    (hu : Followed n stored (s.arrive g count))
    (hm : mark workspaceId sessionId s.client ≤ mark workspaceId sessionId (s.arrive g count).client)
    (hours : ∀ data ∈ s.arriving g count, ∀ e, frameEvent schemas data = some e →
      isOurs workspaceId sessionId e = true →
        e.seq ≤ mark workspaceId sessionId (s.arrive g count).client) :
    Owed generation n stored (s.arrive g count) := by
  obtain ⟨wire, hw⟩ := Option.isSome_iff_exists.mp h.wire
  refine ⟨h.linkUp, ?_, fun e he hlt => ?_⟩
  · simp only [Cloud.arrive, Function.update_apply]
    split_ifs with hg
    · rw [← hg, hw]
      rfl
    · exact h.wire
  · rcases h.owed e he hlt with hd | hl | hwire
    · exact Or.inl (delivered hf hu hd he hm)
    · exact Or.inr (Or.inl hl)
    · by_cases hg : g = generation
      · subst hg
        have hsplit : s.arriving g count ++ wire.drop (s.arriving g count).length = wire :=
          Cloud.arriving_append_drop hw
        rw [hw, Option.getD_some, ← hsplit] at hwire
        rcases List.mem_append.mp hwire with hread | hrest
        · have hi := issued_kept he
          have hle := hours _ hread e (frameEvent_frameData hi.valid) (isOurs_of_issued hi)
          exact Or.inl ((hu.tracking.complete e he hle).resolve_right (Nat.not_le.mpr hlt))
        · refine Or.inr (Or.inr ?_)
          simpa only [Cloud.arrive, Function.update_self, hw, Option.map_some, Option.getD_some] using hrest
      · refine Or.inr (Or.inr ?_)
        simpa only [Cloud.arrive, Function.update_of_ne (Ne.symm hg)] using hwire

/-- The replay brings what was missing. -/
theorem answered (h : Followed n stored s) {i m : Nat} (hi : s.asked[i]? = some m)
    (hm : m ≤ mark workspaceId sessionId s.client) (hup : s.linkUp = true)
    (hw : (s.wires generation).isSome) :
    Owed generation n stored (CloudStep.next randomUUID s (.answered i)) := by
  simp only [CloudStep.next, hi, Cloud.push, if_pos hup]
  refine ⟨hup, hw, fun e he hlt => ?_⟩
  rcases Nat.lt_or_ge (mark workspaceId sessionId s.client) e.seq with hgt | hle
  · refine Or.inr (Or.inl (List.mem_append_right _ (List.mem_filter.mpr ⟨he, ?_⟩)))
    exact decide_eq_true (hm.trans_lt hgt)
  · exact Or.inl ((h.tracking.complete e he hle).resolve_right (Nat.not_le.mpr hlt))

end Owed

theorem owed_next {generation : Nat} (h : Owed generation n stored s) (hf : Followed n stored s)
    {step : CloudStep} (ha : CloudAllowed s step) (hs : Stays step) (hl : Lasts generation step) :
    Owed generation n stored (step.next randomUUID s) := by
  have hu := followed_next randomUUID hf ha hs
  cases step with
  | client step =>
      have hm := (hf.stays randomUUID hs).2
      have howed := h.owed
      cases step <;> exact ⟨h.linkUp, h.wire, fun e he hlt =>
        (howed e he hlt).imp_left (fun hd => Owed.delivered hf hu hd he hm.ge)⟩
  | subscribed g =>
      simp only [CloudStep.next]
      split_ifs with hsome
      · exact h
      · refine h.update (fun hg => absurd h.wire ?_)
        rwa [← hg]
  | unsubscribed g => exact h.update (fun hg => absurd hg hl)
  | accepted =>
      simp only [CloudStep.next]
      split
      · split
        · exact ⟨h.linkUp, h.wire, h.owed⟩
        · exact h
      · exact h
  | answered i =>
      simp only [CloudStep.next]
      split
      · have hp := h.push (s.log.replay ‹_›)
        exact ⟨hp.linkUp, hp.wire, hp.owed⟩
      · exact h
  | refused i => exact ⟨h.linkUp, h.wire, h.owed⟩
  | replayed lastSeq => exact h.push _
  | emitted correlationId event now skipped => exact h.emit correlationId event now skipped
  | broadcast =>
      simp only [CloudStep.next]
      split
      · exact h.broadcast ‹_›
      · exact h
  | linkLost => exact hl.elim
  | linkBack => exact ⟨rfl, h.wire, h.owed⟩
  | noise g data =>
      simp only [CloudStep.next]
      split_ifs
      · exact h
      · refine h.update (fun hg => ?_)
        obtain ⟨wire, hw⟩ := Option.isSome_iff_exists.mp h.wire
        exact ⟨wire, [data], by rw [hg, hw]; rfl, hw⟩
  | arrived g count =>
      obtain ⟨-, hm, hours⟩ := hf.arrive g count ha
      exact h.arrive hf hu hm hours

section Session

variable (log : SessionLog schemas ⟨workspaceId, some sessionId⟩) (localStorage : String → Option Nat)

def cloudAfter (steps : List CloudStep) : Cloud schemas workspaceId sessionId :=
  after (CloudStep.next randomUUID) (Cloud.start log localStorage) steps

/-- The session becomes the active one. -/
def opened (s : Cloud schemas workspaceId sessionId) : Cloud schemas workspaceId sessionId :=
  CloudStep.next randomUUID s (.client (.setActiveSession workspaceId sessionId))

/-- What the client delivers of a session that becomes active in `s`: each event at most
once and in order, every persisted one above the stored sequence that the next resume
does not ask for, and, once a resume is answered, all that are not on their way. -/
structure EventsDelivered (s : Cloud schemas workspaceId sessionId) (steps : List CloudStep) :
    Prop where
  increasing : ∀ before more, steps = before ++ more →
    ((deliveredSince workspaceId sessionId s.client.delivered.length
      (after (CloudStep.next randomUUID) (opened randomUUID s) before).client).map
        EventEnvelope.seq).Pairwise (· < ·)
  complete : ∀ before more u, steps = before ++ more →
    u = after (CloudStep.next randomUUID) (opened randomUUID s) before →
      ∀ e ∈ u.log.kept, s.client.readLastSeq workspaceId sessionId < e.seq →
        e.seq ≤ u.client.readLastSeq workspaceId sessionId →
          e ∈ deliveredSince workspaceId sessionId s.client.delivered.length u.client
  answered : ∀ before i between more generation m t u, steps = before ++ .answered i :: (between ++ more) →
    t = after (CloudStep.next randomUUID) (opened randomUUID s) before →
      u = after (CloudStep.next randomUUID) t (.answered i :: between) →
        t.asked[i]? = some m → m ≤ t.client.readLastSeq workspaceId sessionId →
          t.linkUp = true → (t.wires generation).isSome → (∀ step ∈ between, Lasts generation step) →
            ∀ e ∈ u.log.kept, s.client.readLastSeq workspaceId sessionId < e.seq →
              e ∈ deliveredSince workspaceId sessionId s.client.delivered.length u.client ∨
                e ∈ u.link ∨ frameData e ∈ (u.wires generation).getD []

variable {log localStorage} {randomUUID} {before rest : List CloudStep}

theorem followed_opened : Followed (cloudAfter randomUUID log localStorage before).client.delivered.length
    ((cloudAfter randomUUID log localStorage before).client.readLastSeq workspaceId sessionId)
    (opened randomUUID (cloudAfter randomUUID log localStorage before)) := by
  have hc : Carried (cloudAfter randomUUID log localStorage before) :=
    keeps (I := fun s : Cloud schemas workspaceId sessionId => Carried s)
      (fun s step h => carried_next randomUUID h step) (Cloud.carried_start log localStorage) before
  exact ⟨carried_next randomUUID hc _, tracking_start _ _⟩

theorem followed_after
    (ha : Along (CloudStep.next randomUUID) (fun s step => CloudAllowed s step ∧ Stays step)
      (opened randomUUID (cloudAfter randomUUID log localStorage before)) rest) :
    Followed (cloudAfter randomUUID log localStorage before).client.delivered.length
      ((cloudAfter randomUUID log localStorage before).client.readLastSeq workspaceId sessionId)
      (after (CloudStep.next randomUUID)
        (opened randomUUID (cloudAfter randomUUID log localStorage before)) rest) :=
  ha.keeps (fun _ _ h hf => followed_next randomUUID hf h.1 h.2) followed_opened

theorem Owed.along {generation : Nat} {steps : List CloudStep} (h : Owed generation n stored s)
    (hf : Followed n stored s)
    (ha : Along (CloudStep.next randomUUID) (fun s step => CloudAllowed s step ∧ Stays step) s steps)
    (hl : ∀ step ∈ steps, Lasts generation step) :
    Owed generation n stored (after (CloudStep.next randomUUID) s steps) := by
  induction steps generalizing s with
  | nil => exact h
  | cons step steps ih =>
      obtain ⟨⟨hallowed, hs⟩, hrest⟩ := along_cons.mp ha
      refine ih (owed_next randomUUID h hf hallowed hs (hl step List.mem_cons_self))
        (followed_next randomUUID hf hallowed hs) hrest ?_
      exact fun d hd => hl d (List.mem_cons_of_mem _ hd)

/-- Nothing is lost as long as no event overtakes one that the client has missed. -/
theorem events_delivered
    (ha : Along (CloudStep.next randomUUID) (fun s step => CloudAllowed s step ∧ Stays step)
      (opened randomUUID (cloudAfter randomUUID log localStorage before)) rest) :
    EventsDelivered randomUUID (cloudAfter randomUUID log localStorage before) rest := by
  constructor
  · rintro first more rfl
    exact (followed_after (along_append.mp ha).1).tracking.increasing
  · rintro first more u rfl rfl e hkept hlow hle
    have ht := (followed_after (along_append.mp ha).1).tracking
    rw [ht.asks] at hle
    exact (ht.complete e hkept hle).resolve_right (Nat.not_le.mpr hlow)
  · rintro first i between more generation m t u rfl rfl rfl hi hm hup hw hl
    have hf := followed_after (along_append.mp ha).1
    rw [hf.tracking.asks] at hm
    obtain ⟨⟨hallowed, hs⟩, hbetween⟩ := along_cons.mp (along_append.mp ha).2
    rw [after_cons]
    exact (Owed.along (Owed.answered randomUUID hf hi hm hup hw) (followed_next randomUUID hf hallowed hs)
      (along_append.mp hbetween).1 hl).owed

end Session

theorem onFrame_frameData {e : EventEnvelope}
    (h : eventEnvelopeSchema schemas (.obj e.fields) = some e) (generation : Nat) (c : CloudClient) :
    c.onFrame schemas generation (frameData e) = ((c.touchHeartbeat generation).updateStream generation
      (fun t => { t with invalidEnvelopes := 0 })).receiveEvent e := by
  have hparse : (parse (JsonLog.text e.fields)).bind (eventEnvelopeSchema schemas) = some e := by
    rw [JsonLog.text, parse_render, Option.bind_some, h]
  cases ht : JsonLog.text e.fields with
  | nil =>
      rw [ht] at hparse
      cases hparse
  | cons c text =>
      rw [ht] at hparse
      simp only [frameData, ht, onFrame, hparse]

def emptyLog : SessionLog anySchemas ⟨"w", some "s"⟩ := .empty anySchemas ⟨"w", some "s"⟩

def updatedAs (seq : Nat) : EventEnvelope := ⟨some .worker, "w", some "s", none, seq, "t", updatedEvent⟩

def acceptedAs (seq : Nat) : EventEnvelope := ⟨some .worker, "w", some "s", none, seq, "t", acceptedEvent⟩

/-- An event that no stream carries, and a stream that opens after it. -/
def openedRun : List CloudStep :=
  [.emitted none updatedEvent "t" 0, .broadcast, .client .connect,
    .client (.streamAnswered 1 200 true), .subscribed 1, .accepted]

def replayedRun : List CloudStep := openedRun ++ [.answered 0, .broadcast, .arrived 1 1]

/-- A live event is on the stream ahead of the replay. -/
def liveRun : List CloudStep := openedRun ++ [.emitted none acceptedEvent "t" 0, .broadcast]

def passedRun : List CloudStep := liveRun ++ [.arrived 1 1]

def openedAfter (steps : List CloudStep) : Cloud anySchemas "w" "s" :=
  after (CloudStep.next (fun _ => "u"))
    (opened (fun _ => "u") (cloudAfter (fun _ => "u") emptyLog (fun _ => none) [])) steps

theorem arriving_replayedRun : (openedAfter (openedRun ++ [.answered 0, .broadcast])).arriving 1 1 =
    [frameData (updatedAs 1)] := rfl

theorem kept_replayedRun :
    (openedAfter (openedRun ++ [.answered 0, .broadcast])).log.kept = [updatedAs 1] := rfl

theorem cloudAllowed_replayedRun :
    CloudAllowed (openedAfter (openedRun ++ [.answered 0, .broadcast])) (.arrived 1 1) := by
  rw [CloudAllowed, arriving_replayedRun]
  refine along_cons.mpr ⟨fun e he => ?_, along_nil⟩
  rw [frameEvent_frameData rfl] at he
  cases he
  rw [EventAllowed, if_pos (by decide)]
  intro d hd _ _
  rw [kept_replayedRun] at hd
  exact Or.inl (List.mem_singleton.mp hd)

theorem events_delivered_replayedRun : EventsDelivered (fun _ => "u")
    (cloudAfter (fun _ => "u") emptyLog (fun _ => none) []) replayedRun := by
  refine events_delivered (along_append.mpr ⟨?_, ?_⟩)
  · iterate 6 refine along_cons.mpr ⟨⟨trivial, trivial⟩, ?_⟩
    exact along_nil
  · iterate 2 refine along_cons.mpr ⟨⟨trivial, trivial⟩, ?_⟩
    exact along_cons.mpr ⟨⟨cloudAllowed_replayedRun, trivial⟩, along_nil⟩

/-- The client reads the one frame of a chunk. -/
def Cloud.read (generation : Nat) (e : EventEnvelope) (s : Cloud schemas workspaceId sessionId) :
    Cloud schemas workspaceId sessionId :=
  { s with
    client := ((s.client.touchHeartbeat generation).updateStream generation
      (fun t => { t with invalidEnvelopes := 0 })).receiveEvent e
    wires := Function.update s.wires generation ((s.wires generation).map (fun wire => wire.drop 1)) }

theorem arrive_frameData {e : EventEnvelope} {generation : Nat}
    (ha : s.arriving generation 1 = [frameData e])
    (h : eventEnvelopeSchema schemas (.obj e.fields) = some e) :
    s.arrive generation 1 = s.read generation e := by
  simp only [Cloud.arrive, ha, List.foldl_cons, List.foldl_nil, onFrame_frameData h, List.length_singleton,
    Cloud.read]

def overtaken : Cloud anySchemas "w" "s" := (openedAfter liveRun).read 1 (acceptedAs 2)

theorem openedAfter_passedRun : openedAfter passedRun = overtaken := by
  rw [openedAfter, passedRun, after_concat]
  exact arrive_frameData (s := openedAfter liveRun) rfl rfl

theorem after_overtaken :
    after (CloudStep.next (fun _ => "u")) overtaken [.answered 0, .broadcast, .arrived 1 1] =
      (after (CloudStep.next (fun _ => "u")) overtaken [.answered 0, .broadcast]).read 1 (updatedAs 1) :=
  arrive_frameData (s := after (CloudStep.next (fun _ => "u")) overtaken [.answered 0, .broadcast]) rfl rfl

theorem replayed_event_dropped : ¬ EventsDelivered (fun _ => "u")
    (cloudAfter (fun _ => "u") emptyLog (fun _ => none) [])
    (passedRun ++ [.answered 0, .broadcast, .arrived 1 1]) := by
  intro h
  have howed := h.answered passedRun 0 [.broadcast, .arrived 1 1] [] 1 0 overtaken _ rfl
    openedAfter_passedRun.symm after_overtaken.symm rfl (Nat.zero_le _) rfl rfl
    (fun step hs => by rcases List.mem_pair.mp hs with rfl | rfl <;> exact trivial)
    (updatedAs 1) (List.mem_singleton_self _) (by decide)
  rcases howed with hd | hl | hw
  · have hs : deliveredSince "w" "s" 0 ((after (CloudStep.next (fun _ => "u")) overtaken
        [.answered 0, .broadcast]).read 1 (updatedAs 1)).client = [acceptedAs 2] := rfl
    have hseq := congrArg EventEnvelope.seq (List.mem_singleton.mp (hs ▸ hd))
    revert hseq
    decide
  · cases hl
  · cases hw

end Kross.Web

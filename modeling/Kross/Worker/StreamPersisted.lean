import Kross.Worker.StreamSegments
import Mathlib.Data.List.MinMax
import Mathlib.Data.List.Nodup

namespace Kross.Worker.StreamSegments

open LabelledRuns

section Store

variable {messages : List StoredSessionMessage} {m x : StoredSessionMessage}

theorem upsert_new (h : ∀ x ∈ messages, x.id ≠ m.id) : upsert m messages = messages ++ [m] := by
  rw [upsert, if_neg]
  simpa using h

theorem upsert_old (hx : x ∈ messages) (hid : x.id = m.id) :
    upsert m messages = messages.map (fun x => if x.id = m.id then m else x) := by
  rw [upsert, if_pos]
  exact List.any_eq_true.mpr ⟨x, hx, by simpa using hid⟩

theorem ids_upsert_old (hx : x ∈ messages) (hid : x.id = m.id) :
    (upsert m messages).map StoredSessionMessage.id = messages.map StoredSessionMessage.id := by
  rw [upsert_old hx hid, List.map_map]
  apply List.map_congr_left
  intro y _
  by_cases hy : y.id = m.id <;> simp [hy]

theorem mem_upsert_old (hx : x ∈ messages) (hid : x.id = m.id) {y : StoredSessionMessage} (hy : y ∈ upsert m messages) :
    y = m ∨ y ∈ messages ∧ y.id ≠ m.id := by
  rw [upsert_old hx hid] at hy
  obtain ⟨z, hz, rfl⟩ := List.mem_map.mp hy
  by_cases hzm : z.id = m.id
  · exact .inl (if_pos hzm)
  · rw [if_neg hzm]
    exact .inr ⟨hz, hzm⟩

theorem distinct_concat (hd : (messages.map StoredSessionMessage.id).Nodup) (h : ∀ x ∈ messages, x.id ≠ m.id) :
    ((messages ++ [m]).map StoredSessionMessage.id).Nodup := by
  rw [List.map_append, List.nodup_append]
  refine ⟨hd, List.nodup_singleton _, ?_⟩
  intro a ha b hb
  obtain ⟨x, hx, rfl⟩ := List.mem_map.mp ha
  rw [List.mem_singleton.mp hb]
  exact h x hx

theorem spoken_append (more : List StoredSessionMessage) : spoken (messages ++ more) = spoken messages ++ spoken more :=
  List.filter_append _ _

theorem spoken_concat (hm : m.sender ≠ .tool) : spoken (messages ++ [m]) = spoken messages ++ [m] := by
  rw [spoken_append, spoken, spoken, List.filter_cons_of_pos (by simpa using hm), List.filter_nil]

theorem spoken_concat_tool (hm : m.sender = .tool) : spoken (messages ++ [m]) = spoken messages := by
  rw [spoken_append, spoken, spoken, List.filter_cons_of_neg (by simpa using hm), List.filter_nil, List.append_nil]

/-- A tool's message is no spoken one before it is rewritten or after. -/
theorem spoken_upsert_tool (hm : m.sender = .tool) (h : ∀ x ∈ messages, x.id = m.id → x.sender = .tool) :
    spoken (upsert m messages) = spoken messages := by
  rw [upsert]
  split_ifs with hany
  · induction messages with
    | nil => rfl
    | cons x messages ih =>
        have hrest : spoken (messages.map (fun x => if x.id = m.id then m else x)) = spoken messages := by
          by_cases hany : messages.any (fun x => x.id = m.id)
          · exact ih (fun y hy => h y (List.mem_cons_of_mem _ hy)) hany
          · rw [List.map_congr_left (g := id), List.map_id]
            intro y hy
            exact if_neg (by simpa using (by simpa using hany : ∀ y ∈ messages, y.id ≠ m.id) y hy)
        rw [List.map_cons, spoken, spoken, List.filter_cons, List.filter_cons]
        by_cases hx : x.id = m.id
        · simp only [hx, if_pos, hm, h x List.mem_cons_self hx, ne_eq, not_true_eq_false, decide_false,
            Bool.false_eq_true, if_false]
          exact hrest
        · rw [if_neg hx]
          split_ifs
          · exact congrArg (x :: ·) hrest
          · exact hrest
  · exact spoken_concat_tool hm

/-- The last spoken message is rewritten in its place. -/
theorem spoken_upsert_last {before : List StoredSessionMessage} {text : Text}
    (hd : (messages.map StoredSessionMessage.id).Nodup) (h : spoken messages = before ++ [m]) :
    spoken (upsert { m with text } messages) = before ++ [{ m with text }] := by
  have hm : m ∈ messages ∧ m.sender ≠ .tool := by
    have hmem : m ∈ spoken messages := by simp [h]
    simpa [spoken] using hmem
  have honly : ∀ x ∈ messages, x.id = m.id → x = m := fun x hx hid => List.inj_on_of_nodup_map hd hx hm.1 hid
  have hbefore : ∀ x ∈ before, x.id ≠ m.id := by
    have hdistinct : ((before ++ [m]).map StoredSessionMessage.id).Nodup :=
      h ▸ hd.sublist (List.Sublist.map _ List.filter_sublist)
    rw [List.map_append, List.nodup_append] at hdistinct
    intro x hx
    exact hdistinct.2.2 _ (List.mem_map_of_mem hx) _ (by simp)
  have hmap : spoken (messages.map (fun x => if x.id = m.id then { m with text } else x)) =
      (spoken messages).map (fun x => if x.id = m.id then { m with text } else x) := by
    rw [spoken, spoken, List.filter_map]
    congr 1
    apply List.filter_congr
    intro x hx
    by_cases hid : x.id = m.id
    · simp [honly x hx hid]
    · simp [hid]
  have hkeep : before.map (fun x => if x.id = m.id then { m with text } else x) = before :=
    (List.map_congr_left (fun x hx => if_neg (hbefore x hx))).trans (List.map_id before)
  rw [upsert_old (m := { m with text }) hm.1 rfl, hmap, h, List.map_append, hkeep, List.map_cons, if_pos rfl, List.map_nil]

end Store

namespace ActiveSession

variable {s : ActiveSession} {sender : Sender} {text : Text} {callId : String} {m : StoredSessionMessage}
  {before : List StoredSessionMessage}

theorem Valid.unused (h : s.Valid) : ∀ x ∈ s.messages, x.id ≠ s.nextMessageId := fun x hx => (h.fresh x hx).ne

theorem persistMessage_messages (h : s.Valid) :
    (s.persistMessage sender text).2.messages = s.messages ++ [(s.persistMessage sender text).1] :=
  upsert_new h.unused

theorem persistMessage_valid (h : s.Valid) : (s.persistMessage sender text).2.Valid where
  fresh := by
    rw [persistMessage_messages h]
    intro x hx
    rcases List.mem_append.mp hx with hx | hx
    · exact Nat.lt_succ_of_lt (h.fresh x hx)
    · rw [List.mem_singleton.mp hx]
      exact Nat.lt_succ_self _
  distinct := by
    rw [persistMessage_messages h]
    exact distinct_concat h.distinct h.unused
  calls := by
    rw [persistMessage_messages h]
    intro call hcall
    obtain ⟨hlt, htool⟩ := h.calls call hcall
    refine ⟨Nat.lt_succ_of_lt hlt, fun x hx hid => ?_⟩
    rcases List.mem_append.mp hx with hx | hx
    · exact htool x hx hid
    · rw [List.mem_singleton.mp hx] at hid
      exact absurd hid hlt.ne'

theorem spoken_persistMessage (h : s.Valid) (hs : sender ≠ .tool) :
    spoken (s.persistMessage sender text).2.messages = spoken s.messages ++ [(s.persistMessage sender text).1] := by
  rw [persistMessage_messages h]
  exact spoken_concat hs

theorem Valid.lookup (h : s.Valid) (hm : s.toolMessages.lookup callId = some m) :
    m.id < s.nextMessageId ∧ ∀ x ∈ s.messages, x.id = m.id → x.sender = .tool := by
  obtain ⟨before, after, heq, -⟩ := List.lookup_eq_some_iff.mp hm
  exact h.calls (callId, m) (by simp [heq])

theorem spoken_persistToolTrace (h : s.Valid) : spoken (s.persistToolTrace callId text).messages = spoken s.messages := by
  unfold persistToolTrace
  split
  · rename_i previous hprevious
    exact spoken_upsert_tool rfl (h.lookup hprevious).2
  · exact spoken_upsert_tool rfl (fun x hx hid => absurd hid (h.unused x hx))

/-- A message that takes the place of another of its sender. -/
theorem Valid.rewrite (h : s.Valid) (hm : m ∈ s.messages) {m' : StoredSessionMessage} (hid : m.id = m'.id)
    (hsender : m.sender = m'.sender) : (s.upsertMessage m').Valid where
  fresh := by
    intro x hx
    rcases mem_upsert_old hm hid hx with rfl | ⟨hx, -⟩
    · exact hid ▸ h.fresh m hm
    · exact h.fresh x hx
  distinct := by
    rw [upsertMessage, ids_upsert_old hm hid]
    exact h.distinct
  calls := by
    intro call hcall
    obtain ⟨hlt, htool⟩ := h.calls call hcall
    refine ⟨hlt, fun x hx hcallid => ?_⟩
    rcases mem_upsert_old hm hid hx with rfl | ⟨hx, -⟩
    · exact hsender ▸ htool m hm (hid.trans hcallid)
    · exact htool x hx hcallid

/-- A tool's message, with an id that is no other message's. -/
theorem Valid.upsert_tool (h : s.Valid) (hm : m.sender = .tool) (hlt : m.id < s.nextMessageId)
    (htool : ∀ x ∈ s.messages, x.id = m.id → x.sender = .tool) :
    { s with toolMessages := (callId, m) :: s.toolMessages }.upsertMessage m |>.Valid := by
  have hvalid : (s.upsertMessage m).Valid := by
    by_cases hused : ∃ x ∈ s.messages, x.id = m.id
    · obtain ⟨x, hx, hid⟩ := hused
      exact h.rewrite hx hid ((htool x hx hid).trans hm.symm)
    · have hunused : ∀ x ∈ s.messages, x.id ≠ m.id := fun x hx hid => hused ⟨x, hx, hid⟩
      have hmessages : (s.upsertMessage m).messages = s.messages ++ [m] := upsert_new hunused
      refine ⟨?_, ?_, ?_⟩
      · rw [hmessages]
        intro x hx
        rcases List.mem_append.mp hx with hx | hx
        · exact h.fresh x hx
        · exact List.mem_singleton.mp hx ▸ hlt
      · rw [hmessages]
        exact distinct_concat h.distinct hunused
      · rw [hmessages]
        intro call hcall
        refine ⟨(h.calls call hcall).1, fun x hx hid => ?_⟩
        rcases List.mem_append.mp hx with hx | hx
        · exact (h.calls call hcall).2 x hx hid
        · rw [List.mem_singleton.mp hx, hm]
  refine ⟨hvalid.fresh, hvalid.distinct, ?_⟩
  intro call hcall
  rcases List.mem_cons.mp hcall with rfl | hcall
  · refine ⟨hlt, fun x hx hid => ?_⟩
    by_cases hused : ∃ x ∈ s.messages, x.id = m.id
    · obtain ⟨y, hy, hyid⟩ := hused
      rcases mem_upsert_old hy hyid hx with rfl | ⟨hx, hne⟩
      · exact hm
      · exact absurd hid hne
    · rw [upsertMessage, upsert_new (fun x hx hid => hused ⟨x, hx, hid⟩)] at hx
      rcases List.mem_append.mp hx with hx | hx
      · exact htool x hx hid
      · rw [List.mem_singleton.mp hx, hm]
  · exact hvalid.calls call hcall

theorem Valid.mono (h : s.Valid) {n : Nat} (hn : s.nextMessageId ≤ n) : { s with nextMessageId := n }.Valid :=
  ⟨fun m hm => (h.fresh m hm).trans_le hn, h.distinct,
    fun call hcall => ⟨(h.calls call hcall).1.trans_le hn, (h.calls call hcall).2⟩⟩

theorem persistToolTrace_valid (h : s.Valid) : (s.persistToolTrace callId text).Valid := by
  unfold persistToolTrace
  split
  · rename_i previous hprevious
    exact h.upsert_tool rfl (h.lookup hprevious).1 (h.lookup hprevious).2
  · exact (h.mono (Nat.le_succ _)).upsert_tool rfl (Nat.lt_succ_self _)
      (fun x hx hid => absurd hid (h.unused x hx))

/-- A session is opened with ids above those of its messages. -/
theorem opened_valid {messages : List StoredSessionMessage} (hd : (messages.map StoredSessionMessage.id).Nodup)
    (htool : ∀ m ∈ messages, m.callId ≠ none → m.sender = .tool) : (opened messages).Valid := by
  have hfresh : ∀ m ∈ messages, m.id < (messages.map StoredSessionMessage.id).foldr max 0 + 1 := fun m hm =>
    Nat.lt_succ_of_le (List.le_max_of_le' 0 (List.mem_map_of_mem hm) le_rfl)
  refine ⟨hfresh, hd, ?_⟩
  intro call hcall
  obtain ⟨m, hm, hcallId⟩ := List.mem_filterMap.mp (List.mem_reverse.mp hcall)
  obtain ⟨callId, hsome, rfl⟩ := Option.map_eq_some_iff.mp hcallId
  refine ⟨hfresh m hm, fun x hx hid => ?_⟩
  rw [List.inj_on_of_nodup_map hd hx hm hid]
  exact htool m hm (by rw [hsome]; nofun)

end ActiveSession

def shown (m : StoredSessionMessage) : Sender × Text := (m.sender, m.text)

/-- The open segment `run` of a consumer: the messages of the segments before it are `earlier`,
and its own has the first text of the run. -/
inductive Segment (earlier : List (Sender × Text)) (c : Consumer) : Option SegmentRun → Prop
  | closed {run : Option SegmentRun} (hrun : ∀ r ∈ run, r.text = []) (hmessage : c.segmentMessage = none)
      (hfrom : c.segmentFrom = none) (htext : c.segmentText = []) (hsaid : said c.session.messages = earlier) :
      Segment earlier c run
  | opened {run : SegmentRun} {m : StoredSessionMessage} {before : List StoredSessionMessage}
      (hmessage : c.segmentMessage = some m) (hfrom : c.segmentFrom = some run.1) (htext : c.segmentText = run.text)
      (hfirst : run.worded.head? = some m.text) (hsender : m.sender = run.1.sender)
      (hspoken : spoken c.session.messages = before ++ [m]) (hbefore : before.map shown = earlier) :
      Segment earlier c (some run)

section Text

variable {run : SegmentRun} {e : AgentRunStreamEvent}

theorem text_eq (run : SegmentRun) : run.text = run.worded.flatten := by
  rcases run with ⟨kind, es⟩
  induction es with
  | nil => rfl
  | cons e es ih =>
      simp only [SegmentRun.text, SegmentRun.worded, List.flatMap_cons, List.map_cons, List.filter_cons] at ih ⊢
      rw [ih]
      by_cases he : e.text = [] <;> simp [he]

theorem worded_ne_nil (run : SegmentRun) {text : Text} (h : text ∈ run.worded) : text ≠ [] := by
  simpa using (List.mem_filter.mp h).2

theorem text_concat (k : Kind) (g : List AgentRunStreamEvent) (e : AgentRunStreamEvent) :
    SegmentRun.text (k, g ++ [e]) = SegmentRun.text (k, g) ++ e.text := by
  simp [SegmentRun.text]

theorem worded_concat (k : Kind) (g : List AgentRunStreamEvent) (e : AgentRunStreamEvent) :
    SegmentRun.worded (k, g ++ [e]) = SegmentRun.worded (k, g) ++ if e.text = [] then [] else [e.text] := by
  by_cases he : e.text = [] <;> simp [SegmentRun.worded, he]

theorem worded_eq_nil : run.worded = [] ↔ run.text = [] := by
  rw [text_eq]
  constructor
  · intro h
    rw [h, List.flatten_nil]
  · intro h
    rcases hw : run.worded with _ | ⟨text, more⟩
    · rfl
    · have hne : text ≠ [] := worded_ne_nil run (by simp [hw])
      rw [hw, List.flatten_cons] at h
      exact absurd (List.append_eq_nil_iff.mp h).1 hne

/-- The first text of a run is all of it when no other delta has text. -/
theorem first_eq_text {text : Text} (h : run.worded.head? = some text) : text = run.text ↔ run.worded.length ≤ 1 := by
  obtain ⟨more, hmore⟩ := List.head?_eq_some_iff.mp h
  rw [text_eq, hmore, List.flatten_cons]
  constructor
  · intro heq
    rcases more with _ | ⟨second, more⟩
    · simp
    · have hne : second ≠ [] := worded_ne_nil run (by simp [hmore])
      have hnil : (second :: more).flatten = [] := by simpa using heq
      exact absurd (List.append_eq_nil_iff.mp hnil).1 hne
  · intro hlength
    have hnil : more = [] := List.eq_nil_of_length_eq_zero (by simpa using hlength)
    simp [hnil]

end Text

section Flush

variable {earlier : List (Sender × Text)} {c : Consumer} {run : Option SegmentRun}

theorem said_eq (messages : List StoredSessionMessage) : said messages = (spoken messages).map shown := rfl

theorem flushSegment_valid (h : Segment earlier c run) (hv : c.session.Valid) : c.flushSegment.session.Valid := by
  cases h with
  | closed _ hmessage => simpa [Consumer.flushSegment, hmessage] using hv
  | @opened run m before hmessage _ _ _ _ hspoken =>
      have hm : m ∈ c.session.messages := by
        have hmem : m ∈ spoken c.session.messages := by simp [hspoken]
        exact (List.mem_filter.mp hmem).1
      simp only [Consumer.flushSegment, hmessage]
      split_ifs
      · exact hv.rewrite hm rfl rfl
      · exact hv

theorem said_flushSegment (h : Segment earlier c run) (hv : c.session.Valid) :
    said c.flushSegment.session.messages = earlier ++ run.toList.filterMap SegmentRun.message := by
  cases h with
  | closed hrun hmessage _ _ hsaid =>
      have hnone : run.toList.filterMap SegmentRun.message = [] := by
        rw [List.filterMap_eq_nil_iff]
        intro r hr
        exact if_pos (hrun r (Option.mem_toList.mp hr))
      rw [hnone, List.append_nil, ← hsaid]
      simp [Consumer.flushSegment, hmessage]
  | @opened run m before hmessage _ htext hfirst hsender hspoken hbefore =>
      have hne : run.text ≠ [] := by
        rw [ne_eq, ← worded_eq_nil]
        rintro hnil
        rw [hnil] at hfirst
        cases hfirst
      have hone : (some run).toList.filterMap SegmentRun.message = [(run.1.sender, run.text)] := by
        simp [SegmentRun.message, hne]
      rw [hone, said_eq]
      simp only [Consumer.flushSegment, hmessage, htext]
      split_ifs with hsame
      · have hlast : spoken (c.session.upsertMessage { m with text := run.text }).messages =
            before ++ [{ m with text := run.text }] := spoken_upsert_last hv.distinct hspoken
        rw [hlast, List.map_append, hbefore, List.map_singleton, shown, hsender]
      · have hsame : m.text = run.text := not_not.mp hsame
        rw [hspoken, List.map_append, hbefore, List.map_singleton, shown, hsender, hsame]

theorem segment_flushSegment (h : said c.flushSegment.session.messages = earlier) (hrun : ∀ r ∈ run, r.text = []) :
    Segment earlier c.flushSegment run :=
  .closed hrun rfl rfl rfl h

end Flush

open AgentRunStreamEvent

/-- The consumer of a session `s` after the events `es`. -/
structure Consumed (s : ActiveSession) (es : List AgentRunStreamEvent) (c : Consumer) : Prop where
  valid : c.session.Valid
  segment : Segment (said s.messages ++ (closed kind es).filterMap SegmentRun.message) c (lastRun kind es)
  agentText : c.hasAgentText = true ↔ ∃ x ∈ runMessages es, x.1 = .agent
  result : c.finalResult = lastResult es

section Events

variable {s : ActiveSession} {es : List AgentRunStreamEvent} {e : AgentRunStreamEvent} {c : Consumer} {k : Kind}

theorem runMessages_eq (es : List AgentRunStreamEvent) :
    runMessages es = (closed kind es).filterMap SegmentRun.message ++ (lastRun kind es).toList.filterMap SegmentRun.message := by
  rw [runMessages, runs_eq, List.filterMap_append]

theorem lastResult_concat (es : List AgentRunStreamEvent) (e : AgentRunStreamEvent) :
    lastResult (es ++ [e]) = e.result?.or (lastResult es) := by
  rw [lastResult, List.filterMap_append, List.getLast?_append]
  cases e <;> rfl

theorem runMessages_concat_none (h : e.kind = none) : runMessages (es ++ [e]) = runMessages es := by
  rw [runMessages_eq, (concat_none h).1, (concat_none h).2]
  exact List.append_nil _

/-- A delta after which the segment has its first text, if it has one. -/
theorem concat_empty (h : e.kind = some k) (hempty : ∀ g, lastRun kind es = some (k, g) → SegmentRun.text (k, g) = []) :
    (closed kind (es ++ [e])).filterMap SegmentRun.message = runMessages es ∧
      ∃ g, SegmentRun.text (k, g) = [] ∧ lastRun kind (es ++ [e]) = some (k, g ++ [e]) := by
  by_cases hlast : ∃ g, lastRun kind es = some (k, g)
  · obtain ⟨g, hg⟩ := hlast
    obtain ⟨hclosed, hlast⟩ := concat_continues h hg
    refine ⟨?_, g, hempty g hg, hlast⟩
    rw [hclosed, runMessages_eq, hg]
    simp [SegmentRun.message, hempty g hg]
  · obtain ⟨hclosed, hlast⟩ := concat_begins h (fun g hg => hlast ⟨g, hg⟩)
    exact ⟨by rw [hclosed, runMessages], [], rfl, hlast⟩

theorem Consumed.flush (h : Consumed s es c) :
    c.flushSegment.session.Valid ∧ said c.flushSegment.session.messages = said s.messages ++ runMessages es := by
  refine ⟨flushSegment_valid h.segment h.valid, ?_⟩
  rw [said_flushSegment h.segment h.valid, runMessages_eq, List.append_assoc]

theorem consumed_start (hs : s.Valid) : Consumed s [] (.start s) where
  valid := hs
  segment := .closed nofun rfl rfl rfl (List.append_nil _).symm
  agentText := by simp [Consumer.start, runMessages, runs]
  result := rfl

theorem Consumed.boundary (h : Consumed s es c) (he : e.kind = none) (hresult : e.result? = none) :
    Consumed s (es ++ [e]) c.flushSegment where
  valid := h.flush.1
  segment := by
    rw [(concat_none he).1, (concat_none he).2]
    exact segment_flushSegment h.flush.2 nofun
  agentText := by
    rw [runMessages_concat_none he]
    exact h.agentText
  result := by
    rw [lastResult_concat, hresult]
    exact h.result

theorem Consumed.ends (h : Consumed s es c) (outcome : AgentResult) :
    Consumed s (es ++ [.result outcome]) { c.flushSegment with finalResult := some outcome } where
  valid := h.flush.1
  segment := by
    rw [(concat_none rfl).1, (concat_none rfl).2]
    exact .closed nofun rfl rfl rfl h.flush.2
  agentText := by
    rw [runMessages_concat_none rfl]
    exact h.agentText
  result := by
    rw [lastResult_concat]
    rfl

/-- A delta that goes on with an open segment. -/
theorem Consumed.continues (h : Consumed s es c) (he : e.kind = some k) (hresult : e.result? = none)
    {g : List AgentRunStreamEvent} (hg : lastRun kind es = some (k, g)) (hne : SegmentRun.text (k, g) ≠ []) :
    Consumed s (es ++ [e]) (c.delta k e.text) := by
  obtain ⟨hclosed, hlast⟩ := concat_continues he hg
  have hsegment := h.segment
  rw [hg] at hsegment
  cases hsegment with
  | closed hrun => exact absurd (hrun _ rfl) hne
  | @opened run m before hmessage hfrom htext hfirst hsender hspoken hbefore =>
      have hdelta : c.delta k e.text = { c with segmentText := c.segmentText ++ e.text } := by
        rw [Consumer.delta, if_neg (by simp [hfrom]), Consumer.extend, if_neg (by simp [hmessage])]
      rw [hdelta]
      refine ⟨h.valid, ?_, ?_, ?_⟩
      · rw [hclosed, hlast]
        refine .opened hmessage hfrom ?_ ?_ hsender hspoken hbefore
        · exact (congrArg (· ++ e.text) htext).trans (text_concat k g e).symm
        · rw [worded_concat, List.head?_append, hfirst]
          rfl
      · have hmessages : ∀ messages : List (Sender × Text), (∃ x ∈ messages ++ [(k.sender, SegmentRun.text (k, g ++ [e]))],
            x.1 = .agent) ↔ ∃ x ∈ messages ++ [(k.sender, SegmentRun.text (k, g))], x.1 = .agent := by
          intro messages
          simp [or_and_right, exists_or]
        have hne' : SegmentRun.text (k, g ++ [e]) ≠ [] := by
          rw [text_concat]
          simp [hne]
        have hagent := h.agentText
        rw [runMessages_eq, hg] at hagent
        rw [runMessages_eq, hclosed, hlast]
        simp only [Option.toList_some, List.filterMap_cons, List.filterMap_nil, SegmentRun.message, hne, hne',
          if_false] at hagent ⊢
        rw [hmessages]
        exact hagent
      · rw [lastResult_concat, hresult]
        exact h.result

/-- A delta that finds no text of its kind. -/
theorem Consumed.begins (h : Consumed s es c) (he : e.kind = some k) (hresult : e.result? = none)
    (hempty : ∀ g, lastRun kind es = some (k, g) → SegmentRun.text (k, g) = []) :
    Consumed s (es ++ [e]) (c.flushSegment.extend k e.text) := by
  obtain ⟨hclosed, g, hg, hlast⟩ := concat_empty he hempty
  have htext : SegmentRun.text (k, g ++ [e]) = e.text := by
    have hconcat := text_concat k g e
    rwa [hg] at hconcat
  have hresult' : c.flushSegment.finalResult = lastResult (es ++ [e]) := by
    rw [lastResult_concat, hresult]
    exact h.result
  by_cases hnil : e.text = []
  · have hextend : c.flushSegment.extend k e.text = c.flushSegment := by
      rw [Consumer.extend, if_neg (by simp [hnil]), hnil]
      rfl
    have hnone : runMessages (es ++ [e]) = runMessages es := by
      rw [runMessages_eq, hclosed, hlast]
      simp [SegmentRun.message, htext, hnil]
    rw [hextend]
    refine ⟨h.flush.1, ?_, ?_, hresult'⟩
    · rw [hclosed, hlast]
      refine segment_flushSegment h.flush.2 ?_
      rintro run ⟨⟩
      rw [htext, hnil]
    · rw [hnone]
      exact h.agentText
  · have hextend : c.flushSegment.extend k e.text = { c.flushSegment with
        session := (c.flushSegment.session.persistMessage k.sender e.text).2
        segmentFrom := some k
        segmentText := e.text
        segmentMessage := some (c.flushSegment.session.persistMessage k.sender e.text).1
        hasAgentText := c.hasAgentText || k = .agent } := by
      rw [Consumer.extend, if_pos ⟨rfl, hnil⟩]
      rfl
    have hworded : SegmentRun.worded (k, g ++ [e]) = [e.text] := by
      have hconcat := worded_concat k g e
      rwa [worded_eq_nil.mpr hg, if_neg hnil] at hconcat
    have hkind : k.sender ≠ .tool := by cases k <;> nofun
    rw [hextend]
    refine ⟨ActiveSession.persistMessage_valid h.flush.1, ?_, ?_, hresult'⟩
    · rw [hclosed, hlast]
      refine .opened rfl rfl htext.symm ?_ rfl (ActiveSession.spoken_persistMessage h.flush.1 hkind) h.flush.2
      rw [hworded]
      rfl
    · have hsome : runMessages (es ++ [e]) = runMessages es ++ [(k.sender, e.text)] := by
        rw [runMessages_eq, hclosed, hlast]
        simp [SegmentRun.message, htext, hnil]
      rw [hsome, Bool.or_eq_true, h.agentText, decide_eq_true_eq]
      cases k <;> simp [Kind.sender, or_and_right, exists_or]

theorem Consumed.delta (h : Consumed s es c) (he : e.kind = some k) (hresult : e.result? = none) :
    Consumed s (es ++ [e]) (c.delta k e.text) := by
  have hsegment := h.segment
  by_cases hempty : ∀ g, lastRun kind es = some (k, g) → SegmentRun.text (k, g) = []
  · have hfrom : c.segmentFrom ≠ some k := by
      cases hlast : lastRun kind es with
      | none =>
          rw [hlast] at hsegment
          cases hsegment with
          | closed _ _ hfrom => simp [hfrom]
      | some run =>
          rw [hlast] at hsegment
          cases hsegment with
          | closed _ _ hfrom => simp [hfrom]
          | @opened _ m _ _ hfrom _ hfirst =>
              rw [hfrom]
              rintro hk
              obtain ⟨k', g⟩ := run
              cases hk
              rw [worded_eq_nil.mpr (hempty g hlast)] at hfirst
              cases hfirst
    rw [Consumer.delta, if_pos hfrom]
    exact h.begins he hresult hempty
  · push Not at hempty
    obtain ⟨g, hg, hne⟩ := hempty
    exact h.continues he hresult hg hne

theorem Consumed.consume (h : Consumed s es c) (e : AgentRunStreamEvent) : Consumed s (es ++ [e]) (c.consume e) := by
  cases e with
  | turnStart => exact h.boundary rfl rfl
  | toolsStart => exact h.boundary rfl rfl
  | textDelta text => exact h.delta (e := .textDelta text) rfl rfl
  | thinkingDelta text => exact h.delta (e := .thinkingDelta text) rfl rfl
  | result outcome => exact h.ends outcome

theorem Segment.spoken {earlier : List (Sender × Text)} {c : Consumer} {run : Option SegmentRun} {session : ActiveSession}
    (h : Segment earlier c run) (hs : spoken session.messages = spoken c.session.messages) :
    Segment earlier { c with session } run := by
  cases h with
  | closed hrun hmessage hfrom htext hsaid =>
      refine .closed hrun hmessage hfrom htext ?_
      rw [said_eq, hs]
      exact hsaid
  | opened hmessage hfrom htext hfirst hsender hspoken hbefore =>
      exact .opened hmessage hfrom htext hfirst hsender (hs.trans hspoken) hbefore

theorem Consumed.toolTrace (h : Consumed s es c) (callId : String) (text : Text) :
    Consumed s es { c with session := c.session.persistToolTrace callId text } :=
  ⟨ActiveSession.persistToolTrace_valid h.valid, h.segment.spoken (ActiveSession.spoken_persistToolTrace h.valid),
    h.agentText, h.result⟩

theorem events_concat (steps : List Step) (step : Step) : events (steps ++ [step]) = events steps ++ events [step] :=
  List.filterMap_append

theorem consumed (hs : s.Valid) (steps : List Step) : Consumed s (events steps) (steps.foldl next (.start s)) := by
  induction steps using List.reverseRecOn with
  | nil => exact consumed_start hs
  | append_singleton steps step ih =>
      rw [List.foldl_append, events_concat]
      cases step with
      | event e => exact ih.consume e
      | toolTrace callId text =>
          have hsame : events steps ++ events [.toolTrace callId text] = events steps := List.append_nil _
          rw [hsame]
          exact ih.toolTrace callId text

end Events

variable {s : ActiveSession} {es : List AgentRunStreamEvent} {c : Consumer}

theorem said_finish (h : Consumed s es c) : said c.finish.messages = said s.messages ++ runMessages es ++ summaryMessage es := by
  obtain ⟨hvalid, hsaid⟩ := h.flush
  have hresult : c.flushSegment.finalResult = lastResult es := h.result
  have hagent : c.flushSegment.hasAgentText = true ↔ ∃ x ∈ runMessages es, x.1 = .agent := h.agentText
  rw [Consumer.finish, summaryMessage, hresult]
  cases lastResult es with
  | none => rw [hsaid, List.append_nil]
  | some outcome =>
      have hiff : (!c.flushSegment.hasAgentText && decide (Session.trim outcome.summary ≠ [])) = true ↔
          (∀ said ∈ runMessages es, said.1 ≠ .agent) ∧ Session.trim outcome.summary ≠ [] := by
        rw [Bool.and_eq_true, decide_eq_true_eq, Bool.not_eq_true', ← Bool.not_eq_true, hagent]
        simp only [not_exists, not_and, ne_eq]
      simp only
      by_cases hsummary : (∀ said ∈ runMessages es, said.1 ≠ .agent) ∧ Session.trim outcome.summary ≠ []
      · have hsender : (if outcome.status = .approvalRequired then Sender.system else Sender.agent) ≠ .tool := by
          split_ifs <;> nofun
        rw [if_pos (hiff.mpr hsummary), if_pos hsummary, said_eq, ActiveSession.spoken_persistMessage hvalid hsender,
          List.map_append, ← said_eq, hsaid]
        rfl
      · rw [if_neg (fun h => hsummary (hiff.mp h)), if_neg hsummary, hsaid, List.append_nil]

/-- Of the run that a thrown error leaves open one delta at most has text. -/
def LeftWhole (es : List AgentRunStreamEvent) : Prop :=
  ∀ run ∈ lastRun kind es, (SegmentRun.worded run).length ≤ 1

instance (es : List AgentRunStreamEvent) : Decidable (LeftWhole es) :=
  match h : lastRun kind es with
  | none => .isTrue (by
      rw [LeftWhole, h]
      nofun)
  | some run => decidable_of_iff ((SegmentRun.worded run).length ≤ 1) (by
      rw [LeftWhole, h]
      simp)

theorem said_thrown (h : Consumed s es c) :
    said c.session.messages = said s.messages ++ runMessages es ↔ LeftWhole es := by
  have hsegment := h.segment
  rw [runMessages_eq, ← List.append_assoc, LeftWhole]
  generalize lastRun kind es = run at hsegment ⊢
  cases hsegment with
  | closed hrun hmessage _ _ hsaid =>
      have hnone : run.toList.filterMap SegmentRun.message = [] := by
        rw [List.filterMap_eq_nil_iff]
        intro r hr
        exact if_pos (hrun r (Option.mem_toList.mp hr))
      rw [hnone, List.append_nil, hsaid, eq_self, true_iff]
      intro r hr
      rw [worded_eq_nil.mpr (hrun r hr)]
      exact Nat.zero_le _
  | @opened run m before hmessage hfrom htext hfirst hsender hspoken hbefore =>
      have hne : run.text ≠ [] := by
        rw [ne_eq, ← worded_eq_nil]
        rintro hnil
        rw [hnil] at hfirst
        cases hfirst
      have hone : (some run).toList.filterMap SegmentRun.message = [(run.1.sender, run.text)] := by
        simp [SegmentRun.message, hne]
      have hleft : (∀ r ∈ some run, (SegmentRun.worded r).length ≤ 1) ↔ m.text = run.text := by
        rw [first_eq_text hfirst]
        exact ⟨fun h => h run rfl, fun h r hr => Option.some.inj hr ▸ h⟩
      rw [hone, said_eq, hspoken, List.map_append, hbefore, List.append_cancel_left_eq, List.map_singleton, shown, hsender,
        hleft]
      simp

end Kross.Worker.StreamSegments

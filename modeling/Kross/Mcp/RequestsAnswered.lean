import Kross.Mcp.JsonRpcStdio
import Kross.Mcp.StreamableHttp

namespace Kross.Mcp.Rpc

open Outstanding

namespace Http

variable {received : List Value} {t : Transport} {options : Options} {id : Nat} {m : Value} {r : Request}

/-- A message that is being returned as the answer has come and is one. -/
def Phase.Own (received : List Value) (id : Nat) : Phase → Prop
  | .cancelling m => m ∈ received ∧ ProperAnswer m id
  | _ => True

theorem Phase.Own.mono {phase : Phase} (h : phase.Own received id) (more : List Value) : phase.Own (received ++ more) id := by
  cases phase with
  | cancelling m => exact ⟨List.mem_append_left _ h.1, h.2⟩
  | _ => trivial

def Outcome.Own (received : List Value) (id : Nat) : Outcome → Prop
  | .goes phase => phase.Own received id
  | .settles settlement => settlement.Own received
  | .stays => True

theorem Outcome.rejects_own {error : Rejection} : (Outcome.rejects error r).Own received id := Settlement.own_error

structure Sound (received : List Value) (t : Transport) : Prop where
  balanced : t.requests.Balanced
  ids : (t.requests.waiting.map (fun w => w.2.id)).Nodup ∧ ∀ w ∈ t.requests.waiting, w.2.id < t.nextId
  phases : ∀ w ∈ t.requests.waiting, w.2.phase.Own received w.2.id
  own : ∀ x ∈ t.requests.settled, x.2.Own received

theorem parse_ok {result : Option Value} (h : parseJsonRpcResponse m id = .ok result) :
    m.hasId id = true ∧ result = m.member "result" := by
  unfold parseJsonRpcResponse at h
  split at h
  · split_ifs at h with _ hid
    exact ⟨by simpa using hid, (Except.ok.inj h).symm⟩
  · cases h

theorem answered_own (hm : m ∈ received) (h : ProperAnswer m r.id) : (r.answered m).Own received := by
  unfold Request.answered
  split
  · rename_i result hparse
    obtain ⟨hid, hresult⟩ := parse_ok hparse
    obtain ⟨hmethod, hsome⟩ := h hid
    obtain ⟨v, hv⟩ := Option.isSome_iff_exists.mp (hsome result hparse)
    constructor
    · rintro _ ⟨⟩
      exact ⟨m, r.id, v, rfl, rfl, hv, hmethod, hid, hresult.symm.trans hv⟩
    · rintro _ ⟨⟩
      exact ⟨hm, fun _ _ _ => hmethod⟩
  · constructor
    · nofun
    · rintro _ ⟨⟩
      refine ⟨hm, ?_⟩
      rintro _ ⟨⟩ hid
      exact (h hid).1

theorem scan_found {reading : Reading} {blocks : List Block} (h : scan id reading blocks = .found m) :
    m ∈ blocks.filterMap (fun block => block.data.message) := by
  induction blocks generalizing reading with
  | nil => cases h
  | cons block blocks ih =>
      rw [scan] at h
      cases hdata : block.data with
      | absent =>
          rw [hdata] at h
          simpa [hdata, Data.message] using ih h
      | malformed =>
          rw [hdata] at h
          cases h
      | parsed v =>
          rw [hdata] at h
          cases v <;> simp only [reduceCtorEq] at h
          all_goals
            split_ifs at h
            · cases h
              simp [hdata, Data.message]
            · exact List.mem_filterMap.mpr (by
                obtain ⟨b, hb, hm⟩ := List.mem_filterMap.mp (ih h)
                exact ⟨b, List.mem_cons_of_mem _ hb, hm⟩)

theorem sound_initial : Sound [] .initial where
  balanced := Ledger.balanced_start
  ids := ⟨List.nodup_nil, nofun⟩
  phases := nofun
  own := nofun

theorem Sound.mono (h : Sound received t) (more : List Value) : Sound (received ++ more) t :=
  ⟨h.balanced, h.ids, fun w hw => (h.phases w hw).mono more, fun x hx => (h.own x hx).mono⟩

theorem Sound.found (h : Sound received t) (hr : t.find id = some r) : r.id = id ∧ r.phase.Own received id := by
  obtain ⟨hid, w, hw, rfl⟩ := Ledger.find_some hr
  have hid : w.2.id = id := by simpa using hid
  exact ⟨hid, hid ▸ h.phases w hw⟩

/-- What changes neither the id of a request nor, but for a sound one, its phase. -/
theorem Sound.update (h : Sound received t) {g : Request → Request} (hid : ∀ r, (g r).id = r.id)
    (hphase : ∀ r, r.phase.Own received r.id → (g r).phase.Own received r.id) :
    Sound received { t with requests := t.requests.update g } where
  balanced := h.balanced.update g
  ids := by
    constructor
    · rw [Ledger.update, List.map_map]
      have hsame : (fun w : Nat × Request => w.2.id) ∘ (fun w : Nat × Request => (w.1, g w.2)) = fun w => w.2.id := by
        funext w
        exact hid w.2
      rw [hsame]
      exact h.ids.1
    · intro w hw
      obtain ⟨v, hv, heq⟩ := Ledger.mem_waiting_update hw
      rw [heq, hid]
      exact h.ids.2 v hv
  phases := by
    intro w hw
    obtain ⟨v, hv, heq⟩ := Ledger.mem_waiting_update hw
    rw [heq, hid]
    exact hphase v.2 (h.phases v hv)
  own := h.own

theorem Sound.proceed (h : Sound received t) {outcome : Outcome} (ho : outcome.Own received id) :
    Sound received (t.proceed id outcome) := by
  cases outcome with
  | goes phase =>
      refine h.update (g := fun r => if r.id = id then { r with phase } else r) ?_ ?_
      · intro r
        split_ifs <;> rfl
      · intro r hr
        split_ifs with hid
        · exact hid ▸ ho
        · exact hr
  | settles settlement =>
      refine ⟨h.balanced.settle _ _, ⟨h.ids.1.sublist (Ledger.waiting_settle_sublist.map _), ?_⟩, ?_, ?_⟩
      · exact fun w hw => h.ids.2 w (Ledger.waiting_settle_sublist.subset hw)
      · exact fun w hw => h.phases w (Ledger.waiting_settle_sublist.subset hw)
      · intro x hx
        rcases Ledger.mem_settled_settle hx with hx | ⟨w, -, -, rfl⟩
        · exact h.own x hx
        · exact ho
  | stays => exact h

theorem Sound.advance (h : Sound received t) {f : Request → Outcome}
    (hf : ∀ r, t.find id = some r → r.id = id → r.phase.Own received id → (f r).Own received id) :
    Sound received (t.advance id f) := by
  unfold Transport.advance
  split
  · rename_i r hr
    exact h.proceed (hf r hr (h.found hr).1 (h.found hr).2)
  · exact h

theorem Sound.withSession (h : Sound received t) (sessionId : Option Text) : Sound received { t with sessionId } :=
  ⟨h.balanced, h.ids, h.phases, h.own⟩

theorem consumeSse_own {reading : Reading} {response : Response} : (r.consumeSse reading response).Own received id := by
  unfold Request.consumeSse
  split_ifs
  · exact Outcome.rejects_own
  · exact Outcome.rejects_own
  · trivial

theorem posted_own {sessionId : Option Text} {response : Response} : (r.posted sessionId response).Own received id := by
  unfold Request.posted
  split_ifs
  · exact Outcome.rejects_own
  · exact Outcome.rejects_own
  · exact Outcome.rejects_own
  · trivial
  · exact consumeSse_own
  · exact Outcome.rejects_own

theorem resumed_own {reading : Reading} {response : Response} : (r.resumed reading response).Own received id := by
  unfold Request.resumed
  split_ifs
  · exact Outcome.rejects_own
  · exact consumeSse_own
  · exact Outcome.rejects_own

theorem Sound.responded (h : Sound received t) (id : Nat) (response : Response) :
    Sound received (t.responded id response) := by
  unfold Transport.responded
  split
  · exact h
  · split
    · exact (h.proceed posted_own).withSession _
    · exact h.proceed resumed_own
    · exact h

theorem Sound.request (h : Sound received t) (method : String) (aborted : Bool) : Sound received (t.request method aborted) := by
  unfold Transport.request
  split_ifs
  · refine ⟨h.balanced.refuse _, h.ids, h.phases, ?_⟩
    intro x hx
    rcases List.mem_cons.mp hx with rfl | hx
    · exact Settlement.own_error
    · exact h.own x hx
  · refine ⟨h.balanced.issue _, ⟨?_, ?_⟩, ?_, h.own⟩
    · simp only [Ledger.issue, List.map_append, List.map_cons, List.map_nil, List.nodup_append]
      refine ⟨h.ids.1, List.nodup_singleton _, ?_⟩
      intro a ha b hb
      obtain ⟨w, hw, rfl⟩ := List.mem_map.mp ha
      rw [List.mem_singleton.mp hb]
      exact Nat.ne_of_lt (h.ids.2 w hw)
    · intro w hw
      rcases Ledger.mem_waiting_issue hw with hw | hw
      · exact Nat.lt_succ_of_lt (h.ids.2 w hw)
      · rw [hw]
        exact Nat.lt_succ_self _
    · intro w hw
      rcases Ledger.mem_waiting_issue hw with hw | hw
      · exact h.phases w hw
      · rw [hw]
        trivial

theorem Sound.body (h : Sound received t) (id : Nat) (value : Option Value) (hp : Proper t (.body id value)) :
    Sound (received ++ value.toList) (t.advance id (Request.body value)) := by
  refine (h.mono _).advance ?_
  intro r hr hid _
  unfold Request.body
  split
  · rename_i m hphase _
    exact answered_own (List.mem_append_right _ (by simp)) (hid ▸ hp r hr hphase)
  · exact Outcome.rejects_own
  · trivial

theorem Sound.chunk (h : Sound received t) (id : Nat) (blocks : List Block) (hp : Proper t (.chunk id blocks)) :
    Sound (received ++ Event.messages (.chunk id blocks)) (t.advance id (Request.chunk blocks)) := by
  refine (h.mono _).advance ?_
  intro r hr hid _
  unfold Request.chunk
  split
  · rename_i reading hphase
    split
    · rename_i m hscan
      rw [hid] at hscan
      exact ⟨List.mem_append_right _ (scan_found hscan), hp r reading m hr hphase hscan⟩
    · exact Outcome.rejects_own
    · split_ifs
      · exact Outcome.rejects_own
      · trivial
  · trivial

theorem Sound.next (h : Sound received t) (event : Event) (hp : Proper t event) :
    Sound (received ++ event.messages) (next options t event) := by
  have hsame : received ++ [] = received := List.append_nil _
  cases event with
  | request method aborted => exact hsame.symm ▸ h.request method aborted
  | responded id response => exact hsame.symm ▸ h.responded id response
  | body id value => exact h.body id value hp
  | chunk id blocks => exact h.chunk id blocks hp
  | ended id =>
      refine hsame.symm ▸ h.advance ?_
      intro r _ _ _
      unfold Request.ended
      split
      · split_ifs
        · exact Outcome.rejects_own
        · exact Outcome.rejects_own
        · trivial
        · trivial
      · trivial
  | cancelled id =>
      refine hsame.symm ▸ h.advance ?_
      intro r _ hid hown
      unfold Request.cancelled
      split
      · rename_i m hphase
        rw [hphase] at hown
        exact answered_own hown.1 (hid ▸ hown.2)
      · trivial
  | elapsed id =>
      refine hsame.symm ▸ h.advance ?_
      intro r _ _ _
      unfold Request.elapsed
      split <;> trivial
  | failed id => exact hsame.symm ▸ h.advance (fun _ _ _ _ => Outcome.rejects_own)
  | timeout id =>
      refine hsame.symm ▸ h.update (fun r => ?_) (fun r hr => ?_)
      · split_ifs <;> rfl
      · split_ifs <;> exact hr
  | abort id =>
      refine hsame.symm ▸ h.update (fun r => ?_) (fun r hr => ?_)
      · split_ifs <;> rfl
      · split_ifs <;> exact hr
  | close =>
      have hclosed := h.update (g := fun r => { r with aborted := true }) (fun _ => rfl) (fun _ hr => hr)
      exact hsame.symm ▸ ⟨hclosed.balanced, hclosed.ids, hclosed.phases, hclosed.own⟩

theorem sound_after {events : List Event} (h : Run.Along (next options) Proper .initial events) :
    Sound (events.flatMap Event.messages) (Run.after (next options) .initial events) := by
  induction events using List.reverseRecOn with
  | nil => exact sound_initial
  | append_singleton events event ih =>
      obtain ⟨hbefore, hp⟩ := Run.along_concat.mp h
      rw [Run.after_concat, List.flatMap_append, List.flatMap_singleton]
      exact (ih hbefore).next event hp

/-- The timer of a request that waits aborts what it awaits, and that settles it. -/
theorem timeout_settles (h : Sound received t) {w : Nat × Request} (hw : w ∈ t.requests.waiting) :
    ∃ s, (w.1, s) ∈ (next options (next options t (.timeout w.2.id)) (.failed w.2.id)).requests.settled := by
  let timedOut (r : Request) : Request := if r.id = w.2.id then { r with timedOut := true, aborted := true } else r
  have hid : ∀ r, (timedOut r).id = r.id := by
    intro r
    by_cases hr : r.id = w.2.id <;> simp [timedOut, hr]
  have hsound : Sound received (next options t (.timeout w.2.id)) := h.update hid (by
    intro r hr
    by_cases hw : r.id = w.2.id <;> simpa [timedOut, hw] using hr)
  have hwaits : (w.1, timedOut w.2) ∈ (next options t (.timeout w.2.id)).requests.waiting := List.mem_map_of_mem hw
  have hone : ∀ v ∈ (next options t (.timeout w.2.id)).requests.waiting, v.2.id = w.2.id → v = (w.1, timedOut w.2) :=
    fun v hv hv' => List.inj_on_of_nodup_map hsound.ids.1 hv hwaits (hv'.trans (hid w.2).symm)
  obtain ⟨r, hfind⟩ : ∃ r, (next options t (.timeout w.2.id)).find w.2.id = some r := by
    apply Option.isSome_iff_exists.mp
    rw [Transport.find, Ledger.find, Option.isSome_map, List.find?_isSome]
    exact ⟨_, hwaits, by simpa using hid w.2⟩
  have hfailed : next options (next options t (.timeout w.2.id)) (.failed w.2.id) =
      (next options t (.timeout w.2.id)).proceed w.2.id (.rejects .network r) := by
    change (next options t (.timeout w.2.id)).advance w.2.id (Outcome.rejects .network) = _
    rw [Transport.advance, hfind]
  rw [hfailed]
  exact ⟨_, Ledger.settle_settles (w := (w.1, timedOut w.2)) (f := fun _ => r.rejected .network) hwaits
    (decide_eq_true (hid w.2)) (fun v hv hv' => hone v hv (of_decide_eq_true hv'))⟩

end Http

/-- Each call has one settlement or waits for it, and a message that settles one is a response to it. -/
structure Answered {K : Type} (received : List Value) (l : Ledger K Settlement) : Prop where
  once : (l.settled.map Prod.fst).Nodup
  accounted : ∀ call < l.issued, call ∈ l.settled.map Prod.fst ∨ call ∈ l.waiting.map Prod.fst
  own : ∀ x ∈ l.settled, x.2.Own received

theorem answered {K : Type} {received : List Value} {l : Ledger K Settlement} (h : l.Balanced)
    (hown : ∀ x ∈ l.settled, x.2.Own received) : Answered received l :=
  ⟨h.once, fun _ hcall => h.settled_or_waiting hcall, hown⟩

/-- The calls of the stdio client after a run; the timer of one that waits would settle it. -/
def Stdio.Answers (events : List Stdio.Event) : Prop :=
  Answered (events.flatMap Stdio.Event.messages) (Run.after Stdio.next .initial events).pending ∧
    ∀ w ∈ (Run.after Stdio.next .initial events).pending.waiting,
      ∃ s, (w.1, s) ∈ (Stdio.next (Run.after Stdio.next .initial events) (.timeout w.2.id)).pending.settled

/-- The calls of the HTTP transport after a run; the timer of one that waits would settle it
with the rejection of what it awaits. -/
def Http.Answers (options : Http.Options) (events : List Http.Event) : Prop :=
  Answered (events.flatMap Http.Event.messages) (Run.after (Http.next options) .initial events).requests ∧
    ∀ w ∈ (Run.after (Http.next options) .initial events).requests.waiting,
      ∃ s, (w.1, s) ∈ (Http.next options (Http.next options (Run.after (Http.next options) .initial events)
        (.timeout w.2.id)) (.failed w.2.id)).requests.settled

/-- Every call is settled once and by its own response, as long as no message with the id of
a waiting call is a request of the server or has neither a result nor an error. -/
theorem requests_answered (options : Http.Options) :
    (∀ events, Run.Along Stdio.next Stdio.Proper .initial events → Stdio.Answers events) ∧
      ∀ events, Run.Along (Http.next options) Http.Proper .initial events → Http.Answers options events := by
  constructor
  · intro events h
    have hsound := Stdio.sound_after h
    exact ⟨answered hsound.balanced hsound.own, fun _ hw => Stdio.timeout_settles hsound hw⟩
  · intro events h
    have hsound := Http.sound_after h
    exact ⟨answered hsound.balanced hsound.own, fun _ hw => Http.timeout_settles hsound hw⟩

def pong : Value := .obj [("jsonrpc", .str "2.0"), ("id", .num 1), ("result", .obj [])]

theorem requests_answered_pong :
    Stdio.Answers [.start, .request "ping" false false, .message (some pong), .close] ∧
      Http.Answers ⟨3⟩ [.request "ping" false, .responded 1 ⟨200, "application/json".toList, [], true⟩,
        .body 1 (some pong), .close] := by
  have hpong : pong.member "method" = none := rfl
  refine ⟨(requests_answered ⟨3⟩).1 _ ?_, (requests_answered ⟨3⟩).2 _ ?_⟩
  · refine Run.along_of_mem fun event hevent c => ?_
    simp only [List.mem_cons, List.not_mem_nil, or_false] at hevent
    rcases hevent with rfl | rfl | rfl | rfl
    · trivial
    · trivial
    · exact fun w _ _ => ⟨hpong, .inr rfl⟩
    · trivial
  · refine Run.along_of_mem fun event hevent t => ?_
    simp only [List.mem_cons, List.not_mem_nil, or_false] at hevent
    rcases hevent with rfl | rfl | rfl | rfl
    · trivial
    · trivial
    · intro r _ _ _
      refine ⟨hpong, fun result hresult => ?_⟩
      rw [(Http.parse_ok hresult).2]
      rfl
    · trivial

def serverPing : Value := .obj [("jsonrpc", .str "2.0"), ("id", .num 1), ("method", .str "ping")]

/-- A ping of the server that has the id of a request resolves it. -/
theorem server_ping_resolves :
    ¬ ∀ options : Http.Options, (∀ events, Stdio.Answers events) ∧ ∀ events, Http.Answers options events := by
  intro h
  have hanswers := (h ⟨3⟩).1 [.start, .request "tools/list" false false, .message (some serverPing)]
  have hsettled : (0, (⟨some 1, some serverPing, .ok none⟩ : Settlement)) ∈
      (Run.after Stdio.next .initial [.start, .request "tools/list" false false, .message (some serverPing)]).pending.settled :=
    List.mem_cons_self
  obtain ⟨_, _, _, _, _, hnone, _⟩ := (hanswers.1.own _ hsettled).resolved none rfl
  cases hnone

end Kross.Mcp.Rpc

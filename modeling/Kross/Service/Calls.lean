import Kross.Service.Frame

namespace Kross.Service

open Mutation (mapGet mapSet mapDelete mapGet_mapSet mapGet_filter)

/-- The session that a call works with. -/
def Point.session : Point → Option Nat
  | .got r | .streaming r _ | .interrupting r | .formatting r | .inspecting r | .compacting r
  | .commanding r | .operating r => some r
  | _ => none

def Point.load : Point → Option Nat
  | .loading load | .joining load => some load
  | _ => none

/-- The session whose `abortController` the call has set. -/
def Point.holds : Point → Option Nat
  | .streaming r _ | .compacting r | .commanding r => some r
  | _ => none

def Point.candidates : Point → List Nat
  | .evicting _ candidates => candidates
  | _ => []

/-- The call has passed its look-up, and is not done. -/
def Point.begun : Point → Bool
  | .evicting _ _ | .entered | .done _ => false
  | _ => true

def LoadPoint.session : LoadPoint → Option Nat
  | .evicting r _ _ | .loaded r => some r
  | _ => none

/-- The maps and the loads lead to objects of their ids. -/
structure Keyed (m : Memory) : Prop where
  sessions : ∀ k r, mapGet k m.sessions = some r → Own (· = k) r m
  loading : ∀ (k : String) (l : Nat), mapGet k m.loadingSessions = some l →
    ∃ x : Load, m.loads[l]? = some x ∧ x.sessionId = k
  loads : ∀ (l : Nat) (x : Load) (r : Nat), m.loads[l]? = some x → x.point.session = some r →
    Own (· = x.sessionId) r m

/-- What a call works with or waits for has an id of `K`. -/
structure Placed (K : String → Prop) (m : Memory) (p : Point) : Prop where
  session : ∀ r, p.session = some r → Own K r m
  load : ∀ l, p.load = some l → ∃ x, m.loads[l]? = some x ∧ K x.sessionId

/-- The call has made the load that it waits for, and others find it. -/
def Owns (i : Nat) (m : Memory) (p : Point) : Prop :=
  ∀ l, p = .loading l →
    ∃ x, m.loads[l]? = some x ∧ x.owner = i ∧ mapGet x.sessionId m.loadingSessions = some l

/-- A call gets on to a point that meets `P`. -/
def Goes (A B : Nat → Prop) (K : String → Prop) (i : Nat) (w w' : World) (P : World → Point → Prop) :
    Prop := ∃ u p, Ordinary A B K i w u ∧ w' = u.await i p ∧ P u p

/-- The call is under way, has set nothing, and is about an id of `K` if any. -/
structure Plain (K : String → Prop) (i : Nat) (u : World) (p : Point) : Prop where
  begun : p.begun = true
  holds : p.holds = none
  placed : Placed K u.memory p
  owns : Owns i u.memory p

/-- The call has set the `abortController` of `r`. -/
structure Holding (K : String → Prop) (r : Nat) (u : World) (p : Point) : Prop where
  begun : p.begun = true
  holds : p.holds = some r
  placed : Placed K u.memory p

def Nobody (_ : Nat) : Prop := False

variable {A B A' B' : Nat → Prop} {K K' : String → Prop} {i r : Nat} {u v w w' : World}
  {P Q : World → Point → Prop} {options : WorkerServiceOptions}

theorem Goes.mono (h : Goes A B K i w w' P) (hA : ∀ r, A r → A' r) (hB : ∀ r, B r → B' r)
    (hK : ∀ k, K k → K' k) (hP : ∀ u p, P u p → Q u p) : Goes A' B' K' i w w' Q := by
  obtain ⟨u, p, ho, he, hp⟩ := h
  exact ⟨u, p, ho.mono hA hB hK, he, hP u p hp⟩

theorem Goes.after (h : Goes A B K i u w' P) (ho : Ordinary A B K i w u) : Goes A B K i w w' P := by
  obtain ⟨v, p, hv, he, hp⟩ := h
  exact ⟨v, p, ho.trans hv, he, hp⟩

theorem goes_await (h : Ordinary A B K i w u) {p : Point} (hp : P u p) : Goes A B K i w (u.await i p) P :=
  ⟨u, p, h, rfl, hp⟩

theorem Placed.mono {m : Memory} {p : Point} (h : Placed K m p) (hK : ∀ k, K k → K' k) : Placed K' m p where
  session := fun r hr => (h.session r hr).mono hK
  load := by
    intro l hl
    obtain ⟨x, hx, hk⟩ := h.load l hl
    exact ⟨x, hx, hK _ hk⟩

theorem placed_of_session {m : Memory} {p : Point} (hs : p.session = some r) (h : Own K r m) :
    Placed K m p := by
  refine ⟨fun r' hr' => ?_, fun l hl => ?_⟩
  · rw [hs] at hr'
    cases hr'
    exact h
  · cases p <;> simp [Point.session, Point.load] at hs hl

theorem plain_of_point {p : Point} (hb : p.begun = true) (hs : p.session = none) (hl : p.load = none) :
    Plain K i u p := by
  refine ⟨hb, ?_, ⟨fun r hr => ?_, fun l hl' => ?_⟩, fun l hp => ?_⟩
  · cases p <;> first | rfl | cases hs
  · rw [hs] at hr
    cases hr
  · rw [hl] at hl'
    cases hl'
  · subst hp
    cases hl

theorem plain_of_session {p : Point} (hb : p.begun = true) (hh : p.holds = none) (hs : p.session = some r)
    (h : Own K r u.memory) : Plain K i u p := by
  refine ⟨hb, hh, placed_of_session hs h, fun l hp => ?_⟩
  subst hp
  cases hs

theorem goes_finish (h : Ordinary A B K i w u) : Goes A B K i w (u.finish i) (Plain K i) :=
  goes_await h (plain_of_point rfl rfl rfl)

theorem goes_fail (w : World) (sessionId : Option String) (requestId code message : String) :
    Goes A B K i w (w.fail i sessionId requestId code message) (Plain K i) :=
  goes_finish (ordinary_reply w _ _ (fun h => by cases h))

theorem ordinary_accept (w : World) (sessionId : Option String) (requestId : String) :
    Ordinary A B K i w (w.accept i sessionId requestId) := ordinary_reply w _ _ (fun h => by cases h)

theorem ordinary_replySnapshot (w : World) {sessionId : String} (h : K sessionId) :
    Ordinary A B K i w (w.replySnapshot options i sessionId) := by
  rw [World.replySnapshot]
  split_ifs
  · refine ordinary_reply w _ _ (fun _ k hk => ?_)
    cases hk
    exact h
  · exact ordinary_refl w

section Loading

theorem ordinary_newLoad {sessionId : String} (h : K sessionId)
    (hs : mapGet sessionId w.memory.sessions = none) (hn : mapGet sessionId w.memory.loadingSessions = none)
    (stored : Option StoredSession) :
    Ordinary A B K i w (w.onMemory (fun m =>
      { m with
        loads := m.loads ++ [⟨sessionId, i, .creating stored⟩]
        loadingSessions := mapSet sessionId m.loads.length m.loadingSessions })) := by
  have hr := ordinary_refl (A := A) (B := B) (K := K) (i := i) w
  refine { hr with
    memory := ?_, loads := fun l x hx => ?_, newLoads := fun l x hx => ?_, listed := ?_, loading := ?_ }
  · exact ⟨rfl, rfl, rfl, rfl, fun _ s hs => ⟨s, hs, rfl, fun _ => rfl, fun _ => id⟩⟩
  · simp only [World.onMemory]
    rw [List.getElem?_append_left (List.getElem?_eq_some_iff.mp hx).1]
    exact hx
  · simp only [World.onMemory] at hx
    rcases Nat.lt_or_ge l w.memory.loads.length with hlt | hge
    · rw [List.getElem?_append_left hlt] at hx
      exact Or.inl hx
    · have hlen := (List.getElem?_eq_some_iff.mp hx).1
      rw [List.length_append, List.length_singleton] at hlen
      have hl : l = w.memory.loads.length := by omega
      subst hl
      rw [List.getElem?_concat_length, Option.some.injEq] at hx
      subst hx
      refine Or.inr ⟨h, ⟨stored, rfl⟩, ?_, hs⟩
      simp only [World.onMemory, mapGet_mapSet, if_true]
  · intro k l hl
    have hne : sessionId ≠ k := by
      rintro rfl
      rw [hn] at hl
      cases hl
    simp only [World.onMemory, mapGet_mapSet, if_neg hne]
    exact hl
  · intro k l hl
    simp only [World.onMemory, mapGet_mapSet] at hl ⊢
    split_ifs at hl with hk
    · cases hl
      exact Or.inr ⟨_, List.getElem?_concat_length, hk⟩
    · exact Or.inl hl

/-- A load that is under way is joined. -/
theorem goes_loadRuntime (hk : Keyed w.memory) {sessionId : String} (h : K sessionId)
    (stored : Option StoredSession) : Goes A B K i w (w.loadRuntime i sessionId stored) (Plain K i) := by
  rw [World.loadRuntime]
  split
  · rename_i r hr
    have ht : Ordinary A B K i w (w.onMemory (.touch r)) := ordinary_touch w r
    have hown : Own K r w.memory := (hk.sessions sessionId r hr).mono (fun k he => he ▸ h)
    exact goes_await ht (plain_of_session rfl rfl rfl (hown.of_ordinary ht))
  · split
    · rename_i l hl
      obtain ⟨x, hx, rfl⟩ := hk.loading sessionId l hl
      refine goes_await (ordinary_refl w) ⟨rfl, rfl, ⟨fun r hr => (by cases hr), fun l' hl' => ?_⟩,
        fun l' hl' => (by cases hl')⟩
      cases hl'
      exact ⟨x, hx, h⟩
    · rename_i hs _ hn
      refine goes_await (ordinary_newLoad h hs hn stored) ⟨rfl, rfl, ⟨fun r hr => (by cases hr), fun l hl => ?_⟩,
        fun l hl => ?_⟩
      · cases hl
        exact ⟨_, List.getElem?_concat_length, h⟩
      · cases hl
        refine ⟨_, List.getElem?_concat_length, rfl, ?_⟩
        simp only [World.onMemory, mapGet_mapSet, if_true]

theorem goes_requireSession (hk : Keyed w.memory) {sessionId : String} (h : K sessionId)
    (requestId : String) :
    Goes A B K i w (w.requireSession options i sessionId requestId) (Plain K i) := by
  rw [World.requireSession]
  split
  · rename_i r hr
    have hl := goes_loadRuntime (A := A) (B := B) (i := i) hk h none
    simpa only [World.loadRuntime, hr] using hl
  · split
    · exact goes_fail w _ _ _ _
    · exact goes_loadRuntime hk h _

/-- Nothing is loaded for an id that the store does not know. -/
theorem requireSession_missing {sessionId requestId : String} (hm : mapGet sessionId w.memory.sessions = none)
    (hs : w.storage.loadSession options sessionId = none) :
    w.requireSession options i sessionId requestId =
      w.fail i (some sessionId) requestId "SESSION_NOT_FOUND" "会话不存在" := by
  simp only [World.requireSession, hm, hs]

end Loading

section Runs

theorem ordinary_finalText {u : World} (stream : StreamState) (hu : Ordinary A B K i w u) :
    Ordinary A B K i w (match stream.finalResult with
      | some result =>
          if !stream.hasAgentText && !(Session.trim result.summary.toList).isEmpty then
            u.persistMessage r (if result.approvalRequired then .system else .agent) result.summary
          else u
      | none => u) := by
  cases stream.finalResult with
  | some result =>
      dsimp only
      split_ifs <;> first | exact hu | exact hu.trans (ordinary_persistMessage u r _ _)
  | none => exact hu

variable (options) in
theorem ordinary_streamDone (w : World) (stream : StreamState) (h : Own K r w.memory) :
    Ordinary A B K i w (w.streamDone options i r stream) := by
  simp only [World.streamDone]
  split
  · exact ordinary_refl w
  · rename_i s hs
    refine Ordinary.trans ?_ (ordinary_replySnapshot _ (h.id hs))
    refine Ordinary.trans ?_ (ordinary_persistState _ r)
    refine ordinary_finalText stream ?_
    split
    · split_ifs
      · exact ordinary_upsertMessage w _ _
      · exact ordinary_refl w
    · exact ordinary_refl w

theorem goes_runEnded (w : World) (hA : A r) : Goes A B K i w (w.runEnded i r) (Plain K i) := by
  rw [World.runEnded]
  refine goes_finish ?_
  refine Ordinary.trans ?_ (ordinary_touch _ r)
  exact (ordinary_setAbortController w hA (fun h => by cases h)).trans (ordinary_persistState _ r)

theorem ordinary_flushSegment (w : World) (stream : StreamState) :
    Ordinary A B K i w (w.flushSegment r stream).1 := by
  rw [World.flushSegment]
  split
  · split_ifs
    · exact ordinary_upsertMessage w _ _
    · exact ordinary_refl w
  · exact ordinary_refl w

theorem ordinary_onText (w : World) (sender : MessageFrom) (text : String) (stream : StreamState) :
    Ordinary A B K i w (w.onText r sender text stream).1 := by
  have hflushed : Ordinary A B K i w
      (if stream.segmentFrom = some sender then (w, stream) else w.flushSegment r stream).1 := by
    split_ifs
    · exact ordinary_refl w
    · exact ordinary_flushSegment w stream
  simp only [World.onText]
  split_ifs at hflushed ⊢ <;> first | exact hflushed | exact hflushed.trans (ordinary_persistMessage _ r _ _)

theorem ordinary_consume (w : World) (event : AgentRunStreamEvent) (stream : StreamState)
    (h : Own K r w.memory) : Ordinary A B K i w (w.consume r event stream).1 := by
  cases event with
  | textDelta text => exact ordinary_onText w _ _ _
  | thinkingDelta text => exact ordinary_onText w _ _ _
  | turnStart => exact ordinary_flushSegment w stream
  | toolsStart => exact ordinary_flushSegment w stream
  | other => exact ordinary_refl w
  | result result =>
      have hflush : Ordinary A B K i w (w.flushSegment r stream).1 := ordinary_flushSegment w stream
      simp only [World.consume]
      split
      · rename_i s hs
        split_ifs
        · refine hflush.trans (ordinary_emit _ _ _ (fun _ k hk => ?_))
          cases hk
          exact (h.of_ordinary hflush).id hs
        · exact hflush
      · exact hflush

variable (options) in
/-- A run goes on, or ends. -/
theorem goes_streaming (stream : StreamState) (command : ClientCommand) (answer : Answer)
    (h : Own K r w.memory) :
    w.streaming options i r stream command answer = w ∨
      Goes Nobody (· = r) K i w (w.streaming options i r stream command answer) (Holding K r) ∨
      Goes (· = r) (· = r) K i w (w.streaming options i r stream command answer) (Plain K i) := by
  have hact {A : Nat → Prop} (runtime : Runtime) :
      Ordinary A (· = r) K i w ((w.updateRuntime r (fun _ => runtime)).act i) :=
    (ordinary_updateRuntime (B := (· = r)) w _ (Or.inl rfl)).trans (ordinary_act _)
  unfold World.streaming
  split
  · rename_i event runtime _
    have hc := (hact (A := Nobody) runtime).trans
      (ordinary_consume _ event stream (h.of_ordinary (hact (A := Nobody) runtime)))
    exact Or.inr (Or.inl (goes_await hc ⟨rfl, rfl, placed_of_session rfl (h.of_ordinary hc)⟩))
  · rename_i runtime _
    have hd := (hact (A := (· = r)) runtime).trans
      (ordinary_streamDone options _ stream (h.of_ordinary (hact (A := (· = r)) runtime)))
    exact Or.inr (Or.inr (Goes.after (goes_runEnded (A := (· = r)) _ rfl) hd))
  · rename_i s message runtime _
    refine Or.inr (Or.inr (Goes.after (goes_runEnded (A := (· = r)) _ rfl) ?_))
    split
    · exact (hact runtime).trans (ordinary_reply _ _ _ (fun h => by cases h))
    · exact hact runtime
  · exact Or.inl rfl

theorem goes_runInput (hk : Keyed w.memory) {sessionId : String} (h : K sessionId) (requestId : String) :
    Goes A B K i w (w.runInput options i sessionId requestId) (Plain K i) := by
  rw [World.runInput]
  split
  · split_ifs
    · exact goes_await (ordinary_refl w) (plain_of_point rfl rfl rfl)
    · exact goes_requireSession hk h _
  · exact goes_requireSession hk h _

theorem goes_diskChecked (hk : Keyed w.memory) {sessionId : String} (h : K sessionId) (requestId : String)
    (answer : Answer) : w.diskChecked options i sessionId requestId answer = w ∨
      Goes A B K i w (w.diskChecked options i sessionId requestId answer) (Plain K i) := by
  cases answer with
  | resolved | streamed => exact Or.inl rfl
  | rejected message => exact Or.inr (goes_fail w _ _ _ _)
  | usage bytes =>
      simp only [World.diskChecked]
      split_ifs
      · exact Or.inr (goes_fail w _ _ _ _)
      · exact Or.inr (goes_requireSession hk h _)

end Runs

section Commands

/-- A run is started where none is in progress. -/
theorem goes_run (w : World) (h : Own K r w.memory) :
    Goes (· = r) (· = r) K i w (w.run i r) (fun u p => Holding K r u p ∧
      (u.memory.session? r).any ActiveSession.abortController) := by
  have hset : Ordinary (· = r) (· = r) K i w (w.setAbortController r true) :=
    ordinary_setAbortController w rfl (fun _ => rfl)
  have ho := hset.trans (ordinary_act _)
  refine goes_await ho ⟨⟨rfl, rfl, placed_of_session rfl (h.of_ordinary ho)⟩, ?_⟩
  obtain ⟨s, hs, -⟩ := h
  simp [World.act, World.setAbortController, World.onMemory, session?_update, hs]

/-- What begins with the session of a call: a run, if none is in progress. -/
def Begins (K : String → Prop) (i r : Nat) (w w' : World) : Prop :=
  (w.memory.session? r).any (fun s => !s.abortController) ∧
    Goes (· = r) (· = r) K i w w' (fun u p => Holding K r u p ∧
      (u.memory.session? r).any ActiveSession.abortController)

theorem goes_startRun (command : ClientCommand) (h : Own K r w.memory) :
    w.startRun i r command = w ∨ Goes Nobody Nobody K i w (w.startRun i r command) (Plain K i) ∨
      Begins K i r w (w.startRun i r command) := by
  rw [World.startRun]
  split
  · exact Or.inl rfl
  · rename_i s hs
    split_ifs with hb
    · exact Or.inr (Or.inl (goes_fail w _ _ _ _))
    · refine Or.inr (Or.inr ⟨by simp [hs, hb], ?_⟩)
      split
      · rename_i input _ planApproved _
        have ha : Ordinary (· = r) (· = r) K i w ((w.ensureGatewayProfileCurrent i r).accept i (some s.id)
            command.requestId) :=
          (ordinary_ensureGatewayProfileCurrent w h).trans (ordinary_accept _ _ _)
        split_ifs
        · exact (goes_run _ (h.of_ordinary ha)).after ha
        · have hp := ha.trans ((ordinary_persistMessage _ r .user input).trans (ordinary_act _))
          exact (goes_run _ (h.of_ordinary hp)).after hp
      · have ha : Ordinary (· = r) (· = r) K i w (w.accept i (some s.id) command.requestId) :=
          ordinary_accept w _ _
        exact (goes_run _ (h.of_ordinary ha)).after ha

theorem keyed_of_ordinary (hk : Keyed w.memory) (h : Ordinary A B K i w u) : Keyed u.memory := by
  refine ⟨fun k r hr => ?_, fun k l hkl => ?_, fun l x r hx hp => ?_⟩
  · rw [h.memory.sessions] at hr
    exact (hk.sessions k r hr).of_ordinary h
  · rcases h.loading k l hkl with hkl | hx
    · obtain ⟨x, hx, rfl⟩ := hk.loading k l hkl
      exact ⟨x, h.loads l x hx, rfl⟩
    · exact hx
  · rcases h.newLoads l x hx with hx | ⟨-, ⟨stored, he⟩, -, -⟩
    · exact (hk.loads l x r hx hp).of_ordinary h
    · rw [he] at hp
      cases hp

/-- An approved plan goes on as an input. -/
theorem goes_planApproval (hk : Keyed w.memory) {sessionId : String} (h : K sessionId) (requestId : String)
    (approved : Bool) (input : Option String)
    (ht : ∀ t, w.tasks[i]? = some t →
      t.command.request.sessionId = some sessionId ∧ t.command.request.isResume = false) :
    Goes Nobody Nobody K i w (w.planApproval options i r sessionId requestId approved input) (Plain K i) := by
  rw [World.planApproval]
  split
  · exact goes_fail w _ _ _ _
  · rename_i kind _
    split_ifs
    · split
      · exact goes_fail w _ _ _ _
      · refine Goes.after (goes_runInput (w := w.onTask i _) hk h _) (ordinary_onTask w (fun t hti => ?_))
        obtain ⟨hs, hr⟩ := ht t hti
        rw [Task.key, Task.key, hs, hr]
        rfl
    · refine goes_finish (Ordinary.trans ?_ (ordinary_replySnapshot _ h))
      refine Ordinary.trans ?_ (ordinary_accept _ _ _)
      refine Ordinary.trans ?_ (ordinary_persistState _ r)
      refine Ordinary.trans ?_ (ordinary_act _)
      refine Ordinary.trans ?_ (ordinary_workStateChanged _ r)
      exact ordinary_updateRuntime w _ (Or.inr (fun _ => ⟨id, (fun h => by simp at h)⟩))

theorem goes_aborted (w : World) (sessionId requestId : String) :
    Goes A B K i w (w.aborted i r sessionId requestId) (Plain K i) :=
  goes_finish (((ordinary_persistState w r).trans (ordinary_act _)).trans (ordinary_accept _ _ _))

theorem goes_abort (w : World) (h : Own K r w.memory) (sessionId requestId : String) :
    Goes A B K i w (w.abort i r sessionId requestId) (Plain K i) := by
  rw [World.abort]
  split_ifs
  · have ho : Ordinary A B K i w ((w.updateRuntime r (fun runtime =>
        { runtime with pendingToolApproval := none })).act i) := by
      refine Ordinary.trans ?_ (ordinary_act _)
      exact ordinary_updateRuntime w _ (Or.inr (fun _ => ⟨(fun h => by simp at h), id⟩))
    exact goes_await ho (plain_of_session rfl rfl rfl (h.of_ordinary ho))
  · exact goes_aborted w _ _

theorem ordinary_applyProfile {patch : Settings} (h : World.applyProfile i r patch w = some u) :
    Ordinary A B K i w u := by
  rw [World.applyProfile] at h
  split at h
  · obtain ⟨v, hv, rfl⟩ := Option.map_eq_some_iff.mp h
    exact (ordinary_applyProfileToSession hv).trans (ordinary_act _)
  · cases h
    exact ordinary_refl _

theorem ordinary_applyModel (w : World) (patch : Settings) :
    Ordinary A B K i w (w.applyModel i r patch) := by
  rw [World.applyModel]
  split
  · refine Ordinary.trans ?_ (ordinary_act _)
    exact ordinary_update w (fun _ => rfl) (Or.inr fun _ => rfl) (Or.inr fun _ => id)
  · exact ordinary_refl w

theorem ordinary_saveSettings (w : World) {sessionId : String} (patch : Settings) (h : K sessionId) :
    Ordinary A B K i w (w.saveSettings i sessionId patch) := by
  rw [World.saveSettings]
  split_ifs
  · exact ordinary_refl w
  · exact (ordinary_updateSettings w patch h).trans (ordinary_act _)

theorem ordinary_applyMode (w : World) (mode : Option AgentMode) :
    Ordinary A B K i w (w.applyMode i r mode) := by
  rw [World.applyMode]
  split_ifs
  · exact ((ordinary_workStateChanged w r).trans (ordinary_persistState _ r)).trans (ordinary_act _)
  · exact ordinary_refl w

theorem goes_applySettings (w : World) {sessionId : String} (h : K sessionId) (requestId : String)
    (patch : Settings) (mode : Option AgentMode) (answer : Answer) :
    w.applySettings options i r sessionId requestId patch mode answer = w ∨
      Goes A B K i w (w.applySettings options i r sessionId requestId patch mode answer) (Plain K i) := by
  unfold World.applySettings
  split
  · exact Or.inr (goes_fail w _ _ _ _)
  · rename_i u _ _ hu
    refine Or.inr (goes_finish (Ordinary.trans ?_ (ordinary_replySnapshot _ h)))
    refine Ordinary.trans ?_ (ordinary_accept _ _ _)
    refine Ordinary.trans ?_ (ordinary_applyMode _ mode)
    refine Ordinary.trans ?_ (ordinary_saveSettings _ patch h)
    exact (ordinary_applyProfile hu).trans (ordinary_applyModel u patch)
  · rename_i u message runtime hu
    refine Or.inr (Goes.after (goes_fail _ _ _ _ _) ((ordinary_applyProfile hu).trans ?_))
    refine Ordinary.trans ?_ (ordinary_act _)
    exact ordinary_updateRuntime u _ (Or.inr (fun _ => ⟨id, id⟩))
  · exact Or.inl rfl

theorem goes_inspected (w : World) (sessionId requestId : String) (answer : Answer) :
    w.inspected i sessionId requestId answer = w ∨
      Goes A B K i w (w.inspected i sessionId requestId answer) (Plain K i) := by
  cases answer with
  | resolved content =>
      exact Or.inr (goes_finish ((ordinary_reply w _ _ (fun h => by cases h)).trans (ordinary_accept _ _ _)))
  | rejected message => exact Or.inr (goes_fail w _ _ _ _)
  | usage | streamed => exact Or.inl rfl

theorem goes_formatted (w : World) (h : Own K r w.memory) (kind : InspectionKind)
    (sessionId requestId : String) (answer : Answer) :
    w.formatted i r kind sessionId requestId answer = w ∨
      Goes A B K i w (w.formatted i r kind sessionId requestId answer) (Plain K i) := by
  cases kind with
  | trace => exact goes_inspected w _ _ answer
  | diff =>
      cases answer with
      | resolved content => exact Or.inr (goes_await (ordinary_refl w) (plain_of_session rfl rfl rfl h))
      | rejected message => exact Or.inr (goes_fail w _ _ _ _)
      | usage | streamed => exact Or.inl rfl

theorem goes_operated (w : World) {sessionId : String} (h : K sessionId) (requestId : String)
    (answer : Answer) : w.operated i sessionId requestId answer = w ∨
      Goes A B K i w (w.operated i sessionId requestId answer) (Plain K i) := by
  have hresult (ok : Bool) (output : String) :
      Ordinary A B K i w (w.reply i (some sessionId) (.gitResult ok output)) := by
    refine ordinary_reply w _ _ (fun _ k hk => ?_)
    cases hk
    exact h
  cases answer with
  | resolved output => exact Or.inr (goes_finish ((hresult true output).trans (ordinary_accept _ _ _)))
  | rejected message => exact Or.inr ((goes_fail _ _ _ _ _).after (hresult false message))
  | usage | streamed => exact Or.inl rfl

variable (options) in
theorem goes_compacted (w : World) {sessionId : String} (h : K sessionId) (requestId : String)
    (answer : Answer) : w.compacted options i r sessionId requestId answer = w ∨
      Goes (· = r) (· = r) K i w (w.compacted options i r sessionId requestId answer) (Plain K i) := by
  have hruntime (runtime : Runtime) : Ordinary (· = r) (· = r) K i w (w.updateRuntime r (fun _ => runtime)) :=
    ordinary_updateRuntime (B := (· = r)) w _ (Or.inl rfl)
  have hreset (u : World) : Ordinary (· = r) (· = r) K i u (u.setAbortController r false) :=
    ordinary_setAbortController u rfl (fun h => by cases h)
  cases answer with
  | resolved text runtime =>
      refine Or.inr (goes_finish (Ordinary.trans ?_ (hreset _)))
      refine Ordinary.trans ?_ (ordinary_accept _ _ _)
      refine Ordinary.trans ?_ (ordinary_replySnapshot _ h)
      refine Ordinary.trans ?_ (ordinary_act _)
      exact ((hruntime runtime).trans (ordinary_persistMessage _ r _ _)).trans (ordinary_persistState _ r)
  | rejected message runtime =>
      refine Or.inr (goes_finish (Ordinary.trans ?_ (hreset _)))
      exact (hruntime runtime).trans (ordinary_reply _ _ _ (fun h => by cases h))
  | usage | streamed => exact Or.inl rfl

theorem ordinary_commanded (w : World) (name : RuntimeCommand) (sessionId requestId : String) (ok : Bool)
    (content : String) : Ordinary A B K i w ((w.reply i (some sessionId)
      (.runtimeCommandResult name ok content)).accept i (some sessionId) requestId) :=
  (ordinary_reply w _ _ (fun h => by cases h)).trans (ordinary_accept _ _ _)

theorem goes_commanded (w : World) (name : RuntimeCommand) (sessionId requestId : String)
    (answer : Answer) : w.commanded i r name sessionId requestId answer = w ∨
      Goes (· = r) (· = r) K i w (w.commanded i r name sessionId requestId answer) (Plain K i) := by
  have hreset (u : World) : Ordinary (· = r) (· = r) K i u (u.setAbortController r false) :=
    ordinary_setAbortController u rfl (fun h => by cases h)
  cases answer with
  | resolved content => exact Or.inr (goes_finish ((ordinary_commanded w _ _ _ true _).trans (hreset _)))
  | rejected message => exact Or.inr (goes_finish ((ordinary_commanded w _ _ _ false _).trans (hreset _)))
  | usage | streamed => exact Or.inl rfl

theorem goes_compact (w : World) (h : Own K r w.memory) (sessionId requestId : String) :
    Goes Nobody Nobody K i w (w.compact i r sessionId requestId) (Plain K i) ∨
      Begins K i r w (w.compact i r sessionId requestId) := by
  rw [World.compact]
  obtain ⟨s, hs, -⟩ := id h
  split_ifs with hb
  · exact Or.inl (goes_fail w _ _ _ _)
  · have hset : Ordinary (· = r) (· = r) K i w (w.setAbortController r true) :=
      ordinary_setAbortController w rfl (fun _ => rfl)
    have ho := hset.trans (ordinary_act _)
    refine Or.inr ⟨by simpa [hs] using hb, goes_await ho ⟨⟨rfl, rfl, placed_of_session rfl (h.of_ordinary ho)⟩, ?_⟩⟩
    simp [World.act, World.setAbortController, World.onMemory, session?_update, hs]

/-- To set an `abortController` and reset it at once is to do nothing. -/
theorem steady_setReset {m : Memory} (hr : (m.session? r).any (fun s => !s.abortController)) :
    Steady A B m ((m.update r (fun s => { s with abortController := true })).update r
      (fun s => { s with abortController := false })) := by
  refine ⟨rfl, rfl, rfl, by simp [Memory.update], fun r' s' hs' => ?_⟩
  simp only [session?_update] at hs'
  split_ifs at hs' with he
  · subst he
    obtain ⟨t, ht, rfl⟩ := Option.map_eq_some_iff.mp hs'
    obtain ⟨s, hs, rfl⟩ := Option.map_eq_some_iff.mp ht
    have habort : s.abortController = false := by simpa [hs] using hr
    refine ⟨s, hs, rfl, fun _ => habort.symm, fun _ hb => ?_⟩
    simp only [ActiveSession.busy, Bool.false_or, Bool.or_eq_true] at hb ⊢
    tauto
  · exact ⟨s', hs', rfl, fun _ => rfl, fun _ => id⟩

theorem goes_runRuntimeCommand (w : World) (h : Own K r w.memory) (name : RuntimeCommand)
    (sessionId requestId : String) {answer : Answer} (ha : answer.settles) :
    w.runRuntimeCommand i r name sessionId requestId answer = w ∨
      Goes Nobody Nobody K i w (w.runRuntimeCommand i r name sessionId requestId answer) (Plain K i) ∨
      name = .mcp ∧ Begins K i r w (w.runRuntimeCommand i r name sessionId requestId answer) := by
  rw [World.runRuntimeCommand]
  obtain ⟨s, hs, -⟩ := id h
  split_ifs with hb hn
  · exact Or.inr (Or.inl (goes_fail w _ _ _ _))
  · have hset : Ordinary (· = r) (· = r) K i w (w.setAbortController r true) :=
      ordinary_setAbortController w rfl (fun _ => rfl)
    have ho := hset.trans (ordinary_act _)
    refine Or.inr (Or.inr ⟨hn, by simpa [hs] using hb,
      goes_await ho ⟨⟨rfl, rfl, placed_of_session rfl (h.of_ordinary ho)⟩, ?_⟩⟩)
    simp [World.act, World.setAbortController, World.onMemory, session?_update, hs]
  · have hset : Ordinary (· = r) (· = r) K i w (w.setAbortController r true) :=
      ordinary_setAbortController w rfl (fun _ => rfl)
    have hreset (u : World) : Ordinary (· = r) (· = r) K i u (u.setAbortController r false) :=
      ordinary_setAbortController u rfl (fun h => by cases h)
    have hfree : (w.memory.session? r).any (fun s => !s.abortController) := by simpa [hs] using hb
    have hall (ok : Bool) (content : String) :=
      ((hset.trans (ordinary_act (i := i) _)).trans (ordinary_commanded _ name sessionId requestId ok content)).trans
        (hreset _)
    have hquiet (ok : Bool) (content : String) : Ordinary Nobody Nobody K i w _ :=
      { hall ok content with memory := steady_setReset hfree }
    cases answer with
    | resolved content => exact Or.inr (Or.inl (goes_finish (hquiet true content)))
    | rejected message => exact Or.inr (Or.inl (goes_finish (hquiet false message)))
    | usage | streamed => cases ha

/-- The command starts a run that other calls may see. -/
def Request.runs : Request → Bool
  | .input _ _ _ _ | .approval _ _ _ _ | .compact _ _ => true
  | .runtimeCommand _ name => name = .mcp
  | _ => false

theorem goes_withSession (hk : Keyed w.memory) {t : Task} (ht : w.tasks[i]? = some t)
    (h : Own K r w.memory) (hK : ∀ k, t.command.request.sessionId = some k → K k)
    {answer : Answer} (ha : answer.settles) :
    w.withSession options i r t.command answer = w ∨
      Goes Nobody Nobody K i w (w.withSession options i r t.command answer) (Plain K i) ∨
      t.command.request.runs = true ∧ Begins K i r w (w.withSession options i r t.command answer) := by
  have hkey : ∀ t', w.tasks[i]? = some t' → t' = t := fun t' ht' => by
    rw [ht] at ht'
    exact (Option.some.inj ht').symm
  cases hs : w.memory.session? r with
  | none =>
      left
      simp only [World.withSession, hs, Option.map_none]
      split <;> first | rfl | contradiction
  | some s =>
      have hid : K s.id := h.id hs
      simp only [World.withSession, hs, Option.map_some]
      have hsnapshot {k : String} (hk : K k) (u : World) :
          Ordinary Nobody Nobody K i u (u.reply i (some k) .sessionSnapshot) := by
        refine ordinary_reply u _ _ (fun _ k' hk' => ?_)
        cases hk'
        exact hk
      cases hreq : t.command.request with
      | create =>
          exact Or.inr (Or.inl (goes_finish ((ordinary_accept w _ _).trans (hsnapshot hid _))))
      | resume sessionId lastSeq =>
          have hsession : K sessionId := hK sessionId (by rw [hreq]; rfl)
          refine Or.inr (Or.inl (goes_finish (Ordinary.trans ?_ (ordinary_accept _ _ _))))
          exact (hsnapshot hsession w).trans (ordinary_reply _ _ _ (fun h => by cases h))
      | input | approval =>
          rcases goes_startRun (i := i) t.command h with he | hg | hb
          · exact Or.inl he
          · exact Or.inr (Or.inl hg)
          · exact Or.inr (Or.inr ⟨rfl, hb⟩)
      | planApproval sessionId approved input =>
          have hsession : K sessionId := hK sessionId (by rw [hreq]; rfl)
          refine Or.inr (Or.inl (goes_planApproval hk hsession _ _ _ (fun t' ht' => ?_)))
          rw [hkey t' ht', hreq]
          exact ⟨rfl, rfl⟩
      | abort sessionId => exact Or.inr (Or.inl (goes_abort w h _ _))
      | settings sessionId patch mode =>
          have hsession : K sessionId := hK sessionId (by rw [hreq]; rfl)
          exact (goes_applySettings w hsession _ patch mode answer).imp_right Or.inl
      | inspect sessionId kind =>
          exact Or.inr (Or.inl (goes_await (ordinary_refl w) (plain_of_session rfl rfl rfl h)))
      | compact sessionId instructions =>
          exact Or.inr ((goes_compact w h _ _).imp_right (fun hb => ⟨rfl, hb⟩))
      | runtimeCommand sessionId name =>
          rcases goes_runRuntimeCommand (i := i) w h name sessionId t.command.requestId ha with
            he | hg | ⟨hn, hb⟩
          · exact Or.inl he
          · exact Or.inr (Or.inl hg)
          · exact Or.inr (Or.inr ⟨decide_eq_true hn, hb⟩)
      | git sessionId operation =>
          have ho : Ordinary Nobody Nobody K i w (w.act i) := ordinary_act w
          exact Or.inr (Or.inl (goes_await ho (plain_of_session rfl rfl rfl (h.of_ordinary ho))))
      | _ => exact Or.inl rfl

end Commands

section Dispatch

theorem goes_renameSession (w : World) {sessionId : String} (h : K sessionId) (title requestId : String) :
    Goes A B K i w (w.renameSession options i sessionId title requestId) (Plain K i) := by
  simp only [World.renameSession]
  split_ifs
  · exact goes_fail w _ _ _ _
  · exact goes_fail w _ _ _ _
  · refine goes_finish (Ordinary.trans ?_ (ordinary_reply _ _ _ (fun _ k hk => ?_)))
    · refine Ordinary.trans ?_ (ordinary_accept _ _ _)
      exact (ordinary_updateStored w _ _).trans (ordinary_act _)
    · cases hk
      exact h

theorem goes_resumeSession (hk : Keyed w.memory) {sessionId : String} (h : K sessionId)
    (requestId : String) :
    Goes A B K i w (w.resumeSession options i sessionId requestId) (Plain K i) := by
  rw [World.resumeSession]
  split
  · exact goes_fail w _ _ _ _
  · exact goes_loadRuntime hk h _

/-- The commands that neither create nor delete a session. -/
def Request.ordinary : Request → Bool
  | .create | .delete _ => false
  | _ => true

/-- The commands that configure models, which touch all registered sessions. -/
def Request.configures : Request → Bool
  | .deleteProfile _ | .configureGateway _ _ => true
  | _ => false

theorem goes_dispatch (hk : Keyed w.memory) {command : ClientCommand} (ho : command.request.ordinary)
    (hK : ∀ k, command.request.sessionId = some k → K k)
    (hmodels : command.request.configures = true → ∀ r ∈ w.memory.sessions.map Prod.snd, Own K r w.memory) :
    Goes A B K i w (w.dispatch options i command) (Plain K i) := by
  have hevent (event : ServerEvent) (u : World) (he : event.persists = false) :
      Ordinary A B K i u (u.reply i none event) := ordinary_reply u _ _ (fun h => by simp [he] at h)
  simp only [World.dispatch]
  cases hreq : command.request with
  | create => simp [hreq, Request.ordinary] at ho
  | delete => simp [hreq, Request.ordinary] at ho
  | list | status | models => exact goes_finish (hevent _ w rfl)
  | resume sessionId => exact goes_resumeSession hk (hK _ (by rw [hreq]; rfl)) _
  | rename sessionId title => exact goes_renameSession w (hK _ (by rw [hreq]; rfl)) _ _
  | input sessionId => exact goes_runInput hk (hK _ (by rw [hreq]; rfl)) _
  | approval sessionId | planApproval sessionId | abort sessionId | settings sessionId | inspect sessionId
  | compact sessionId | runtimeCommand sessionId | git sessionId =>
      exact goes_requireSession hk (hK _ (by rw [hreq]; rfl)) _
  | upsertProfile label provider model =>
      refine goes_finish (Ordinary.trans ?_ (ordinary_accept _ _ _))
      refine Ordinary.trans ?_ (hevent _ _ rfl)
      refine Ordinary.trans ?_ (ordinary_act _)
      exact { ordinary_refl w with }
  | deleteProfile profileId =>
      simp only
      split
      · exact goes_finish (ordinary_refl w)
      · rename_i u hu
        have hd := ordinary_deleteWorkspaceProfile (A := A) (B := B)
          (hmodels (by rw [hreq]; rfl)) hu
        exact goes_finish ((hd.trans (hevent _ _ rfl)).trans (ordinary_accept _ _ _))
  | clearProfiles =>
      refine goes_finish (Ordinary.trans ?_ (ordinary_accept _ _ _))
      exact (ordinary_onStorage_profiles w (fun _ => [])).trans (ordinary_act _)
  | configureGateway provider model =>
      refine goes_finish (Ordinary.trans ?_ (ordinary_accept _ _ _))
      exact (ordinary_configureGatewayProfile w _ _ (hmodels (by rw [hreq]; rfl))).trans (hevent _ _ rfl)
  | other type => exact goes_fail w _ _ _ _

end Dispatch

/-- What a call may touch: its session, what its point leads to, and for some commands
what is registered. -/
structure Scope (K : String → Prop) (w : World) (t : Task) : Prop where
  command : ∀ k, t.command.request.sessionId = some k → K k
  placed : Placed K w.memory t.point
  registered : t.command.request.configures = true → ∀ r ∈ w.memory.sessions.map Prod.snd, Own K r w.memory

/-- The call is not found among the completed requests. -/
def Task.looksUp (t : Task) (w : World) : Prop :=
  t.command.request.isResume = true ∨
    w.storage.findCompletedRequest t.command.request.sessionId t.command.requestId = none

/-- The call is under way, or gets so. -/
def Task.passes (t : Task) (w : World) : Prop := t.point.begun = true ∨ t.point = .entered ∧ t.looksUp w

/-- How a call goes on. -/
inductive Turn (options : WorkerServiceOptions) (K : String → Prop) (i : Nat) (t : Task) (w : World) :
    World → Prop
  | still : Turn options K i t w w
  | stops (hp : t.point.begun = false) : Turn options K i t w (w.await i (.done false))
  | evicts (now : Nat) (candidates : List Nat) (hp : t.point = .evicting now candidates) :
      Turn options K i t w (w.evicting options i now candidates)
  | goes {x : World} (hp : t.passes w) (h : Goes Nobody Nobody K i w x (Plain K i)) : Turn options K i t w x
  | settles (l : Nat) (owner : Bool) (hp : t.point = if owner then .loading l else .joining l) :
      Turn options K i t w (w.loaded i l owner)
  | begins {x : World} (r : Nat) (hp : t.point = .got r) (hr : t.command.request.runs = true)
      (h : Begins K i r w x) : Turn options K i t w x
  | holds {x : World} (r : Nat) (hp : t.point.holds = some r)
      (h : Goes Nobody (· = r) K i w x (Holding K r)) : Turn options K i t w x
  | releases {x : World} (r : Nat) (hp : t.point.holds = some r)
      (h : Goes (· = r) (· = r) K i w x (Plain K i)) : Turn options K i t w x
  | creates (hp : t.point = .entered) (hl : t.looksUp w) (hr : t.command.request = .create) :
      Turn options K i t w (w.createSession options i)
  | deletes (sessionId : String) (hp : t.point = .entered) (hl : t.looksUp w)
      (hr : t.command.request = .delete sessionId) :
      Turn options K i t w (w.deleteSession i sessionId t.command.requestId)
  | deleted (sessionId : String) (hp : t.point = .deleting)
      (hr : t.command.request.sessionId = some sessionId) :
      Turn options K i t w (w.deleteStored i sessionId t.command.requestId)
  | ends (hp : t.point = .ending) : Turn options K i t w (w.ended i t)

theorem turn_of_or (h : w' = w ∨ Goes Nobody Nobody K i w w' (Plain K i)) {t : Task}
    (hp : t.point.begun = true) : Turn options K i t w w' := by
  rcases h with rfl | h
  · exact .still
  · exact .goes (Or.inl hp) h

theorem turn_enter (hk : Keyed w.memory) {t : Task} (hp : t.point = .entered) (hs : Scope K w t) :
    Turn options K i t w (w.enter options i t.command) := by
  have hdispatch (hl : t.looksUp w) : Turn options K i t w (w.dispatch options i t.command) := by
    cases ho : t.command.request.ordinary with
    | true => exact .goes (Or.inr ⟨hp, hl⟩) (goes_dispatch hk ho hs.command hs.registered)
    | false =>
        simp only [World.dispatch]
        cases hreq : t.command.request with
        | create => exact .creates hp hl hreq
        | delete sessionId => exact .deletes sessionId hp hl hreq
        | _ => simp [hreq, Request.ordinary] at ho
  rw [World.enter]
  split_ifs with hr
  · exact hdispatch (Or.inl hr)
  · split
    · exact .stops (by rw [hp]; rfl)
    · exact hdispatch (Or.inr ‹_›)

variable (options) in
theorem turn_resumed (hk : Keyed w.memory) {t : Task} (ht : w.tasks[i]? = some t) (hs : Scope K w t)
    (answer : Answer) : Turn options K i t w (w.resumed options i answer) := by
  have hown {r : Nat} (hr : t.point.session = some r) : Own K r w.memory := hs.placed.session r hr
  have hpasses {p : Point} (hp : t.point = p) (hb : p.begun = true) : t.passes w := Or.inl (hp ▸ hb)
  unfold World.resumed
  simp only [ht]
  cases hp : t.point with
  | evicting now candidates =>
      cases answer with
      | resolved => exact .evicts now candidates hp
      | rejected => exact .stops (by rw [hp]; rfl)
      | usage | streamed => exact .still
  | entered => exact turn_enter hk hp hs
  | checkingDisk =>
      cases hreq : t.command.request.sessionId with
      | none => exact .still
      | some sessionId => exact turn_of_or (goes_diskChecked hk (hs.command _ hreq) _ answer) (by rw [hp]; rfl)
  | loading l => exact .settles l true hp
  | joining l => exact .settles l false hp
  | got r =>
      simp only
      split_ifs with ha
      · rcases goes_withSession hk ht (hown (by rw [hp]; rfl)) hs.command ha with he | hg | ⟨hr, hb⟩
        · rw [he]
          exact .still
        · exact .goes (hpasses hp rfl) hg
        · exact .begins r hp hr hb
      · exact .still
  | streaming r stream =>
      have hstream := goes_streaming options (i := i) stream t.command
        answer (hown (by rw [hp]; rfl))
      rcases hstream with he | hg | hg
      · simp only [he]
        exact .still
      · exact .holds r (by rw [hp]; rfl) hg
      · exact .releases r (by rw [hp]; rfl) hg
  | interrupting r =>
      cases hreq : t.command.request.sessionId with
      | none =>
          cases answer with
          | rejected => exact .goes (hpasses hp rfl) (goes_finish (ordinary_refl w))
          | resolved | usage | streamed => exact .still
      | some sessionId =>
          cases answer with
          | resolved => exact .goes (hpasses hp rfl) (goes_aborted w _ _)
          | rejected => exact .goes (hpasses hp rfl) (goes_finish (ordinary_refl w))
          | usage | streamed => exact .still
  | formatting r =>
      cases hreq : t.command.request.sessionId with
      | none => exact .still
      | some sessionId =>
          simp only
          split
          · exact turn_of_or (goes_formatted w (hown (by rw [hp]; rfl)) _ _ _ answer) (by rw [hp]; rfl)
          · exact .still
  | inspecting r =>
      cases hreq : t.command.request.sessionId with
      | none => exact .still
      | some sessionId => exact turn_of_or (goes_inspected w _ _ answer) (by rw [hp]; rfl)
  | compacting r =>
      cases hreq : t.command.request.sessionId with
      | none => exact .still
      | some sessionId =>
          rcases goes_compacted options (i := i) (r := r) w (hs.command _ hreq)
            t.command.requestId answer with he | hg
          · simp only [he]
            exact .still
          · exact .releases r (by rw [hp]; rfl) hg
  | commanding r =>
      cases hreq : t.command.request.sessionId with
      | none => exact .still
      | some sessionId =>
          simp only
          split
          · rename_i name _
            rcases goes_commanded (K := K) (i := i) (r := r) w name sessionId t.command.requestId answer with
              he | hg
            · rw [he]
              exact .still
            · exact .releases r (by rw [hp]; rfl) hg
          · exact .still
  | operating r =>
      cases hreq : t.command.request.sessionId with
      | none => exact .still
      | some sessionId => exact turn_of_or (goes_operated w (hs.command _ hreq) _ answer) (by rw [hp]; rfl)
  | deleting =>
      cases hreq : t.command.request.sessionId with
      | none =>
          cases answer with
          | rejected => exact .goes (hpasses hp rfl) (goes_finish (ordinary_refl w))
          | resolved | usage | streamed => exact .still
      | some sessionId =>
          cases answer with
          | resolved => exact .deleted sessionId hp hreq
          | rejected => exact .goes (hpasses hp rfl) (goes_finish (ordinary_refl w))
          | usage | streamed => exact .still
  | ending => exact .ends hp
  | done completed => exact .still

end Kross.Service

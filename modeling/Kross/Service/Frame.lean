import Kross.Service.Step

namespace Kross.Service

open Mutation (mapGet mapSet mapDelete mapGet_mapSet)

/-- The sessions stay as they are: `abortController` changes in `A` alone, and none gets
busy but those in `B`. -/
structure Steady (A B : Nat → Prop) (m m' : Memory) : Prop where
  sessions : m'.sessions = m.sessions
  closed : m'.closed = m.closed
  evicted : m'.evicted = m.evicted
  length : m'.objects.length = m.objects.length
  kept : ∀ r s', m'.session? r = some s' → ∃ s, m.session? r = some s ∧ s'.id = s.id ∧
    (¬ A r → s'.abortController = s.abortController) ∧ (¬ B r → s'.busy → s.busy)

/-- What identifies the request of a call. -/
def Task.key (t : Task) : Option String × String × Bool :=
  (t.command.request.sessionId, t.command.requestId, t.command.request.isResume)

/-- What the call `i` does between two awaits, where it evicts, deletes and completes
nothing: it writes and loads for no id that is not in `K`. -/
structure Ordinary (A B : Nat → Prop) (K : String → Prop) (i : Nat) (w u : World) : Prop where
  memory : Steady A B w.memory u.memory
  loads : ∀ (l : Nat) (x : Load), w.memory.loads[l]? = some x → u.memory.loads[l]? = some x
  newLoads : ∀ (l : Nat) (x : Load), u.memory.loads[l]? = some x → w.memory.loads[l]? = some x ∨
    K x.sessionId ∧ (∃ stored, x.point = .creating stored) ∧
      mapGet x.sessionId u.memory.loadingSessions = some l ∧ mapGet x.sessionId w.memory.sessions = none
  listed : ∀ (k : String) (l : Nat), mapGet k w.memory.loadingSessions = some l →
    mapGet k u.memory.loadingSessions = some l
  loading : ∀ (k : String) (l : Nat), mapGet k u.memory.loadingSessions = some l →
    mapGet k w.memory.loadingSessions = some l ∨ ∃ x, u.memory.loads[l]? = some x ∧ x.sessionId = k
  stored : ∀ k, mapGet k w.storage.sessions = none → mapGet k u.storage.sessions = none
  settings : ∀ k, ¬ K k → u.storage.settings k = w.storage.settings k
  journal : ∀ k, ¬ K k → u.storage.journal (some k) = w.storage.journal (some k)
  requests : u.storage.requests = w.storage.requests
  ledger : u.storage.ledger = w.storage.ledger
  deleted : u.storage.deleted = w.storage.deleted
  others : ∀ j : Nat, j ≠ i → u.tasks[j]? = w.tasks[j]?
  key : u.tasks[i]?.map Task.key = w.tasks[i]?.map Task.key
  effects : ∃ n, u.effects = w.effects ++ List.replicate n i

variable {A B A' B' : Nat → Prop} {K K' : String → Prop} {i r : Nat} {m m' m'' : Memory} {u v w : World}

theorem steady_refl (m : Memory) : Steady A B m m :=
  ⟨rfl, rfl, rfl, rfl, fun _ s h => ⟨s, h, rfl, fun _ => rfl, fun _ => id⟩⟩

theorem Steady.trans (h : Steady A B m m') (h' : Steady A B m' m'') : Steady A B m m'' := by
  refine ⟨h'.sessions.trans h.sessions, h'.closed.trans h.closed, h'.evicted.trans h.evicted,
    h'.length.trans h.length, fun r s'' hs'' => ?_⟩
  obtain ⟨s', hs', hid', ha', hb'⟩ := h'.kept r s'' hs''
  obtain ⟨s, hs, hid, ha, hb⟩ := h.kept r s' hs'
  exact ⟨s, hs, hid'.trans hid, fun hr => (ha' hr).trans (ha hr), fun hr => hb hr ∘ hb' hr⟩

theorem Steady.mono (h : Steady A B m m') (hA : ∀ r, A r → A' r) (hB : ∀ r, B r → B' r) :
    Steady A' B' m m' := by
  refine ⟨h.sessions, h.closed, h.evicted, h.length, fun r s' hs' => ?_⟩
  obtain ⟨s, hs, hid, ha, hb⟩ := h.kept r s' hs'
  exact ⟨s, hs, hid, fun hr => ha (fun h => hr (hA r h)), fun hr => hb (fun h => hr (hB r h))⟩

theorem session?_update (r r' : Nat) (f : ActiveSession → ActiveSession) (m : Memory) :
    (m.update r f).session? r' = if r = r' then (m.session? r').map f else m.session? r' := by
  simp only [Memory.session?, Memory.update, List.getElem?_modify]
  split_ifs with h
  · rfl
  · cases m.objects[r']? <;> rfl

theorem steady_update {f : ActiveSession → ActiveSession} (hid : ∀ s, (f s).id = s.id)
    (hA : A r ∨ ∀ s, (f s).abortController = s.abortController) (hB : B r ∨ ∀ s, (f s).busy → s.busy) :
    Steady A B m (m.update r f) := by
  refine ⟨rfl, rfl, rfl, ?_, fun r' s' hs' => ?_⟩
  · simp [Memory.update]
  · rw [session?_update] at hs'
    split_ifs at hs' with hr
    · subst hr
      obtain ⟨s, hs, rfl⟩ := Option.map_eq_some_iff.mp hs'
      exact ⟨s, hs, hid s, fun h => hA.resolve_left h s, fun h => hB.resolve_left h s⟩
    · exact ⟨s', hs', rfl, fun _ => rfl, fun _ => id⟩

theorem ordinary_refl (w : World) : Ordinary A B K i w w :=
  ⟨steady_refl _, fun _ _ h => h, fun _ _ h => Or.inl h, fun _ _ h => h, fun _ _ h => Or.inl h, fun _ h => h,
    fun _ _ => rfl, fun _ _ => rfl,
    rfl, rfl, rfl, fun _ _ => rfl, rfl, ⟨0, by simp⟩⟩

theorem Ordinary.trans (h : Ordinary A B K i w u) (h' : Ordinary A B K i u v) : Ordinary A B K i w v where
  memory := h.memory.trans h'.memory
  loads := fun l x hx => h'.loads l x (h.loads l x hx)
  newLoads := by
    intro l x hx
    rcases h'.newLoads l x hx with hx | ⟨hK, hp, hl, hs⟩
    · refine (h.newLoads l x hx).imp_right ?_
      rintro ⟨hK, hp, hl, hs⟩
      exact ⟨hK, hp, h'.listed _ _ hl, hs⟩
    · rw [h.memory.sessions] at hs
      exact Or.inr ⟨hK, hp, hl, hs⟩
  listed := fun k l hl => h'.listed k l (h.listed k l hl)
  loading := by
    intro k l hl
    rcases h'.loading k l hl with hl | hx
    · refine (h.loading k l hl).imp_right ?_
      rintro ⟨x, hx, hk⟩
      exact ⟨x, h'.loads l x hx, hk⟩
    · exact Or.inr hx
  stored := fun k hk => h'.stored k (h.stored k hk)
  settings := fun k hk => (h'.settings k hk).trans (h.settings k hk)
  journal := fun k hk => (h'.journal k hk).trans (h.journal k hk)
  requests := h'.requests.trans h.requests
  ledger := h'.ledger.trans h.ledger
  deleted := h'.deleted.trans h.deleted
  others := fun j hj => (h'.others j hj).trans (h.others j hj)
  key := h'.key.trans h.key
  effects := by
    obtain ⟨a, ha⟩ := h.effects
    obtain ⟨b, hb⟩ := h'.effects
    exact ⟨a + b, by rw [hb, ha, List.append_assoc, List.replicate_append_replicate]⟩

theorem Ordinary.mono (h : Ordinary A B K i w u) (hA : ∀ r, A r → A' r) (hB : ∀ r, B r → B' r)
    (hK : ∀ k, K k → K' k) : Ordinary A' B' K' i w u :=
  { h with
    memory := h.memory.mono hA hB
    newLoads := fun l x hx => (h.newLoads l x hx).imp_right (And.imp_left (hK _))
    settings := fun k hk => h.settings k (fun h => hk (hK k h))
    journal := fun k hk => h.journal k (fun h => hk (hK k h)) }

section Helpers

theorem ordinary_onMemory {f : Memory → Memory} (h : Steady A B w.memory (f w.memory))
    (hl : (f w.memory).loads = w.memory.loads)
    (hls : (f w.memory).loadingSessions = w.memory.loadingSessions) : Ordinary A B K i w (w.onMemory f) := by
  have hr := ordinary_refl (A := A) (B := B) (K := K) (i := i) w
  refine { hr with memory := h, loads := ?_, newLoads := ?_, listed := ?_, loading := ?_ }
  · intro l x hx
    rw [World.onMemory, hl]
    exact hx
  · intro l x hx
    rw [World.onMemory, hl] at hx
    exact Or.inl hx
  · intro k l hk
    rw [World.onMemory, hls]
    exact hk
  · intro k l hk
    rw [World.onMemory, hls] at hk
    exact Or.inl hk

theorem ordinary_update {f : ActiveSession → ActiveSession} (w : World) (hid : ∀ s, (f s).id = s.id)
    (hA : A r ∨ ∀ s, (f s).abortController = s.abortController) (hB : B r ∨ ∀ s, (f s).busy → s.busy) :
    Ordinary A B K i w (w.onMemory (.update r f)) :=
  ordinary_onMemory (steady_update hid hA hB) rfl rfl

theorem ordinary_onTask {f : Task → Task} (w : World)
    (hf : ∀ t, w.tasks[i]? = some t → (f t).key = t.key) : Ordinary A B K i w (w.onTask i f) := by
  have hr := ordinary_refl (A := A) (B := B) (K := K) (i := i) w
  refine { hr with others := fun j hj => ?_, key := ?_ }
  · simp only [World.onTask, List.getElem?_modify, if_neg (Ne.symm hj)]
    cases w.tasks[j]? <;> rfl
  · simp only [World.onTask, List.getElem?_modify, if_true]
    cases ht : w.tasks[i]? with
    | none => rfl
    | some t => exact congrArg some (hf t ht)

theorem ordinary_await (w : World) (point : Point) : Ordinary A B K i w (w.await i point) :=
  ordinary_onTask w (fun _ _ => rfl)

theorem ordinary_act (w : World) : Ordinary A B K i w (w.act i) :=
  { ordinary_refl w with effects := ⟨1, rfl⟩ }

theorem ordinary_onStorage_profiles (w : World) (f : List WorkspaceProfile → List WorkspaceProfile) :
    Ordinary A B K i w (w.onStorage (fun s => { s with profiles := f s.profiles })) :=
  { ordinary_refl w with }

theorem mapGet_updateStored {k sessionId : String} {f : StoredSession → StoredSession} {s : Storage}
    (h : mapGet k s.sessions = none) : mapGet k (s.updateStored sessionId f).sessions = none := by
  rw [Storage.updateStored]
  split
  · exact h
  · rename_i stored hs
    have hne : sessionId ≠ k := by
      rintro rfl
      rw [hs] at h
      cases h
    rw [mapGet_mapSet, if_neg hne]
    exact h

theorem ordinary_updateStored (w : World) (sessionId : String) (f : StoredSession → StoredSession) :
    Ordinary A B K i w (w.onStorage (.updateStored sessionId f)) := by
  have hr := ordinary_refl (A := A) (B := B) (K := K) (i := i) w
  have hsame : (w.storage.updateStored sessionId f).settings = w.storage.settings ∧
      (w.storage.updateStored sessionId f).journal = w.storage.journal ∧
      (w.storage.updateStored sessionId f).requests = w.storage.requests ∧
      (w.storage.updateStored sessionId f).ledger = w.storage.ledger ∧
      (w.storage.updateStored sessionId f).deleted = w.storage.deleted := by
    rw [Storage.updateStored]
    split <;> exact ⟨rfl, rfl, rfl, rfl, rfl⟩
  obtain ⟨h1, h2, h3, h4, h5⟩ := hsame
  exact { hr with
    stored := fun k hk => mapGet_updateStored hk
    settings := fun k _ => congrFun h1 k
    journal := fun k _ => congrFun h2 (some k)
    requests := h3
    ledger := h4
    deleted := h5 }

/-- An event that the journal persists is written for its session. -/
def ServerEvent.persists : ServerEvent → Bool
  | .sessionSnapshot | .approvalPending | .sessionUpdated _ | .gitResult _ _ => true
  | _ => false

theorem append_of_not_persists {event : ServerEvent} (h : event.persists = false)
    (events : List ServerEvent) : Storage.append event events = events := by
  cases event <;> first | rfl | cases h

theorem ordinary_emit (w : World) (sessionId : Option String) (event : ServerEvent)
    (h : event.persists = true → ∀ k, sessionId = some k → K k) :
    Ordinary A B K i w (w.emit sessionId event) := by
  refine { ordinary_refl w with journal := fun k hk => ?_ }
  simp only [World.emit, World.onStorage, Storage.emit, Function.update_apply]
  split_ifs with hs
  · subst hs
    cases hp : event.persists with
    | true => exact absurd (h hp k rfl) hk
    | false => exact append_of_not_persists hp _
  · rfl

theorem ordinary_reply (w : World) (sessionId : Option String) (event : ServerEvent)
    (h : event.persists = true → ∀ k, sessionId = some k → K k) :
    Ordinary A B K i w (w.reply i sessionId event) :=
  (ordinary_emit w sessionId event h).trans (ordinary_onTask _ (fun _ _ => rfl))

end Helpers

theorem ordinary_session {s : ActiveSession} (h : Ordinary A B K i w u) (hs : w.memory.session? r = some s) :
    ∃ s', u.memory.session? r = some s' ∧ s'.id = s.id := by
  have hlt : r < u.memory.objects.length := by
    rw [h.memory.length]
    exact (List.getElem?_eq_some_iff.mp hs).1
  have hs' : u.memory.session? r = some u.memory.objects[r] := List.getElem?_eq_getElem hlt
  obtain ⟨t, ht, hid, -⟩ := h.memory.kept r _ hs'
  rw [hs] at ht
  cases ht
  exact ⟨_, hs', hid⟩

/-- The session is there, and its id is one of `K`. -/
def Own (K : String → Prop) (r : Nat) (m : Memory) : Prop := ∃ s, m.session? r = some s ∧ K s.id

theorem Own.of_ordinary (h : Own K r w.memory) (ho : Ordinary A B K' i w u) : Own K r u.memory := by
  obtain ⟨s, hs, hK⟩ := h
  obtain ⟨s', hs', hid⟩ := ordinary_session ho hs
  exact ⟨s', hs', by rwa [hid]⟩

theorem Own.id {s : ActiveSession} (h : Own K r m) (hs : m.session? r = some s) : K s.id := by
  obtain ⟨s', hs', hK⟩ := h
  rw [hs] at hs'
  cases hs'
  exact hK

theorem Own.mono (h : Own K r m) (hK : ∀ k, K k → K' k) : Own K' r m := by
  obtain ⟨s, hs, hk⟩ := h
  exact ⟨s, hs, hK _ hk⟩

section Sessions

theorem ordinary_upsertMessage (w : World) (sessionId : String) (message : StoredMessage) :
    Ordinary A B K i w (w.upsertMessage sessionId message) := ordinary_updateStored w _ _

theorem ordinary_persistMessage (w : World) (r : Nat) (sender : MessageFrom) (text : String) :
    Ordinary A B K i w (w.persistMessage r sender text) := by
  rw [World.persistMessage]
  split
  · exact ordinary_refl w
  · refine Ordinary.trans ?_ (ordinary_upsertMessage _ _ _)
    exact ordinary_update w (fun _ => rfl) (Or.inr fun _ => rfl) (Or.inr fun _ => id)

theorem ordinary_persistState (w : World) (r : Nat) : Ordinary A B K i w (w.persistState r) := by
  rw [World.persistState]
  split
  · exact ordinary_refl w
  · exact ordinary_updateStored w _ _

theorem ordinary_touch (w : World) (r : Nat) : Ordinary A B K i w (w.onMemory (.touch r)) :=
  ordinary_update w (fun _ => rfl) (Or.inr fun _ => rfl) (Or.inr fun _ => id)

theorem ordinary_updateRuntime (w : World) (f : Runtime → Runtime)
    (hB : B r ∨ ∀ runtime, ((f runtime).pendingToolApproval.isSome → runtime.pendingToolApproval.isSome) ∧
      ((f runtime).pendingModeExecution.isSome → runtime.pendingModeExecution.isSome)) :
    Ordinary A B K i w (w.updateRuntime r f) := by
  refine ordinary_update w (fun _ => rfl) (Or.inr fun _ => rfl) (hB.imp_right (fun h s => ?_))
  have hr := h s.runtime
  simp only [ActiveSession.busy, Bool.or_eq_true]
  tauto

theorem ordinary_workStateChanged (w : World) (r : Nat) : Ordinary A B K i w (w.workStateChanged r) := by
  rw [World.workStateChanged]
  split
  · exact ordinary_refl w
  · split_ifs
    · exact (ordinary_persistState w r).trans (ordinary_emit _ _ _ (fun h => by cases h))
    · exact ordinary_refl w

theorem ordinary_persistToolTrace (w : World) (r : Nat) (callId text : String) :
    Ordinary A B K i w (w.persistToolTrace r callId text) := by
  rw [World.persistToolTrace]
  split
  · exact ordinary_refl w
  · split
    · exact ordinary_upsertMessage w _ _
    · refine Ordinary.trans ?_ (ordinary_upsertMessage _ _ _)
      exact ordinary_update w (fun _ => rfl) (Or.inr fun _ => rfl) (Or.inr fun _ => id)

theorem ordinary_traced (w : World) (r : Nat) (trace : Option (String × String)) :
    Ordinary A B K i w (w.traced r trace) := by
  simp only [World.traced]
  split
  · exact ordinary_refl w
  · split_ifs
    · split
      · exact (ordinary_persistToolTrace w r _ _).trans (ordinary_emit _ _ _ (fun h => by cases h))
      · exact ordinary_emit w _ _ (fun h => by cases h)
    · exact ordinary_refl w

theorem ordinary_setAbortController (w : World) {abortController : Bool} (hA : A r)
    (hB : abortController = true → B r) : Ordinary A B K i w (w.setAbortController r abortController) := by
  refine ordinary_update w (fun _ => rfl) (Or.inl hA) ?_
  cases abortController with
  | true => exact Or.inl (hB rfl)
  | false =>
      refine Or.inr (fun s hs => ?_)
      simp only [ActiveSession.busy, Bool.false_or, Bool.or_eq_true] at hs ⊢
      tauto

end Sessions

section Profiles

theorem ordinary_applyProfileToSession {profileId : String} (h : w.applyProfileToSession r profileId = some u) :
    Ordinary A B K i w u := by
  obtain ⟨client, -, rfl⟩ := Option.map_eq_some_iff.mp h
  exact ordinary_update w (fun _ => rfl) (Or.inr fun _ => rfl) (Or.inr fun _ => id)

theorem ordinary_updateSettings (w : World) {sessionId : String} (patch : Settings) (h : K sessionId) :
    Ordinary A B K i w (w.updateSettings sessionId patch) := by
  refine { ordinary_refl w with settings := fun k hk => ?_ }
  have hne : k ≠ sessionId := by
    rintro rfl
    exact hk h
  exact Function.update_of_ne hne _ _

variable {options : WorkerServiceOptions}

theorem ordinary_emitSessionSnapshot (w : World) (h : Own K r w.memory) :
    Ordinary A B K i w (w.emitSessionSnapshot options r) := by
  rw [World.emitSessionSnapshot]
  split
  · exact ordinary_refl w
  · rename_i s hs
    split_ifs
    · refine ordinary_emit w _ _ (fun _ k hk => ?_)
      cases hk
      exact h.id hs
    · exact ordinary_refl w

theorem ordinary_ensureGatewayProfileCurrent (w : World) (h : Own K r w.memory) :
    Ordinary A B K i w (w.ensureGatewayProfileCurrent i r) := by
  rw [World.ensureGatewayProfileCurrent]
  split
  · rename_i s gateway hs hg
    split_ifs
    · exact ordinary_refl w
    · exact ordinary_refl w
    · split
      · exact ((ordinary_applyProfileToSession ‹_›).trans (ordinary_updateSettings _ _ (h.id hs))).trans
          (ordinary_act _)
      · exact ordinary_refl w
  · exact ordinary_refl w

theorem ordinary_moveToGateway (w : World) (profileId : String) (h : Own K r w.memory) :
    Ordinary A B K i w (w.moveToGateway options profileId r) := by
  rw [World.moveToGateway]
  split
  · rename_i s u hs hu
    have happly : Ordinary A B K i w u := ordinary_applyProfileToSession hu
    have hset := happly.trans (ordinary_updateSettings u (World.profilePatch profileId) (h.id hs))
    exact hset.trans (ordinary_emitSessionSnapshot _ (h.of_ordinary hset))
  · exact ordinary_refl w

theorem ordinary_foldl {f : World → Nat → World} {refs : List Nat}
    (h : ∀ u r, r ∈ refs → Ordinary A B K i w u → Ordinary A B K i u (f u r)) (hu : Ordinary A B K i w u) :
    Ordinary A B K i w (refs.foldl f u) := by
  induction refs generalizing u with
  | nil => exact hu
  | cons r refs ih =>
      exact ih (fun v r' hr' => h v r' (List.mem_cons_of_mem _ hr'))
        (hu.trans (h u r List.mem_cons_self hu))

theorem ordinary_deleteWorkspaceProfile {profileId : String}
    (hown : ∀ r ∈ w.memory.sessions.map Prod.snd, Own K r w.memory)
    (h : w.deleteWorkspaceProfile options i profileId = some u) : Ordinary A B K i w u := by
  simp only [World.deleteWorkspaceProfile] at h
  split_ifs at h
  cases h
  refine ordinary_foldl (fun u r hr hu => ?_)
    ((ordinary_onStorage_profiles w _).trans (ordinary_act _))
  split_ifs
  · split
    · exact ordinary_update u (fun _ => rfl) (Or.inr fun _ => rfl) (Or.inr fun _ => id)
    · exact ordinary_moveToGateway u _ ((hown r hr).of_ordinary hu)
  · exact ordinary_refl u

theorem ordinary_configureGatewayProfile (w : World) (provider model : String)
    (hown : ∀ r ∈ w.memory.sessions.map Prod.snd, Own K r w.memory) :
    Ordinary A B K i w (w.configureGatewayProfile options i provider model) := by
  have hconfigured : Ordinary A B K i w
      ((w.onMemory (fun m => { m with gateway := some (provider, model) })).act i) :=
    (ordinary_onMemory ⟨rfl, rfl, rfl, rfl, fun _ s h => ⟨s, h, rfl, fun _ => rfl, fun _ => id⟩⟩ rfl rfl).trans (ordinary_act _)
  refine ordinary_foldl (fun u r hr hu => ?_) hconfigured
  split
  · exact ordinary_refl u
  · split_ifs
    · exact ordinary_refl u
    · exact ordinary_moveToGateway u _ ((hown r hr).of_ordinary hu)

end Profiles

end Kross.Service

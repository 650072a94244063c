import Kross.Service.Eviction

namespace Kross.Service

open Run
open Mutation (mapGet mapSet mapDelete mapGet_mapSet mapGet_filter)

/-- The id has no runtime in the map, and nothing is stored for it. -/
structure Gone (k : String) (w : World) : Prop where
  sessions : mapGet k w.memory.sessions = none
  stored : mapGet k w.storage.sessions = none
  settings : w.storage.settings k = none
  journal : w.storage.journal (some k) = []

/-- What was deleted is gone, and no call and no load is about it. -/
structure DeletionSound (w : World) : Prop where
  gone : ∀ k ∈ w.storage.deleted, Gone k w
  creating : ∀ (l : Nat) (x : Load) stored, w.memory.loads[l]? = some x → x.point = .creating stored →
    x.sessionId ∉ w.storage.deleted
  placed : ∀ (j : Nat) (t : Task), w.tasks[j]? = some t → Placed (· ∉ w.storage.deleted) w.memory t.point

variable {A B : Nat → Prop} {K : String → Prop} {i r : Nat} {m m' : Memory} {u w w' : World} {p : Point}
  {k : String} {options : WorkerServiceOptions}

/-- Nothing is written for what was deleted, and no call gets to it. -/
theorem DeletionSound.follows (h : DeletionSound w) (hm : Follows w.memory u.memory)
    (hd : ∀ k ∈ u.storage.deleted, k ∈ w.storage.deleted)
    (hstored : ∀ k ∈ u.storage.deleted, Gone k w → mapGet k u.storage.sessions = none ∧
      u.storage.settings k = none ∧ u.storage.journal (some k) = [])
    (hnew : ∀ (l : Nat) (x : Load), u.memory.loads[l]? = some x →
      w.memory.loads[l]? = some x ∨ x.sessionId ∉ u.storage.deleted)
    (ht : ∀ (j : Nat) (t : Task), u.tasks[j]? = some t →
      w.tasks[j]? = some t ∨ Placed (· ∉ u.storage.deleted) u.memory t.point) : DeletionSound u := by
  refine ⟨fun k hk => ?_, fun l x stored hx hp => ?_, fun j t hj => ?_⟩
  · have hgone := h.gone k (hd k hk)
    obtain ⟨hs, hset, hj⟩ := hstored k hk hgone
    exact ⟨hm.absent hgone.sessions, hs, hset, hj⟩
  · rcases hnew l x hx with hx | hx
    · exact fun hk => h.creating l x stored hx hp (hd _ hk)
    · exact hx
  · rcases ht j t hj with hj | hp
    · exact (hm.placed (h.placed j t hj)).mono (fun k hk hk' => hk (hd k hk'))
    · exact hp

theorem deletion_of_ordinary (h : DeletionSound w) (ho : Ordinary A B K i w u)
    (hK : ∀ k, K k → k ∉ w.storage.deleted)
    (ht : ∀ (j : Nat) (t : Task), u.tasks[j]? = some t →
      w.tasks[j]? = some t ∨ Placed (· ∉ u.storage.deleted) u.memory t.point) : DeletionSound u := by
  have hd : u.storage.deleted = w.storage.deleted := ho.deleted
  refine h.follows (follows_of_ordinary ho) (fun k hk => hd ▸ hk) (fun k hk hgone => ?_) (fun l x hx => ?_) ht
  · have hnot : ¬ K k := fun hKk => hK k hKk (hd ▸ hk)
    exact ⟨ho.stored k hgone.stored, (ho.settings k hnot).trans hgone.settings,
      (ho.journal k hnot).trans hgone.journal⟩
  · refine (ho.newLoads l x hx).imp_right (fun hx' => ?_)
    rw [hd]
    exact hK _ hx'.1

/-- A call gets on to something that was not deleted. -/
theorem deletion_of_goes (h : DeletionSound w) (ho : Ordinary A B K i w u)
    (hK : ∀ k, K k → k ∉ w.storage.deleted) (hp : Placed K u.memory p) : DeletionSound (u.await i p) := by
  have hd : u.storage.deleted = w.storage.deleted := ho.deleted
  have hgo : Ordinary A B K i w (u.await i p) := ho.trans (ordinary_await u p)
  refine deletion_of_ordinary h hgo hK (fun j t hj => ?_)
  rcases task_of_goes ho hj with ⟨-, hj⟩ | ⟨-, rfl, -⟩
  · exact Or.inl hj
  · exact Or.inr (hp.mono (fun k hk => hd ▸ hK k hk))

theorem deletion_await (h : DeletionSound w) (hs : p.session = none) (hl : p.load = none) :
    DeletionSound (w.await i p) :=
  deletion_of_goes (A := Nobody) (B := Nobody) (K := fun _ => False) h (ordinary_refl w) (fun _ => False.elim)
    (placed_of_idle hs hl)

theorem deletion_evicting (h : DeletionSound w) (now : Nat) (candidates : List Nat) :
    DeletionSound (w.evicting options i now candidates) := by
  simp only [World.evicting]
  refine deletion_await (w := { w with memory := _ }) ?_ ?_ ?_
  · refine h.follows (follows_evictLoop options _ now candidates) (fun k hk => hk)
      (fun k _ hg => ⟨hg.stored, hg.settings, hg.journal⟩) (fun l x hx => Or.inl ?_) (fun j t hj => Or.inl hj)
    rwa [loads_evictLoop] at hx
  · split <;> rfl
  · split <;> rfl

section Loads

theorem deletion_setLoad (h : DeletionSound w) {l : Nat} {point : LoadPoint}
    (hc : ∀ stored, point ≠ .creating stored) : DeletionSound (w.setLoad l point) := by
  refine ⟨fun k hk => ?_, fun l' x stored hx hp => ?_, fun j t hj => ⟨(h.placed j t hj).session, fun l' hl => ?_⟩⟩
  · have hg := h.gone k hk
    exact ⟨hg.sessions, hg.stored, hg.settings, hg.journal⟩
  · rw [setLoad_loads] at hx
    split_ifs at hx with hl
    · obtain ⟨x', hx', rfl⟩ := Option.map_eq_some_iff.mp hx
      exact absurd hp (hc stored)
    · exact h.creating l' x stored hx hp
  · obtain ⟨x, hx, hk⟩ := (h.placed j t hj).load l' hl
    obtain ⟨x', hx', hid, -⟩ := load_of_setLoad l point hx
    exact ⟨x', hx', by rwa [hid]⟩

theorem deletion_trim (h : DeletionSound w) (l r now : Nat) (candidates : List Nat) :
    DeletionSound (w.trim options l r now candidates) := by
  simp only [World.trim]
  refine deletion_setLoad (w := { w with memory := _ }) ?_ ?_
  · refine h.follows (follows_evictLoop options _ now candidates) (fun k hk => hk)
      (fun k _ hg => ⟨hg.stored, hg.settings, hg.journal⟩) (fun l x hx => Or.inl ?_) (fun j t hj => Or.inl hj)
    rwa [loads_evictLoop] at hx
  · intro stored
    split <;> exact LoadPoint.noConfusion

theorem deletion_register (h : DeletionSound w) {sessionId : String} (hn : sessionId ∉ w.storage.deleted)
    (session : ActiveSession) : DeletionSound (w.register sessionId session) := by
  refine ⟨fun k hk => ?_, h.creating, fun j t hj => ⟨fun r hr => ?_, (h.placed j t hj).load⟩⟩
  · have hg := h.gone k hk
    refine ⟨?_, hg.stored, hg.settings, hg.journal⟩
    have hne : sessionId ≠ k := by
      rintro rfl
      exact hn hk
    simp only [World.register, World.onMemory, mapGet_mapSet, if_neg hne]
    exact hg.sessions
  · obtain ⟨s, hs, hK⟩ := (h.placed j t hj).session r hr
    exact ⟨s, session?_register hs, hK⟩

theorem deletion_created (h : DeletionSound w) (l : Nat) (runtime : Option Runtime) :
    DeletionSound (w.created options l runtime) := by
  cases hx : w.memory.loads[l]? with
  | none => simpa only [World.created, hx] using h
  | some x =>
      cases hp : x.point with
      | creating stored =>
          cases runtime with
          | none =>
              obtain ⟨sessionId, owner, point⟩ := x
              cases hp
              simp only [World.created, hx]
              exact deletion_setLoad h (by rintro _ ⟨⟩)
          | some runtime =>
              rw [created_eq options hx hp]
              exact deletion_trim (deletion_register h (h.creating l x stored hx hp) _) _ _ _ _
      | evicting | loaded | failed =>
          obtain ⟨sessionId, owner, point⟩ := x
          cases hp
          simpa only [World.created, hx] using h

theorem deletion_trimmed (h : DeletionSound w) (l : Nat) (ok : Bool) :
    DeletionSound (w.trimmed options l ok) := by
  rw [World.trimmed]
  split
  · split_ifs
    · exact deletion_trim h _ _ _ _
    · exact deletion_setLoad h (by rintro _ ⟨⟩)
  · exact h

theorem deletion_loaded (hreg : Registered w.memory w.tasks) (h : DeletionSound w) {t : Task}
    (ht : w.tasks[i]? = some t) {l : Nat} {owner : Bool} (hp : t.point = if owner then .loading l else .joining l) :
    DeletionSound (w.loaded i l owner) := by
  rcases loaded_cases w i l owner with he | ⟨x, p, hx, -, he, -, hpl, -, hps⟩
  · rwa [he]
  rw [he]
  obtain ⟨hsessions, hloads, hobjects, htasks⟩ := forgetLoading_sessions w x.sessionId owner
  have hstorage : (w.forgetLoading x.sessionId owner).storage = w.storage := by
    rw [World.forgetLoading]
    split_ifs <;> rfl
  have hown {K : String → Prop} {r : Nat} (ho : Own K r w.memory) :
      Own K r (w.forgetLoading x.sessionId owner).memory := by
    simpa only [Own, Memory.session?, hobjects] using ho
  refine ⟨fun k hk => ?_, fun l' x' stored hx' hp' => ?_, fun j t' hj => ?_⟩
  · simp only [World.await, World.onTask, hstorage] at hk
    have hg := h.gone k hk
    refine ⟨?_, ?_, ?_, ?_⟩ <;> simp only [World.await, World.onTask, hstorage, hsessions]
    · exact hg.sessions
    · exact hg.stored
    · exact hg.settings
    · exact hg.journal
  · simp only [World.await, World.onTask, hstorage]
    exact h.creating l' x' stored (hloads ▸ hx') hp'
  · simp only [World.await, World.onTask, hstorage]
    rcases task_of_await hj with ⟨-, hj⟩ | ⟨rfl, rfl, -⟩
    · have hplaced := h.placed j t' (htasks ▸ hj)
      refine ⟨fun r hr => hown (hplaced.session r hr), fun l' hl' => ?_⟩
      obtain ⟨x', hx', hK⟩ := hplaced.load l' hl'
      exact ⟨x', by rwa [hloads], hK⟩
    · have hpl' : t.point.load = some l := by
        rw [hp]
        split_ifs <;> rfl
      obtain ⟨y, hy, hK⟩ := (h.placed j t ht).load l hpl'
      rw [hx] at hy
      cases hy
      refine ⟨fun r hr => ?_, fun l' hl' => ?_⟩
      · have hl := hreg.keyed.loads l x r hx (by rw [hps r hr]; rfl)
        exact hown (hl.mono (fun k he => he ▸ hK))
      · rw [hpl] at hl'
        cases hl'

end Loads

section Missing

/-- A command for an id that the store does not know comes to nothing. -/
theorem goes_missing (w : World) {command : ClientCommand} (hk : command.request.sessionId = some k)
    (hm : mapGet k w.memory.sessions = none) (hs : w.storage.loadSession options k = none)
    (hd : ∀ sessionId, command.request ≠ .delete sessionId) :
    Goes A B K i w (w.dispatch options i command) (Plain K i) := by
  simp only [World.dispatch]
  cases hreq : command.request with
  | resume sessionId =>
      rw [hreq] at hk
      cases hk
      simp only [World.resumeSession, hs]
      exact goes_fail w _ _ _ _
  | rename sessionId title =>
      rw [hreq] at hk
      cases hk
      simp only [World.renameSession, hs, Option.isNone_none, if_true]
      exact goes_fail w _ _ _ _
  | delete sessionId => exact absurd hreq (hd sessionId)
  | input sessionId =>
      rw [hreq] at hk
      cases hk
      have hrequire : Goes A B K i w (w.requireSession options i k command.requestId) (Plain K i) := by
        rw [requireSession_missing hm hs]
        exact goes_fail w _ _ _ _
      simp only [World.runInput]
      split
      · split_ifs
        · exact goes_await (ordinary_refl w) (plain_of_point rfl rfl rfl)
        · exact hrequire
      · exact hrequire
  | approval sessionId | planApproval sessionId | abort sessionId | settings sessionId | inspect sessionId
  | compact sessionId | runtimeCommand sessionId | git sessionId =>
      rw [hreq] at hk
      cases hk
      simp only [requireSession_missing hm hs]
      exact goes_fail w _ _ _ _
  | _ =>
      rw [hreq] at hk
      cases hk

theorem goes_diskChecked_missing (w : World) (requestId : String) (answer : Answer)
    (hm : mapGet k w.memory.sessions = none) (hs : w.storage.loadSession options k = none) :
    w.diskChecked options i k requestId answer = w ∨
      Goes A B K i w (w.diskChecked options i k requestId answer) (Plain K i) := by
  cases answer with
  | resolved | streamed => exact Or.inl rfl
  | rejected message => exact Or.inr (goes_fail w _ _ _ _)
  | usage bytes =>
      simp only [World.diskChecked, requireSession_missing hm hs]
      split_ifs <;> exact Or.inr (goes_fail w _ _ _ _)

/-- A call that has got no session touches none, if there is none of its id. -/
theorem turn_missing {t : Task} (ht : w.tasks[i]? = some t) (hk : t.command.request.sessionId = some k)
    (hm : mapGet k w.memory.sessions = none) (hs : w.storage.loadSession options k = none)
    (hps : t.point.session = none) (hpl : t.point.load = none) (answer : Answer) :
    Turn options K i t w (w.resumed options i answer) := by
  unfold World.resumed
  simp only [ht]
  cases hp : t.point with
  | evicting now candidates =>
      cases answer with
      | resolved => exact .evicts now candidates hp
      | rejected => exact .stops (by rw [hp]; rfl)
      | usage | streamed => exact .still
  | entered =>
      simp only [World.enter]
      have hdispatch (hl : t.looksUp w) : Turn options K i t w (w.dispatch options i t.command) := by
        by_cases hd : ∃ sessionId, t.command.request = .delete sessionId
        · obtain ⟨sessionId, hd⟩ := hd
          simp only [World.dispatch, hd]
          exact .deletes sessionId hp hl hd
        · push Not at hd
          exact .goes (Or.inr ⟨hp, hl⟩) (goes_missing w hk hm hs hd)
      split_ifs with hr
      · exact hdispatch (Or.inl hr)
      · split
        · exact .stops (by rw [hp]; rfl)
        · exact hdispatch (Or.inr ‹_›)
  | checkingDisk =>
      simp only [hk]
      exact turn_of_or (goes_diskChecked_missing w _ answer hm hs) (by rw [hp]; rfl)
  | deleting =>
      simp only [hk]
      cases answer with
      | resolved => exact .deleted k hp hk
      | rejected => exact .goes (Or.inl (by rw [hp]; rfl)) (goes_finish (ordinary_refl w))
      | usage | streamed => exact .still
  | ending => exact .ends hp
  | done completed => exact .still
  | loading l | joining l =>
      rw [hp] at hpl
      cases hpl
  | got r | streaming r | interrupting r | formatting r | inspecting r | compacting r | commanding r
  | operating r =>
      rw [hp] at hps
      cases hps

end Missing

section Steps

/-- The next step of the call takes the stored session of the id away. -/
def Task.deletesStored (t : Task) (k : String) (w : World) : Prop :=
  mapGet k w.storage.sessions ≠ none ∧
    (t.point = .deleting ∧ t.command.request.sessionId = some k ∨
      t.point = .entered ∧ t.looksUp w ∧ t.command.request = .delete k ∧ mapGet k w.memory.sessions = none)

/-- When a stored session is taken away its id has no runtime in the map, and neither
another call nor a load is at work on it. A deleted id selects no other session. -/
structure DeletionAllowed (options : WorkerServiceOptions) (w : World) (step : ServiceStep) : Prop where
  alone : ∀ i answer t k, step = .resumed i answer → w.tasks[i]? = some t → t.deletesStored k w →
    mapGet k w.memory.sessions = none ∧
      (∀ (j : Nat) t', j ≠ i → w.tasks[j]? = some t' → Placed (· ≠ k) w.memory t'.point) ∧
        ∀ (l : Nat) (x : Load) stored, w.memory.loads[l]? = some x → x.point = .creating stored →
          x.sessionId ≠ k
  selects : ∀ i answer t k, step = .resumed i answer → w.tasks[i]? = some t →
    t.command.request.sessionId = some k → k ∈ w.storage.deleted → w.storage.loadSession options k = none

theorem Own.both {K' : String → Prop} (h : Own K r m) (h' : Own K' r m) : Own (fun k => K k ∧ K' k) r m := by
  obtain ⟨s, hs, hk⟩ := h
  exact ⟨s, hs, hk, h'.id hs⟩

theorem Placed.both {K' : String → Prop} (h : Placed K m p) (h' : Placed K' m p) :
    Placed (fun k => K k ∧ K' k) m p := by
  refine ⟨fun r hr => (h.session r hr).both (h'.session r hr), fun l hl => ?_⟩
  obtain ⟨x, hx, hk⟩ := h.load l hl
  obtain ⟨x', hx', hk'⟩ := h'.load l hl
  rw [hx] at hx'
  cases hx'
  exact ⟨x, hx, hk, hk'⟩

theorem deletion_fail (h : DeletionSound w) (sessionId : Option String) (requestId code message : String) :
    DeletionSound (w.fail i sessionId requestId code message) := by
  obtain ⟨u, p, ho, he, hp⟩ := goes_fail (A := Nobody) (B := Nobody) (K := fun _ => False) (i := i) w sessionId
    requestId code message
  rw [he]
  exact deletion_of_goes h ho (fun _ => False.elim) hp.placed

/-- What is taken away is gone, when nothing else is at work on it. -/
theorem deletion_deleteStored (h : DeletionSound w) {t : Task} (ht : w.tasks[i]? = some t)
    (hs : t.point.session = none) (hl : t.point.load = none) (requestId : String)
    (ha : mapGet k w.storage.sessions ≠ none → mapGet k w.memory.sessions = none ∧
      (∀ (j : Nat) t', j ≠ i → w.tasks[j]? = some t' → Placed (· ≠ k) w.memory t'.point) ∧
        ∀ (l : Nat) (x : Load) stored, w.memory.loads[l]? = some x → x.point = .creating stored →
          x.sessionId ≠ k) : DeletionSound (w.deleteStored i k requestId) := by
  rcases deleteStored_cases w i k requestId with ⟨-, he⟩ | ⟨hk, he⟩
  · rw [he]
    exact deletion_fail h _ _ _ _
  obtain ⟨hm, hothers, hloads⟩ := ha hk
  have hdeleted : DeletionSound ((w.onStorage (.deleteSession k)).act i) := by
    refine ⟨fun k' hk' => ?_, fun l x stored hx hp => ?_, fun j t' hj => ?_⟩
    · rcases List.mem_cons.mp hk' with rfl | hk'
      · refine ⟨hm, ?_, Function.update_self _ _ _, Function.update_self _ _ _⟩
        have hf := mapGet_filter k' (fun k => k ≠ k') w.storage.sessions
        rw [if_neg (by simp)] at hf
        exact hf
      · have hg := h.gone k' hk'
        refine ⟨hg.sessions, ?_, ?_, ?_⟩
        · have hf := mapGet_filter k' (fun k' => k' ≠ k) w.storage.sessions
          simp only [World.act, World.onStorage, Storage.deleteSession, mapDelete]
          rw [hf]
          split_ifs
          · exact hg.stored
          · rfl
        · simp only [World.act, World.onStorage, Storage.deleteSession, Function.update_apply]
          split_ifs
          · rfl
          · exact hg.settings
        · simp only [World.act, World.onStorage, Storage.deleteSession, Function.update_apply]
          split_ifs
          · rfl
          · exact hg.journal
    · exact fun hm => (List.mem_cons.mp hm).elim (hloads l x stored hx hp) (h.creating l x stored hx hp)
    · by_cases hji : j = i
      · subst hji
        rw [World.act, World.onStorage, ht] at hj
        cases hj
        exact placed_of_idle hs hl
      · exact ((h.placed j t' hj).both (hothers j t' hji hj)).mono
          (fun k' hk' hm => (List.mem_cons.mp hm).elim hk'.2 hk'.1)
  obtain ⟨u, p, ho, hu, hp⟩ := goes_forgotten (A := Nobody) (B := Nobody) (K := fun _ => False) (i := i) w k
    requestId
  rw [he, hu]
  exact deletion_of_goes hdeleted ho (fun _ => False.elim) hp.placed

theorem deletion_drop (h : DeletionSound w) (sessionId : String) (r : Nat) :
    DeletionSound ((w.drop sessionId r).act i) :=
  h.follows (follows_dropped w sessionId r) (fun _ hk => hk) (fun _ _ hg => ⟨hg.stored, hg.settings, hg.journal⟩)
    (fun _ _ hx => Or.inl hx) (fun _ _ hj => Or.inl hj)

theorem deletion_creates (h : DeletionSound w) (hk : Keyed w.memory) :
    DeletionSound (w.createSession options i) := by
  obtain ⟨u, p, ho, hu, hp⟩ := goes_createSession (A := Nobody) (B := Nobody) options hk i
  have hstored : DeletionSound ((w.onStorage (fun s =>
      { s with
        sessions := mapSet (options.createSessionId w.storage.drawn) .created s.sessions
        drawn := s.drawn + 1
        deleted := s.deleted.filter (fun id => id ≠ options.createSessionId w.storage.drawn) })).act i) := by
    refine h.follows (follows_refl _) (fun k hk => (List.mem_filter.mp hk).1) (fun k hk hg => ?_)
      (fun l x hx => Or.inl hx) (fun j t hj => Or.inl hj)
    have hne : options.createSessionId w.storage.drawn ≠ k := by
      have hk' := (List.mem_filter.mp hk).2
      rintro rfl
      simp at hk'
    refine ⟨?_, hg.settings, hg.journal⟩
    simp only [World.act, World.onStorage, mapGet_mapSet, if_neg hne]
    exact hg.stored
  rw [hu]
  refine deletion_of_goes hstored ho (fun k hk hm => ?_) hp.placed
  subst hk
  have hm' := (List.mem_filter.mp hm).2
  simp at hm'

theorem deletion_turn (hreg : Registered w.memory w.tasks) (h : DeletionSound w) {t : Task}
    (ht : w.tasks[i]? = some t) {answer : Answer} (ha : DeletionAllowed options w (.resumed i answer))
    (hK : ∀ k, K k → k ∉ w.storage.deleted) (hturn : Turn options K i t w w') : DeletionSound w' := by
  cases hturn with
  | still => exact h
  | stops => exact deletion_await h rfl rfl
  | evicts now candidates => exact deletion_evicting h now candidates
  | goes hp hg =>
      obtain ⟨u, p, ho, rfl, hplain⟩ := hg
      exact deletion_of_goes h ho hK hplain.placed
  | settles l owner hp => exact deletion_loaded hreg h ht hp
  | begins r hp hr hb =>
      obtain ⟨-, u, p, ho, rfl, hholding, -⟩ := hb
      exact deletion_of_goes h ho hK hholding.placed
  | holds r hp hg =>
      obtain ⟨u, p, ho, rfl, hholding⟩ := hg
      exact deletion_of_goes h ho hK hholding.placed
  | releases r hp hg =>
      obtain ⟨u, p, ho, rfl, hplain⟩ := hg
      exact deletion_of_goes h ho hK hplain.placed
  | creates hp hl hr => exact deletion_creates h hreg.keyed
  | deletes sessionId hp hl hr =>
      rcases deleteSession_cases w i sessionId t.command.requestId with ⟨hm, he⟩ | ⟨r, -, -, he⟩ | ⟨r, -, -, he⟩
      · rw [he]
        refine deletion_deleteStored h ht (by rw [hp]; rfl) (by rw [hp]; rfl) _ (fun hk => ?_)
        exact ha.alone i answer t sessionId rfl ht ⟨hk, Or.inr ⟨hp, hl, hr, hm⟩⟩
      · rw [he]
        exact deletion_fail h _ _ _ _
      · rw [he]
        exact deletion_await (deletion_drop h sessionId r) rfl rfl
  | deleted sessionId hp hr =>
      refine deletion_deleteStored h ht (by rw [hp]; rfl) (by rw [hp]; rfl) _ (fun hk => ?_)
      exact ha.alone i answer t sessionId rfl ht ⟨hk, Or.inl ⟨hp, hr⟩⟩
  | ends hp =>
      rw [World.ended]
      split_ifs
      · refine deletion_await (w := w.onStorage _) ?_ rfl rfl
        exact h.follows (follows_refl _) (fun k hk => hk) (fun k _ hg => ⟨hg.stored, hg.settings, hg.journal⟩)
          (fun l x hx => Or.inl hx) (fun j t hj => Or.inl hj)
      · exact deletion_await h rfl rfl

theorem deletion_resumed (hreg : Registered w.memory w.tasks) (h : DeletionSound w) {answer : Answer}
    (ha : DeletionAllowed options w (.resumed i answer)) : DeletionSound (w.resumed options i answer) := by
  cases ht : w.tasks[i]? with
  | none => simpa only [World.resumed, ht] using h
  | some t =>
      by_cases hdead : ∃ k, t.command.request.sessionId = some k ∧ k ∈ w.storage.deleted
      · obtain ⟨k, hk, hd⟩ := hdead
        -- such a call has got no session, since what it works with has its own id
        have hplaced := (hreg.placed i t ht).both (h.placed i t ht)
        have hps : t.point.session = none := by
          cases hps : t.point.session with
          | none => rfl
          | some r =>
              obtain ⟨s, -, hs, hs'⟩ := hplaced.session r hps
              exact absurd (hs k hk ▸ hs') (fun hn => hn hd)
        have hpl : t.point.load = none := by
          cases hpl : t.point.load with
          | none => rfl
          | some l =>
              obtain ⟨x, -, hx, hx'⟩ := hplaced.load l hpl
              exact absurd (hx k hk ▸ hx') (fun hn => hn hd)
        exact deletion_turn hreg h ht ha (K := fun _ => False) (fun _ => False.elim)
          (turn_missing ht hk (h.gone k hd).sessions (ha.selects i answer t k rfl ht hk hd) hps hpl answer)
      · have hscope : Scope (· ∉ w.storage.deleted) w t := by
          refine ⟨fun k hk hd => hdead ⟨k, hk, hd⟩, h.placed i t ht, fun _ r hr => ?_⟩
          obtain ⟨e, he, rfl⟩ := List.mem_map.mp hr
          have hget := (Mutation.mapGet_eq_some hreg.keys (p := e.1) (v := e.2)).mpr he
          refine (hreg.keyed.sessions e.1 e.2 hget).mono (fun k he' hd => ?_)
          rw [← he', (h.gone k hd).sessions] at hget
          cases hget
        exact deletion_turn hreg h ht ha (fun k hk => hk) (turn_resumed options hreg.keyed ht hscope answer)

theorem deletion_received (h : DeletionSound w) (command : ClientCommand) :
    DeletionSound (w.received options command) := by
  have hcalled : DeletionSound { w with tasks := w.tasks ++ [⟨command, .entered, []⟩] } := by
    refine ⟨fun k hk => ?_, h.creating, fun j t hj => ?_⟩
    · have hg := h.gone k hk
      exact ⟨hg.sessions, hg.stored, hg.settings, hg.journal⟩
    · rcases Nat.lt_or_ge j w.tasks.length with hlt | hge
      · rw [List.getElem?_append_left hlt] at hj
        exact h.placed j t hj
      · rw [List.getElem?_append_right hge] at hj
        have ht := List.mem_singleton.mp (List.mem_of_getElem? hj)
        subst ht
        exact placed_of_idle rfl rfl
  simp only [World.received]
  split_ifs
  · exact deletion_of_goes (A := Nobody) (B := Nobody) (K := fun _ => False) hcalled (ordinary_reply _ _ _ (by rintro ⟨⟩))
      (fun _ => False.elim) (placed_of_idle rfl rfl)
  · exact deletion_evicting hcalled _ _

theorem deletion_listener (h : DeletionSound w)
    (ho : Ordinary Nobody Nobody (fun _ => False) w.tasks.length w u) : DeletionSound u := by
  refine deletion_of_ordinary h ho (fun _ => False.elim) (fun j t hj => Or.inl ?_)
  by_cases hjl : j = w.tasks.length
  · have hkey := ho.key
    rw [← hjl, hj, hjl, List.getElem?_eq_none le_rfl] at hkey
    cases hkey
  · exact (ho.others j hjl).symm.trans hj

theorem deletion_restarted (h : DeletionSound w) : DeletionSound (w.restarted options) := by
  have hreg := registered_restarted options w
  refine ⟨fun k hk => ?_, fun l x stored hx hp => ?_, fun j t hj => ?_⟩
  · have hg := h.gone k hk
    exact ⟨rfl, hg.stored, hg.settings, hg.journal⟩
  · simp only [World.restarted, List.getElem?_map, Option.map_eq_some_iff] at hx
    obtain ⟨x', -, rfl⟩ := hx
    cases hp
  · simp only [World.restarted, List.getElem?_map, Option.map_eq_some_iff] at hj
    obtain ⟨t', -, rfl⟩ := hj
    cases hp : t'.point <;> simp only [hp] <;> exact placed_of_idle rfl rfl

theorem deletion_next (step : ServiceStep) (ha : DeletionAllowed options w step)
    (hreg : Registered w.memory w.tasks) (h : DeletionSound w) :
    DeletionSound (ServiceStep.next options w step) := by
  cases step with
  | clock now =>
      exact h.follows (u := w.onMemory (fun m => { m with clock := now })) (follows_clock w.memory now) (fun _ hk => hk)
        (fun _ _ hg => ⟨hg.stored, hg.settings, hg.journal⟩) (fun _ _ hx => Or.inl hx) (fun _ _ hj => Or.inl hj)
  | received command => exact deletion_received h command
  | resumed i answer => exact deletion_resumed hreg h ha
  | created l runtime => exact deletion_created h l runtime
  | trimmed l ok => exact deletion_trimmed h l ok
  | traced r trace => exact deletion_listener h (ordinary_traceTold w r trace)
  | workStateChanged r contextState workState =>
      exact deletion_listener h (ordinary_workStateTold w r contextState workState)
  | restarted => exact deletion_restarted h

end Steps

/-- At most one runtime is in the map for an id, and none for an id that was deleted,
for which nothing is stored either. -/
structure DeletionsComplete (w : World) : Prop where
  single : (w.memory.sessions.map Prod.fst).Nodup
  gone : ∀ k ∈ w.storage.deleted, Gone k w

theorem allowed_of_other {step : ServiceStep} (hs : ∀ i answer, step ≠ .resumed i answer) :
    DeletionAllowed options w step :=
  ⟨fun i answer _ _ he => absurd he (hs i answer), fun i answer _ _ he => absurd he (hs i answer)⟩

/-- A session is deleted whose runtime is not loaded. -/
def deletedRun : List ServiceStep := [.received ⟨"delete", none, .delete "a"⟩, .resumed 0 settled]

/-- A session is resumed while its runtime is being closed for the deletion. -/
def reloadedRun : List ServiceStep :=
  inputSteps 0 "a" ++ [.resumed 0 settled, .received ⟨"delete", none, .delete "a"⟩, .resumed 1 settled,
    .received ⟨"resume", none, .resume "a" 0⟩, .resumed 2 settled, .resumed 1 settled,
    .created 1 (some plainRuntime)]

end Kross.Service

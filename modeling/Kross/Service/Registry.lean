import Kross.Service.Calls

namespace Kross.Service

open Mutation (mapGet mapSet mapDelete mapGet_mapSet mapGet_filter mapGet_eq_some keys_mapSet_nodup)

/-- The ids that the call is about. -/
def Task.concerns (t : Task) (k : String) : Prop :=
  ∀ sessionId, t.command.request.sessionId = some sessionId → k = sessionId

/-- The maps, the loads and the calls agree: a load, unless it is `but`, runs for an id
that has no session, and others find it for as long as the call that made it waits. -/
structure RegisteredBut (but : Option Nat) (m : Memory) (tasks : List Task) : Prop where
  keyed : Keyed m
  keys : (m.sessions.map Prod.fst).Nodup
  creating : ∀ (l : Nat) (x : Load) stored, m.loads[l]? = some x → x.point = .creating stored →
    some l ≠ but → mapGet x.sessionId m.loadingSessions = some l ∧ mapGet x.sessionId m.sessions = none
  placed : ∀ (j : Nat) (t : Task), tasks[j]? = some t → Placed t.concerns m t.point
  owned : ∀ (j : Nat) (t : Task), tasks[j]? = some t → Owns j m t.point

abbrev Registered := RegisteredBut none

/-- Sessions may be gone from the map, and loads may have begun. -/
structure Follows (m m' : Memory) : Prop where
  sessions : ∀ k r, mapGet k m'.sessions = some r → mapGet k m.sessions = some r
  keys : (m'.sessions.map Prod.fst).Sublist (m.sessions.map Prod.fst)
  objects : ∀ r s, m.session? r = some s → ∃ s', m'.session? r = some s' ∧ s'.id = s.id
  loads : ∀ (l : Nat) (x : Load), m.loads[l]? = some x → m'.loads[l]? = some x
  newLoads : ∀ (l : Nat) (x : Load), m'.loads[l]? = some x → m.loads[l]? = some x ∨
    (∃ stored, x.point = .creating stored) ∧ mapGet x.sessionId m'.loadingSessions = some l ∧
      mapGet x.sessionId m.sessions = none
  listed : ∀ (k : String) (l : Nat), mapGet k m.loadingSessions = some l →
    mapGet k m'.loadingSessions = some l
  loading : ∀ (k : String) (l : Nat), mapGet k m'.loadingSessions = some l →
    mapGet k m.loadingSessions = some l ∨ ∃ x, m'.loads[l]? = some x ∧ x.sessionId = k

variable {A B : Nat → Prop} {K : String → Prop} {i r : Nat} {m m' : Memory} {tasks : List Task}
  {but : Option Nat} {u w w' : World} {p : Point} {P : World → Point → Prop} {options : WorkerServiceOptions}

theorem follows_refl (m : Memory) : Follows m m :=
  ⟨fun _ _ h => h, List.Sublist.refl _, fun _ s h => ⟨s, h, rfl⟩, fun _ _ h => h, fun _ _ h => Or.inl h,
    fun _ _ h => h, fun _ _ h => Or.inl h⟩

theorem follows_clock (m : Memory) (now : Nat) : Follows m { m with clock := now } :=
  ⟨fun _ _ h => h, List.Sublist.refl _, fun _ s h => ⟨s, h, rfl⟩, fun _ _ h => h, fun _ _ h => Or.inl h,
    fun _ _ h => h, fun _ _ h => Or.inl h⟩

theorem follows_of_ordinary (h : Ordinary A B K i w u) : Follows w.memory u.memory where
  sessions := fun k r hr => by rwa [h.memory.sessions] at hr
  keys := by rw [h.memory.sessions]
  objects := fun _ _ hs => ordinary_session h hs
  loads := h.loads
  newLoads := fun l x hx => (h.newLoads l x hx).imp_right And.right
  listed := h.listed
  loading := h.loading

theorem Follows.own (h : Follows m m') (ho : Own K r m) : Own K r m' := by
  obtain ⟨s, hs, hK⟩ := ho
  obtain ⟨s', hs', hid⟩ := h.objects r s hs
  exact ⟨s', hs', by rwa [hid]⟩

theorem Follows.placed (h : Follows m m') {p : Point} (hp : Placed K m p) : Placed K m' p where
  session := fun r hr => h.own (hp.session r hr)
  load := by
    intro l hl
    obtain ⟨x, hx, hK⟩ := hp.load l hl
    exact ⟨x, h.loads l x hx, hK⟩

theorem Follows.owns (h : Follows m m') {p : Point} (hp : Owns i m p) : Owns i m' p := by
  intro l hl
  obtain ⟨x, hx, ho, hk⟩ := hp l hl
  exact ⟨x, h.loads l x hx, ho, h.listed _ _ hk⟩

theorem Follows.absent (h : Follows m m') {k : String} (hk : mapGet k m.sessions = none) :
    mapGet k m'.sessions = none := by
  cases hr : mapGet k m'.sessions with
  | none => rfl
  | some r =>
      rw [h.sessions k r hr] at hk
      cases hk

theorem Follows.keyed (h : Follows m m') (hk : Keyed m) : Keyed m' := by
  refine ⟨fun k r hr => h.own (hk.sessions k r (h.sessions k r hr)), fun k l hl => ?_, fun l x r hx hp => ?_⟩
  · rcases h.loading k l hl with hl | hx
    · obtain ⟨x, hx, rfl⟩ := hk.loading k l hl
      exact ⟨x, h.loads l x hx, rfl⟩
    · exact hx
  · rcases h.newLoads l x hx with hx | ⟨⟨stored, he⟩, -, -⟩
    · exact h.own (hk.loads l x r hx hp)
    · rw [he] at hp
      cases hp

/-- A call is as before, or it is where it may be. -/
theorem RegisteredBut.follows (h : RegisteredBut but m tasks) (hm : Follows m m') {tasks' : List Task}
    (ht : ∀ (j : Nat) (t : Task), tasks'[j]? = some t →
      tasks[j]? = some t ∨ Placed t.concerns m' t.point ∧ Owns j m' t.point) :
    RegisteredBut but m' tasks' where
  keyed := hm.keyed h.keyed
  keys := hm.keys.nodup h.keys
  creating := by
    intro l x stored hx hp hb
    rcases hm.newLoads l x hx with hx | ⟨-, hl, hs⟩
    · obtain ⟨hl, hs⟩ := h.creating l x stored hx hp hb
      exact ⟨hm.listed _ _ hl, hm.absent hs⟩
    · exact ⟨hl, hm.absent hs⟩
  placed := by
    intro j t hj
    rcases ht j t hj with hj | ⟨hp, -⟩
    · exact hm.placed (h.placed j t hj)
    · exact hp
  owned := by
    intro j t hj
    rcases ht j t hj with hj | ⟨-, ho⟩
    · exact hm.owns (h.owned j t hj)
    · exact ho

theorem placed_of_idle {p : Point} (hs : p.session = none) (hl : p.load = none) : Placed K m p := by
  refine ⟨fun r hr => ?_, fun l hl' => ?_⟩
  · rw [hs] at hr
    cases hr
  · rw [hl] at hl'
    cases hl'

theorem owns_of_load {p : Point} (hl : p.load = none) : Owns i m p := by
  rintro l rfl
  cases hl

section Tasks

theorem getElem?_await (w : World) (i : Nat) (p : Point) (j : Nat) :
    (w.await i p).tasks[j]? =
      if i = j then w.tasks[j]?.map (fun t => { t with point := p }) else w.tasks[j]? := by
  simp only [World.await, World.onTask, List.getElem?_modify]
  split_ifs with h
  · rfl
  · cases w.tasks[j]? <;> rfl

/-- The calls once one has got on. -/
theorem task_of_await {j : Nat} {p : Point} {t : Task} (h : (w.await i p).tasks[j]? = some t) :
    j ≠ i ∧ w.tasks[j]? = some t ∨ j = i ∧ t.point = p ∧ ∃ t', w.tasks[i]? = some t' ∧ t'.key = t.key := by
  rw [getElem?_await] at h
  split_ifs at h with hj
  · subst hj
    obtain ⟨t', ht', rfl⟩ := Option.map_eq_some_iff.mp h
    exact Or.inr ⟨rfl, rfl, t', ht', rfl⟩
  · exact Or.inl ⟨Ne.symm hj, h⟩

theorem concerns_of_key {t t' : Task} (h : t.key = t'.key) : t.concerns = t'.concerns := by
  funext k
  have hs : t.command.request.sessionId = t'.command.request.sessionId := congrArg Prod.fst h
  simp only [Task.concerns, hs]

/-- The calls once one has got on in the way that its kind of step does. -/
theorem task_of_goes {j : Nat} {p : Point} {t : Task} (ho : Ordinary A B K i w u)
    (h : (u.await i p).tasks[j]? = some t) :
    j ≠ i ∧ w.tasks[j]? = some t ∨ j = i ∧ t.point = p ∧ ∃ t', w.tasks[i]? = some t' ∧ t'.key = t.key := by
  rcases task_of_await h with ⟨hj, ht⟩ | ⟨hj, hp, t', ht', hk⟩
  · exact Or.inl ⟨hj, (ho.others j hj).symm.trans ht⟩
  · refine Or.inr ⟨hj, hp, ?_⟩
    have hkey := ho.key
    rw [ht'] at hkey
    obtain ⟨t'', ht'', he⟩ := Option.map_eq_some_iff.mp hkey.symm
    exact ⟨t'', ht'', he.trans hk⟩

end Tasks

theorem registered_of_goes (h : Registered w.memory w.tasks) {t : Task} (ht : w.tasks[i]? = some t)
    (hg : Goes A B K i w w' P) (hP : ∀ u p, P u p → Placed t.concerns u.memory p ∧ Owns i u.memory p) :
    Registered w'.memory w'.tasks := by
  obtain ⟨u, p, ho, rfl, hp⟩ := hg
  refine h.follows (follows_of_ordinary ho) (fun j t' hj => ?_)
  rcases task_of_goes ho hj with ⟨-, hj⟩ | ⟨rfl, rfl, t'', ht'', hk⟩
  · exact Or.inl hj
  · rw [ht] at ht''
    cases ht''
    obtain ⟨hplaced, howns⟩ := hP u _ hp
    exact Or.inr ⟨concerns_of_key hk ▸ hplaced, howns⟩

/-- A call waits for nothing. -/
theorem registered_await (h : Registered w.memory w.tasks) {p : Point} (hs : p.session = none)
    (hl : p.load = none) : Registered (w.await i p).memory (w.await i p).tasks := by
  refine h.follows (follows_refl _) (fun j t hj => ?_)
  rcases task_of_await hj with ⟨-, hj⟩ | ⟨rfl, rfl, -⟩
  · exact Or.inl hj
  · exact Or.inr ⟨placed_of_idle hs hl, owns_of_load hl⟩

section Evictions

theorem follows_drop {k : String} (hobjects : ∀ r s, m.session? r = some s →
      ∃ s', m'.session? r = some s' ∧ s'.id = s.id) (hs : m'.sessions = mapDelete k m.sessions)
    (hl : m'.loads = m.loads) (hls : m'.loadingSessions = m.loadingSessions) : Follows m m' := by
  refine ⟨fun k' r hr => ?_, ?_, hobjects, fun l x hx => by rwa [hl], fun l x hx => Or.inl (by rwa [hl] at hx),
    fun k' l hk => by rwa [hls], fun k' l hk => Or.inl (by rwa [hls] at hk)⟩
  · have hf := mapGet_filter k' (fun k' => k' ≠ k) m.sessions
    rw [hs, mapDelete, hf] at hr
    split_ifs at hr
    exact hr
  · rw [hs, mapDelete]
    exact List.filter_sublist.map Prod.fst

theorem objects_unsubscribe (r' : Nat) (m : Memory) (r : Nat) (s : ActiveSession)
    (hs : m.session? r = some s) : ∃ s', (m.unsubscribe r').session? r = some s' ∧ s'.id = s.id := by
  simp only [Memory.unsubscribe, session?_update, hs]
  split_ifs
  · exact ⟨_, rfl, rfl⟩
  · exact ⟨_, rfl, rfl⟩

theorem follows_evict (m : Memory) (r : Nat) : Follows m (m.evict r) := by
  rw [Memory.evict]
  split
  · exact follows_refl m
  · exact follows_drop (fun r' s' hs' => objects_unsubscribe r _ r' s' hs') rfl rfl rfl

/-- Of the candidates those that are not taken are skipped, up to one that is. -/
theorem evictLoop_cases (options : WorkerServiceOptions) (now : Nat) (m : Memory) (candidates : List Nat) :
    m.evictLoop options now candidates = (m, none) ∨
      ∃ skipped r rest, candidates = skipped ++ r :: rest ∧
        candidates.find? (fun r => expendable options now r m) = some r ∧
        m.evictLoop options now candidates = (m.evict r, some rest) := by
  induction candidates with
  | nil => exact Or.inl rfl
  | cons r rest ih =>
      rw [Memory.evictLoop]
      split_ifs with he
      · exact Or.inr ⟨[], r, rest, rfl, List.find?_cons_of_pos he, rfl⟩
      · refine ih.imp_right ?_
        rintro ⟨skipped, r', rest', rfl, hf, hm⟩
        refine ⟨r :: skipped, r', rest', rfl, ?_, hm⟩
        rwa [List.find?_cons_of_neg (p := fun r => expendable options now r m) he]

variable (options) in
theorem follows_evictLoop (m : Memory) (now : Nat) (candidates : List Nat) :
    Follows m (m.evictLoop options now candidates).1 := by
  rcases evictLoop_cases options now m candidates with he | ⟨_, r, _, -, -, he⟩
  · rw [he]
    exact follows_refl m
  · rw [he]
    exact follows_evict m r

theorem registered_evicting (h : Registered w.memory w.tasks) (now : Nat) (candidates : List Nat) :
    Registered (w.evicting options i now candidates).memory (w.evicting options i now candidates).tasks := by
  simp only [World.evicting]
  refine registered_await (w := { w with memory := _ }) ?_ ?_ ?_
  · exact h.follows (follows_evictLoop options _ now candidates) (fun j t hj => Or.inl hj)
  · split <;> rfl
  · split <;> rfl

end Evictions

section Loads

theorem setLoad_loads (w : World) (l : Nat) (point : LoadPoint) (l' : Nat) :
    (w.setLoad l point).memory.loads[l']? =
      if l = l' then w.memory.loads[l']?.map (fun x => { x with point }) else w.memory.loads[l']? := by
  simp only [World.setLoad, World.onMemory, List.getElem?_modify]
  split_ifs with h
  · rfl
  · cases w.memory.loads[l']? <;> rfl

/-- A load keeps its id and the call that made it. -/
theorem load_of_setLoad {l' : Nat} {x : Load} (l : Nat) (point : LoadPoint) (h : w.memory.loads[l']? = some x) :
    ∃ x', (w.setLoad l point).memory.loads[l']? = some x' ∧ x'.sessionId = x.sessionId ∧
      x'.owner = x.owner := by
  rw [setLoad_loads, h]
  split_ifs
  · exact ⟨_, rfl, rfl, rfl⟩
  · exact ⟨_, rfl, rfl, rfl⟩

/-- A load gets on, to a session of its id if to any. -/
theorem registered_setLoad {l : Nat} (h : RegisteredBut (some l) w.memory w.tasks) {point : LoadPoint}
    (hc : ∀ stored, point ≠ .creating stored)
    (hp : ∀ (x : Load) r, w.memory.loads[l]? = some x → point.session = some r →
      Own (· = x.sessionId) r w.memory) :
    Registered (w.setLoad l point).memory (w.setLoad l point).tasks := by
  refine ⟨⟨h.keyed.sessions, fun k l' hl => ?_, fun l' x r hx hr => ?_⟩, h.keys, fun l' x stored hx he _ => ?_,
    fun j t hj => ⟨(h.placed j t hj).session, fun l' hl => ?_⟩, fun j t hj l' hl => ?_⟩
  · obtain ⟨x, hx, rfl⟩ := h.keyed.loading k l' hl
    obtain ⟨x', hx', hid, -⟩ := load_of_setLoad l point hx
    exact ⟨x', hx', hid⟩
  · rw [setLoad_loads] at hx
    split_ifs at hx with hl
    · subst hl
      obtain ⟨x', hx', rfl⟩ := Option.map_eq_some_iff.mp hx
      exact hp x' r hx' hr
    · exact h.keyed.loads l' x r hx hr
  · rw [setLoad_loads] at hx
    split_ifs at hx with hl
    · obtain ⟨x', hx', rfl⟩ := Option.map_eq_some_iff.mp hx
      exact absurd he (hc stored)
    · exact h.creating l' x stored hx he (fun he => hl (Option.some.inj he).symm)
  · obtain ⟨x, hx, hk⟩ := (h.placed j t hj).load l' hl
    obtain ⟨x', hx', hid, -⟩ := load_of_setLoad l point hx
    exact ⟨x', hx', by rwa [hid]⟩
  · obtain ⟨x, hx, ho, hk⟩ := h.owned j t hj l' hl
    obtain ⟨x', hx', hid, ho'⟩ := load_of_setLoad l point hx
    exact ⟨x', hx', ho'.trans ho, by rwa [hid]⟩

theorem registered_trim {l r : Nat} (h : RegisteredBut (some l) w.memory w.tasks) (now : Nat) (candidates : List Nat)
    (hr : ∀ x, w.memory.loads[l]? = some x → Own (· = x.sessionId) r w.memory) :
    Registered (w.trim options l r now candidates).memory (w.trim options l r now candidates).tasks := by
  simp only [World.trim]
  have hf := follows_evictLoop options w.memory now candidates
  have hloads : (w.memory.evictLoop options now candidates).1.loads = w.memory.loads := by
    rcases evictLoop_cases options now w.memory candidates with he | ⟨_, r', _, -, -, he⟩
    · rw [he]
    · rw [he, Memory.evict]
      split <;> rfl
  refine registered_setLoad (w := { w with memory := _ }) (h.follows hf (fun j t hj => Or.inl hj)) ?_ ?_
  · intro stored
    split <;> exact LoadPoint.noConfusion
  · intro x r' hx hp
    rw [hloads] at hx
    refine hf.own ?_
    split at hp <;> cases hp <;> exact hr x hx

theorem RegisteredBut.weaken (h : Registered m tasks) : RegisteredBut but m tasks :=
  { h with creating := fun l x stored hx hp _ => h.creating l x stored hx hp nofun }

/-- A session is put into the map for a load that runs. -/
def World.register (sessionId : String) (session : ActiveSession) (w : World) : World :=
  w.onMemory (fun m =>
    { m with
      objects := m.objects ++ [session]
      sessions := mapSet sessionId m.objects.length m.sessions })

theorem session?_register {sessionId : String} {session s : ActiveSession} {r : Nat}
    (h : w.memory.session? r = some s) : (w.register sessionId session).memory.session? r = some s := by
  simp only [World.register, World.onMemory, Memory.session?]
  rw [List.getElem?_append_left (List.getElem?_eq_some_iff.mp h).1]
  exact h

theorem session?_registered (w : World) (sessionId : String) (session : ActiveSession) :
    (w.register sessionId session).memory.session? w.memory.objects.length = some session :=
  List.getElem?_concat_length

theorem mapGet_register {sessionId k : String} {session : ActiveSession} {r : Nat}
    (h : mapGet k (w.register sessionId session).memory.sessions = some r) :
    k = sessionId ∧ r = w.memory.objects.length ∨ mapGet k w.memory.sessions = some r := by
  simp only [World.register, World.onMemory, mapGet_mapSet] at h
  split_ifs at h with hk
  · cases h
    exact Or.inl ⟨hk.symm, rfl⟩
  · exact Or.inr h

theorem registered_register (h : Registered w.memory w.tasks) {l : Nat} {x : Load}
    {stored : Option StoredSession} (hx : w.memory.loads[l]? = some x) (hp : x.point = .creating stored)
    (session : ActiveSession) (hid : session.id = x.sessionId) :
    RegisteredBut (some l) (w.register x.sessionId session).memory w.tasks := by
  have hown {K : String → Prop} {r : Nat} (ho : Own K r w.memory) :
      Own K r (w.register x.sessionId session).memory := by
    obtain ⟨s, hs, hK⟩ := ho
    exact ⟨s, session?_register hs, hK⟩
  obtain ⟨hlisted, -⟩ := h.creating l x stored hx hp nofun
  refine ⟨⟨fun k r hr => ?_, h.keyed.loading, fun l' x' r hx' hr => hown (h.keyed.loads l' x' r hx' hr)⟩,
    keys_mapSet_nodup h.keys, fun l' x' stored' hx' hp' hl' => ?_,
    fun j t hj => ⟨fun r hr => hown ((h.placed j t hj).session r hr), (h.placed j t hj).load⟩, h.owned⟩
  · rcases mapGet_register hr with ⟨rfl, rfl⟩ | hr
    · exact ⟨session, session?_registered w _ _, hid⟩
    · exact hown (h.keyed.sessions k r hr)
  · obtain ⟨hlisted', habsent⟩ := h.creating l' x' stored' hx' hp' nofun
    refine ⟨hlisted', ?_⟩
    have hne : x.sessionId ≠ x'.sessionId := by
      intro he
      rw [← he, hlisted] at hlisted'
      exact hl' hlisted'.symm
    simp only [World.register, World.onMemory, mapGet_mapSet, if_neg hne]
    exact habsent

theorem created_eq (options : WorkerServiceOptions) {l : Nat} {x : Load} {stored : Option StoredSession}
    (hx : w.memory.loads[l]? = some x) (hp : x.point = .creating stored) (runtime : Runtime) :
    w.created options l (some runtime) =
      (w.register x.sessionId (w.restoredSession x.sessionId stored runtime)).trim options l
        w.memory.objects.length w.memory.clock
        ((w.register x.sessionId (w.restoredSession x.sessionId stored runtime)).memory.candidates
          (some x.sessionId)) := by
  obtain ⟨sessionId, owner, point⟩ := x
  cases hp
  simp only [World.created, hx]
  rfl

theorem registered_created (h : Registered w.memory w.tasks) (l : Nat) (runtime : Option Runtime) :
    Registered (w.created options l runtime).memory (w.created options l runtime).tasks := by
  cases hx : w.memory.loads[l]? with
  | none => simpa only [World.created, hx] using h
  | some x =>
      cases hp : x.point with
      | creating stored =>
          cases runtime with
          | none =>
              obtain ⟨sessionId, owner, point⟩ := x
              cases hp
              simp only [World.created, hx]
              exact registered_setLoad h.weaken nofun nofun
          | some runtime =>
              rw [created_eq options hx hp]
              refine registered_trim (registered_register h hx hp _ rfl) _ _ (fun x' hx' => ?_)
              have he : x = x' := Option.some.inj (hx.symm.trans hx')
              exact he ▸ ⟨_, session?_registered w _ _, rfl⟩
      | evicting | loaded | failed =>
          obtain ⟨sessionId, owner, point⟩ := x
          cases hp
          simpa only [World.created, hx] using h

theorem registered_trimmed (h : Registered w.memory w.tasks) (l : Nat) (ok : Bool) :
    Registered (w.trimmed options l ok).memory (w.trimmed options l ok).tasks := by
  cases hx : w.memory.loads[l]? with
  | none => simpa only [World.trimmed, hx] using h
  | some x =>
      obtain ⟨sessionId, owner, point⟩ := x
      cases point with
      | evicting r now candidates =>
          simp only [World.trimmed, hx]
          split_ifs
          · refine registered_trim h.weaken _ _ (fun x' hx' => ?_)
            rw [hx] at hx'
            cases hx'
            exact h.keyed.loads l _ r hx rfl
          · exact registered_setLoad h.weaken nofun nofun
      | creating | loaded | failed => simpa only [World.trimmed, hx] using h

/-- A settled load hands its session on. -/
theorem loaded_cases (w : World) (i l : Nat) (owner : Bool) :
    w.loaded i l owner = w ∨ ∃ x p, w.memory.loads[l]? = some x ∧ (∀ stored, x.point ≠ .creating stored) ∧
      w.loaded i l owner = (w.forgetLoading x.sessionId owner).await i p ∧ p.begun = true ∧ p.load = none ∧
        p.holds = none ∧ ∀ r, p.session = some r → x.point = .loaded r := by
  rw [World.loaded]
  split
  · rename_i sessionId owner' r hx
    refine Or.inr ⟨_, .got r, hx, nofun, rfl, rfl, rfl, rfl, fun r' hr' => ?_⟩
    cases hr'
    rfl
  · rename_i sessionId owner' hx
    exact Or.inr ⟨_, .ending, hx, nofun, rfl, rfl, rfl, rfl, nofun⟩
  · exact Or.inl rfl

theorem forgetLoading_sessions (w : World) (sessionId : String) (owner : Bool) :
    (w.forgetLoading sessionId owner).memory.sessions = w.memory.sessions ∧
      (w.forgetLoading sessionId owner).memory.loads = w.memory.loads ∧
        (w.forgetLoading sessionId owner).memory.objects = w.memory.objects ∧
          (w.forgetLoading sessionId owner).tasks = w.tasks := by
  rw [World.forgetLoading]
  split_ifs <;> exact ⟨rfl, rfl, rfl, rfl⟩

theorem mapGet_forgetLoading (w : World) (sessionId : String) (owner : Bool) (k : String) :
    mapGet k (w.forgetLoading sessionId owner).memory.loadingSessions =
      if owner = true ∧ k = sessionId then none else mapGet k w.memory.loadingSessions := by
  rw [World.forgetLoading]
  cases owner with
  | false => simp
  | true =>
      have hf := mapGet_filter k (fun k => k ≠ sessionId) w.memory.loadingSessions
      simp only [if_true, World.onMemory, mapDelete, true_and]
      rw [hf]
      by_cases hk : k = sessionId
      · simp [hk]
      · simp [hk]

/-- A load that is settled is forgotten by the call that made it. -/
theorem registered_loaded (h : Registered w.memory w.tasks) {t : Task} (ht : w.tasks[i]? = some t)
    {l : Nat} {owner : Bool} (hp : t.point = if owner then .loading l else .joining l) :
    Registered (w.loaded i l owner).memory (w.loaded i l owner).tasks := by
  rcases loaded_cases w i l owner with he | ⟨x, p, hx, hc, he, -, hpl, -, hps⟩
  · rwa [he]
  rw [he]
  obtain ⟨hsessions, hloads, hobjects, htasks⟩ := forgetLoading_sessions w x.sessionId owner
  -- the load is found under its id for as long as the call that made it waits
  have hother {l' : Nat} {x' : Load} (hl : mapGet x'.sessionId w.memory.loadingSessions = some l')
      (hne : l' = l → owner = false) :
      mapGet x'.sessionId (w.forgetLoading x.sessionId owner).memory.loadingSessions = some l' := by
    rw [mapGet_forgetLoading, if_neg, hl]
    rintro ⟨rfl, hid⟩
    obtain ⟨y, hy, -, hlisted⟩ := h.owned i t ht l hp
    rw [hx] at hy
    cases hy
    rw [hid, hlisted] at hl
    exact absurd (hne (Option.some.inj hl).symm) (by rintro ⟨⟩)
  have hown {K : String → Prop} {r : Nat} (ho : Own K r w.memory) :
      Own K r (w.forgetLoading x.sessionId owner).memory := by
    simpa only [Own, Memory.session?, hobjects] using ho
  refine ⟨⟨fun k r hr => ?_, fun k l' hl => ?_, fun l' x' r hx' hr => ?_⟩, ?_, fun l' x' stored hx' hp' _ => ?_,
    fun j t' hj => ?_, fun j t' hj => ?_⟩
  · exact hown (h.keyed.sessions k r (hsessions ▸ hr))
  · simp only [World.await, World.onTask, mapGet_forgetLoading] at hl
    split_ifs at hl
    obtain ⟨x', hx', hid⟩ := h.keyed.loading k l' hl
    exact ⟨x', by rwa [← hloads] at hx', hid⟩
  · exact hown (h.keyed.loads l' x' r (hloads ▸ hx') hr)
  · simpa only [World.await, World.onTask, hsessions] using h.keys
  · obtain ⟨hl, hs⟩ := h.creating l' x' stored (hloads ▸ hx') hp' (by rintro ⟨⟩)
    refine ⟨hother hl ?_, by simpa only [World.await, World.onTask, hsessions] using hs⟩
    rintro rfl
    have hxx : x = x' := Option.some.inj (hx.symm.trans (hloads ▸ hx'))
    exact absurd (hxx ▸ hp') (hc stored)
  · rcases task_of_await hj with ⟨-, hj⟩ | ⟨rfl, rfl, t'', ht'', hk⟩
    · have hplaced := h.placed j t' (htasks ▸ hj)
      refine ⟨fun r hr => hown (hplaced.session r hr), fun l' hl' => ?_⟩
      obtain ⟨x', hx', hK⟩ := hplaced.load l' hl'
      exact ⟨x', by rwa [← hloads] at hx', hK⟩
    · rw [htasks, ht] at ht''
      cases ht''
      have hpl' : t.point.load = some l := by
        rw [hp]
        split_ifs <;> rfl
      obtain ⟨y, hy, hK⟩ := (h.placed j t ht).load l hpl'
      rw [hx] at hy
      cases hy
      rw [concerns_of_key hk] at hK
      refine ⟨fun r hr => ?_, fun l' hl' => ?_⟩
      · have hl := h.keyed.loads l x r hx (by rw [hps r hr]; rfl)
        exact hown (hl.mono (fun k he => he ▸ hK))
      · rw [hpl] at hl'
        cases hl'
  · rcases task_of_await hj with ⟨hne, hj⟩ | ⟨rfl, rfl, -⟩
    · intro l' hl'
      obtain ⟨x', hx', ho, hlisted⟩ := h.owned j t' (htasks ▸ hj) l' hl'
      refine ⟨x', by rwa [← hloads] at hx', ho, hother hlisted ?_⟩
      rintro rfl
      rw [hx] at hx'
      cases hx'
      cases howner : owner with
      | false => rfl
      | true =>
          rw [howner, if_pos rfl] at hp
          obtain ⟨y, hy, hy', -⟩ := h.owned i t ht l' hp
          rw [hx] at hy
          cases hy
          exact absurd (ho.symm.trans hy') hne
    · exact owns_of_load hpl

end Loads

section Steps

theorem registered_received (h : Registered w.memory w.tasks) (command : ClientCommand) :
    Registered (w.received options command).memory (w.received options command).tasks := by
  have hcalled : Registered w.memory (w.tasks ++ [⟨command, .entered, []⟩]) := by
    refine h.follows (follows_refl _) (fun j t hj => ?_)
    rcases Nat.lt_or_ge j w.tasks.length with hlt | hge
    · rw [List.getElem?_append_left hlt] at hj
      exact Or.inl hj
    · rw [List.getElem?_append_right hge] at hj
      have ht := List.mem_singleton.mp (List.mem_of_getElem? hj)
      exact Or.inr (ht ▸ ⟨placed_of_idle rfl rfl, owns_of_load rfl⟩)
  simp only [World.received]
  split_ifs
  · have hevent : Ordinary Nobody Nobody (fun _ => False) w.tasks.length _ (World.reply w.tasks.length none
        (.requestError command.requestId "WORKSPACE_MISMATCH" "命令不属于当前 worker 工作区")
        { w with tasks := w.tasks ++ [⟨command, .entered, []⟩] }) :=
      ordinary_reply _ _ _ nofun
    exact registered_of_goes (w := { w with tasks := _ }) hcalled List.getElem?_concat_length
      (goes_await (P := fun _ p => p = .done false) hevent rfl)
      (fun u p hp => hp ▸ ⟨placed_of_idle rfl rfl, owns_of_load rfl⟩)
  · exact registered_evicting (w := { w with tasks := _ }) hcalled _ _

/-- The ids that a call may touch are those that it is about. -/
theorem scope_concerns (h : Registered w.memory w.tasks) {t : Task} (ht : w.tasks[i]? = some t) :
    Scope t.concerns w t := by
  refine ⟨fun k hk k' hk' => ?_, h.placed i t ht, fun hc r hr => ?_⟩
  · rw [hk] at hk'
    exact Option.some.inj hk'
  · obtain ⟨e, he, rfl⟩ := List.mem_map.mp hr
    have hown := h.keyed.sessions e.1 e.2 ((mapGet_eq_some h.keys).mpr he)
    refine hown.mono (fun k _ k' hk' => ?_)
    cases hreq : t.command.request <;> simp [hreq, Request.configures, Request.sessionId] at hc hk'

variable (options) in
/-- A new session is stored, and loaded like any other. -/
theorem goes_createSession (hk : Keyed w.memory) (i : Nat) :
    Goes A B (· = options.createSessionId w.storage.drawn) i
      ((w.onStorage (fun s =>
        { s with
          sessions := mapSet (options.createSessionId w.storage.drawn) .created s.sessions
          drawn := s.drawn + 1
          deleted := s.deleted.filter (fun id => id ≠ options.createSessionId w.storage.drawn) })).act i)
      (w.createSession options i) (Plain (· = options.createSessionId w.storage.drawn) i) :=
  goes_loadRuntime (K := (· = options.createSessionId w.storage.drawn)) (w := World.act i (w.onStorage _)) hk rfl _

/-- The store forgets a session, if it has it. -/
theorem deleteStored_cases (w : World) (i : Nat) (sessionId requestId : String) :
    mapGet sessionId w.storage.sessions = none ∧ w.deleteStored i sessionId requestId =
        w.fail i (some sessionId) requestId "SESSION_NOT_FOUND" "会话不存在" ∨
      mapGet sessionId w.storage.sessions ≠ none ∧ w.deleteStored i sessionId requestId =
        ((((w.onStorage (.deleteSession sessionId)).act i).reply i none (.sessionDeleted sessionId)).accept i
          none requestId).finish i := by
  rw [World.deleteStored]
  cases mapGet sessionId w.storage.sessions with
  | none => exact Or.inl ⟨rfl, rfl⟩
  | some stored => exact Or.inr ⟨nofun, rfl⟩

theorem goes_forgotten (w : World) (sessionId requestId : String) :
    Goes A B K i ((w.onStorage (.deleteSession sessionId)).act i)
      (((((w.onStorage (.deleteSession sessionId)).act i).reply i none (.sessionDeleted sessionId)).accept i
        none requestId).finish i) (Plain K i) :=
  goes_finish ((ordinary_reply _ _ _ nofun).trans (ordinary_accept _ _ _))

theorem Plain.at (h : Plain K i u p) : Placed K u.memory p ∧ Owns i u.memory p := ⟨h.placed, h.owns⟩

theorem Holding.at (h : Holding K r u p) : Placed K u.memory p ∧ Owns i u.memory p := by
  refine ⟨h.placed, ?_⟩
  rintro l rfl
  exact absurd h.holds nofun

theorem registered_deleteStored (h : Registered w.memory w.tasks) {t : Task} (ht : w.tasks[i]? = some t)
    (sessionId requestId : String) : Registered (w.deleteStored i sessionId requestId).memory
      (w.deleteStored i sessionId requestId).tasks := by
  rcases deleteStored_cases w i sessionId requestId with ⟨-, he⟩ | ⟨-, he⟩
  · rw [he]
    exact registered_of_goes (A := Nobody) (B := Nobody) h ht (goes_fail w _ _ _ _) (fun u p hp => hp.at)
  · rw [he]
    have hg := goes_forgotten (A := Nobody) (B := Nobody) (K := t.concerns) (i := i) w sessionId requestId
    refine registered_of_goes ?_ ?_ hg (fun u p hp => hp.at)
    · exact h
    · exact ht

/-- The session is taken from the map, and its runtime closed. -/
def World.drop (sessionId : String) (r : Nat) (w : World) : World :=
  w.onMemory (fun m => ({ m with sessions := mapDelete sessionId m.sessions }.unsubscribe r).close r)

theorem follows_dropped (w : World) (sessionId : String) (r : Nat) :
    Follows w.memory (w.drop sessionId r).memory :=
  follows_drop (fun r' s hs => objects_unsubscribe r _ r' s hs) rfl rfl rfl

/-- A session that is deleted is closed first, unless it is busy. -/
theorem deleteSession_cases (w : World) (i : Nat) (sessionId requestId : String) :
    mapGet sessionId w.memory.sessions = none ∧ w.deleteSession i sessionId requestId =
        w.deleteStored i sessionId requestId ∨
      (∃ r, mapGet sessionId w.memory.sessions = some r ∧ w.memory.isBusy r = true ∧
        w.deleteSession i sessionId requestId = w.fail i (some sessionId) requestId "SESSION_BUSY"
          "会话正在运行或等待审批，无法删除") ∨
      ∃ r, mapGet sessionId w.memory.sessions = some r ∧ w.memory.isBusy r = false ∧
        w.deleteSession i sessionId requestId = ((w.drop sessionId r).act i).await i .deleting := by
  rw [World.deleteSession]
  cases mapGet sessionId w.memory.sessions with
  | none => exact Or.inl ⟨rfl, rfl⟩
  | some r =>
      simp only
      split_ifs with hb
      · exact Or.inr (Or.inl ⟨r, rfl, hb, rfl⟩)
      · exact Or.inr (Or.inr ⟨r, rfl, by simpa using hb, rfl⟩)

theorem registered_turn (h : Registered w.memory w.tasks) {t : Task} (ht : w.tasks[i]? = some t)
    (hturn : Turn options t.concerns i t w w') : Registered w'.memory w'.tasks := by
  cases hturn with
  | still => exact h
  | stops => exact registered_await h rfl rfl
  | evicts now candidates => exact registered_evicting h now candidates
  | goes hp hg => exact registered_of_goes h ht hg (fun u p hp => hp.at)
  | settles l owner hp => exact registered_loaded h ht hp
  | begins r hp hr hb => exact registered_of_goes h ht hb.2 (fun u p hp => hp.1.at)
  | holds r hp hg => exact registered_of_goes h ht hg (fun u p hp => hp.at)
  | releases r hp hg => exact registered_of_goes h ht hg (fun u p hp => hp.at)
  | creates hp hl hr =>
      have hg := goes_createSession (A := Nobody) (B := Nobody) options h.keyed i
      refine registered_of_goes (t := t) ?_ ?_ hg (fun u p hp => ⟨hp.placed.mono (fun k _ k' hk' => ?_), hp.owns⟩)
      · exact h
      · exact ht
      · rw [hr] at hk'
        cases hk'
  | deletes sessionId hp hl hr =>
      rcases deleteSession_cases w i sessionId t.command.requestId with ⟨-, he⟩ | ⟨r, -, -, he⟩ | ⟨r, -, -, he⟩
      · rw [he]
        exact registered_deleteStored h ht _ _
      · rw [he]
        exact registered_of_goes (A := Nobody) (B := Nobody) h ht (goes_fail w _ _ _ _) (fun u p hp => hp.at)
      · rw [he]
        refine registered_await (w := (w.drop sessionId r).act i) ?_ rfl rfl
        exact h.follows (follows_dropped w sessionId r) (fun j t hj => Or.inl hj)
  | deleted sessionId hp hr => exact registered_deleteStored h ht _ _
  | ends hp =>
      rw [World.ended]
      split_ifs
      · exact registered_await (w := w.onStorage _) h rfl rfl
      · exact registered_await h rfl rfl

variable (options) in
theorem registered_restarted (w : World) :
    Registered (w.restarted options).memory (w.restarted options).tasks := by
  have hdone (j : Nat) (t : Task) (hj : (w.restarted options).tasks[j]? = some t) :
      t.point.session = none ∧ t.point.load = none := by
    simp only [World.restarted, List.getElem?_map, Option.map_eq_some_iff] at hj
    obtain ⟨t', -, rfl⟩ := hj
    cases hp : t'.point <;> simp [hp, Point.session, Point.load]
  have hfailed (l : Nat) (x : Load) (hx : (w.restarted options).memory.loads[l]? = some x) :
      x.point = .failed := by
    simp only [World.restarted, List.getElem?_map, Option.map_eq_some_iff] at hx
    obtain ⟨x', -, rfl⟩ := hx
    rfl
  refine ⟨⟨(by rintro _ _ ⟨⟩), (by rintro _ _ ⟨⟩), fun l x r hx hr => ?_⟩, List.nodup_nil, fun l x stored hx hp _ => ?_,
    fun j t hj => placed_of_idle (hdone j t hj).1 (hdone j t hj).2, fun j t hj => owns_of_load (hdone j t hj).2⟩
  · rw [hfailed l x hx] at hr
    cases hr
  · rw [hfailed l x hx] at hp
    cases hp

/-- What a runtime tells its listeners is written down at most. -/
theorem registered_of_listener (h : Registered w.memory w.tasks)
    (ho : Ordinary A B K w.tasks.length w u) : Registered u.memory u.tasks := by
  refine h.follows (follows_of_ordinary ho) (fun j t hj => Or.inl ?_)
  by_cases hjl : j = w.tasks.length
  · have hkey := ho.key
    rw [← hjl, hj, hjl, List.getElem?_eq_none le_rfl] at hkey
    cases hkey
  · exact (ho.others j hjl).symm.trans hj

theorem registered_resumed (h : Registered w.memory w.tasks) (i : Nat) (answer : Answer) :
    Registered (w.resumed options i answer).memory (w.resumed options i answer).tasks := by
  cases ht : w.tasks[i]? with
  | none => simpa only [World.resumed, ht] using h
  | some t => exact registered_turn h ht (turn_resumed options h.keyed ht (scope_concerns h ht) answer)

theorem ordinary_traceTold (w : World) (r : Nat) (trace : Option (String × String)) :
    Ordinary Nobody Nobody (fun _ => False) i w (w.traced r trace) := ordinary_traced w r trace

theorem ordinary_workStateTold (w : World) (r : Nat) (contextState workState : String) :
    Ordinary Nobody Nobody (fun _ => False) i w
      ((w.updateRuntime r (fun runtime => { runtime with contextState, workState })).workStateChanged r) :=
  Ordinary.trans (ordinary_updateRuntime w (fun runtime => { runtime with contextState, workState })
    (Or.inr (fun _ => ⟨id, id⟩))) (ordinary_workStateChanged _ r)

theorem registered_next (w : World) (step : ServiceStep) (h : Registered w.memory w.tasks) :
    Registered (ServiceStep.next options w step).memory (ServiceStep.next options w step).tasks := by
  cases step with
  | clock now => exact h.follows (follows_clock _ now) (fun j t hj => Or.inl hj)
  | received command => exact registered_received h command
  | resumed i answer => exact registered_resumed h i answer
  | created l runtime => exact registered_created h l runtime
  | trimmed l ok => exact registered_trimmed h l ok
  | traced r trace => exact registered_of_listener h (ordinary_traceTold w r trace)
  | workStateChanged r contextState workState =>
      exact registered_of_listener h (ordinary_workStateTold w r contextState workState)
  | restarted => exact registered_restarted options w

theorem registered_start (sessions : List (String × StoredSession)) (settings : String → Option Settings)
    (journal : Option String → List ServerEvent) (requests : Option String → List (String × List ServerEvent))
    (profiles : List WorkspaceProfile) :
    Registered (World.start options sessions settings journal requests profiles).memory
      (World.start options sessions settings journal requests profiles).tasks :=
  ⟨⟨fun k r hr => (by cases hr), fun k l hl => (by cases hl), fun l x r hx _ => (by cases hx)⟩, List.nodup_nil,
    fun l x stored hx _ _ => (by cases hx), fun j t hj => (by cases hj), fun j t hj => (by cases hj)⟩

end Steps

end Kross.Service

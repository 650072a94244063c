import Kross.Run
import Kross.Service.Registry

namespace Kross.Service

open Run
open Mutation (mapGet mapSet mapDelete mapGet_mapSet mapGet_filter mapGet_eq_some)

/-- What evicts: a call of `handle`, or a load. -/
inductive Place
  | call (i : Nat)
  | load (l : Nat)
  deriving DecidableEq

def LoadPoint.candidates : LoadPoint → List Nat
  | .evicting _ _ candidates => candidates
  | _ => []

/-- The candidates that a suspended eviction has not yet looked at. -/
def queue (m : Memory) (tasks : List Task) : Place → List Nat
  | .call i => (tasks[i]?.map (fun t => t.point.candidates)).getD []
  | .load l => (m.loads[l]?.map (fun x => x.point.candidates)).getD []

/-- Candidates that are registered and idle. -/
structure Waiting (m : Memory) (candidates : List Nat) : Prop where
  nodup : candidates.Nodup
  idle : ∀ r ∈ candidates, ∃ s, m.session? r = some s ∧ mapGet s.id m.sessions = some r ∧ s.busy = false

/-- Nothing was evicted that was busy, and no candidate of an eviction is busy. -/
structure EvictionSound (m : Memory) (tasks : List Task) : Prop where
  unclosed : ∀ k r, mapGet k m.sessions = some r → r ∉ m.closed
  closed : m.closed.Nodup
  bounded : ∀ r ∈ m.closed, r < m.objects.length
  waiting : ∀ p, Waiting m (queue m tasks p)
  holding : ∀ (j : Nat) (t : Task) r, tasks[j]? = some t → t.point.holds = some r →
    ∃ s, m.session? r = some s ∧ s.abortController = true
  single : ∀ (j j' : Nat) (t t' : Task) r, tasks[j]? = some t → tasks[j']? = some t' →
    t.point.holds = some r → t'.point.holds = some r → j = j'
  safe : ∀ e ∈ m.evicted, e.closed.busy = false ∧ ∀ s, e.entry = some s → s.busy = false

variable {A B : Nat → Prop} {K : String → Prop} {i r : Nat} {m m' : Memory} {tasks tasks' : List Task}
  {c : List Nat} {u w w' : World} {p : Point} {options : WorkerServiceOptions}

theorem candidates_of_begun (h : p.begun = true) : p.candidates = [] := by
  cases p <;> first | rfl | cases h

theorem queue_of_await {p : Point} (w : World) (i : Nat) (q : Place) :
    queue (w.await i p).memory (w.await i p).tasks q = queue w.memory w.tasks q ∨
      q = .call i ∧ queue (w.await i p).memory (w.await i p).tasks q = p.candidates := by
  cases q with
  | load l => exact Or.inl rfl
  | call j =>
      simp only [queue, getElem?_await]
      split_ifs with hj
      · subst hj
        cases w.tasks[i]? with
        | none => exact Or.inl rfl
        | some t => exact Or.inr ⟨rfl, rfl⟩
      · exact Or.inl rfl

theorem queue_of_ordinary (ho : Ordinary A B K i w u) (q : Place) :
    queue u.memory w.tasks q = queue w.memory w.tasks q ∨ queue u.memory w.tasks q = [] := by
  cases q with
  | call j => exact Or.inl rfl
  | load l =>
      cases hx : u.memory.loads[l]? with
      | none =>
          right
          simp only [queue, hx, Option.map_none, Option.getD_none]
      | some x =>
          rcases ho.newLoads l x hx with hw | ⟨-, ⟨stored, hp⟩, -, -⟩
          · left
            simp only [queue, hx, hw]
          · right
            simp only [queue, hx, Option.map_some, hp, LoadPoint.candidates, Option.getD_some]

theorem waiting_nil (m : Memory) : Waiting m [] := ⟨List.nodup_nil, fun _ h => nomatch h⟩

theorem Waiting.steady (h : Waiting m c) (hm : Steady A B m m') (hB : ∀ r ∈ c, ¬ B r) : Waiting m' c := by
  refine ⟨h.nodup, fun r hr => ?_⟩
  obtain ⟨s, hs, hk, hb⟩ := h.idle r hr
  have hlt : r < m'.objects.length := by
    rw [hm.length]
    exact (List.getElem?_eq_some_iff.mp hs).1
  have hs' : m'.session? r = some m'.objects[r] := List.getElem?_eq_getElem hlt
  obtain ⟨t, ht, hid, -, hbusy⟩ := hm.kept r _ hs'
  rw [hs] at ht
  cases ht
  refine ⟨_, hs', by rw [hid, hm.sessions, hk], ?_⟩
  cases hb' : m'.objects[r].busy with
  | false => rfl
  | true =>
      rw [hbusy (hB r hr) hb'] at hb
      cases hb

/-- A call gets on: what it sets no other call has set, and no eviction waits for what
it makes busy. -/
theorem sound_of_goes (h : EvictionSound w.memory w.tasks) (ho : Ordinary A B K i w u)
    (hb : p.begun = true)
    (hA : ∀ r, A r → ∀ (j : Nat) t, j ≠ i → w.tasks[j]? = some t → t.point.holds ≠ some r)
    (hB : ∀ r, B r → ∀ q, r ∉ queue w.memory w.tasks q)
    (hh : ∀ r, p.holds = some r → (∃ s, u.memory.session? r = some s ∧ s.abortController = true) ∧
      ∀ (j : Nat) t, j ≠ i → w.tasks[j]? = some t → t.point.holds ≠ some r) :
    EvictionSound (u.await i p).memory (u.await i p).tasks := by
  have hm := ho.memory
  have hqueue (q : Place) : queue u.memory (u.await i p).tasks q = queue w.memory w.tasks q ∨
      queue u.memory (u.await i p).tasks q = [] := by
    cases q with
    | load l => exact queue_of_ordinary ho (.load l)
    | call j =>
        by_cases hj : j = i
        · right
          simp only [queue, getElem?_await, if_pos hj.symm, Option.map_map]
          cases u.tasks[j]? with
          | none => rfl
          | some t => simp [candidates_of_begun hb]
        · left
          simp only [queue, getElem?_await, if_neg (Ne.symm hj), ho.others j hj]
  refine ⟨fun k r hr => ?_, ?_, fun r hr => ?_, fun q => ?_, fun j t r hj hr => ?_,
    fun j j' t t' r hj hj' hr hr' => ?_, ?_⟩
  · rw [World.await, World.onTask, hm.sessions] at hr
    rw [World.await, World.onTask, hm.closed]
    exact h.unclosed k r hr
  · rw [World.await, World.onTask, hm.closed]
    exact h.closed
  · rw [World.await, World.onTask, hm.closed] at hr
    rw [World.await, World.onTask, hm.length]
    exact h.bounded r hr
  · rcases hqueue q with hq | hq
    · rw [World.await, World.onTask] at hq ⊢
      rw [hq]
      exact (h.waiting q).steady hm (fun r hr hBr => hB r hBr q hr)
    · rw [World.await, World.onTask] at hq ⊢
      rw [hq]
      exact waiting_nil _
  · rcases task_of_goes ho hj with ⟨hne, hj⟩ | ⟨rfl, rfl, -⟩
    · obtain ⟨s, hs, ha⟩ := h.holding j t r hj hr
      have hlt : r < u.memory.objects.length := by
        rw [hm.length]
        exact (List.getElem?_eq_some_iff.mp hs).1
      have hs' : u.memory.session? r = some u.memory.objects[r] := List.getElem?_eq_getElem hlt
      obtain ⟨s₀, hs₀, -, habort, -⟩ := hm.kept r _ hs'
      rw [hs] at hs₀
      cases hs₀
      exact ⟨_, hs', (habort (fun hAr => hA r hAr j t hne hj hr)).trans ha⟩
    · exact (hh r hr).1
  · rcases task_of_goes ho hj with ⟨hne, hjw⟩ | ⟨rfl, rfl, -⟩
    · rcases task_of_goes ho hj' with ⟨-, hjw'⟩ | ⟨rfl, rfl, -⟩
      · exact h.single j j' t t' r hjw hjw' hr hr'
      · exact absurd hr ((hh r hr').2 j t hne hjw)
    · rcases task_of_goes ho hj' with ⟨hne', hjw'⟩ | ⟨rfl, -, -⟩
      · exact absurd hr' ((hh r hr).2 j' t' hne' hjw')
      · rfl
  · rw [World.await, World.onTask, hm.evicted]
    exact h.safe

/-- A call waits for something else, and holds nothing. -/
theorem sound_await (h : EvictionSound w.memory w.tasks) (hh : p.holds = none)
    (hw : Waiting w.memory p.candidates) :
    EvictionSound (w.await i p).memory (w.await i p).tasks := by
  refine ⟨h.unclosed, h.closed, h.bounded, fun q => ?_, fun j t r hj hr => ?_,
    fun j j' t t' r hj hj' hr hr' => ?_, h.safe⟩
  · rcases queue_of_await (p := p) w i q with hq | ⟨-, hq⟩
    · rw [hq]
      exact h.waiting q
    · rw [hq]
      exact hw
  · rcases task_of_await hj with ⟨-, hj⟩ | ⟨-, rfl, -⟩
    · exact h.holding j t r hj hr
    · rw [hh] at hr
      cases hr
  · rcases task_of_await hj with ⟨-, hj⟩ | ⟨-, rfl, -⟩
    · rcases task_of_await hj' with ⟨-, hj'⟩ | ⟨-, rfl, -⟩
      · exact h.single j j' t t' r hj hj' hr hr'
      · rw [hh] at hr'
        cases hr'
    · rw [hh] at hr
      cases hr

section Evictions

theorem session?_evict {s : ActiveSession} (hs : m.session? r = some s) {r' : Nat} (hr : r' ≠ r) :
    (m.evict r).session? r' = m.session? r' := by
  simp only [Memory.evict, hs]
  have hu := session?_update r r' (fun s => { s with subscribed := false })
    { m with
      sessions := mapDelete s.id m.sessions
      evicted := m.evicted ++ [⟨s, (mapGet s.id m.sessions).bind m.session?⟩] }
  rw [if_neg (Ne.symm hr)] at hu
  exact hu

theorem mapGet_evict {s : ActiveSession} (hs : m.session? r = some s) (k : String) :
    mapGet k (m.evict r).sessions = if k = s.id then none else mapGet k m.sessions := by
  have hf := mapGet_filter k (fun k => k ≠ s.id) m.sessions
  have he : (m.evict r).sessions = mapDelete s.id m.sessions := by
    simp only [Memory.evict, hs]
    rfl
  rw [he, mapDelete, hf]
  by_cases hk : k = s.id <;> simp [hk]

theorem Waiting.evict (h : Waiting m c) {s : ActiveSession} (hs : m.session? r = some s)
    (hr : mapGet s.id m.sessions = some r) (hc : r ∉ c) : Waiting (m.evict r) c := by
  refine ⟨h.nodup, fun r' hr' => ?_⟩
  obtain ⟨s', hs', hk', hb'⟩ := h.idle r' hr'
  have hne : r' ≠ r := by
    rintro rfl
    exact hc hr'
  refine ⟨s', (session?_evict hs hne).trans hs', ?_, hb'⟩
  rw [mapGet_evict hs, if_neg, hk']
  intro he
  rw [he, hr] at hk'
  exact hne (Option.some.inj hk').symm

theorem closed_evict {s : ActiveSession} (hs : m.session? r = some s) :
    (m.evict r).closed = m.closed ++ [r] ∧ (m.evict r).loads = m.loads ∧
      (m.evict r).objects.length = m.objects.length ∧
      (m.evict r).evicted = m.evicted ++ [⟨s, (mapGet s.id m.sessions).bind m.session?⟩] := by
  simp only [Memory.evict, hs]
  exact ⟨rfl, rfl, by simp [Memory.close, Memory.unsubscribe, Memory.update], rfl⟩

/-- An idle session is evicted that no other eviction waits for. -/
theorem sound_evict (h : EvictionSound m tasks) (hk : Keyed m) {s : ActiveSession} (hs : m.session? r = some s)
    (hr : mapGet s.id m.sessions = some r) (hidle : s.busy = false) (hq : ∀ q, r ∉ queue m tasks q) :
    EvictionSound (m.evict r) tasks := by
  obtain ⟨hclosed, hloads, hlength, hevicted⟩ := closed_evict hs
  refine ⟨fun k r' hr' => ?_, ?_, fun r' hr' => ?_, fun q => ?_, fun j t r' hj hr' => ?_, h.single, ?_⟩
  · rw [mapGet_evict hs] at hr'
    split_ifs at hr' with hne
    rw [hclosed, List.mem_append, List.mem_singleton, not_or]
    refine ⟨h.unclosed k r' hr', ?_⟩
    rintro rfl
    obtain ⟨s', hs', rfl⟩ := hk.sessions k r' hr'
    rw [hs] at hs'
    cases hs'
    exact hne rfl
  · rw [hclosed]
    exact h.closed.append (List.nodup_singleton r) (by simpa using h.unclosed _ _ hr)
  · rw [hclosed, List.mem_append, List.mem_singleton] at hr'
    rw [hlength]
    rcases hr' with hr' | rfl
    · exact h.bounded r' hr'
    · exact (List.getElem?_eq_some_iff.mp hs).1
  · have he : queue (m.evict r) tasks q = queue m tasks q := by cases q <;> simp only [queue, hloads]
    rw [he]
    exact (h.waiting q).evict hs hr (hq q)
  · obtain ⟨s', hs', ha⟩ := h.holding j t r' hj hr'
    have hne : r' ≠ r := by
      rintro rfl
      rw [hs] at hs'
      cases hs'
      simp [ActiveSession.busy, ha] at hidle
    exact ⟨s', (session?_evict hs hne).trans hs', ha⟩
  · rw [hevicted]
    intro e he
    rcases List.mem_append.mp he with he | he
    · exact h.safe e he
    · cases List.mem_singleton.mp he
      refine ⟨hidle, fun s' hs' => ?_⟩
      simp only [hr, Option.bind_some, hs, Option.some.injEq] at hs'
      exact hs' ▸ hidle

theorem Waiting.rest {skipped rest : List Nat} (h : Waiting m (skipped ++ r :: rest)) :
    Waiting m rest ∧ r ∉ rest := by
  obtain ⟨-, hrest, -⟩ := List.nodup_append.mp h.nodup
  obtain ⟨hr, hnodup⟩ := List.nodup_cons.mp hrest
  refine ⟨⟨hnodup, fun r' hr' => h.idle r' ?_⟩, hr⟩
  exact List.mem_append_right _ (List.mem_cons_of_mem _ hr')

/-- The candidate that an eviction takes next. -/
def nextEvicted (options : WorkerServiceOptions) (now : Nat) (m : Memory) (candidates : List Nat) :
    Option Nat := candidates.find? (fun r => expendable options now r m)

variable (options) in
/-- An eviction goes on up to its next await: it takes a session that no other eviction
waits for, or it has come to its end. -/
theorem sound_evictLoop (now : Nat) (h : EvictionSound m tasks) (hk : Keyed m) (hc : Waiting m c)
    (hq : ∀ r, nextEvicted options now m c = some r → ∀ q, r ∉ queue m tasks q) :
    EvictionSound (m.evictLoop options now c).1 tasks ∧
      Waiting (m.evictLoop options now c).1 ((m.evictLoop options now c).2.getD []) := by
  rcases evictLoop_cases options now m c with he | ⟨skipped, r, rest, rfl, hn, he⟩
  · rw [he]
    exact ⟨h, waiting_nil m⟩
  · rw [he]
    obtain ⟨s, hs, hr, hidle⟩ := hc.idle r (List.mem_append_right _ List.mem_cons_self)
    obtain ⟨hrest, hnot⟩ := hc.rest
    exact ⟨sound_evict h hk hs hr hidle (hq r hn), hrest.evict hs hr hnot⟩

theorem await_await (w : World) (i : Nat) (p p' : Point) : (w.await i p).await i p' = w.await i p' := by
  simp only [World.await, World.onTask, List.modify_modify_eq]
  rfl

theorem sound_evicting (h : EvictionSound w.memory w.tasks) (hk : Keyed w.memory) {now : Nat}
    (hc : Waiting w.memory c)
    (hq : ∀ r, nextEvicted options now w.memory c = some r → ∀ q, q ≠ .call i →
      r ∉ queue w.memory w.tasks q) :
    EvictionSound (w.evicting options i now c).memory (w.evicting options i now c).tasks := by
  -- the call is set on its way before its eviction goes on
  have hentered : EvictionSound w.memory (w.await i .entered).tasks :=
    sound_await (p := .entered) h rfl (waiting_nil _)
  have hfree (r : Nat) (hr : nextEvicted options now w.memory c = some r) (q : Place) :
      r ∉ queue w.memory (w.await i .entered).tasks q := by
    rcases queue_of_await (p := .entered) w i q with he | ⟨-, he⟩
    · by_cases hqi : q = .call i
      · subst hqi
        simp only [queue, getElem?_await, if_true]
        cases w.tasks[i]? <;> simp [Point.candidates]
      · exact he ▸ hq r hr q hqi
    · exact he ▸ (by rintro ⟨⟩)
  obtain ⟨hsound, hrest⟩ := sound_evictLoop options now hentered hk hc hfree
  have hawait (p : Point) (hholds : p.holds = none)
      (hwaiting : Waiting (w.memory.evictLoop options now c).1 p.candidates) :
      EvictionSound (({ w with memory := (w.memory.evictLoop options now c).1 } : World).await i p).memory
        (({ w with memory := (w.memory.evictLoop options now c).1 } : World).await i p).tasks := by
    have hpoint := sound_await (i := i) (p := p) (w := ({ w with memory := (w.memory.evictLoop options now c).1 } :
      World).await i .entered) hsound hholds hwaiting
    rwa [await_await] at hpoint
  simp only [World.evicting]
  cases hm : (w.memory.evictLoop options now c).2 with
  | none => exact hawait .entered rfl (waiting_nil _)
  | some rest =>
      rw [hm] at hrest
      exact hawait (.evicting now rest) rfl hrest

end Evictions

section Loads

theorem queue_of_setLoad (w : World) (l : Nat) (point : LoadPoint) (q : Place) :
    queue (w.setLoad l point).memory w.tasks q = queue w.memory w.tasks q ∨
      q = .load l ∧ queue (w.setLoad l point).memory w.tasks q = point.candidates := by
  cases q with
  | call j => exact Or.inl rfl
  | load l' =>
      simp only [queue, setLoad_loads]
      split_ifs with hl
      · subst hl
        cases w.memory.loads[l]? with
        | none => exact Or.inl rfl
        | some x => exact Or.inr ⟨rfl, rfl⟩
      · exact Or.inl rfl

theorem sound_setLoad (h : EvictionSound w.memory w.tasks) {l : Nat} {point : LoadPoint}
    (hw : Waiting w.memory point.candidates) :
    EvictionSound (w.setLoad l point).memory (w.setLoad l point).tasks := by
  refine ⟨h.unclosed, h.closed, h.bounded, fun q => ?_, h.holding, h.single, h.safe⟩
  have hwaiting : Waiting w.memory (queue (w.setLoad l point).memory w.tasks q) := by
    rcases queue_of_setLoad w l point q with hq | ⟨-, hq⟩
    · rw [hq]
      exact h.waiting q
    · rw [hq]
      exact hw
  exact ⟨hwaiting.nodup, hwaiting.idle⟩

theorem evict_loads (m : Memory) (r : Nat) (loads : List Load) :
    ({ m with loads } : Memory).evict r = { m.evict r with loads } := by
  simp only [Memory.evict, Memory.session?]
  split <;> rfl

/-- An eviction does not look at the loads. -/
theorem evictLoop_loads (m : Memory) (now : Nat) (c : List Nat) (loads : List Load) :
    ({ m with loads } : Memory).evictLoop options now c =
      ({ (m.evictLoop options now c).1 with loads }, (m.evictLoop options now c).2) := by
  induction c with
  | nil => rfl
  | cons r rest ih =>
      have he : expendable options now r { m with loads } = expendable options now r m := rfl
      simp only [Memory.evictLoop, he, evict_loads, ih]
      split_ifs <;> rfl

theorem loads_evictLoop (m : Memory) (now : Nat) (c : List Nat) :
    (m.evictLoop options now c).1.loads = m.loads := by
  rcases evictLoop_cases options now m c with he | ⟨_, r, _, -, -, he⟩
  · rw [he]
  · rw [he, Memory.evict]
    split <;> rfl

theorem trim_failed (w : World) (l r now : Nat) (c : List Nat) :
    (w.setLoad l .failed).trim options l r now c = w.trim options l r now c := by
  have hm : (w.setLoad l .failed).memory =
      { w.memory with loads := w.memory.loads.modify l (fun x => { x with point := .failed }) } := rfl
  simp only [World.trim, hm, evictLoop_loads]
  simp only [World.setLoad, World.onMemory, List.modify_modify_eq, loads_evictLoop]
  rfl

theorem sound_trim (h : EvictionSound w.memory w.tasks) (hk : Keyed w.memory) {l r₀ now : Nat}
    (hc : Waiting w.memory c)
    (hq : ∀ r, nextEvicted options now w.memory c = some r → ∀ q, q ≠ .load l →
      r ∉ queue w.memory w.tasks q) :
    EvictionSound (w.trim options l r₀ now c).memory (w.trim options l r₀ now c).tasks := by
  rw [← trim_failed]
  -- the load is set on its way before its eviction goes on
  have hfailed : EvictionSound (w.setLoad l .failed).memory w.tasks := sound_setLoad h (waiting_nil _)
  have hfree (r : Nat) (hr : nextEvicted options now (w.setLoad l .failed).memory c = some r) (q : Place) :
      r ∉ queue (w.setLoad l .failed).memory w.tasks q := by
    rcases queue_of_setLoad w l .failed q with he | ⟨-, he⟩
    · by_cases hql : q = .load l
      · subst hql
        simp only [queue, setLoad_loads, if_true]
        cases w.memory.loads[l]? <;> simp [LoadPoint.candidates]
      · exact he ▸ hq r hr q hql
    · exact he ▸ (fun hm => nomatch hm)
  have hkeyed : Keyed (w.setLoad l .failed).memory := by
    refine ⟨hk.sessions, fun k l' hl => ?_, fun l' x r hx hr => ?_⟩
    · obtain ⟨x, hx, hid⟩ := hk.loading k l' hl
      obtain ⟨x', hx', hid', -⟩ := load_of_setLoad l .failed hx
      exact ⟨x', hx', hid'.trans hid⟩
    · rw [setLoad_loads] at hx
      split_ifs at hx
      · obtain ⟨x', hx', rfl⟩ := Option.map_eq_some_iff.mp hx
        cases hr
      · exact hk.loads l' x r hx hr
  obtain ⟨hsound, hrest⟩ := sound_evictLoop options now hfailed hkeyed
    ⟨hc.nodup, hc.idle⟩ hfree
  rw [World.trim]
  refine sound_setLoad (w := { w.setLoad l .failed with memory := _ }) hsound ?_
  rcases hm : ((w.setLoad l .failed).memory.evictLoop options now c).2 with _ | rest
  · exact waiting_nil _
  · rw [hm] at hrest
    exact hrest

/-- A session that is registered is new. -/
theorem sound_register (h : EvictionSound w.memory w.tasks) (sessionId : String)
    (hn : mapGet sessionId w.memory.sessions = none) (session : ActiveSession) :
    EvictionSound (w.register sessionId session).memory w.tasks := by
  refine ⟨fun k r hr => ?_, h.closed, fun r hr => ?_, fun q => ⟨(h.waiting q).nodup, fun r hr => ?_⟩,
    fun j t r hj hr => ?_, h.single, h.safe⟩
  · rcases mapGet_register hr with ⟨-, rfl⟩ | hr
    · exact fun hm => absurd (h.bounded _ hm) (lt_irrefl _)
    · exact h.unclosed k r hr
  · simp only [World.register, World.onMemory, List.length_append, List.length_singleton]
    exact Nat.lt_succ_of_lt (h.bounded r hr)
  · obtain ⟨s, hs, hk, hb⟩ := (h.waiting q).idle r hr
    refine ⟨s, session?_register hs, ?_, hb⟩
    have hne : sessionId ≠ s.id := by
      rintro rfl
      rw [hn] at hk
      cases hk
    simp only [World.register, World.onMemory, mapGet_mapSet, if_neg hne]
    exact hk
  · obtain ⟨s, hs, ha⟩ := h.holding j t r hj hr
    exact ⟨s, session?_register hs, ha⟩

/-- The candidates of an eviction are registered and idle when they are listed. -/
theorem waiting_candidates (h : Keyed m) (hkeys : (m.sessions.map Prod.fst).Nodup) (exclude : Option String) :
    Waiting m (m.candidates exclude) := by
  have hperm := List.perm_insertionSort (fun a b =>
    ((m.session? a).map ActiveSession.lastUsedAt).getD 0 ≤
      ((m.session? b).map ActiveSession.lastUsedAt).getD 0)
    ((m.sessions.map Prod.snd).filter (fun r => (m.session? r).any (fun s =>
      some s.id ≠ exclude && !s.busy)))
  have hregistered {e : String × Nat} (he : e ∈ m.sessions) :
      ∃ s, m.session? e.2 = some s ∧ s.id = e.1 ∧ mapGet s.id m.sessions = some e.2 := by
    have hget := (mapGet_eq_some hkeys (p := e.1) (v := e.2)).mpr he
    obtain ⟨s, hs, hid⟩ := h.sessions e.1 e.2 hget
    exact ⟨s, hs, hid, by rw [hid, hget]⟩
  refine ⟨hperm.nodup_iff.mpr (List.Nodup.filter _ ?_), fun r hr => ?_⟩
  · refine List.Nodup.map_on (fun e he e' he' heq => ?_) (List.Nodup.of_map _ hkeys)
    obtain ⟨s, hs, hid, -⟩ := hregistered he
    obtain ⟨s', hs', hid', -⟩ := hregistered he'
    rw [heq, hs'] at hs
    cases hs
    exact Prod.ext (hid.symm.trans hid') heq
  · obtain ⟨hm, hidle⟩ := List.mem_filter.mp (hperm.mem_iff.mp hr)
    obtain ⟨e, he, rfl⟩ := List.mem_map.mp hm
    obtain ⟨s, hs, -, hget⟩ := hregistered he
    refine ⟨s, hs, hget, ?_⟩
    simp only [hs, Option.any_some, Bool.and_eq_true, Bool.not_eq_true'] at hidle
    exact hidle.2

end Loads

section Steps

variable (options)

/-- The eviction that a step begins or goes on with: where it is, the memory it finds,
since when it runs, and with which candidates. -/
def ServiceStep.eviction (w : World) : ServiceStep → Option (Place × Memory × Nat × List Nat)
  | .received command =>
      if command.workspaceId.any (fun id => id ≠ options.workspaceId) then none
      else some (.call w.tasks.length, w.memory, w.memory.clock, w.memory.candidates command.request.sessionId)
  | .resumed i (.resolved _ _) => match w.tasks[i]? with
    | some ⟨_, .evicting now candidates, _⟩ => some (.call i, w.memory, now, candidates)
    | _ => none
  | .created l (some runtime) => match w.memory.loads[l]? with
    | some ⟨sessionId, _, .creating stored⟩ =>
        let registered := (w.register sessionId (w.restoredSession sessionId stored runtime)).memory
        some (.load l, registered, w.memory.clock, registered.candidates (some sessionId))
    | _ => none
  | .trimmed l true => match w.memory.loads[l]? with
    | some ⟨_, _, .evicting _ now candidates⟩ => some (.load l, w.memory, now, candidates)
    | _ => none
  | _ => none

/-- While an eviction is suspended, no session that it has yet to look at starts to run
or is deleted, and no other eviction takes it. -/
structure EvictionAllowed (w : World) (step : ServiceStep) : Prop where
  runs : ∀ i answer t r, step = .resumed i answer → w.tasks[i]? = some t → t.point = .got r →
    t.command.request.runs = true → ∀ q, r ∉ queue w.memory w.tasks q
  deletes : ∀ i answer t sessionId r, step = .resumed i answer → w.tasks[i]? = some t → t.point = .entered →
    t.looksUp w → t.command.request = .delete sessionId → mapGet sessionId w.memory.sessions = some r →
      ∀ q, r ∉ queue w.memory w.tasks q
  evicts : ∀ place m now candidates r, step.eviction options w = some (place, m, now, candidates) →
    nextEvicted options now m candidates = some r → ∀ q, q ≠ place → r ∉ queue w.memory w.tasks q

variable {options}

theorem busy_of_holds (h : EvictionSound w.memory w.tasks) {t : Task} (ht : w.tasks[i]? = some t)
    (hr : t.point.holds = some r) (q : Place) : r ∉ queue w.memory w.tasks q := by
  intro hm
  obtain ⟨s, hs, ha⟩ := h.holding i t r ht hr
  obtain ⟨s', hs', -, hb⟩ := (h.waiting q).idle r hm
  rw [hs] at hs'
  cases hs'
  simp [ActiveSession.busy, ha] at hb

theorem others_hold (h : EvictionSound w.memory w.tasks) {t : Task} (ht : w.tasks[i]? = some t)
    (hr : t.point.holds = some r) (j : Nat) (t' : Task) (hj : j ≠ i) (ht' : w.tasks[j]? = some t') :
    t'.point.holds ≠ some r := fun hr' => hj (h.single j i t' t r ht' ht hr' hr)

theorem sound_fail (h : EvictionSound w.memory w.tasks) (sessionId : Option String)
    (requestId code message : String) :
    EvictionSound (w.fail i sessionId requestId code message).memory
      (w.fail i sessionId requestId code message).tasks := by
  have ho : Ordinary Nobody Nobody (fun _ => False) i w
      (w.reply i sessionId (.requestError requestId code message)) := ordinary_reply w _ _ nofun
  exact sound_of_goes h ho rfl (fun _ => False.elim) (fun _ => False.elim) nofun

theorem sound_deleteStored (h : EvictionSound w.memory w.tasks) (sessionId requestId : String) :
    EvictionSound (w.deleteStored i sessionId requestId).memory
      (w.deleteStored i sessionId requestId).tasks := by
  rcases deleteStored_cases w i sessionId requestId with ⟨-, he⟩ | ⟨-, he⟩
  · rw [he]
    exact sound_fail h _ _ _ _
  · obtain ⟨u, p, ho, hu, hp⟩ := goes_forgotten (A := Nobody) (B := Nobody) (K := fun _ => False) (i := i) w
      sessionId requestId
    rw [he, hu]
    refine sound_of_goes ?_ ho hp.begun (fun _ => False.elim) (fun _ => False.elim) (fun r hr => ?_)
    · exact h
    · rw [hp.holds] at hr
      cases hr

theorem sound_drop (h : EvictionSound w.memory w.tasks) (hk : Keyed w.memory) {sessionId : String}
    (hr : mapGet sessionId w.memory.sessions = some r) (hb : w.memory.isBusy r = false)
    (hq : ∀ q, r ∉ queue w.memory w.tasks q) :
    EvictionSound (w.drop sessionId r).memory w.tasks := by
  obtain ⟨s, hs, rfl⟩ := hk.sessions sessionId r hr
  have hidle : s.busy = false := by simpa [Memory.isBusy, hs] using hb
  have hsound := sound_evict h hk hs hr hidle hq
  have hmemory : (w.drop s.id r).memory = { w.memory.evict r with evicted := w.memory.evicted } := by
    simp only [World.drop, World.onMemory, Memory.evict, hs]
    rfl
  rw [hmemory]
  exact ⟨hsound.unclosed, hsound.closed, hsound.bounded, fun q => ⟨(hsound.waiting q).nodup,
    (hsound.waiting q).idle⟩, hsound.holding, hsound.single, h.safe⟩

theorem sound_loaded (h : EvictionSound w.memory w.tasks) (l : Nat) (owner : Bool) :
    EvictionSound (w.loaded i l owner).memory (w.loaded i l owner).tasks := by
  rcases loaded_cases w i l owner with he | ⟨x, p, -, -, he, hb, -, hh, -⟩
  · rwa [he]
  · rw [he]
    obtain ⟨hsessions, hloads, hobjects, htasks⟩ := forgetLoading_sessions w x.sessionId owner
    refine sound_await ?_ hh (candidates_of_begun hb ▸ waiting_nil _)
    rw [htasks]
    have hmemory : ∃ loadingSessions, (w.forgetLoading x.sessionId owner).memory =
        { w.memory with loadingSessions } := by
      rw [World.forgetLoading]
      split_ifs
      · exact ⟨_, rfl⟩
      · exact ⟨_, rfl⟩
    obtain ⟨loadingSessions, hm⟩ := hmemory
    rw [hm]
    exact ⟨h.unclosed, h.closed, h.bounded, fun q => ⟨(h.waiting q).nodup, (h.waiting q).idle⟩, h.holding,
      h.single, h.safe⟩

/-- A call goes on in one of the ways that it may. -/
theorem sound_turn (hreg : Registered w.memory w.tasks) (h : EvictionSound w.memory w.tasks) {t : Task}
    (ht : w.tasks[i]? = some t) {answer : Answer}
    (ha : EvictionAllowed options w (.resumed i answer))
    (hevicts : ∀ now candidates, t.point = .evicting now candidates → w' = w.evicting options i now candidates →
      ∀ r, nextEvicted options now w.memory candidates = some r → ∀ q, q ≠ .call i →
        r ∉ queue w.memory w.tasks q)
    (hturn : Turn options K i t w w') : EvictionSound w'.memory w'.tasks := by
  cases hturn with
  | still => exact h
  | stops => exact sound_await h rfl (waiting_nil _)
  | evicts now candidates hp =>
      have hc : Waiting w.memory candidates := by
        have hw := h.waiting (.call i)
        simpa only [queue, ht, Option.map_some, hp, Point.candidates, Option.getD_some] using hw
      exact sound_evicting h hreg.keyed hc (hevicts now candidates hp rfl)
  | goes hp hg =>
      obtain ⟨u, p, ho, rfl, hplain⟩ := hg
      refine sound_of_goes h ho hplain.begun (fun _ => False.elim) (fun _ => False.elim) (fun r hr => ?_)
      rw [hplain.holds] at hr
      cases hr
  | settles l owner hp => exact sound_loaded h l owner
  | begins r hp hr hb =>
      obtain ⟨hfree, u, p, ho, rfl, hholding, habort⟩ := hb
      have hothers (j : Nat) (t' : Task) (ht' : w.tasks[j]? = some t') : t'.point.holds ≠ some r := by
        intro hr'
        obtain ⟨s, hs, ha⟩ := h.holding j t' r ht' hr'
        simp [hs, ha] at hfree
      refine sound_of_goes h ho hholding.begun (fun r' hr' j t' _ ht' => hr' ▸ hothers j t' ht') ?_ ?_
      · rintro r' rfl
        exact ha.runs i answer t r' rfl ht hp hr
      · intro r' hr'
        rw [hholding.holds] at hr'
        cases hr'
        obtain ⟨s, hs, hsa⟩ := (Option.any_eq_true _ _).mp habort
        exact ⟨⟨s, hs, hsa⟩, fun j t' _ ht' => hothers j t' ht'⟩
  | holds r hp hg =>
      obtain ⟨u, p, ho, rfl, hholding⟩ := hg
      refine sound_of_goes h ho hholding.begun (fun _ => False.elim) ?_ ?_
      · rintro r' rfl
        exact busy_of_holds h ht hp
      · intro r' hr'
        rw [hholding.holds] at hr'
        cases hr'
        obtain ⟨s, hs, hsa⟩ := h.holding i t r ht hp
        obtain ⟨s', hs', -⟩ := ordinary_session ho hs
        obtain ⟨s₀, hs₀, -, habort, -⟩ := ho.memory.kept r s' hs'
        rw [hs] at hs₀
        cases hs₀
        exact ⟨⟨s', hs', (habort id).trans hsa⟩, others_hold h ht hp⟩
  | releases r hp hg =>
      obtain ⟨u, p, ho, rfl, hplain⟩ := hg
      refine sound_of_goes h ho hplain.begun ?_ ?_ (fun r' hr' => ?_)
      · rintro r' rfl
        exact others_hold h ht hp
      · rintro r' rfl
        exact busy_of_holds h ht hp
      · rw [hplain.holds] at hr'
        cases hr'
  | creates hp hl hr =>
      obtain ⟨u, p, ho, hu, hplain⟩ := goes_createSession (A := Nobody) (B := Nobody) options
        hreg.keyed i
      rw [hu]
      refine sound_of_goes ?_ ho hplain.begun (fun _ => False.elim) (fun _ => False.elim) (fun r hr => ?_)
      · exact h
      · rw [hplain.holds] at hr
        cases hr
  | deletes sessionId hp hl hr =>
      rcases deleteSession_cases w i sessionId t.command.requestId with ⟨-, he⟩ | ⟨r, -, -, he⟩ | ⟨r, hr', hb, he⟩
      · rw [he]
        exact sound_deleteStored h _ _
      · rw [he]
        exact sound_fail h _ _ _ _
      · rw [he]
        refine sound_await (w := (w.drop sessionId r).act i) ?_ rfl (waiting_nil _)
        exact sound_drop h hreg.keyed hr' hb (ha.deletes i answer t sessionId r rfl ht hp hl hr hr')
  | deleted sessionId hp hr => exact sound_deleteStored h _ _
  | ends hp =>
      rw [World.ended]
      split_ifs
      · exact sound_await (w := w.onStorage _) h rfl (waiting_nil _)
      · exact sound_await h rfl (waiting_nil _)

theorem eviction_resumed {now : Nat} {text : String} {runtime : Runtime} {t : Task} (ht : w.tasks[i]? = some t)
    (hp : t.point = .evicting now c) :
    ServiceStep.eviction options w (.resumed i (.resolved text runtime)) =
      some (.call i, w.memory, now, c) := by
  obtain ⟨command, point, events⟩ := t
  cases hp
  simp only [ServiceStep.eviction, ht]

variable (options) in
theorem resumed_evicting {now : Nat} {answer : Answer} {t : Task} (ht : w.tasks[i]? = some t)
    (hp : t.point = .evicting now c) (hne : ∀ text runtime, answer ≠ .resolved text runtime) :
    w.resumed options i answer = w.await i (.done false) ∨ w.resumed options i answer = w := by
  unfold World.resumed
  simp only [ht, hp]
  cases answer with
  | resolved text runtime => exact absurd rfl (hne text runtime)
  | rejected => exact Or.inl rfl
  | usage | streamed => exact Or.inr rfl

theorem sound_resumed (hreg : Registered w.memory w.tasks) (h : EvictionSound w.memory w.tasks) {answer : Answer}
    (ha : EvictionAllowed options w (.resumed i answer)) :
    EvictionSound (w.resumed options i answer).memory (w.resumed options i answer).tasks := by
  cases ht : w.tasks[i]? with
  | none => simpa only [World.resumed, ht] using h
  | some t =>
      have hturn := turn_resumed options hreg.keyed ht (scope_concerns hreg ht) answer
      by_cases hr : ∃ text runtime, answer = .resolved text runtime
      · obtain ⟨text, runtime, rfl⟩ := hr
        refine sound_turn hreg h ht ha (fun now c hp _ r hr q hq => ?_) hturn
        exact ha.evicts _ _ _ _ r (eviction_resumed ht hp) hr q hq
      · push Not at hr
        by_cases hp : ∃ now c, t.point = .evicting now c
        · obtain ⟨now, c, hp⟩ := hp
          rcases resumed_evicting options ht hp hr with he | he
          · rw [he]
            exact sound_await h rfl (waiting_nil _)
          · rwa [he]
        · push Not at hp
          exact sound_turn hreg h ht ha (fun now c hp' _ => absurd hp' (hp now c)) hturn

theorem sound_received (hreg : Registered w.memory w.tasks) (h : EvictionSound w.memory w.tasks)
    {command : ClientCommand} (ha : EvictionAllowed options w (.received command)) :
    EvictionSound (w.received options command).memory (w.received options command).tasks := by
  have hget (j : Nat) (t : Task) (hj : (w.tasks ++ [⟨command, .entered, []⟩])[j]? = some t) :
      w.tasks[j]? = some t ∨ t.point = .entered := by
    rcases Nat.lt_or_ge j w.tasks.length with hlt | hge
    · rw [List.getElem?_append_left hlt] at hj
      exact Or.inl hj
    · rw [List.getElem?_append_right hge] at hj
      exact Or.inr (List.mem_singleton.mp (List.mem_of_getElem? hj) ▸ rfl)
  have hqueue (q : Place) : queue w.memory (w.tasks ++ [⟨command, .entered, []⟩]) q =
      queue w.memory w.tasks q ∨ queue w.memory (w.tasks ++ [⟨command, .entered, []⟩]) q = [] := by
    cases q with
    | load l => exact Or.inl rfl
    | call j =>
        cases hj : (w.tasks ++ [⟨command, .entered, []⟩])[j]? with
        | none => exact Or.inr (by simp only [queue, hj, Option.map_none, Option.getD_none])
        | some t =>
            rcases hget j t hj with ht | hp
            · exact Or.inl (by simp only [queue, hj, ht])
            · refine Or.inr ?_
              simp only [queue, hj, Option.map_some, hp, Point.candidates, Option.getD_some]
  have hcalled : EvictionSound w.memory (w.tasks ++ [⟨command, .entered, []⟩]) := by
    refine ⟨h.unclosed, h.closed, h.bounded, fun q => ?_, fun j t r hj hr => ?_,
      fun j j' t t' r hj hj' hr hr' => ?_, h.safe⟩
    · rcases hqueue q with he | he
      · rw [he]
        exact h.waiting q
      · rw [he]
        exact waiting_nil _
    · rcases hget j t hj with hj | hp
      · exact h.holding j t r hj hr
      · rw [hp] at hr
        cases hr
    · rcases hget j t hj with hj | hp
      · rcases hget j' t' hj' with hj' | hp'
        · exact h.single j j' t t' r hj hj' hr hr'
        · rw [hp'] at hr'
          cases hr'
      · rw [hp] at hr
        cases hr
  simp only [World.received]
  split_ifs with hm
  · have ho : Ordinary Nobody Nobody (fun _ => False) w.tasks.length _ (World.reply w.tasks.length none
        (.requestError command.requestId "WORKSPACE_MISMATCH" "命令不属于当前 worker 工作区")
        { w with tasks := w.tasks ++ [⟨command, .entered, []⟩] }) := ordinary_reply _ _ _ (by rintro _ _ ⟨⟩)
    have hreplied := sound_of_goes (w := { w with tasks := w.tasks ++ [⟨command, .entered, []⟩] }) (p := .ending) hcalled ho rfl
      (fun _ => False.elim) (fun _ => False.elim) (by rintro _ ⟨⟩)
    have hdone := sound_await (i := w.tasks.length) (p := .done false) hreplied rfl (waiting_nil _)
    rwa [await_await] at hdone
  · refine sound_evicting (w := { w with tasks := w.tasks ++ [⟨command, .entered, []⟩] }) hcalled hreg.keyed
      (waiting_candidates hreg.keyed hreg.keys _) (fun r hr q hq => ?_)
    have he : ServiceStep.eviction options w (.received command) =
        some (.call w.tasks.length, w.memory, w.memory.clock, w.memory.candidates command.request.sessionId) := by
      simp only [ServiceStep.eviction, if_neg hm]
    rcases hqueue q with hq' | hq'
    · exact hq' ▸ ha.evicts _ _ _ _ r he hr q hq
    · exact hq' ▸ (by rintro ⟨⟩)

theorem sound_created (hreg : Registered w.memory w.tasks) (h : EvictionSound w.memory w.tasks) {l : Nat}
    {runtime : Option Runtime} (ha : EvictionAllowed options w (.created l runtime)) :
    EvictionSound (w.created options l runtime).memory (w.created options l runtime).tasks := by
  cases hx : w.memory.loads[l]? with
  | none => simpa only [World.created, hx] using h
  | some x =>
      cases hp : x.point with
      | creating stored =>
          cases runtime with
          | none =>
              obtain ⟨sessionId, owner, point⟩ := x
              cases hp
              simp only [World.created, hx]
              exact sound_setLoad h (waiting_nil _)
          | some runtime =>
              rw [created_eq options hx hp]
              have hregister := registered_register hreg hx hp
                (w.restoredSession x.sessionId stored runtime) rfl
              refine sound_trim (sound_register h _ (hreg.creating l x stored hx hp (by rintro ⟨⟩)).2 _) hregister.keyed
                (waiting_candidates hregister.keyed hregister.keys _) (fun r hr q hq => ?_)
              refine ha.evicts _ _ _ _ r ?_ hr q hq
              obtain ⟨sessionId, owner, point⟩ := x
              cases hp
              simp only [ServiceStep.eviction, hx]
      | evicting | loaded | failed =>
          obtain ⟨sessionId, owner, point⟩ := x
          cases hp
          simpa only [World.created, hx] using h

theorem sound_trimmed (hreg : Registered w.memory w.tasks) (h : EvictionSound w.memory w.tasks) {l : Nat}
    {ok : Bool} (ha : EvictionAllowed options w (.trimmed l ok)) :
    EvictionSound (w.trimmed options l ok).memory (w.trimmed options l ok).tasks := by
  cases hx : w.memory.loads[l]? with
  | none => simpa only [World.trimmed, hx] using h
  | some x =>
      obtain ⟨sessionId, owner, point⟩ := x
      cases point with
      | evicting r now candidates =>
          simp only [World.trimmed, hx]
          split_ifs with hok
          · have hc : Waiting w.memory candidates := by
              have hw := h.waiting (.load l)
              simpa only [queue, hx, Option.map_some, LoadPoint.candidates, Option.getD_some] using hw
            refine sound_trim h hreg.keyed hc (fun r' hr' q hq => ?_)
            refine ha.evicts _ _ _ _ r' ?_ hr' q hq
            simp only [hok, ServiceStep.eviction, hx]
          · exact sound_setLoad h (waiting_nil _)
      | creating | loaded | failed => simpa only [World.trimmed, hx] using h

/-- What a runtime tells its listeners changes no session. -/
theorem sound_of_listener (h : EvictionSound w.memory w.tasks)
    (ho : Ordinary Nobody Nobody K w.tasks.length w u) : EvictionSound u.memory u.tasks := by
  have htasks : u.tasks = w.tasks := by
    refine List.ext_getElem? (fun j => ?_)
    by_cases hj : j = w.tasks.length
    · have hkey := ho.key
      rw [← hj, hj, List.getElem?_eq_none le_rfl, Option.map_none, Option.map_eq_none_iff] at hkey
      rw [hj, hkey, List.getElem?_eq_none le_rfl]
    · exact ho.others j hj
  have hgoes := sound_of_goes (p := .ending) h ho rfl (fun _ => False.elim) (fun _ => False.elim) nofun
  have hawait : u.await w.tasks.length .ending = u := by
    simp only [World.await, World.onTask]
    rw [List.modify_eq_self (by rw [htasks])]
  rwa [hawait] at hgoes

theorem sound_restarted (h : EvictionSound w.memory w.tasks) :
    EvictionSound (w.restarted options).memory (w.restarted options).tasks := by
  have hdone (j : Nat) (t : Task) (hj : (w.restarted options).tasks[j]? = some t) :
      t.point.holds = none ∧ t.point.candidates = [] := by
    simp only [World.restarted, List.getElem?_map, Option.map_eq_some_iff] at hj
    obtain ⟨t', -, rfl⟩ := hj
    cases hp : t'.point <;> simp [hp, Point.holds, Point.candidates]
  have hqueue (q : Place) : queue (w.restarted options).memory (w.restarted options).tasks q = [] := by
    cases q with
    | call j =>
        cases hj : (w.restarted options).tasks[j]? with
        | none => simp only [queue, hj, Option.map_none, Option.getD_none]
        | some t => simp only [queue, hj, Option.map_some, (hdone j t hj).2, Option.getD_some]
    | load l =>
        simp only [queue, World.restarted, List.getElem?_map, Option.map_map]
        cases w.memory.loads[l]? <;> rfl
  refine ⟨(by rintro _ _ ⟨⟩), h.closed, fun r hr => ?_, fun q => hqueue q ▸ waiting_nil _, fun j t r hj hr => ?_,
    fun j j' t t' r hj _ hr _ => ?_, h.safe⟩
  · simpa only [World.restarted, List.length_map] using h.bounded r hr
  · rw [(hdone j t hj).1] at hr
    cases hr
  · rw [(hdone j t hj).1] at hr
    cases hr

theorem sound_next (step : ServiceStep) (ha : EvictionAllowed options w step)
    (hreg : Registered w.memory w.tasks) (h : EvictionSound w.memory w.tasks) :
    EvictionSound (ServiceStep.next options w step).memory (ServiceStep.next options w step).tasks := by
  cases step with
  | clock now => exact ⟨h.unclosed, h.closed, h.bounded, fun q => ⟨(h.waiting q).nodup, (h.waiting q).idle⟩,
      h.holding, h.single, h.safe⟩
  | received command => exact sound_received hreg h ha
  | resumed i answer => exact sound_resumed hreg h ha
  | created l runtime => exact sound_created hreg h ha
  | trimmed l ok => exact sound_trimmed hreg h ha
  | traced r trace => exact sound_of_listener h (ordinary_traceTold w r trace)
  | workStateChanged r contextState workState =>
      exact sound_of_listener h (ordinary_workStateTold w r contextState workState)
  | restarted => exact sound_restarted h

end Steps

/-- No runtime was closed twice, and every session was idle when it was evicted. -/
def EvictionsSafe (w : World) : Prop :=
  w.memory.closed.Nodup ∧
    ∀ e ∈ w.memory.evicted, e.closed.busy = false ∧ ∀ s, e.entry = some s → s.busy = false

/-- As long as what a suspended eviction has yet to look at neither starts to run nor is
taken otherwise, evictions are safe. -/
theorem evictions_safe (sessions : List (String × StoredSession)) (settings : String → Option Settings)
    (journal : Option String → List ServerEvent) (requests : Option String → List (String × List ServerEvent))
    (profiles : List WorkspaceProfile) {steps : List ServiceStep}
    (h : Along (ServiceStep.next options) (EvictionAllowed options)
      (World.start options sessions settings journal requests profiles) steps) :
    EvictionsSafe (after (ServiceStep.next options)
      (World.start options sessions settings journal requests profiles) steps) := by
  have hstart : EvictionSound (World.start options sessions settings journal requests profiles).memory
      (World.start options sessions settings journal requests profiles).tasks := by
    refine ⟨fun k r hr => (by cases hr), List.nodup_nil, fun r hr => (by cases hr), fun q => ?_,
      fun j t r hj => (by cases hj), fun j j' t t' r hj => (by cases hj), fun e he => (by cases he)⟩
    cases q <;> exact waiting_nil _
  have hsound := h.keeps (I := fun w => Registered w.memory w.tasks ∧ EvictionSound w.memory w.tasks)
    (fun w step ha hI => ⟨registered_next w step hI.1, sound_next step ha hI.1 hI.2⟩)
    ⟨registered_start sessions settings journal requests profiles, hstart⟩
  exact ⟨hsound.2.closed, hsound.2.safe⟩

/-- No eviction is suspended. -/
def World.quiet (w : World) : Bool :=
  w.tasks.all (fun t => t.point.candidates.isEmpty) && w.memory.loads.all (fun x => x.point.candidates.isEmpty)

theorem queue_of_quiet (h : w.quiet = true) (q : Place) : queue w.memory w.tasks q = [] := by
  simp only [World.quiet, Bool.and_eq_true, List.all_eq_true, List.isEmpty_iff] at h
  cases q with
  | call i =>
      cases ht : w.tasks[i]? with
      | none => simp only [queue, ht, Option.map_none, Option.getD_none]
      | some t => simp only [queue, ht, Option.map_some, h.1 t (List.mem_of_getElem? ht), Option.getD_some]
  | load l =>
      cases hx : w.memory.loads[l]? with
      | none => simp only [queue, hx, Option.map_none, Option.getD_none]
      | some x => simp only [queue, hx, Option.map_some, h.2 x (List.mem_of_getElem? hx), Option.getD_some]

theorem allowed_of_quiet (h : w.quiet = true) (step : ServiceStep) : EvictionAllowed options w step := by
  refine ⟨fun i answer t r _ _ _ _ q => ?_, fun i answer t sessionId r _ _ _ _ _ _ q => ?_,
    fun place m now c r _ _ q _ => ?_⟩
  all_goals
    rw [queue_of_quiet h q]
    exact List.not_mem_nil

def plainOptions : WorkerServiceOptions :=
  ⟨"w", none, 1, 5, none, fun n => toString n, fun ids id => ids.find? (fun k => k = id)⟩

def plainRuntime : Runtime := ⟨none, none, "", "", none⟩

def startWith (ids : List String) : World :=
  .start plainOptions (ids.map (fun id => (id, .created))) (fun _ => none) (fun _ => []) (fun _ => []) []

def settled : Answer := .resolved "" plainRuntime

/-- The call `i` loads a session, which gets the place `i`, and starts a run on it. -/
def inputSteps (i : Nat) (id : String) : List ServiceStep :=
  [.received ⟨"first " ++ id, none, .input id "go" .auto false⟩, .resumed i settled,
    .created i (some plainRuntime), .resumed i settled, .resumed i settled]

/-- A run has ended, and its session is idle for long enough when a command comes. -/
def idleRun : List ServiceStep :=
  inputSteps 0 "a" ++ [.resumed 0 settled, .clock 10, .received ⟨"status", none, .status⟩]

theorem evictions_safe_idleRun :
    (after (ServiceStep.next plainOptions) (startWith ["a"]) idleRun).memory.closed = [0] ∧
      EvictionsSafe (after (ServiceStep.next plainOptions) (startWith ["a"]) idleRun) := by
  refine ⟨rfl, evictions_safe _ _ _ _ _ ?_⟩
  iterate 8 refine along_cons.mpr ⟨allowed_of_quiet rfl _, ?_⟩
  exact along_nil

/-- Three sessions run, and two of them are done. The first is being closed when a new
run starts on the second. -/
def evictedRun : List ServiceStep :=
  inputSteps 0 "a" ++ inputSteps 1 "b" ++ inputSteps 2 "c" ++ [.resumed 0 settled, .resumed 1 settled,
    .received ⟨"status", none, .status⟩, .received ⟨"second b", none, .input "b" "go on" .auto false⟩,
    .resumed 4 settled, .resumed 4 settled, .resumed 3 settled]

theorem evicted_while_running :
    ¬ EvictionsSafe (after (ServiceStep.next plainOptions) (startWith ["a", "b", "c"]) evictedRun) := by
  intro h
  have hbusy : (after (ServiceStep.next plainOptions) (startWith ["a", "b", "c"])
      evictedRun).memory.evicted.map (fun e => e.closed.busy) = [false, true] := rfl
  have hall : ∀ b ∈ (after (ServiceStep.next plainOptions) (startWith ["a", "b", "c"])
      evictedRun).memory.evicted.map (fun e => e.closed.busy), b = false := by
    intro b hb
    obtain ⟨e, he, rfl⟩ := List.mem_map.mp hb
    exact (h.2 e he).1
  rw [hbusy] at hall
  exact absurd (hall true (by decide)) (by decide)

end Kross.Service

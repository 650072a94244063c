import Kross.Service.Deletion

namespace Kross.Service

open Run
open Mutation (mapGet mapSet mapDelete mem_keys_iff)

section Recent

/-- What stands among the last 500 of `ledger` is still found in `index`, with no more
behind it. -/
def Recents (ledger index : List String) : Prop :=
  ∀ y pre post, ledger = pre ++ y :: post → y ∉ post → post.length < 500 →
    ∃ before behind, index = before ++ y :: behind ∧ behind.length ≤ post.length

theorem recents_refl (ledger : List String) : Recents ledger ledger :=
  fun _ pre post h _ _ => ⟨pre, post, h, le_rfl⟩

theorem recents_nil (index : List String) : Recents [] index := by
  intro y pre post h
  simp at h

/-- An entry that is completed anew moves to the end, and at most 500 are retained. -/
theorem recents_complete {ledger index : List String} (h : Recents ledger index) (x : String) :
    Recents (ledger ++ [x]) ((index.filter (fun y => y ≠ x) ++ [x]).drop
      ((index.filter (fun y => y ≠ x) ++ [x]).length - 500)) := by
  intro y pre post he hy hlen
  rcases List.eq_nil_or_concat post with rfl | ⟨post, z, rfl⟩
  · obtain ⟨-, hyx⟩ := List.append_inj' he rfl
    cases List.singleton_inj.mp hyx
    refine ⟨(index.filter (fun y => y ≠ x)).drop ((index.filter (fun y => y ≠ x) ++ [x]).length - 500), [],
      ?_, le_rfl⟩
    rw [List.drop_append_of_le_length]
    rw [List.length_append, List.length_singleton]
    omega
  · rw [List.concat_eq_append, ← List.cons_append, ← List.append_assoc] at he
    obtain ⟨hledger, hz⟩ := List.append_inj' he rfl
    cases List.singleton_inj.mp hz
    rw [List.concat_eq_append, List.length_append, List.length_singleton] at hlen
    rw [List.concat_eq_append, List.mem_append, List.mem_singleton, not_or] at hy
    obtain ⟨before, behind, rfl, hbehind⟩ := h y pre post hledger hy.1 (by omega)
    have hkept : (before ++ y :: behind).filter (fun y => y ≠ x) ++ [x] =
        before.filter (fun y => y ≠ x) ++ y :: (behind.filter (fun y => y ≠ x) ++ [x]) := by
      rw [List.filter_append, List.filter_cons_of_pos (by simpa using hy.2), List.append_assoc, List.cons_append]
    have hfilter := List.length_filter_le (fun y => decide (y ≠ x)) behind
    rw [hkept]
    refine ⟨(before.filter (fun y => y ≠ x)).drop
      ((before.filter (fun y => y ≠ x) ++ y :: (behind.filter (fun y => y ≠ x) ++ [x])).length - 500),
      behind.filter (fun y => y ≠ x) ++ [x], ?_, ?_⟩
    · rw [List.drop_append_of_le_length]
      simp only [List.length_append, List.length_cons, List.length_nil]
      omega
    · simp only [List.concat_eq_append, List.length_append, List.length_singleton]
      omega

theorem mem_of_recents {ledger index : List String} (h : Recents ledger index) {y : String}
    (hy : y ∈ ledger.drop (ledger.length - 500)) : y ∈ index := by
  obtain ⟨late, early, he, hnot⟩ := List.eq_append_cons_of_mem (List.mem_reverse.mpr hy)
  have hdrop : ledger.drop (ledger.length - 500) = early.reverse ++ y :: late.reverse := by
    rw [← List.reverse_reverse (ledger.drop _), he, List.reverse_append, List.reverse_cons, List.append_assoc]
    rfl
  have hlen : (ledger.drop (ledger.length - 500)).length ≤ 500 := by
    rw [List.length_drop]
    omega
  have hsplit : ledger = (ledger.take (ledger.length - 500) ++ early.reverse) ++ y :: late.reverse := by
    rw [List.append_assoc, ← hdrop, List.take_append_drop]
  obtain ⟨before, behind, rfl, -⟩ := h y _ _ hsplit (by rwa [List.mem_reverse]) (by
    rw [hdrop, List.length_append, List.length_cons] at hlen
    omega)
  exact List.mem_append_right _ List.mem_cons_self

end Recent

/-- The request was completed for its session, and at most 499 since. -/
def Storage.recently (sessionId : Option String) (requestId : String) (s : Storage) : Prop :=
  requestId ∈ (s.ledger sessionId).drop ((s.ledger sessionId).length - 500)

def Indexed (s : Storage) : Prop := ∀ sessionId, Recents (s.ledger sessionId) ((s.requests sessionId).map Prod.fst)

theorem findCompletedRequest_of_recently {s : Storage} (h : Indexed s) {sessionId : Option String}
    {requestId : String} (hr : s.recently sessionId requestId) :
    s.findCompletedRequest sessionId requestId ≠ none :=
  mem_keys_iff.mp (mem_of_recents (h sessionId) hr)

theorem indexed_completeRequest {s : Storage} (h : Indexed s) (sessionId : Option String) (requestId : String)
    (events : List ServerEvent) : Indexed (s.completeRequest sessionId requestId events) := by
  intro k
  by_cases hk : k = sessionId
  · subst hk
    have hkeys : (mapDelete requestId (s.requests k) ++ [(requestId, events)]).map Prod.fst =
        ((s.requests k).map Prod.fst).filter (fun y => y ≠ requestId) ++ [requestId] := by
      rw [List.map_append, mapDelete, List.filter_map]
      rfl
    have hlen := congrArg List.length hkeys
    rw [List.length_map] at hlen
    simp only [Storage.completeRequest, Function.update_self, List.map_drop, hkeys, hlen]
    exact recents_complete (h k) requestId
  · simp only [Storage.completeRequest, Function.update_of_ne hk]
    exact h k

theorem indexed_deleteSession {s : Storage} (h : Indexed s) (sessionId : String) :
    Indexed (s.deleteSession sessionId) := by
  intro k
  by_cases hk : k = some sessionId
  · subst hk
    simp only [Storage.deleteSession, Function.update_self]
    exact recents_nil _
  · simp only [Storage.deleteSession, Function.update_of_ne hk]
    exact h k

/-- The call is past its look-up, and may be done. -/
def Point.past : Point → Bool
  | .done _ => true
  | p => p.begun

/-- No two calls of one request, other than to resume, have changed anything. -/
def AtMostOnce (w : World) : Prop :=
  ∀ i ∈ w.effects, ∀ j ∈ w.effects, ∀ t t' : Task, w.tasks[i]? = some t → w.tasks[j]? = some t' →
    t.key = t'.key → t.command.request.isResume = false → i = j

/-- Of the calls of one request at most one is under way or has changed anything. -/
structure OnceSound (w : World) : Prop where
  indexed : Indexed w.storage
  past : ∀ i ∈ w.effects, ∃ t, w.tasks[i]? = some t ∧ t.point.past = true
  alone : ∀ (i j : Nat) (t t' : Task), w.tasks[i]? = some t → w.tasks[j]? = some t' → t.key = t'.key →
    t.command.request.isResume = false → t.point.begun = true → t'.point.begun = true ∨ j ∈ w.effects → i = j
  once : AtMostOnce w

variable {A B : Nat → Prop} {K : String → Prop} {i r : Nat} {u v w w' : World} {p : Point}
  {options : WorkerServiceOptions}

/-- No other call of the request is under way or has changed anything. -/
def Sole (i : Nat) (t : Task) (w : World) : Prop :=
  t.command.request.isResume = false → ∀ (j : Nat) (t' : Task), j ≠ i → w.tasks[j]? = some t' →
    t'.key = t.key → t'.point.begun = false ∧ j ∉ w.effects

theorem isResume_of_key {t t' : Task} (h : t.key = t'.key) :
    t.command.request.isResume = t'.command.request.isResume := congrArg (fun key => key.2.2) h

theorem past_of_begun (h : p.begun = true) : p.past = true := by
  cases p <;> first | rfl | cases h

theorem mem_effects_of_append {effects : List Nat} {n j : Nat} (hj : j ≠ i)
    (h : j ∈ effects ++ List.replicate n i) : j ∈ effects := by
  rcases List.mem_append.mp h with h | h
  · exact h
  · exact absurd (List.eq_of_mem_replicate h) hj

/-- The one call of a request changes something, or gets on. -/
theorem once_of_sole (h : OnceSound w) {t : Task} (ht : w.tasks[i]? = some t) (hs : Sole i t w)
    (hindexed : Indexed w'.storage) (he : ∃ n, w'.effects = w.effects ++ List.replicate n i)
    (hothers : ∀ j : Nat, j ≠ i → w'.tasks[j]? = w.tasks[j]?)
    (hi : ∃ t', w'.tasks[i]? = some t' ∧ t'.key = t.key ∧ t'.point.past = true) : OnceSound w' := by
  obtain ⟨n, he⟩ := he
  obtain ⟨t', ht', hkey, hpast⟩ := hi
  have hclash (j : Nat) (tj : Task) (hj : j ≠ i) (htj : w'.tasks[j]? = some tj) (hk : t'.key = tj.key)
      (hr : t'.command.request.isResume = false) : tj.point.begun = false ∧ j ∉ w.effects := by
    have hr' : t.command.request.isResume = false := (isResume_of_key hkey).symm.trans hr
    exact hs hr' j tj hj ((hothers j hj).symm.trans htj) (hk.symm.trans hkey)
  refine ⟨hindexed, fun j hj => ?_, fun a b ta tb hta htb hk hr hb hor => ?_,
    fun a ha b hb ta tb hta htb hk hr => ?_⟩
  · by_cases hji : j = i
    · exact hji ▸ ⟨t', ht', hpast⟩
    · rw [he] at hj
      obtain ⟨tj, htj, hp⟩ := h.past j (mem_effects_of_append hji hj)
      exact ⟨tj, (hothers j hji).trans htj, hp⟩
  · by_cases hai : a = i
    · subst hai
      rw [ht'] at hta
      cases hta
      by_contra hab
      obtain ⟨hnb, hne⟩ := hclash b tb (Ne.symm hab) htb hk hr
      rcases hor with hor | hor
      · rw [hnb] at hor
        cases hor
      · rw [he] at hor
        exact hne (mem_effects_of_append (Ne.symm hab) hor)
    · by_cases hbi : b = i
      · subst hbi
        rw [ht'] at htb
        cases htb
        obtain ⟨hna, -⟩ := hclash a ta hai hta hk.symm ((isResume_of_key hk).symm.trans hr)
        rw [hna] at hb
        cases hb
      · refine h.alone a b ta tb ((hothers a hai).symm.trans hta) ((hothers b hbi).symm.trans htb) hk hr hb ?_
        refine hor.imp_right (fun hor => ?_)
        rw [he] at hor
        exact mem_effects_of_append hbi hor
  · rw [he] at ha hb
    by_cases hai : a = i
    · subst hai
      rw [ht'] at hta
      cases hta
      by_contra hab
      exact (hclash b tb (Ne.symm hab) htb hk hr).2 (mem_effects_of_append (Ne.symm hab) hb)
    · by_cases hbi : b = i
      · subst hbi
        rw [ht'] at htb
        cases htb
        exact absurd (mem_effects_of_append hai ha)
          (hclash a ta hai hta hk.symm ((isResume_of_key hk).symm.trans hr)).2
      · exact h.once a (mem_effects_of_append hai ha) b (mem_effects_of_append hbi hb) ta tb
          ((hothers a hai).symm.trans hta) ((hothers b hbi).symm.trans htb) hk hr

/-- Nothing is changed, and no call gets past its look-up. -/
theorem once_of_still (h : OnceSound w) (hindexed : Indexed w'.storage) (he : w'.effects = w.effects)
    (hold : ∀ (j : Nat) (t : Task), w.tasks[j]? = some t → t.point.past = true →
      ∃ t', w'.tasks[j]? = some t' ∧ t'.point.past = true)
    (hnew : ∀ (j : Nat) (t' : Task), w'.tasks[j]? = some t' → (t'.point.begun = true ∨ j ∈ w.effects) →
      ∃ t, w.tasks[j]? = some t ∧ t.key = t'.key ∧ (t'.point.begun = true → t.point.begun = true)) :
    OnceSound w' := by
  refine ⟨hindexed, fun j hj => ?_, fun a b ta tb hta htb hk hr hb hor => ?_,
    fun a ha b hb ta tb hta htb hk hr => ?_⟩
  · obtain ⟨t, ht, hp⟩ := h.past j (he ▸ hj)
    exact hold j t ht hp
  · rw [he] at hor
    obtain ⟨sa, hsa, hka, hba⟩ := hnew a ta hta (Or.inl hb)
    obtain ⟨sb, hsb, hkb, hbb⟩ := hnew b tb htb hor
    exact h.alone a b sa sb hsa hsb (hka.trans (hk.trans hkb.symm)) ((isResume_of_key hka).trans hr) (hba hb)
      (hor.imp_left hbb)
  · rw [he] at ha hb
    obtain ⟨sa, hsa, hka, -⟩ := hnew a ta hta (Or.inr ha)
    obtain ⟨sb, hsb, hkb, -⟩ := hnew b tb htb (Or.inr hb)
    exact h.once a ha b hb sa sb hsa hsb (hka.trans (hk.trans hkb.symm)) ((isResume_of_key hka).trans hr)

theorem once_await (h : OnceSound w) {t : Task} (ht : w.tasks[i]? = some t) (hindexed : Indexed v.storage)
    (he : v.effects = w.effects) (htasks : v.tasks = w.tasks) (hb : p.begun = false)
    (hp : t.point.past = true → p.past = true) : OnceSound (v.await i p) := by
  have hget (j : Nat) : (v.await i p).tasks[j]? =
      if i = j then w.tasks[j]?.map (fun t => { t with point := p }) else w.tasks[j]? := by
    rw [getElem?_await, htasks]
  refine once_of_still h hindexed he (fun j t' ht' hpast => ?_) (fun j t' ht' hor => ?_)
  · rw [hget]
    split_ifs with hj
    · subst hj
      rw [ht] at ht'
      cases ht'
      rw [ht]
      exact ⟨_, rfl, hp hpast⟩
    · exact ⟨t', ht', hpast⟩
  · rw [hget] at ht'
    split_ifs at ht' with hj
    · subst hj
      rw [ht] at ht'
      cases ht'
      exact ⟨t, ht, rfl, fun hb' => by rw [hb] at hb'; cases hb'⟩
    · exact ⟨t', ht', rfl, id⟩

theorem indexed_of_ordinary (h : Indexed w.storage) (ho : Ordinary A B K i w u) : Indexed u.storage := by
  intro k
  rw [ho.ledger, ho.requests]
  exact h k

/-- The one call of a request goes on, from a world in which it has changed the files. -/
theorem once_of_goes (h : OnceSound w) {t : Task} (ht : w.tasks[i]? = some t) (hs : Sole i t w) {v : World}
    (htasks : v.tasks = w.tasks) (he : ∃ n, v.effects = w.effects ++ List.replicate n i)
    (hindexed : Indexed v.storage) (ho : Ordinary A B K i v u) (hb : p.begun = true) :
    OnceSound (u.await i p) := by
  have hkept : Indexed u.storage := indexed_of_ordinary hindexed ho
  refine once_of_sole h ht hs hkept ?_ (fun j hj => ?_) ?_
  · obtain ⟨n, hn⟩ := he
    obtain ⟨n', hn'⟩ := ho.effects
    refine ⟨n + n', ?_⟩
    rw [World.await, World.onTask, hn', hn, List.append_assoc, List.replicate_append_replicate]
  · rw [getElem?_await, if_neg (Ne.symm hj), ho.others j hj, htasks]
  · have hkey := ho.key
    rw [htasks, ht, Option.map_some] at hkey
    obtain ⟨t', ht', hk⟩ := Option.map_eq_some_iff.mp hkey
    refine ⟨{ t' with point := p }, ?_, hk, past_of_begun hb⟩
    rw [getElem?_await, if_pos rfl, ht']
    rfl

theorem sole_of_begun (h : OnceSound w) {t : Task} (ht : w.tasks[i]? = some t) (hb : t.point.begun = true) :
    Sole i t w := by
  intro hr j t' hj ht' hk
  refine ⟨?_, fun hm => hj (h.alone i j t t' ht ht' hk.symm hr hb (Or.inr hm)).symm⟩
  cases hb' : t'.point.begun with
  | false => rfl
  | true => exact absurd (h.alone i j t t' ht ht' hk.symm hr hb (Or.inl hb')).symm hj

/-- When a call looks its request up no other call of the request is under way, and if
one has changed anything the request is among the last 500 completed of its session. -/
def RedeliveryAllowed (w : World) (step : ServiceStep) : Prop :=
  ∀ i answer t, step = .resumed i answer → w.tasks[i]? = some t → t.point = .entered →
    t.command.request.isResume = false → ∀ (j : Nat) t', j ≠ i → w.tasks[j]? = some t' → t'.key = t.key →
      t'.point.begun = false ∧
        (j ∈ w.effects → w.storage.recently t.command.request.sessionId t.command.requestId)

theorem sole_of_passes (h : OnceSound w) {t : Task} (ht : w.tasks[i]? = some t) {answer : Answer}
    (ha : RedeliveryAllowed w (.resumed i answer)) (hp : t.passes w) : Sole i t w := by
  rcases hp with hb | ⟨hp, hl⟩
  · exact sole_of_begun h ht hb
  · intro hr j t' hj ht' hk
    obtain ⟨hb, he⟩ := ha i answer t rfl ht hp hr j t' hj ht' hk
    refine ⟨hb, fun hm => ?_⟩
    rcases hl with hl | hl
    · rw [hr] at hl
      cases hl
    · exact findCompletedRequest_of_recently h.indexed (he hm) hl

theorem begun_of_holds (h : p.holds = some r) : p.begun = true := by
  cases p <;> first | rfl | cases h

theorem once_fail (h : OnceSound w) {t : Task} (ht : w.tasks[i]? = some t) (hs : Sole i t w)
    (sessionId : Option String) (requestId code message : String) :
    OnceSound (w.fail i sessionId requestId code message) := by
  obtain ⟨u, p, ho, he, hp⟩ := goes_fail (A := Nobody) (B := Nobody) (K := fun _ => False) (i := i) w sessionId
    requestId code message
  rw [he]
  exact once_of_goes h ht hs rfl ⟨0, by simp⟩ h.indexed ho hp.begun

theorem once_deleteStored (h : OnceSound w) {t : Task} (ht : w.tasks[i]? = some t) (hs : Sole i t w)
    (sessionId requestId : String) : OnceSound (w.deleteStored i sessionId requestId) := by
  rcases deleteStored_cases w i sessionId requestId with ⟨-, he⟩ | ⟨-, he⟩
  · rw [he]
    exact once_fail h ht hs _ _ _ _
  · obtain ⟨u, p, ho, hu, hp⟩ := goes_forgotten (A := Nobody) (B := Nobody) (K := fun _ => False) (i := i) w
      sessionId requestId
    rw [he, hu]
    refine once_of_goes (v := (w.onStorage (.deleteSession sessionId)).act i) h ht hs rfl ⟨1, rfl⟩ ?_ ho hp.begun
    exact indexed_deleteSession h.indexed sessionId

theorem once_evicting (h : OnceSound w) {t : Task} (ht : w.tasks[i]? = some t) (hp : t.point.past = false)
    (now : Nat) (candidates : List Nat) : OnceSound (w.evicting options i now candidates) := by
  simp only [World.evicting]
  refine once_await (v := { w with memory := _ }) h ht h.indexed rfl rfl ?_ (fun hp' => ?_)
  · split <;> rfl
  · rw [hp] at hp'
    cases hp'

theorem once_loaded (h : OnceSound w) {t : Task} (ht : w.tasks[i]? = some t) (hs : Sole i t w) (l : Nat)
    (owner : Bool) : OnceSound (w.loaded i l owner) := by
  rcases loaded_cases w i l owner with he | ⟨x, p, -, -, he, hb, -⟩
  · rwa [he]
  · rw [he]
    have hforget : (w.forgetLoading x.sessionId owner).tasks = w.tasks ∧
        (w.forgetLoading x.sessionId owner).effects = w.effects ∧
          (w.forgetLoading x.sessionId owner).storage = w.storage := by
      rw [World.forgetLoading]
      split_ifs <;> exact ⟨rfl, rfl, rfl⟩
    obtain ⟨htasks, heffects, hstorage⟩ := hforget
    refine once_of_goes (A := Nobody) (B := Nobody) (K := fun _ => False) h ht hs htasks ⟨0, ?_⟩ ?_
      (ordinary_refl _) hb
    · rw [heffects, List.replicate_zero, List.append_nil]
    · rw [hstorage]
      exact h.indexed

theorem once_turn (h : OnceSound w) (hk : Keyed w.memory) {t : Task} (ht : w.tasks[i]? = some t)
    {answer : Answer} (ha : RedeliveryAllowed w (.resumed i answer)) (hturn : Turn options K i t w w') :
    OnceSound w' := by
  cases hturn with
  | still => exact h
  | stops hp => exact once_await h ht h.indexed rfl rfl rfl (fun _ => rfl)
  | evicts now candidates hp => exact once_evicting h ht (by rw [hp]; rfl) now candidates
  | goes hp hg =>
      obtain ⟨u, p, ho, rfl, hplain⟩ := hg
      exact once_of_goes h ht (sole_of_passes h ht ha hp) rfl ⟨0, by simp⟩ h.indexed ho hplain.begun
  | settles l owner hp =>
      refine once_loaded h ht (sole_of_begun h ht ?_) l owner
      rw [hp]
      split_ifs <;> rfl
  | begins r hp hr hb =>
      obtain ⟨-, u, p, ho, rfl, hholding, -⟩ := hb
      exact once_of_goes h ht (sole_of_begun h ht (by rw [hp]; rfl)) rfl ⟨0, by simp⟩ h.indexed ho hholding.begun
  | holds r hp hg =>
      obtain ⟨u, p, ho, rfl, hholding⟩ := hg
      exact once_of_goes h ht (sole_of_begun h ht (begun_of_holds hp)) rfl ⟨0, by simp⟩ h.indexed ho
        hholding.begun
  | releases r hp hg =>
      obtain ⟨u, p, ho, rfl, hplain⟩ := hg
      exact once_of_goes h ht (sole_of_begun h ht (begun_of_holds hp)) rfl ⟨0, by simp⟩ h.indexed ho hplain.begun
  | creates hp hl hr =>
      obtain ⟨u, p, ho, hu, hplain⟩ := goes_createSession (A := Nobody) (B := Nobody) options hk i
      rw [hu]
      refine once_of_goes h ht (sole_of_passes h ht ha (Or.inr ⟨hp, hl⟩)) ?_ ?_ ?_ ho hplain.begun
      · rfl
      · exact ⟨1, rfl⟩
      · exact h.indexed
  | deletes sessionId hp hl hr =>
      have hs : Sole i t w := sole_of_passes h ht ha (Or.inr ⟨hp, hl⟩)
      rcases deleteSession_cases w i sessionId t.command.requestId with ⟨-, he⟩ | ⟨r, -, -, he⟩ | ⟨r, -, -, he⟩
      · rw [he]
        exact once_deleteStored h ht hs _ _
      · rw [he]
        exact once_fail h ht hs _ _ _ _
      · rw [he]
        refine once_of_goes (v := (w.drop sessionId r).act i) (A := Nobody) (B := Nobody) (K := fun _ => False)
          h ht hs rfl ⟨1, rfl⟩ h.indexed (ordinary_refl _) rfl
  | deleted sessionId hp hr => exact once_deleteStored h ht (sole_of_begun h ht (by rw [hp]; rfl)) _ _
  | ends hp =>
      rw [World.ended]
      split_ifs
      · exact once_await (v := w.onStorage _) h ht (indexed_completeRequest h.indexed _ _ _) rfl rfl rfl
          (fun _ => rfl)
      · exact once_await h ht h.indexed rfl rfl rfl (fun _ => rfl)

theorem once_resumed (h : OnceSound w) (hreg : Registered w.memory w.tasks) {answer : Answer}
    (ha : RedeliveryAllowed w (.resumed i answer)) : OnceSound (w.resumed options i answer) := by
  cases ht : w.tasks[i]? with
  | none => simpa only [World.resumed, ht] using h
  | some t =>
      exact once_turn h hreg.keyed ht ha (turn_resumed options hreg.keyed ht (scope_concerns hreg ht) answer)

theorem lt_of_mem_effects (h : OnceSound w) {j : Nat} (hj : j ∈ w.effects) : j < w.tasks.length := by
  obtain ⟨t, ht, -⟩ := h.past j hj
  exact (List.getElem?_eq_some_iff.mp ht).1

/-- A call that comes in has changed nothing. -/
theorem once_of_called (h : OnceSound w) (hindexed : Indexed w'.storage) (he : w'.effects = w.effects)
    (hold : ∀ (j : Nat), j < w.tasks.length → w'.tasks[j]? = w.tasks[j]?)
    (hnew : ∀ (j : Nat) (t : Task), w.tasks.length ≤ j → w'.tasks[j]? = some t → t.point.begun = false) :
    OnceSound w' := by
  refine once_of_still h hindexed he (fun j t hj hp => ?_) (fun j t' hj hor => ?_)
  · exact ⟨t, (hold j (List.getElem?_eq_some_iff.mp hj).1).trans hj, hp⟩
  · rcases Nat.lt_or_ge j w.tasks.length with hlt | hge
    · exact ⟨t', (hold j hlt).symm.trans hj, rfl, id⟩
    · rcases hor with hb | hm
      · rw [hnew j t' hge hj] at hb
        cases hb
      · exact absurd (lt_of_mem_effects h hm) (Nat.not_lt.mpr hge)

theorem once_received (h : OnceSound w) (command : ClientCommand) : OnceSound (w.received options command) := by
  have hcalled (j : Nat) : (w.tasks ++ [⟨command, .entered, []⟩])[j]? =
      if j = w.tasks.length then some ⟨command, .entered, []⟩ else w.tasks[j]? := by
    split_ifs with hj
    · rw [hj]
      exact List.getElem?_concat_length
    · rcases Nat.lt_or_ge j w.tasks.length with hlt | hge
      · exact List.getElem?_append_left hlt
      · rw [List.getElem?_eq_none hge, List.getElem?_eq_none]
        rw [List.length_append, List.length_singleton]
        omega
  have hentered : OnceSound { w with tasks := w.tasks ++ [⟨command, .entered, []⟩] } := by
    refine once_of_called h h.indexed rfl (fun j hj => ?_) (fun j t hj ht => ?_)
    · rw [hcalled, if_neg (Nat.ne_of_lt hj)]
    · rw [hcalled] at ht
      split_ifs at ht
      · cases ht
        rfl
      · rw [List.getElem?_eq_none hj] at ht
        cases ht
  simp only [World.received]
  split_ifs
  · have ho : Ordinary Nobody Nobody (fun _ => False) w.tasks.length _ (World.reply w.tasks.length none
        (.requestError command.requestId "WORKSPACE_MISMATCH" "命令不属于当前 worker 工作区")
        { w with tasks := w.tasks ++ [⟨command, .entered, []⟩] }) := ordinary_reply _ _ _ (by rintro ⟨⟩)
    refine once_of_called h (fun k => h.indexed k) rfl (fun j hj => ?_) (fun j t hj ht => ?_)
    · rw [getElem?_await, if_neg (Nat.ne_of_gt hj), ho.others j (Nat.ne_of_lt hj), hcalled,
        if_neg (Nat.ne_of_lt hj)]
    · rcases task_of_goes ho ht with ⟨hne, ht⟩ | ⟨-, hp, -⟩
      · rw [hcalled, if_neg hne, List.getElem?_eq_none hj] at ht
        cases ht
      · rw [hp]
        rfl
  · exact once_evicting hentered List.getElem?_concat_length rfl _ _

/-- What happens beside the calls changes nothing that is counted. -/
theorem once_of_beside (h : OnceSound w) (hrequests : w'.storage.requests = w.storage.requests)
    (hledger : w'.storage.ledger = w.storage.ledger) (he : w'.effects = w.effects)
    (htasks : w'.tasks = w.tasks) : OnceSound w' := by
  refine once_of_called h (fun k => ?_) he (fun j _ => by rw [htasks]) (fun j t hj ht => ?_)
  · rw [hrequests, hledger]
    exact h.indexed k
  · rw [htasks, List.getElem?_eq_none hj] at ht
    cases ht

theorem trim_rest (w : World) (l r now : Nat) (candidates : List Nat) :
    (w.trim options l r now candidates).storage = w.storage ∧
      (w.trim options l r now candidates).effects = w.effects ∧
        (w.trim options l r now candidates).tasks = w.tasks := ⟨rfl, rfl, rfl⟩

theorem once_created (h : OnceSound w) (l : Nat) (runtime : Option Runtime) :
    OnceSound (w.created options l runtime) := by
  rw [World.created]
  split
  · split
    · exact once_of_beside h rfl rfl rfl rfl
    · exact once_of_beside h rfl rfl rfl rfl
  · exact h

theorem once_trimmed (h : OnceSound w) (l : Nat) (ok : Bool) : OnceSound (w.trimmed options l ok) := by
  rw [World.trimmed]
  split
  · split_ifs
    · exact once_of_beside h rfl rfl rfl rfl
    · exact once_of_beside h rfl rfl rfl rfl
  · exact h

/-- A listener that says nothing in the name of a call counts for none. -/
theorem once_listener (h : OnceSound w) (ho : ∀ i, Ordinary Nobody Nobody (fun _ => False) i w u) :
    OnceSound u := by
  have heffects : u.effects = w.effects := by
    obtain ⟨n, hn⟩ := (ho 0).effects
    obtain ⟨n', hn'⟩ := (ho 1).effects
    have he : List.replicate n 0 = List.replicate n' 1 := List.append_cancel_left (hn.symm.trans hn')
    cases n with
    | zero => rw [hn, List.replicate_zero, List.append_nil]
    | succ n =>
        have hm : 0 ∈ List.replicate n' 1 := he ▸ List.mem_cons_self
        exact absurd (List.eq_of_mem_replicate hm) (by decide)
  have htasks : u.tasks = w.tasks :=
    List.ext_getElem? (fun j => (ho (j + 1)).others j (Nat.ne_of_lt (Nat.lt_succ_self j)))
  exact once_of_beside h (ho 0).requests (ho 0).ledger heffects htasks

theorem once_restarted (h : OnceSound w) : OnceSound (w.restarted options) := by
  have hget (j : Nat) (t' : Task) (hj : (w.restarted options).tasks[j]? = some t') :
      ∃ t, w.tasks[j]? = some t ∧ t.key = t'.key ∧ t'.point.begun = false ∧ t'.point.past = true := by
    simp only [World.restarted, List.getElem?_map, Option.map_eq_some_iff] at hj
    obtain ⟨t, ht, rfl⟩ := hj
    refine ⟨t, ht, ?_, ?_, ?_⟩ <;> split <;> first | rfl | simp [*, Point.begun, Point.past]
  refine once_of_still h h.indexed rfl (fun j t hj _ => ?_) (fun j t' hj _ => ?_)
  · have hsome : (w.restarted options).tasks[j]? ≠ none := by
      simp only [World.restarted, List.getElem?_map, hj]
      exact nofun
    obtain ⟨t', ht'⟩ := Option.ne_none_iff_exists'.mp hsome
    obtain ⟨-, -, -, -, hp⟩ := hget j t' ht'
    exact ⟨t', ht', hp⟩
  · obtain ⟨t, ht, hk, hb, -⟩ := hget j t' hj
    exact ⟨t, ht, hk, fun hb' => by rw [hb] at hb'; cases hb'⟩

theorem once_next (step : ServiceStep) (ha : RedeliveryAllowed w step) (hreg : Registered w.memory w.tasks)
    (h : OnceSound w) : OnceSound (ServiceStep.next options w step) := by
  cases step with
  | clock now => exact once_of_beside h rfl rfl rfl rfl
  | received command => exact once_received h command
  | resumed i answer => exact once_resumed h hreg ha
  | created l runtime => exact once_created h l runtime
  | trimmed l ok => exact once_trimmed h l ok
  | traced r trace => exact once_listener h (fun i => ordinary_traceTold w r trace)
  | workStateChanged r contextState workState =>
      exact once_listener h (fun i => ordinary_workStateTold w r contextState workState)
  | restarted => exact once_restarted h

/-- A request changes things at most once as long as it is redelivered only when all its
calls are done, and only when one that has changed anything has left its answer. -/
theorem executed_at_most_once (sessions : List (String × StoredSession)) (settings : String → Option Settings)
    (journal : Option String → List ServerEvent) (requests : Option String → List (String × List ServerEvent))
    (profiles : List WorkspaceProfile) {steps : List ServiceStep}
    (h : Along (ServiceStep.next options) RedeliveryAllowed
      (World.start options sessions settings journal requests profiles) steps) :
    AtMostOnce (after (ServiceStep.next options)
      (World.start options sessions settings journal requests profiles) steps) := by
  have hstart : OnceSound (World.start options sessions settings journal requests profiles) := by
    refine ⟨fun k => recents_refl _, fun i hi => (by cases hi), fun i j t t' hi => (by cases hi),
      fun i hi => (by cases hi)⟩
  have hsound := h.keeps (I := fun w => Registered w.memory w.tasks ∧ OnceSound w)
    (fun w step ha hI => ⟨registered_next w step hI.1, once_next step ha hI.1 hI.2⟩)
    ⟨registered_start sessions settings journal requests profiles, hstart⟩
  exact hsound.2.once

theorem redelivery_of_other {step : ServiceStep} (hs : ∀ i answer, step ≠ .resumed i answer) :
    RedeliveryAllowed w step := fun i answer _ he => absurd he (hs i answer)

theorem redelivery_of_begun {t : Task} {answer : Answer} (ht : w.tasks[i]? = some t)
    (hp : t.point ≠ .entered) : RedeliveryAllowed w (.resumed i answer) := by
  intro i' answer' t' he ht' hp'
  cases he
  rw [ht] at ht'
  cases ht'
  exact absurd hp' hp

def renameReceived : ServiceStep := .received ⟨"rename", none, .rename "a" "new name"⟩

/-- A request comes again once it is completed. -/
def renamedRun : List ServiceStep := [renameReceived, .resumed 0 settled, .resumed 0 settled, renameReceived, .resumed 1 settled]

theorem executed_at_most_once_renamedRun :
    (after (ServiceStep.next plainOptions) (startWith ["a"]) renamedRun).effects = [0] ∧
      AtMostOnce (after (ServiceStep.next plainOptions) (startWith ["a"]) renamedRun) := by
  refine ⟨rfl, executed_at_most_once _ _ _ _ _ ?_⟩
  refine along_cons.mpr ⟨redelivery_of_other nofun, along_cons.mpr ⟨?_, along_cons.mpr
    ⟨redelivery_of_begun rfl nofun, along_cons.mpr ⟨redelivery_of_other nofun, along_cons.mpr ⟨?_, along_nil⟩⟩⟩⟩⟩
  · intro i answer t he ht _ _ j t' hj ht'
    cases he
    cases j with
    | zero => exact absurd rfl hj
    | succ j => cases ht'
  · intro i answer t he ht _ _ j t' hj ht' _
    cases he
    cases ht
    cases j with
    | zero =>
        cases ht'
        exact ⟨rfl, fun _ => List.mem_singleton_self _⟩
    | succ j => cases j with
      | zero => exact absurd rfl hj
      | succ j => cases ht'

/-- A run fails, and its request comes again. -/
def failedRun : List ServiceStep :=
  inputSteps 0 "a" ++ [.resumed 0 (.rejected "network" plainRuntime), .resumed 0 settled,
    .received ⟨"first a", none, .input "a" "go" .auto false⟩, .resumed 1 settled, .resumed 1 settled]

theorem failed_request_repeated :
    ¬ AtMostOnce (after (ServiceStep.next plainOptions) (startWith ["a"]) failedRun) := by
  intro h
  have heffects : (after (ServiceStep.next plainOptions) (startWith ["a"]) failedRun).effects =
      [0, 0, 0, 1, 1] := rfl
  have hsame := h 0 (heffects ▸ (by decide)) 1 (heffects ▸ (by decide)) _ _ rfl rfl rfl rfl
  cases hsame

end Kross.Service

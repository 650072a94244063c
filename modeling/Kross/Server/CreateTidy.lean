import Kross.Server.ContainerOrchestrator

namespace Kross.Server.Orchestrator

open FaultM

/-- The call that fails, if one does. -/
def failing (fault : Option Call) : Option (Fault Call Unit) := fault.map fun site => ⟨site, false, ()⟩

/-- All calls made so far have succeeded. -/
def Answered (w : World) : Prop := ∀ c ∈ w.calls, c.2 = true

section Calls

variable {fault : Option Call} {α : Type} {w : World} {site : Call} {ok : α → World → Prop}
  {error : CreateError → World → Prop} {killed : World → Prop}

theorem answered_concat (h : Answered w) (d : Docker) : Answered ⟨d, w.calls ++ [(site, true)]⟩ := by
  intro c hc
  rcases List.mem_append.mp hc with hc | hc
  · exact h c hc
  · rw [List.mem_singleton.mp hc]

theorem not_answered_concat (d : Docker) : ¬ Answered ⟨d, w.calls ++ [(site, false)]⟩ := by
  intro h
  have hlast := h (site, false) (List.mem_append_right _ (List.mem_singleton_self _))
  cases hlast

/-- A call fails, is refused, or has its effect. -/
theorem ends_call {effect : Docker → Option (α × Docker)}
    (hok : ∀ a d, fault ≠ some site → effect w.docker = some (a, d) → ok a ⟨d, w.calls ++ [(site, true)]⟩)
    (herror : fault = some site ∨ effect w.docker = none →
      error (.docker site) ⟨w.docker, w.calls ++ [(site, false)]⟩) :
    Ends (failing fault) (call site effect) w ok error killed := by
  have hstep : Ends (failing fault)
      (step site (.docker site) (fun _ w => (w.answered (α := α) site none).2)
        (fun w => .ok (w.answered site (effect w.docker))) : CreateM (Option α)) w
      (fun answer w' => answer.elim (effect w.docker = none ∧ w' = ⟨w.docker, w.calls ++ [(site, false)]⟩)
        fun a => fault ≠ some site ∧ ∃ d, effect w.docker = some (a, d) ∧ w' = ⟨d, w.calls ++ [(site, true)]⟩)
      error killed := by
    apply ends_step
    · intro left hfault
      refine herror (.inl ?_)
      obtain ⟨site', rfl, hsite⟩ := Option.map_eq_some_iff.mp hfault
      cases hsite
      rfl
    · intro left hfault
      obtain ⟨site', -, hsite⟩ := Option.map_eq_some_iff.mp hfault
      cases hsite
    · intro hmiss a w' heffect
      have hne : fault ≠ some site := by
        rintro rfl
        exact hmiss _ rfl rfl
      rcases hresult : effect w.docker with _ | ⟨b, d⟩
      · rw [hresult] at heffect
        cases heffect
        exact ⟨rfl, rfl⟩
      · rw [hresult] at heffect
        cases heffect
        exact ⟨hne, d, rfl, rfl⟩
    · intro hmiss e heffect
      cases heffect
  refine hstep.bind fun answer w' hanswer => ?_
  cases answer with
  | some a =>
      obtain ⟨hne, d, heffect, rfl⟩ := hanswer
      exact ends_pure (hok a d hne heffect)
  | none =>
      obtain ⟨heffect, rfl⟩ := hanswer
      exact ends_throw (herror (.inr heffect))

theorem ends_look (ok : α → World → Prop) {effect : Docker → Option α}
    (hok : ∀ a, effect w.docker = some a → ok a ⟨w.docker, w.calls ++ [(site, true)]⟩)
    (herror : fault = some site ∨ effect w.docker = none →
      error (.docker site) ⟨w.docker, w.calls ++ [(site, false)]⟩) :
    Ends (failing fault) (look site effect) w ok error killed := by
  refine ends_call (fun a d _ heffect => ?_) fun h => herror (h.imp_right Option.map_eq_none_iff.mp)
  obtain ⟨b, hb, hpair⟩ := Option.map_eq_some_iff.mp heffect
  cases hpair
  exact hok a hb

theorem ends_change {effect : Docker → Option Docker} {ok : Unit → World → Prop}
    (hok : ∀ d, fault ≠ some site → effect w.docker = some d → ok () ⟨d, w.calls ++ [(site, true)]⟩)
    (herror : fault = some site ∨ effect w.docker = none →
      error (.docker site) ⟨w.docker, w.calls ++ [(site, false)]⟩) :
    Ends (failing fault) (change site effect) w ok error killed := by
  refine ends_call (fun a d hne heffect => ?_) fun h => herror (h.imp_right Option.map_eq_none_iff.mp)
  obtain ⟨b, hb, hpair⟩ := Option.map_eq_some_iff.mp heffect
  cases hpair
  exact hok d hne hb

end Calls

section Within

variable (o : DockerOrchestrator) (input : CreateWorkspaceContainerInput)

/-- What create may have made besides the containers `extra`; what was there at an earlier
moment still is. -/
structure Within (before early : Docker) (extra : List Container) (d : Docker) : Prop where
  containers : d.containers = before.containers ++ extra
  volumes : ∀ v ∈ d.volumes, v ∈ before.volumes ∨ v = volumeName input.id
  networks : ∀ n ∈ d.networks, before.hasNetwork n.name = true ∨ n.name = o.network ∨
    n.name = workspaceNetworkName input.id ∧
      ∀ e ∈ n.endpoints, ∃ gateway, before.find o.gatewayContainer = some gateway ∧ gateway.id = e
  kept_volumes : ∀ v ∈ early.volumes, v ∈ d.volumes
  kept_networks : ∀ name, early.hasNetwork name = true → d.hasNetwork name = true

/-- Nothing is left of what was made. -/
structure Clean (before d : Docker) : Prop where
  containers : ∀ c ∈ d.containers, c ∈ before.containers
  volumes : ∀ v ∈ d.volumes, v ∈ before.volumes
  networks : ∀ n ∈ d.networks, before.hasNetwork n.name = true ∨ n.name = o.network

/-- The worker container, its volume and its network are there, and nothing else is new. -/
structure Made (before d : Docker) : Prop where
  worker : ∃ id, d.containers = before.containers ++
    [⟨id, some (containerName input.id), [volumeName input.id], workspaceNetworkName input.id, true⟩]
  volumes : ∀ v, v ∈ d.volumes ↔ v ∈ before.volumes ∨ v = volumeName input.id
  networks : ∀ name, d.hasNetwork name = true ↔
    before.hasNetwork name = true ∨ name = o.network ∨ name = workspaceNetworkName input.id

variable {o input} {before early d : Docker} {extra : List Container}

/-- No container had the id before. -/
def New (before : Docker) (id : Nat) : Prop := ∀ c ∈ before.containers, c.id ≠ id

theorem within_refl : Within o input before before [] before where
  containers := (List.append_nil _).symm
  volumes := fun _ hv => .inl hv
  networks := fun n hn => .inl (Docker.hasNetwork_iff.mpr ⟨n, hn, rfl⟩)
  kept_volumes := fun _ hv => hv
  kept_networks := fun _ h => h

theorem Within.rebase (h : Within o input before early extra d) : Within o input before d extra d :=
  ⟨h.containers, h.volumes, h.networks, fun _ hv => hv, fun _ hn => hn⟩

theorem hasNetwork_created {name name' : String} {e : Docker} (h : d.createNetwork name = some e) :
    e.hasNetwork name' = true ↔ d.hasNetwork name' = true ∨ name' = name := by
  rw [Docker.createNetwork] at h
  split_ifs at h
  cases h
  rw [Docker.hasNetwork, List.any_append, Bool.or_eq_true]
  refine or_congr Iff.rfl ?_
  rw [List.any_cons, List.any_nil, Bool.or_false, decide_eq_true_iff]
  exact eq_comm

theorem Within.createNetwork (h : Within o input before early extra d) {name : String} {e : Docker}
    (hname : name = o.network ∨ name = workspaceNetworkName input.id) (he : d.createNetwork name = some e) :
    Within o input before early extra e := by
  have hkept : ∀ name', d.hasNetwork name' = true ∨ name' = name → e.hasNetwork name' = true :=
    fun _ => (hasNetwork_created he).mpr
  rw [Docker.createNetwork] at he
  split_ifs at he
  cases he
  refine ⟨h.containers, h.volumes, fun n hn => ?_, h.kept_volumes, fun name' hn => hkept name' (.inl (h.kept_networks _ hn))⟩
  rcases List.mem_append.mp hn with hn | hn
  · exact h.networks n hn
  · rw [List.mem_singleton.mp hn]
    rcases hname with hname | hname
    · exact .inr (.inl hname)
    · exact .inr (.inr ⟨hname, fun e he => absurd he List.not_mem_nil⟩)

theorem Within.mapNetworks (h : Within o input before early extra d) {e : Docker} {f : Network → Network}
    {extra' : List Container} (hcontainers : e.containers = before.containers ++ extra') (hvolumes : e.volumes = d.volumes)
    (hnetworks : e.networks = d.networks.map f) (hname : ∀ n, (f n).name = n.name)
    (hf : ∀ n, n.name = workspaceNetworkName input.id → n.name ≠ o.network → ∀ i ∈ (f n).endpoints,
      i ∈ n.endpoints ∨ ∃ gateway, before.find o.gatewayContainer = some gateway ∧ gateway.id = i) :
    Within o input before early extra' e := by
  refine ⟨hcontainers, ?_, fun n hn => ?_, ?_, fun name hn => ?_⟩
  · rw [hvolumes]
    exact h.volumes
  · rw [hnetworks] at hn
    obtain ⟨m, hm, rfl⟩ := List.mem_map.mp hn
    rw [hname]
    by_cases hnet : m.name = o.network
    · exact .inr (.inl hnet)
    rcases h.networks m hm with hold | hnet' | ⟨hws, hends⟩
    · exact .inl hold
    · exact absurd hnet' hnet
    · refine .inr (.inr ⟨hws, fun i hi => ?_⟩)
      rcases hf m hws hnet i hi with hi | hi
      · exact hends i hi
      · exact hi
  · rw [hvolumes]
    exact h.kept_volumes
  · rw [Docker.hasNetwork_map hnetworks hname]
    exact h.kept_networks name hn

theorem connect_eq {name : String} {id : Nat} {e : Docker} (h : d.connect name id = some e) :
    e.containers = d.containers ∧ e.volumes = d.volumes ∧ e.networks = d.networks.map fun n => n.join name id := by
  rw [Docker.connect] at h
  split at h
  · cases h
  · split_ifs at h
    cases h
    exact ⟨rfl, rfl, rfl⟩

theorem Within.connect (h : Within o input before early extra d) {gateway : Container} {name : String} {e : Docker}
    (hgateway : before.find o.gatewayContainer = some gateway) (he : d.connect name gateway.id = some e) :
    Within o input before early extra e := by
  obtain ⟨hcontainers, hvolumes, hnetworks⟩ := connect_eq he
  refine h.mapNetworks (hcontainers.trans h.containers) hvolumes hnetworks (fun n => n.join_name _ _) fun n _ _ i hi => ?_
  rw [Network.join] at hi
  split_ifs at hi
  · rcases List.mem_append.mp hi with hi | hi
    · exact .inl hi
    · exact .inr ⟨gateway, hgateway, (List.mem_singleton.mp hi).symm⟩
  · exact .inl hi

theorem mem_volumes_createVolume {v name : String} :
    v ∈ (d.createVolume name).volumes ↔ v ∈ d.volumes ∨ v = name := by
  rw [Docker.createVolume]
  dsimp only
  split_ifs with hname
  · constructor
    · exact .inl
    · rintro (hv | rfl)
      · exact hv
      · exact hname
  · rw [List.mem_append, List.mem_singleton]

theorem Within.createVolume (h : Within o input before early extra d) :
    Within o input before early extra (d.createVolume (volumeName input.id)) := by
  refine ⟨h.containers, fun v hv => ?_, h.networks, fun v hv => ?_, h.kept_networks⟩
  · rcases mem_volumes_createVolume.mp hv with hv | hv
    · exact h.volumes v hv
    · exact .inr hv
  · exact mem_volumes_createVolume.mpr (.inl (h.kept_volumes v hv))

theorem createContainer_eq {name : Option String} {volume network : String} {id : Nat} {e : Docker}
    (h : d.createContainer name volume network = some (id, e)) :
    id = d.nextId ∧ e.containers = d.containers ++ [⟨id, name, [volume], network, false⟩] ∧
      e.volumes = (d.createVolume volume).volumes ∧ e.networks = d.networks := by
  rw [Docker.createContainer] at h
  split_ifs at h
  cases h
  exact ⟨rfl, rfl, rfl, rfl⟩

theorem Within.createContainer (h : Within o input before early [] d) {name : Option String} {network : String} {id : Nat}
    {e : Docker} (he : d.createContainer name (volumeName input.id) network = some (id, e)) :
    Within o input before early [⟨id, name, [volumeName input.id], network, false⟩] e := by
  obtain ⟨-, hcontainers, hvolumes, hnetworks⟩ := createContainer_eq he
  have hv := h.createVolume
  refine ⟨?_, ?_, ?_, ?_, fun name hname => ?_⟩
  · rw [hcontainers, h.containers, List.append_nil]
  · rw [hvolumes]
    exact hv.volumes
  · rw [hnetworks]
    exact h.networks
  · rw [hvolumes]
    exact hv.kept_volumes
  · rw [Docker.hasNetwork, hnetworks]
    exact h.kept_networks name hname

variable {c : Container}

theorem find_last (hcontainers : d.containers = before.containers ++ [c]) (hid : New before c.id) :
    d.find (.id c.id) = some c := by
  have hnone : before.containers.find? (fun c' => c'.answersTo (.id c.id)) = none := by
    rw [List.find?_eq_none]
    intro c' hc'
    rw [Container.answersTo, decide_eq_true_iff]
    exact hid c' hc'
  rw [Docker.find, hcontainers, List.find?_append, hnone, Option.none_or]
  simp [Container.answersTo]

theorem map_started (hid : New before c.id) :
    (before.containers ++ [c]).map (fun c' => c'.started c.id) = before.containers ++ [{ c with running := true }] := by
  rw [List.map_append, List.map_singleton]
  have hlast : c.started c.id = { c with running := true } := if_pos rfl
  rw [hlast, List.append_left_inj]
  refine (List.map_congr_left fun c' hc' => ?_).trans (List.map_id _)
  exact if_neg (hid c' hc')

theorem start_last (hcontainers : d.containers = before.containers ++ [c]) (hid : New before c.id) {e : Docker}
    (he : d.start c.id = some e) :
    e.containers = before.containers ++ [{ c with running := true }] ∧ e.volumes = d.volumes ∧
      e.networks = d.networks.map fun n => n.join c.network c.id := by
  rw [Docker.start, find_last hcontainers hid] at he
  dsimp only at he
  split_ifs at he
  cases he
  dsimp only
  rw [hcontainers]
  exact ⟨map_started hid, rfl, rfl⟩

theorem start_ne_none (hcontainers : d.containers = before.containers ++ [c]) (hid : New before c.id)
    (hnetwork : d.hasNetwork c.network = true) : d.start c.id ≠ none := by
  rw [Docker.start, find_last hcontainers hid]
  dsimp only
  rw [if_pos hnetwork]
  exact Option.some_ne_none _

theorem Within.start (h : Within o input before early [c] d) (hid : New before c.id) (hc : c.network = o.network)
    {e : Docker} (he : d.start c.id = some e) : Within o input before early [{ c with running := true }] e := by
  obtain ⟨hcontainers, hvolumes, hnetworks⟩ := start_last h.containers hid he
  refine h.mapNetworks hcontainers hvolumes hnetworks (fun n => n.join_name _ _) fun n _ hne i hi => .inl ?_
  rwa [Network.join, if_neg (by rwa [hc])] at hi

/-- The helper is removed. -/
theorem Within.removeContainer (h : Within o input before early [c] d) (hid : New before c.id) :
    Within o input before early [] (d.removeContainer c.id) := by
  refine h.mapNetworks (f := fun n => n.leave c.id) ?_ rfl rfl (fun _ => rfl) fun n _ _ i hi =>
    .inl (List.mem_of_mem_filter hi)
  show d.containers.filter _ = _
  rw [h.containers, List.filter_append, List.append_nil]
  have hold : before.containers.filter (fun c' => c'.id ≠ c.id) = before.containers := by
    rw [List.filter_eq_self]
    intro c' hc'
    exact decide_eq_true (hid c' hc')
  rw [hold]
  simp

/-- The handling of an error. -/
def cleaned (o : DockerOrchestrator) (input : CreateWorkspaceContainerInput) (d : Docker) : Docker :=
  ((d.removeVolume (volumeName input.id)).disconnect (workspaceNetworkName input.id) o.gatewayContainer).removeNetwork
    (workspaceNetworkName input.id)

theorem containers_removeVolume (name : String) :
    (d.removeVolume name).containers = d.containers ∧ (d.removeVolume name).networks = d.networks := by
  rw [Docker.removeVolume]
  split_ifs <;> exact ⟨rfl, rfl⟩

theorem containers_cleaned : (cleaned o input d).containers = d.containers := by
  rw [cleaned, Docker.removeNetwork, Docker.disconnect]
  split <;> exact (containers_removeVolume _).1

theorem volumes_cleaned : (cleaned o input d).volumes = (d.removeVolume (volumeName input.id)).volumes := by
  rw [cleaned, Docker.removeNetwork, Docker.disconnect]
  split <;> rfl

theorem Within.volumes_cleaned (h : Within o input before early [] d) :
    ∀ v ∈ (cleaned o input d).volumes, v ∈ before.volumes := by
  intro v hv
  rw [Orchestrator.volumes_cleaned, Docker.removeVolume] at hv
  split_ifs at hv with huse
  · obtain ⟨c, hc, hmount⟩ := huse
    rw [h.containers, List.append_nil] at hc
    rcases h.volumes v hv with hold | rfl
    · exact hold
    · exact before.mounted c hc _ hmount
  · obtain ⟨hv, hne⟩ := List.mem_filter.mp hv
    exact (h.volumes v hv).resolve_right (of_decide_eq_true hne)

theorem mem_disconnect {name : String} {ref : ContainerRef} {n : Network} (hn : n ∈ (d.disconnect name ref).networks) :
    ∃ m ∈ d.networks, n.name = m.name ∧ (∀ i ∈ n.endpoints, i ∈ m.endpoints) ∧
      (m.name = name → ∀ c, d.find ref = some c → c.id ∉ n.endpoints) := by
  rw [Docker.disconnect] at hn
  split at hn
  next c hc =>
    obtain ⟨m, hm, rfl⟩ := List.mem_map.mp hn
    refine ⟨m, hm, ?_⟩
    split_ifs with hname
    · refine ⟨rfl, fun i hi => List.mem_of_mem_filter hi, fun _ c' hc' hmem => ?_⟩
      rw [hc] at hc'
      cases hc'
      exact of_decide_eq_true (List.mem_filter.mp hmem).2 rfl
    · exact ⟨rfl, fun _ hi => hi, fun h => absurd h hname⟩
  next hnone =>
    refine ⟨n, hn, rfl, fun _ hi => hi, fun _ c' hc' => ?_⟩
    rw [hnone] at hc'
    cases hc'

theorem Within.networks_cleaned (h : Within o input before early [] d) :
    ∀ n ∈ (cleaned o input d).networks, before.hasNetwork n.name = true ∨ n.name = o.network := by
  intro n hn
  rw [cleaned, Docker.removeNetwork] at hn
  obtain ⟨hn, hkept⟩ := List.mem_filter.mp hn
  obtain ⟨m, hm, hname, hends, hleft⟩ := mem_disconnect hn
  rw [(containers_removeVolume _).2] at hm
  rcases h.networks m hm with hold | hnet | ⟨hws, hgateway⟩
  · exact .inl (by rwa [hname])
  · exact .inr (by rwa [hname])
  · exfalso
    have hempty : n.endpoints = [] := by
      rw [List.eq_nil_iff_forall_not_mem]
      intro i hi
      obtain ⟨gateway, hfind, rfl⟩ := hgateway i (hends i hi)
      refine hleft hws gateway ?_ hi
      rw [Docker.find_congr ((containers_removeVolume _).1.trans (h.containers.trans (List.append_nil _))), hfind]
    rw [hempty, hname, hws] at hkept
    simp at hkept

/-- Without the worker container, the handling of an error leaves nothing. -/
theorem Within.clean (h : Within o input before early [] d) : Clean o before (cleaned o input d) := by
  refine ⟨fun c hc => ?_, h.volumes_cleaned, h.networks_cleaned⟩
  rwa [containers_cleaned, h.containers, List.append_nil] at hc

/-- A new container stays. -/
theorem not_clean_cleaned {c : Container} (hc : c ∈ d.containers) (hid : New before c.id) :
    ¬ Clean o before (cleaned o input d) := by
  intro h
  have hold := h.containers c (by rwa [containers_cleaned])
  exact hid c hold rfl

end Within

section Stages

variable (o : DockerOrchestrator) (parseUrl : Text → Option Url) (statusCode : Nat)
  (input : CreateWorkspaceContainerInput) (fault : Option Call) (before : Docker)

def Valid : Prop := ∃ url, normalizeGitUrl parseUrl input.gitUrl input.credential = .ok url

/-- Create comes to start the worker container if none of its calls fails before. -/
structure Reaches : Prop where
  valid : Valid parseUrl input
  gateway : (before.find o.gatewayContainer).isSome
  cloned : statusCode = 0
  free : ∀ c ∈ before.containers, c.name ≠ some (containerName input.id)

/-- The call that fails is the start of the worker container. -/
def Orphans : Prop := fault = some .startWorker ∧ Reaches o parseUrl statusCode input before

/-- Create has come this far, with all calls answered. -/
structure Stage (early : Docker) (extra : List Container) (w : World) : Prop where
  within : Within o input before early extra w.docker
  network : w.docker.hasNetwork o.network = true
  answered : Answered w

/-- Why create throws. -/
def Explained (w : World) : Prop := ¬ Answered w ∨ ¬ (Valid parseUrl input ∧ statusCode = 0)

/-- What the handler of errors finds. -/
def Stopped (w : World) : Prop :=
  Explained parseUrl statusCode input w ∧
    ((∃ early, Within o input before early [] w.docker) ∧ ¬ Orphans o parseUrl statusCode input fault before ∨
      (∃ c ∈ w.docker.containers, New before c.id) ∧ Orphans o parseUrl statusCode input fault before)

variable {o parseUrl statusCode input fault before} {early d : Docker} {extra extra' : List Container} {w : World}
  {site : Call}

theorem not_orphans_of_fault (h : fault = some site) (hsite : site ≠ .startWorker) :
    ¬ Orphans o parseUrl statusCode input fault before := by
  rintro ⟨hfault, -⟩
  rw [h] at hfault
  exact hsite (Option.some.inj hfault)

theorem Stage.next (h : Stage o input before early extra w) (hd : Within o input before early extra' d)
    (hnetwork : d.hasNetwork o.network = true) : Stage o input before early extra' ⟨d, w.calls ++ [(site, true)]⟩ :=
  ⟨hd, hnetwork, answered_concat h.answered d⟩

theorem Stage.look (h : Stage o input before early extra w) :
    Stage o input before early extra ⟨w.docker, w.calls ++ [(site, true)]⟩ := h.next h.within h.network

theorem Stage.stopped (h : Stage o input before early [] w) (hnot : ¬ Orphans o parseUrl statusCode input fault before) :
    Stopped o parseUrl statusCode input fault before ⟨w.docker, w.calls ++ [(site, false)]⟩ :=
  ⟨.inl (not_answered_concat _), .inl ⟨⟨early, h.within⟩, hnot⟩⟩

/-- A call that Docker does not refuse stops create only when it is the one that fails. -/
theorem Stage.fails {α : Type} {effect : Option α} (h : Stage o input before early [] w) (hsite : site ≠ .startWorker)
    (heffect : effect ≠ none) (hfail : fault = some site ∨ effect = none) :
    Stopped o parseUrl statusCode input fault before ⟨w.docker, w.calls ++ [(site, false)]⟩ :=
  h.stopped (not_orphans_of_fault (hfail.resolve_right heffect) hsite)

theorem createNetwork_ne_none {name : String} (h : d.hasNetwork name = false) : d.createNetwork name ≠ none := by
  rw [Docker.createNetwork, h]
  exact Option.some_ne_none _

theorem clean_refl : Clean o before before :=
  ⟨fun _ hc => hc, fun _ hv => hv, fun n hn => .inl (Docker.hasNetwork_iff.mpr ⟨n, hn, rfl⟩)⟩

theorem ensureNetwork_ends :
    Ends (failing fault) (ensureNetwork o) ⟨before, []⟩ (fun _ w => Stage o input before before [] w)
      (fun _ w => Explained parseUrl statusCode input w ∧
        (Clean o before w.docker ↔ ¬ Orphans o parseUrl statusCode input fault before)) (fun _ => False) := by
  refine (ends_look (fun listed w => listed = before.hasNetwork o.network ∧ w.docker = before ∧ Answered w)
    (fun a ha => ?_) (fun hfail => ?_)).bind fun listed w ⟨hlisted, hdocker, hanswered⟩ => ?_
  · cases ha
    exact ⟨rfl, rfl, answered_concat (fun _ h => absurd h List.not_mem_nil) _⟩
  · have hfault := hfail.resolve_right (Option.some_ne_none _)
    exact ⟨.inl (not_answered_concat _), iff_of_true clean_refl (not_orphans_of_fault hfault (by decide))⟩
  · cases listed with
    | true =>
        refine ends_pure ⟨?_, ?_, hanswered⟩
        · rw [hdocker]
          exact within_refl
        · rw [hdocker, ← hlisted]
    | false =>
        refine ends_change (fun d _ hd => ?_) fun hfail => ?_
        · rw [hdocker] at hd
          exact ⟨within_refl.createNetwork (.inl rfl) hd, (hasNetwork_created hd).mpr (.inr rfl), answered_concat hanswered _⟩
        · have hfault := hfail.resolve_right (createNetwork_ne_none (by rw [hdocker, ← hlisted]))
          refine ⟨.inl (not_answered_concat _), iff_of_true ?_ (not_orphans_of_fault hfault (by decide))⟩
          rw [hdocker]
          exact clean_refl

theorem ensureWorkspaceNetwork_ends (h : Stage o input before early [] w) :
    Ends (failing fault) (ensureWorkspaceNetwork input.id) w
      (fun _ w' => Stage o input before early [] w' ∧ w'.docker.hasNetwork (workspaceNetworkName input.id) = true)
      (fun _ w' => Stopped o parseUrl statusCode input fault before w') (fun _ => False) := by
  refine (ends_look (fun listed w' => listed = w.docker.hasNetwork (workspaceNetworkName input.id) ∧
      w'.docker = w.docker ∧ Stage o input before early [] w') (fun a ha => ?_)
    (h.fails (by decide) (Option.some_ne_none _))).bind fun listed w' ⟨hlisted, hdocker, h'⟩ => ?_
  · cases ha
    exact ⟨rfl, rfl, h.look⟩
  · rw [← hdocker] at hlisted
    cases listed with
    | true => exact ends_pure ⟨h', hlisted.symm⟩
    | false =>
        refine ends_change (fun d _ hd => ?_) (h'.fails (by decide) (createNetwork_ne_none hlisted.symm))
        have hcreated : ∀ name, d.hasNetwork name = true ↔ w'.docker.hasNetwork name = true ∨
            name = workspaceNetworkName input.id := fun _ => hasNetwork_created hd
        exact ⟨h'.next (h'.within.createNetwork (.inr rfl) hd) ((hcreated _).mpr (.inl h'.network)),
          (hcreated _).mpr (.inr rfl)⟩

theorem attachGateway_ends (h : Stage o input before early [] w)
    (hws : w.docker.hasNetwork (workspaceNetworkName input.id) = true) :
    Ends (failing fault) (attachGateway o input.id) w
      (fun _ w' => Stage o input before early [] w' ∧ w'.docker.hasNetwork (workspaceNetworkName input.id) = true ∧
        (before.find o.gatewayContainer).isSome)
      (fun _ w' => Stopped o parseUrl statusCode input fault before w') (fun _ => False) := by
  obtain ⟨network, hnetwork⟩ := Docker.exists_network hws
  have hfind : w.docker.find o.gatewayContainer = before.find o.gatewayContainer :=
    Docker.find_congr (h.within.containers.trans (List.append_nil _)) _
  have hsome : w.docker.network (workspaceNetworkName input.id) ≠ none := by
    rw [hnetwork]
    exact Option.some_ne_none _
  refine (ends_look (fun n w' => n = network ∧ w'.docker = w.docker ∧ Stage o input before early [] w') (fun n hn => ?_)
    (h.fails (by decide) hsome)).bind fun n w' ⟨hn, hdocker, h'⟩ => ?_
  · rw [hnetwork] at hn
    cases hn
    exact ⟨rfl, rfl, h.look⟩
  subst hn
  refine (ends_look (fun c w'' => before.find o.gatewayContainer = some c ∧ w''.docker = w.docker ∧
      Stage o input before early [] w'') (fun c hc => ?_) (fun hfail => h'.stopped ?_)).bind
    fun c w'' ⟨hc, hdocker', h''⟩ => ?_
  · rw [hdocker, hfind] at hc
    exact ⟨hc, hdocker, h'.look⟩
  · rcases hfail with hfault | hnone
    · exact not_orphans_of_fault hfault (by decide)
    · rintro ⟨-, hreaches⟩
      rw [hdocker, hfind] at hnone
      have hsome := hreaches.gateway
      rw [hnone] at hsome
      cases hsome
  · have hgateway : (before.find o.gatewayContainer).isSome := by rw [hc]; rfl
    by_cases hin : n.endpoints.contains c.id = true
    · rw [hin]
      refine ends_pure ⟨h'', ?_, hgateway⟩
      rwa [hdocker']
    · have hconnect : w''.docker.connect (workspaceNetworkName input.id) c.id ≠ none := by
        rw [hdocker', Docker.connect, hnetwork]
        dsimp only
        rw [if_neg hin]
        exact Option.some_ne_none _
      rw [Bool.eq_false_iff.mpr hin]
      refine ends_change (fun d _ hd => ?_) (h''.fails (by decide) hconnect)
      have hnames := Docker.hasNetwork_map (connect_eq hd).2.2 (fun n => n.join_name _ _)
      refine ⟨h''.next (h''.within.connect hc hd) ?_, ?_, hgateway⟩
      · rw [hnames]
        exact h''.network
      · rw [hnames, hdocker']
        exact hws

theorem normalized_ends (w : World) :
    Ends (failing fault) (normalized parseUrl input) w (fun _ w' => w' = w ∧ Valid parseUrl input)
      (fun _ w' => w' = w ∧ ¬ Valid parseUrl input) (fun _ => False) := by
  rw [normalized]
  cases hurl : normalizeGitUrl parseUrl input.gitUrl input.credential with
  | ok url => exact ends_pure ⟨rfl, url, hurl⟩
  | error text =>
      refine ends_throw ⟨rfl, ?_⟩
      rintro ⟨url, hok⟩
      rw [hurl] at hok
      cases hok

/-- The helper stays until it is removed, also after an error. -/
def HelperStopped (o : DockerOrchestrator) (parseUrl : Text → Option Url) (statusCode : Nat)
    (input : CreateWorkspaceContainerInput) (fault : Option Call) (before early : Docker) (id : Nat) (w : World) : Prop :=
  (∃ c, c.id = id ∧ Within o input before early [c] w.docker) ∧ Explained parseUrl statusCode input w ∧
    ¬ Orphans o parseUrl statusCode input fault before

theorem Stage.helper_fails {α : Type} {effect : Option α} {c : Container} (h : Stage o input before early [c] w)
    (hsite : site ≠ .startWorker) (heffect : effect ≠ none) (hfail : fault = some site ∨ effect = none) :
    HelperStopped o parseUrl statusCode input fault before early c.id ⟨w.docker, w.calls ++ [(site, false)]⟩ :=
  ⟨⟨c, rfl, h.within⟩, .inl (not_answered_concat _), not_orphans_of_fault (hfail.resolve_right heffect) hsite⟩

theorem attachStdin_ends {c : Container} (h : Stage o input before early [c] w) :
    Ends (failing fault) (attachStdin input) w (fun _ w' => Stage o input before early [c] w')
      (fun _ w' => HelperStopped o parseUrl statusCode input fault before early c.id w') (fun _ => False) := by
  rw [attachStdin]
  split_ifs
  · exact ends_look _ (fun _ _ => h.look) (h.helper_fails (by decide) (Option.some_ne_none _))
  · exact ends_pure h

theorem runHelper_ends {c : Container} (h : Stage o input before early [c] w) (hid : New before c.id)
    (hc : c.network = o.network) :
    Ends (failing fault) (runHelper o statusCode input c.id) w
      (fun _ w' => (∃ c', c'.id = c.id ∧ Stage o input before early [c'] w') ∧ statusCode = 0)
      (fun _ w' => HelperStopped o parseUrl statusCode input fault before early c.id w') (fun _ => False) := by
  refine (attachStdin_ends h).bind fun _ w₁ h₁ => ?_
  have hstart : w₁.docker.start c.id ≠ none := start_ne_none h₁.within.containers hid (by rw [hc]; exact h₁.network)
  have hstarted : Ends (failing fault) (change .startHelper fun d => d.start c.id) w₁
      (fun _ w₂ => Stage o input before early [{ c with running := true }] w₂)
      (fun _ w₂ => HelperStopped o parseUrl statusCode input fault before early c.id w₂) (fun _ => False) := by
    refine ends_change (fun d _ hd => ?_) (h₁.helper_fails (by decide) hstart)
    exact h₁.next (h₁.within.start hid hc hd) ((h₁.within.rebase.start hid hc hd).kept_networks _ h₁.network)
  refine hstarted.bind fun _ w₂ h₂ => ?_
  refine (ends_look (fun status w₃ => status = statusCode ∧ Stage o input before early [{ c with running := true }] w₃)
    (fun status hs => ?_) (h₂.helper_fails (by decide) (Option.some_ne_none _))).bind fun status w₃ ⟨hs, h₃⟩ => ?_
  · cases hs
    exact ⟨rfl, h₂.look⟩
  subst hs
  by_cases hzero : status = 0
  · rw [if_neg (not_not.mpr hzero)]
    exact ends_pure ⟨⟨{ c with running := true }, rfl, h₃⟩, hzero⟩
  · rw [if_pos hzero]
    have hstopped : HelperStopped o parseUrl status input fault before early c.id w₃ :=
      ⟨⟨{ c with running := true }, rfl, h₃.within⟩, .inr fun h => hzero h.2, fun h => hzero h.2.cloned⟩
    split_ifs
    · exact ends_throw hstopped
    · exact ends_throw hstopped

theorem Within.new (h : Within o input before early [] d) {name : Option String} {volume network : String} {id : Nat}
    {e : Docker} (he : d.createContainer name volume network = some (id, e)) : New before id := by
  obtain ⟨rfl, -⟩ := createContainer_eq he
  intro c hc
  refine Docker.id_ne ?_ (Nat.le_refl _)
  rwa [h.containers, List.append_nil]

theorem cloneRepository_ends (h : Stage o input before early [] w) :
    Ends (failing fault) (cloneRepository o parseUrl statusCode (volumeName input.id) input) w
      (fun _ w' => Stage o input before early [] w' ∧ Valid parseUrl input ∧ statusCode = 0)
      (fun _ w' => Stopped o parseUrl statusCode input fault before w') (fun _ => False) := by
  have hurl : Ends (failing fault) (normalized parseUrl input) w _ _ _ := normalized_ends w
  refine (hurl.mono (fun _ _ h => h) (fun _ w' h' => ?_) (fun _ h => h)).bind fun url w' ⟨hw, hvalid⟩ => ?_
  · obtain ⟨rfl, hinvalid⟩ := h'
    exact ⟨.inr fun h => hinvalid h.1, .inl ⟨⟨early, h.within⟩, fun h => hinvalid h.2.valid⟩⟩
  subst hw
  have hcreated : w'.docker.createContainer none (volumeName input.id) o.network ≠ none := by
    rw [Docker.createContainer]
    exact Option.some_ne_none _
  have hhelper : Ends (failing fault) (call .createHelper fun d => d.createContainer none (volumeName input.id) o.network)
      w' (fun helper w₁ => ∃ c, c.id = helper ∧ New before c.id ∧ c.network = o.network ∧
        Stage o input before early [c] w₁)
      (fun _ w₁ => Stopped o parseUrl statusCode input fault before w₁) (fun _ => False) := by
    refine ends_call (fun helper d _ hd => ?_) (h.fails (by decide) hcreated)
    have hnetwork := (h.within.rebase.createContainer hd).kept_networks _ h.network
    exact ⟨_, rfl, h.within.new hd, rfl, h.next (h.within.createContainer hd) hnetwork⟩
  refine hhelper.bind fun helper w₁ ⟨c, hc, hid, hnet, h₁⟩ => ?_
  subst hc
  have hrun : Ends (failing fault) (runHelper o statusCode input c.id) w₁ _
      (fun _ w₂ => HelperStopped o parseUrl statusCode input fault before early c.id w₂) _ := runHelper_ends h₁ hid hnet
  refine hrun.always (fun _ w₂ ⟨⟨c', hc', h₂⟩, hzero⟩ => ?_)
    (fun _ w₂ ⟨⟨c', hc', h₂⟩, hexplained, hnot⟩ => ?_)
  · rw [← hc'] at hid ⊢
    refine ends_update ⟨⟨h₂.within.removeContainer hid, ?_, h₂.answered⟩, hvalid, hzero⟩
    exact (h₂.within.rebase.removeContainer hid).kept_networks _ h₂.network
  · rw [← hc'] at hid ⊢
    exact ends_update ⟨hexplained, .inl ⟨⟨early, h₂.removeContainer hid⟩, hnot⟩⟩

/-- All is there but the worker container. -/
structure Prepared (o : DockerOrchestrator) (input : CreateWorkspaceContainerInput) (before : Docker) (extra : List Container)
    (w : World) : Prop where
  stage : Stage o input before before extra w
  network : w.docker.hasNetwork (workspaceNetworkName input.id) = true
  volume : volumeName input.id ∈ w.docker.volumes

def worker (input : CreateWorkspaceContainerInput) (id : Nat) (running : Bool) : Container :=
  ⟨id, some (containerName input.id), [volumeName input.id], workspaceNetworkName input.id, running⟩

theorem createWorkerContainer_ends (h : Prepared o input before [] w)
    (hrest : Valid parseUrl input ∧ (before.find o.gatewayContainer).isSome ∧ statusCode = 0) :
    Ends (failing fault) (createWorkerContainer input.id (containerName input.id) (volumeName input.id)) w
      (fun id w' => Prepared o input before [worker input id false] w' ∧ New before id ∧
        Reaches o parseUrl statusCode input before)
      (fun _ w' => Stopped o parseUrl statusCode input fault before w') (fun _ => False) := by
  have hcontainers : w.docker.containers = before.containers := h.stage.within.containers.trans (List.append_nil _)
  refine ends_call (fun id d _ hd => ?_) fun hfail => h.stage.stopped ?_
  · have hkept := h.stage.within.rebase.createContainer hd
    refine ⟨⟨h.stage.next (h.stage.within.createContainer hd) (hkept.kept_networks _ h.stage.network),
      hkept.kept_networks _ h.network, hkept.kept_volumes _ h.volume⟩, h.stage.within.new hd, hrest.1, hrest.2.1,
      hrest.2.2, fun c hc hname => ?_⟩
    rw [Docker.createContainer] at hd
    split_ifs at hd with htaken
    refine htaken ?_
    rw [hcontainers]
    simpa using ⟨c, hc, hname⟩
  · rcases hfail with hfault | hnone
    · exact not_orphans_of_fault hfault (by decide)
    · rintro ⟨-, hreaches⟩
      rw [Docker.createContainer] at hnone
      split_ifs at hnone with htaken
      rw [hcontainers] at htaken
      simp at htaken
      obtain ⟨c, hc, hname⟩ := htaken
      exact hreaches.free c hc hname

theorem startWorker_ends {id : Nat} (h : Prepared o input before [worker input id false] w) (hid : New before id)
    (hreaches : Reaches o parseUrl statusCode input before) :
    Ends (failing fault) (change .startWorker fun d => d.start id) w
      (fun _ w' => Made o input before w'.docker ∧ Answered w' ∧ ¬ Orphans o parseUrl statusCode input fault before)
      (fun _ w' => Stopped o parseUrl statusCode input fault before w') (fun _ => False) := by
  have hstart : w.docker.start id ≠ none := start_ne_none h.stage.within.containers hid h.network
  refine ends_change (fun d hfault hd => ?_) fun hfail => ?_
  · obtain ⟨hcontainers, hvolumes, hnetworks⟩ := start_last h.stage.within.containers hid hd
    have hnames := Docker.hasNetwork_map hnetworks (fun n => n.join_name _ _)
    refine ⟨⟨⟨id, hcontainers⟩, fun v => ?_, fun name => ?_⟩, answered_concat h.stage.answered _, fun h => hfault h.1⟩
    · rw [hvolumes]
      refine ⟨h.stage.within.volumes v, ?_⟩
      rintro (hv | rfl)
      · exact h.stage.within.kept_volumes v hv
      · exact h.volume
    · rw [hnames]
      constructor
      · intro hname
        obtain ⟨n, hn, rfl⟩ := Docker.hasNetwork_iff.mp hname
        exact (h.stage.within.networks n hn).imp_right (Or.imp_right And.left)
      · rintro (hold | rfl | rfl)
        · exact h.stage.within.kept_networks name hold
        · exact h.stage.network
        · exact h.network
  · have hfault := hfail.resolve_right hstart
    refine ⟨.inl (not_answered_concat _), .inr ⟨⟨worker input id false, ?_, hid⟩, hfault, hreaches⟩⟩
    rw [h.stage.within.containers]
    exact List.mem_append_right _ (List.mem_singleton_self _)

theorem provision_ends (workerToken : String) (h : Stage o input before before [] w) :
    Ends (failing fault) (provision o parseUrl statusCode workerToken input) w
      (fun created w' => created = ⟨containerName input.id, volumeName input.id, workerToken⟩ ∧
        Made o input before w'.docker ∧ Answered w' ∧ ¬ Orphans o parseUrl statusCode input fault before)
      (fun _ w' => Stopped o parseUrl statusCode input fault before w') (fun _ => False) := by
  refine (ensureWorkspaceNetwork_ends h).bind fun _ w₁ ⟨h₁, hws₁⟩ => ?_
  refine (attachGateway_ends h₁ hws₁).bind fun _ w₂ ⟨h₂, hws₂, hgateway⟩ => ?_
  have hvolume : Ends (failing fault) (change .createVolume fun d => some (d.createVolume (volumeName input.id))) w₂
      (fun _ w₃ => Prepared o input before [] w₃)
      (fun _ w₃ => Stopped o parseUrl statusCode input fault before w₃) (fun _ => False) := by
    refine ends_change (fun d _ hd => ?_) (h₂.fails (by decide) (Option.some_ne_none _))
    cases hd
    exact ⟨h₂.next h₂.within.createVolume h₂.network, hws₂, Docker.mem_createVolume _ _⟩
  refine hvolume.bind fun _ w₃ h₃ => ?_
  have hrebased : Stage o input before w₃.docker [] w₃ := ⟨h₃.stage.within.rebase, h₃.stage.network, h₃.stage.answered⟩
  refine (cloneRepository_ends hrebased).bind fun _ w₄ ⟨h₄, hvalid, hzero⟩ => ?_
  have hprepared : Prepared o input before [] w₄ :=
    ⟨⟨⟨h₄.within.containers, h₄.within.volumes, h₄.within.networks,
      fun v hv => h₄.within.kept_volumes v (h₃.stage.within.kept_volumes v hv),
      fun name hn => h₄.within.kept_networks name (h₃.stage.within.kept_networks name hn)⟩, h₄.network, h₄.answered⟩,
      h₄.within.kept_networks _ h₃.network, h₄.within.kept_volumes _ h₃.volume⟩
  refine (createWorkerContainer_ends hprepared ⟨hvalid, hgateway, hzero⟩).bind fun id w₅ ⟨h₅, hid, hreaches⟩ => ?_
  refine (startWorker_ends h₅ hid hreaches).bind fun _ w₆ hmade => ?_
  exact ends_pure ⟨rfl, hmade⟩

theorem cleanUp_ends (h : Stopped o parseUrl statusCode input fault before w) (e : CreateError) :
    Ends (failing fault)
      (do
        cleanUp fun d => d.removeVolume (volumeName input.id)
        removeWorkspaceNetwork o input.id
        throw (.error e) : CreateM Created) w (fun _ _ => False)
      (fun _ w' => Explained parseUrl statusCode input w' ∧
        (Clean o before w'.docker ↔ ¬ Orphans o parseUrl statusCode input fault before)) (fun _ => False) := by
  obtain ⟨hexplained, hstate⟩ := h
  have hclean : Clean o before (cleaned o input w.docker) ↔ ¬ Orphans o parseUrl statusCode input fault before := by
    rcases hstate with ⟨⟨early, hwithin⟩, hnot⟩ | ⟨⟨c, hc, hid⟩, horphans⟩
    · exact iff_of_true hwithin.clean hnot
    · exact iff_of_false (not_clean_cleaned hc hid) (not_not.mpr horphans)
  exact ⟨rfl, hexplained, hclean⟩

/-- How create ends. -/
theorem create_ends (workerToken : String) :
    Ends (failing fault) (create o parseUrl statusCode workerToken input) ⟨before, []⟩
      (fun created w => created = ⟨containerName input.id, volumeName input.id, workerToken⟩ ∧
        Made o input before w.docker ∧ Answered w ∧ ¬ Orphans o parseUrl statusCode input fault before)
      (fun _ w => Explained parseUrl statusCode input w ∧
        (Clean o before w.docker ↔ ¬ Orphans o parseUrl statusCode input fault before)) (fun _ => False) := by
  have hurl : Ends (failing fault) (normalized parseUrl input) ⟨before, []⟩ _ _ _ := normalized_ends ⟨before, []⟩
  refine (hurl.mono (fun _ _ h => h) (fun _ w h => ?_) (fun _ h => h)).bind fun url w ⟨hw, hvalid⟩ => ?_
  · obtain ⟨rfl, hinvalid⟩ := h
    exact ⟨.inr fun h => hinvalid h.1, iff_of_true clean_refl fun h => hinvalid h.2.valid⟩
  subst hw
  refine ensureNetwork_ends.bind fun _ w h => ?_
  exact (provision_ends workerToken h).attempt fun e w' hstopped =>
      (cleanUp_ends hstopped e).mono (fun _ _ h => h.elim) (fun _ _ h => h) (fun _ h => h)

end Stages

/-- How a run of create ends, and what it leaves. -/
def run (o : DockerOrchestrator) (parseUrl : Text → Option Url) (statusCode : Nat) (workerToken : String)
    (input : CreateWorkspaceContainerInput) (fault : Option Call) (before : Docker) :
    Except (Stop CreateError) Created × World :=
  let ended := Prog.exec (create o parseUrl statusCode workerToken input) ⟨⟨before, []⟩, failing fault⟩
  (ended.1, ended.2.state)

/-- What creating a workspace owes to the host. -/
structure Tidy (o : DockerOrchestrator) (parseUrl : Text → Option Url) (statusCode : Nat) (workerToken : String)
    (input : CreateWorkspaceContainerInput) (fault : Option Call) (before : Docker) : Prop where
  throws : (∃ c ∈ (run o parseUrl statusCode workerToken input fault before).2.calls, c.2 = false) →
    ∃ e, (run o parseUrl statusCode workerToken input fault before).1 = .error e
  clean : ∀ e, (run o parseUrl statusCode workerToken input fault before).1 = .error e →
    Clean o before (run o parseUrl statusCode workerToken input fault before).2.docker
  made : Valid parseUrl input → statusCode = 0 →
    (∀ c ∈ (run o parseUrl statusCode workerToken input fault before).2.calls, c.2 = true) →
    (run o parseUrl statusCode workerToken input fault before).1 =
        .ok ⟨containerName input.id, volumeName input.id, workerToken⟩ ∧
      Made o input before (run o parseUrl statusCode workerToken input fault before).2.docker

section Claims

variable (o : DockerOrchestrator) (parseUrl : Text → Option Url) (statusCode : Nat) (workerToken : String)
  (input : CreateWorkspaceContainerInput) (fault : Option Call) (before : Docker)

theorem run_ends :
    ((run o parseUrl statusCode workerToken input fault before).1 =
        .ok ⟨containerName input.id, volumeName input.id, workerToken⟩ ∧
      Made o input before (run o parseUrl statusCode workerToken input fault before).2.docker ∧
      Answered (run o parseUrl statusCode workerToken input fault before).2 ∧
      ¬ Orphans o parseUrl statusCode input fault before) ∨
    ∃ e, (run o parseUrl statusCode workerToken input fault before).1 = .error e ∧
      Explained parseUrl statusCode input (run o parseUrl statusCode workerToken input fault before).2 ∧
      (Clean o before (run o parseUrl statusCode workerToken input fault before).2.docker ↔
        ¬ Orphans o parseUrl statusCode input fault before) := by
  have hends : Ends (failing fault) (create o parseUrl statusCode workerToken input) ⟨before, []⟩ _ _ _ :=
    create_ends workerToken
  rw [Ends] at hends
  rw [run]
  generalize Prog.exec (create o parseUrl statusCode workerToken input) ⟨⟨before, []⟩, failing fault⟩ = x at hends ⊢
  obtain ⟨(_ | e) | created, w⟩ := x
  · exact hends.elim
  · exact .inr ⟨_, rfl, hends.2⟩
  · obtain ⟨-, rfl, hmade⟩ := hends
    exact .inl ⟨rfl, hmade⟩

theorem not_tidy_of_orphans (h : Orphans o parseUrl statusCode input fault before) :
    ¬ Tidy o parseUrl statusCode workerToken input fault before := by
  intro ht
  rcases run_ends o parseUrl statusCode workerToken input fault before with ⟨-, -, -, hnot⟩ | ⟨e, he, -, hclean⟩
  · exact hnot h
  · exact hclean.mp (ht.clean e he) h

theorem tidy_of_not_orphans (h : ¬ Orphans o parseUrl statusCode input fault before) :
    Tidy o parseUrl statusCode workerToken input fault before := by
  rcases run_ends o parseUrl statusCode workerToken input fault before with ⟨hok, hmade, hanswered, -⟩ |
    ⟨e, he, hexplained, hclean⟩
  · refine ⟨fun ⟨c, hc, hfailed⟩ => ?_, fun e he => ?_, fun _ _ _ => ⟨hok, hmade⟩⟩
    · rw [hanswered c hc] at hfailed
      cases hfailed
    · rw [hok] at he
      cases he
  · refine ⟨fun _ => ⟨e, he⟩, fun _ _ => hclean.mpr h, fun hvalid hzero hall => ?_⟩
    rcases hexplained with hnot | hnot
    · exact absurd hall hnot
    · exact absurd ⟨hvalid, hzero⟩ hnot

end Claims

/-- A host with a gateway, and nothing else. -/
def host : Docker where
  containers := [⟨0, some "gateway", [], "kross-cloud", true⟩]
  volumes := []
  networks := []
  nextId := 1
  fresh := by decide
  mounted := by decide

end Kross.Server.Orchestrator

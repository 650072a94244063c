import Kross.Past
import Kross.Server.GatewayFanout

namespace Kross.Server

open Kross.Mutation Kross.Past Kross.Run Clients

namespace Task

/-- The task may write a record of the workspace or make a client for it. -/
def Holds (workspaceId : String) : Task → Prop
  | .creating id => id = workspaceId
  | .lifecycle _ record => record.id = workspaceId
  | .starting record _ => record.id = workspaceId
  | .locating record _ => record.id = workspaceId
  | .checking record _ => record.id = workspaceId
  | .reaping record _ => record.id = workspaceId
  | .clearing _ => False
  | .removing _ => False
  | .sending .. => False
  | .done => False

instance (workspaceId : String) : DecidablePred (Holds workspaceId) := fun task =>
  match task with
  | .creating id => inferInstanceAs (Decidable (id = workspaceId))
  | .lifecycle _ record => inferInstanceAs (Decidable (record.id = workspaceId))
  | .starting record _ => inferInstanceAs (Decidable (record.id = workspaceId))
  | .locating record _ => inferInstanceAs (Decidable (record.id = workspaceId))
  | .checking record _ => inferInstanceAs (Decidable (record.id = workspaceId))
  | .reaping record _ => inferInstanceAs (Decidable (record.id = workspaceId))
  | .clearing _ => inferInstanceAs (Decidable False)
  | .removing _ => inferInstanceAs (Decidable False)
  | .sending .. => inferInstanceAs (Decidable False)
  | .done => inferInstanceAs (Decidable False)

/-- A command for the workspace is on its way. -/
def Forwards (workspaceId : String) : Task → Prop
  | .starting record (.command _) => record.id = workspaceId
  | .locating record (.command _) => record.id = workspaceId
  | .sending _ id (.command _) => id = workspaceId
  | _ => False

/-- A sweep is at the workspace. -/
def Sweeps (workspaceId : String) : Task → Prop
  | .checking record _ => record.id = workspaceId
  | .reaping record _ => record.id = workspaceId
  | _ => False

/-- The task deletes the workspace. -/
def Deletes (workspaceId : String) : Task → Prop
  | .clearing record => record.id = workspaceId
  | .removing record => record.id = workspaceId
  | _ => False

/-- The task is about one workspace and no sweep's; `command` is whether it forwards a
command. -/
structure About (workspaceId : String) (command : Prop) (task : Task) : Prop where
  holds : ∀ id, task.Holds id → id = workspaceId
  sweeps : ∀ id, ¬task.Sweeps id
  forwards : ∀ id, task.Forwards id → id = workspaceId ∧ command
  deletes : ∀ id, task.Deletes id → id = workspaceId

end Task

def Purpose.IsCommand (purpose : Purpose) : Prop := ∃ command, purpose = .command command

namespace Task

variable {record : WorkspaceRecord} {purpose : Purpose} {workspaceId : String} {command : Prop}

theorem about_done : About workspaceId command .done :=
  ⟨fun _ h => h.elim, fun _ h => h, fun _ h => h.elim, fun _ h => h.elim⟩

theorem about_creating : About workspaceId command (.creating workspaceId) :=
  ⟨fun _ h => h.symm, fun _ h => h, fun _ h => h.elim, fun _ h => h.elim⟩

theorem about_lifecycle {operation : Operation} : About record.id command (.lifecycle operation record) :=
  ⟨fun _ h => h.symm, fun _ h => h, fun _ h => h.elim, fun _ h => h.elim⟩

theorem about_clearing : About record.id command (.clearing record) :=
  ⟨fun _ h => h.elim, fun _ h => h, fun _ h => h.elim, fun _ h => h.symm⟩

theorem about_removing : About record.id command (.removing record) :=
  ⟨fun _ h => h.elim, fun _ h => h, fun _ h => h.elim, fun _ h => h.symm⟩

theorem about_starting : About record.id purpose.IsCommand (.starting record purpose) := by
  refine ⟨fun _ h => h.symm, fun _ h => h, fun id h => ?_, fun _ h => h.elim⟩
  cases purpose with
  | command command => exact ⟨h.symm, command, rfl⟩
  | status => exact h.elim
  | notify => exact h.elim

theorem about_locating : About record.id purpose.IsCommand (.locating record purpose) := by
  refine ⟨fun _ h => h.symm, fun _ h => h, fun id h => ?_, fun _ h => h.elim⟩
  cases purpose with
  | command command => exact ⟨h.symm, command, rfl⟩
  | status => exact h.elim
  | notify => exact h.elim

theorem about_sending {client : ClientId} :
    About workspaceId purpose.IsCommand (.sending client workspaceId purpose) := by
  refine ⟨fun _ h => h.elim, fun _ h => h, fun id h => ?_, fun _ h => h.elim⟩
  cases purpose with
  | command command => exact ⟨h.symm, command, rfl⟩
  | status => exact h.elim
  | notify => exact h.elim

end Task

def Entry.isCommand (workspaceId : String) (entry : Entry) : Prop :=
  ∃ command, entry = .forwarded workspaceId (.command command)

/-- Since the sweep asked whether the workspace is busy no command was forwarded to it. -/
def Undisturbed (workspaceId : String) (sweep : Nat) (log : List Entry) : Prop :=
  Since (fun _ entry => entry = .checks workspaceId sweep) (fun _ entry => entry.isCommand workspaceId) log

/-- An accepted delete leaves neither a record nor a client, and a sweep stops no
container that was sent a command since it was asked. -/
def Orderly (g : Gateway) : Prop :=
  (∀ workspaceId, .accepted workspaceId ∈ g.log →
    mapGet workspaceId g.records = none ∧ mapGet workspaceId g.clients.cached = none) ∧
  ∀ before workspaceId sweep rest, g.log = before ++ .stops workspaceId sweep :: rest →
    Undisturbed workspaceId sweep before

namespace Gateway

def Any (P : Task → Prop) (g : Gateway) : Prop := ∃ task ∈ g.tasks, P task

instance (P : Task → Prop) [DecidablePred P] (g : Gateway) : Decidable (g.Any P) :=
  inferInstanceAs (Decidable (∃ task ∈ g.tasks, P task))

/-- The workspace that a sweep goes on with has no command on its way. -/
def Picks (idleMs : Nat) (rest : List WorkspaceRecord) (g : Gateway) : Prop :=
  ∀ record more, g.nextIdle idleMs rest = some (record, more) → ¬g.Any (Task.Forwards record.id)

end Gateway

/-- No command arrives for a workspace while a sweep is at it and no sweep comes to a
workspace while a command for it is on its way; and a delete ends when no task holds
a clone of the record and no client was made meanwhile. -/
def LifecycleAllowed (idleMs : Nat) (g : Gateway) : GatewayStep → Prop
  | .forwards workspaceId _ =>
      mapGet workspaceId g.records ≠ none → ¬g.Any (Task.Sweeps workspaceId)
  | .deletes workspaceId => mapGet workspaceId g.records ≠ none → mapGet workspaceId g.clients.cached ≠ none →
      ¬g.Any (Task.Sweeps workspaceId)
  | .sweeps => idleMs ≠ 0 → g.Picks idleMs g.list
  | .resumed i outcome => match g.tasks[i]? with
      | some (.removing record) => outcome = .returned →
          mapGet record.id g.clients.cached = none ∧ ¬g.Any (Task.Holds record.id)
      | some (.checking _ rest) => outcome ≠ .returned → g.Picks idleMs rest
      | some (.reaping record rest) => outcome = .returned →
          (g.put { record with status := .stopped, updatedAt := g.now }).Picks idleMs rest
      | _ => True
  | _ => True

namespace Gateway

variable {idleMs i : Nat} {g g' g'' : Gateway} {workspaceId : String} {purpose : Purpose}
  {record : WorkspaceRecord} {rest : List WorkspaceRecord} {command : Prop} {task : Task}

/-- Something of the workspace is left. -/
def Alive (g : Gateway) (workspaceId : String) : Prop :=
  mapGet workspaceId g.records ≠ none ∨ mapGet workspaceId g.clients.cached ≠ none ∨
    g.Any (Task.Holds workspaceId)

def Keyed (g : Gateway) : Prop := ∀ workspaceId record, mapGet workspaceId g.records = some record → record.id = workspaceId

/-- A part of a call that is about one workspace; `command` is whether it forwards a
command to it. -/
structure Moves (g g' : Gateway) (workspaceId : String) (command : Prop) : Prop where
  known : g'.known = g.known
  log : g'.log = g.log
  keyed : g.Keyed → g'.Keyed
  alive : ∀ id, g'.Alive id → g.Alive id ∨ id = workspaceId
  tasks : ∀ (i : Nat) (task : Task), g'.tasks[i]? = some task → g.tasks[i]? = some task ∨
    ∀ id, ¬task.Sweeps id ∧ (task.Forwards id → id = workspaceId ∧ command) ∧
      (task.Deletes id → id = workspaceId)

structure Lawful (g : Gateway) : Prop where
  keyed : g.Keyed
  known : ∀ workspaceId, g.Alive workspaceId → workspaceId ∈ g.known
  named : ∀ workspaceId, g.Any (Task.Deletes workspaceId) → workspaceId ∈ g.known
  accepted : ∀ workspaceId, .accepted workspaceId ∈ g.log →
    workspaceId ∈ g.known ∧ ¬g.Alive workspaceId
  apart : ∀ workspaceId, g.Any (Task.Sweeps workspaceId) → ¬g.Any (Task.Forwards workspaceId)
  asked : ∀ (i : Nat) (task : Task) workspaceId, g.tasks[i]? = some task → task.Sweeps workspaceId →
    Undisturbed workspaceId i g.log
  stopped : ∀ before workspaceId sweep rest, g.log = before ++ .stops workspaceId sweep :: rest →
    Undisturbed workspaceId sweep before

theorem Lawful.orderly (h : Lawful g) : Orderly g := by
  refine ⟨fun id ha => ?_, h.stopped⟩
  have hdead := (h.accepted id ha).2
  constructor
  · by_contra hn
    exact hdead (Or.inl hn)
  · by_contra hn
    exact hdead (Or.inr (Or.inl hn))

theorem any_iff {P : Task → Prop} : g.Any P ↔ ∃ (i : Nat) (task : Task), g.tasks[i]? = some task ∧ P task := by
  constructor
  · rintro ⟨task, hm, hp⟩
    obtain ⟨i, hi⟩ := List.mem_iff_getElem?.mp hm
    exact ⟨i, task, hi, hp⟩
  · rintro ⟨i, task, hi, hp⟩
    exact ⟨task, List.mem_of_getElem? hi, hp⟩

theorem moves_refl : Moves g g workspaceId command :=
  ⟨rfl, rfl, fun hk => hk, fun _ ha => Or.inl ha, fun _ _ ht => Or.inl ht⟩

theorem Moves.trans (h : Moves g g' workspaceId command) (h' : Moves g' g'' workspaceId command) :
    Moves g g'' workspaceId command := by
  refine ⟨h'.known.trans h.known, h'.log.trans h.log, fun hk => h'.keyed (h.keyed hk), fun id ha => ?_,
    fun i task ht => ?_⟩
  · rcases h'.alive id ha with ha | rfl
    · exact h.alive id ha
    · exact Or.inr rfl
  · rcases h'.tasks i task ht with ht | ht
    · exact h.tasks i task ht
    · exact Or.inr ht

theorem any_spawn {P : Task → Prop} (h : (g.spawn task).Any P) (hn : ¬P task) : g.Any P := by
  obtain ⟨t, ht, hp⟩ := h
  rcases List.mem_append.mp ht with ht | ht
  · exact ⟨t, ht, hp⟩
  · cases List.mem_singleton.mp ht
    exact absurd hp hn

theorem any_setTask {P : Task → Prop} (h : (g.setTask i task).Any P) (hn : ¬P task) : g.Any P := by
  obtain ⟨t, ht, hp⟩ := h
  rcases List.mem_or_eq_of_mem_set ht with ht | rfl
  · exact ⟨t, ht, hp⟩
  · exact absurd hp hn

theorem moves_spawn (h : task.About workspaceId command) : Moves g (g.spawn task) workspaceId command := by
  refine ⟨rfl, rfl, fun hk => hk, fun id ha => ?_, fun j t ht => ?_⟩
  · rcases ha with ha | ha | ⟨t, ht, ha⟩
    · exact Or.inl (Or.inl ha)
    · exact Or.inl (Or.inr (Or.inl ha))
    · rcases List.mem_append.mp ht with ht | ht
      · exact Or.inl (Or.inr (Or.inr ⟨t, ht, ha⟩))
      · cases List.mem_singleton.mp ht
        exact Or.inr (h.holds id ha)
  · rw [spawn, List.getElem?_append] at ht
    split_ifs at ht
    · exact Or.inl ht
    · cases List.mem_singleton.mp (List.mem_of_getElem? ht)
      exact Or.inr (fun id => ⟨h.sweeps id, h.forwards id, h.deletes id⟩)

theorem moves_setTask (h : task.About workspaceId command) : Moves g (g.setTask i task) workspaceId command := by
  refine ⟨rfl, rfl, fun hk => hk, fun id ha => ?_, fun j t ht => ?_⟩
  · rcases ha with ha | ha | ⟨t, ht, ha⟩
    · exact Or.inl (Or.inl ha)
    · exact Or.inl (Or.inr (Or.inl ha))
    · rcases List.mem_or_eq_of_mem_set ht with ht | rfl
      · exact Or.inl (Or.inr (Or.inr ⟨t, ht, ha⟩))
      · exact Or.inr (h.holds id ha)
  · rw [setTask, List.getElem?_set] at ht
    split_ifs at ht
    · cases ht
      exact Or.inr (fun id => ⟨h.sweeps id, h.forwards id, h.deletes id⟩)
    · exact Or.inl ht

theorem moves_put : Moves g (g.put record) record.id command := by
  refine ⟨rfl, rfl, fun hk id r hr => ?_, fun id ha => ?_, fun _ _ ht => Or.inl ht⟩
  · rw [put, mapGet_mapSet] at hr
    split_ifs at hr with hid
    · cases hr
      exact hid
    · exact hk id r hr
  · rcases ha with ha | ha
    · rw [put, mapGet_mapSet] at ha
      split_ifs at ha with hid
      · exact Or.inr hid.symm
      · exact Or.inl (Or.inl ha)
    · exact Or.inl (Or.inr ha)

/-- A change of the clients that makes none for another workspace. -/
theorem moves_onClients {f : Clients → Clients}
    (hf : ∀ id, mapGet id (f g.clients).cached ≠ none → mapGet id g.clients.cached ≠ none ∨ id = workspaceId) :
    Moves g (g.onClients f) workspaceId command := by
  refine ⟨rfl, rfl, fun hk => hk, fun id ha => ?_, fun _ _ ht => Or.inl ht⟩
  rcases ha with ha | ha | ha
  · exact Or.inl (Or.inl ha)
  · rcases hf id ha with ha | ha
    · exact Or.inl (Or.inr (Or.inl ha))
    · exact Or.inr ha
  · exact Or.inl (Or.inr (Or.inr ha))

theorem moves_store : Moves g (g.onClients (·.store record.id)) record.id command := by
  apply moves_onClients
  intro id hc
  rw [Clients.store, mapGet_mapSet] at hc
  split_ifs at hc with hid
  · exact Or.inr hid.symm
  · exact Or.inl hc

theorem moves_release {id : String} : Moves g (g.onClients (·.release id)) workspaceId command := by
  apply moves_onClients
  intro p hc
  rw [Clients.release] at hc
  cases hm : mapGet id g.clients.cached with
  | none =>
      rw [hm] at hc
      exact Or.inl hc
  | some c =>
      rw [hm, mapGet_mapDelete] at hc
      split_ifs at hc
      · exact absurd rfl hc
      · exact Or.inl hc

theorem Lawful.quietly (h : Lawful g) (hm : Moves g g' workspaceId command)
    (halive : g'.Alive workspaceId → g.Alive workspaceId)
    (hd : g'.Any (Task.Deletes workspaceId) → workspaceId ∈ g.known)
    (hc : command → ¬g.Any (Task.Sweeps workspaceId)) : Lawful g' := by
  have hback : ∀ id, g'.Alive id → g.Alive id := by
    intro id ha
    rcases hm.alive id ha with hg | rfl
    · exact hg
    · exact halive ha
  have hsweeps : ∀ id, g'.Any (Task.Sweeps id) → g.Any (Task.Sweeps id) := by
    intro id hs
    obtain ⟨i, task, ht, hs⟩ := any_iff.mp hs
    rcases hm.tasks i task ht with ht | ht
    · exact any_iff.mpr ⟨i, task, ht, hs⟩
    · exact absurd hs (ht id).1
  refine ⟨hm.keyed h.keyed, ?_, ?_, ?_, ?_, ?_, ?_⟩
  · intro id ha
    rw [hm.known]
    exact h.known id (hback id ha)
  · intro id hdeletes
    rw [hm.known]
    obtain ⟨i, task, ht, hdeletes⟩ := any_iff.mp hdeletes
    rcases hm.tasks i task ht with hold | hnew
    · exact h.named id (any_iff.mpr ⟨i, task, hold, hdeletes⟩)
    · obtain rfl := (hnew id).2.2 hdeletes
      exact hd (any_iff.mpr ⟨i, task, ht, hdeletes⟩)
  · intro id hid
    rw [hm.log] at hid
    rw [hm.known]
    exact ⟨(h.accepted id hid).1, fun ha => (h.accepted id hid).2 (hback id ha)⟩
  · intro id hs hf
    obtain ⟨i, task, ht, hf⟩ := any_iff.mp hf
    rcases hm.tasks i task ht with ht | ht
    · exact h.apart id (hsweeps id hs) (any_iff.mpr ⟨i, task, ht, hf⟩)
    · obtain ⟨rfl, hcommand⟩ := (ht id).2.1 hf
      exact hc hcommand (hsweeps id hs)
  · intro i task id ht hs
    rw [hm.log]
    rcases hm.tasks i task ht with ht | ht
    · exact h.asked i task id ht hs
    · exact absurd hs (ht id).1
  · rw [hm.log]
    exact h.stopped

theorem Lawful.moves (h : Lawful g) (hm : Moves g g' workspaceId command) (halive : g.Alive workspaceId)
    (hc : command → ¬g.Any (Task.Sweeps workspaceId)) : Lawful g' :=
  h.quietly hm (fun _ => halive) (fun _ => h.known workspaceId halive) hc

theorem undisturbed_concat {sweep : Nat} {log : List Entry} {entry : Entry}
    (h : Undisturbed workspaceId sweep log) (hn : ¬entry.isCommand workspaceId) :
    Undisturbed workspaceId sweep (log ++ [entry]) := since_concat.mpr (Or.inr ⟨h, hn⟩)

theorem Lawful.note {entry : Entry} (h : Lawful g)
    (ha : ∀ id, entry = .accepted id → id ∈ g.known ∧ ¬g.Alive id)
    (hf : ∀ id, entry.isCommand id → ¬g.Any (Task.Sweeps id))
    (hs : ∀ id sweep, entry = .stops id sweep → Undisturbed id sweep g.log) : Lawful (g.note entry) := by
  refine ⟨h.keyed, h.known, h.named, ?_, h.apart, ?_, ?_⟩
  · intro id hid
    rcases List.mem_append.mp hid with hid | hid
    · exact h.accepted id hid
    · exact ha id (List.mem_singleton.mp hid).symm
  · intro i task id ht hsweeps
    exact undisturbed_concat (h.asked i task id ht hsweeps)
      (fun hcommand => hf id hcommand (any_iff.mpr ⟨i, task, ht, hsweeps⟩))
  · intro before id sweep rest he
    rcases concat_eq_split he with ⟨rfl, hentry, -⟩ | ⟨more, -, he⟩
    · exact hs id sweep hentry.symm
    · exact h.stopped before id sweep more he

/-- A sweep is at a workspace without a command on its way. -/
theorem Lawful.setSweep (h : Lawful g) (halive : g.Alive record.id) (hf : ¬g.Any (Task.Forwards record.id))
    (hasked : Undisturbed record.id i g.log) (hholds : ∀ id, task.Holds id → id = record.id)
    (hsweeps : ∀ id, task.Sweeps id → id = record.id) (hforwards : ∀ id, ¬task.Forwards id)
    (hdeletes : ∀ id, ¬task.Deletes id) : Lawful (g.setTask i task) := by
  have hback : ∀ id, (g.setTask i task).Alive id → g.Alive id := by
    rintro id (ha | ha | ⟨t, ht, ha⟩)
    · exact Or.inl ha
    · exact Or.inr (Or.inl ha)
    · rcases List.mem_or_eq_of_mem_set ht with ht | rfl
      · exact Or.inr (Or.inr ⟨t, ht, ha⟩)
      · rw [hholds id ha]
        exact halive
  have hforward : ∀ id, (g.setTask i task).Any (Task.Forwards id) → g.Any (Task.Forwards id) :=
    fun id hany => any_setTask hany (hforwards id)
  refine ⟨h.keyed, fun id ha => h.known id (hback id ha),
    fun id hany => h.named id (any_setTask hany (hdeletes id)), ?_, ?_, ?_, h.stopped⟩
  · intro id hid
    exact ⟨(h.accepted id hid).1, fun ha => (h.accepted id hid).2 (hback id ha)⟩
  · rintro id ⟨t, ht, hs⟩ hany
    rcases List.mem_or_eq_of_mem_set ht with ht | rfl
    · exact h.apart id ⟨t, ht, hs⟩ (hforward id hany)
    · rw [hsweeps id hs] at hany
      exact hf (hforward record.id hany)
  · intro j t id ht hs
    rw [setTask, List.getElem?_set] at ht
    split_ifs at ht with hj
    · cases ht
      rw [hsweeps id hs, ← hj]
      exact hasked
    · exact h.asked j t id ht hs

theorem moves_client : Moves g (g.client i record purpose) record.id purpose.IsCommand := by
  rw [client]
  split
  · exact moves_setTask Task.about_sending
  · exact moves_setTask Task.about_locating

theorem moves_pursue : Moves g (g.pursue i record purpose) record.id purpose.IsCommand :=
  have hput : Moves g (g.put { record with lastActiveAt := some g.now, updatedAt := g.now }) record.id
      purpose.IsCommand := moves_put
  hput.trans moves_client

theorem Lawful.forward (h : Lawful g)
    (hc : purpose.IsCommand → mapGet workspaceId g.records ≠ none → ¬g.Any (Task.Sweeps workspaceId)) :
    Lawful (g.forward workspaceId purpose) := by
  rw [Gateway.forward]
  cases hr : mapGet workspaceId g.records with
  | none => exact h
  | some record =>
      have hid := h.keyed workspaceId record hr
      have hsome : mapGet workspaceId g.records ≠ none := by rw [hr]; rintro ⟨⟩
      subst hid
      dsimp only
      split_ifs
      · exact h.moves (moves_spawn Task.about_starting) (Or.inl hsome) (fun hp => hc hp hsome)
      · exact h.moves ((moves_spawn Task.about_done).trans moves_pursue) (Or.inl hsome) (fun hp => hc hp hsome)

theorem known_client : (g.client i record purpose).known = g.known := by
  rw [client]
  split <;> rfl

theorem known_forward : (g.forward workspaceId purpose).known = g.known := by
  rw [Gateway.forward]
  split
  · rfl
  · split_ifs
    · rfl
    · exact known_client

theorem Lawful.notifies (h : Lawful g) : Lawful (g.notifies workspaceId) := by
  rw [Gateway.notifies]
  cases hr : mapGet workspaceId g.records with
  | none => exact h
  | some record =>
      have hid := h.keyed workspaceId record hr
      have hsome : mapGet workspaceId g.records ≠ none := by rw [hr]; rintro ⟨⟩
      subst hid
      dsimp only
      split_ifs
      · exact h.moves ((moves_spawn Task.about_done).trans moves_client) (Or.inl hsome) (fun hp => by cases hp.choose_spec)
      · exact h

theorem alive_spawn (hn : ¬task.Holds workspaceId) (ha : (g.spawn task).Alive workspaceId) :
    g.Alive workspaceId :=
  ha.imp_right (Or.imp_right (fun hany => any_spawn hany hn))

theorem alive_setTask (hn : ¬task.Holds workspaceId) (ha : (g.setTask i task).Alive workspaceId) :
    g.Alive workspaceId :=
  ha.imp_right (Or.imp_right (fun hany => any_setTask hany hn))

theorem Lawful.setDone (h : Lawful g) : Lawful (g.setTask i .done) := by
  have hm : Moves g (g.setTask i .done) "" False := moves_setTask Task.about_done
  exact h.quietly hm (alive_setTask (fun hh => hh)) (fun hd => h.named _ (any_setTask hd (fun hn => hn))) False.elim

theorem Lawful.spawnDone (h : Lawful g) : Lawful (g.spawn .done) := by
  have hm : Moves g (g.spawn .done) "" False := moves_spawn Task.about_done
  exact h.quietly hm (alive_spawn (fun hh => hh)) (fun hd => h.named _ (any_spawn hd (fun hn => hn))) False.elim

theorem Lawful.onClients {f : Clients → Clients} (h : Lawful g)
    (hf : ∀ id, mapGet id (f g.clients).cached ≠ none → mapGet id g.clients.cached ≠ none) :
    Lawful (g.onClients f) := by
  have hm : Moves g (g.onClients f) "" False := moves_onClients (fun id hc => Or.inl (hf id hc))
  refine h.quietly hm ?_ (h.named "") False.elim
  exact Or.imp_right (Or.imp_left (hf ""))

theorem Lawful.createWorkspace {id : String} (h : Lawful g) : Lawful (g.createWorkspace id) := by
  rw [Gateway.createWorkspace]
  split_ifs with hk
  · exact h
  have hm : Moves { g with known := g.known ++ [id] } ({ g with known := g.known ++ [id] }.spawn (.creating id))
      id False := moves_spawn Task.about_creating
  refine ⟨h.keyed, ?_, ?_, ?_, ?_, ?_, h.stopped⟩
  · intro p ha
    rcases hm.alive p ha with ha | rfl
    · exact List.mem_append_left _ (h.known p ha)
    · exact List.mem_append_right _ (List.mem_singleton_self p)
  · intro p hd
    exact List.mem_append_left _ (h.named p (any_spawn hd (fun hn => hn)))
  · intro p hp
    obtain ⟨hknown, hdead⟩ := h.accepted p hp
    refine ⟨List.mem_append_left _ hknown, fun ha => ?_⟩
    rcases hm.alive p ha with ha | rfl
    · exact hdead ha
    · exact hk hknown
  · intro p hs hf
    exact h.apart p (any_spawn hs (fun hn => hn)) (any_spawn hf (fun hn => hn))
  · intro i task p ht hs
    rcases hm.tasks i task ht with ht | ht
    · exact h.asked i task p ht hs
    · exact absurd hs (ht p).1

theorem Lawful.changeLifecycle {operation : Operation} (h : Lawful g) :
    Lawful (g.changeLifecycle operation workspaceId) := by
  rw [Gateway.changeLifecycle]
  cases hr : mapGet workspaceId g.records with
  | none => exact h
  | some record =>
      have hid := h.keyed workspaceId record hr
      have hsome : mapGet workspaceId g.records ≠ none := by rw [hr]; rintro ⟨⟩
      subst hid
      cases operation with
      | start => exact h.moves (moves_spawn Task.about_lifecycle) (Or.inl hsome) False.elim
      | stop =>
          exact h.moves (moves_release.trans (moves_spawn Task.about_lifecycle)) (Or.inl hsome)
            False.elim

theorem Lawful.deleteWorkspace (h : Lawful g)
    (hc : mapGet workspaceId g.records ≠ none → mapGet workspaceId g.clients.cached ≠ none →
      ¬g.Any (Task.Sweeps workspaceId)) : Lawful (g.deleteWorkspace workspaceId) := by
  rw [Gateway.deleteWorkspace]
  cases hr : mapGet workspaceId g.records with
  | none => exact h
  | some record =>
      have hid := h.keyed workspaceId record hr
      have hsome : mapGet workspaceId g.records ≠ none := by rw [hr]; rintro ⟨⟩
      subst hid
      dsimp only
      split_ifs with hcached
      · have hknown : record.id ∈ (g.forward record.id (.command clearCommand)).known := by
          rw [known_forward]
          exact h.known record.id (Or.inl hsome)
        have hforward : Lawful (g.forward record.id (.command clearCommand)) :=
          h.forward (fun _ hn => hc hn (Option.ne_none_iff_isSome.mpr hcached))
        have hm : Moves _ ((g.forward record.id (.command clearCommand)).spawn (.clearing record)) record.id
          False := moves_spawn Task.about_clearing
        exact hforward.quietly hm (alive_spawn (fun hh => hh)) (fun _ => hknown) False.elim
      · exact h.moves (moves_release.trans (moves_spawn Task.about_removing)) (Or.inl hsome)
          False.elim

theorem nextIdle_some {more : List WorkspaceRecord} (h : g.nextIdle idleMs rest = some (record, more)) :
    ∃ id, mapGet id g.records = some record := by
  induction rest with
  | nil => nomatch h
  | cons workspace rest ih =>
      rw [nextIdle] at h
      split at h
      · exact ih h
      · split_ifs at h
        · exact ih h
        · exact ih h
        · split at h
          · exact ih h
          · next hr =>
              cases h
              exact ⟨_, hr⟩

theorem nextIdle_congr (hnow : g'.now = g.now) (hrecords : g'.records = g.records) :
    g'.nextIdle idleMs rest = g.nextIdle idleMs rest := by
  induction rest with
  | nil => rfl
  | cons workspace rest ih => simp only [nextIdle, hnow, hrecords, ih]

theorem Lawful.advance (h : Lawful g) (hp : g.Picks idleMs rest) : Lawful (g.advance idleMs i rest) := by
  rw [Gateway.advance]
  cases hn : g.nextIdle idleMs rest with
  | none => exact h.setDone
  | some pick =>
      obtain ⟨record, more⟩ := pick
      obtain ⟨id, hr⟩ := nextIdle_some hn
      have hid := h.keyed id record hr
      subst hid
      have hnote : Lawful (g.note (.checks record.id i)) :=
        h.note (by rintro _ ⟨⟩) (fun _ hc => by cases hc.choose_spec) (by rintro _ _ ⟨⟩)
      have hasked : Undisturbed record.id i (g.note (.checks record.id i)).log := since_concat.mpr (Or.inl rfl)
      have hset : Lawful ((g.note (.checks record.id i)).setTask i (.checking record more)) :=
        hnote.setSweep (Or.inl (fun hnone => by cases hr.symm.trans hnone)) (hp record more hn) hasked (fun _ hh => hh.symm)
          (fun _ hs => hs.symm) (fun _ hf => hf) (fun _ hd => hd)
      exact hset.forward (fun hc => by cases hc.choose_spec)

theorem Lawful.sweep (h : Lawful g) (hp : idleMs ≠ 0 → g.Picks idleMs g.list) : Lawful (g.sweep idleMs) := by
  rw [Gateway.sweep]
  split_ifs with hms
  · exact h
  · apply h.spawnDone.advance
    intro record more hn hf
    have hsame : (g.spawn .done).nextIdle idleMs g.list = g.nextIdle idleMs g.list := nextIdle_congr rfl rfl
    rw [hsame] at hn
    exact hp hms record more hn (any_spawn hf (fun hn => hn))

theorem Lawful.put (h : Lawful g) (halive : g.Alive record.id) : Lawful (g.put record) :=
  h.moves moves_put halive False.elim

theorem Lawful.onMessage {id : SocketId} (h : Lawful g) : Lawful (g.onMessage id) := by
  rw [Gateway.onMessage]
  cases ha : g.clients.arriving id with
  | none => exact h
  | some arrival =>
      dsimp only
      apply Lawful.onClients
      · rw [touchWorkspace]
        cases hr : mapGet arrival.1 g.records with
        | none => exact h
        | some record =>
            have hid := h.keyed _ record hr
            dsimp only
            split_ifs
            · exact h
            · exact h.put (Or.inl (by rw [hid, hr]; rintro ⟨⟩))
      · intro p hp
        rw [Clients.message] at hp
        split at hp <;> exact hp

theorem holds_alive (ht : g.tasks[i]? = some task) (hh : task.Holds workspaceId) : g.Alive workspaceId :=
  Or.inr (Or.inr (any_iff.mpr ⟨i, task, ht, hh⟩))

theorem cached_connect {clients : Clients} {client : ClientId} {caller : Caller} {attempt : Nat} :
    (clients.connect client caller attempt).cached = clients.cached := by
  rw [Clients.connect]
  split
  · rfl
  · split
    · rfl
    · split <;> rfl

theorem cached_deliver {clients : Clients} {client : ClientId} :
    (deliver client purpose clients).cached = clients.cached := by
  cases purpose <;> exact cached_connect

theorem cached_onSocket {clients : Clients} {id : SocketId} {phases : List Phase} {f : Socket → Clients}
    (hf : ∀ s, (f s).cached = clients.cached) : (clients.onSocket id phases f).cached = clients.cached := by
  rw [Clients.onSocket]
  split
  · split_ifs
    · exact hf _
    · rfl
  · rfl

theorem cached_opened {clients : Clients} {id : SocketId} : (clients.opened id).cached = clients.cached := by
  apply cached_onSocket
  intro s
  split_ifs <;> rfl

theorem cached_accepted {clients : Clients} {id : SocketId} : (clients.accepted id).cached = clients.cached :=
  cached_onSocket (fun _ => rfl)

theorem cached_failed {clients : Clients} {id : SocketId} : (clients.failed id).cached = clients.cached :=
  cached_onSocket (fun _ => rfl)

theorem cached_closes {clients : Clients} {id : SocketId} : (clients.closes id).cached = clients.cached :=
  cached_onSocket (fun _ => rfl)

theorem cached_dropped {clients : Clients} {id : SocketId} : (clients.dropped id).cached = clients.cached :=
  cached_onSocket (fun _ => rfl)

theorem cached_subscribe {clients : Clients} {sink : SinkId} :
    (clients.subscribe sink).cached = clients.cached := by
  rw [Clients.subscribe]
  split_ifs <;> rfl

theorem cached_retried {clients : Clients} {client : ClientId} {j : Nat} :
    (clients.retried client j).cached = clients.cached := by
  rw [Clients.retried]
  split
  · split_ifs
    · exact cached_connect
    · rfl
  · rfl

theorem cached_timer {clients : Clients} {client : ClientId} : (clients.timer client).cached = clients.cached := by
  rw [Clients.timer]
  split_ifs
  · exact cached_connect
  · rfl

theorem cached_release (id : String) (clients : Clients) : mapGet id (clients.release id).cached = none := by
  rw [Clients.release]
  cases hc : mapGet id clients.cached with
  | none => exact hc
  | some client =>
      dsimp only
      rw [mapGet_mapDelete, if_pos rfl]

theorem Lawful.sent {client : ClientId} (h : Lawful g) (ht : g.tasks[i]? = some (.sending client workspaceId purpose)) :
    Lawful (((g.onClients (deliver client purpose)).note (.forwarded workspaceId purpose)).setTask i .done) := by
  have hdeliver : Lawful (g.onClients (deliver client purpose)) :=
    h.onClients (fun id hc => by rwa [cached_deliver] at hc)
  have hnote : Lawful ((g.onClients (deliver client purpose)).note (.forwarded workspaceId purpose)) := by
    refine hdeliver.note ?_ ?_ ?_
    · exact fun _ he => nomatch he
    · rintro p ⟨command, hc⟩ hs
      cases hc
      exact h.apart workspaceId hs (any_iff.mpr ⟨i, _, ht, rfl⟩)
    · exact fun _ _ he => nomatch he
  exact hnote.setDone

/-- A delete ends. -/
theorem Lawful.removed (h : Lawful g) (hknown : record.id ∈ g.known)
    (hcached : mapGet record.id g.clients.cached = none) (hheld : ¬g.Any (Task.Holds record.id)) :
    Lawful (({ g with records := mapDelete record.id g.records }.note (.accepted record.id)).setTask i .done) := by
  have hm : Moves g { g with records := mapDelete record.id g.records } record.id False := by
    refine ⟨rfl, rfl, fun hk id r hr => ?_, fun id ha => ?_, fun _ _ ht => Or.inl ht⟩
    · rw [mapGet_mapDelete] at hr
      split_ifs at hr
      exact hk id r hr
    · rcases ha with ha | ha
      · rw [mapGet_mapDelete] at ha
        split_ifs at ha with hid
        · exact absurd rfl ha
        · exact Or.inl (Or.inl ha)
      · exact Or.inl (Or.inr ha)
  have hdead : ¬Alive { g with records := mapDelete record.id g.records } record.id := by
    rintro (ha | ha | ha)
    · exact ha (by rw [mapGet_mapDelete, if_pos rfl])
    · exact ha hcached
    · exact hheld ha
  have hdeleted := h.quietly hm (fun ha => absurd ha hdead) (fun _ => hknown) False.elim
  have hnote : Lawful ({ g with records := mapDelete record.id g.records }.note (.accepted record.id)) := by
    refine hdeleted.note ?_ ?_ ?_
    · intro id he
      cases he
      exact ⟨hknown, hdead⟩
    · intro _ hc
      cases hc.choose_spec
    · rintro _ _ ⟨⟩
  exact hnote.setDone

theorem any_at {P : Task → Prop} (ht : g.tasks[i]? = some task) (hp : P task) : g.Any P :=
  ⟨task, List.mem_of_getElem? ht, hp⟩

/-- A sweep has stopped the container. -/
theorem Lawful.reaped (h : Lawful g) (ht : g.tasks[i]? = some (.reaping record rest))
    (hp : (g.put { record with status := .stopped, updatedAt := g.now }).Picks idleMs rest) :
    Lawful (((g.put { record with status := .stopped, updatedAt := g.now }).note (.stops record.id i)).advance
      idleMs i rest) := by
  have hput : Lawful (g.put { record with status := .stopped, updatedAt := g.now }) :=
    h.put (Or.inr (Or.inr (any_at ht rfl)))
  have hnote : Lawful ((g.put { record with status := .stopped, updatedAt := g.now }).note
      (.stops record.id i)) := by
    refine hput.note ?_ ?_ ?_
    · exact fun _ he => nomatch he
    · exact fun _ hc => nomatch hc.choose_spec
    · intro id sweep he
      cases he
      exact h.asked i _ record.id ht rfl
  apply hnote.advance
  intro r more hn
  have hsame : ((g.put { record with status := .stopped, updatedAt := g.now }).note
      (.stops record.id i)).nextIdle idleMs rest =
      (g.put { record with status := .stopped, updatedAt := g.now }).nextIdle idleMs rest := nextIdle_congr rfl rfl
  rw [hsame] at hn
  exact hp r more hn

theorem Lawful.resumed {outcome : Outcome} (h : Lawful g)
    (ha : LifecycleAllowed idleMs g (.resumed i outcome)) : Lawful (g.resumed idleMs i outcome) := by
  rw [Gateway.resumed]
  rw [LifecycleAllowed] at ha
  cases ht : g.tasks[i]? with
  | none => exact h
  | some task =>
      rw [ht] at ha
      cases task with
      | done => exact h
      | creating id =>
          dsimp only
          split_ifs
          · have hput : Lawful (g.put ⟨id, .ready, g.now, some g.now⟩) :=
              h.put (Or.inr (Or.inr (any_at ht rfl)))
            exact hput.setDone
          · exact h.setDone
      | lifecycle operation record =>
          dsimp only
          split_ifs
          · have hput : Lawful (g.put { record with status := Operation.status operation, updatedAt := g.now }) :=
              h.put (Or.inr (Or.inr (any_at ht rfl)))
            exact hput.setDone
          · exact h.setDone
      | clearing record =>
          have hknown := h.named record.id (any_at ht rfl)
          have hm : Moves g ((g.onClients (·.release record.id)).setTask i (.removing record)) record.id False :=
            moves_release.trans (moves_setTask Task.about_removing)
          have hback : ((g.onClients (·.release record.id)).setTask i (.removing record)).Alive record.id →
              g.Alive record.id := by
            intro halive
            rcases alive_setTask (by exact fun hh => hh) halive with hr | hc | hh
            · exact Or.inl hr
            · exact absurd (cached_release record.id g.clients) hc
            · exact Or.inr (Or.inr hh)
          exact h.quietly hm hback (fun _ => hknown) False.elim
      | removing record =>
          dsimp only
          split_ifs with ho
          · exact h.removed (h.named record.id (any_at ht rfl)) (ha ho).1 (ha ho).2
          · exact h.setDone
      | starting record purpose =>
          dsimp only
          split_ifs
          · have hm : Moves g (g.pursue i { record with status := .ready } purpose) record.id purpose.IsCommand :=
              moves_pursue
            apply h.moves hm (Or.inr (Or.inr (any_at ht rfl)))
            rintro ⟨command, rfl⟩ hs
            exact h.apart record.id hs (any_at ht rfl)
          · exact h.setDone
      | locating record purpose =>
          dsimp only
          split_ifs
          · apply h.moves (moves_store.trans (moves_setTask Task.about_sending))
              (Or.inr (Or.inr (any_at ht rfl)))
            rintro ⟨command, rfl⟩ hs
            exact h.apart record.id hs (any_at ht rfl)
          · exact h.setDone
      | sending client id purpose => exact h.sent ht
      | checking record rest =>
          dsimp only
          split_ifs with ho
          · have hrelease : Lawful (g.onClients (·.release record.id)) :=
              h.moves moves_release (Or.inr (Or.inr (any_at ht rfl))) False.elim
            apply hrelease.setSweep (Or.inr (Or.inr (any_at ht rfl)))
            · exact h.apart record.id (any_at ht rfl)
            · exact h.asked i _ record.id ht rfl
            · exact fun _ hh => hh.symm
            · exact fun _ hs => hs.symm
            · exact fun _ hf => hf
            · exact fun _ hd => hd
          · exact h.advance (ha ho)
      | reaping record rest =>
          dsimp only
          split_ifs with ho
          · exact h.reaped ht (ha ho)
          · exact h.setDone

end Gateway

open Gateway

theorem lawful_next {idleMs : Nat} {g : Gateway} {step : GatewayStep} (ha : LifecycleAllowed idleMs g step)
    (h : Lawful g) : Lawful (step.next idleMs g) := by
  cases step with
  | elapses ms =>
      have hm : Moves g { g with now := g.now + ms } "" False :=
        ⟨rfl, rfl, fun hk => hk, fun _ halive => Or.inl halive, fun _ _ ht => Or.inl ht⟩
      exact h.quietly hm (fun halive => halive) (h.named "") False.elim
  | creates id => exact h.createWorkspace
  | changes operation workspaceId => exact h.changeLifecycle
  | deletes workspaceId => exact h.deleteWorkspace ha
  | forwards workspaceId command => exact h.forward (fun _ => ha)
  | notifies workspaceId => exact h.notifies
  | sweeps => exact h.sweep ha
  | resumed i outcome => exact h.resumed ha
  | message id => exact h.onMessage
  | subscribes sink => exact h.onClients (fun _ hc => by rwa [cached_subscribe] at hc)
  | unsubscribes sink => exact h.onClients (fun _ hc => hc)
  | retried client i => exact h.onClients (fun _ hc => by rwa [cached_retried] at hc)
  | timer client => exact h.onClients (fun _ hc => by rwa [cached_timer] at hc)
  | accepted id => exact h.onClients (fun _ hc => by rwa [cached_accepted] at hc)
  | opened id => exact h.onClients (fun _ hc => by rwa [cached_opened] at hc)
  | failed id => exact h.onClients (fun _ hc => by rwa [cached_failed] at hc)
  | closes id => exact h.onClients (fun _ hc => by rwa [cached_closes] at hc)
  | dropped id => exact h.onClients (fun _ hc => by rwa [cached_dropped] at hc)
  | emits workspaceId => exact h.onClients (fun _ hc => hc)

theorem foldl_put {workspaces : List WorkspaceRecord} {records : List (String × WorkspaceRecord)}
    {workspaceId : String} {record : WorkspaceRecord}
    (h : mapGet workspaceId (workspaces.foldl (fun records record => mapSet record.id record records) records) =
      some record) :
    mapGet workspaceId records = some record ∨ record ∈ workspaces ∧ record.id = workspaceId := by
  induction workspaces generalizing records with
  | nil => exact Or.inl h
  | cons workspace workspaces ih =>
      rcases ih h with hr | ⟨hm, hid⟩
      · rw [mapGet_mapSet] at hr
        split_ifs at hr with hw
        · cases hr
          exact Or.inr ⟨List.mem_cons_self, hw⟩
        · exact Or.inl hr
      · exact Or.inr ⟨List.mem_cons_of_mem _ hm, hid⟩

theorem lawful_start (now : Nat) (workspaces : List WorkspaceRecord) : Lawful (Gateway.start now workspaces) := by
  have hrecord : ∀ id record, mapGet id (Gateway.start now workspaces).records = some record →
      record ∈ workspaces ∧ record.id = id := fun id record hr => (foldl_put hr).resolve_left (fun hn => nomatch hn)
  have hidle : ∀ P : Task → Prop, ¬(Gateway.start now workspaces).Any P := by
    rintro P ⟨task, ht, -⟩
    cases ht
  refine ⟨fun id record hr => (hrecord id record hr).2, ?_, fun _ hd => absurd hd (hidle _),
    (fun _ ha => nomatch ha), fun _ hs => absurd hs (hidle _), (fun _ _ _ ht => nomatch ht), ?_⟩
  · rintro id (hr | hc | hh)
    · obtain ⟨record, hr⟩ := Option.ne_none_iff_exists'.mp hr
      obtain ⟨hm, rfl⟩ := hrecord id record hr
      exact List.mem_map_of_mem hm
    · exact absurd rfl hc
    · exact absurd hh (hidle _)
  · intro before id sweep rest he
    cases before <;> cases he

/-- A sweep stops the idle workspace, which is deleted afterwards. -/
def sweptRun : List GatewayStep :=
  [.elapses 60000, .sweeps, .resumed 1 .returned, .resumed 1 .returned, .resumed 0 .returned,
    .resumed 0 .returned, .deletes "a", .resumed 2 .returned]

def stoppedWorkspace : WorkspaceRecord := ⟨"a", .stopped, 0, some 0⟩

/-- A command starts a stopped workspace, which is deleted before its container runs. -/
def returningRun : List GatewayStep :=
  [.forwards "a" listCommand, .deletes "a", .resumed 1 .returned, .resumed 0 .returned]

/-- A command reaches the workspace while a sweep asks whether it is busy. -/
def interruptedRun : List GatewayStep :=
  [.elapses 60000, .sweeps, .forwards "a" listCommand, .resumed 1 .returned, .resumed 1 .returned,
    .resumed 2 .returned, .resumed 2 .returned, .resumed 0 .returned, .resumed 0 .returned]

end Kross.Server

import Kross.Worker.JournalExec

namespace Kross.Worker

open Kross.Json Prog JournalM

/-- The process can stop anywhere without a number above the reservation on
disk having been given to an event of `p`: `high` is the last one given. -/
structure Covered (p : Pair) (high : Nat) (s : JournalState) : Prop where
  cached : ∀ n, s.memory.lastSequences p.key = some n → high ≤ n
  limited : ∀ n, s.memory.sequenceLimits p.key = some n → n ≤ reserved p s.disk
  kept : high ≤ reserved p s.disk

section Covered

variable {schemas : Schemas} {p : Pair} {high n : Nat} {s : JournalState}

theorem reserved_of_content {disk : Disk} (h : disk p.sequencePath = some (reservationContent n))
    (h0 : 0 < n) (hn : n ≤ maxSafeInteger) : reserved p disk = n := by
  rw [reserved, reservedOn, h]
  dsimp only
  rw [readSequenceReservation_content h0 hn]
  rfl

theorem reserved_reserve (h : n + 10000 ≤ maxSafeInteger) :
    reserved p (reserve p n s).disk = n + 10000 :=
  reserved_of_content (Function.update_self ..) (Nat.add_pos_right n (by decide)) h

theorem Covered.setLast (h : Covered p high s) (hn : high ≤ n) : Covered p high (setLast p n s) where
  cached m hm := by
    have he : some n = some m := by simpa [Worker.setLast] using hm
    cases he
    exact hn
  limited := h.limited
  kept := h.kept

theorem Covered.reserve (h : Covered p high s) (hn : high ≤ n) (hs : n + 10000 ≤ maxSafeInteger) :
    Covered p high (reserve p n s) where
  cached := h.cached
  limited m hm := by
    have he : some (n + 10000) = some m := by simpa [Worker.reserve] using hm
    cases he
    exact (reserved_reserve hs).ge
  kept := by
    rw [reserved_reserve hs]
    omega

theorem Covered.ranged (h : Covered p high s) (hn : high ≤ n) (hs : n + 10000 ≤ maxSafeInteger) :
    Covered p high (ranged p n s) := by
  rw [Worker.ranged]
  split_ifs
  · exact h.reserve hn hs
  · exact h

theorem le_reserved_ranged (h : Covered p high s) (hs : n + 10000 ≤ maxSafeInteger) :
    n + 1 ≤ reserved p (ranged p n s).disk := by
  rw [Worker.ranged]
  split_ifs with hl
  · rw [reserved_reserve hs]
    omega
  · cases hm : s.memory.sequenceLimits p.key with
    | none =>
        rw [hm] at hl
        exact absurd (Nat.lt_succ_self n) hl
    | some m =>
        rw [hm] at hl
        exact (Nat.le_of_not_lt hl).trans (h.limited m hm)

/-- The number an event gets is covered before it is returned. -/
theorem Covered.raise (h : Covered p high s) (hn : high ≤ n) (hs : n + 10000 ≤ maxSafeInteger) :
    Covered p (n + 1) (Worker.setLast p (n + 1) (Worker.ranged p n s)) where
  cached m hm := by
    have he : some (n + 1) = some m := by simpa [Worker.setLast] using hm
    cases he
    exact Nat.le_refl _
  limited := (h.ranged hn hs).limited
  kept := le_reserved_ranged h hs

theorem reserved_congr {d e : Disk} (h : d p.sequencePath = e p.sequencePath) :
    reserved p d = reserved p e := by
  rw [reserved, reserved, reservedOn, reservedOn, h]

theorem reserved_stored (event : Fields) (envelope : EventEnvelope) :
    reserved p (stored p event envelope s).disk = reserved p s.disk := by
  rw [stored]
  split_ifs
  · refine reserved_congr (apply_other ?_ _)
    rw [persistAction_path]
    exact Pair.path_ne_sequencePath p p
  · rfl

theorem Covered.stored (h : Covered p high s) (event : Fields) (envelope : EventEnvelope) :
    Covered p high (stored p event envelope s) := by
  have hm : (Worker.stored p event envelope s).memory = s.memory := by
    rw [Worker.stored]
    split_ifs <;> rfl
  refine ⟨?_, ?_, ?_⟩
  · rw [hm]
    exact h.cached
  · rw [hm, reserved_stored]
    exact h.limited
  · rw [reserved_stored]
    exact h.kept

theorem Covered.standing (h : Covered p high s) : high ≤ standing schemas p s := by
  rw [Worker.standing]
  cases hc : s.memory.lastSequences p.key with
  | none => exact h.kept.trans (Nat.le_max_right _ _)
  | some n => exact h.cached n hc

theorem Covered.reopen {disk : Disk} (h : high ≤ reserved p disk) : Covered p high (.reopen disk) :=
  ⟨fun _ hn => (by cases hn), fun _ hn => (by cases hn), h⟩

theorem Covered.mono {low : Nat} (h : Covered p high s) (hl : low ≤ high) : Covered p low s :=
  ⟨fun n hn => hl.trans (h.cached n hn), h.limited, hl.trans h.kept⟩

/-- An action that leaves the reservation of `p` alone or writes one that
covers `high`. -/
def Safe (p : Pair) (high : Nat) (a : FileAction) : Prop :=
  a.path = p.sequencePath → ∃ limit, a = .write p.sequencePath (reservationContent limit) ∧
    high ≤ limit ∧ 0 < limit ∧ limit ≤ maxSafeInteger

theorem Safe.apply {a : FileAction} (h : Safe p high a) {disk : Disk} (hd : high ≤ reserved p disk) :
    high ≤ reserved p (Device.apply a disk) := by
  by_cases hp : a.path = p.sequencePath
  · obtain ⟨limit, rfl, hl, h0, hs⟩ := h hp
    exact hl.trans (reserved_of_content (Function.update_self ..) h0 hs).ge
  · rwa [reserved_congr (apply_other hp disk)]

theorem Safe.tear {a : FileAction} (h : Safe p high a) (n : Nat) {disk : Disk}
    (hd : high ≤ reserved p disk) : high ≤ reserved p (Device.tear n a disk) := by
  by_cases hp : a.path = p.sequencePath
  · obtain ⟨limit, rfl, -⟩ := h hp
    exact hd
  · rwa [reserved_congr (tear_other hp n disk)]

/-- Whatever was done of a sequence of safe actions when the process ended. -/
theorem covered_interrupt {actions : List FileAction} (h : ∀ a ∈ actions, Safe p high a) {disk : Disk}
    (hd : high ≤ reserved p disk) (done bytes : Nat) :
    Covered p high (.reopen (Device.interrupt done bytes actions disk)) :=
  Covered.reopen (Device.interrupt_keeps (I := fun d => high ≤ reserved p d)
    (fun a ha _ => (h a ha).apply) (fun a ha n _ => (h a ha).tear n) hd done bytes)

end Covered

/-- Nothing that the sequence numbers of `p` rest on has changed since `s`. -/
structure Untouched (p : Pair) (s t : JournalState) : Prop where
  last : t.memory.lastSequences p.key = s.memory.lastSequences p.key
  limit : t.memory.sequenceLimits p.key = s.memory.sequenceLimits p.key
  file : t.disk p.sequencePath = s.disk p.sequencePath
  actions : ∀ a ∈ t.actions, a.path ≠ p.sequencePath

section Untouched

variable {schemas : Schemas} {p q : Pair} {high : Nat} {s : JournalState}

theorem Untouched.begin (p : Pair) (s : JournalState) : Untouched p s s.begin :=
  ⟨rfl, rfl, rfl, fun _ ha => absurd ha List.not_mem_nil⟩

theorem Untouched.covered {t : JournalState} (h : Untouched p s t) (hc : Covered p high s) :
    Covered p high t := by
  have hr : reserved p t.disk = reserved p s.disk := reserved_congr h.file
  refine ⟨?_, ?_, ?_⟩
  · rw [h.last]
    exact hc.cached
  · rw [h.limit, hr]
    exact hc.limited
  · rw [hr]
    exact hc.kept

theorem untouched_act (a : FileAction) (h : a.path ≠ p.sequencePath) :
    Preserves (Untouched p s) (act a) := by
  refine preserves_modify (fun t ht =>
    ⟨ht.last, ht.limit, (apply_other h t.disk).trans ht.file, ?_⟩)
  intro b hb
  rcases List.mem_append.mp hb with hb | hb
  · exact ht.actions b hb
  · rwa [List.mem_singleton.mp hb]

theorem untouched_onMemory {f : Memory → Memory}
    (h : ∀ m, (f m).lastSequences p.key = m.lastSequences p.key ∧
      (f m).sequenceLimits p.key = m.sequenceLimits p.key) :
    Preserves (Untouched p s) (onMemory f) :=
  preserves_modify (fun t ht =>
    ⟨(h t.memory).1.trans ht.last, (h t.memory).2.trans ht.limit, ht.file, ht.actions⟩)

theorem untouched_setRequestIndex (q : Pair) (entries : List CompletedRequest) :
    Preserves (Untouched p s) (setRequestIndex q.workspaceId q.sessionId entries) :=
  untouched_onMemory (fun _ => ⟨rfl, rfl⟩)

theorem untouched_completeRequest (q : Pair) (requestId : String) (events : List EventEnvelope)
    (now : String) : Preserves (Untouched p s)
      (completeRequest schemas q.workspaceId q.sessionId requestId events now) :=
  preserves_completeRequest requestId events now (untouched_setRequestIndex q)
    (fun _ => untouched_act _ (Pair.requestPath_ne_sequencePath q p))

theorem sequencePath_ne (h : q.key ≠ p.key) : q.sequencePath ≠ p.sequencePath :=
  fun he => h (Pair.key_of_sequencePath he)

theorem untouched_setLast (h : q.key ≠ p.key) (n : Nat) :
    Preserves (Untouched p s) (setLastSequence q.workspaceId q.sessionId n) :=
  untouched_onMemory (fun _ => ⟨Function.update_of_ne (Ne.symm h) _ _, rfl⟩)

theorem untouched_reserve (h : q.key ≠ p.key) (n : Nat) :
    Preserves (Untouched p s) (reserveSequenceRange q.workspaceId q.sessionId n) :=
  (untouched_act (.write q.sequencePath _) (sequencePath_ne h)).bind (fun _ =>
    untouched_onMemory (fun _ => ⟨rfl, Function.update_of_ne (Ne.symm h) _ _⟩))

theorem untouched_lastSeq (h : q.key ≠ p.key) :
    Preserves (Untouched p s) (lastSeq schemas q.workspaceId q.sessionId) :=
  preserves_lastSeq (untouched_setLast h) (untouched_reserve h)

theorem untouched_append (h : q.key ≠ p.key) (event : Fields) (correlationId : Option String)
    (now : String) : Preserves (Untouched p s)
      (append schemas q.workspaceId q.sessionId event correlationId now) := by
  refine preserves_append correlationId now (untouched_setLast h) (untouched_reserve h)
    (fun envelope => preserves_persist (untouched_act _ ?_))
  rw [persistAction_path]
  exact Pair.path_ne_sequencePath q p

theorem untouched_deleteSession {workspaceId sessionId : String}
    (h : Pair.key ⟨workspaceId, some sessionId⟩ ≠ p.key) :
    Preserves (Untouched p s) (deleteSession workspaceId sessionId) := by
  have hne := Ne.symm h
  refine (untouched_act (.remove (Pair.path ⟨workspaceId, some sessionId⟩)) ?_).bind (fun _ => ?_)
  · exact Pair.path_ne_sequencePath _ p
  refine (untouched_act (.remove (Pair.requestPath ⟨workspaceId, some sessionId⟩)) ?_).bind
    (fun _ => ?_)
  · exact Pair.requestPath_ne_sequencePath _ p
  refine (untouched_onMemory (fun _ => ⟨Function.update_of_ne hne _ _,
    Function.update_of_ne hne _ _⟩)).bind (fun _ => ?_)
  refine (untouched_act (.remove (Pair.sequencePath ⟨workspaceId, some sessionId⟩)) ?_).bind
    (fun _ => ?_)
  · exact sequencePath_ne h
  · exact untouched_onMemory (fun _ => ⟨rfl, rfl⟩)

end Untouched

section Outcome

variable {schemas : Schemas} {p q : Pair} {high n : Nat} {s : JournalState}

def AllSafe (p : Pair) (high : Nat) (s : JournalState) : Prop := ∀ a ∈ s.actions, Safe p high a

theorem AllSafe.concat {t : JournalState} {a : FileAction} (h : AllSafe p high s)
    (ha : Safe p high a) (ht : t.actions = s.actions ++ [a]) : AllSafe p high t := by
  intro b hb
  rw [ht] at hb
  rcases List.mem_append.mp hb with hb | hb
  · exact h b hb
  · rwa [List.mem_singleton.mp hb]

theorem AllSafe.reserve (h : AllSafe p high s) (hn : high ≤ n) (hs : n + 10000 ≤ maxSafeInteger) :
    AllSafe p high (reserve p n s) :=
  h.concat (fun _ => ⟨n + 10000, rfl, by omega, by omega, hs⟩) rfl

theorem AllSafe.ranged (h : AllSafe p high s) (hn : high ≤ n) (hs : n + 10000 ≤ maxSafeInteger) :
    AllSafe p high (ranged p n s) := by
  rw [Worker.ranged]
  split_ifs
  · exact h.reserve hn hs
  · exact h

theorem AllSafe.stored (h : AllSafe p high s) (event : Fields) (envelope : EventEnvelope) :
    AllSafe p high (stored p event envelope s) := by
  rw [Worker.stored]
  split_ifs
  · refine h.concat (fun hp => absurd hp ?_) rfl
    rw [persistAction_path]
    exact Pair.path_ne_sequencePath p p
  · exact h

theorem Untouched.allSafe {t : JournalState} (h : Untouched p s t) : AllSafe p high t :=
  fun a ha hp => absurd hp (h.actions a ha)

/-- What an operation leaves behind, and what it may have returned. -/
structure Outcome (p : Pair) (high : Nat) (own : Prop)
    (r : Except JournalError (Option EventEnvelope) × JournalState) : Prop where
  covered : Covered p high r.2
  safe : AllSafe p high r.2
  raised : ∀ envelope, r.1 = .ok (some envelope) → own → high < envelope.seq ∧ Covered p envelope.seq r.2

theorem Covered.congr (hk : q.key = p.key) (hp : q.sequencePath = p.sequencePath) :
    Covered q high s ↔ Covered p high s := by
  have hr : reserved q s.disk = reserved p s.disk := by
    rw [reserved, reserved, reservedOn, reservedOn, hp]
  constructor
  · rintro ⟨h1, h2, h3⟩
    exact ⟨hk ▸ h1, hk ▸ hr ▸ h2, hr ▸ h3⟩
  · rintro ⟨h1, h2, h3⟩
    exact ⟨hk ▸ h1, hk ▸ hr ▸ h2, hr ▸ h3⟩

theorem standing_congr (hk : q.key = p.key) (hp : q.sequencePath = p.sequencePath) :
    standing schemas q s = standing schemas p s := by
  rw [standing, standing, persisted, persisted, reserved, reserved, eventsOn, eventsOn, reservedOn,
    reservedOn, hk, hp, Pair.path_of_sequencePath hp]

theorem lastSeq_outcome (hc : Covered p high s) (ha : AllSafe p high s)
    (hs : standing schemas p s + 10000 ≤ maxSafeInteger) :
    Covered p high (exec (lastSeq schemas p.workspaceId p.sessionId) s).2 ∧
      AllSafe p high (exec (lastSeq schemas p.workspaceId p.sessionId) s).2 := by
  have hn : high ≤ standing schemas p s := hc.standing
  rcases lastSeq_cases schemas p s with ⟨-, h⟩ | ⟨e, h⟩ | ⟨-, -, h⟩
  · rw [h]
    exact ⟨hc, ha⟩
  · rw [h]
    exact ⟨hc, ha⟩
  · rw [h]
    have hset : AllSafe p high (setLast p (standing schemas p s) s) := ha
    exact ⟨(hc.setLast hn).reserve hn hs, hset.reserve hn hs⟩

theorem append_outcome (event : Fields) (correlationId : Option String) (now : String)
    (hc : Covered p high s) (ha : AllSafe p high s)
    (hs : standing schemas p s + 10000 ≤ maxSafeInteger) :
    Outcome p high True
      (Prod.map (Except.map some) id
        (exec (append schemas p.workspaceId p.sessionId event correlationId now) s)) := by
  have hn : high ≤ standing schemas p s := hc.standing
  rcases append_cases correlationId now s with ⟨e, h⟩ | ⟨s', hl, h⟩
  · rw [h]
    exact ⟨hc, ha, fun envelope he => by cases he⟩
  · have hkept := lastSeq_outcome hc ha hs
    rw [hl] at hkept
    obtain ⟨hc', ha'⟩ := hkept
    have hr := ha'.ranged hn hs
    rw [h, exec_numbered]
    cases he : eventEnvelopeSchema schemas
        (.obj (rawEnvelope p event correlationId now (standing schemas p s + 1)).fields) with
    | none => exact ⟨hc'.ranged hn hs, hr, fun envelope he => by cases he⟩
    | some envelope =>
        have hseq : envelope.seq = standing schemas p s + 1 := by
          rw [(envelope_of_fields he).2]
          rfl
        have hraise := (hc'.raise hn hs).stored event envelope
        have hset : AllSafe p high (setLast p (standing schemas p s + 1)
          (ranged p (standing schemas p s) s')) := hr
        refine ⟨hraise.mono (by omega), hset.stored event envelope, fun e' he' _ => ?_⟩
        cases he'
        exact ⟨by omega, hseq ▸ hraise⟩

/-- An operation on the key of `p` is on the files of `p` too, and is no
deletion through another pair; and its number is one JavaScript can store. -/
def SequenceAllowed (schemas : Schemas) (p : Pair) (s : JournalState) (op : JournalOp) : Prop :=
  op.pair.key = p.key →
    (op.pair ≠ p → op.pair.sequencePath = p.sequencePath ∧ op.deletes = false) ∧
      standing schemas p s + 10000 ≤ maxSafeInteger

theorem Outcome.congr {own : Prop} {r : Except JournalError (Option EventEnvelope) × JournalState}
    (hk : q.key = p.key) (hp : q.sequencePath = p.sequencePath) (h : Outcome q high True r) :
    Outcome p high own r where
  covered := (Covered.congr hk hp).mp h.covered
  safe a ha hpath := by
    obtain ⟨limit, hw⟩ := h.safe a ha (hpath.trans hp.symm)
    exact ⟨limit, hp ▸ hw⟩
  raised envelope he _ :=
    (h.raised envelope he trivial).imp_right (Covered.congr hk hp).mp

theorem exec_map {α β : Type} (f : α → β) (m : JournalM α) (t : JournalState) :
    exec (f <$> m) t = Prod.map (Except.map f) id (exec m t) := by
  rw [map_eq_pure_bind, exec_bind]
  cases exec m t with
  | mk r t' => cases r <;> rfl

theorem exec_discard {α : Type} (m : JournalM α) (t : JournalState) :
    (exec (m >>= fun _ => (pure none : JournalM (Option EventEnvelope))) t).2 = (exec m t).2 ∧
      ∀ envelope, (exec (m >>= fun _ => (pure none : JournalM (Option EventEnvelope))) t).1 ≠
        .ok (some envelope) := by
  rw [exec_bind]
  cases h : exec m t with
  | mk r t' => cases r <;> simp

theorem Outcome.of_discard {α : Type} {own : Prop} {m : JournalM α}
    (h : Covered p high (exec m s.begin).2 ∧ AllSafe p high (exec m s.begin).2) :
    Outcome p high own
      (exec (m >>= fun _ => (pure none : JournalM (Option EventEnvelope))) s.begin) := by
  obtain ⟨he, hn⟩ := exec_discard m s.begin
  exact ⟨he ▸ h.1, he ▸ h.2, fun envelope hs => absurd hs (hn envelope)⟩

theorem Preserves.kept {α : Type} {m : JournalM α} (hm : Preserves (Untouched p s) m)
    (hc : Covered p high s) :
    Covered p high (exec m s.begin).2 ∧ AllSafe p high (exec m s.begin).2 := by
  have hu := hm s.begin (Untouched.begin p s)
  exact ⟨hu.covered hc, hu.allSafe⟩

/-- A pair with the key of `p` that may be used beside it has its files. -/
theorem SequenceAllowed.sequencePath {op : JournalOp} (ha : SequenceAllowed schemas p s op)
    (hk : op.pair.key = p.key) : op.pair.sequencePath = p.sequencePath := by
  by_cases hp : op.pair = p
  · rw [hp]
  · exact ((ha hk).1 hp).1

theorem SequenceAllowed.standing_le {op : JournalOp} (ha : SequenceAllowed schemas p s op)
    (hk : op.pair.key = p.key) : standing schemas op.pair s + 10000 ≤ maxSafeInteger := by
  rw [standing_congr hk (ha.sequencePath hk)]
  exact (ha hk).2

theorem Covered.begin (h : Covered p high s) : Covered p high s.begin :=
  ⟨h.cached, h.limited, h.kept⟩

theorem allSafe_begin (p : Pair) (high : Nat) (s : JournalState) : AllSafe p high s.begin :=
  fun _ ha => absurd ha List.not_mem_nil

theorem op_outcome {op : JournalOp} (hc : Covered p high s)
    (hd : ¬ (op.deletes = true ∧ op.pair = p)) (ha : SequenceAllowed schemas p s op) :
    Outcome p high (op.pair.key = p.key) (op.result schemas s) := by
  cases op with
  | replay q afterSeq =>
      refine Outcome.of_discard (Preserves.kept ?_ hc)
      exact (preserves_read q).bind (fun _ => preserves_pure _)
  | findCompletedRequest q requestId now =>
      refine Outcome.of_discard (Preserves.kept ?_ hc)
      exact (preserves_requests now (untouched_setRequestIndex q)).bind (fun _ => preserves_pure _)
  | completeRequest q requestId events now =>
      exact Outcome.of_discard (Preserves.kept (untouched_completeRequest q _ _ _) hc)
  | deleteSession workspaceId sessionId =>
      refine Outcome.of_discard (Preserves.kept (untouched_deleteSession (fun hk => ?_)) hc)
      by_cases hp : (⟨workspaceId, some sessionId⟩ : Pair) = p
      · exact hd ⟨rfl, hp⟩
      · exact Bool.noConfusion ((ha hk).1 hp).2
  | lastSeq q =>
      refine Outcome.of_discard ?_
      by_cases hk : q.key = p.key
      · have hp := ha.sequencePath hk
        have h := lastSeq_outcome ((Covered.congr hk hp).mpr hc.begin) (allSafe_begin q high s)
          (ha.standing_le hk)
        exact ⟨(Covered.congr hk hp).mp h.1, fun a hm hpath => by
          obtain ⟨limit, hw⟩ := h.2 a hm (hpath.trans hp.symm)
          exact ⟨limit, hp ▸ hw⟩⟩
      · exact Preserves.kept (untouched_lastSeq hk) hc
  | append q event correlationId now =>
      by_cases hk : q.key = p.key
      · have hp := ha.sequencePath hk
        rw [JournalOp.result, JournalOp.prog, exec_map]
        exact Outcome.congr hk hp (append_outcome event correlationId now
          ((Covered.congr hk hp).mpr hc.begin) (allSafe_begin q high s) (ha.standing_le hk))
      · have hu : Preserves (Untouched p s) (JournalOp.prog schemas (.append q event correlationId now)) :=
          preserves_map some (untouched_append hk event correlationId now)
        obtain ⟨hcov, hsafe⟩ := Preserves.kept hu hc
        exact ⟨hcov, hsafe, fun _ _ ho => absurd ho hk⟩

end Outcome

section Run

variable (schemas : Schemas) (p : Pair)

def SequencesAllowed (s : JournalState) (steps : List JournalStep) : Prop :=
  ∀ before step after op, steps = before ++ step :: after → step.op? = some op →
    SequenceAllowed schemas p (stateAfter schemas s before) op

def NotDeleted (steps : List JournalStep) : Prop :=
  ∀ step ∈ steps, ∀ op, step.op? = some op → ¬ (op.deletes = true ∧ op.pair = p)

/-- The numbers that `append` returns for `p` in a run that starts without any
files, and that does not delete the session, increase strictly. -/
def SequencesIncrease (steps : List JournalStep) : Prop :=
  NotDeleted p steps → (seqsFor schemas p .fresh steps).Pairwise (· < ·)

variable {schemas p} {high : Nat} {s : JournalState}

theorem step_covered {step : JournalStep} (hc : Covered p high s)
    (hd : ∀ op, step.op? = some op → ¬ (op.deletes = true ∧ op.pair = p))
    (ha : ∀ op, step.op? = some op → SequenceAllowed schemas p s op) :
    ∃ next, high ≤ next ∧ Covered p next (step.next schemas s) ∧
      ∀ n, step.seqFor schemas p s = some n → high < n ∧ n = next := by
  cases step with
  | restart => exact ⟨high, Nat.le_refl _, Covered.reopen hc.kept, fun n hn => by cases hn⟩
  | crash op done bytes =>
      have h := op_outcome hc (hd op rfl) (ha op rfl)
      exact ⟨high, Nat.le_refl _, covered_interrupt h.safe hc.kept done bytes,
        fun n hn => by cases hn⟩
  | call op =>
      have h := op_outcome hc (hd op rfl) (ha op rfl)
      cases hr : (JournalStep.call op).seqFor schemas p s with
      | none => exact ⟨high, Nat.le_refl _, h.covered, fun n hn => by cases hn⟩
      | some m =>
          rw [JournalStep.seqFor] at hr
          split at hr
          · rename_i envelope he
            split_ifs at hr with hp
            obtain ⟨hlt, hcov⟩ := h.raised envelope he (congrArg Pair.key hp)
            cases hr
            exact ⟨envelope.seq, Nat.le_of_lt hlt, hcov, fun n hn => by cases hn; exact ⟨hlt, rfl⟩⟩
          · cases hr

theorem seqs_increase {steps : List JournalStep} (hc : Covered p high s) (hd : NotDeleted p steps)
    (ha : SequencesAllowed schemas p s steps) :
    (seqsFor schemas p s steps).Pairwise (· < ·) ∧ ∀ n ∈ seqsFor schemas p s steps, high < n := by
  induction steps generalizing s high with
  | nil => exact ⟨List.Pairwise.nil, fun n hn => absurd hn List.not_mem_nil⟩
  | cons step steps ih =>
      obtain ⟨next, hle, hcov, hseq⟩ := step_covered hc (hd step List.mem_cons_self)
        (fun op => ha [] step steps op rfl)
      obtain ⟨hpair, hgt⟩ := ih hcov (fun t ht => hd t (List.mem_cons_of_mem _ ht))
        (fun before t after op he => ha (step :: before) t after op (by rw [he, List.cons_append]))
      rw [seqsFor]
      cases hs : step.seqFor schemas p s with
      | none =>
          exact ⟨hpair, fun n hn => Nat.lt_of_le_of_lt hle (hgt n hn)⟩
      | some m =>
          obtain ⟨hm, rfl⟩ := hseq m hs
          refine ⟨List.pairwise_cons.mpr ⟨hgt, hpair⟩, fun n hn => ?_⟩
          rcases List.mem_cons.mp hn with rfl | hn
          · exact hm
          · exact hm.trans (hgt n hn)

theorem covered_fresh (p : Pair) : Covered p 0 .fresh := Covered.reopen (Nat.zero_le _)

theorem sequences_increase {steps : List JournalStep}
    (ha : SequencesAllowed schemas p .fresh steps) : SequencesIncrease schemas p steps :=
  fun hd => (seqs_increase (covered_fresh p) hd ha).1

instance (schemas : Schemas) (p : Pair) (s : JournalState) (op : JournalOp) :
    Decidable (SequenceAllowed schemas p s op) := inferInstanceAs (Decidable (_ → _))

theorem sequencesAllowed_nil : SequencesAllowed schemas p s [] := by
  intro before step after op h
  simp at h

theorem sequencesAllowed_cons {step : JournalStep} {steps : List JournalStep}
    (h : ∀ op, step.op? = some op → SequenceAllowed schemas p s op)
    (ht : SequencesAllowed schemas p (step.next schemas s) steps) :
    SequencesAllowed schemas p s (step :: steps) := by
  intro before t after op he ho
  cases before with
  | nil =>
      cases he
      exact h op ho
  | cons b before =>
      cases he
      exact ht before t after op rfl ho

end Run

def anySchemas : Schemas := ⟨fun _ => true, some, fun _ _ h => by cases h; rfl⟩

def acceptedEvent : Fields := Fields.ofList [("type", .str "request.accepted"), ("requestId", .str "r")]

def onePair : Pair := ⟨"w", some "s"⟩

/-- An event that is not persisted, a restart, and another event. -/
def restartedRun : List JournalStep :=
  [.call (.append onePair acceptedEvent none "t"), .restart,
    .call (.append onePair acceptedEvent none "t")]

theorem sequences_increase_restartedRun : SequencesIncrease anySchemas onePair restartedRun := by
  refine sequences_increase (sequencesAllowed_cons ?_ (sequencesAllowed_cons ?_
    (sequencesAllowed_cons ?_ sequencesAllowed_nil)))
  · rintro op ⟨⟩
    decide
  · rintro op ⟨⟩
  · rintro op ⟨⟩
    decide +kernel

def colonPair : Pair := ⟨"a:b", some "c"⟩

def colonRival : Pair := ⟨"a", some "b:c"⟩

/-- Two pairs with one key: the second one is numbered from the range of the
first, which is not on disk under its own name. -/
def colonRun : List JournalStep :=
  [.call (.append colonPair acceptedEvent none "t"), .call (.append colonRival acceptedEvent none "t"),
    .restart, .call (.append colonRival acceptedEvent none "t")]

theorem seqsFor_colonRun : seqsFor anySchemas colonRival .fresh colonRun = [2, 1] := by decide

theorem colonRival_decreases : ¬ SequencesIncrease anySchemas colonRival colonRun := by
  intro h
  have hd : NotDeleted colonRival colonRun := by
    intro step hs op ho
    simp only [colonRun, List.mem_cons, List.not_mem_nil, or_false] at hs
    rcases hs with rfl | rfl | rfl | rfl <;> cases ho <;> simp [JournalOp.deletes]
  have hp := h hd
  rw [seqsFor_colonRun] at hp
  revert hp
  decide

end Kross.Worker

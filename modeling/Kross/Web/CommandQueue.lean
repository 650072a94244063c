import Kross.Outbox
import Kross.Web.ClientFrame

namespace Kross.Web

open Kross.Json Kross.Worker Run

namespace CloudClient

/-- Nothing happens to the commands, and no event is taken back. -/
structure Quiet (s t : CloudClient) : Prop where
  dispatch : t.dispatch = s.dispatch
  delivered : s.delivered <+: t.delivered

section Quiet

variable {s t u : CloudClient}

theorem Quiet.trans (h : Quiet s t) (h' : Quiet t u) : Quiet s u :=
  ⟨h'.dispatch.trans h.dispatch, h.delivered.trans h'.delivered⟩

theorem quiet_of_core (h : t.core = s.core) : Quiet s t := by
  have hd : t.delivered = s.delivered := congrArg (fun c => c.inbox.delivered) h
  exact ⟨congrArg Core.dispatch h, hd ▸ List.prefix_refl _⟩

theorem quiet_refl (s : CloudClient) : Quiet s s := quiet_of_core rfl

theorem quiet_receiveEvent (s : CloudClient) (envelope : EventEnvelope) :
    Quiet s (s.receiveEvent envelope) := by
  refine ⟨dispatch_receiveEvent envelope, ?_⟩
  simp only [receiveEvent]
  split
  · exact List.prefix_append _ _
  · split_ifs
    · exact List.prefix_refl _
    · exact List.prefix_append _ _
    · exact List.prefix_append _ _

variable {schemas : Schemas}

theorem quiet_onFrame (s : CloudClient) (generation : Nat) (data : Option (List Char)) :
    Quiet s (s.onFrame schemas generation data) := by
  cases h : frameEvent schemas data with
  | none => exact quiet_of_core (core_onFrame generation h)
  | some e =>
      obtain ⟨t, ht, he⟩ := onFrame_event generation h
      rw [he]
      exact (quiet_of_core ht).trans (quiet_receiveEvent t e)

theorem quiet_frames (s : CloudClient) (generation : Nat) (frames : List (Option (List Char))) :
    Quiet s (frames.foldl (onFrame schemas generation) s) := by
  induction frames generalizing s with
  | nil => exact quiet_refl s
  | cons data frames ih => exact (quiet_onFrame s generation data).trans (ih _)

end Quiet

def Dispatch.outbox (d : Dispatch) : Outbox QueuedCommand := ⟨d.queuedCommands, d.drain.item, d.posts⟩

def outbox (s : CloudClient) : Outbox QueuedCommand := s.dispatch.outbox

abbrev Moves := List (Outbox.Move QueuedCommand)

/-- Moves that leave the queue as it is. -/
def Calm (moves : Moves) : Prop := ∀ m ∈ moves, m = .abandon ∨ m = .post

theorem calm_nil : Calm [] := fun _ h => absurd h List.not_mem_nil

theorem calm_abandon : Calm [.abandon] := fun _ h => Or.inl (List.mem_singleton.mp h)

theorem calm_post : Calm [.abandon, .post] := by
  intro m h
  simpa only [List.mem_cons, List.not_mem_nil, or_false] using h

theorem queue_calm {moves : Moves} (h : Calm moves) (o : Outbox QueuedCommand) :
    (after Outbox.next o moves).queue = o.queue := by
  induction moves generalizing o with
  | nil => rfl
  | cons m moves ih =>
      rw [after_cons, ih (fun n hn => h n (List.mem_cons_of_mem _ hn))]
      rcases h m List.mem_cons_self with rfl | rfl
      · rfl
      · exact o.post_queue

theorem sound_calm {moves : Moves} (h : Calm moves) (o : Outbox QueuedCommand) :
    Along Outbox.next (fun o m => Outbox.Sound o m ∧ m.adds = none) o moves := by
  rintro before m rest rfl
  rcases h m (by simp) with rfl | rfl <;>
    exact ⟨⟨fun _ ha => absurd ha (by simp [Outbox.Move.adds]), fun he => by cases he⟩, rfl⟩

/-- The outbox after some of the handling of commands, none of which changes the
queue or draws an id. -/
structure Drained (s t : CloudClient) (moves : Moves) : Prop where
  calm : Calm moves
  outbox : t.outbox = after Outbox.next s.outbox moves
  drawn : t.drawn = s.drawn
  delivered : s.delivered = t.delivered

theorem drained_drainNext (s : CloudClient) : ∃ moves, Drained s s.drainNext moves := by
  rw [drainNext]
  split_ifs
  · refine ⟨[.abandon, .post], calm_post, ?_, ?_, ?_⟩ <;> split <;> rename_i hq <;>
      simp [after, Outbox.next, Outbox.post, outbox, dispatch, Dispatch.outbox, Drain.item, hq]
  · exact ⟨[.abandon], calm_abandon, rfl, rfl, rfl⟩

theorem drained_drainCommands (s : CloudClient) : ∃ moves, Drained s s.drainCommands moves := by
  rw [drainCommands]
  split
  · split_ifs
    · exact drained_drainNext s
    · exact ⟨[], calm_nil, rfl, rfl, rfl⟩
  · exact ⟨[], calm_nil, rfl, rfl, rfl⟩

end CloudClient

open CloudClient

/-- An answer after which a command leaves the queue. -/
def isDefinitive (status : Nat) : Bool := isOk status || (isRejection status && status ≠ 401)

section Moves

variable (randomUUID : Nat → String) (schemas : Schemas)

/-- The move a step begins with, and the number of ids drawn after it. -/
def Opens (s : CloudClient) (step : ClientStep) (drawn : Nat) :
    Option (Outbox.Move QueuedCommand) → Prop
  | none => drawn = s.drawn
  | some .clear => step = .close ∧ drawn = s.drawn
  | some .settle => drawn = s.drawn ∧
      ∃ status item, step = .postAnswered status ∧ isDefinitive status ∧ s.drain = .posting item
  | some (.push a) | some (.prepend a) => a.requestId = randomUUID s.drawn ∧ drawn = s.drawn + 1
  | _ => False

def Moved (s : CloudClient) (step : ClientStep) (t : CloudClient) : Prop :=
  s.delivered <+: t.delivered ∧ ∃ first moves, Calm moves ∧ Opens randomUUID s step t.drawn first ∧
    t.outbox = after Outbox.next s.outbox (first.toList ++ moves)

variable {randomUUID schemas} {s t u : CloudClient} {step : ClientStep}

theorem moved_of_quiet (h : Quiet s t) : Moved randomUUID s step t :=
  ⟨h.delivered, none, [], calm_nil, congrArg Dispatch.drawn h.dispatch,
    congrArg Dispatch.outbox h.dispatch⟩

/-- A step that makes one move, then goes on with the commands. -/
theorem moved_of_drained {f : Option (Outbox.Move QueuedCommand)} {moves : Moves}
    (h : Drained t u moves) (hd : s.delivered <+: t.delivered) (ho : Opens randomUUID s step t.drawn f)
    (he : t.outbox = after Outbox.next s.outbox f.toList) : Moved randomUUID s step u :=
  ⟨h.delivered ▸ hd, f, moves, h.calm, h.drawn ▸ ho, by rw [after_append, ← he, h.outbox]⟩

theorem moved_quiet (h : Moved randomUUID s step t) (hq : Quiet t u) : Moved randomUUID s step u := by
  obtain ⟨hd, first, moves, hc, ho, he⟩ := h
  have hdrawn : u.drawn = t.drawn := congrArg Dispatch.drawn hq.dispatch
  exact ⟨hd.trans hq.delivered, first, moves, hc, hdrawn ▸ ho,
    (congrArg Dispatch.outbox hq.dispatch).trans he⟩

theorem moved_send (s : CloudClient) (command : OutgoingCommand) :
    Moved randomUUID s (.send command) (ClientStep.next randomUUID schemas s (.send command)) := by
  simp only [ClientStep.next, send]
  split_ifs
  · exact moved_of_quiet (quiet_refl s)
  · exact moved_of_quiet (quiet_refl s)
  · obtain ⟨moves, h⟩ := drained_drainCommands { s with
      drawn := s.drawn + 1
      queuedCommands := s.queuedCommands ++ [⟨command, randomUUID s.drawn⟩] }
    exact moved_of_drained (f := some (.push ⟨command, randomUUID s.drawn⟩)) h
      (List.prefix_refl _) ⟨rfl, rfl⟩ rfl
  · exact ⟨List.prefix_refl _, some (.push ⟨command, randomUUID s.drawn⟩), [], calm_nil, ⟨rfl, rfl⟩, rfl⟩

theorem moved_close (s : CloudClient) : Moved randomUUID s .close s.close := by
  have h := quiet_of_core (core_closing s)
  refine ⟨h.delivered, some .clear, [], calm_nil, ⟨rfl, congrArg Dispatch.drawn h.dispatch⟩, ?_⟩
  exact congrArg (fun d => Outbox.mk [] d.drain.item d.posts) h.dispatch

theorem moved_streamAnswered (s : CloudClient) (generation status : Nat) (body : Bool) :
    Moved randomUUID s step (s.streamAnswered randomUUID generation status body) := by
  rw [streamAnswered]
  split_ifs
  · exact moved_of_quiet (quiet_of_core (by simp))
  · exact moved_of_quiet (quiet_of_core (core_endStream s _))
  · refine moved_quiet ?_ (quiet_of_core (core_updateStream _ _ _))
    rw [unshiftResume]
    split
    · obtain ⟨moves, h⟩ := drained_drainCommands ((s.emitState .online).touchHeartbeat generation)
      exact moved_of_drained (f := none) h (List.prefix_refl _) rfl rfl
    · rename_i workspaceId sessionId _
      obtain ⟨moves, h⟩ := drained_drainCommands
        { (s.emitState .online).touchHeartbeat generation with
          drawn := s.drawn + 1
          queuedCommands := ⟨resumeCommand workspaceId sessionId (s.readLastSeq workspaceId sessionId),
            randomUUID s.drawn⟩ :: s.queuedCommands }
      exact moved_of_drained (f := some (.prepend _)) h (List.prefix_refl _) ⟨rfl, rfl⟩ rfl

theorem moved_idle (h : Quiet s t) : Moved randomUUID s step { t with drain := .idle } :=
  ⟨h.delivered, none, [.abandon], calm_abandon, congrArg Dispatch.drawn h.dispatch,
    congrArg (fun d => Outbox.mk d.queuedCommands none d.posts) h.dispatch⟩

theorem moved_postAnswered (s : CloudClient) (item : QueuedCommand) (status : Nat)
    (h : s.drain = .posting item) :
    Moved randomUUID s (.postAnswered status) (s.postAnswered item status) := by
  have hsettle (hd : isDefinitive status) :
      Opens randomUUID s (.postAnswered status) s.drawn (some .settle) :=
    ⟨rfl, status, item, rfl, hd, h⟩
  rw [postAnswered]
  split_ifs with hok hauth hrej
  · obtain ⟨moves, hm⟩ := drained_drainNext { s.shift with drain := .idle }
    exact moved_of_drained (f := some .settle) hm (List.prefix_refl _) (hsettle (by simp [isDefinitive, hok])) rfl
  · exact moved_idle (quiet_of_core (core_handleUnauthorized s))
  · exact ⟨List.prefix_refl _, some .settle, [], calm_nil,
      hsettle (by simp [isDefinitive, hrej, hauth]), rfl⟩
  · exact moved_idle (quiet_of_core (core_disconnectStream s))

/-- What a step does to the commands. -/
theorem moved_next (s : CloudClient) (step : ClientStep) :
    Moved randomUUID s step (step.next randomUUID schemas s) := by
  cases step with
  | connect => exact moved_of_quiet (quiet_of_core (core_connect s))
  | close => exact moved_close s
  | setActiveSession | clearActiveSession => exact moved_of_quiet (s := s) ⟨rfl, List.prefix_refl _⟩
  | send command => exact moved_send s command
  | streamAnswered generation status body =>
      simp only [ClientStep.next]
      split_ifs
      · exact moved_streamAnswered s generation status body
      · exact moved_of_quiet (quiet_refl s)
  | streamChunk generation frames =>
      simp only [ClientStep.next]
      split_ifs
      · exact moved_of_quiet (quiet_frames s generation frames)
      · exact moved_of_quiet (quiet_refl s)
  | streamEnded generation =>
      simp only [ClientStep.next]
      split_ifs
      · exact moved_of_quiet (quiet_of_core (core_endStream s generation))
      · exact moved_of_quiet (quiet_refl s)
  | postFailed =>
      simp only [ClientStep.next]
      split
      · exact moved_idle (quiet_of_core (core_disconnectStream s))
      · exact moved_of_quiet (quiet_refl s)
  | postAnswered status =>
      simp only [ClientStep.next]
      split
      · exact moved_postAnswered s _ status (by assumption)
      · exact moved_of_quiet (quiet_refl s)
  | rejectionRead body now =>
      simp only [ClientStep.next]
      split
      · rename_i requestId status _
        have hq := quiet_receiveEvent s (localError requestId (responseError status body) now)
        obtain ⟨moves, hm⟩ := drained_drainNext
          (s.receiveEvent (localError requestId (responseError status body) now))
        exact moved_of_drained (f := none) hm hq.delivered (congrArg Dispatch.drawn hq.dispatch)
          (congrArg Dispatch.outbox hq.dispatch)
      · exact moved_of_quiet (quiet_refl s)
  | timer id =>
      simp only [ClientStep.next]
      split
      · exact moved_of_quiet (quiet_refl s)
      · exact moved_of_quiet (quiet_of_core (by simp))

end Moves

section Run

variable (randomUUID : Nat → String) (schemas : Schemas) (localStorage : String → Option Nat)

def clientAfter (steps : List ClientStep) : CloudClient :=
  after (ClientStep.next randomUUID schemas) (.fresh localStorage) steps

/-- A command leaves the queue by `close`, or when its own POST is answered
definitively, which a rejection reports; and of two queued commands the first one
is posted first. -/
structure QueueKept (steps : List ClientStep) : Prop where
  removed : ∀ before step rest, steps = before ++ step :: rest →
    ∀ item ∈ (clientAfter randomUUID schemas localStorage before).queuedCommands,
      item ∉ (clientAfter randomUUID schemas localStorage (before ++ [step])).queuedCommands →
      step = .close ∨ ∃ status, step = .postAnswered status ∧ isDefinitive status ∧
        (clientAfter randomUUID schemas localStorage before).drain = .posting item
  reported : ∀ before status rest item, steps = before ++ .postAnswered status :: rest →
    (clientAfter randomUUID schemas localStorage before).drain = .posting item →
    isRejection status → status ≠ 401 →
      (clientAfter randomUUID schemas localStorage steps).drain = .rejected item.requestId status ∨
      ∃ message now, localError item.requestId message now ∈
        (clientAfter randomUUID schemas localStorage steps).delivered
  ordered : ∀ before rest a b, steps = before ++ rest →
    [a, b].Sublist (clientAfter randomUUID schemas localStorage before).queuedCommands →
    b ∉ (clientAfter randomUUID schemas localStorage before).posts →
      Outbox.First a b (clientAfter randomUUID schemas localStorage steps).posts

/-- A definitive answer finds its command at the head of the queue, or the queue
empty. -/
def AnswerAllowed (s : CloudClient) : ClientStep → Prop
  | .postAnswered status => ∀ item, s.drain = .posting item → isDefinitive status →
      s.queuedCommands = [] ∨ s.queuedCommands.head? = some item
  | _ => True

def AnswersAllowed (steps : List ClientStep) : Prop :=
  Along (ClientStep.next randomUUID schemas) AnswerAllowed (.fresh localStorage) steps

/-- The id of a command is among those drawn. -/
def Drawn (s : CloudClient) (item : QueuedCommand) : Prop := ∃ k < s.drawn, item.requestId = randomUUID k

structure Numbered (s : CloudClient) : Prop where
  queued : ∀ item ∈ s.queuedCommands, Drawn randomUUID s item
  tidy : s.outbox.Tidy

variable {randomUUID schemas localStorage} {s t : CloudClient} {step : ClientStep}

theorem Drawn.of_le {item : QueuedCommand} (h : Drawn randomUUID s item) (hle : s.drawn ≤ t.drawn) :
    Drawn randomUUID t item := by
  obtain ⟨k, hk, he⟩ := h
  exact ⟨k, hk.trans_le hle, he⟩

theorem not_drawn (huuid : randomUUID.Injective) {item : QueuedCommand}
    (h : item.requestId = randomUUID s.drawn) : ¬ Drawn randomUUID s item := by
  rintro ⟨k, hk, he⟩
  exact absurd (huuid (he.symm.trans h)) (Nat.ne_of_lt hk)

theorem drawn_le {drawn : Nat} {f : Option (Outbox.Move QueuedCommand)}
    (h : Opens randomUUID s step drawn f) : s.drawn ≤ drawn := by
  match f, h with
  | none, h => exact h.ge
  | some .clear, h => exact h.2.ge
  | some .settle, h => exact h.1.ge
  | some (.push _), h | some (.prepend _), h => exact h.2 ▸ Nat.le_succ _

/-- What a step adds to the queue has a new id. -/
theorem opens_adds (huuid : randomUUID.Injective) {drawn : Nat} {m : Outbox.Move QueuedCommand}
    (h : Opens randomUUID s step drawn (some m)) {item : QueuedCommand} (ha : m.adds = some item) :
    ¬ Drawn randomUUID s item ∧ ∀ t : CloudClient, t.drawn = drawn → Drawn randomUUID t item := by
  match m, h with
  | .push a, h | .prepend a, h =>
      cases ha
      exact ⟨not_drawn huuid h.1, fun t ht => ⟨s.drawn, by rw [ht, h.2]; exact Nat.lt_succ_self _, h.1⟩⟩
  | .clear, _ | .settle, _ => cases ha

/-- The moves of a step add new commands only, and settle as the step is allowed
to. -/
theorem moves_along (huuid : randomUUID.Injective) (hn : Numbered randomUUID s) {drawn : Nat}
    {f : Option (Outbox.Move QueuedCommand)} (ho : Opens randomUUID s step drawn f) {moves : Moves}
    (hc : Calm moves) :
    Along Outbox.next (fun o m => (∀ a, m.adds = some a → a ∉ o.queue ∧ ¬ Drawn randomUUID s a) ∧
      (AnswerAllowed s step → m = .settle → o.Settles)) s.outbox (f.toList ++ moves) := by
  refine along_append.mpr ⟨?_, (sound_calm hc _).mono (fun o m h => ⟨fun a ha => ?_, ?_⟩)⟩
  · cases f with
    | none => exact along_nil
    | some m =>
        refine along_cons.mpr ⟨⟨fun a ha => ?_, fun hallowed hm => ?_⟩, along_nil⟩
        · have hnew := (opens_adds huuid ho ha).1
          exact ⟨fun hmem => hnew (hn.queued a hmem), hnew⟩
        · subst hm
          obtain ⟨-, status, item, rfl, hd, hs⟩ := ho
          refine (hallowed item hs hd).imp_right (fun he => ?_)
          exact he.trans (congrArg Drain.item hs).symm
  · rw [h.2] at ha
    cases ha
  · exact fun _ hm => h.1.settles hm

theorem tidy_moved (huuid : randomUUID.Injective) (hn : Numbered randomUUID s)
    (h : Moved randomUUID s step t) : t.outbox.Tidy := by
  obtain ⟨-, f, moves, hc, ho, he⟩ := h
  rw [he]
  exact (moves_along huuid hn ho hc).keeps (fun o m hm hT => hT.next (fun a ha => (hm.1 a ha).1)) hn.tidy

theorem queue_moved {f : Option (Outbox.Move QueuedCommand)} {moves : Moves} (hc : Calm moves)
    (he : t.outbox = after Outbox.next s.outbox (f.toList ++ moves)) :
    t.queuedCommands = (after Outbox.next s.outbox f.toList).queue := by
  rw [after_append] at he
  exact (congrArg Outbox.queue he).trans (queue_calm hc _)

theorem mem_queue_next {o : Outbox QueuedCommand} {m : Outbox.Move QueuedCommand} {item : QueuedCommand}
    (h : item ∈ (o.next m).queue) : item ∈ o.queue ∨ m.adds = some item := by
  cases m with
  | push a => exact (List.mem_append.mp h).imp_right (fun h => by rw [List.mem_singleton.mp h]; rfl)
  | prepend a => exact (List.mem_cons.mp h).symm.imp_right (fun h => by rw [h]; rfl)
  | clear => cases h
  | post =>
      rw [Outbox.next, Outbox.post_queue] at h
      exact Or.inl h
  | settle => exact Or.inl (List.mem_of_mem_tail h)
  | abandon => exact Or.inl h

theorem numbered_moved (huuid : randomUUID.Injective) (hn : Numbered randomUUID s)
    (h : Moved randomUUID s step t) : Numbered randomUUID t := by
  refine ⟨fun item hi => ?_, tidy_moved huuid hn h⟩
  obtain ⟨-, f, moves, hc, ho, he⟩ := h
  rw [queue_moved hc he] at hi
  cases f with
  | none => exact (hn.queued item hi).of_le (drawn_le ho)
  | some m =>
      rcases mem_queue_next hi with hi | ha
      · exact (hn.queued item hi).of_le (drawn_le ho)
      · exact (opens_adds huuid ho ha).2 t rfl

/-- A command that a step takes off the queue. -/
theorem removed_moved (h : Moved randomUUID s step t) (hs : AnswerAllowed s step)
    {item : QueuedCommand} (hi : item ∈ s.queuedCommands) (hr : item ∉ t.queuedCommands) :
    step = .close ∨ ∃ status, step = .postAnswered status ∧ isDefinitive status ∧
      s.drain = .posting item := by
  obtain ⟨-, f, moves, hc, ho, he⟩ := h
  rw [queue_moved hc he] at hr
  match f, ho with
  | none, _ => exact absurd hi hr
  | some (.push _), _ => exact absurd (List.mem_append_left _ hi) hr
  | some (.prepend _), _ => exact absurd (List.mem_cons_of_mem _ hi) hr
  | some .clear, ho => exact Or.inl ho.1
  | some .settle, ho =>
      obtain ⟨-, status, posted, rfl, hd, hp⟩ := ho
      refine Or.inr ⟨status, rfl, hd, ?_⟩
      by_contra hne
      refine hr (Outbox.kept_next (m := .settle) hi (fun _ => ?_) (fun h => by cases h) (fun _ hf => ?_))
      · exact (hs posted hp hd).imp_right (fun he => he.trans (congrArg Drain.item hp).symm)
      · rw [outbox, dispatch, Dispatch.outbox, hp] at hf
        cases hf
        exact hne hp

theorem ahead_moved (huuid : randomUUID.Injective) (hn : Numbered randomUUID s)
    (h : Moved randomUUID s step t) (hs : AnswerAllowed s step) {a b : QueuedCommand}
    (hb : Drawn randomUUID s b) (ha : s.outbox.Ahead a b) : t.outbox.Ahead a b := by
  obtain ⟨-, f, moves, hc, ho, he⟩ := h
  rw [he]
  refine ((moves_along huuid hn ho hc).keeps (I := fun o => o.Ahead a b ∧ o.Tidy) ?_ ⟨ha, hn.tidy⟩).1
  rintro o m ⟨hadds, hsettles⟩ ⟨hA, hT⟩
  have hfresh : ∀ c, m.adds = some c → c ∉ o.queue := fun c hc => (hadds c hc).1
  exact ⟨hA.next hT ⟨hfresh, hsettles hs⟩ (fun hmb => (hadds b hmb).2 hb), hT.next hfresh⟩

theorem drawn_moved (h : Moved randomUUID s step t) : s.drawn ≤ t.drawn := by
  obtain ⟨-, f, moves, -, ho, -⟩ := h
  exact drawn_le ho

theorem drain_drainCommands {requestId : String} {status : Nat}
    (h : s.drain = .rejected requestId status) : s.drainCommands.drain = .rejected requestId status := by
  rw [drainCommands, h]
  exact h

/-- A rejected command is reported before anything else is posted. -/
theorem rejected_next {requestId : String} {status : Nat} (h : s.drain = .rejected requestId status)
    (step : ClientStep) : (step.next randomUUID schemas s).drain = .rejected requestId status ∨
      ∃ message now, localError requestId message now ∈ (step.next randomUUID schemas s).delivered := by
  have hquiet {t : CloudClient} (hq : Quiet s t) : t.drain = .rejected requestId status :=
    (congrArg Dispatch.drain hq.dispatch).trans h
  cases step with
  | connect => exact Or.inl (hquiet (quiet_of_core (core_connect s)))
  | close =>
      have hc := hquiet (quiet_of_core (core_closing s))
      exact Or.inl hc
  | setActiveSession | clearActiveSession => exact Or.inl h
  | send command =>
      left
      simp only [ClientStep.next, send]
      split_ifs
      · exact h
      · exact h
      · exact drain_drainCommands h
      · exact h
  | streamAnswered generation status' body =>
      left
      simp only [ClientStep.next, streamAnswered]
      split_ifs
      · exact hquiet (quiet_of_core (by simp))
      · exact hquiet (quiet_of_core (core_endStream s _))
      · simp only [unshiftResume]
        split
        · exact drain_drainCommands h
        · exact drain_drainCommands h
      · exact h
  | streamChunk generation frames =>
      simp only [ClientStep.next]
      split_ifs
      · exact Or.inl (hquiet (quiet_frames s generation frames))
      · exact Or.inl h
  | streamEnded generation =>
      simp only [ClientStep.next]
      split_ifs
      · exact Or.inl (hquiet (quiet_of_core (core_endStream s generation)))
      · exact Or.inl h
  | postFailed | postAnswered =>
      simp only [ClientStep.next, h]
      exact Or.inl trivial
  | rejectionRead body now =>
      right
      refine ⟨responseError status body, now, ?_⟩
      simp only [ClientStep.next, h]
      obtain ⟨moves, hm⟩ := drained_drainNext
        (s.receiveEvent (localError requestId (responseError status body) now))
      rw [← hm.delivered]
      exact List.mem_append_right _ (List.mem_singleton_self _)
  | timer id =>
      simp only [ClientStep.next]
      split
      · exact Or.inl h
      · exact Or.inl (hquiet (quiet_of_core (by simp)))

theorem rejected_postAnswered {item : QueuedCommand} {status : Nat} (h : s.drain = .posting item)
    (hr : isRejection status) (hn : status ≠ 401) :
    (ClientStep.next randomUUID schemas s (.postAnswered status)).drain =
      .rejected item.requestId status := by
  have hok : isOk status = false := by
    simp only [isRejection, Bool.and_eq_true, decide_eq_true_eq] at hr
    simp only [isOk, Bool.and_eq_false_iff, decide_eq_false_iff_not]
    omega
  simp [ClientStep.next, h, postAnswered, hok, hn, hr]

theorem numbered_fresh (localStorage : String → Option Nat) : Numbered randomUUID (.fresh localStorage) :=
  ⟨fun _ h => absurd h List.not_mem_nil, List.nodup_nil, fun _ h => by cases h⟩

theorem numbered_clientAfter (huuid : randomUUID.Injective) (steps : List ClientStep) :
    Numbered randomUUID (clientAfter randomUUID schemas localStorage steps) :=
  keeps (fun s step hn => numbered_moved huuid hn (moved_next s step)) (numbered_fresh localStorage) steps

theorem clientAfter_concat (before : List ClientStep) :
    clientAfter randomUUID schemas localStorage (before ++ [step]) =
      step.next randomUUID schemas (clientAfter randomUUID schemas localStorage before) := after_concat

theorem reported_run (before rest : List ClientStep) {requestId : String} {status : Nat}
    (h : (clientAfter randomUUID schemas localStorage before).drain = .rejected requestId status) :
    (clientAfter randomUUID schemas localStorage (before ++ rest)).drain = .rejected requestId status ∨
      ∃ message now, localError requestId message now ∈
        (clientAfter randomUUID schemas localStorage (before ++ rest)).delivered := by
  rw [clientAfter, after_append]
  refine keeps (I := fun s : CloudClient => s.drain = .rejected requestId status ∨
    ∃ message now, localError requestId message now ∈ s.delivered) (fun s step hs => ?_) (Or.inl h) rest
  rcases hs with hs | ⟨message, now, hm⟩
  · exact rejected_next hs step
  · exact Or.inr ⟨message, now, (moved_next s step).1.subset hm⟩

theorem ordered_run (huuid : randomUUID.Injective) {before rest : List ClientStep}
    (hr : Along (ClientStep.next randomUUID schemas) AnswerAllowed
      (clientAfter randomUUID schemas localStorage before) rest) {a b : QueuedCommand}
    (hs : [a, b].Sublist (clientAfter randomUUID schemas localStorage before).queuedCommands)
    (hb : b ∉ (clientAfter randomUUID schemas localStorage before).posts) :
    Outbox.First a b (clientAfter randomUUID schemas localStorage (before ++ rest)).posts := by
  have hn : Numbered randomUUID (clientAfter randomUUID schemas localStorage before) :=
    numbered_clientAfter huuid before
  have hd := hn.queued b (hs.subset (by simp))
  rw [clientAfter, after_append]
  refine (hr.keeps (I := fun s => Numbered randomUUID s ∧ Drawn randomUUID s b ∧ s.outbox.Ahead a b)
    ?_ ⟨hn, hd, Or.inr (Or.inl hs), Outbox.first_of_notMem hb⟩).2.2.first
  rintro s step hallowed ⟨hn, hd, ha⟩
  have hm : Moved randomUUID s step (step.next randomUUID schemas s) := moved_next s step
  exact ⟨numbered_moved huuid hn hm, hd.of_le (drawn_moved hm), ahead_moved huuid hn hm hallowed hd ha⟩

/-- A definitive answer takes the head off the queue, whatever it is. -/
theorem queue_postAnswered {item : QueuedCommand} {status : Nat} (h : s.drain = .posting item)
    (hd : isDefinitive status) :
    (ClientStep.next randomUUID schemas s (.postAnswered status)).queuedCommands =
      s.queuedCommands.tail := by
  simp only [isDefinitive, Bool.or_eq_true, Bool.and_eq_true, decide_eq_true_eq] at hd
  simp only [ClientStep.next, h, postAnswered]
  split_ifs with hok hauth hrej
  · obtain ⟨moves, hm⟩ := drained_drainNext s.shift
    exact queue_moved (f := none) hm.calm hm.outbox
  · exact absurd hauth (hd.resolve_left hok).2
  · rfl
  · exact absurd (hd.resolve_left hok).1 hrej

/-- The queue is kept exactly if every definitive answer finds its command at the
head of it. -/
theorem queue_kept_iff (huuid : randomUUID.Injective) (steps : List ClientStep) :
    QueueKept randomUUID schemas localStorage steps ↔
      AnswersAllowed randomUUID schemas localStorage steps := by
  constructor
  · intro h before step rest he
    cases step with
    | postAnswered status =>
        intro item hs hd
        by_contra hnot
        have hn : Numbered randomUUID (clientAfter randomUUID schemas localStorage before) :=
          numbered_clientAfter huuid before
        have hin := congrArg Drain.item hs
        obtain ⟨a, ha, hne, htail⟩ := Outbox.lost_of_not_settles hn.tidy.nodup
          (fun hsettles => hnot (hsettles.imp_right (fun he => he.trans hin)))
        rcases h.removed before _ rest he a ha
          (by rw [clientAfter_concat]; exact queue_postAnswered hs hd ▸ htail) with hc | ⟨_, hc, -, hp⟩
        · cases hc
        · exact hne (congrArg Drain.item hp)
    | _ => trivial
  · intro h
    refine ⟨fun before step rest he item hi hr => ?_, fun before status rest item he hs hrej hauth => ?_,
      fun before rest a b he hs hb => ?_⟩
    · rw [clientAfter_concat] at hr
      exact removed_moved (moved_next _ step) (h before step rest he) hi hr
    · rw [he, List.append_cons]
      refine reported_run _ rest ?_
      rw [clientAfter_concat]
      exact rejected_postAnswered hs hrej hauth
    · subst he
      exact ordered_run huuid (along_append.mp h).2 hs hb

theorem answerAllowed_of_head {status : Nat} (h : s.queuedCommands.head? = s.drain.item) :
    AnswerAllowed s (.postAnswered status) :=
  fun _ hs _ => Or.inr (h.trans (congrArg Drain.item hs))

end Run

/-- Request ids that tell the draws apart. -/
def countedUUID (n : Nat) : String := String.ofList (List.replicate n 'u')

theorem countedUUID_injective : countedUUID.Injective := by
  intro m n h
  have hl := congrArg List.length (String.ofList_injective h)
  rwa [List.length_replicate, List.length_replicate] at hl

def listCommand : OutgoingCommand := ⟨"workspace.list", .nil⟩

def noSchemas : Schemas := ⟨fun _ => false, fun _ => none, fun _ _ h => by cases h⟩

/-- A POST fails, and the command is posted again behind the resume. -/
def reconnectedRun : List ClientStep :=
  [.setActiveSession "w" "s", .connect, .streamAnswered 1 200 true, .postAnswered 202,
    .send listCommand, .postFailed, .streamEnded 1, .timer 1, .streamAnswered 2 200 true,
    .postAnswered 202, .postAnswered 422, .rejectionRead none "t"]

theorem queue_kept_reconnectedRun :
    QueueKept countedUUID noSchemas (fun _ => none) reconnectedRun := by
  refine (queue_kept_iff countedUUID_injective reconnectedRun).mpr ?_
  iterate 3 refine along_cons.mpr ⟨trivial, ?_⟩
  refine along_cons.mpr ⟨answerAllowed_of_head rfl, ?_⟩
  iterate 5 refine along_cons.mpr ⟨trivial, ?_⟩
  iterate 2 refine along_cons.mpr ⟨answerAllowed_of_head rfl, ?_⟩
  exact along_cons.mpr ⟨trivial, along_nil⟩

/-- A command is posted, the connection is lost, and the next one opens before the
answer comes. -/
def overtakenRun : List ClientStep :=
  [.setActiveSession "w" "s", .connect, .streamAnswered 1 200 true, .postAnswered 202,
    .send listCommand, .streamEnded 1, .timer 1, .streamAnswered 2 200 true, .postAnswered 202]

/-- The answer takes the resume off the queue, which was never posted. -/
theorem resume_dropped : ¬ QueueKept countedUUID noSchemas (fun _ => none) overtakenRun := by
  intro h
  have hids : (clientAfter countedUUID noSchemas (fun _ => none) overtakenRun.dropLast).queuedCommands.map
      QueuedCommand.requestId = ["uu", "u"] := by decide
  have hleft : (clientAfter countedUUID noSchemas (fun _ => none) overtakenRun).queuedCommands.map
      QueuedCommand.requestId = ["u"] := by decide
  have hposted : (clientAfter countedUUID noSchemas (fun _ => none)
      overtakenRun.dropLast).drain.item.map QueuedCommand.requestId = some "u" := by decide
  obtain ⟨item, hi, hid⟩ := List.mem_map.mp (hids ▸ List.mem_cons_self)
  have hgone : item ∉
      (clientAfter countedUUID noSchemas (fun _ => none) overtakenRun).queuedCommands := by
    intro hm
    have hm' := List.mem_map_of_mem (f := QueuedCommand.requestId) hm
    rw [hleft, hid] at hm'
    revert hm'
    decide
  rcases h.removed overtakenRun.dropLast (.postAnswered 202) [] rfl item hi hgone with
    hc | ⟨_, -, -, hd⟩
  · cases hc
  · rw [hd] at hposted
    have hu := Option.some.inj hposted
    rw [hid] at hu
    revert hu
    decide

end Kross.Web

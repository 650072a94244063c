import Kross.Modify
import Kross.Server.Clients
import Mathlib.Algebra.GroupWithZero.Nat

namespace Kross.Server.Clients

open Kross.Modify Kross.Mutation

/-- The workspace of a client that is not closed. -/
def openFor (made : List (String × WorkerClient)) (client : ClientId) : Option String :=
  made[client]?.bind (fun e => if e.2.closed then none else some e.1)

def isLive (workspaceId : String) (s : Socket) : Bool := s.workspaceId = workspaceId ∧ s.phase ≠ .closed

def live (workspaceId : String) (sockets : List Socket) : Nat := sockets.countP (isLive workspaceId)

/-- How often an event is on its way. -/
def copies (event : EventId) (sockets : List Socket) : Nat := (sockets.map (fun s => s.down.count event)).sum

def deliveries (event : EventId) (g : Clients) : List Broadcast := g.broadcasts.filter (fun b => b.event = event)

/-- An event is delivered once it is not on its way anymore, by one call of
`broadcast` that called every sink that was subscribed, and no sink twice. -/
def Delivered (g : Clients) (event : EventId) : Prop :=
  (copies event g.sockets = 0 → ∃ b, g.deliveries event = [b] ∧ ∀ sink ∈ b.subscribed, b.called.count sink = 1) ∧
    (copies event g.sockets ≠ 0 → g.deliveries event = [])

def FansOut (g : Clients) : Prop :=
  (∀ c d workspaceId, openFor g.made c = some workspaceId → openFor g.made d = some workspaceId → c = d) ∧
    ∀ event < g.emitted.length, g.Delivered event

/-- Asking the client for a connection neither opens a closed client again nor
makes a second connection to the worker. -/
def Connects (g : Clients) (client : ClientId) : Prop :=
  ∀ workspaceId c, g.made[client]? = some (workspaceId, c) → c.closed = false ∧
    (c.socket.filter g.isOpen = none → c.connecting = none → live workspaceId g.sockets = 0)

structure Fanned (g : Clients) : Prop where
  cached : ∀ workspaceId client,
    mapGet workspaceId g.cached = some client ↔ openFor g.made client = some workspaceId
  single : ∀ workspaceId, live workspaceId g.sockets ≤ 1
  subscribed : ∀ s ∈ g.sockets, s.subscribed → s.phase ≠ .closed
  once : ∀ event, copies event g.sockets + (g.deliveries event).length =
    if event < g.emitted.length then 1 else 0
  called : ∀ b ∈ g.broadcasts, ∀ sink ∈ b.subscribed, b.called.count sink = 1
  sinks : g.sinks.Nodup

theorem Fanned.fansOut {g : Clients} (h : Fanned g) : FansOut g := by
  constructor
  · intro c d workspaceId hc hd
    have hsome := (h.cached workspaceId c).mpr hc
    rw [(h.cached workspaceId d).mpr hd] at hsome
    exact (Option.some.inj hsome).symm
  · intro event he
    have honce := h.once event
    rw [if_pos he] at honce
    constructor
    · intro h0
      obtain ⟨b, hb⟩ := List.length_eq_one_iff.mp (show (g.deliveries event).length = 1 by omega)
      have hmem : b ∈ g.deliveries event := by
        rw [hb]
        exact List.mem_singleton_self b
      exact ⟨b, hb, h.called b (List.mem_filter.mp hmem).1⟩
    · intro h0
      exact List.length_eq_zero_iff.mp (by omega)

theorem fanned_empty : Fanned empty := by
  constructor
  · intro workspaceId client
    simp [empty, mapGet, openFor]
  · intro workspaceId
    simp [empty, live]
  · rintro _ ⟨⟩
  · intro event
    simp [empty, copies, deliveries]
  · rintro _ ⟨⟩
  · exact List.nodup_nil

variable {g : Clients} {client : ClientId} {id : SocketId} {workspaceId : String} {s : Socket}
  {made : List (String × WorkerClient)} {f : WorkerClient → WorkerClient}

theorem openFor_modify (hf : ∀ e, made[client]? = some e → (f e.2).closed = e.2.closed) :
    openFor (made.modify client (fun e => (e.1, f e.2))) = openFor made := by
  funext c
  rw [openFor, openFor, List.getElem?_modify]
  split_ifs with h
  · subst h
    cases he : made[client]? with
    | none => rfl
    | some e => simp [hf e he]
  · simp

theorem Fanned.updateClient (h : Fanned g)
    (hf : ∀ e, g.made[client]? = some e → (f e.2).closed = e.2.closed) : Fanned (g.updateClient client f) := by
  refine ⟨?_, h.single, h.subscribed, h.once, h.called, h.sinks⟩
  intro ws c
  rw [Clients.updateClient, openFor_modify hf]
  exact h.cached ws c

theorem Fanned.updateSocket {f : Socket → Socket} (h : Fanned g) (hs : g.sockets[id]? = some s)
    (hworkspace : (f s).workspaceId = s.workspaceId) (hlive : (f s).phase ≠ .closed → s.phase ≠ .closed)
    (hsubscribed : (f s).subscribed → (f s).phase ≠ .closed) (hdown : (f s).down = s.down) :
    Fanned (g.updateSocket id f) := by
  refine ⟨h.cached, ?_, ?_, ?_, h.called, h.sinks⟩
  · intro ws
    apply le_trans (countP_modify_le ?_) (h.single ws)
    intro t ht hl
    cases hs.symm.trans ht
    simp only [isLive, hworkspace, decide_eq_true_eq] at hl ⊢
    exact ⟨hl.1, hlive hl.2⟩
  · intro t ht
    rcases mem_modify ht with ht | ⟨u, hu, rfl⟩
    · exact h.subscribed t ht
    · cases hs.symm.trans hu
      exact hsubscribed
  · intro event
    have hsum := sum_map_modify (φ := fun s : Socket => s.down.count event) (f := f) hs
    have honce := h.once event
    rw [hdown] at hsum
    have hcopies : copies event (g.updateSocket id f).sockets = copies event g.sockets :=
      Nat.add_right_cancel hsum
    rw [hcopies]
    exact honce

theorem Fanned.onSocket {phases : List Phase} {f : Socket → Clients} (h : Fanned g)
    (hf : ∀ s, g.sockets[id]? = some s → s.phase ∈ phases → Fanned (f s)) : Fanned (g.onSocket id phases f) := by
  rw [Clients.onSocket]
  cases hs : g.sockets[id]? with
  | none => exact h
  | some s =>
      dsimp only
      split_ifs with hp
      · exact hf s hs hp
      · exact h

theorem Fanned.dial {caller : Caller} {attempt : Nat} (h : Fanned g)
    (hopen : ∀ e, g.made[client]? = some e → e.2.closed = false) (hlive : live workspaceId g.sockets = 0) :
    Fanned (g.dial client workspaceId caller attempt) := by
  refine ⟨?_, ?_, ?_, ?_, h.called, h.sinks⟩
  · intro ws c
    simp only [Clients.dial]
    rw [openFor_modify (f := fun c => WorkerClient.await caller attempt g.sockets.length
      { c with closed := false, connecting := some g.sockets.length }) (fun e he => (hopen e he).symm)]
    exact h.cached ws c
  · intro ws
    have hsingle := h.single ws
    simp only [live, Clients.dial, List.countP_append, List.countP_singleton] at hlive hsingle ⊢
    by_cases hw : workspaceId = ws
    · subst hw
      rw [hlive, Nat.zero_add]
      split_ifs <;> simp
    · simpa [isLive, hw] using hsingle
  · intro t ht
    rcases List.mem_append.mp ht with ht | ht
    · exact h.subscribed t ht
    · cases List.mem_singleton.mp ht
      rintro ⟨⟩
  · intro event
    have hcopies : copies event (g.dial client workspaceId caller attempt).sockets = copies event g.sockets := by
      simp [copies, Clients.dial]
    rw [hcopies]
    exact h.once event

theorem Fanned.connect {caller : Caller} {attempt : Nat} (h : Fanned g) (hc : Connects g client) :
    Fanned (g.connect client caller attempt) := by
  rw [Clients.connect]
  cases hm : g.made[client]? with
  | none => exact h
  | some e =>
      obtain ⟨ws, c⟩ := e
      obtain ⟨hopen, hdial⟩ := hc ws c hm
      dsimp only
      cases hsocket : c.socket.filter g.isOpen with
      | some id => exact h
      | none =>
          dsimp only
          cases hconnecting : c.connecting with
          | some id => exact h.updateClient (fun _ _ => rfl)
          | none =>
              refine h.dial (fun e he => ?_) (hdial hsocket hconnecting)
              cases hm.symm.trans he
              exact hopen

theorem Connects.updateClient (hc : Connects g client)
    (hf : ∀ c, (f c).closed = c.closed ∧ (f c).socket = c.socket ∧ (f c).connecting = c.connecting) :
    Connects (g.updateClient client f) client := by
  intro ws c hm
  simp only [Clients.updateClient, List.getElem?_modify_eq] at hm
  obtain ⟨⟨ws', c'⟩, hm', he⟩ := Option.map_eq_some_iff.mp hm
  cases he
  obtain ⟨hclosed, hsocket, hconnecting⟩ := hf c'
  rw [hclosed, hsocket, hconnecting]
  exact hc _ _ hm'

theorem Fanned.send {command : ClientCommand} (h : Fanned g) (hc : Connects g client) :
    Fanned (g.send client command) := by
  have hnote : ∀ c, (World.noteCommand command c).closed = c.closed ∧
      (World.noteCommand command c).socket = c.socket ∧
      (World.noteCommand command c).connecting = c.connecting := by
    intro c
    rw [World.noteCommand]
    cases command.sessionId with
    | none => exact ⟨rfl, rfl, rfl⟩
    | some sessionId =>
        dsimp only
        split_ifs <;> exact ⟨rfl, rfl, rfl⟩
  exact (h.updateClient (fun e _ => (hnote e.2).1)).connect (hc.updateClient hnote)

theorem Fanned.retried {i : Nat} (h : Fanned g)
    (hc : ∀ e x, g.made[client]? = some e → e.2.waiters[i]? = some x → x.socket = none → Connects g client) :
    Fanned (g.retried client i) := by
  rw [Clients.retried]
  cases he : g.made[client]? with
  | none => exact h
  | some e =>
      rw [Option.bind_some]
      cases hx : e.2.waiters[i]? with
      | none => exact h
      | some x =>
          dsimp only
          split_ifs with hn
          · have hconnects := hc e x he hx hn
            apply Fanned.connect (h.updateClient (fun _ _ => rfl))
            exact hconnects.updateClient (fun _ => ⟨rfl, rfl, rfl⟩)
          · exact h

theorem Fanned.timer (h : Fanned g)
    (hc : ∀ e, g.made[client]? = some e → e.2.reconnectTimer = true → Connects g client) :
    Fanned (g.timer client) := by
  rw [Clients.timer]
  cases he : g.made[client]? with
  | none => simpa using h
  | some e =>
      rw [Option.any_some]
      split_ifs with htimer
      · apply Fanned.connect (h.updateClient (fun _ _ => rfl))
        exact (hc e he htimer).updateClient (fun _ => ⟨rfl, rfl, rfl⟩)
      · exact h

theorem openFor_close : openFor (made.modify client (fun e => (e.1, e.2.close))) =
    fun c => if c = client then none else openFor made c := by
  funext c
  rw [openFor, openFor, List.getElem?_modify]
  by_cases hc : c = client
  · subst hc
    cases hm : made[c]? <;> simp [WorkerClient.close]
  · simp [hc, Ne.symm hc]

theorem mapGet_mapDelete {V : Type} (p k : String) (m : List (String × V)) :
    mapGet p (mapDelete k m) = if p = k then none else mapGet p m := by
  have hfilter := mapGet_filter p (fun id => decide (id ≠ k)) m
  rw [mapDelete, hfilter]
  by_cases hp : p = k <;> simp [hp]

/-- Closing the client of a workspace and taking it out of the map. -/
theorem Fanned.release (h : Fanned g) : Fanned (g.release workspaceId) := by
  rw [Clients.release]
  cases hc : mapGet workspaceId g.cached with
  | none => exact h
  | some client =>
      have hopened := (h.cached workspaceId client).mp hc
      have hcached : ∀ ws c, mapGet ws (mapDelete workspaceId g.cached) = some c ↔
          openFor (g.made.modify client (fun e => (e.1, e.2.close))) c = some ws := by
        intro ws c
        rw [mapGet_mapDelete, openFor_close]
        by_cases hw : ws = workspaceId
        · subst hw
          by_cases hd : c = client
          · simp [hd]
          · simp only [if_true, if_neg hd, reduceCtorEq, false_iff]
            intro ho
            have hsome := (h.cached ws c).mpr ho
            rw [hc] at hsome
            exact hd (Option.some.inj hsome).symm
        · by_cases hd : c = client
          · subst hd
            simp only [if_neg hw, if_true, reduceCtorEq, iff_false]
            intro ho
            have hsome := (h.cached ws c).mp ho
            rw [hopened] at hsome
            exact hw (Option.some.inj hsome).symm
          · simpa only [if_neg hw, if_neg hd] using h.cached ws c
      dsimp only
      rw [Clients.close]
      cases hs : g.made[client]?.bind (fun e => e.2.socket) with
      | none => exact ⟨hcached, h.single, h.subscribed, h.once, h.called, h.sinks⟩
      | some id =>
          cases hg : g.sockets[id]? with
          | none =>
              have hsame : g.sockets.modify id (fun s =>
                  if s.phase = .opened then { s with phase := .closing } else s) = g.sockets :=
                List.modify_eq_self (List.getElem?_eq_none_iff.mp hg)
              simp only [Clients.updateSocket, Clients.updateClient, hsame]
              exact ⟨hcached, h.single, h.subscribed, h.once, h.called, h.sinks⟩
          | some s =>
              have hsocket : Fanned (g.updateSocket id (fun s =>
                  if s.phase = .opened then { s with phase := .closing } else s)) := by
                apply h.updateSocket hg
                · split_ifs <;> rfl
                · intro hp hn
                  simp [hn] at hp
                · intro hsub
                  have hphase := h.subscribed s (List.mem_of_getElem? hg)
                  split_ifs at hsub ⊢
                  · rintro ⟨⟩
                  · exact hphase hsub
                · split_ifs <;> rfl
              exact ⟨hcached, hsocket.single, hsocket.subscribed, hsocket.once, h.called, h.sinks⟩

theorem Fanned.store (h : Fanned g) (hn : mapGet workspaceId g.cached = none) : Fanned (g.store workspaceId) := by
  refine ⟨?_, h.single, h.subscribed, h.once, h.called, h.sinks⟩
  have hmade : openFor (g.made ++ [(workspaceId, WorkerClient.fresh)]) = fun c =>
      if c = g.made.length then some workspaceId else openFor g.made c := by
    funext c
    rw [openFor, openFor, List.getElem?_append]
    by_cases hc : c = g.made.length
    · simp [hc, WorkerClient.fresh]
    · rw [if_neg hc]
      split_ifs with hl
      · rfl
      · have hlt : g.made.length < c := Nat.lt_of_le_of_ne (Nat.le_of_not_lt hl) (Ne.symm hc)
        have hnone : [(workspaceId, WorkerClient.fresh)][c - g.made.length]? = none :=
          List.getElem?_eq_none (Nat.sub_pos_of_lt hlt)
        rw [hnone, List.getElem?_eq_none (Nat.le_of_lt hlt)]
  have hfresh : openFor g.made g.made.length = none := by
    rw [openFor, List.getElem?_eq_none (Nat.le_refl _)]
    rfl
  intro ws c
  simp only [Clients.store]
  rw [mapGet_mapSet, hmade]
  have hold := h.cached ws c
  by_cases hw : workspaceId = ws
  · subst hw
    by_cases hc : c = g.made.length
    · simp [hc]
    · rw [hn] at hold
      simp only [if_true, if_neg hc, Option.some.injEq, ← hold, reduceCtorEq, iff_false]
      exact fun he => hc he.symm
  · by_cases hc : c = g.made.length
    · subst hc
      rw [hfresh] at hold
      simp only [if_neg hw, if_true, hold, reduceCtorEq, false_iff, Option.some.injEq]
      exact hw
    · simpa only [if_neg hw, if_neg hc] using hold

theorem Fanned.subscribe {sink : SinkId} (h : Fanned g) : Fanned (g.subscribe sink) := by
  rw [Clients.subscribe]
  split_ifs with hs
  · exact h
  · exact ⟨h.cached, h.single, h.subscribed, h.once, h.called,
      List.nodup_append.mpr ⟨h.sinks, List.nodup_singleton _, by
        intro a ha b hb
        cases List.mem_singleton.mp hb
        exact fun he => hs (he ▸ ha)⟩⟩

theorem Fanned.unsubscribe {sink : SinkId} (h : Fanned g) : Fanned (g.unsubscribe sink) :=
  ⟨h.cached, h.single, h.subscribed, h.once, h.called, h.sinks.filter _⟩

def carries (workspaceId : String) (s : Socket) : Bool := s.workspaceId = workspaceId ∧ s.subscribed

theorem copies_push (event n : EventId) (sockets : List Socket) :
    copies event (sockets.map (push workspaceId n)) =
      copies event sockets + if event = n then sockets.countP (carries workspaceId) else 0 := by
  induction sockets with
  | nil => simp [copies]
  | cons s sockets ih =>
      simp only [copies, List.map_cons, List.sum_cons, List.countP_cons] at ih ⊢
      rw [ih, push]
      by_cases hs : s.workspaceId = workspaceId ∧ s.subscribed
      · by_cases he : event = n
        · subst he
          simp only [if_pos hs, List.count_append, List.count_singleton, carries, hs, if_true, and_self,
            decide_true, beq_self_eq_true]
          omega
        · simp [if_pos hs, he, List.count_cons, Ne.symm he]
      · simp only [if_neg hs, carries, hs, decide_false, Bool.false_eq_true, if_false, Nat.add_zero]
        omega

theorem Fanned.carriers (h : Fanned g) :
    g.sockets.countP (carries workspaceId) ≤ live workspaceId g.sockets := by
  apply List.countP_mono_left
  intro s hs hc
  simp only [carries, isLive, decide_eq_true_eq] at hc ⊢
  exact ⟨hc.1, h.subscribed s hs hc.2⟩

/-- The worker emits an event while it has a connection. -/
theorem Fanned.emit (h : Fanned g) (hs : ∃ s ∈ g.sockets, carries workspaceId s = true) :
    Fanned (g.emit workspaceId) := by
  have hone : g.sockets.countP (carries workspaceId) = 1 := by
    have hpos := List.countP_pos_iff.mpr hs
    have hle : g.sockets.countP (carries workspaceId) ≤ live workspaceId g.sockets := h.carriers
    have hsingle := h.single workspaceId
    omega
  refine ⟨h.cached, ?_, ?_, ?_, h.called, h.sinks⟩
  · intro ws
    have hsame : isLive ws ∘ push workspaceId g.emitted.length = isLive ws := by
      funext s
      simp only [Function.comp, push]
      split_ifs <;> rfl
    simp only [live, Clients.emit, List.countP_map, hsame]
    exact h.single ws
  · intro t ht
    obtain ⟨s, hs, rfl⟩ := List.mem_map.mp ht
    have hsub := h.subscribed s hs
    rw [push]
    split_ifs with hw
    · exact fun _ => hsub hw.2
    · exact hsub
  · intro event
    have honce := h.once event
    have hcopies : copies event (g.sockets.map (push workspaceId g.emitted.length)) =
        copies event g.sockets + if event = g.emitted.length then g.sockets.countP (carries workspaceId) else 0 :=
      copies_push event g.emitted.length g.sockets
    rw [hone] at hcopies
    have hlength : (g.emit workspaceId).emitted.length = g.emitted.length + 1 := by simp [Clients.emit]
    have hdeliveries : (g.emit workspaceId).deliveries event = g.deliveries event := rfl
    rw [Clients.emit] at hlength hdeliveries ⊢
    rw [hcopies, hdeliveries, hlength]
    rcases Nat.lt_trichotomy event g.emitted.length with hlt | heq | hgt
    · rw [if_pos hlt] at honce
      rw [if_neg (Nat.ne_of_lt hlt), if_pos (Nat.lt_succ_of_lt hlt)]
      exact honce
    · rw [heq, if_neg (Nat.lt_irrefl _)] at honce
      rw [heq, if_pos rfl, if_pos (Nat.lt_succ_self _)]
      omega
    · rw [if_neg (Nat.lt_asymm hgt)] at honce
      rw [if_neg (Nat.ne_of_gt hgt), if_neg (Nat.not_lt_of_le hgt)]
      exact honce

theorem called_none (sinks : List SinkId) : called sinks none = sinks := by simp [called]

theorem Fanned.message (h : Fanned g) : Fanned (g.message id) := by
  rw [Clients.message, arriving]
  cases hs : g.sockets[id]? with
  | none => exact h
  | some s =>
      dsimp only
      split_ifs with hp
      swap
      · exact h
      cases hd : s.down with
      | nil => exact h
      | cons e rest =>
          dsimp only [List.head?_cons, Option.map_some]
          refine ⟨h.cached, ?_, ?_, ?_, ?_, h.sinks⟩
          · intro ws
            apply le_trans (countP_modify_le ?_) (h.single ws)
            exact fun t _ ht => ht
          · intro t ht
            rcases mem_modify ht with ht | ⟨u, hu, rfl⟩
            · exact h.subscribed t ht
            · exact h.subscribed u (List.mem_of_getElem? hu)
          · intro event
            have honce := h.once event
            have hsum := sum_map_modify (φ := fun s : Socket => s.down.count event)
              (f := fun s => { s with down := s.down.tail }) hs
            simp only [hd, List.tail_cons, List.count_cons] at hsum
            have hdeliveries : ((g.updateSocket id (fun s => { s with down := s.down.tail })).broadcast e
                none).deliveries event = g.deliveries event ++
                  if e = event then [⟨e, g.sinks, Clients.called g.sinks none⟩] else [] := by
              simp only [deliveries, broadcast, Clients.updateSocket, List.filter_append, List.filter_singleton]
              by_cases he : e = event <;> simp [he]
            rw [hdeliveries, List.length_append]
            refine Eq.trans ?_ honce
            simp only [copies, broadcast, Clients.updateSocket]
            by_cases he : e = event
            · simp only [he, beq_self_eq_true, if_true, List.length_singleton] at hsum ⊢
              omega
            · simp only [beq_false_of_ne he, Bool.false_eq_true, if_false, if_neg he, List.length_nil] at hsum ⊢
              omega
          · intro b hb sink hsink
            rcases List.mem_append.mp hb with hb | hb
            · exact h.called b hb sink hsink
            · cases List.mem_singleton.mp hb
              rw [called_none]
              exact List.count_eq_one_of_mem h.sinks hsink

theorem closed_reject (id : SocketId) (c : WorkerClient) : (c.reject id).closed = c.closed := by
  simp only [WorkerClient.reject, World.scheduleReconnect]
  split_ifs <;> rfl

theorem closed_onOpen (id : SocketId) (c : WorkerClient) : (c.onOpen id).closed = c.closed := by
  rw [WorkerClient.onOpen]
  split_ifs
  · exact closed_reject id _
  · rfl

theorem closed_onClose (id : SocketId) (c : WorkerClient) : (c.onClose id).closed = c.closed := by
  simp only [WorkerClient.onClose, World.scheduleReconnect]
  split_ifs <;> rfl

theorem closed_onError (id : SocketId) (c : WorkerClient) : (c.onError id).closed = c.closed :=
  closed_reject id _

theorem Fanned.accepted (h : Fanned g) : Fanned (g.accepted id) := by
  apply h.onSocket
  intro s hs hp
  have hphase : s.phase = .connecting := by simpa using hp
  exact h.updateSocket hs rfl (fun hl => hl) (fun _ => by simp [hphase]) rfl

theorem Fanned.opened (h : Fanned g) : Fanned (g.opened id) := by
  apply h.onSocket
  intro s hs hp
  have hphase : s.phase = .connecting := by simpa using hp
  split_ifs
  · have hclient : Fanned (g.updateClient s.client (WorkerClient.onOpen id)) :=
      h.updateClient (fun e _ => closed_onOpen id e.2)
    apply hclient.updateSocket hs rfl
    · intro _
      simp [hphase]
    · intro _
      split_ifs <;> nofun
    · rfl
  · exact h

theorem Fanned.closes (h : Fanned g) : Fanned (g.closes id) := by
  apply h.onSocket
  intro s hs hp
  have hphase : s.phase = .opened := by simpa using hp
  exact h.updateSocket hs rfl (fun _ => by simp [hphase]) (fun _ => nofun) rfl

/-- A socket that is gone takes no event along. -/
theorem Fanned.gone (h : Fanned g) (hs : g.sockets[id]? = some s) (hd : s.down = []) :
    Fanned (g.updateSocket id gone) := h.updateSocket hs rfl (fun hl => absurd rfl hl) nofun hd.symm

theorem Fanned.failed (h : Fanned g) (hd : ∀ s, g.sockets[id]? = some s → s.down = []) :
    Fanned (g.failed id) := by
  apply h.onSocket
  intro s hs _
  have hclient : Fanned (g.updateClient s.client (fun c => (c.onError id).onClose id)) :=
    h.updateClient (fun e _ => (closed_onClose id _).trans (closed_onError id e.2))
  exact hclient.gone hs (hd s hs)

theorem Fanned.dropped (h : Fanned g) (hd : ∀ s, g.sockets[id]? = some s → s.down = []) :
    Fanned (g.dropped id) := by
  apply h.onSocket
  intro s hs _
  have hclient : Fanned (g.updateClient s.client (WorkerClient.onClose id)) :=
    h.updateClient (fun e _ => closed_onClose id e.2)
  exact hclient.gone hs (hd s hs)

end Kross.Server.Clients

import Kross.Mcp.JsonRpc
import Mathlib.Data.List.Induction
import Mathlib.Data.List.Nodup

namespace Kross.Mcp.Rpc.Stdio

open Outstanding

structure Pending where
  id : Nat
  method : String

/-- `child` tells that there is a process. -/
structure Client where
  child : Bool
  closed : Bool
  nextId : Nat
  pending : Ledger Pending Settlement

/-- The timer and the abort listener of a request are known by its id. What stands in the
stream between two frames that are no JSON comes as no value. -/
inductive Event
  | start
  | request (method : String) (aborted writeFails : Bool)
  | message (raw : Option Value)
  | timeout (id : Nat)
  | abort (id : Nat)
  | close
  | childError
  | childClose

namespace Client

def initial : Client := ⟨false, false, 1, .start⟩

def reject (id : Nat) (error : Pending → Rejection) (c : Client) : Client :=
  { c with pending := c.pending.settle (fun p => p.id = id) (fun p => ⟨some p.id, none, .error (error p)⟩) }

def failAll (error : Rejection) (c : Client) : Client :=
  { c with pending := c.pending.settleAll (fun p => ⟨some p.id, none, .error error⟩) }

def request (method : String) (aborted writeFails : Bool) (c : Client) : Client :=
  if c.closed || !c.child then { c with pending := c.pending.refuse ⟨none, none, .error .notRunning⟩ }
  else if aborted then { c with pending := c.pending.refuse ⟨none, none, .error .signalAborted⟩ }
  else
    let sent := { c with nextId := c.nextId + 1, pending := c.pending.issue ⟨c.nextId, method⟩ }
    if writeFails then sent.reject c.nextId (fun _ => .write) else sent

/-- What the promise of a request is settled with by the message that has its id. -/
def answer (m : Value) (p : Pending) : Settlement :=
  ⟨some p.id, some m, if m.failed then .error m.serverError else .ok (m.member "result")⟩

def handleMessage (raw : Option Value) (c : Client) : Client :=
  match raw with
  | none => c
  | some m =>
      if m.isObject = false then c
      else match m.member "id" with
        | none | some .null => c
        | some _ => { c with pending := c.pending.settle (fun p => m.hasId p.id) (answer m) }

def close (c : Client) : Client :=
  if c.closed then c else { c.failAll .closed with closed := true, child := false }

end Client

def next (c : Client) : Event → Client
  | .start => if c.closed then c else { c with child := true }
  | .request method aborted writeFails => c.request method aborted writeFails
  | .message raw => c.handleMessage raw
  | .timeout id => c.reject id (fun p => .timedOut p.method)
  | .abort id => c.reject id (fun _ => .aborted)
  | .close => c.close
  | .childError => c.failAll .transport
  | .childClose => { c.failAll .exited with closed := true }

def Event.messages : Event → List Value
  | .message raw => raw.toList
  | _ => []

/-- A message with the id of a pending request is a response: it has no method, and a
result unless it has an error. -/
def Proper (c : Client) : Event → Prop
  | .message (some m) => ∀ w ∈ c.pending.waiting, m.hasId w.2.id = true →
      m.member "method" = none ∧ (m.failed = true ∨ (m.member "result").isSome = true)
  | _ => True

/-- What the events so far have made of the client. -/
structure Sound (received : List Value) (c : Client) : Prop where
  balanced : c.pending.Balanced
  ids : (c.pending.waiting.map (fun w => w.2.id)).Nodup ∧ ∀ w ∈ c.pending.waiting, w.2.id < c.nextId
  own : ∀ x ∈ c.pending.settled, x.2.Own received

variable {received : List Value} {c : Client}

theorem sound_initial : Sound [] .initial where
  balanced := Ledger.balanced_start
  ids := ⟨List.nodup_nil, nofun⟩
  own := nofun

theorem Sound.mono (h : Sound received c) (more : List Value) : Sound (received ++ more) c :=
  ⟨h.balanced, h.ids, fun x hx => (h.own x hx).mono⟩

theorem Sound.settle (h : Sound received c) {p : Pending → Bool} {f : Pending → Settlement}
    (hf : ∀ w ∈ c.pending.waiting, p w.2 = true → (f w.2).Own received) :
    Sound received { c with pending := c.pending.settle p f } where
  balanced := h.balanced.settle p f
  ids := ⟨h.ids.1.sublist (Ledger.waiting_settle_sublist.map _), fun w hw => h.ids.2 w (Ledger.waiting_settle_sublist.subset hw)⟩
  own := by
    intro x hx
    rcases Ledger.mem_settled_settle hx with hx | ⟨w, hw, hp, rfl⟩
    · exact h.own x hx
    · exact hf w hw hp

theorem Sound.reject (h : Sound received c) (id : Nat) (error : Pending → Rejection) : Sound received (c.reject id error) :=
  h.settle (fun _ _ _ => Settlement.own_error)

theorem Sound.failAll (h : Sound received c) (error : Rejection) : Sound received (c.failAll error) where
  balanced := h.balanced.settleAll _
  ids := ⟨List.nodup_nil, nofun⟩
  own := by
    intro x hx
    rcases Ledger.mem_settled_settleAll hx with hx | ⟨w, -, rfl⟩
    · exact h.own x hx
    · exact Settlement.own_error

theorem Sound.refuse (h : Sound received c) (error : Rejection) :
    Sound received { c with pending := c.pending.refuse ⟨none, none, .error error⟩ } where
  balanced := h.balanced.refuse _
  ids := h.ids
  own := by
    intro x hx
    rcases List.mem_cons.mp hx with rfl | hx
    · exact Settlement.own_error
    · exact h.own x hx

theorem Sound.issue (h : Sound received c) (method : String) :
    Sound received { c with nextId := c.nextId + 1, pending := c.pending.issue ⟨c.nextId, method⟩ } where
  balanced := h.balanced.issue _
  ids := by
    constructor
    · simp only [Ledger.issue, List.map_append, List.map_cons, List.map_nil, List.nodup_append]
      refine ⟨h.ids.1, List.nodup_singleton _, ?_⟩
      intro a ha b hb
      obtain ⟨w, hw, rfl⟩ := List.mem_map.mp ha
      rw [List.mem_singleton.mp hb]
      exact Nat.ne_of_lt (h.ids.2 w hw)
    · intro w hw
      rcases Ledger.mem_waiting_issue hw with hw | hw
      · exact Nat.lt_succ_of_lt (h.ids.2 w hw)
      · rw [hw]
        exact Nat.lt_succ_self _
  own := h.own

theorem Sound.request (h : Sound received c) (method : String) (aborted writeFails : Bool) :
    Sound received (c.request method aborted writeFails) := by
  unfold Client.request
  split_ifs
  · exact h.refuse _
  · exact h.refuse _
  · exact (h.issue method).reject _ _
  · exact h.issue method

theorem Sound.handleMessage (h : Sound received c) (raw : Option Value) (hp : Proper c (.message raw)) :
    Sound (received ++ raw.toList) (c.handleMessage raw) := by
  have hmono := h.mono raw.toList
  unfold Client.handleMessage
  split
  · exact hmono
  · rename_i m
    split_ifs
    · exact hmono
    · split
      · exact hmono
      · exact hmono
      · refine hmono.settle ?_
        intro w hw hid
        obtain ⟨hmethod, hresult⟩ := hp w hw hid
        constructor
        · intro result hok
          rw [Client.answer] at hok
          by_cases hfailed : m.failed = true
          · simp [hfailed] at hok
          · obtain ⟨r, hr⟩ := Option.isSome_iff_exists.mp (hresult.resolve_left hfailed)
            simp only [hfailed, Bool.false_eq_true, if_false, Except.ok.injEq] at hok
            exact ⟨m, w.2.id, r, rfl, rfl, hok.symm.trans hr, hmethod, hid, hr⟩
        · rintro _ ⟨⟩
          exact ⟨List.mem_append_right _ (by simp), fun _ _ _ => hmethod⟩

theorem Sound.next (h : Sound received c) (event : Event) (hp : Proper c event) :
    Sound (received ++ event.messages) (next c event) := by
  have hsame : received ++ [] = received := List.append_nil _
  cases event with
  | message raw => exact h.handleMessage raw hp
  | start =>
      unfold Event.messages Stdio.next
      rw [hsame]
      split_ifs
      · exact h
      · exact ⟨h.balanced, h.ids, h.own⟩
  | request method aborted writeFails => exact hsame.symm ▸ h.request method aborted writeFails
  | timeout id => exact hsame.symm ▸ h.reject id _
  | abort id => exact hsame.symm ▸ h.reject id _
  | close =>
      unfold Event.messages Stdio.next Client.close
      rw [hsame]
      split_ifs
      · exact h
      · have hfailed := h.failAll .closed
        exact ⟨hfailed.balanced, hfailed.ids, hfailed.own⟩
  | childError => exact hsame.symm ▸ h.failAll _
  | childClose =>
      have hfailed := h.failAll .exited
      exact hsame.symm ▸ ⟨hfailed.balanced, hfailed.ids, hfailed.own⟩

theorem sound_after {events : List Event} (h : Run.Along next Proper .initial events) :
    Sound (events.flatMap Event.messages) (Run.after next .initial events) := by
  induction events using List.reverseRecOn with
  | nil => exact sound_initial
  | append_singleton events event ih =>
      obtain ⟨hbefore, hp⟩ := Run.along_concat.mp h
      rw [Run.after_concat, List.flatMap_append, List.flatMap_singleton]
      exact (ih hbefore).next event hp

/-- The timer of a pending request settles it. -/
theorem timeout_settles (h : Sound received c) {w : Nat × Pending} (hw : w ∈ c.pending.waiting) :
    ∃ s, (w.1, s) ∈ (next c (.timeout w.2.id)).pending.settled := by
  refine ⟨_, Ledger.settle_settles hw (by simp) ?_⟩
  intro v hv hid
  have hid : v.2.id = w.2.id := by simpa using hid
  exact List.inj_on_of_nodup_map h.ids.1 hv hw hid

end Kross.Mcp.Rpc.Stdio

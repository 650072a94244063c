import Kross.Context.SavedOperations
import Kross.Context.ThreadRestore
import Mathlib.Data.List.Forall2

namespace Kross.Context.Saved

open Parsed PartialMap

section Names

variable (k : Bool) (c : Nat) {turns : List TurnInfo} {a b : String}

/-- The turn that counts for a name: of two with one name the later one. -/
def turnNamed (turns : List TurnInfo) (turnId : String) : Option TurnInfo :=
  turns.reverse.find? (fun turn => turn.id = turnId)

/-- A saved turn and the one that it is restored to, whatever the names are. -/
theorem exists_namesOf (h : a ∈ turns.map TurnInfo.id) :
    ∃ p ∈ renamedTurns k c turns, p.1 = a ∧ p.2.id = namesOf k c turns a ∧
      renamed (renamedTurns k c turns) a = some (namesOf k c turns a) ∧
      some p.2.status = (turnNamed turns a).map (restoredStatus k) := by
  cases hf : (renamedTurns k c turns).reverse.find? (fun p => p.1 = a) with
  | none =>
      rw [← renamedTurns_old k c turns] at h
      obtain ⟨p, hp, rfl⟩ := List.mem_map.mp h
      have := List.find?_eq_none.mp hf p (List.mem_reverse.mpr hp)
      simp at this
  | some p =>
      have hid : p.1 = a := by simpa using List.find?_some hf
      have hr : renamed (renamedTurns k c turns) a = some p.2.id := by rw [renamed, hf]; rfl
      have hn : namesOf k c turns a = p.2.id := by rw [namesOf, rename, hr]; rfl
      refine ⟨p, List.mem_reverse.mp (List.mem_of_find?_eq_some hf), hid, hn.symm, hn ▸ hr, ?_⟩
      have hs := congrArg (fun l : List (String × TurnStatus) =>
        (l.reverse.find? (fun q => q.1 = a)).map Prod.snd) (renamedTurns_status k c turns)
      simp only [← List.map_reverse, List.find?_map] at hs
      change ((((renamedTurns k c turns).reverse.find? (fun p => p.1 = a)).map _).map _) =
        (((turnNamed turns a).map _).map _) at hs
      rw [hf, Option.map_map, Option.map_map] at hs
      exact hs

theorem namesOf_apart (ha : a ∈ turns.map TurnInfo.id) (hb : b ∈ turns.map TurnInfo.id)
    (h : namesOf k c turns a = namesOf k c turns b) : a = b := by
  obtain ⟨p, hp, rfl, hpn, -⟩ := exists_namesOf k c ha
  obtain ⟨q, hq, rfl, hqn, -⟩ := exists_namesOf k c hb
  rw [List.inj_on_of_nodup_map (renamedTurns_nodup k c turns) hp hq (by rw [hpn, hqn, h])]

theorem namesOf_bound (ha : a ∈ turns.map TurnInfo.id) :
    ∃ n ≤ c + turns.length, namesOf k c turns a = turnName n := by
  obtain ⟨p, hp, -, hpn, -⟩ := exists_namesOf k c ha
  obtain ⟨n, -, hn, hid⟩ := renamedTurns_new _ _ hp
  exact ⟨n, hn, hpn.symm.trans hid⟩

theorem turnStatus_namesOf (ha : a ∈ turns.map TurnInfo.id) :
    (((renamedTurns k c turns).map Prod.snd).find? (fun turn => turn.id = namesOf k c turns a)).map
      TurnInfo.status = (turnNamed turns a).map (restoredStatus k) := by
  obtain ⟨p, hp, -, hpn, -, hs⟩ := exists_namesOf k c ha
  rw [← hs, List.find?_map]
  cases hf : (renamedTurns k c turns).find?
      ((fun turn : TurnInfo => decide (turn.id = namesOf k c turns a)) ∘ Prod.snd) with
  | none =>
      have := List.find?_eq_none.mp hf p hp
      simp [hpn] at this
  | some q =>
      have hq : q.2.id = p.2.id := by
        rw [hpn]
        simpa using List.find?_some hf
      rw [List.inj_on_of_nodup_map (renamedTurns_nodup k c turns) (List.mem_of_find?_eq_some hf) hp hq]
      rfl

end Names

section Accepted

/-- What the validator has found out about a state. -/
structure Accepted (state : ConversationThreadState) : Prop where
  opened : (state.turns.filter (fun turn => turn.status = .open)).map TurnInfo.id =
    state.openTurnId.toList
  openTurn : ∀ turnId, state.openTurnId = some turnId → turnId ∈ state.turns.map TurnInfo.id
  entries : ∀ saved ∈ state.entries, saved.turnId ∈ state.turns.map TurnInfo.id ∧
    saved.message.valid = true

theorem mem_of_hasTurn {turns : List TurnInfo} {turnId : String} (h : hasTurn turns turnId = true) :
    turnId ∈ turns.map TurnInfo.id := by
  obtain ⟨turn, hm, he⟩ := List.any_eq_true.mp h
  exact of_decide_eq_true he ▸ List.mem_map_of_mem hm

theorem threadEntry_sound {turns : List TurnInfo} {v : Value} {saved : SerializedThreadEntry}
    (h : threadEntry turns v = some saved) :
    saved.turnId ∈ turns.map TurnInfo.id ∧ saved.message.valid = true := by
  rw [threadEntry] at h
  split at h
  · split at h
    · next hc =>
      cases h
      rw [Bool.and_eq_true, Bool.and_eq_true, isLlmMessage, Bool.and_eq_true] at hc
      exact ⟨mem_of_hasTurn hc.1.1, hc.1.2.2⟩
    · cases h
  · cases h

theorem accepted {v : Value} {state : ConversationThreadState}
    (h : conversationThreadState v = some state) : Accepted state := by
  rw [conversationThreadState] at h
  split at h
  · split at h
    · next openTurnId _ _ =>
      obtain ⟨turns, -, h⟩ := Option.bind_eq_some_iff.mp h
      split at h
      · next ha =>
        obtain ⟨entries, he, h⟩ := Option.bind_eq_some_iff.mp h
        cases h
        simp only [openTurnAgrees, Bool.and_eq_true, decide_eq_true_eq] at ha
        obtain ⟨⟨hturn, hlen⟩, hopen⟩ := ha
        refine { opened := ?_, openTurn := fun turnId hid => ?_, entries := fun saved hs => ?_ }
        · dsimp only
          rw [hopen]
          cases hf : turns.filter (fun turn => turn.status = .open) with
          | nil => rfl
          | cons turn rest =>
              rw [hf] at hlen
              cases rest with
              | nil => rfl
              | cons _ _ =>
                  simp only [List.length_cons] at hlen
                  omega
        · dsimp only at hid
          rw [hid] at hturn
          exact mem_of_hasTurn hturn
        · obtain ⟨v, -, hv⟩ := exists_of_mem_mapM he hs
          exact threadEntry_sound hv
      · cases h
    · cases h
  · cases h

end Accepted

section Clones

variable {m m' : LlmMessage}

/-- Nothing, or what `[...toolCalls]` has a list of. -/
def spreadable (toolCalls : Option Value) : Bool :=
  toolCalls.all fun v => !v.truthy || v.spread.isSome

theorem cloneMessage_eq_none : cloneMessage m = none ↔
    m.isTool = false ∧ spreadable m.toolCalls = false := by
  rw [cloneMessage]
  cases ht : m.isTool with
  | true => simp
  | false =>
      cases hcalls : m.toolCalls with
      | none => simp [spreadable]
      | some v => cases hv : v.truthy <;> simp [spreadable, hv]

theorem cloneMessage_assistant (h : cloneMessage m = some m') : m'.isAssistant = m.isAssistant := by
  rw [cloneMessage] at h
  split at h
  · next ht =>
    cases h
    rw [LlmMessage.isTool, isText_iff] at ht
    rw [LlmMessage.isAssistant, LlmMessage.isAssistant, ht]
  · split at h
    · cases h
      rfl
    · split at h
      · obtain ⟨items, -, rfl⟩ := Option.map_eq_some_iff.mp h
        rfl
      · cases h
        rfl

theorem cloneMessage_tool (h : cloneMessage m = some m') :
    m'.isTool = m.isTool ∧ (m.isTool = true → m'.toolCallId = m.toolCallId) := by
  rw [cloneMessage] at h
  split at h
  · next ht =>
    cases h
    exact ⟨ht.symm, fun _ => rfl⟩
  · next ht =>
    split at h
    · cases h
      exact ⟨rfl, fun h => absurd h ht⟩
    · split at h
      · obtain ⟨items, -, rfl⟩ := Option.map_eq_some_iff.mp h
        exact ⟨rfl, fun h => absurd h ht⟩
      · cases h
        exact ⟨rfl, fun h => absurd h ht⟩

theorem cloneMessage_calls {items : List Value} (ha : m.isAssistant = true)
    (h : m.toolCalls = some (.arr items)) (he : cloneMessage m = some m') :
    m'.toolCalls = some (.arr items) := by
  rw [cloneMessage, if_neg (by simp [isTool_eq_false ha]), h] at he
  cases he
  rfl

theorem named_of_clone (hn : Named m) (h : cloneMessage m = some m') : Named m' := by
  intro ha items hcalls
  rw [cloneMessage_assistant h] at ha
  rw [cloneMessage, if_neg (by simp [isTool_eq_false ha])] at h
  split at h
  · cases h
    cases hcalls
  · next v hv =>
    split at h
    · obtain ⟨spread, hspread, rfl⟩ := Option.map_eq_some_iff.mp h
      cases hcalls
      cases v with
      | arr _ =>
          cases hspread
          exact hn ha items hv
      | str s =>
          -- the characters of a text are texts
          cases hspread
          rw [List.any_map, List.any_eq_false]
          exact fun c _ => Bool.false_ne_true
      | _ => cases hspread
    · cases h
      cases hcalls

end Clones

section Entries

variable {E : TokenEstimator} {names : List (String × TurnInfo)} {t : ConversationThread}
  {entries : List SerializedThreadEntry}

/-- What a saved entry is after the loop over the entries. -/
structure Rebuilt (names : List (String × TurnInfo)) (saved : SerializedThreadEntry) (e : ThreadEntry) :
    Prop where
  turnId : renamed names saved.turnId = some e.turnId
  kind : e.kind = saved.kind
  message : cloneMessage saved.message = some e.message
  elided : e.elided = saved.elided
  iteration : e.iteration = saved.iteration
  toolSummary : e.toolSummary = saved.toolSummary
  originalTokens : e.originalTokens = saved.originalTokens

theorem restoreEntry_of_clone {saved : SerializedThreadEntry} {turnId : String} {m : LlmMessage}
    (hr : renamed names saved.turnId = some turnId) (hv : saved.message.valid = true)
    (hm : cloneMessage saved.message = some m) :
    ∃ e, Rebuilt names saved e ∧
      ConversationThread.restoreEntry E names t saved = some (t.push e) := by
  obtain ⟨n, hn⟩ := estimateMessage_of_valid E hv
  refine ⟨{ id := "entry-" ++ (t.entryCounter + 1).repr, turnId, kind := saved.kind, message := m,
            tokensEst := n, elided := saved.elided, iteration := saved.iteration,
            toolSummary := saved.toolSummary, originalTokens := saved.originalTokens },
    { turnId := hr, kind := rfl, message := hm, elided := rfl, iteration := rfl, toolSummary := rfl,
      originalTokens := rfl }, ?_⟩
  rw [ConversationThread.restoreEntry, hr]
  dsimp only
  rw [ConversationThread.nextEntry, hm, hn]
  rfl

theorem restoreEntry_of_none {saved : SerializedThreadEntry} {turnId : String}
    (hr : renamed names saved.turnId = some turnId) (hm : cloneMessage saved.message = none) :
    ConversationThread.restoreEntry E names t saved = none := by
  rw [ConversationThread.restoreEntry, hr]
  dsimp only
  rw [ConversationThread.nextEntry, hm]
  rfl

theorem restoreEntries_of_clones
    (h : ∀ saved ∈ entries, (∃ turnId, renamed names saved.turnId = some turnId) ∧
      saved.message.valid = true ∧ ∃ m, cloneMessage saved.message = some m) :
    ∃ made c, List.Forall₂ (Rebuilt names) entries made ∧
      ConversationThread.restoreEntries E names t entries =
        ({ t with entries := t.entries ++ made, entryCounter := c }, true) := by
  induction entries generalizing t with
  | nil => exact ⟨[], t.entryCounter, .nil, by rw [List.append_nil]; rfl⟩
  | cons saved entries ih =>
      obtain ⟨⟨turnId, hr⟩, hv, m, hm⟩ := h saved List.mem_cons_self
      obtain ⟨e, hb, he⟩ := restoreEntry_of_clone (E := E) (t := t) hr hv hm
      obtain ⟨made, c, hall, heq⟩ := ih (t := t.push e)
        (fun s hs => h s (List.mem_cons_of_mem saved hs))
      refine ⟨e :: made, c, .cons hb hall, ?_⟩
      rw [ConversationThread.restoreEntries, he]
      dsimp only
      rw [heq, ConversationThread.push, List.append_assoc]
      rfl

theorem restoreEntries_of_none
    (h : ∀ saved ∈ entries, ∃ turnId, renamed names saved.turnId = some turnId)
    (hn : ∃ saved ∈ entries, cloneMessage saved.message = none) :
    (ConversationThread.restoreEntries E names t entries).2 = false := by
  induction entries generalizing t with
  | nil =>
      obtain ⟨_, hs, -⟩ := hn
      exact absurd hs List.not_mem_nil
  | cons saved entries ih =>
      rw [ConversationThread.restoreEntries]
      split
      · next he =>
        refine ih (fun s hs => h s (List.mem_cons_of_mem saved hs)) ?_
        obtain ⟨s, hs, hnone⟩ := hn
        rcases List.mem_cons.mp hs with rfl | hs
        · obtain ⟨turnId, hr⟩ := h s List.mem_cons_self
          rw [restoreEntry_of_none hr hnone] at he
          cases he
        · exact ⟨s, hs, hnone⟩
      · rfl

end Entries

end Kross.Context.Saved

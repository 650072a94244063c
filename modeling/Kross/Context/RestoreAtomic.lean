import Kross.Context.SavedRestore

namespace Kross.Context.Saved

open Parsed PartialMap

section Statement

/-- The ids with a result in a saved turn. -/
def savedResultIds (entries : List SerializedThreadEntry) (turnId : String) : List String :=
  (entries.filter (fun saved => saved.turnId = turnId && saved.message.isTool)).filterMap fun saved =>
    match saved.message.toolCallId with
    | some (.str id) => some id
    | _ => none

/-- A message of the open turn that is not kept open loses the calls without a result. -/
def restoredMessage (state : ConversationThreadState) (preserveOpenTurn : Bool)
    (saved : SerializedThreadEntry) : Option LlmMessage :=
  (cloneMessage saved.message).bind fun m =>
    if preserveOpenTurn = false ∧ state.openTurnId = some saved.turnId ∧ m.isAssistant = true ∧
        truthy m.toolCalls = true then
      matchedMessage (savedResultIds state.entries saved.turnId) m
    else some m

structure RestoredEntry (state : ConversationThreadState) (preserveOpenTurn : Bool)
    (name : String → String) (saved : SerializedThreadEntry) (e : ThreadEntry) : Prop where
  turnId : e.turnId = name saved.turnId
  kind : e.kind = saved.kind
  message : restoredMessage state preserveOpenTurn saved = some e.message
  elided : e.elided = saved.elided
  iteration : e.iteration = saved.iteration
  toolSummary : e.toolSummary = saved.toolSummary
  originalTokens : e.originalTokens = saved.originalTokens

/-- The notice about a turn that was open. -/
def restoreNotices (state : ConversationThreadState) (preserveOpenTurn : Bool) :
    List (ThreadEntryKind × LlmMessage) :=
  if preserveOpenTurn = false ∧ state.openTurnId.isSome = true then
    [(.notice, noticeMessage ConversationThread.interruptedNotice)]
  else []

/-- The thread holds the saved state, its turns under new names. -/
structure Restored (state : ConversationThreadState) (preserveOpenTurn : Bool) (name : String → String)
    (t : ConversationThread) : Prop where
  apart : ∀ a ∈ state.turns.map TurnInfo.id, ∀ b ∈ state.turns.map TurnInfo.id, name a = name b → a = b
  status : ∀ a ∈ state.turns.map TurnInfo.id,
    (t.turns.find? (fun turn => turn.id = name a)).map TurnInfo.status =
      (turnNamed state.turns a).map (restoredStatus preserveOpenTurn)
  entries : ∃ made notices, t.entries = made ++ notices ∧
    List.Forall₂ (RestoredEntry state preserveOpenTurn name) state.entries made ∧
    notices.map (fun e => (e.kind, e.message)) = restoreNotices state preserveOpenTurn
  openTurn : t.openTurnId = if preserveOpenTurn then state.openTurnId.map name else none
  iteration : t.currentIteration = ConversationThread.floored state.currentIteration

/-- A value is refused and the thread left as it is, or it is restored and no operation of any
later run throws a TypeError. -/
def AtomicRestore (estimator : TokenEstimator) (t : ConversationThread) (value : Value)
    (preserveOpenTurn : Bool) : Prop :=
  t.restoreState estimator value preserveOpenTurn = (t, .returned false) ∨
    ∃ state restored name, conversationThreadState value = some state ∧
      t.restoreState estimator value preserveOpenTurn = (restored, .returned true) ∧
      Restored state preserveOpenTurn name restored ∧
      ∀ steps, Run.Along next (fun t step => step.run t ≠ .error .typeError) restored steps

/-- The tool calls of a message can be copied, and those of the open turn have ids to read. -/
structure Restorable (state : ConversationThreadState) : Prop where
  spread : ∀ saved ∈ state.entries, saved.message.isTool = false →
    spreadable saved.message.toolCalls = true
  named : ∀ saved ∈ state.entries, state.openTurnId = some saved.turnId → Named saved.message

end Statement

section Rebuild

variable {E : TokenEstimator} {t : ConversationThread} {state : ConversationThreadState}
  {k : Bool} {made : List ThreadEntry}

/-- The thread that the entries are put into. -/
def emptied (t : ConversationThread) (state : ConversationThreadState) (k : Bool) : ConversationThread :=
  { t.clear with
    turns := (renamedTurns k t.turnCounter state.turns).map Prod.snd
    turnCounter := t.turnCounter + state.turns.length }

theorem renamed_of_accepted (ha : Accepted state) {saved : SerializedThreadEntry}
    (hs : saved ∈ state.entries) :
    renamed (renamedTurns k t.turnCounter state.turns) saved.turnId =
      some (namesOf k t.turnCounter state.turns saved.turnId) := by
  obtain ⟨-, -, -, -, hr, -⟩ := exists_namesOf k t.turnCounter (ha.entries saved hs).1
  exact hr

/-- The names of the restored open turns. -/
theorem restoredOpenTurnIds (ha : Accepted state) :
    (state.turns.filter (fun turn => turn.status = .open)).filterMap
      (fun turn => renamed (renamedTurns k t.turnCounter state.turns) turn.id) =
      state.openTurnId.toList.map (namesOf k t.turnCounter state.turns) := by
  rw [← ha.opened, List.map_map, ← List.filterMap_eq_map]
  refine List.filterMap_congr fun turn hturn => ?_
  obtain ⟨-, -, -, -, hr, -⟩ := exists_namesOf k t.turnCounter
    (List.mem_map_of_mem (List.mem_of_mem_filter hturn))
  exact hr

theorem restoreState_of_accepted {value : Value} (h : conversationThreadState value = some state) :
    t.restoreState E value k =
      match ConversationThread.restoreEntries E (renamedTurns k t.turnCounter state.turns)
        (emptied t state k) state.entries with
      | (restored, true) => ConversationThread.finishRestore E restored state k
          (state.openTurnId.toList.map (namesOf k t.turnCounter state.turns))
      | (restored, false) => (restored, .threw) := by
  rw [ConversationThread.restoreState, h, ← restoredOpenTurnIds (accepted h)]
  rfl

theorem clones_of_restorable (hr : Restorable state) {saved : SerializedThreadEntry}
    (hs : saved ∈ state.entries) : ∃ m, cloneMessage saved.message = some m := by
  cases hm : cloneMessage saved.message with
  | some m => exact ⟨m, rfl⟩
  | none =>
      obtain ⟨ht, hsp⟩ := cloneMessage_eq_none.mp hm
      rw [hr.spread saved hs ht] at hsp
      cases hsp

/-- The state that the loop over the entries leaves. -/
theorem exists_rebuilt (ha : Accepted state)
    (hc : ∀ saved ∈ state.entries, ∃ m, cloneMessage saved.message = some m) :
    ∃ made c, List.Forall₂ (Rebuilt (renamedTurns k t.turnCounter state.turns)) state.entries made ∧
      ConversationThread.restoreEntries E (renamedTurns k t.turnCounter state.turns)
        (emptied t state k) state.entries =
        ({ emptied t state k with entries := made, entryCounter := c }, true) :=
  restoreEntries_of_clones fun saved hs =>
    ⟨⟨_, renamed_of_accepted ha hs⟩, (ha.entries saved hs).2, hc saved hs⟩

theorem turnId_of_rebuilt (ha : Accepted state) {saved : SerializedThreadEntry} {e : ThreadEntry}
    (hs : saved ∈ state.entries) (hb : Rebuilt (renamedTurns k t.turnCounter state.turns) saved e) :
    e.turnId = namesOf k t.turnCounter state.turns saved.turnId := by
  have hr := renamed_of_accepted (t := t) (k := k) ha hs
  rw [hb.turnId] at hr
  exact Option.some.inj hr

/-- An entry is in the restored open turn when it was saved in the open turn. -/
theorem turnId_eq_iff (ha : Accepted state) {saved : SerializedThreadEntry} {e : ThreadEntry}
    {turnId : String} (hs : saved ∈ state.entries)
    (hb : Rebuilt (renamedTurns k t.turnCounter state.turns) saved e)
    (ht : turnId ∈ state.turns.map TurnInfo.id) :
    e.turnId = namesOf k t.turnCounter state.turns turnId ↔ saved.turnId = turnId := by
  rw [turnId_of_rebuilt ha hs hb]
  refine ⟨fun h => namesOf_apart k _ (ha.entries saved hs).1 ht h, fun h => by rw [h]⟩

variable (hall : List.Forall₂ (Rebuilt (renamedTurns k t.turnCounter state.turns)) state.entries made)
include hall

theorem exists_saved {e : ThreadEntry} (he : e ∈ made) :
    ∃ saved ∈ state.entries, Rebuilt (renamedTurns k t.turnCounter state.turns) saved e := by
  obtain ⟨n, rfl⟩ := List.mem_iff_get.mp he
  have hlt : n.val < state.entries.length := Nat.lt_of_lt_of_eq n.isLt hall.length_eq.symm
  exact ⟨state.entries.get ⟨n, hlt⟩, List.get_mem _ _, hall.get hlt n.isLt⟩

theorem exists_made {saved : SerializedThreadEntry} (hs : saved ∈ state.entries) :
    ∃ e ∈ made, Rebuilt (renamedTurns k t.turnCounter state.turns) saved e := by
  obtain ⟨n, rfl⟩ := List.mem_iff_get.mp hs
  have hlt : n.val < made.length := Nat.lt_of_lt_of_eq n.isLt hall.length_eq
  exact ⟨made.get ⟨n, hlt⟩, List.get_mem _ _, hall.get n.isLt hlt⟩

theorem cloned_of_rebuilt (ha : Accepted state) : ∀ e ∈ made, Cloned e.message := by
  intro e he
  obtain ⟨saved, hs, hb⟩ := exists_saved hall he
  exact cloneMessage_cloned (ha.entries saved hs).2 hb.message

theorem named_of_rebuilt (ha : Accepted state) (hr : Restorable state) {turnId : String}
    (hopen : state.openTurnId = some turnId) :
    ∀ e ∈ made, e.turnId = namesOf k t.turnCounter state.turns turnId → Named e.message := by
  intro e he hturn
  obtain ⟨saved, hs, hb⟩ := exists_saved hall he
  have hid := (turnId_eq_iff ha hs hb (ha.openTurn turnId hopen)).mp hturn
  exact named_of_clone (hr.named saved hs (by rw [hopen, hid])) hb.message

theorem healthy_of_rebuilt (ha : Accepted state) {restored : ConversationThread}
    (he : restored.entries = made) (hc : restored.turnCounter = t.turnCounter + state.turns.length)
    (ho : ∀ e ∈ made, restored.openTurnId = some e.turnId → Named e.message) : Healthy restored := by
  refine { cloned := ?_, opened := ?_, old := ?_ }
  · rw [he]
    exact cloned_of_rebuilt hall ha
  · rw [he]
    exact ho
  · rw [he, hc]
    intro e hm
    obtain ⟨saved, hs, hb⟩ := exists_saved hall hm
    rw [turnId_of_rebuilt ha hs hb]
    exact .inr (namesOf_bound k t.turnCounter (ha.entries saved hs).1)

theorem resultIds_of_rebuilt (ha : Accepted state) {turnId : String}
    (ht : turnId ∈ state.turns.map TurnInfo.id) :
    resultIds made (namesOf k t.turnCounter state.turns turnId) = savedResultIds state.entries turnId := by
  rw [resultIds, savedResultIds]
  have hsub : ∀ entries made, (∀ saved ∈ entries, saved ∈ state.entries) →
      List.Forall₂ (Rebuilt (renamedTurns k t.turnCounter state.turns)) entries made →
      (made.filter (fun e => e.turnId = namesOf k t.turnCounter state.turns turnId && e.message.isTool)).filterMap
        (fun e => match e.message.toolCallId with | some (.str id) => some id | _ => none) =
      (entries.filter (fun saved => saved.turnId = turnId && saved.message.isTool)).filterMap
        (fun saved => match saved.message.toolCallId with | some (.str id) => some id | _ => none) := by
    intro entries made hm hall'
    induction hall' with
    | nil => rfl
    | @cons saved e entries made hb _ ih =>
        have hs := hm saved List.mem_cons_self
        have hturn := turnId_eq_iff ha hs hb ht
        obtain ⟨htool, hcall⟩ := cloneMessage_tool hb.message
        have ih := ih (fun s hs => hm s (List.mem_cons_of_mem saved hs))
        rw [List.filter_cons, List.filter_cons]
        simp only [htool, decide_eq_decide.mpr hturn]
        split
        · next hc =>
          rw [Bool.and_eq_true] at hc
          rw [List.filterMap_cons, List.filterMap_cons, hcall hc.2, ih]
        · exact ih
  exact hsub state.entries made (fun _ h => h) hall

end Rebuild

section Finish

variable {E : TokenEstimator} {t : ConversationThread} {state : ConversationThreadState}
  {k : Bool} {made : List ThreadEntry} {saved : SerializedThreadEntry} {e e' : ThreadEntry}

theorem restoredEntry_of_rebuilt (ha : Accepted state) (hs : saved ∈ state.entries)
    (hk : k = true ∨ state.openTurnId = none)
    (hb : Rebuilt (renamedTurns k t.turnCounter state.turns) saved e) :
    RestoredEntry state k (namesOf k t.turnCounter state.turns) saved e :=
  { turnId := turnId_of_rebuilt ha hs hb
    kind := hb.kind
    message := by
      rw [restoredMessage, hb.message]
      refine if_neg fun h => ?_
      rcases hk with hk | hk
      · rw [hk] at h
        exact absurd h.1 Bool.true_eq_false_eq_False
      · rw [hk] at h
        cases h.2.1
    elided := hb.elided
    iteration := hb.iteration
    toolSummary := hb.toolSummary
    originalTokens := hb.originalTokens }

/-- Only the message and its estimate change. -/
theorem setMessage_fields {message : LlmMessage}
    (h : ConversationThread.setMessage E e message = some e') :
    ∃ n, e' = { e with message, tokensEst := n } := by
  obtain ⟨n, -, rfl⟩ := Option.map_eq_some_iff.mp h
  exact ⟨n, rfl⟩

theorem restoredEntry_of_removed (ha : Accepted state) {turnId : String} (hs : saved ∈ state.entries)
    (hopen : state.openTurnId = some turnId)
    (hb : Rebuilt (renamedTurns false t.turnCounter state.turns) saved e)
    (hr : ConversationThread.removeUnmatched E (savedResultIds state.entries turnId)
      (namesOf false t.turnCounter state.turns turnId) e = some e') :
    RestoredEntry state false (namesOf false t.turnCounter state.turns) saved e' := by
  have hturn := turnId_eq_iff ha hs hb (ha.openTurn turnId hopen)
  rw [ConversationThread.removeUnmatched] at hr
  have hmessage : restoredMessage state false saved =
      if e.turnId = namesOf false t.turnCounter state.turns turnId && e.message.isAssistant &&
        truthy e.message.toolCalls then matchedMessage (savedResultIds state.entries turnId) e.message
      else some e.message := by
    rw [restoredMessage, hb.message, Option.bind_some, hopen]
    by_cases hid : saved.turnId = turnId
    · simp [hturn.mpr hid, hid]
    · have hne : ¬e.turnId = namesOf false t.turnCounter state.turns turnId := fun h => hid (hturn.mp h)
      simp [hne, Ne.symm hid]
  have hfields : ∃ message n, e' = { e with message, tokensEst := n } ∧
      restoredMessage state false saved = some message := by
    split at hr
    · next hc =>
      rw [if_pos hc] at hmessage
      obtain ⟨message, hm, hset⟩ := Option.bind_eq_some_iff.mp hr
      obtain ⟨n, he⟩ := setMessage_fields hset
      exact ⟨message, n, he, hmessage.trans hm⟩
    · next hc =>
      rw [if_neg hc] at hmessage
      cases hr
      exact ⟨e.message, e.tokensEst, rfl, hmessage⟩
  obtain ⟨message, n, rfl, hm⟩ := hfields
  have hid : e.turnId = namesOf false t.turnCounter state.turns saved.turnId := turnId_of_rebuilt ha hs hb
  exact
    { turnId := hid, kind := hb.kind, message := hm, elided := hb.elided,
      iteration := hb.iteration, toolSummary := hb.toolSummary, originalTokens := hb.originalTokens }

theorem restored_status {restored : ConversationThread} {more : List TurnInfo}
    (h : restored.turns = (renamedTurns k t.turnCounter state.turns).map Prod.snd ++ more) :
    ∀ a ∈ state.turns.map TurnInfo.id,
      (restored.turns.find? (fun turn => turn.id = namesOf k t.turnCounter state.turns a)).map
        TurnInfo.status = (turnNamed state.turns a).map (restoredStatus k) := by
  intro a hm
  have hs := turnStatus_namesOf k t.turnCounter hm
  obtain ⟨p, hp, -, hpn, -, hps⟩ := exists_namesOf k t.turnCounter hm
  rw [h, List.find?_append, ← hs]
  cases hf : ((renamedTurns k t.turnCounter state.turns).map Prod.snd).find?
      (fun turn => turn.id = namesOf k t.turnCounter state.turns a) with
  | some turn => rfl
  | none =>
      rw [hf, ← hps] at hs
      cases hs

theorem restoredEntries_of_rebuilt (ha : Accepted state) (hk : k = true ∨ state.openTurnId = none)
    (hall : List.Forall₂ (Rebuilt (renamedTurns k t.turnCounter state.turns)) state.entries made) :
    List.Forall₂ (RestoredEntry state k (namesOf k t.turnCounter state.turns)) state.entries made := by
  have hself : List.Forall₂ Eq made made := List.forall₂_refl made
  refine forall₂_trans hall hself fun saved hs e e' hb he => ?_
  rw [← he]
  exact restoredEntry_of_rebuilt ha hs hk hb

/-- A saved thread of which the open turn, if there is one, is kept open. -/
theorem restore_kept (estimator : TokenEstimator) (ha : Accepted state) (hr : Restorable state)
    (hk : k = true ∨ state.openTurnId = none) {c : Nat}
    (hall : List.Forall₂ (Rebuilt (renamedTurns k t.turnCounter state.turns)) state.entries made) :
    ∃ restored, ConversationThread.finishRestore estimator
        { emptied t state k with entries := made, entryCounter := c } state k
        (state.openTurnId.toList.map (namesOf k t.turnCounter state.turns)) = (restored, .returned true) ∧
      Restored state k (namesOf k t.turnCounter state.turns) restored ∧ Healthy restored := by
  have hnotices : restoreNotices state k = [] := by
    refine if_neg fun h => ?_
    rcases hk with hk | hk
    · rw [hk] at h
      cases h.1
    · rw [hk] at h
      cases h.2
  refine ⟨{ emptied t state k with
      entries := made
      entryCounter := c
      openTurnId := state.openTurnId.map (namesOf k t.turnCounter state.turns)
      currentIteration := ConversationThread.floored state.currentIteration }, ?_, ?_, ?_⟩
  · cases hopen : state.openTurnId with
    | none => cases k <;> rfl
    | some turnId =>
        rw [hopen, or_iff_left (Option.some_ne_none turnId)] at hk
        subst hk
        rfl
  · exact
      { apart := fun a ha b hb => namesOf_apart k t.turnCounter ha hb
        status := restored_status (List.append_nil _).symm
        entries := ⟨made, [], (List.append_nil made).symm, restoredEntries_of_rebuilt ha hk hall,
          hnotices.symm⟩
        openTurn := by
          rcases hk with rfl | hk
          · rfl
          · rw [hk]
            cases k <;> rfl
        iteration := rfl }
  · refine healthy_of_rebuilt hall ha rfl rfl fun e he hopen => ?_
    obtain ⟨turnId, hturn, hid⟩ := Option.map_eq_some_iff.mp hopen
    exact named_of_rebuilt hall ha hr hturn e he hid.symm

theorem addNotice?_of_closed {content : String} {t' : ConversationThread} (ho : t.openTurnId = none)
    (h : t.addNotice? E content = some t') :
    ∃ e more, t'.entries = t.entries ++ [e] ∧ e.kind = .notice ∧ e.message = noticeMessage content ∧
      t'.turns = t.turns ++ more ∧ t'.openTurnId = none := by
  rw [ConversationThread.addNotice?, ho] at h
  obtain ⟨e, he, rfl⟩ := Option.map_eq_some_iff.mp h
  rw [ConversationThread.nextEntry] at he
  obtain ⟨m, hm, he⟩ := Option.bind_eq_some_iff.mp he
  obtain ⟨n, -, he⟩ := Option.bind_eq_some_iff.mp he
  cases he
  cases hm
  dsimp only [ConversationThread.ensureTurn, ConversationThread.push]
  split
  · exact ⟨_, [], rfl, rfl, rfl, (List.append_nil _).symm, rfl⟩
  · exact ⟨_, _, rfl, rfl, rfl, rfl, rfl⟩

theorem finishRestore_closed (turnId : String) : ConversationThread.finishRestore E t state false
    [turnId] =
      match ConversationThread.removeUnmatchedLoop E (resultIds t.entries turnId) turnId
        t.entries with
      | (entries, true) =>
          match { t with entries }.addNotice? E ConversationThread.interruptedNotice with
          | some t => (t.setCurrentIteration (ConversationThread.floored state.currentIteration),
              .returned true)
          | none => ({ t with entries }, .threw)
      | (entries, false) => ({ t with entries }, .threw) := by
  rcases hloop : ConversationThread.removeUnmatchedLoop E (resultIds t.entries turnId) turnId
    t.entries with ⟨entries, done⟩
  cases done
  · simp [ConversationThread.finishRestore, ConversationThread.removeUnmatchedOf,
      ConversationThread.removeUnmatchedToolCalls, hloop]
  · simp only [ConversationThread.finishRestore, ConversationThread.removeUnmatchedOf,
      ConversationThread.removeUnmatchedToolCalls, hloop]
    rfl

/-- A saved thread of which the open turn is closed. -/
theorem restore_closed (estimator : TokenEstimator) (ha : Accepted state) (hr : Restorable state)
    {turnId : String} (hopen : state.openTurnId = some turnId) {c : Nat}
    (hall : List.Forall₂ (Rebuilt (renamedTurns false t.turnCounter state.turns)) state.entries made) :
    ∃ restored, ConversationThread.finishRestore estimator
        { emptied t state false with entries := made, entryCounter := c } state false
        (state.openTurnId.toList.map (namesOf false t.turnCounter state.turns)) =
        (restored, .returned true) ∧
      Restored state false (namesOf false t.turnCounter state.turns) restored ∧ Healthy restored := by
  have hm := ha.openTurn turnId hopen
  obtain ⟨entries, hloop, hmap, hkeeps⟩ := removeUnmatchedLoop_of_named (E := estimator)
    (resultIds made (namesOf false t.turnCounter state.turns turnId)) _
    (cloned_of_rebuilt hall ha) (named_of_rebuilt hall ha hr hopen)
  have hmade : Healthy { emptied t state false with entries := made, entryCounter := c } :=
    healthy_of_rebuilt hall ha rfl rfl (fun _ _ h => nomatch h)
  have hcut : Healthy { emptied t state false with entries, entryCounter := c } :=
    hmade.withEntries hkeeps
  obtain ⟨noticed, hnotice, hhealthy⟩ := addNotice?_of_healthy (E := estimator) hcut
    ConversationThread.interruptedNotice
  obtain ⟨e, more, hentries, hkind, hmessage, hturns, hclosed⟩ := addNotice?_of_closed rfl hnotice
  refine ⟨noticed.setCurrentIteration (ConversationThread.floored state.currentIteration), ?_, ?_, ?_⟩
  · rw [hopen, Option.toList_some, List.map_cons, List.map_nil, finishRestore_closed]
    dsimp only
    rw [hloop]
    dsimp only at hnotice ⊢
    rw [hnotice]
  · rw [resultIds_of_rebuilt hall ha hm] at hmap
    exact
      { apart := fun a ha b hb => namesOf_apart false t.turnCounter ha hb
        status := restored_status hturns
        entries := by
          refine ⟨entries, [e], hentries, ?_, ?_⟩
          · exact forall₂_trans hall (forall₂_of_mapM hmap) fun saved hs e e' hb he =>
              restoredEntry_of_removed ha hs hopen hb he
          · rw [restoreNotices, if_pos ⟨rfl, by rw [hopen]; rfl⟩, List.map_singleton, hkind, hmessage]
        openTurn := hclosed
        iteration := rfl }
  · exact hhealthy.frame rfl (fun _ h => h) le_rfl

end Finish

section Atomic

variable {E : TokenEstimator} {t : ConversationThread} {value : Value} {k : Bool}
  {state : ConversationThreadState}

theorem atomic_of_restorable (h : conversationThreadState value = some state) (hr : Restorable state) :
    AtomicRestore E t value k := by
  have ha := accepted h
  obtain ⟨made, c, hall, he⟩ := exists_rebuilt (E := E) (t := t) (k := k) ha
    (fun saved hs => clones_of_restorable hr hs)
  have hfinish : ∃ restored, t.restoreState E value k = (restored, .returned true) ∧
      Restored state k (namesOf k t.turnCounter state.turns) restored ∧ Healthy restored := by
    rw [restoreState_of_accepted h, he]
    by_cases hk : k = true ∨ state.openTurnId = none
    · exact restore_kept E ha hr hk hall
    · obtain ⟨hk, hopen⟩ := not_or.mp hk
      obtain ⟨turnId, hopen⟩ := Option.ne_none_iff_exists'.mp hopen
      obtain rfl := Bool.eq_false_iff.mpr hk
      exact restore_closed E ha hr hopen hall
  obtain ⟨restored, heq, hrestored, hhealthy⟩ := hfinish
  exact .inr ⟨state, restored, _, h, heq, hrestored, hhealthy.along⟩

theorem interruptTurn_of_fails {turnId reason : String} (hopen : t.openTurnId = some turnId)
    (hf : (ConversationThread.removeUnmatchedLoop E (resultIds t.entries turnId) turnId
      t.entries).2 = false) : t.interruptTurn E reason = .error .typeError := by
  rw [ConversationThread.interruptTurn, hopen]
  dsimp only
  rw [ConversationThread.removeUnmatchedToolCalls]
  split
  · next hloop =>
    rw [hloop] at hf
    cases hf
  · rfl

/-- A call without an id in the open turn fails when the turn is closed, now or later. -/
theorem named_of_atomic (h : conversationThreadState value = some state)
    (hc : ∀ saved ∈ state.entries, ∃ m, cloneMessage saved.message = some m)
    (hatomic : AtomicRestore E t value k) {saved : SerializedThreadEntry}
    (hs : saved ∈ state.entries) (hopen : state.openTurnId = some saved.turnId) : Named saved.message := by
  intro hassistant items hcalls
  by_contra hnull
  rw [Bool.not_eq_false] at hnull
  have ha := accepted h
  obtain ⟨made, c, hall, he⟩ := exists_rebuilt (E := E) (t := t) (k := k) ha hc
  obtain ⟨e, hm, hb⟩ := exists_made hall hs
  have hfails (ids : List String) : (ConversationThread.removeUnmatchedLoop E ids
      (namesOf k t.turnCounter state.turns saved.turnId) made).2 = false :=
    removeUnmatchedLoop_of_null hm (turnId_of_rebuilt ha hs hb)
      ((cloneMessage_assistant hb.message).trans hassistant)
      (cloneMessage_calls hassistant hcalls hb.message) hnull
  have heq := restoreState_of_accepted (E := E) (t := t) (k := k) h
  rw [he, hopen] at heq
  cases k with
  | false =>
      have hthrew : (t.restoreState E value false).2 = .threw := by
        rw [heq]
        change (ConversationThread.finishRestore E _ state false [_]).2 = _
        have hfails := hfails (resultIds made (namesOf false t.turnCounter state.turns saved.turnId))
        rw [finishRestore_closed]
        cases hloop : ConversationThread.removeUnmatchedLoop E
            (resultIds made (namesOf false t.turnCounter state.turns saved.turnId))
            (namesOf false t.turnCounter state.turns saved.turnId) made with
        | mk entries done =>
            rw [hloop] at hfails
            cases hfails
            rfl
      rcases hatomic with hrefused | ⟨_, _, _, _, hreturned, -⟩
      · rw [hrefused] at hthrew
        cases hthrew
      · rw [hreturned] at hthrew
        cases hthrew
  | true =>
      rcases hatomic with hrefused | ⟨_, restored, _, _, hreturned, -, hruns⟩
      · have hreturned : Outcome.returned false = .returned true := by
          rw [hrefused] at heq
          exact congrArg Prod.snd heq
        cases hreturned
      · rw [hreturned] at heq
        cases heq
        refine (Run.along_cons.mp (hruns [⟨E, .interruptTurn ""⟩])).1 ?_
        rw [Step.run]
        refine interruptTurn_of_fails rfl ?_
        exact hfails _

theorem restorable_of_atomic (h : conversationThreadState value = some state)
    (hatomic : AtomicRestore E t value k) : Restorable state := by
  have hc : ∀ saved ∈ state.entries, ∃ m, cloneMessage saved.message = some m := by
    by_contra hnone
    simp only [not_forall, ← Option.isSome_iff_exists, Bool.not_eq_true,
      Option.isSome_eq_false_iff, Option.isNone_iff_eq_none] at hnone
    obtain ⟨saved, hs, hnone⟩ := hnone
    have ha := accepted h
    have hfails := restoreEntries_of_none (E := E) (t := emptied t state k)
      (fun saved hs => ⟨_, renamed_of_accepted (t := t) (k := k) ha hs⟩) ⟨saved, hs, hnone⟩
    have hthrew : (t.restoreState E value k).2 = .threw := by
      rw [restoreState_of_accepted h]
      split
      · next he =>
        rw [he] at hfails
        cases hfails
      · rfl
    rcases hatomic with hrefused | ⟨_, _, _, _, hreturned, -⟩
    · rw [hrefused] at hthrew
      cases hthrew
    · rw [hreturned] at hthrew
      cases hthrew
  exact
    { spread := fun saved hs ht => by
        obtain ⟨m, hm⟩ := hc saved hs
        by_contra hsp
        rw [cloneMessage_eq_none.mpr ⟨ht, Bool.not_eq_true _ ▸ hsp⟩] at hm
        cases hm
      named := fun saved hs hopen => named_of_atomic h hc hatomic hs hopen }

/-- The restoring of a value is atomic exactly when the value is refused or the tool calls of
its messages can be copied and searched. -/
theorem restoreState_atomic_iff (estimator : TokenEstimator) (t : ConversationThread) (value : Value)
    (preserveOpenTurn : Bool) :
    AtomicRestore estimator t value preserveOpenTurn ↔
      ∀ state, conversationThreadState value = some state → Restorable state := by
  constructor
  · exact fun hatomic state h => restorable_of_atomic h hatomic
  · intro h
    cases hv : conversationThreadState value with
    | none => exact .inl (by rw [ConversationThread.restoreState, hv])
    | some state => exact atomic_of_restorable hv (h state hv)

def committedWith (toolCalls : Value) : Value :=
  .obj
    [("version", .num (.finite 1)),
     ("entries", .arr
       [.obj
         [("turnId", .str "turn-1"), ("kind", .str "assistant"),
          ("message", .obj
            [("role", .str "assistant"), ("content", .str "ok"), ("toolCalls", toolCalls)])]]),
     ("turns", .arr [.obj [("id", .str "turn-1"), ("status", .str "committed")]]),
     ("currentIteration", .num (.finite 0))]

/-- A saved message with an object for its tool calls passes the validator, and the thread is
empty when the copy of the calls fails. -/
theorem object_of_calls_throws :
    ¬∀ estimator t value preserveOpenTurn, AtomicRestore estimator t value preserveOpenTurn := by
  intro h
  have hstate : conversationThreadState (committedWith (.obj [])) = some
      { entries := [
          { turnId := "turn-1", kind := .assistant
            message :=
              { role := some (.str "assistant"), content := some (.str "ok"),
                toolCalls := some (.obj []) }
            elided := none, iteration := none, toolSummary := none, originalTokens := none }]
        turns := [{ id := "turn-1", status := .committed }]
        openTurnId := none
        currentIteration := .finite 0 } := rfl
  have hr := restorable_of_atomic hstate
    (h { stringify := fun _ => "", calibrated := id } (.new 0 0) _ false)
  exact Bool.false_ne_true (hr.spread _ List.mem_cons_self rfl)

end Atomic

end Kross.Context.Saved

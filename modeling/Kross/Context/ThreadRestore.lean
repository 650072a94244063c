import Kross.Context.ThreadValid

namespace Kross.Context

open ConversationThread Run

section Renaming

variable (k : Bool) {turns : List TurnInfo} (c : Nat)

/-- The status of a restored turn. -/
def restoredStatus (k : Bool) (turn : TurnInfo) : TurnStatus :=
  if turn.status = .open ∧ k = false then .aborted else turn.status

def rename (names : List (String × TurnInfo)) (turnId : String) : String :=
  (renamed names turnId).getD turnId

theorem renamedTurns_status (turns : List TurnInfo) :
    (renamedTurns k c turns).map (fun p => (p.1, p.2.status)) =
      turns.map (fun turn => (turn.id, restoredStatus k turn)) := by
  induction turns generalizing c with
  | nil => rfl
  | cons turn turns ih =>
      rw [renamedTurns, List.map_cons, List.map_cons, ih]
      rfl

theorem renamedTurns_old (turns : List TurnInfo) :
    (renamedTurns k c turns).map Prod.fst = turns.map TurnInfo.id := by
  have h := congrArg (List.map Prod.fst) (renamedTurns_status k c turns)
  rw [List.map_map, List.map_map] at h
  exact h

theorem renamedTurns_new {p : String × TurnInfo} (h : p ∈ renamedTurns k c turns) :
    ∃ n, c < n ∧ n ≤ c + turns.length ∧ p.2.id = turnName n := by
  induction turns generalizing c with
  | nil => exact absurd h List.not_mem_nil
  | cons turn turns ih =>
      rw [renamedTurns] at h
      rcases List.mem_cons.mp h with rfl | h
      · exact ⟨c + 1, by omega, by simp, rfl⟩
      · obtain ⟨n, h1, h2, h3⟩ := ih (c + 1) h
        exact ⟨n, by omega, by rw [List.length_cons]; omega, h3⟩

theorem renamedTurns_nodup (turns : List TurnInfo) :
    ((renamedTurns k c turns).map (fun p => p.2.id)).Nodup := by
  induction turns generalizing c with
  | nil => exact List.nodup_nil
  | cons turn turns ih =>
      rw [renamedTurns, List.map_cons, List.nodup_cons]
      refine ⟨fun hm => ?_, ih (c + 1)⟩
      obtain ⟨p, hp, he⟩ := List.mem_map.mp hm
      obtain ⟨n, hn, -, hid⟩ := renamedTurns_new _ _ hp
      have := turnName_injective (hid.symm.trans he)
      omega

theorem find_of_nodup {α : Type} {l : List (String × α)} {p : String × α} (h : p ∈ l)
    (hn : (l.map Prod.fst).Nodup) : l.find? (fun q => q.1 = p.1) = some p := by
  induction l with
  | nil => exact absurd h List.not_mem_nil
  | cons q l ih =>
      obtain ⟨hq, hn⟩ := List.nodup_cons.mp hn
      rcases List.mem_cons.mp h with rfl | h
      · simp
      · have hne : q.1 ≠ p.1 := fun he => hq (he ▸ List.mem_map_of_mem h)
        simpa [List.find?_cons, hne] using ih h hn

theorem renamed_of_mem {names : List (String × TurnInfo)} {p : String × TurnInfo} (h : p ∈ names)
    (hn : (names.map Prod.fst).Nodup) : renamed names p.1 = some p.2.id := by
  have hr : (names.reverse.map Prod.fst).Nodup := by
    rw [List.map_reverse, List.nodup_reverse]
    exact hn
  rw [renamed, find_of_nodup (List.mem_reverse.mpr h) hr]
  rfl

/-- The names that `restoreState` gives to the turns of a saved thread. -/
def namesOf (k : Bool) (c : Nat) (turns : List TurnInfo) : String → String :=
  rename (renamedTurns k c turns)

theorem exists_renamed (hn : (turns.map TurnInfo.id).Nodup) {turnId : String}
    (h : turnId ∈ turns.map TurnInfo.id) :
    ∃ p ∈ renamedTurns k c turns, p.1 = turnId ∧
      p.2.id = namesOf k c turns turnId ∧
      renamed (renamedTurns k c turns) turnId =
        some (namesOf k c turns turnId) := by
  rw [← renamedTurns_old k c turns] at h hn
  obtain ⟨p, hp, rfl⟩ := List.mem_map.mp h
  have hr := renamed_of_mem hp hn
  refine ⟨p, hp, rfl, ?_, ?_⟩
  · rw [namesOf, rename, hr]
    rfl
  · rw [namesOf, rename, hr]
    rfl

theorem namesOf_injective (hn : (turns.map TurnInfo.id).Nodup) {a b : String}
    (ha : a ∈ turns.map TurnInfo.id) (hb : b ∈ turns.map TurnInfo.id)
    (h : namesOf k c turns a = namesOf k c turns b) : a = b := by
  obtain ⟨p, hp, rfl, hpn, -⟩ := exists_renamed k c hn ha
  obtain ⟨q, hq, rfl, hqn, -⟩ := exists_renamed k c hn hb
  have he : p.2.id = q.2.id := by rw [hpn, hqn, h]
  rw [List.inj_on_of_nodup_map (renamedTurns_nodup k c turns) hp hq he]

theorem namesOf_new (hn : (turns.map TurnInfo.id).Nodup) {a : String} (ha : a ∈ turns.map TurnInfo.id) :
    ∃ n, namesOf k c turns a = turnName n := by
  obtain ⟨p, hp, -, hpn, -⟩ := exists_renamed k c hn ha
  obtain ⟨n, -, -, hid⟩ := renamedTurns_new _ _ hp
  exact ⟨n, hpn.symm.trans hid⟩

/-- The restored turns, in the order of the saved ones. -/
theorem renamedTurns_snd (hn : (turns.map TurnInfo.id).Nodup) :
    (renamedTurns k c turns).map Prod.snd =
      turns.map (fun turn => { id := namesOf k c turns turn.id
                               status := restoredStatus k turn }) := by
  have hs : (renamedTurns k c turns).map Prod.snd =
      (renamedTurns k c turns).map (fun p =>
        { id := namesOf k c turns p.1, status := p.2.status }) := by
    apply List.map_congr_left
    intro p hp
    have hm : p.1 ∈ turns.map TurnInfo.id := by
      rw [← renamedTurns_old k c turns]
      exact List.mem_map_of_mem hp
    have ho : ((renamedTurns k c turns).map Prod.fst).Nodup := by
      rw [renamedTurns_old]
      exact hn
    have hr := renamed_of_mem hp ho
    rw [namesOf, rename, hr]
    rfl
  have hst := congrArg (List.map (fun q : String × TurnStatus =>
    ({ id := namesOf k c turns q.1, status := q.2 } : TurnInfo)))
    (renamedTurns_status k c turns)
  rw [List.map_map, List.map_map] at hst
  rw [hs]
  exact hst

end Renaming

section RestoreState

variable {estimateMessage : LlmMessage → Nat} {state : ConversationThreadState} {k : Bool}

def SerializedThreadEntry.renamed (f : String → String) (saved : SerializedThreadEntry) :
    SerializedThreadEntry := { saved with turnId := f saved.turnId }

structure ValidState (state : ConversationThreadState) : Prop where
  opened : state.turns.filter (fun turn => turn.status = .open) =
    state.openTurnId.toList.map (fun turnId => { id := turnId, status := .open })
  openTurn : ∀ turnId, state.openTurnId = some turnId → turnId ∈ state.turns.map TurnInfo.id
  entries : ∀ saved ∈ state.entries, saved.turnId ∈ state.turns.map TurnInfo.id ∧
    isEntryRoleCompatible saved.kind saved.message = true
  iteration : state.currentIteration.isFinite = true

theorem validState_of_check (h : isConversationThreadState state = true) : ValidState state := by
  simp only [isConversationThreadState, Bool.and_eq_true, decide_eq_true_eq, List.all_eq_true] at h
  obtain ⟨⟨⟨⟨⟨hversion, hfinite⟩, hopen⟩, hlength⟩, hhead⟩, hentries⟩ := h
  refine ⟨?_, ?_, ?_, hfinite⟩
  · cases hf : state.turns.filter (fun turn => turn.status = .open) with
    | nil =>
        rw [hf] at hhead
        rw [hhead]
        rfl
    | cons turn rest =>
        have hstatus : turn.status = .open := by
          have hm : turn ∈ state.turns.filter (fun turn => turn.status = .open) := by simp [hf]
          simpa using (List.mem_filter.mp hm).2
        rw [hf] at hhead hlength
        have hrest : rest = [] := by
          cases rest with
          | nil => rfl
          | cons => simp at hlength
        rw [hhead, hrest]
        obtain ⟨id, status⟩ := turn
        cases hstatus
        rfl
  · intro turnId ho
    rw [ho] at hopen
    exact hasTurn_iff.mp hopen
  · intro saved hs
    exact ⟨hasTurn_iff.mp (hentries saved hs).1, (hentries saved hs).2⟩

theorem foldl_restoreEntry (estimateMessage : LlmMessage → Nat) {names : List (String × TurnInfo)}
    {f : String → String}
    {l : List SerializedThreadEntry} (h : ∀ saved ∈ l, renamed names saved.turnId = some (f saved.turnId))
    (u : ConversationThread) :
    (l.foldl (restoreEntry estimateMessage names) u).entries.map ThreadEntry.saved =
        u.entries.map ThreadEntry.saved ++ l.map (SerializedThreadEntry.renamed f) ∧
      (l.foldl (restoreEntry estimateMessage names) u).turns = u.turns ∧
      (l.foldl (restoreEntry estimateMessage names) u).openTurnId = u.openTurnId ∧
      (l.foldl (restoreEntry estimateMessage names) u).currentIteration = u.currentIteration := by
  induction l generalizing u with
  | nil => simp
  | cons saved l ih =>
      have hs := h saved List.mem_cons_self
      obtain ⟨h1, h2, h3, h4⟩ := ih (fun s hm => h s (List.mem_cons_of_mem _ hm))
        (restoreEntry estimateMessage names u saved)
      have hstep : restoreEntry estimateMessage names u saved =
          u.push { u.nextEntry estimateMessage (f saved.turnId) saved.kind saved.message
              saved.iteration saved.toolSummary with
            elided := saved.elided, originalTokens := saved.originalTokens } := by
        rw [restoreEntry, hs]
      rw [List.foldl_cons, h1, h2, h3, h4, hstep]
      refine ⟨?_, rfl, rfl, rfl⟩
      simp [push, nextEntry, ThreadEntry.saved, SerializedThreadEntry.renamed]

theorem foldl_restoreEntry_turnCounter (estimateMessage : LlmMessage → Nat) (names : List (String × TurnInfo))
    (l : List SerializedThreadEntry) (u : ConversationThread) :
    (l.foldl (restoreEntry estimateMessage names) u).turnCounter = u.turnCounter := by
  induction l generalizing u with
  | nil => rfl
  | cons saved l ih =>
      rw [List.foldl_cons, ih, restoreEntry]
      split <;> rfl

/-- A restored thread before its open turn is treated. -/
structure Refilled (f : String → String) (k : Bool) (state : ConversationThreadState)
    (v : ConversationThread) : Prop where
  entries : v.entries.map ThreadEntry.saved = state.entries.map (SerializedThreadEntry.renamed f)
  turns : v.turns = state.turns.map (fun turn => { id := f turn.id, status := restoredStatus k turn })
  openTurnId : v.openTurnId = none
  iteration : v.currentIteration.isFinite = true

/-- What becomes of the open turn: it stays open, or its calls without results
are dropped and a notice is added. -/
def settleOpenTurn (estimateMessage : LlmMessage → Nat) (k : Bool) (v : ConversationThread) :
    Option String → ConversationThread
  | none => v
  | some turnId =>
      if k then { v with openTurnId := some turnId }
      else ({ v with entries := removeUnmatchedToolCalls estimateMessage v.entries turnId }).addNotice
        estimateMessage interruptedNotice

theorem restoreState_eq (estimateMessage : LlmMessage → Nat) (k : Bool)
    (hs : isConversationThreadState state = true)
    (hn : (state.turns.map TurnInfo.id).Nodup) (u : ConversationThread) :
    ∃ v, Refilled (namesOf k u.turnCounter state.turns) k state v ∧
      v.turnCounter = u.turnCounter + state.turns.length ∧
      u.restoreState estimateMessage state k =
        (true, (settleOpenTurn estimateMessage k v
          (state.openTurnId.map (namesOf k u.turnCounter state.turns))).setCurrentIteration
            state.currentIteration.floor) := by
  have hv := validState_of_check hs
  set f := namesOf k u.turnCounter state.turns with hf
  set names := renamedTurns k u.turnCounter state.turns with hnames
  have hname {turnId : String} (hm : turnId ∈ state.turns.map TurnInfo.id) :
      renamed names turnId = some (f turnId) := by
    obtain ⟨-, -, -, -, h⟩ := exists_renamed k u.turnCounter hn hm
    exact h
  obtain ⟨h1, h2, h3, h4⟩ := foldl_restoreEntry estimateMessage
    (fun saved hm => hname (hv.entries saved hm).1)
    { u.clear with turns := names.map Prod.snd, turnCounter := u.turnCounter + state.turns.length }
  refine ⟨_, ⟨?_, ?_, h3, ?_⟩, foldl_restoreEntry_turnCounter _ _ _ _, ?_⟩
  · exact h1
  · rw [h2]
    exact renamedTurns_snd k u.turnCounter hn
  · rw [h4]
    rfl
  · rw [restoreState, if_pos hs]
    dsimp only
    rw [hv.opened]
    cases ho : state.openTurnId with
    | none => cases k <;> rfl
    | some turnId =>
        have hr := hname (hv.openTurn turnId ho)
        simp only [Option.toList_some, List.map_cons, List.map_nil, List.filterMap_cons,
          List.filterMap_nil, ← hnames, hr]
        cases k <;> rfl

theorem ValidState.open_iff (h : ValidState state) (hn : (state.turns.map TurnInfo.id).Nodup)
    {turn : TurnInfo} (hm : turn ∈ state.turns) :
    turn.status = .open ↔ state.openTurnId = some turn.id := by
  have hf (other : TurnInfo) :
      other ∈ state.turns ∧ other.status = .open ↔
        ∃ turnId, state.openTurnId = some turnId ∧ { id := turnId, status := .open } = other := by
    have hmem := congrArg (other ∈ ·) h.opened
    simpa [List.mem_filter] using hmem
  constructor
  · intro hs
    obtain ⟨turnId, ho, rfl⟩ := (hf turn).mp ⟨hm, hs⟩
    exact ho
  · intro ho
    obtain ⟨hmem, -⟩ := (hf { id := turn.id, status := .open }).mpr ⟨turn.id, ho, rfl⟩
    rw [← List.inj_on_of_nodup_map hn hmem hm rfl]

theorem Refilled.entryIn {f : String → String} {v : ConversationThread} (h : Refilled f k state v)
    (hv : ValidState state) : ∀ e ∈ v.entries, EntryIn v.turns e := by
  intro e he
  have hm : e.saved ∈ state.entries.map (SerializedThreadEntry.renamed f) := by
    rw [← h.entries]
    exact List.mem_map_of_mem he
  obtain ⟨saved, hs, hsaved⟩ := List.mem_map.mp hm
  obtain ⟨hturn, hrole⟩ := hv.entries saved hs
  obtain ⟨turn, ht, hid⟩ := List.mem_map.mp hturn
  have hkind : e.kind = saved.kind := (congrArg SerializedThreadEntry.kind hsaved).symm
  have hmessage : e.message = saved.message := (congrArg SerializedThreadEntry.message hsaved).symm
  have hturnId : e.turnId = f saved.turnId := (congrArg SerializedThreadEntry.turnId hsaved).symm
  refine ⟨?_, by rwa [hkind, hmessage]⟩
  rw [hturnId, h.turns, List.map_map]
  exact List.mem_map.mpr ⟨turn, ht, congrArg f hid⟩

theorem Refilled.settled_valid (estimateMessage : LlmMessage → Nat) {f : String → String}
    {v : ConversationThread} (h : Refilled f k state v) (hv : ValidState state)
    (hn : (state.turns.map TurnInfo.id).Nodup)
    (hf : ∀ a ∈ state.turns.map TurnInfo.id, ∀ b ∈ state.turns.map TurnInfo.id, f a = f b → a = b)
    (hnew : ∀ a ∈ state.turns.map TurnInfo.id, ∃ n, f a = turnName n) :
    Valid (settleOpenTurn estimateMessage k v (state.openTurnId.map f)) := by
  have hids : v.turns.map TurnInfo.id = (state.turns.map TurnInfo.id).map f := by
    rw [h.turns, List.map_map, List.map_map]
    rfl
  have hnames : (v.turns.map TurnInfo.id).Nodup := by
    rw [hids]
    exact hn.map_on hf
  have hclosed (hc : ∀ turn ∈ state.turns, restoredStatus k turn ≠ .open) : Valid v := by
    refine ⟨hnames, h.entryIn hv, ?_, ?_, h.iteration⟩
    · intro turn hm
      rw [h.turns] at hm
      obtain ⟨old, ho, rfl⟩ := List.mem_map.mp hm
      rw [h.openTurnId]
      simpa using hc old ho
    · intro turnId ho
      rw [h.openTurnId] at ho
      cases ho
  cases ho : state.openTurnId with
  | none =>
      refine hclosed (fun turn hm hs => ?_)
      have hopen := hv.open_iff hn hm
      rw [ho] at hopen
      rw [restoredStatus] at hs
      split_ifs at hs
      exact absurd (hopen.mp hs) (by simp)
  | some turnId =>
      have hmem := hv.openTurn turnId ho
      rw [Option.map_some, settleOpenTurn]
      split_ifs with hk
      · refine ⟨hnames, h.entryIn hv, ?_, ?_, h.iteration⟩
        · intro turn hm
          rw [h.turns] at hm
          obtain ⟨old, hold, rfl⟩ := List.mem_map.mp hm
          have hopen := hv.open_iff hn hold
          rw [ho] at hopen
          have hst : restoredStatus k old = old.status := if_neg (by simp [hk])
          simp only [hst, hopen, Option.some.injEq]
          exact ⟨congrArg f, hf _ hmem _ (List.mem_map_of_mem hold)⟩
        · rintro id ⟨⟩
          exact ⟨by rw [hids]; exact List.mem_map_of_mem hmem, hnew turnId hmem⟩
      · have hv' : Valid v := by
          refine hclosed (fun turn hm hs => ?_)
          rw [restoredStatus] at hs
          split_ifs at hs with hc
          exact hc ⟨hs, by simpa using hk⟩
        exact (hv'.withEntries (removeUnmatched_entryIn _ hv'.entries)).addNotice _

theorem Valid.setCurrentIteration {t : ConversationThread} (h : Valid t) {n : Number}
    (hn : n.isFinite = true) : Valid (t.setCurrentIteration n) :=
  ⟨h.names, h.entries, h.opened, h.openTurn, hn⟩

theorem Valid.restoreState {u : ConversationThread} (h : Valid u)
    (hn : (state.turns.map TurnInfo.id).Nodup) :
    Valid (u.restoreState estimateMessage state k).2 := by
  cases hs : isConversationThreadState state with
  | false =>
      rw [ConversationThread.restoreState, if_neg (by simp [hs])]
      exact h
  | true =>
      have hv := validState_of_check hs
      obtain ⟨v, hr, -, he⟩ := restoreState_eq estimateMessage k hs hn u
      rw [he]
      refine (hr.settled_valid estimateMessage hv hn (fun a ha b hb => namesOf_injective _ _ hn ha hb)
        (fun a ha => namesOf_new _ _ hn ha)).setCurrentIteration ?_
      have hfinite := hv.iteration
      cases hc : state.currentIteration with
      | finite value => rfl
      | notFinite =>
          rw [hc] at hfinite
          exact hfinite

end RestoreState

section Run

/-- The operations of a thread; `elsewhere` is what other threads take of the
counters. -/
inductive ThreadOp
  | beginTurn (userInput : Text)
  | commitTurn
  | abortTurn (reason : Text)
  | interruptTurn (reason : Text)
  | appendAssistant (content : Text) (toolCalls : List LlmToolCall)
  | appendToolResult (result : ToolResult)
  | addCompaction (summary : Text) (turnId : Option String)
  | addNotice (content : Text)
  | removeTurnEntries (turnIds : List String)
  | replacePrefixWithCompaction (entryCount : Int) (summary : Text)
  | elideToolResult (entryId : String) (elidedContent : Text)
  | truncateEntry (entryId : String) (truncatedContent : Text)
  | reestimateTokens
  | setCurrentIteration (iteration : Number)
  | clear
  | restoreState (state : ConversationThreadState) (preserveOpenTurn : Bool)
  | restoreFromConversation (messages : List (Role × Text))
  | elsewhere (entries turns : Nat)

/-- An operation under the estimates of that moment. -/
structure ThreadStep where
  estimateMessage : LlmMessage → Nat
  op : ThreadOp

/-- An operation that throws changes nothing. -/
def orElse (t : ConversationThread) : Except ThreadError ConversationThread → ConversationThread
  | .ok u => u
  | .error _ => t

def ThreadStep.next (t : ConversationThread) (step : ThreadStep) : ConversationThread :=
  match step.op with
  | .beginTurn userInput => orElse t (t.beginTurn step.estimateMessage userInput)
  | .commitTurn => orElse t t.commitTurn
  | .abortTurn reason => orElse t (t.abortTurn step.estimateMessage reason)
  | .interruptTurn reason => orElse t (t.interruptTurn step.estimateMessage reason)
  | .appendAssistant content toolCalls =>
      orElse t (t.appendAssistant step.estimateMessage content toolCalls)
  | .appendToolResult result => orElse t (t.appendToolResult step.estimateMessage result)
  | .addCompaction summary turnId => t.addCompaction step.estimateMessage summary turnId
  | .addNotice content => t.addNotice step.estimateMessage content
  | .removeTurnEntries turnIds => t.removeTurnEntries turnIds
  | .replacePrefixWithCompaction entryCount summary =>
      t.replacePrefixWithCompaction step.estimateMessage entryCount summary
  | .elideToolResult entryId content => t.elideToolResult step.estimateMessage entryId content
  | .truncateEntry entryId content => t.truncateEntry step.estimateMessage entryId content
  | .reestimateTokens => t.reestimateTokens step.estimateMessage
  | .setCurrentIteration iteration => t.setCurrentIteration iteration
  | .clear => t.clear
  | .restoreState state preserveOpenTurn =>
      (t.restoreState step.estimateMessage state preserveOpenTurn).2
  | .restoreFromConversation messages =>
      (t.restoreFromConversation step.estimateMessage messages).thread
  | .elsewhere entries turns =>
      { t with entryCounter := t.entryCounter + entries, turnCounter := t.turnCounter + turns }

/-- A compaction leaves an entry of the open turn, the iteration is a finite
number, and the turns of a state that is restored have different ids. -/
def ThreadAllowed (t : ConversationThread) (step : ThreadStep) : Prop :=
  match step.op with
  | .replacePrefixWithCompaction entryCount _ => KeepsOpen t entryCount
  | .setCurrentIteration iteration => iteration.isFinite = true
  | .restoreState state _ => (state.turns.map TurnInfo.id).Nodup
  | _ => True

variable {t : ConversationThread}

theorem Valid.orElse (h : Valid t) {r : Except ThreadError ConversationThread}
    (hr : ∀ u, r = .ok u → Valid u) : Valid (orElse t r) := by
  cases r with
  | ok u => exact hr u rfl
  | error => exact h

theorem Valid.next (h : Valid t) {step : ThreadStep} (ha : ThreadAllowed t step) :
    Valid (step.next t) := by
  obtain ⟨estimateMessage, op⟩ := step
  cases op with
  | beginTurn => exact h.orElse (fun _ => h.beginTurn)
  | commitTurn => exact h.orElse (fun _ => h.commitTurn)
  | abortTurn => exact h.orElse (fun _ => h.abortTurn)
  | interruptTurn => exact h.orElse (fun _ => h.interruptTurn)
  | appendAssistant => exact h.orElse (fun _ => h.appendAssistant)
  | appendToolResult => exact h.orElse (fun _ => h.appendToolResult)
  | addCompaction => exact h.addCompaction _ _
  | addNotice => exact h.addNotice _
  | removeTurnEntries => exact h.removeTurnEntries _
  | replacePrefixWithCompaction => exact h.replacePrefix _ ha
  | elideToolResult => exact h.elideToolResult _ _
  | truncateEntry => exact h.truncateEntry _ _
  | reestimateTokens => exact h.reestimateTokens
  | setCurrentIteration => exact h.setCurrentIteration ha
  | clear => exact valid_new _ _
  | restoreState => exact h.restoreState ha
  | restoreFromConversation => exact (valid_new _ _).restoreMessages _ rfl
  | elsewhere => exact h.counters _ _

end Run

section Restorable

/-- The calls that an entry asks for. -/
def ThreadEntry.requested (e : ThreadEntry) : List LlmToolCall :=
  match e.message with
  | .chat .assistant _ calls => calls.getD []
  | _ => []

/-- Different turns keep different names. -/
def Injective (f : String → String) (t : ConversationThread) : Prop :=
  ∀ a ∈ t.turns, ∀ b ∈ t.turns, f a.id = f b.id → a.id = b.id

/-- `u` is `t` with its turns called by `f`. -/
structure SameUpTo (f : String → String) (t u : ConversationThread) : Prop where
  injective : Injective f t
  entries : u.entries.map ThreadEntry.saved =
    t.entries.map (fun e => e.saved.renamed f)
  turns : u.turns = t.turns.map (fun turn => { turn with id := f turn.id })
  openTurnId : u.openTurnId = t.openTurnId.map f

/-- `u` is `t` with its turns called by `f` and its open turn closed: every call
of that turn has a result there, and the other turns are as they were. -/
structure ClosedUpTo (f : String → String) (t u : ConversationThread) : Prop where
  injective : Injective f t
  closed : u.openTurnId = none ∧ ∀ turn ∈ u.turns, turn.status ≠ .open
  answered : ∀ turnId, t.openTurnId = some turnId → ∀ e ∈ u.getEntriesForTurn (f turnId),
    ∀ call ∈ e.requested, ∃ result ∈ u.getEntriesForTurn (f turnId),
      result.message.toolCallId? = some call.id
  others : ∀ turn ∈ t.turns, t.openTurnId ≠ some turn.id →
    u.getTurnStatus (f turn.id) = some turn.status ∧
      (u.getEntriesForTurn (f turn.id)).map ThreadEntry.saved =
        (t.getEntriesForTurn turn.id).map (fun e => e.saved.renamed f)

/-- Into any thread the exported state of `t` is restored, with its open turn or
without. -/
def Restorable (t : ConversationThread) : Prop :=
  ∀ (estimateMessage : LlmMessage → Nat) (u : ConversationThread),
    (∃ f v, u.restoreState estimateMessage t.exportState true = (true, v) ∧ SameUpTo f t v) ∧
    ∃ f v, u.restoreState estimateMessage t.exportState false = (true, v) ∧ ClosedUpTo f t v

variable {t u v : ConversationThread} {f : String → String} {estimateMessage : LlmMessage → Nat}

theorem filter_of_nodup {turns : List TurnInfo} {turn : TurnInfo} (h : turn ∈ turns)
    (hn : (turns.map TurnInfo.id).Nodup) : turns.filter (fun t => t.id = turn.id) = [turn] := by
  induction turns with
  | nil => exact absurd h List.not_mem_nil
  | cons t turns ih =>
      obtain ⟨ht, hn⟩ := List.nodup_cons.mp hn
      rcases List.mem_cons.mp h with rfl | h
      · have hrest : turns.filter (fun t => t.id = turn.id) = [] := by
          rw [List.filter_eq_nil_iff]
          intro t hm he
          exact ht (List.mem_map.mpr ⟨t, hm, by simpa using he⟩)
        simp [hrest]
      · have hne : t.id ≠ turn.id := fun he => ht (he ▸ List.mem_map_of_mem h)
        rw [List.filter_cons_of_neg (by simpa using hne), ih h hn]

theorem Valid.openTurns (h : Valid t) :
    t.turns.filter (fun turn => turn.status = .open) =
      t.openTurnId.toList.map (fun turnId => { id := turnId, status := .open }) := by
  cases ho : t.openTurnId with
  | none =>
      rw [Option.toList_none, List.map_nil, List.filter_eq_nil_iff]
      intro turn hm hs
      have hopen := (h.opened turn hm).mp (by simpa using hs)
      rw [ho] at hopen
      cases hopen
  | some turnId =>
      obtain ⟨turn, hm, rfl⟩ := List.mem_map.mp (h.openTurn turnId ho).1
      have hfilter : t.turns.filter (fun other => other.status = .open) =
          t.turns.filter (fun other => other.id = turn.id) := by
        apply List.filter_congr
        intro other hother
        have hopen := h.opened other hother
        rw [ho] at hopen
        simp [hopen, eq_comm]
      have hstatus := (h.opened turn hm).mpr ho
      rw [hfilter, filter_of_nodup hm h.names, ← hstatus]
      rfl

theorem Valid.check (h : Valid t) : isConversationThreadState t.exportState = true := by
  have hopen := h.openTurns
  simp only [isConversationThreadState, exportState, Bool.and_eq_true, decide_eq_true_eq,
    List.all_eq_true, hopen]
  refine ⟨⟨⟨⟨⟨trivial, h.iteration⟩, ?_⟩, ?_⟩, ?_⟩, ?_⟩
  · cases ho : t.openTurnId with
    | none => rfl
    | some turnId => exact hasTurn_iff.mpr (h.openTurn turnId ho).1
  · cases t.openTurnId <;> simp
  · cases t.openTurnId <;> rfl
  · intro saved hs
    obtain ⟨e, he, rfl⟩ := List.mem_map.mp hs
    exact ⟨hasTurn_iff.mpr (h.entries e he).1, (h.entries e he).2⟩

theorem injective_namesOf (h : Valid t) (k : Bool) (c : Nat) : Injective (namesOf k c t.turns) t :=
  fun _ ha _ hb he => namesOf_injective k c h.names (List.mem_map_of_mem ha) (List.mem_map_of_mem hb) he

theorem Refilled.saved {k : Bool} (h : Refilled f k t.exportState v) :
    v.entries.map ThreadEntry.saved = t.entries.map (fun e => e.saved.renamed f) := by
  rw [h.entries, exportState, List.map_map]
  rfl

theorem sameUpTo_settle (hi : Injective f t) (h : Refilled f true t.exportState v) (n : Number) :
    SameUpTo f t ((settleOpenTurn estimateMessage true v (t.openTurnId.map f)).setCurrentIteration n) := by
  have hturns : v.turns = t.turns.map (fun turn => { turn with id := f turn.id }) := by
    rw [h.turns]
    apply List.map_congr_left
    intro turn _
    rw [restoredStatus, if_neg (by simp)]
  cases ho : t.openTurnId with
  | none => exact ⟨hi, h.saved, hturns, by rw [ho]; exact h.openTurnId⟩
  | some turnId => exact ⟨hi, h.saved, hturns, by rw [ho]; rfl⟩

/-- What `removeUnmatchedToolCalls` makes of one entry. -/
def trimmed (estimateMessage : LlmMessage → Nat) (ids : List String) (turnId : String)
    (e : ThreadEntry) : ThreadEntry :=
  match e.message with
  | .chat .assistant content (some calls) =>
      if e.turnId = turnId then
        { e with
          message := .chat .assistant content (matchedCalls ids calls)
          tokensEst := estimateMessage (.chat .assistant content (matchedCalls ids calls)) }
      else e
  | _ => e

theorem removeUnmatched_eq (entries : List ThreadEntry) (turnId : String) :
    removeUnmatchedToolCalls estimateMessage entries turnId =
      entries.map (trimmed estimateMessage (resultIds entries turnId) turnId) := rfl

theorem trimmed_turnId (ids : List String) (turnId : String) (e : ThreadEntry) :
    (trimmed estimateMessage ids turnId e).turnId = e.turnId := by
  rw [trimmed]
  split
  · split_ifs <;> rfl
  · rfl

theorem trimmed_other {ids : List String} {turnId : String} {e : ThreadEntry} (h : e.turnId ≠ turnId) :
    trimmed estimateMessage ids turnId e = e := by
  rw [trimmed]
  split
  · rw [if_neg h]
  · rfl

theorem trimmed_result {ids : List String} {turnId callId : String} {e : ThreadEntry}
    (h : e.message.toolCallId? = some callId) : trimmed estimateMessage ids turnId e = e := by
  rw [trimmed]
  split
  · rename_i hm
    rw [hm] at h
    cases h
  · rfl

theorem trimmed_requested {ids : List String} {e : ThreadEntry} {call : LlmToolCall}
    (h : call ∈ (trimmed estimateMessage ids e.turnId e).requested) : call.id ∈ ids := by
  rw [trimmed] at h
  split at h
  · rw [if_pos rfl, ThreadEntry.requested] at h
    dsimp only at h
    rw [matchedCalls] at h
    split_ifs at h
    · cases h
    · simpa using (List.mem_filter.mp h).2
  · rename_i hm
    rw [ThreadEntry.requested] at h
    split at h
    · rename_i content calls hcalls
      cases calls with
      | none => cases h
      | some calls => exact absurd hcalls (hm content calls)
    · cases h

theorem mem_resultIds {entries : List ThreadEntry} {turnId callId : String}
    (h : callId ∈ resultIds entries turnId) :
    ∃ e ∈ entries, e.turnId = turnId ∧ e.message.toolCallId? = some callId := by
  obtain ⟨e, he, hid⟩ := List.mem_filterMap.mp h
  obtain ⟨he, hturn⟩ := List.mem_filter.mp he
  exact ⟨e, he, by simpa using hturn, hid⟩

/-- In the turn itself every call that is left has its result. -/
theorem removeUnmatched_answered {entries : List ThreadEntry} {turnId : String} {e : ThreadEntry}
    (he : e ∈ removeUnmatchedToolCalls estimateMessage entries turnId) (ht : e.turnId = turnId)
    {call : LlmToolCall} (hc : call ∈ e.requested) :
    ∃ r ∈ removeUnmatchedToolCalls estimateMessage entries turnId, r.turnId = turnId ∧
      r.message.toolCallId? = some call.id := by
  rw [removeUnmatched_eq] at he ⊢
  obtain ⟨d, -, rfl⟩ := List.mem_map.mp he
  rw [trimmed_turnId] at ht
  subst ht
  obtain ⟨r, hr, hturn, hid⟩ := mem_resultIds (trimmed_requested hc)
  refine ⟨r, List.mem_map.mpr ⟨r, hr, trimmed_result hid⟩, hturn, hid⟩

/-- The entries of another turn are not touched. -/
theorem removeUnmatched_filter {entries : List ThreadEntry} {turnId other : String}
    (h : other ≠ turnId) :
    (removeUnmatchedToolCalls estimateMessage entries turnId).filter (fun e => e.turnId = other) =
      entries.filter (fun e => e.turnId = other) := by
  rw [removeUnmatched_eq, List.filter_map]
  have hsame : entries.filter ((fun e => decide (e.turnId = other)) ∘
      trimmed estimateMessage (resultIds entries turnId) turnId) =
        entries.filter (fun e => e.turnId = other) := by
    apply List.filter_congr
    intro e _
    simp [trimmed_turnId]
  rw [hsame]
  conv_rhs => rw [← List.map_id (entries.filter (fun e => e.turnId = other))]
  apply List.map_congr_left
  intro e he
  have ht : e.turnId = other := by simpa using (List.mem_filter.mp he).2
  exact trimmed_other (by rw [ht]; exact h)

theorem filter_saved {l : List ThreadEntry} {m : List SerializedThreadEntry}
    (h : l.map ThreadEntry.saved = m) (turnId : String) :
    (l.filter (fun e => e.turnId = turnId)).map ThreadEntry.saved =
      m.filter (fun s => s.turnId = turnId) := by
  rw [← h, List.filter_map]
  rfl

/-- The entries of a turn of `t` under its new name. -/
theorem Refilled.turnEntries {k : Bool} (h : Refilled f k t.exportState v) (hi : Injective f t)
    (hv : Valid t) {turn : TurnInfo} (hm : turn ∈ t.turns) :
    (v.entries.filter (fun e => e.turnId = f turn.id)).map ThreadEntry.saved =
      (t.getEntriesForTurn turn.id).map (fun e => e.saved.renamed f) := by
  rw [filter_saved h.saved, List.filter_map, getEntriesForTurn]
  congr 1
  apply List.filter_congr
  intro e he
  obtain ⟨other, ho, hid⟩ := List.mem_map.mp (hv.entries e he).1
  have hiff : f e.turnId = f turn.id ↔ e.turnId = turn.id := by
    constructor
    · intro heq
      rw [← hid]
      exact hi other ho turn hm (by rw [hid]; exact heq)
    · exact congrArg f
  simp [SerializedThreadEntry.renamed, ThreadEntry.saved, hiff]

theorem noticeName_ne (m n : Nat) : turnName n ≠ "notice-" ++ turnName m := by
  intro h
  have hc := congrArg (fun s => s.toList.head?) h
  simp [turnName] at hc

theorem Refilled.turnStatus {k : Bool} (h : Refilled f k t.exportState v) (hi : Injective f t)
    (hv : Valid t) {turn : TurnInfo} (hm : turn ∈ t.turns) (more : List TurnInfo) :
    ((v.turns ++ more).find? (fun other => other.id = f turn.id)).map TurnInfo.status =
      some (restoredStatus k turn) := by
  have hmem : { id := f turn.id, status := restoredStatus k turn } ∈ v.turns := by
    rw [h.turns]
    exact List.mem_map_of_mem hm
  have hnodup : (v.turns.map TurnInfo.id).Nodup := by
    have hids : v.turns.map TurnInfo.id = (t.turns.map TurnInfo.id).map f := by
      rw [h.turns, List.map_map, List.map_map]
      rfl
    rw [hids]
    refine hv.names.map_on (fun a ha b hb he => ?_)
    obtain ⟨x, hx, rfl⟩ := List.mem_map.mp ha
    obtain ⟨y, hy, rfl⟩ := List.mem_map.mp hb
    exact hi x hx y hy he
  have hfind : v.turns.find? (fun other => other.id = f turn.id) =
      some { id := f turn.id, status := restoredStatus k turn } := by
    rw [← List.head?_filter]
    exact congrArg List.head? (filter_of_nodup hmem hnodup)
  rw [List.find?_append, hfind]
  rfl

theorem restoredStatus_closed {turn : TurnInfo} (hv : Valid t) (hm : turn ∈ t.turns)
    (h : t.openTurnId ≠ some turn.id) (k : Bool) : restoredStatus k turn = turn.status :=
  if_neg (fun hs => h ((hv.opened turn hm).mp hs.1))

/-- A notice between the turns gets a turn of its own. -/
theorem addNotice_between (estimateMessage : LlmMessage → Nat) (ho : t.openTurnId = none)
    (content : Text) :
    ∃ e more, (t.addNotice estimateMessage content).entries = t.entries ++ [e] ∧
      (∃ n, e.turnId = "notice-" ++ turnName n) ∧
      (t.addNotice estimateMessage content).turns = t.turns ++ more ∧
      (t.addNotice estimateMessage content).openTurnId = none := by
  rw [addNotice_closed ho, ensureTurn]
  split_ifs
  · exact ⟨_, [], rfl, ⟨_, rfl⟩, (List.append_nil _).symm, ho⟩
  · exact ⟨_, _, rfl, ⟨_, rfl⟩, rfl, ho⟩

theorem Valid.closed (h : Valid t) (ho : t.openTurnId = none) :
    t.openTurnId = none ∧ ∀ turn ∈ t.turns, turn.status ≠ .open := by
  refine ⟨ho, fun turn hm hs => ?_⟩
  have hopen := (h.opened turn hm).mp hs
  rw [ho] at hopen
  cases hopen

theorem filter_concat_other {l : List ThreadEntry} {e : ThreadEntry} {turnId : String}
    (h : e.turnId ≠ turnId) :
    (l ++ [e]).filter (fun d => d.turnId = turnId) = l.filter (fun d => d.turnId = turnId) := by
  simp [List.filter_append, h]

theorem closedUpTo_settle (hv : Valid t) (hi : Injective f t)
    (hnew : ∀ a ∈ t.turns.map TurnInfo.id, ∃ n, f a = turnName n)
    (h : Refilled f false t.exportState v)
    (hr : Valid (settleOpenTurn estimateMessage false v (t.openTurnId.map f))) :
    ClosedUpTo f t (settleOpenTurn estimateMessage false v (t.openTurnId.map f)) := by
  cases ho : t.openTurnId with
  | none =>
      rw [ho] at hr
      refine ⟨hi, hr.closed h.openTurnId, fun turnId hid => ?_, fun turn hm hne => ?_⟩
      · rw [ho] at hid
        cases hid
      · have hstatus := h.turnStatus hi hv hm []
        rw [List.append_nil, restoredStatus_closed hv hm hne] at hstatus
        exact ⟨hstatus, h.turnEntries hi hv hm⟩
  | some turnId =>
      rw [ho] at hr
      set w : ConversationThread :=
        { v with entries := removeUnmatchedToolCalls estimateMessage v.entries (f turnId) } with hw
      have hsettle : settleOpenTurn estimateMessage false v (some (f turnId)) =
          w.addNotice estimateMessage interruptedNotice := rfl
      rw [Option.map_some, hsettle] at hr ⊢
      obtain ⟨notice, more, hentries, ⟨m, hname⟩, hturns, hnone⟩ :=
        addNotice_between (t := w) estimateMessage h.openTurnId interruptedNotice
      have hother {id : String} (hid : id ∈ t.turns.map TurnInfo.id) : notice.turnId ≠ f id := by
        obtain ⟨n, hn⟩ := hnew id hid
        rw [hname, hn]
        exact (noticeName_ne m n).symm
      have hget {id : String} (hid : id ∈ t.turns.map TurnInfo.id) :
          (w.addNotice estimateMessage interruptedNotice).getEntriesForTurn (f id) =
            w.entries.filter (fun e => e.turnId = f id) := by
        rw [getEntriesForTurn, hentries, filter_concat_other (hother hid)]
      refine ⟨hi, hr.closed hnone, fun id hid => ?_, fun turn hm hne => ⟨?_, ?_⟩⟩
      · rw [ho] at hid
        cases hid
        rw [hget (hv.openTurn turnId ho).1]
        intro e he call hc
        obtain ⟨he, hturn⟩ := List.mem_filter.mp he
        obtain ⟨r, hm, hrt, hrid⟩ := removeUnmatched_answered he (by simpa using hturn) hc
        exact ⟨r, List.mem_filter.mpr ⟨hm, by simpa using hrt⟩, hrid⟩
      · rw [getTurnStatus, hturns, h.turnStatus hi hv hm more, restoredStatus_closed hv hm hne]
      · have hdiff : f turn.id ≠ f turnId := by
          obtain ⟨openTurn, hom, hoid⟩ := List.mem_map.mp (hv.openTurn turnId ho).1
          intro he
          rw [← hoid] at he
          have hids := hi turn hm openTurn hom he
          exact hne (by rw [ho, hids, hoid])
        rw [hget (List.mem_map_of_mem hm), hw, removeUnmatched_filter hdiff]
        exact h.turnEntries hi hv hm

theorem Valid.restorable (h : Valid t) : Restorable t := by
  intro estimateMessage u
  have hs := h.check
  constructor
  · obtain ⟨v, hr, -, he⟩ := restoreState_eq estimateMessage true hs h.names u
    exact ⟨_, _, he, sameUpTo_settle (injective_namesOf h true u.turnCounter) hr _⟩
  · obtain ⟨v, hr, -, he⟩ := restoreState_eq estimateMessage false hs h.names u
    have hi := injective_namesOf h false u.turnCounter
    have hnew (a : String) (ha : a ∈ t.turns.map TurnInfo.id) :
        ∃ n, namesOf false u.turnCounter t.turns a = turnName n := namesOf_new _ _ h.names ha
    have hsettled := hr.settled_valid estimateMessage (validState_of_check hs) h.names
      (fun a ha b hb => namesOf_injective _ _ h.names ha hb) hnew
    have hc := closedUpTo_settle h hi hnew hr hsettled
    exact ⟨_, _, he, hc.injective, hc.closed, hc.answered, hc.others⟩

/-- Every thread that is reached from an empty one can be restored. -/
theorem threads_restorable (entryCounter turnCounter : Nat) {steps : List ThreadStep}
    (h : Along ThreadStep.next ThreadAllowed (.new entryCounter turnCounter) steps) :
    Restorable (after ThreadStep.next (.new entryCounter turnCounter) steps) :=
  (h.keeps (fun _ _ ha hv => hv.next ha) (valid_new entryCounter turnCounter)).restorable

end Restorable

section Runs

def countCharacters : LlmMessage → Nat
  | .chat _ content _ => content.length
  | .tool _ _ content => content.length

def searchCall : LlmToolCall := ⟨"call-1", "Grep", none⟩

/-- A turn that is committed, and one with a call that has no result yet; the
first turn is compacted away. -/
def compactedRun : List ThreadStep :=
  [ThreadOp.beginTurn ['a'], .commitTurn, .beginTurn ['b'], .appendAssistant [] [searchCall],
    .replacePrefixWithCompaction 1 ['s']].map (ThreadStep.mk countCharacters)

theorem threads_restorable_compactedRun :
    Restorable (after ThreadStep.next (.new 0 0) compactedRun) := by
  refine threads_restorable 0 0 (along_cons.mpr ⟨trivial, along_cons.mpr ⟨trivial,
    along_cons.mpr ⟨trivial, along_cons.mpr ⟨trivial, along_cons.mpr ⟨?_, along_nil⟩⟩⟩⟩⟩)
  rintro turnId ⟨⟩ -
  exact ⟨_, List.mem_cons_self, rfl⟩

/-- The only entry of the open turn is compacted away. -/
def emptiedRun : List ThreadStep :=
  [ThreadOp.beginTurn ['a'], .replacePrefixWithCompaction 1 ['s']].map (ThreadStep.mk countCharacters)

theorem emptiedRun_not_restorable : ¬Restorable (after ThreadStep.next (.new 0 0) emptiedRun) := by
  intro h
  obtain ⟨⟨f, v, hr, -⟩, -⟩ := h countCharacters (.new 0 0)
  have hcheck : isConversationThreadState
      (after ThreadStep.next (.new 0 0) emptiedRun).exportState = false := by decide
  rw [ConversationThread.restoreState, if_neg (by rw [hcheck]; decide)] at hr
  cases hr

end Runs

end Kross.Context

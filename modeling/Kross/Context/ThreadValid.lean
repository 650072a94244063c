import Kross.Context.ConversationThread
import Kross.Run
import Mathlib.Data.List.Nodup

namespace Kross.Context

open ConversationThread Run

section Names

theorem turnName_injective : Function.Injective turnName := by
  intro m n h
  have hr : m.repr = n.repr := String.append_right_inj _ |>.mp h
  have hd : Nat.toDigits 10 m = Nat.toDigits 10 n := by
    have := congrArg String.toList hr
    simpa [Nat.repr] using this
  rw [← Nat.ofDigitChars_ten_toDigits (n := m), hd, Nat.ofDigitChars_ten_toDigits]

theorem hasTurn_iff {turns : List TurnInfo} {turnId : String} :
    hasTurn turns turnId = true ↔ turnId ∈ turns.map TurnInfo.id := by
  simp [hasTurn]

theorem setTurn_ids (turns : List TurnInfo) (turn : TurnInfo) :
    (setTurn turns turn).map TurnInfo.id =
      if hasTurn turns turn.id then turns.map TurnInfo.id else turns.map TurnInfo.id ++ [turn.id] := by
  rw [setTurn, hasTurn]
  split_ifs
  · rw [List.map_map]
    apply List.map_congr_left
    intro t _
    by_cases h : t.id = turn.id <;> simp [h]
  · simp

theorem mem_setTurn {turns : List TurnInfo} {turn t : TurnInfo} (h : t ∈ setTurn turns turn) :
    t = turn ∨ t ∈ turns ∧ t.id ≠ turn.id := by
  rw [setTurn] at h
  split_ifs at h with hany
  · obtain ⟨u, hu, rfl⟩ := List.mem_map.mp h
    by_cases he : u.id = turn.id
    · simp [he]
    · simp [he, hu]
  · rcases List.mem_append.mp h with hm | hm
    · refine Or.inr ⟨hm, fun he => hany ?_⟩
      simp only [List.any_eq_true, decide_eq_true_eq]
      exact ⟨t, hm, he⟩
    · exact Or.inl (List.mem_singleton.mp hm)

theorem setTurn_nodup {turns : List TurnInfo} (turn : TurnInfo) (h : (turns.map TurnInfo.id).Nodup) :
    ((setTurn turns turn).map TurnInfo.id).Nodup := by
  rw [setTurn_ids]
  split_ifs with hh
  · exact h
  · rw [← List.concat_eq_append]
    exact h.concat (fun hm => hh (hasTurn_iff.mpr hm))

theorem mem_setTurn_ids {turns : List TurnInfo} {turn : TurnInfo} {turnId : String}
    (h : turnId ∈ turns.map TurnInfo.id ∨ turnId = turn.id) :
    turnId ∈ (setTurn turns turn).map TurnInfo.id := by
  rw [setTurn_ids]
  split_ifs with hh
  · rcases h with h | rfl
    · exact h
    · exact hasTurn_iff.mp hh
  · simpa using h

@[simp] theorem setStatus_ids (turns : List TurnInfo) (turnId : String) (status : TurnStatus) :
    (setStatus turns turnId status).map TurnInfo.id = turns.map TurnInfo.id := by
  rw [setStatus, List.map_map]
  apply List.map_congr_left
  intro t _
  by_cases h : t.id = turnId <;> simp [h]

end Names

section Valid

/-- What an entry says, under any estimate of its tokens and any id. -/
def ThreadEntry.saved (e : ThreadEntry) : SerializedThreadEntry :=
  { turnId := e.turnId, kind := e.kind, message := e.message, elided := e.elided,
    iteration := e.iteration, toolSummary := e.toolSummary, originalTokens := e.originalTokens }

/-- An entry of a turn in the map, with a message of the role of its kind. -/
def EntryIn (turns : List TurnInfo) (e : ThreadEntry) : Prop :=
  e.turnId ∈ turns.map TurnInfo.id ∧ isEntryRoleCompatible e.kind e.message = true

structure Valid (t : ConversationThread) : Prop where
  names : (t.turns.map TurnInfo.id).Nodup
  entries : ∀ e ∈ t.entries, EntryIn t.turns e
  opened : ∀ turn ∈ t.turns, turn.status = .open ↔ t.openTurnId = some turn.id
  openTurn : ∀ turnId, t.openTurnId = some turnId →
    turnId ∈ t.turns.map TurnInfo.id ∧ ∃ n, turnId = turnName n
  iteration : t.currentIteration.isFinite = true

variable {t : ConversationThread} {estimateMessage : LlmMessage → Nat}

theorem EntryIn.mono {turns more : List TurnInfo} {e : ThreadEntry} (h : EntryIn turns e)
    (hm : ∀ turnId ∈ turns.map TurnInfo.id, turnId ∈ more.map TurnInfo.id) : EntryIn more e :=
  ⟨hm _ h.1, h.2⟩

theorem valid_new (entryCounter turnCounter : Nat) : Valid (.new entryCounter turnCounter) where
  names := List.nodup_nil
  entries _ he := absurd he List.not_mem_nil
  opened _ ht := absurd ht List.not_mem_nil
  openTurn _ h := by cases h
  iteration := rfl

theorem Valid.withEntries (h : Valid t) {entries : List ThreadEntry}
    (he : ∀ e ∈ entries, EntryIn t.turns e) : Valid { t with entries } :=
  ⟨h.names, he, h.opened, h.openTurn, h.iteration⟩

/-- The counters do not matter. -/
theorem Valid.counters (h : Valid t) (entryCounter turnCounter : Nat) :
    Valid { t with entryCounter, turnCounter } :=
  ⟨h.names, h.entries, h.opened, h.openTurn, h.iteration⟩

theorem Valid.push (h : Valid t) {entry : ThreadEntry} (he : EntryIn t.turns entry) :
    Valid (t.push entry) := by
  refine (h.withEntries ?_).counters (t.entryCounter + 1) t.turnCounter
  intro e hm
  rcases List.mem_append.mp hm with hm | hm
  · exact h.entries e hm
  · rwa [List.mem_singleton.mp hm]

theorem Valid.committed (h : Valid t) {turnId : String} (hne : t.openTurnId ≠ some turnId) :
    Valid { t with turns := setTurn t.turns { id := turnId, status := .committed } } where
  names := setTurn_nodup _ h.names
  entries e he := (h.entries e he).mono (fun _ hm => mem_setTurn_ids (Or.inl hm))
  opened := by
    intro turn hm
    rcases mem_setTurn hm with rfl | ⟨hm, -⟩
    · simpa using hne
    · exact h.opened turn hm
  openTurn id hi := ⟨mem_setTurn_ids (Or.inl (h.openTurn id hi).1), (h.openTurn id hi).2⟩
  iteration := h.iteration

theorem ensureTurn_eq (t : ConversationThread) (turnId : String) : t.ensureTurn turnId =
    if hasTurn t.turns turnId then t
    else { t with turns := setTurn t.turns { id := turnId, status := .committed } } := by
  rw [ensureTurn, setTurn, ← hasTurn]
  split_ifs <;> rfl

theorem Valid.ensureTurn (h : Valid t) (turnId : String) : Valid (t.ensureTurn turnId) := by
  rw [ensureTurn_eq]
  split_ifs with hh
  · exact h
  · exact h.committed (fun he => hh (hasTurn_iff.mpr (h.openTurn _ he).1))

theorem mem_ensureTurn (t : ConversationThread) (turnId : String) :
    turnId ∈ (t.ensureTurn turnId).turns.map TurnInfo.id := by
  rw [ensureTurn_eq]
  split_ifs with hh
  · exact hasTurn_iff.mp hh
  · exact mem_setTurn_ids (Or.inr rfl)

theorem Valid.appendEntry (h : Valid t) {turnId : String} (hm : turnId ∈ t.turns.map TurnInfo.id)
    {kind : ThreadEntryKind} {message : LlmMessage} (hr : isEntryRoleCompatible kind message = true) :
    Valid (t.appendEntry estimateMessage turnId kind message) := h.push ⟨hm, hr⟩

/-- Without an open turn a turn is opened. -/
theorem Valid.opening (h : Valid t) (ho : t.openTurnId = none) (n : Nat) :
    Valid { t with
      turns := setTurn t.turns { id := turnName n, status := .open }
      openTurnId := some (turnName n) } where
  names := setTurn_nodup _ h.names
  entries e he := (h.entries e he).mono (fun _ hm => mem_setTurn_ids (Or.inl hm))
  opened := by
    intro turn hm
    rcases mem_setTurn hm with rfl | ⟨hm, hne⟩
    · simp
    · have hs := h.opened turn hm
      rw [ho] at hs
      simpa [Ne.symm hne] using hs
  openTurn := by
    rintro id ⟨⟩
    exact ⟨mem_setTurn_ids (Or.inr rfl), n, rfl⟩
  iteration := h.iteration

/-- The open turn is closed. -/
theorem Valid.closing (h : Valid t) {turnId : String} (ho : t.openTurnId = some turnId)
    {status : TurnStatus} (hs : status ≠ .open) :
    Valid { t with turns := setStatus t.turns turnId status, openTurnId := none } where
  names := by rw [setStatus_ids]; exact h.names
  entries e he := (h.entries e he).mono (fun _ hm => by rwa [setStatus_ids])
  opened := by
    intro turn hm
    obtain ⟨u, hu, rfl⟩ := List.mem_map.mp hm
    have hopen := h.opened u hu
    rw [ho] at hopen
    by_cases he : u.id = turnId
    · simp [he, hs]
    · have hne : turnId ≠ u.id := fun h => he h.symm
      simpa [he, hne] using hopen
  openTurn id hi := by cases hi
  iteration := h.iteration

end Valid

section Operations

variable {t u : ConversationThread} {estimateMessage : LlmMessage → Nat}

theorem Valid.beginTurn (h : Valid t) {userInput : Text}
    (hu : t.beginTurn estimateMessage userInput = .ok u) : Valid u := by
  rw [ConversationThread.beginTurn] at hu
  split_ifs at hu with ho
  cases hu
  have hnone : t.openTurnId = none := by simpa using ho
  have hv := (h.opening hnone (t.turnCounter + 1)).counters t.entryCounter (t.turnCounter + 1)
  exact hv.push ⟨mem_setTurn_ids (Or.inr rfl), rfl⟩

theorem Valid.commitTurn (h : Valid t) (hu : t.commitTurn = .ok u) : Valid u := by
  rw [ConversationThread.commitTurn] at hu
  cases ho : t.openTurnId with
  | none =>
      rw [ho] at hu
      cases hu
  | some turnId =>
      rw [ho] at hu
      cases hu
      exact h.closing ho (by decide)

theorem Valid.abortTurn (h : Valid t) {reason : Text}
    (hu : t.abortTurn estimateMessage reason = .ok u) : Valid u := by
  rw [ConversationThread.abortTurn] at hu
  cases ho : t.openTurnId with
  | none =>
      rw [ho] at hu
      cases hu
  | some turnId =>
      rw [ho] at hu
      cases hu
      have hv : Valid (t.appendEntry estimateMessage turnId .notice (noticeMessage reason)) :=
        h.appendEntry (h.openTurn turnId ho).1 rfl
      exact hv.closing ho (by decide)

theorem removeUnmatched_entryIn {turns : List TurnInfo} {entries : List ThreadEntry} (turnId : String)
    (h : ∀ e ∈ entries, EntryIn turns e) :
    ∀ e ∈ removeUnmatchedToolCalls estimateMessage entries turnId, EntryIn turns e := by
  intro e he
  obtain ⟨d, hd, rfl⟩ := List.mem_map.mp he
  obtain ⟨hturn, hrole⟩ := h d hd
  split
  · rename_i content calls hm
    split_ifs
    · rw [hm] at hrole
      exact ⟨hturn, hrole⟩
    · exact ⟨hturn, hrole⟩
  · exact ⟨hturn, hrole⟩

theorem Valid.interruptTurn (h : Valid t) {reason : Text}
    (hu : t.interruptTurn estimateMessage reason = .ok u) : Valid u := by
  rw [ConversationThread.interruptTurn] at hu
  split at hu
  · cases hu
  · rename_i turnId ho
    have hv : Valid { t with entries := removeUnmatchedToolCalls estimateMessage t.entries turnId } :=
      h.withEntries (removeUnmatched_entryIn turnId h.entries)
    exact hv.abortTurn hu

theorem Valid.appendAssistant (h : Valid t) {content : Text} {calls : List LlmToolCall}
    (hu : t.appendAssistant estimateMessage content calls = .ok u) : Valid u := by
  rw [ConversationThread.appendAssistant] at hu
  cases ho : t.openTurnId with
  | none =>
      rw [ho] at hu
      cases hu
  | some turnId =>
      rw [ho] at hu
      cases hu
      exact h.appendEntry (h.openTurn turnId ho).1 rfl

theorem Valid.appendToolResult (h : Valid t) {result : ToolResult}
    (hu : t.appendToolResult estimateMessage result = .ok u) : Valid u := by
  rw [ConversationThread.appendToolResult] at hu
  cases ho : t.openTurnId with
  | none =>
      rw [ho] at hu
      cases hu
  | some turnId =>
      rw [ho] at hu
      cases hu
      exact h.push ⟨(h.openTurn turnId ho).1, rfl⟩

theorem Valid.appendEnsured (h : Valid t) (turnId : String) {kind : ThreadEntryKind}
    {message : LlmMessage} (hr : isEntryRoleCompatible kind message = true) :
    Valid ((t.ensureTurn turnId).appendEntry estimateMessage turnId kind message) :=
  (h.ensureTurn turnId).appendEntry (mem_ensureTurn t turnId) hr

theorem Valid.addCompaction (h : Valid t) (summary : Text) (turnId : Option String) :
    Valid (t.addCompaction estimateMessage summary turnId) := by
  cases turnId with
  | some turnId =>
      refine h.appendEnsured turnId ?_
      rfl
  | none =>
      refine (h.counters t.entryCounter (t.turnCounter + 1)).appendEnsured _ ?_
      rfl

theorem addNotice_closed (ho : t.openTurnId = none) (content : Text) :
    t.addNotice estimateMessage content =
      (({ t with turnCounter := t.turnCounter + 1 }).ensureTurn
        ("notice-" ++ turnName (t.turnCounter + 1))).appendEntry estimateMessage
          ("notice-" ++ turnName (t.turnCounter + 1)) .notice (noticeMessage content) := by
  obtain ⟨entries, turns, openTurnId, iteration, m, n⟩ := t
  cases ho
  rfl

theorem addNotice_open {turnId : String} (ho : t.openTurnId = some turnId) (content : Text) :
    t.addNotice estimateMessage content =
      (t.ensureTurn turnId).appendEntry estimateMessage turnId .notice (noticeMessage content) := by
  obtain ⟨entries, turns, openTurnId, iteration, m, n⟩ := t
  cases ho
  rfl

theorem Valid.addNotice (h : Valid t) (content : Text) :
    Valid (t.addNotice estimateMessage content) := by
  cases ho : t.openTurnId with
  | some turnId =>
      rw [addNotice_open ho]
      exact h.appendEnsured turnId rfl
  | none =>
      rw [addNotice_closed ho]
      exact (h.counters t.entryCounter (t.turnCounter + 1)).appendEnsured _ rfl

theorem Valid.removeTurnEntries (h : Valid t) (turnIds : List String) :
    Valid (t.removeTurnEntries turnIds) where
  names := h.names.sublist (List.Sublist.map _ List.filter_sublist)
  entries := by
    intro e he
    obtain ⟨he, hk⟩ := List.mem_filter.mp he
    obtain ⟨hturn, hrole⟩ := h.entries e he
    obtain ⟨turn, ht, hid⟩ := List.mem_map.mp hturn
    exact ⟨List.mem_map.mpr ⟨turn, List.mem_filter.mpr ⟨ht, by rwa [hid]⟩, hid⟩, hrole⟩
  opened := by
    intro turn hm
    obtain ⟨hm, hk⟩ := List.mem_filter.mp hm
    rw [h.opened turn hm, ConversationThread.removeTurnEntries, Option.filter_eq_some_iff]
    exact ⟨fun ho => ⟨ho, hk⟩, fun ho => ho.1⟩
  openTurn := by
    intro turnId ho
    obtain ⟨ho, hk⟩ := Option.filter_eq_some_iff.mp ho
    obtain ⟨hm, hn⟩ := h.openTurn turnId ho
    obtain ⟨turn, ht, rfl⟩ := List.mem_map.mp hm
    exact ⟨List.mem_map.mpr ⟨turn, List.mem_filter.mpr ⟨ht, hk⟩, rfl⟩, hn⟩
  iteration := h.iteration

/-- An open turn does not lose its last entry. -/
def KeepsOpen (t : ConversationThread) (entryCount : Int) : Prop :=
  ∀ turnId, t.openTurnId = some turnId →
    (∃ e ∈ t.entries.take entryCount.toNat, e.turnId = turnId) →
      ∃ e ∈ t.entries.drop entryCount.toNat, e.turnId = turnId

theorem take_min_length {α : Type} (l : List α) (n : Nat) : l.take (min n l.length) = l.take n := by
  rw [List.take_eq_take_iff]
  omega

theorem drop_min_length {α : Type} (l : List α) (n : Nat) : l.drop (min n l.length) = l.drop n := by
  rcases Nat.le_total n l.length with h | h
  · rw [Nat.min_eq_left h]
  · rw [Nat.min_eq_right h, List.drop_length, List.drop_eq_nil_of_le h]

theorem compactionName_ne (m n : Nat) : turnName n ≠ "compaction-" ++ turnName m := by
  intro h
  have hc := congrArg (fun s => s.toList.head?) h
  simp [turnName] at hc

theorem Valid.replacePrefix (h : Valid t) {entryCount : Int} (summary : Text)
    (hk : KeepsOpen t entryCount) :
    Valid (t.replacePrefixWithCompaction estimateMessage entryCount summary) := by
  rw [replacePrefixWithCompaction]
  dsimp only
  split_ifs
  · exact h
  rw [take_min_length, drop_min_length]
  set removed := t.entries.take entryCount.toNat
  set rest := t.entries.drop entryCount.toNat with hrest
  set kept := t.turns.filter (fun turn => !(removed.any (fun e => e.turnId = turn.id) &&
    !rest.any (fun e => e.turnId = turn.id))) with hkept
  have hmem {turnId : String} (hm : turnId ∈ t.turns.map TurnInfo.id)
      (hr : (∃ e ∈ removed, e.turnId = turnId) → ∃ e ∈ rest, e.turnId = turnId) :
      turnId ∈ kept.map TurnInfo.id := by
    obtain ⟨turn, ht, rfl⟩ := List.mem_map.mp hm
    refine List.mem_map.mpr ⟨turn, List.mem_filter.mpr ⟨ht, ?_⟩, rfl⟩
    have hkeep : (∀ e ∈ removed, e.turnId ≠ turn.id) ∨ ∃ e ∈ rest, e.turnId = turn.id := by
      by_cases hx : ∃ e ∈ removed, e.turnId = turn.id
      · exact Or.inr (hr hx)
      · exact Or.inl (fun e he hid => hx ⟨e, he, hid⟩)
    simpa using hkeep
  have hv : Valid { t with entries := rest, turns := kept } := by
    refine ⟨h.names.sublist (List.Sublist.map _ List.filter_sublist), ?_, ?_, ?_, h.iteration⟩
    · intro e he
      obtain ⟨hturn, hrole⟩ := h.entries e (List.mem_of_mem_drop he)
      exact ⟨hmem hturn (fun _ => ⟨e, he, rfl⟩), hrole⟩
    · exact fun turn hm => h.opened turn (List.mem_of_mem_filter hm)
    · intro turnId ho
      obtain ⟨hm, hn⟩ := h.openTurn turnId ho
      exact ⟨hmem hm (hk turnId ho), hn⟩
  have hne : t.openTurnId ≠ some ("compaction-" ++ turnName (t.turnCounter + 1)) := by
    intro ho
    obtain ⟨-, n, hn⟩ := h.openTurn _ ho
    exact compactionName_ne _ _ hn.symm
  have hc := hv.committed hne
  refine (hc.withEntries ?_).counters (t.entryCounter + 1) (t.turnCounter + 1)
  intro e he
  rcases List.mem_cons.mp he with rfl | he
  · exact ⟨mem_setTurn_ids (Or.inr rfl), rfl⟩
  · exact hc.entries e he

theorem updateEntry_entryIn {turns : List TurnInfo} {entries : List ThreadEntry} (entryId : String)
    {f : ThreadEntry → ThreadEntry} (hf : ∀ e, EntryIn turns e → EntryIn turns (f e))
    (h : ∀ e ∈ entries, EntryIn turns e) : ∀ e ∈ updateEntry entryId f entries, EntryIn turns e := by
  induction entries with
  | nil => exact h
  | cons d entries ih =>
      have hd := h d List.mem_cons_self
      have hrest := ih (fun e he => h e (List.mem_cons_of_mem _ he))
      intro e he
      rw [updateEntry] at he
      split_ifs at he
      · rcases List.mem_cons.mp he with rfl | he
        · exact hf d hd
        · exact h e (List.mem_cons_of_mem _ he)
      · rcases List.mem_cons.mp he with rfl | he
        · exact hd
        · exact hrest e he

theorem Valid.elideToolResult (h : Valid t) (entryId : String) (content : Text) :
    Valid (t.elideToolResult estimateMessage entryId content) := by
  refine h.withEntries (updateEntry_entryIn entryId (fun e he => ?_) h.entries)
  rw [elided]
  split
  · rename_i hk hm
    refine ⟨he.1, ?_⟩
    have hr := he.2
    rw [hk] at hr ⊢
    rfl
  · exact he

theorem truncated_compatible {kind : ThreadEntryKind} {message : LlmMessage} (content : Text)
    (h : isEntryRoleCompatible kind message = true) :
    isEntryRoleCompatible kind (truncatedMessage content message) = true := by
  cases message with
  | tool toolCallId name old => exact h
  | chat role old calls => cases role <;> exact h

theorem Valid.truncateEntry (h : Valid t) (entryId : String) (content : Text) :
    Valid (t.truncateEntry estimateMessage entryId content) :=
  h.withEntries (updateEntry_entryIn entryId (fun _ he => ⟨he.1, truncated_compatible content he.2⟩)
    h.entries)

theorem Valid.reestimateTokens (h : Valid t) : Valid (t.reestimateTokens estimateMessage) := by
  refine h.withEntries (fun e he => ?_)
  obtain ⟨d, hd, rfl⟩ := List.mem_map.mp he
  rw [reestimated]
  split_ifs <;> exact h.entries d hd

theorem addCompaction_openTurnId (t : ConversationThread) (summary : Text) (turnId : Option String) :
    (t.addCompaction estimateMessage summary turnId).openTurnId = t.openTurnId := by
  cases turnId <;> simp [ConversationThread.addCompaction, ConversationThread.appendEntry,
    ConversationThread.push, ensureTurn_eq] <;> split_ifs <;> rfl

theorem Valid.restoreMessages {r : Restored} (messages : List (Role × Text)) (h : Valid r.thread)
    (ho : r.thread.openTurnId = none) : Valid (restoreMessages estimateMessage r messages).thread := by
  have hadd {t : ConversationThread} (h : Valid t) (ho : t.openTurnId = none) (content : Text) :
      Valid ((t.addTurn { id := turnName (t.turnCounter + 1), status := .committed }).appendEntry
        estimateMessage (turnName (t.turnCounter + 1)) .user (.chat .user content none)) := by
    have hne : t.openTurnId ≠ some (turnName (t.turnCounter + 1)) := by simp [ho]
    have hv := (h.committed hne).counters t.entryCounter (t.turnCounter + 1)
    exact hv.push ⟨mem_setTurn_ids (Or.inr rfl), rfl⟩
  fun_induction ConversationThread.restoreMessages with
  | case1 r => exact h
  | case2 r content messages hm ih =>
      refine ih ?_ ((addCompaction_openTurnId ..).trans ho)
      exact h.addCompaction (extractCompactionBody content) none
  | case3 r content messages hm ih => exact ih h ho
  | case4 r content turnId t more answer messages hm ih => exact ih (hadd h ho content) ho
  | case5 r content turnId t more answer messages hm ih =>
      refine ih ?_ ho
      exact (hadd h ho content).push ⟨mem_setTurn_ids (Or.inr rfl), rfl⟩
  | case6 r content turnId t more messages hm ih => exact ih (hadd h ho content) ho
  | case7 r content messages ih => exact ih h ho

end Operations

end Kross.Context

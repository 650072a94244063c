import Kross.Context.RecentKept
import Kross.Runtime.StreamingLoop

namespace Kross.ToolLoop

open Kross.Context Kross.Context.ConversationThread

section Entries

/-- The entries of the open turn. -/
def openEntries (t : ConversationThread) : List ThreadEntry :=
  match t.openTurnId with
  | none => []
  | some turnId => t.getEntriesForTurn turnId

/-- The entries of the turn of the last entry. -/
def lastEntries (t : ConversationThread) : List ThreadEntry :=
  match t.entries.getLast? with
  | none => []
  | some e => t.getEntriesForTurn e.turnId

def requestedIds (entries : List ThreadEntry) : List String :=
  entries.flatMap fun e => e.requested.map LlmToolCall.id

def answeredIds (entries : List ThreadEntry) : List String := entries.filterMap fun e => e.message.toolCallId?

/-- The open turn asks for the calls `asked` and has results of `answered`. -/
structure Opened (t : ConversationThread) (asked answered : List String) : Prop where
  reachable : Reachable t
  isOpen : t.openTurnId.isSome = true
  begun : openEntries t ≠ []
  asked : requestedIds (openEntries t) = asked
  answered : answeredIds (openEntries t) = answered

/-- No turn is open; the last turn has asked for `asked`. -/
structure Closed (t : ConversationThread) (asked answered : List String) : Prop where
  reachable : Reachable t
  isClosed : t.openTurnId = none
  asked : requestedIds (lastEntries t) = asked
  answered : answeredIds (lastEntries t) = answered

variable {t u : ConversationThread} {estimateMessage : LlmMessage → Nat} {asked answered : List String}
  {turnId : String} {e : ThreadEntry} {entries : List ThreadEntry}

theorem reachable_done (h : Reachable t) (step : ThreadStep) (hs : Context.Taken step.op) (hu : step.next t = u) : Reachable u :=
  hu ▸ h.step step hs

theorem openEntries_some (ho : t.openTurnId = some turnId) : openEntries t = t.getEntriesForTurn turnId := by
  rw [openEntries, ho]

theorem requestedIds_append (more : List ThreadEntry) :
    requestedIds (entries ++ more) = requestedIds entries ++ requestedIds more := List.flatMap_append

theorem answeredIds_append (more : List ThreadEntry) :
    answeredIds (entries ++ more) = answeredIds entries ++ answeredIds more := List.filterMap_append

theorem openEntries_push (ho : t.openTurnId = some e.turnId) : openEntries (t.push e) = openEntries t ++ [e] := by
  have ho' : (t.push e).openTurnId = some e.turnId := ho
  rw [openEntries_some ho, openEntries_some ho', getEntriesForTurn, getEntriesForTurn, ConversationThread.push]
  simp [List.filter_append]

theorem Opened.exists_turnId (h : Opened t asked answered) : ∃ turnId, t.openTurnId = some turnId :=
  Option.isSome_iff_exists.mp h.isOpen

/-- An entry is added to the open turn. -/
theorem Opened.push (h : Opened t asked answered) (ho : t.openTurnId = some e.turnId) (hreachable : Reachable (t.push e)) :
    Opened (t.push e) (asked ++ requestedIds [e]) (answered ++ answeredIds [e]) := by
  have hentries := openEntries_push ho
  refine ⟨hreachable, h.isOpen, ?_, ?_, ?_⟩
  · rw [hentries]
    simp
  · rw [hentries, requestedIds_append, h.asked]
  · rw [hentries, answeredIds_append, h.answered]

theorem Opened.appendAssistant (h : Opened t asked answered) (estimateMessage : LlmMessage → Nat)
    (content : Text) (calls : List LlmToolCall) :
    ∃ u, t.appendAssistant estimateMessage content calls = .ok u ∧
      Opened u (asked ++ calls.map LlmToolCall.id) answered := by
  obtain ⟨turnId, ho⟩ := h.exists_turnId
  have hok : t.appendAssistant estimateMessage content calls = .ok (t.appendEntry estimateMessage turnId .assistant
      (.chat .assistant content (if calls.isEmpty then none else some calls))) := by
    rw [ConversationThread.appendAssistant, ho]
  refine ⟨_, hok, ?_⟩
  have hreachable := reachable_done h.reachable ⟨estimateMessage, .appendAssistant content calls⟩ trivial
    (congrArg (orElse t) hok)
  have hpushed := h.push (e := t.nextEntry estimateMessage turnId .assistant
    (.chat .assistant content (if calls.isEmpty then none else some calls)) none none) ho hreachable
  have hasks : requestedIds [t.nextEntry estimateMessage turnId .assistant
      (.chat .assistant content (if calls.isEmpty then none else some calls)) none none] = calls.map LlmToolCall.id := by
    cases calls <;> simp [requestedIds, nextEntry, ThreadEntry.requested]
  rw [hasks, show answeredIds [_] = [] from rfl, List.append_nil] at hpushed
  exact hpushed

theorem Opened.appendToolResult (h : Opened t asked answered) (estimateMessage : LlmMessage → Nat)
    (result : ToolResult) :
    ∃ u, t.appendToolResult estimateMessage result = .ok u ∧ Opened u asked (answered ++ [result.toolCallId]) := by
  obtain ⟨turnId, ho⟩ := h.exists_turnId
  cases hu : t.appendToolResult estimateMessage result with
  | error error =>
      rw [ConversationThread.appendToolResult, ho] at hu
      cases hu
  | ok u =>
      have hreachable := reachable_done h.reachable ⟨estimateMessage, .appendToolResult result⟩ trivial
        (congrArg (orElse t) hu)
      refine ⟨u, rfl, ?_⟩
      rw [ConversationThread.appendToolResult, ho] at hu
      cases hu
      simpa [requestedIds, answeredIds, nextEntry, ThreadEntry.requested, LlmMessage.toolCallId?] using
        h.push ho hreachable

theorem Opened.appendToolMessages (h : Opened t asked answered) (estimateMessage : LlmMessage → Nat) (iteration : Nat)
    (messages : List ToolMessage) :
    ∃ u, appendToolMessages estimateMessage iteration t messages = .ok u ∧
      Opened u asked (answered ++ messages.map ToolMessage.toolCallId) := by
  induction messages generalizing t answered with
  | nil => exact ⟨t, rfl, by simpa using h⟩
  | cons message messages ih =>
      obtain ⟨v, hv, hopened⟩ := h.appendToolResult estimateMessage
        { toolCallId := message.toolCallId, name := message.name, content := message.content, summary := none
          iteration := some (.finite iteration) }
      obtain ⟨u, hu, hopened⟩ := ih hopened
      refine ⟨u, ?_, by simpa using hopened⟩
      rw [ToolLoop.appendToolMessages, List.foldlM_cons, hv]
      exact hu

theorem openEntries_begun (hv : Valid t) (ho : Ordered t) (hnone : t.openTurnId = none)
    (estimateMessage : LlmMessage → Nat) (userInput : Text) :
    ∃ u e, t.beginTurn estimateMessage userInput = .ok u ∧ u.openTurnId.isSome = true ∧ openEntries u = [e] ∧
      e.message = .chat .user userInput none := by
  rw [ConversationThread.beginTurn, hnone]
  refine ⟨_, t.nextEntry estimateMessage (turnName (t.turnCounter + 1)) .user (.chat .user userInput none) none none,
    rfl, rfl, ?_, rfl⟩
  have hunused : turnName (t.turnCounter + 1) ∉ turnIds t := hv.housed.unused ho (Or.inl rfl)
  have hold : t.entries.filter (fun e => e.turnId = turnName (t.turnCounter + 1)) = [] := by
    refine List.filter_eq_nil_iff.mpr fun e he hid => hunused ?_
    rw [← of_decide_eq_true hid]
    exact List.mem_map_of_mem he
  change (t.entries ++ [_]).filter _ = _
  rw [List.filter_append, hold]
  simp [nextEntry, addTurn]

theorem opened_begin (h : Reachable t) (hnone : t.openTurnId = none) (estimateMessage : LlmMessage → Nat)
    (userInput : Text) :
    ∃ u, t.beginTurn estimateMessage userInput = .ok u ∧ Opened u [] [] := by
  obtain ⟨hv, ho⟩ := h.ordered
  obtain ⟨u, e, hu, hopen, hentries, hmessage⟩ := openEntries_begun hv ho hnone estimateMessage userInput
  have hreachable := reachable_done h ⟨estimateMessage, .beginTurn userInput⟩ trivial (congrArg (orElse t) hu)
  refine ⟨u, hu, hreachable, hopen, ?_, ?_, ?_⟩
  · rw [hentries]
    simp
  · rw [hentries]
    simp [requestedIds, ThreadEntry.requested, hmessage]
  · rw [hentries]
    simp [answeredIds, hmessage, LlmMessage.toolCallId?]

theorem Opened.setCurrentIteration (h : Opened t asked answered) (iteration : ℚ) :
    Opened (t.setCurrentIteration (.finite iteration)) asked answered :=
  ⟨h.reachable.step ⟨fun _ => 0, .setCurrentIteration (.finite iteration)⟩ rfl, h.isOpen, h.begun, h.asked, h.answered⟩

end Entries

section Governing

variable {t u : ConversationThread} {estimateMessage : LlmMessage → Nat} {asked answered : List String}
  {entries : List ThreadEntry}

/-- A change of the text of an entry leaves its calls and results. -/
structure KeepsCalls (f : ThreadEntry → ThreadEntry) : Prop where
  turnId : ∀ e, (f e).turnId = e.turnId
  requested : ∀ e, (f e).requested = e.requested
  result : ∀ e, (f e).message.toolCallId? = e.message.toolCallId?

theorem keepsCalls_truncated (content : Text) : KeepsCalls (fun e =>
    { e with
      message := truncatedMessage content e.message
      tokensEst := estimateMessage (truncatedMessage content e.message) }) := by
  refine ⟨fun _ => rfl, fun e => ?_, fun e => ?_⟩
  · obtain ⟨id, turnId, kind, message, tokensEst, elided, iteration, toolSummary, originalTokens⟩ := e
    cases message with
    | tool => rfl
    | chat role text calls => cases role <;> rfl
  · obtain ⟨id, turnId, kind, message, tokensEst, elided, iteration, toolSummary, originalTokens⟩ := e
    cases message with
    | tool => rfl
    | chat role text calls => cases role <;> rfl

theorem keepsCalls_elided (content : Text) : KeepsCalls (elided estimateMessage content) := by
  refine ⟨elided_turnId content, fun e => ?_, fun e => ?_⟩
  · obtain ⟨id, turnId, kind, message, tokensEst, elided, iteration, toolSummary, originalTokens⟩ := e
    cases kind <;> cases message <;> rfl
  · obtain ⟨id, turnId, kind, message, tokensEst, elided, iteration, toolSummary, originalTokens⟩ := e
    cases kind <;> cases message <;> rfl

theorem updateEntry_ids {f : ThreadEntry → ThreadEntry} (hf : KeepsCalls f) (entryId turnId : String)
    (entries : List ThreadEntry) :
    requestedIds ((updateEntry entryId f entries).filter (fun e => e.turnId = turnId)) =
        requestedIds (entries.filter (fun e => e.turnId = turnId)) ∧
      answeredIds ((updateEntry entryId f entries).filter (fun e => e.turnId = turnId)) =
        answeredIds (entries.filter (fun e => e.turnId = turnId)) ∧
      (updateEntry entryId f entries).map ThreadEntry.turnId = entries.map ThreadEntry.turnId := by
  induction entries with
  | nil => exact ⟨rfl, rfl, rfl⟩
  | cons e entries ih =>
      obtain ⟨hrequested, hanswered, hturns⟩ := ih
      rw [updateEntry]
      split_ifs
      · refine ⟨?_, ?_, by rw [List.map_cons, hf.turnId, List.map_cons]⟩
        · rw [List.filter_cons, List.filter_cons, hf.turnId]
          split_ifs
          · rw [requestedIds, requestedIds, List.flatMap_cons, List.flatMap_cons, hf.requested]
          · rfl
        · rw [List.filter_cons, List.filter_cons, hf.turnId]
          split_ifs
          · rw [answeredIds, answeredIds, List.filterMap_cons, List.filterMap_cons, hf.result]
          · rfl
      · refine ⟨?_, ?_, by rw [List.map_cons, hturns, List.map_cons]⟩
        · rw [List.filter_cons, List.filter_cons]
          split_ifs
          · rw [requestedIds, requestedIds, List.flatMap_cons, List.flatMap_cons]
            exact congrArg _ hrequested
          · exact hrequested
        · rw [List.filter_cons, List.filter_cons]
          split_ifs
          · rw [answeredIds, answeredIds, List.filterMap_cons, List.filterMap_cons]
            rw [answeredIds, answeredIds] at hanswered
            rw [hanswered]
          · exact hanswered

theorem filter_ne_nil {entries : List ThreadEntry} {turnId : String} :
    entries.filter (fun e => e.turnId = turnId) ≠ [] ↔ turnId ∈ entries.map ThreadEntry.turnId := by
  rw [Ne, List.filter_eq_nil_iff, List.mem_map]
  simp only [decide_eq_true_eq, not_forall, not_not, exists_prop]

theorem Opened.update (h : Opened t asked answered) {f : ThreadEntry → ThreadEntry} (hf : KeepsCalls f) (entryId : String)
    (hreachable : Reachable { t with entries := updateEntry entryId f t.entries }) :
    Opened { t with entries := updateEntry entryId f t.entries } asked answered := by
  obtain ⟨turnId, ho⟩ := h.exists_turnId
  obtain ⟨hrequested, hanswered, hturns⟩ := updateEntry_ids hf entryId turnId t.entries
  have hbegun := h.begun
  have hasked := h.asked
  have hresults := h.answered
  rw [openEntries_some ho, getEntriesForTurn] at hbegun hasked hresults
  have ho' : ({ t with entries := updateEntry entryId f t.entries } : ConversationThread).openTurnId = some turnId := ho
  refine ⟨hreachable, h.isOpen, ?_, ?_, ?_⟩
  · rw [openEntries_some ho', getEntriesForTurn]
    rw [filter_ne_nil] at hbegun ⊢
    exact hturns ▸ hbegun
  · rw [openEntries_some ho', getEntriesForTurn, hrequested, hasked]
  · rw [openEntries_some ho', getEntriesForTurn, hanswered, hresults]

theorem Opened.addNotice (h : Opened t asked answered) (content : Text) :
    Opened (t.addNotice estimateMessage content) asked answered := by
  obtain ⟨turnId, ho⟩ := h.exists_turnId
  obtain ⟨hv, -⟩ := h.reachable.ordered
  have hreachable := reachable_done h.reachable ⟨estimateMessage, .addNotice content⟩ trivial rfl
  have hensured : t.ensureTurn turnId = t := ensureTurn_old (hv.openTurn turnId ho).1
  change Reachable (t.addNotice estimateMessage content) at hreachable
  rw [addNotice_open ho, hensured] at hreachable ⊢
  have hpushed : Opened _ (asked ++ []) (answered ++ []) := h.push ho hreachable
  rwa [List.append_nil, List.append_nil] at hpushed

/-- A compaction takes only entries of other turns. -/
theorem Opened.turnCompaction (h : Opened t asked answered) (policy : ContextPolicy) (budget : Int)
    (summary : CompactionSelection → Option Text) :
    Opened (applyTurnCompaction estimateMessage policy budget t t summary) asked answered := by
  obtain ⟨turnId, ho⟩ := h.exists_turnId
  obtain ⟨hv, hordered⟩ := h.reachable.ordered
  have hreachable := Reachable.automatic h.reachable [] (by rintro _ ⟨⟩) estimateMessage policy budget summary
  change Reachable (applyTurnCompaction estimateMessage policy budget t t summary) at hreachable
  have hsame : openEntries (applyTurnCompaction estimateMessage policy budget t t summary) = openEntries t ∧
      (applyTurnCompaction estimateMessage policy budget t t summary).openTurnId = t.openTurnId := by
    rw [applyTurnCompaction]
    split_ifs
    · exact ⟨rfl, rfl⟩
    · cases hselection : selectAutomaticPrefix t (min policy.preserveRecentTokens budget.toNat) with
      | none => exact ⟨rfl, rfl⟩
      | some selection =>
          obtain ⟨hn, hboundary⟩ := boundary_selectAutomatic hselection
          dsimp only
          cases summary selection with
          | none => exact ⟨rfl, rfl⟩
          | some text =>
              rw [compactPrefix]
              obtain ⟨entry, -, hid, -, heq⟩ := @replacePrefix_eq estimateMessage t _ hn hboundary.le_length text
              rw [heq]
              refine ⟨?_, rfl⟩
              obtain ⟨k, hk⟩ := (hv.openTurn turnId ho).2
              have hentry : ¬ entry.turnId = turnId := by
                rw [hid, hk]
                exact fun hsame => compactionName_ne _ _ hsame.symm
              have htaken : (t.entries.take selection.entryCount).filter (fun e => e.turnId = turnId) = [] := by
                refine List.filter_eq_nil_iff.mpr fun e he hid => hboundary.closed hordered e he ?_
                rw [ho, of_decide_eq_true hid]
              have hsplit := congrArg (List.filter (fun e => decide (e.turnId = turnId)))
                (List.take_append_drop selection.entryCount t.entries)
              rw [List.filter_append, htaken, List.nil_append] at hsplit
              have ho' : ({ t with
                  entries := entry :: t.entries.drop selection.entryCount
                  turns := setTurn (t.turns.filter (fun turn => !((t.entries.take selection.entryCount).any
                    (fun e => e.turnId = turn.id) && !(t.entries.drop selection.entryCount).any
                      (fun e => e.turnId = turn.id)))) { id := entry.turnId, status := .committed }
                  entryCounter := t.entryCounter + 1
                  turnCounter := t.turnCounter + 1 } : ConversationThread).openTurnId = some turnId := ho
              rw [openEntries_some ho', openEntries_some ho, getEntriesForTurn, getEntriesForTurn]
              rw [List.filter_cons_of_neg (by simpa using hentry)]
              exact hsplit
  obtain ⟨hentries, hopen⟩ := hsame
  exact ⟨hreachable, by rw [hopen]; exact h.isOpen, by rw [hentries]; exact h.begun, by rw [hentries]; exact h.asked,
    by rw [hentries]; exact h.answered⟩

theorem Opened.apply (h : Opened t asked answered) (governing : Governing) :
    Opened (governing.apply estimateMessage t) asked answered := by
  cases governing with
  | truncateEntry entryId content =>
      exact h.update (keepsCalls_truncated content) entryId
        (reachable_done h.reachable ⟨estimateMessage, .truncateEntry entryId content⟩ trivial rfl)
  | elideToolResult entryId content =>
      exact h.update (keepsCalls_elided content) entryId
        (reachable_done h.reachable ⟨estimateMessage, .elideToolResult entryId content⟩ trivial rfl)
  | addNotice content => exact h.addNotice content
  | turnCompaction policy budget summary => exact h.turnCompaction policy budget summary

theorem Opened.governed (h : Opened t asked answered) (governing : List Governing) :
    Opened (governing.foldl (Governing.apply estimateMessage) t) asked answered := by
  induction governing generalizing t with
  | nil => exact h
  | cons governing more ih => exact ih (h.apply governing)

end Governing

section Closing

variable {t u : ConversationThread} {estimateMessage : LlmMessage → Nat} {asked answered : List String} {turnId : String}

/-- The entries of the open turn are the last ones. -/
theorem Opened.last (h : Opened t asked answered) : lastEntries t = openEntries t := by
  obtain ⟨turnId, ho⟩ := h.exists_turnId
  obtain ⟨-, hordered⟩ := h.reachable.ordered
  have hbegun := h.begun
  rw [openEntries_some ho, getEntriesForTurn, filter_ne_nil] at hbegun
  have hlast := hordered.last turnId ho hbegun
  rw [turnIds, List.getLast?_map, Option.map_eq_some_iff] at hlast
  obtain ⟨e, he, rfl⟩ := hlast
  rw [lastEntries, he, openEntries_some ho]

/-- A change of the status leaves the entries. -/
theorem Opened.close (h : Opened t asked answered) (status : TurnStatus) (turnId : String)
    (hreachable : Reachable { t with turns := setStatus t.turns turnId status, openTurnId := none }) :
    Closed { t with turns := setStatus t.turns turnId status, openTurnId := none } asked answered := by
  have hlast : lastEntries { t with turns := setStatus t.turns turnId status, openTurnId := none } = openEntries t := h.last
  exact ⟨hreachable, rfl, by rw [hlast]; exact h.asked, by rw [hlast]; exact h.answered⟩

theorem Opened.commitTurn (h : Opened t asked answered) : ∃ u, t.commitTurn = .ok u ∧ Closed u asked answered := by
  obtain ⟨turnId, ho⟩ := h.exists_turnId
  have hok : t.commitTurn = .ok { t with turns := setStatus t.turns turnId .committed, openTurnId := none } := by
    rw [ConversationThread.commitTurn, ho]
  exact ⟨_, hok, h.close .committed turnId
    (reachable_done h.reachable ⟨fun _ => 0, .commitTurn⟩ trivial (congrArg (orElse t) hok))⟩

/-- The notice of an aborted turn is not a call. -/
theorem Opened.abortTurn (h : Opened t asked answered) (estimateMessage : LlmMessage → Nat) (reason : Text) :
    ∃ u, t.abortTurn estimateMessage reason = .ok u ∧ Closed u asked answered := by
  obtain ⟨turnId, ho⟩ := h.exists_turnId
  obtain ⟨hv, -⟩ := h.reachable.ordered
  have hnotice : t.addNotice estimateMessage reason =
      t.appendEntry estimateMessage turnId .notice (noticeMessage reason) := by
    rw [addNotice_open ho, ensureTurn_old (hv.openTurn turnId ho).1]
  have hok : t.abortTurn estimateMessage reason = .ok { t.addNotice estimateMessage reason with
      turns := setStatus (t.addNotice estimateMessage reason).turns turnId .aborted, openTurnId := none } := by
    rw [hnotice, ConversationThread.abortTurn, ho]
  exact ⟨_, hok, (h.addNotice reason).close .aborted turnId
    (reachable_done h.reachable ⟨estimateMessage, .abortTurn reason⟩ trivial (congrArg (orElse t) hok))⟩

theorem trimmed_requestedIds (ids : List String) (e : ThreadEntry) :
    ((trimmed estimateMessage ids e.turnId e).requested).map LlmToolCall.id =
      (e.requested.map LlmToolCall.id).filter ids.contains := by
  have hmatched (calls : List LlmToolCall) :
      ((matchedCalls ids calls).getD []).map LlmToolCall.id = (calls.map LlmToolCall.id).filter ids.contains := by
    rw [matchedCalls, List.filter_map]
    change _ = (calls.filter (fun call => ids.contains call.id)).map LlmToolCall.id
    cases calls.filter (fun call => ids.contains call.id) <;> rfl
  obtain ⟨id, turnId, kind, message, tokensEst, elided, iteration, toolSummary, originalTokens⟩ := e
  cases message with
  | tool => rfl
  | chat role content calls =>
      cases role with
      | assistant =>
          cases calls with
          | none => rfl
          | some calls =>
              simp only [trimmed, if_true]
              exact hmatched calls
      | user => rfl
      | system => rfl

/-- The turn of an interrupted run keeps the calls with results. -/
theorem removeUnmatched_ids (estimateMessage : LlmMessage → Nat) (entries : List ThreadEntry) (turnId : String) :
    requestedIds ((removeUnmatchedToolCalls estimateMessage entries turnId).filter (fun e => e.turnId = turnId)) =
        (requestedIds (entries.filter (fun e => e.turnId = turnId))).filter (resultIds entries turnId).contains ∧
      answeredIds ((removeUnmatchedToolCalls estimateMessage entries turnId).filter (fun e => e.turnId = turnId)) =
        answeredIds (entries.filter (fun e => e.turnId = turnId)) := by
  rw [removeUnmatched_eq]
  generalize resultIds entries turnId = ids
  have hsame : (entries.map (trimmed estimateMessage ids turnId)).filter (fun e => e.turnId = turnId) =
      (entries.filter (fun e => e.turnId = turnId)).map (trimmed estimateMessage ids turnId) := by
    rw [List.filter_map]
    refine congrArg _ (List.filter_congr fun e _ => ?_)
    simp [trimmed_turnId]
  rw [hsame]
  constructor
  · rw [requestedIds, requestedIds, List.flatMap_map, List.filter_flatMap]
    refine List.flatMap_congr fun e he => ?_
    have hid : e.turnId = turnId := by simpa using (List.mem_filter.mp he).2
    rw [← hid]
    exact trimmed_requestedIds ids e
  · rw [answeredIds, answeredIds, List.filterMap_map]
    refine List.filterMap_congr fun e _ => ?_
    cases hm : e.message.toolCallId? with
    | some callId => rw [Function.comp_apply, trimmed_result hm, hm]
    | none =>
        obtain ⟨id, entryTurn, kind, message, tokensEst, elided, iteration, toolSummary, originalTokens⟩ := e
        cases message with
        | tool => cases hm
        | chat role content calls =>
            rw [Function.comp_apply, trimmed]
            split
            · split_ifs <;> rfl
            · rfl

theorem Opened.interruptTurn (h : Opened t asked answered) (estimateMessage : LlmMessage → Nat) (reason : Text) :
    ∃ u, t.interruptTurn estimateMessage reason = .ok u ∧ Closed u (asked.filter answered.contains) answered := by
  obtain ⟨turnId, ho⟩ := h.exists_turnId
  have hok : ∃ notice, t.interruptTurn estimateMessage reason = .ok { t with
      entries := removeUnmatchedToolCalls estimateMessage t.entries turnId ++ [notice]
      turns := setStatus t.turns turnId .aborted, openTurnId := none, entryCounter := t.entryCounter + 1 } ∧
        notice.turnId = turnId ∧ notice.message = noticeMessage reason := by
    refine ⟨t.nextEntry estimateMessage turnId .notice (noticeMessage reason) none none, ?_, rfl, rfl⟩
    rw [ConversationThread.interruptTurn, ho]
    rfl
  obtain ⟨notice, hok, rfl, hmessage⟩ := hok
  obtain ⟨hrequested, hanswered⟩ := removeUnmatched_ids estimateMessage t.entries notice.turnId
  have hasked := h.asked
  have hresults := h.answered
  rw [openEntries_some ho, getEntriesForTurn] at hasked hresults
  have hids : resultIds t.entries notice.turnId = answered := hresults
  refine ⟨_, hok, reachable_done h.reachable ⟨estimateMessage, .interruptTurn reason⟩ trivial (congrArg (orElse t) hok),
    rfl, ?_, ?_⟩
  · rw [lastEntries, List.getLast?_concat]
    dsimp only
    rw [getEntriesForTurn, List.filter_append, requestedIds_append, hrequested, hids, hasked]
    simp [requestedIds, ThreadEntry.requested, hmessage, noticeMessage]
  · rw [lastEntries, List.getLast?_concat]
    dsimp only
    rw [getEntriesForTurn, List.filter_append, answeredIds_append, hanswered, hresults]
    simp [answeredIds, hmessage, noticeMessage, LlmMessage.toolCallId?]

end Closing

end Kross.ToolLoop

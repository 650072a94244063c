import Kross.Context.SavedThread
import Kross.Context.ThreadValid
import Kross.PartialMap
import Kross.Run

namespace Kross.Context.Saved

open Parsed PartialMap

section Messages

variable {m m' : LlmMessage} {E : TokenEstimator}

theorem valid_iff : m.valid = true ↔ isString m.content = true ∧
    ((m.isTool = true ∧ isString m.toolCallId = true ∧ isString m.name = true) ∨
      (m.isTool = false ∧
        (isText "user" m.role || m.isAssistant || isText "system" m.role) = true)) := by
  rw [LlmMessage.valid]
  cases h : m.isTool <;> simp

theorem isTool_eq_false (h : m.isAssistant = true) : m.isTool = false := by
  rw [LlmMessage.isAssistant, isText_iff] at h
  rw [LlmMessage.isTool, h]
  rfl

theorem estimateTextTokens_of_isString {v : Option Value} (h : isString v = true) :
    ∃ n, estimateTextTokens v = some n := by
  obtain ⟨s, rfl⟩ := isString_iff.mp h
  exact ⟨tokensOf s, rfl⟩

/-- The estimate reads nothing that the validator has not checked. -/
theorem estimateMessage_of_valid (estimator : TokenEstimator) (h : m.valid = true) :
    ∃ n, estimator.estimateMessage m = some n := by
  obtain ⟨hcontent, hrole⟩ := valid_iff.mp h
  obtain ⟨content, hc⟩ := estimateTextTokens_of_isString hcontent
  have he : ∃ n, estimateMessageTokens estimator.stringify m = some n := by
    rcases hrole with ⟨ht, hid, hname⟩ | ⟨ht, -⟩
    · obtain ⟨toolCallId, hid⟩ := estimateTextTokens_of_isString hid
      obtain ⟨name, hname⟩ := estimateTextTokens_of_isString hname
      exact ⟨_, by rw [estimateMessageTokens, if_pos ht, hc, hname, hid]; rfl⟩
    · rw [estimateMessageTokens, if_neg (by simp [ht]), hc]
      cases hcalls : m.toolCalls with
      | none => exact ⟨_, rfl⟩
      | some calls =>
          change ∃ n, (if calls.truthy && hasLength calls then _ else _) = some n
          split
          · exact ⟨_, rfl⟩
          · exact ⟨_, rfl⟩
  obtain ⟨n, hn⟩ := he
  exact ⟨estimator.calibrated n, by rw [TokenEstimator.estimateMessage, hn]; rfl⟩

/-- What a message is once it has been cloned: its calls are a list. -/
structure Cloned (m : LlmMessage) : Prop where
  valid : m.valid = true
  calls : ∀ v, m.toolCalls = some v → ∃ items, v = .arr items

/-- No call of an assistant is null. -/
def Named (m : LlmMessage) : Prop :=
  m.isAssistant = true → ∀ items, m.toolCalls = some (.arr items) → items.any Value.isNull = false

theorem named_of_none (h : m.toolCalls = none) : Named m := by
  intro _ items he
  rw [h] at he
  cases he

theorem cloned_tool {content toolCallId name : Option Value} (hc : isString content = true)
    (hid : isString toolCallId = true) (hname : isString name = true) :
    Cloned { role := some (.str "tool"), content, toolCallId, name } :=
  { valid := valid_iff.mpr ⟨hc, .inl ⟨rfl, hid, hname⟩⟩
    calls := fun _ h => nomatch h }

theorem cloned_user (content : String) :
    Cloned { role := some (.str "user"), content := some (.str content) } :=
  { valid := rfl
    calls := fun _ h => nomatch h }

/-- A message under the same role with a list of calls or none. -/
theorem cloned_chat (h : m.valid = true) (ht : m.isTool = false) {content calls : Option Value}
    (hc : isString content = true) (hcalls : ∀ v, calls = some v → ∃ items, v = .arr items) :
    Cloned { role := m.role, content, toolCalls := calls } := by
  obtain ⟨-, hrole⟩ := valid_iff.mp h
  rcases hrole with ⟨ht', -⟩ | ⟨-, hrole⟩
  · rw [ht] at ht'
    cases ht'
  · exact { valid := valid_iff.mpr ⟨hc, .inr ⟨ht, hrole⟩⟩, calls := hcalls }

theorem cloneMessage_cloned (h : m.valid = true) (he : cloneMessage m = some m') : Cloned m' := by
  obtain ⟨hc, hrole⟩ := valid_iff.mp h
  rw [cloneMessage] at he
  split at he
  · next ht =>
    cases he
    rcases hrole with ⟨-, hid, hname⟩ | ⟨ht', -⟩
    · exact cloned_tool hc hid hname
    · rw [ht] at ht'
      cases ht'
  · next ht =>
    have ht : m.isTool = false := Bool.eq_false_iff.mpr ht
    have hnone : Cloned { role := m.role, content := m.content } :=
      cloned_chat h ht hc (fun _ h => nomatch h)
    split at he
    · cases he
      exact hnone
    · split at he
      · obtain ⟨items, -, rfl⟩ := Option.map_eq_some_iff.mp he
        exact cloned_chat h ht hc (fun v hv => ⟨items, (Option.some.inj hv).symm⟩)
      · cases he
        exact hnone

/-- What is cloned once is cloned again without change of its calls. -/
theorem cloneMessage_of_cloned (h : Cloned m) : ∃ m', cloneMessage m = some m' ∧
    m'.isAssistant = m.isAssistant ∧ (m.isAssistant = true → m'.toolCalls = m.toolCalls) := by
  rw [cloneMessage]
  split
  · next ht =>
    refine ⟨_, rfl, ?_, ?_⟩
    · rw [LlmMessage.isTool, isText_iff] at ht
      rw [LlmMessage.isAssistant, LlmMessage.isAssistant, ht]
    · intro ha
      rw [isTool_eq_false ha] at ht
      cases ht
  · split
    · next hcalls => exact ⟨_, rfl, rfl, fun _ => hcalls.symm⟩
    · next calls hcalls =>
      obtain ⟨items, rfl⟩ := h.calls calls hcalls
      exact ⟨_, rfl, rfl, fun _ => hcalls.symm⟩

theorem named_congr (ha : m'.isAssistant = m.isAssistant)
    (hcalls : m.isAssistant = true → m'.toolCalls = m.toolCalls) (h : Named m) : Named m' := by
  intro hm items he
  rw [ha] at hm
  rw [hcalls hm] at he
  exact h hm items he

theorem matchedMessage_of_named {ids : List String} (h : Cloned m) (hn : Named m)
    (ha : m.isAssistant = true) (ht : truthy m.toolCalls = true) :
    ∃ m', matchedMessage ids m = some m' ∧ Cloned m' ∧ Named m' := by
  cases hcalls : m.toolCalls with
  | none =>
      rw [hcalls] at ht
      cases ht
  | some v =>
      obtain ⟨items, rfl⟩ := h.calls v hcalls
      have hnull : items.any Value.isNull = false := hn ha items hcalls
      have hrole : m.role = some (.str "assistant") := isText_iff.mp ha
      obtain ⟨hc, -⟩ := valid_iff.mp h.valid
      refine ⟨_, by rw [matchedMessage, hcalls, matchedCalls, hnull]; rfl, ?_, ?_⟩
      · rw [← hrole]
        refine cloned_chat h.valid (isTool_eq_false ha) hc (fun v hv => ?_)
        split at hv
        · cases hv
        · exact ⟨_, (Option.some.inj hv).symm⟩
      · intro _ matched hm
        change (if _ then none else some (Value.arr (items.filter (answered ids)))) = _ at hm
        split at hm
        · cases hm
        · cases hm
          rw [List.any_eq_false] at hnull ⊢
          exact fun call hcall => hnull call (List.mem_of_mem_filter hcall)

theorem matchedMessage_of_null {ids : List String} {items : List Value}
    (hcalls : m.toolCalls = some (.arr items)) (hnull : items.any Value.isNull = true) :
    matchedMessage ids m = none := by
  rw [matchedMessage, hcalls, matchedCalls, hnull]
  rfl

end Messages

section Entries

/-- What an operation may make of an entry. -/
structure KeepsEntry (e e' : ThreadEntry) : Prop where
  turnId : e'.turnId = e.turnId
  cloned : Cloned e'.message
  named : Named e.message → Named e'.message

theorem KeepsEntry.refl {e : ThreadEntry} (h : Cloned e.message) : KeepsEntry e e :=
  { turnId := rfl, cloned := h, named := id }

variable {E : TokenEstimator} {e : ThreadEntry} {entries : List ThreadEntry}

theorem setMessage_of_cloned {message : LlmMessage} (h : Cloned message)
    (hn : Named e.message → Named message) :
    ∃ e', ConversationThread.setMessage E e message = some e' ∧ KeepsEntry e e' := by
  obtain ⟨n, hn'⟩ := estimateMessage_of_valid E h.valid
  exact ⟨{ e with message, tokensEst := n },
    by rw [ConversationThread.setMessage, hn']; rfl, { turnId := rfl, cloned := h, named := hn }⟩

theorem removeUnmatched_of_named {ids : List String} {turnId : String} (h : Cloned e.message)
    (hn : e.turnId = turnId → Named e.message) :
    ∃ e', ConversationThread.removeUnmatched E ids turnId e = some e' ∧ KeepsEntry e e' := by
  rw [ConversationThread.removeUnmatched]
  split
  · next hc =>
    simp only [Bool.and_eq_true, decide_eq_true_eq] at hc
    obtain ⟨⟨hturn, ha⟩, ht⟩ := hc
    obtain ⟨m, hm, hcl, hnm⟩ := matchedMessage_of_named h (hn hturn) ha ht
    rw [hm]
    exact setMessage_of_cloned hcl (fun _ => hnm)
  · exact ⟨e, rfl, .refl h⟩

theorem elide_of_cloned {content : String} (h : Cloned e.message) :
    ∃ e', ConversationThread.elide E content e = some e' ∧ KeepsEntry e e' := by
  rw [ConversationThread.elide]
  split
  · next hc =>
    rw [Bool.and_eq_true] at hc
    obtain ⟨-, hrole⟩ := valid_iff.mp h.valid
    rcases hrole with ⟨-, hid, hname⟩ | ⟨ht, -⟩
    · have hcl := cloned_tool (isString_iff.mpr ⟨content, rfl⟩) hid hname
      obtain ⟨e', he, hk⟩ := setMessage_of_cloned hcl (fun _ => named_of_none rfl)
      exact ⟨e', he, { turnId := hk.turnId, cloned := hk.cloned, named := hk.named }⟩
    · rw [hc.2] at ht
      cases ht
  · exact ⟨e, rfl, .refl h⟩

theorem truncated_of_cloned {content : String} (h : Cloned e.message) :
    ∃ e', ConversationThread.setMessage E e
      (ConversationThread.truncatedMessage content e.message) = some e' ∧ KeepsEntry e e' := by
  apply setMessage_of_cloned
  · rw [ConversationThread.truncatedMessage]
    split
    · next ht =>
      obtain ⟨-, hrole⟩ := valid_iff.mp h.valid
      rcases hrole with ⟨-, hid, hname⟩ | ⟨ht', -⟩
      · exact cloned_tool rfl hid hname
      · rw [ht] at ht'
        cases ht'
    · next ht =>
      refine cloned_chat h.valid (Bool.eq_false_iff.mpr ht) rfl (fun v hv => ?_)
      split at hv
      · exact h.calls v hv
      · cases hv
  · intro hn
    rw [ConversationThread.truncatedMessage]
    split
    · exact named_of_none rfl
    · intro ha items hcalls
      change (if _ then e.message.toolCalls else none) = _ at hcalls
      split at hcalls
      · exact hn ha items hcalls
      · cases hcalls

theorem reestimate_of_cloned (h : Cloned e.message) :
    ∃ e', ConversationThread.reestimate E e = some e' ∧ KeepsEntry e e' := by
  obtain ⟨e', he, hk⟩ := setMessage_of_cloned (E := E) (e := e) h id
  rw [ConversationThread.reestimate, he]
  refine ⟨_, rfl, ?_⟩
  dsimp only
  split
  · exact { turnId := hk.turnId, cloned := hk.cloned, named := hk.named }
  · exact hk

theorem updateEntry_keeps (entryId : String) {f : ThreadEntry → Option ThreadEntry}
    (hc : ∀ e ∈ entries, Cloned e.message)
    (hf : ∀ e ∈ entries, ∃ e', f e = some e' ∧ KeepsEntry e e') :
    ∃ entries', ConversationThread.updateEntry entryId f entries = some entries' ∧
      ∀ e' ∈ entries', ∃ e ∈ entries, KeepsEntry e e' := by
  induction entries with
  | nil => exact ⟨[], rfl, fun _ h => absurd h List.not_mem_nil⟩
  | cons e entries ih =>
      rw [ConversationThread.updateEntry]
      have hrest : ∀ e' ∈ entries, ∃ e₁ ∈ e :: entries, KeepsEntry e₁ e' := fun e' he' =>
        ⟨e', List.mem_cons_of_mem e he', .refl (hc e' (List.mem_cons_of_mem e he'))⟩
      split
      · obtain ⟨e', he, hk⟩ := hf e List.mem_cons_self
        refine ⟨e' :: entries, by rw [he]; rfl, fun e₂ h₂ => ?_⟩
        rcases List.mem_cons.mp h₂ with rfl | h₂
        · exact ⟨e, List.mem_cons_self, hk⟩
        · exact hrest e₂ h₂
      · obtain ⟨entries', he, hk⟩ := ih (fun e₁ h₁ => hc e₁ (List.mem_cons_of_mem e h₁))
          (fun e₁ h₁ => hf e₁ (List.mem_cons_of_mem e h₁))
        refine ⟨e :: entries', by rw [he]; rfl, fun e₂ h₂ => ?_⟩
        rcases List.mem_cons.mp h₂ with rfl | h₂
        · exact ⟨e₂, List.mem_cons_self, .refl (hc e₂ List.mem_cons_self)⟩
        · obtain ⟨e₁, h₁, hk₁⟩ := hk e₂ h₂
          exact ⟨e₁, List.mem_cons_of_mem e h₁, hk₁⟩

theorem mapM_keeps {f : ThreadEntry → Option ThreadEntry}
    (hf : ∀ e ∈ entries, ∃ e', f e = some e' ∧ KeepsEntry e e') :
    ∃ entries', entries.mapM f = some entries' ∧ ∀ e' ∈ entries', ∃ e ∈ entries, KeepsEntry e e' := by
  obtain ⟨entries', he⟩ := exists_mapM fun e h => (hf e h).imp fun _ h => h.1
  refine ⟨entries', he, fun e' he' => ?_⟩
  obtain ⟨e, hm, hfe⟩ := exists_of_mem_mapM he he'
  obtain ⟨e₁, h₁, hk⟩ := hf e hm
  rw [hfe] at h₁
  cases h₁
  exact ⟨e, hm, hk⟩

/-- The loop of `removeUnmatchedToolCalls` is a map that may fail. -/
theorem removeUnmatchedLoop_eq {ids : List String} {turnId : String} (entries' : List ThreadEntry) :
    ConversationThread.removeUnmatchedLoop E ids turnId entries = (entries', true) ↔
      entries.mapM (ConversationThread.removeUnmatched E ids turnId) = some entries' := by
  induction entries generalizing entries' with
  | nil => simp [ConversationThread.removeUnmatchedLoop, eq_comm]
  | cons e entries ih =>
      rw [ConversationThread.removeUnmatchedLoop, List.mapM_cons]
      cases he : ConversationThread.removeUnmatched E ids turnId e with
      | none => simp
      | some e' =>
          change ((e' :: _, _) = (entries', true)) ↔
            (Option.bind (entries.mapM _) fun rest => some (e' :: rest)) = some entries'
          rw [Prod.mk.injEq, Option.bind_eq_some_iff]
          constructor
          · rintro ⟨rfl, hdone⟩
            exact ⟨_, (ih _).mp (Prod.ext rfl hdone), rfl⟩
          · rintro ⟨rest, hrest, he⟩
            cases he
            rw [(ih rest).mpr hrest]
            exact ⟨rfl, rfl⟩

theorem removeUnmatchedLoop_of_named (ids : List String) (turnId : String)
    (hc : ∀ e ∈ entries, Cloned e.message) (hn : ∀ e ∈ entries, e.turnId = turnId → Named e.message) :
    ∃ entries', ConversationThread.removeUnmatchedLoop E ids turnId entries = (entries', true) ∧
      entries.mapM (ConversationThread.removeUnmatched E ids turnId) = some entries' ∧
      ∀ e' ∈ entries', ∃ e ∈ entries, KeepsEntry e e' := by
  have hf (e : ThreadEntry) (he : e ∈ entries) :
      ∃ e', ConversationThread.removeUnmatched E ids turnId e = some e' ∧ KeepsEntry e e' :=
    removeUnmatched_of_named (hc e he) (hn e he)
  obtain ⟨entries', he, hk⟩ := mapM_keeps hf
  exact ⟨entries', (removeUnmatchedLoop_eq entries').mpr he, he, hk⟩

theorem removeUnmatchedLoop_of_null {ids : List String} {turnId : String} {items : List Value}
    (he : e ∈ entries) (hturn : e.turnId = turnId) (ha : e.message.isAssistant = true)
    (hcalls : e.message.toolCalls = some (.arr items)) (hnull : items.any Value.isNull = true) :
    (ConversationThread.removeUnmatchedLoop E ids turnId entries).2 = false := by
  rw [← Bool.not_eq_true]
  intro hdone
  obtain ⟨e', -, he'⟩ := exists_mem_mapM ((removeUnmatchedLoop_eq _).mp (Prod.ext rfl hdone)) he
  have hnone : ConversationThread.removeUnmatched E ids turnId e = none := by
    rw [ConversationThread.removeUnmatched, if_pos (by simp [hturn, ha, hcalls, truthy, Value.truthy]),
      matchedMessage_of_null hcalls hnull]
    rfl
  rw [hnone] at he'
  cases he'

end Entries

section Threads

/-- No call without an id is in the open turn, nor can it come into one. -/
structure Healthy (t : ConversationThread) : Prop where
  cloned : ∀ e ∈ t.entries, Cloned e.message
  opened : ∀ e ∈ t.entries, t.openTurnId = some e.turnId → Named e.message
  old : ∀ e ∈ t.entries, Named e.message ∨ ∃ n ≤ t.turnCounter, e.turnId = turnName n

/-- What an operation may end in. -/
def Safe : Except Thrown ConversationThread → Prop
  | .ok t => Healthy t
  | .error e => e ≠ .typeError

variable {E : TokenEstimator} {t t' : ConversationThread}

theorem Healthy.frame (h : Healthy t) (he : t'.entries = t.entries)
    (ho : ∀ turnId, t'.openTurnId = some turnId → t.openTurnId = some turnId)
    (hc : t.turnCounter ≤ t'.turnCounter) : Healthy t' := by
  refine { cloned := ?_, opened := ?_, old := ?_ }
  · rw [he]
    exact h.cloned
  · rw [he]
    exact fun e hm hopen => h.opened e hm (ho _ hopen)
  · rw [he]
    intro e hm
    exact (h.old e hm).imp_right fun ⟨n, hn, hid⟩ => ⟨n, hn.trans hc, hid⟩

theorem Healthy.withEntries (h : Healthy t) {entries : List ThreadEntry}
    (hk : ∀ e' ∈ entries, ∃ e ∈ t.entries, KeepsEntry e e') : Healthy { t with entries } := by
  refine { cloned := fun e' he' => ?_, opened := fun e' he' hopen => ?_, old := fun e' he' => ?_ }
  all_goals obtain ⟨e, he, hk⟩ := hk e' he'
  · exact hk.cloned
  · rw [hk.turnId] at hopen
    exact hk.named (h.opened e he hopen)
  · rw [hk.turnId]
    exact (h.old e he).imp_left hk.named

theorem Healthy.push {entry : ThreadEntry} (h : Healthy t) (hc : Cloned entry.message)
    (hn : Named entry.message) : Healthy (t.push entry) := by
  have hm (e : ThreadEntry) (he : e ∈ (t.push entry).entries) : e ∈ t.entries ∨ e = entry :=
    (List.mem_append.mp he).imp_right List.mem_singleton.mp
  refine { cloned := fun e he => ?_, opened := fun e he hopen => ?_, old := fun e he => ?_ }
  all_goals rcases hm e he with he | rfl
  · exact h.cloned e he
  · exact hc
  · exact h.opened e he hopen
  · exact hn
  · exact h.old e he
  · exact .inl hn

theorem nextEntry_of_cloned (estimator : TokenEstimator) (t : ConversationThread) (turnId : String)
    (kind : ThreadEntryKind) {message : LlmMessage} (iteration toolSummary : Option Value)
    (hc : Cloned message) (hn : Named message) :
    ∃ entry, t.nextEntry estimator turnId kind message iteration toolSummary = some entry ∧
      Cloned entry.message ∧ Named entry.message := by
  obtain ⟨m, hm, ha, hcalls⟩ := cloneMessage_of_cloned hc
  obtain ⟨n, hest⟩ := estimateMessage_of_valid estimator hc.valid
  exact ⟨_, by rw [ConversationThread.nextEntry, hm, hest]; rfl, cloneMessage_cloned hc.valid hm,
    named_congr ha hcalls hn⟩

theorem appendEntry_of_cloned (h : Healthy t) (turnId : String) (kind : ThreadEntryKind)
    {message : LlmMessage} (hc : Cloned message) (hn : Named message) :
    ∃ t', t.appendEntry E turnId kind message = some t' ∧ Healthy t' := by
  obtain ⟨entry, he, hc, hn⟩ := nextEntry_of_cloned E t turnId kind none none hc hn
  exact ⟨t.push entry, by rw [ConversationThread.appendEntry, he]; rfl, h.push hc hn⟩

theorem safe_appendEntry (h : Healthy t) (turnId : String) (kind : ThreadEntryKind)
    {message : LlmMessage} (hc : Cloned message) (hn : Named message) :
    Safe (orTypeError (t.appendEntry E turnId kind message)) := by
  obtain ⟨t', he, ht'⟩ := appendEntry_of_cloned (E := E) h turnId kind hc hn
  rw [he]
  exact ht'

theorem safe_abortTurn (h : Healthy t) (reason : String) : Safe (t.abortTurn E reason) := by
  rw [ConversationThread.abortTurn]
  split
  · nofun
  · next turnId _ =>
    obtain ⟨t', he, ht'⟩ := appendEntry_of_cloned (E := E) h turnId .notice
      (cloned_user _) (named_of_none rfl)
    rw [noticeMessage, he]
    exact ht'.frame rfl (fun _ h => nomatch h) le_rfl

theorem safe_beginTurn (h : Healthy t) (userInput : String) : Safe (t.beginTurn E userInput) := by
  rw [ConversationThread.beginTurn]
  split
  · nofun
  · refine safe_appendEntry ?_ _ _ (cloned_user _) (named_of_none rfl)
    refine { cloned := h.cloned, opened := fun e he hopen => ?_, old := fun e he => ?_ }
    · rcases h.old e he with hn | ⟨n, hn, hid⟩
      · exact hn
      · -- the new name is not one of an entry that is there
        rw [hid] at hopen
        have := turnName_injective (Option.some.inj hopen)
        omega
    · exact (h.old e he).imp_right fun ⟨n, hn, hid⟩ => ⟨n, Nat.le_succ_of_le hn, hid⟩

theorem safe_interruptTurn (h : Healthy t) (reason : String) :
    Safe (t.interruptTurn E reason) := by
  rw [ConversationThread.interruptTurn]
  split
  · nofun
  · next turnId hopen =>
    obtain ⟨entries, he, -, hk⟩ := removeUnmatchedLoop_of_named (E := E)
      (resultIds t.entries turnId) turnId h.cloned
      (fun e he hturn => h.opened e he (by rw [hopen, hturn]))
    rw [ConversationThread.removeUnmatchedToolCalls, he]
    exact safe_abortTurn (h.withEntries hk) reason

theorem named_calls (content : String) (toolCalls : List LlmToolCall) :
    Named { role := some (.str "assistant")
            content := some (.str content)
            toolCalls := if toolCalls.isEmpty then none else some (.arr (toolCalls.map LlmToolCall.value)) } := by
  intro _ items hi
  change (if _ then none else some _) = _ at hi
  split at hi
  · cases hi
  · cases hi
    rw [List.any_map, List.any_eq_false]
    exact fun call _ => Bool.false_ne_true

theorem safe_appendAssistant (h : Healthy t) (content : String) (toolCalls : List LlmToolCall) :
    Safe (t.appendAssistant E content toolCalls) := by
  rw [ConversationThread.appendAssistant]
  split
  · nofun
  · refine safe_appendEntry h _ _ { valid := rfl, calls := fun v hv => ?_ } (named_calls content toolCalls)
    change (if _ then none else some _) = _ at hv
    split at hv
    · cases hv
    · exact ⟨_, (Option.some.inj hv).symm⟩

theorem safe_appendToolResult (h : Healthy t) (result : ToolResult) :
    Safe (t.appendToolResult E result) := by
  rw [ConversationThread.appendToolResult]
  split
  · nofun
  · next turnId _ =>
    obtain ⟨entry, he, hc, hn⟩ := nextEntry_of_cloned E t turnId .toolResult
      (some (.num (result.iteration.getD t.currentIteration))) (result.summary.map Value.str)
      (cloned_tool (isString_iff.mpr ⟨result.content, rfl⟩) (isString_iff.mpr ⟨result.toolCallId, rfl⟩)
        (isString_iff.mpr ⟨result.name, rfl⟩)) (named_of_none rfl)
    rw [he]
    exact h.push hc hn

theorem Healthy.ensureTurn (h : Healthy t) (turnId : String) : Healthy (t.ensureTurn turnId) := by
  rw [ConversationThread.ensureTurn]
  split
  · exact h
  · exact h.frame rfl (fun _ h => h) le_rfl

theorem safe_addCompaction (h : Healthy t) (summary : String) (turnId : Option String) :
    Safe (t.addCompaction E summary turnId) := by
  cases turnId with
  | some turnId => exact safe_appendEntry (h.ensureTurn turnId) _ _ (cloned_user _) (named_of_none rfl)
  | none =>
      have hc : Healthy { t with turnCounter := t.turnCounter + 1 } :=
        h.frame rfl (fun _ h => h) (Nat.le_succ _)
      exact safe_appendEntry (hc.ensureTurn _) _ _ (cloned_user _) (named_of_none rfl)

theorem addNotice?_of_healthy (h : Healthy t) (content : String) :
    ∃ t', t.addNotice? E content = some t' ∧ Healthy t' := by
  rw [ConversationThread.addNotice?]
  cases hopen : t.openTurnId with
  | some turnId => exact appendEntry_of_cloned (h.ensureTurn turnId) _ _ (cloned_user _) (named_of_none rfl)
  | none =>
      have hc : Healthy { t with openTurnId := none, turnCounter := t.turnCounter + 1 } :=
        h.frame rfl (fun _ h => nomatch h) (Nat.le_succ _)
      exact appendEntry_of_cloned (hc.ensureTurn _) _ _ (cloned_user _) (named_of_none rfl)

theorem safe_addNotice (h : Healthy t) (content : String) : Safe (t.addNotice E content) := by
  obtain ⟨t', he, ht'⟩ := addNotice?_of_healthy (E := E) h content
  rw [ConversationThread.addNotice, he]
  exact ht'

theorem Healthy.removeTurnEntries (h : Healthy t) (turnIds : List String) :
    Healthy (t.removeTurnEntries turnIds) := by
  have hk : ∀ e' ∈ t.entries.filter (fun e => !turnIds.contains e.turnId), ∃ e ∈ t.entries,
      KeepsEntry e e' := fun e' he' =>
    ⟨e', List.mem_of_mem_filter he', .refl (h.cloned e' (List.mem_of_mem_filter he'))⟩
  refine (h.withEntries hk).frame rfl (fun turnId hopen => ?_) le_rfl
  exact (Option.filter_eq_some_iff.mp hopen).1

theorem safe_replacePrefixWithCompaction (h : Healthy t) (entryCount : Int) (summary : String) :
    Safe (t.replacePrefixWithCompaction E entryCount summary) := by
  have hc : Cloned (compactionMessage summary) := cloned_user _
  obtain ⟨n, hn⟩ := estimateMessage_of_valid E hc.valid
  rw [ConversationThread.replacePrefixWithCompaction]
  dsimp only
  split
  · exact h
  · rw [hn]
    have hm {e : ThreadEntry} {count : Nat} (he : e ∈ t.entries.drop count) : e ∈ t.entries :=
      List.mem_of_mem_drop he
    refine { cloned := fun e he => ?_, opened := fun e he hopen => ?_, old := fun e he => ?_ }
    all_goals rcases List.mem_cons.mp he with rfl | he
    · exact hc
    · exact h.cloned e (hm he)
    · exact named_of_none rfl
    · exact h.opened e (hm he) hopen
    · exact .inl (named_of_none rfl)
    · exact (h.old e (hm he)).imp_right fun ⟨n, hn, hid⟩ => ⟨n, Nat.le_succ_of_le hn, hid⟩

theorem safe_updateEntry (h : Healthy t) {entryId : String} {f : ThreadEntry → Option ThreadEntry}
    (hf : ∀ e ∈ t.entries, ∃ e', f e = some e' ∧ KeepsEntry e e') :
    Safe (orTypeError ((ConversationThread.updateEntry entryId f t.entries).map fun entries =>
      { t with entries })) := by
  obtain ⟨entries, he, hk⟩ := updateEntry_keeps entryId h.cloned hf
  rw [he]
  exact h.withEntries hk

theorem safe_reestimateTokens (h : Healthy t) : Safe (t.reestimateTokens E) := by
  obtain ⟨entries, he, hk⟩ := mapM_keeps (f := ConversationThread.reestimate E)
    (fun e he => reestimate_of_cloned (h.cloned e he))
  rw [ConversationThread.reestimateTokens, he]
  exact h.withEntries hk

theorem buildMessages_of_healthy (h : Healthy t) : ∃ messages, t.buildMessages = .ok messages := by
  obtain ⟨messages, he⟩ := exists_mapM (l := t.entries) (f := fun e => cloneMessage e.message)
    (fun e he => (cloneMessage_of_cloned (h.cloned e he)).imp fun _ h => h.1)
  exact ⟨messages, by rw [ConversationThread.buildMessages, he]; rfl⟩

theorem exportState_of_healthy (h : Healthy t) : ∃ state, t.exportState = .ok state := by
  obtain ⟨entries, he⟩ := exists_mapM (l := t.entries) (f := ConversationThread.exportEntry) fun e he => by
    obtain ⟨m, hm, -⟩ := cloneMessage_of_cloned (h.cloned e he)
    exact ⟨_, by rw [ConversationThread.exportEntry, hm]; rfl⟩
  exact ⟨_, by rw [ConversationThread.exportState, he]; rfl⟩

theorem Healthy.run (h : Healthy t) (step : Step) : Safe (step.run t) := by
  rw [Step.run]
  cases step.operation with
  | beginTurn userInput => exact safe_beginTurn h userInput
  | commitTurn =>
      change Safe (ConversationThread.commitTurn t)
      rw [ConversationThread.commitTurn]
      split
      · nofun
      · exact h.frame rfl (fun _ h => nomatch h) le_rfl
  | abortTurn reason => exact safe_abortTurn h reason
  | interruptTurn reason => exact safe_interruptTurn h reason
  | appendAssistant content toolCalls => exact safe_appendAssistant h content toolCalls
  | appendToolResult result => exact safe_appendToolResult h result
  | addCompaction summary turnId => exact safe_addCompaction h summary turnId
  | addNotice content => exact safe_addNotice h content
  | removeTurnEntries turnIds => exact h.removeTurnEntries turnIds
  | replacePrefixWithCompaction entryCount summary =>
      exact safe_replacePrefixWithCompaction h entryCount summary
  | elideToolResult entryId content =>
      exact safe_updateEntry h fun e he => elide_of_cloned (h.cloned e he)
  | truncateEntry entryId content =>
      exact safe_updateEntry h fun e he => truncated_of_cloned (h.cloned e he)
  | reestimateTokens => exact safe_reestimateTokens h
  | setCurrentIteration iteration => exact h.frame rfl (fun _ h => h) le_rfl
  | buildMessages =>
      obtain ⟨messages, he⟩ := buildMessages_of_healthy h
      change Safe (t.buildMessages.map _)
      rw [he]
      exact h
  | exportState =>
      obtain ⟨state, he⟩ := exportState_of_healthy h
      change Safe (t.exportState.map _)
      rw [he]
      exact h

theorem Healthy.next (h : Healthy t) (step : Step) : Healthy (next t step) := by
  have hs := h.run step
  rw [Saved.next]
  split
  · next he =>
    rw [he] at hs
    exact hs
  · exact h

/-- No operation of any later run throws a TypeError. -/
theorem Healthy.along (h : Healthy t) (steps : List Step) :
    Run.Along Saved.next (fun t step => step.run t ≠ .error .typeError) t steps := by
  refine ((Run.along_of_forall (P := fun _ _ => True) fun _ _ => trivial).keeping
    (fun t step _ h => h.next step) h).mono fun t step hs he => ?_
  have := hs.2.run step
  rw [he] at this
  exact this rfl

end Threads

end Kross.Context.Saved

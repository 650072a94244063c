import Kross.Context.Selection
import Kross.Context.ThreadRestore
import Kross.Contiguous

namespace Kross.Context

open ConversationThread Run Contiguous

section Ordered

/-- The name of a turn, of a notice or of a compaction. -/
def TurnName (turnId : String) (n : Nat) : Prop :=
  turnId = turnName n ∨ turnId = "notice-" ++ turnName n ∨ turnId = "compaction-" ++ turnName n

theorem TurnName.injective {turnId : String} {m n : Nat} (hm : TurnName turnId m) (hn : TurnName turnId n) : m = n := by
  have hnotice : ∀ a b, turnName a ≠ "notice-" ++ turnName b := fun a b => noticeName_ne b a
  have hcompaction : ∀ a b, turnName a ≠ "compaction-" ++ turnName b := fun a b => compactionName_ne b a
  have hother : ∀ a b, "notice-" ++ turnName a ≠ "compaction-" ++ turnName b := by
    intro a b h
    have hc := congrArg (fun s => s.toList.head?) h
    simp at hc
  rcases hm with rfl | rfl | rfl
  · rcases hn with h | h | h
    · exact turnName_injective h
    · exact absurd h (hnotice _ _)
    · exact absurd h (hcompaction _ _)
  · rcases hn with h | h | h
    · exact absurd h.symm (hnotice _ _)
    · exact turnName_injective ((String.append_right_inj _).mp h)
    · exact absurd h (hother _ _)
  · rcases hn with h | h | h
    · exact absurd h.symm (hcompaction _ _)
    · exact absurd h.symm (hother _ _)
    · exact turnName_injective ((String.append_right_inj _).mp h)

def turnIds (t : ConversationThread) : List String := t.entries.map ThreadEntry.turnId

/-- The entries of a turn stand together, those of the open turn at the end. -/
structure Ordered (t : ConversationThread) : Prop where
  contiguous : Contiguous (turnIds t)
  last : ∀ turnId, t.openTurnId = some turnId → turnId ∈ turnIds t → (turnIds t).getLast? = some turnId
  named : ∀ turnId ∈ t.turns.map TurnInfo.id, ∃ n ≤ t.turnCounter, TurnName turnId n

variable {t u : ConversationThread} {estimateMessage : LlmMessage → Nat} {turnId : String} {n : Nat}

theorem ordered_new (entryCounter turnCounter : Nat) : Ordered (.new entryCounter turnCounter) :=
  ⟨trivial, nofun, nofun⟩

/-- The next name is new. -/
theorem Ordered.unused (h : Ordered t) (hn : t.turnCounter < n) (hname : TurnName turnId n) :
    turnId ∉ t.turns.map TurnInfo.id := by
  intro hmem
  obtain ⟨m, hm, hname'⟩ := h.named turnId hmem
  have heq := hname.injective hname'
  omega

/-- Every entry belongs to a turn of the map. -/
def Housed (t : ConversationThread) : Prop := ∀ turnId ∈ turnIds t, turnId ∈ t.turns.map TurnInfo.id

theorem housed_of_entryIn (h : ∀ e ∈ t.entries, EntryIn t.turns e) : Housed t := by
  intro turnId hmem
  obtain ⟨e, he, rfl⟩ := List.mem_map.mp hmem
  exact (h e he).1

theorem Valid.housed (hv : Valid t) : Housed t := housed_of_entryIn hv.entries

/-- What is added belongs to the open turn, or to a new one while there is none open. -/
theorem Ordered.push (h : Ordered t) (e : ThreadEntry) (hopen : ∀ turnId, t.openTurnId = some turnId → turnId = e.turnId)
    (hnew : t.openTurnId = none → e.turnId ∈ turnIds t → (turnIds t).getLast? = some e.turnId) : Ordered (t.push e) := by
  have hids : turnIds (t.push e) = turnIds t ++ [e.turnId] := by
    rw [turnIds, ConversationThread.push]
    simp [turnIds]
  refine ⟨?_, fun turnId ho _ => ?_, h.named⟩
  · rw [hids]
    refine h.contiguous.concat (fun hmem => ?_)
    cases ho : t.openTurnId with
    | none => exact hnew ho hmem
    | some turnId =>
        cases hopen turnId ho
        exact h.last e.turnId ho hmem
  · rw [hids, List.getLast?_concat, hopen turnId ho]

theorem Ordered.pushOpen (h : Ordered t) {e : ThreadEntry} (ho : t.openTurnId = some e.turnId) : Ordered (t.push e) := by
  refine h.push e (fun turnId ho' => ?_) (fun hnone => ?_)
  · rw [ho] at ho'
    exact (Option.some.inj ho').symm
  · rw [ho] at hnone
    cases hnone

/-- The ids of the entries and of the open turn decide. -/
theorem Ordered.of_ids (h : Ordered t) (hids : turnIds u = turnIds t)
    (hopen : ∀ turnId, u.openTurnId = some turnId → t.openTurnId = some turnId)
    (hturns : ∀ turnId ∈ u.turns.map TurnInfo.id, turnId ∈ t.turns.map TurnInfo.id)
    (hcounter : t.turnCounter ≤ u.turnCounter) : Ordered u := by
  refine ⟨by rw [hids]; exact h.contiguous, fun turnId ho hmem => ?_, fun turnId hmem => ?_⟩
  · rw [hids] at hmem ⊢
    exact h.last turnId (hopen turnId ho) hmem
  · obtain ⟨n, hn, hname⟩ := h.named turnId (hturns turnId hmem)
    exact ⟨n, hn.trans hcounter, hname⟩

/-- A new turn takes the next name. -/
theorem Ordered.newTurn (h : Ordered t) (hv : Housed t) (turn : TurnInfo) (hname : TurnName turn.id (t.turnCounter + 1))
    (openTurnId : Option String) (hopen : ∀ turnId, openTurnId = some turnId → turnId = turn.id) :
    Ordered { t with turns := setTurn t.turns turn, turnCounter := t.turnCounter + 1, openTurnId } := by
  have hunused := h.unused (Nat.lt_succ_self _) hname
  refine ⟨h.contiguous, fun turnId ho hmem => ?_, fun turnId hmem => ?_⟩
  · rw [hopen turnId ho] at hmem
    exact absurd (hv _ hmem) hunused
  · rw [setTurn_ids] at hmem
    split_ifs at hmem with hhas
    · exact absurd (hasTurn_iff.mp hhas) hunused
    · rcases List.mem_append.mp hmem with hmem | hmem
      · obtain ⟨n, hn, hname'⟩ := h.named turnId hmem
        exact ⟨n, hn.trans (Nat.le_succ _), hname'⟩
      · rw [List.mem_singleton.mp hmem]
        exact ⟨_, le_rfl, hname⟩

theorem Housed.unused (hv : Housed t) (h : Ordered t) (hname : TurnName turnId (t.turnCounter + 1)) :
    turnId ∉ turnIds t := fun hmem => h.unused (Nat.lt_succ_self _) hname (hv turnId hmem)

end Ordered

section Operations

variable {t u : ConversationThread} {estimateMessage : LlmMessage → Nat} {turnId : String}

theorem ensureTurn_new (hid : turnId ∉ t.turns.map TurnInfo.id) :
    t.ensureTurn turnId = { t with turns := setTurn t.turns { id := turnId, status := .committed } } := by
  rw [ensureTurn_eq, if_neg (fun hhas => hid (hasTurn_iff.mp hhas))]

theorem ensureTurn_old (hid : turnId ∈ t.turns.map TurnInfo.id) : t.ensureTurn turnId = t := by
  rw [ensureTurn_eq, if_pos (hasTurn_iff.mpr hid)]

/-- While no turn is open, an entry begins a turn of its own. -/
theorem Ordered.pushNew (h : Ordered t) (hv : Housed t) (ho : t.openTurnId = none) (status : TurnStatus) (e : ThreadEntry)
    (hname : TurnName e.turnId (t.turnCounter + 1)) :
    Ordered (({ t with
      turns := setTurn t.turns { id := e.turnId, status }, turnCounter := t.turnCounter + 1 } : ConversationThread).push e) := by
  have hnew : Ordered { t with
      turns := setTurn t.turns { id := e.turnId, status }, turnCounter := t.turnCounter + 1, openTurnId := t.openTurnId } :=
    h.newTurn hv { id := e.turnId, status } hname _ (fun turnId hturn => by rw [ho] at hturn; cases hturn)
  exact hnew.push e (fun turnId hturn => by rw [ho] at hturn; cases hturn)
    (fun _ hmem => absurd hmem (hv.unused h hname))

theorem Ordered.beginTurn (h : Ordered t) (hv : Valid t) {userInput : Text}
    (hu : t.beginTurn estimateMessage userInput = .ok u) : Ordered u := by
  rw [ConversationThread.beginTurn] at hu
  split_ifs at hu
  cases hu
  have hopened := h.newTurn hv.housed { id := turnName (t.turnCounter + 1), status := .open } (Or.inl rfl)
    (some (turnName (t.turnCounter + 1))) (fun _ hturn => (Option.some.inj hturn).symm)
  exact hopened.pushOpen rfl

theorem Ordered.closing (h : Ordered t) (status : TurnStatus) (turnId : String) :
    Ordered { t with turns := setStatus t.turns turnId status, openTurnId := none } :=
  h.of_ids rfl nofun (fun _ hmem => by rwa [setStatus_ids] at hmem) le_rfl

theorem Ordered.abortTurn (h : Ordered t) {reason : Text} (hu : t.abortTurn estimateMessage reason = .ok u) : Ordered u := by
  rw [ConversationThread.abortTurn] at hu
  split at hu
  · cases hu
  · rename_i turnId ho
    cases hu
    exact (h.pushOpen ho).closing _ _

theorem turnIds_removeUnmatched (entries : List ThreadEntry) (turnId : String) :
    (removeUnmatchedToolCalls estimateMessage entries turnId).map ThreadEntry.turnId = entries.map ThreadEntry.turnId := by
  rw [removeUnmatched_eq, List.map_map]
  exact List.map_congr_left (fun e _ => trimmed_turnId _ _ e)

theorem Ordered.removeUnmatched (h : Ordered t) (turnId : String) :
    Ordered { t with entries := removeUnmatchedToolCalls estimateMessage t.entries turnId } :=
  h.of_ids (turnIds_removeUnmatched t.entries turnId) (fun _ ho => ho) (fun _ hmem => hmem) le_rfl

theorem Ordered.interruptTurn (h : Ordered t) {reason : Text} (hu : t.interruptTurn estimateMessage reason = .ok u) :
    Ordered u := by
  rw [ConversationThread.interruptTurn] at hu
  split at hu
  · cases hu
  · exact (h.removeUnmatched _).abortTurn hu

theorem Ordered.addNoticeClosed (h : Ordered t) (hv : Housed t) (ho : t.openTurnId = none) (content : Text) :
    Ordered (t.addNotice estimateMessage content) := by
  have hname : TurnName ("notice-" ++ turnName (t.turnCounter + 1)) (t.turnCounter + 1) := Or.inr (Or.inl rfl)
  have hnew := h.pushNew hv ho .committed
    (({ t with turnCounter := t.turnCounter + 1 } : ConversationThread).nextEntry estimateMessage
      ("notice-" ++ turnName (t.turnCounter + 1)) .notice (noticeMessage content) none none) hname
  rw [addNotice_closed ho, ensureTurn_new (t := { t with turnCounter := t.turnCounter + 1 }) (h.unused (Nat.lt_succ_self _) hname)]
  exact hnew

theorem Ordered.addNotice (h : Ordered t) (hv : Valid t) (content : Text) : Ordered (t.addNotice estimateMessage content) := by
  cases ho : t.openTurnId with
  | some turnId =>
      rw [addNotice_open ho, ensureTurn_old (hv.openTurn turnId ho).1]
      exact h.pushOpen ho
  | none => exact h.addNoticeClosed hv.housed ho content

theorem Ordered.addCompaction (h : Ordered t) (hv : Valid t) (ho : t.openTurnId = none) (summary : Text) :
    Ordered (t.addCompaction estimateMessage summary none) := by
  have hname : TurnName ("compaction-" ++ turnName (t.turnCounter + 1)) (t.turnCounter + 1) := Or.inr (Or.inr rfl)
  have hnew := h.pushNew hv.housed ho .committed
    (({ t with turnCounter := t.turnCounter + 1 } : ConversationThread).nextEntry estimateMessage
      ("compaction-" ++ turnName (t.turnCounter + 1)) .compaction (compactionMessage summary) none none) hname
  rw [ConversationThread.addCompaction, ensureTurn_new (t := { t with turnCounter := t.turnCounter + 1 }) (h.unused (Nat.lt_succ_self _) hname)]
  exact hnew

theorem turnIds_updateEntry (entryId : String) {f : ThreadEntry → ThreadEntry} (hf : ∀ e, (f e).turnId = e.turnId)
    (entries : List ThreadEntry) :
    (updateEntry entryId f entries).map ThreadEntry.turnId = entries.map ThreadEntry.turnId := by
  induction entries with
  | nil => rfl
  | cons e entries ih =>
      rw [updateEntry]
      split_ifs
      · rw [List.map_cons, List.map_cons, hf]
      · rw [List.map_cons, List.map_cons, ih]

theorem Ordered.update (h : Ordered t) (entryId : String) {f : ThreadEntry → ThreadEntry} (hf : ∀ e, (f e).turnId = e.turnId) :
    Ordered { t with entries := updateEntry entryId f t.entries } :=
  h.of_ids (turnIds_updateEntry entryId hf t.entries) (fun _ ho => ho) (fun _ hmem => hmem) le_rfl

theorem elided_turnId (content : Text) (e : ThreadEntry) : (elided estimateMessage content e).turnId = e.turnId := by
  rw [elided]
  split <;> rfl

theorem Ordered.reestimateTokens (h : Ordered t) : Ordered (t.reestimateTokens estimateMessage) := by
  refine h.of_ids ?_ (fun _ ho => ho) (fun _ hmem => hmem) le_rfl
  rw [turnIds, ConversationThread.reestimateTokens, List.map_map]
  refine List.map_congr_left (fun e _ => ?_)
  simp only [Function.comp_apply, reestimated]
  split_ifs <;> rfl

theorem Ordered.restoreMessages {r : Restored} (messages : List (Role × Text)) (h : Ordered r.thread) (hv : Valid r.thread)
    (ho : r.thread.openTurnId = none) : Ordered (restoreMessages estimateMessage r messages).thread := by
  have hadd {t : ConversationThread} (h : Ordered t) (hv : Valid t) (ho : t.openTurnId = none) (content : Text) :
      Ordered ((t.addTurn { id := turnName (t.turnCounter + 1), status := .committed }).appendEntry estimateMessage
        (turnName (t.turnCounter + 1)) .user (.chat .user content none)) ∧
      Valid ((t.addTurn { id := turnName (t.turnCounter + 1), status := .committed }).appendEntry estimateMessage
        (turnName (t.turnCounter + 1)) .user (.chat .user content none)) := by
    have hne : t.openTurnId ≠ some (turnName (t.turnCounter + 1)) := by simp [ho]
    have hcommitted := (hv.committed hne).counters t.entryCounter (t.turnCounter + 1)
    refine ⟨h.pushNew hv.housed ho .committed ((t.addTurn { id := turnName (t.turnCounter + 1), status := .committed }).nextEntry
      estimateMessage (turnName (t.turnCounter + 1)) .user (.chat .user content none) none none) (Or.inl rfl), ?_⟩
    exact hcommitted.push ⟨mem_setTurn_ids (Or.inr rfl), rfl⟩
  fun_induction ConversationThread.restoreMessages with
  | case1 r => exact h
  | case2 r content messages hm ih =>
      exact ih (h.addCompaction hv ho _) (hv.addCompaction (extractCompactionBody content) none)
        ((addCompaction_openTurnId ..).trans ho)
  | case3 r content messages hm ih => exact ih h hv ho
  | case4 r content turnId t more answer messages hm ih =>
      obtain ⟨hordered, hvalid⟩ := hadd h hv ho content
      exact ih hordered hvalid ho
  | case5 r content turnId t more answer messages hm ih =>
      obtain ⟨hordered, hvalid⟩ := hadd h hv ho content
      refine ih (hordered.push _ (fun turnId hturn => ?_) (fun _ _ => ?_)) (hvalid.push ⟨mem_setTurn_ids (Or.inr rfl), rfl⟩) ho
      · exact absurd hturn (by rw [show t.openTurnId = none from ho]; rintro ⟨⟩)
      · simp only [turnIds, t, ConversationThread.appendEntry, ConversationThread.push, List.map_append, List.map_cons,
          List.map_nil, List.getLast?_concat]
        rfl
  | case6 r content turnId t more messages hm ih =>
      obtain ⟨hordered, hvalid⟩ := hadd h hv ho content
      exact ih hordered hvalid ho
  | case7 r content messages ih => exact ih h hv ho

end Operations

section Restored

variable {t v w : ConversationThread} {f : String → String} {k : Bool} {estimateMessage : LlmMessage → Nat}

theorem Refilled.turnIds_eq (h : Refilled f k w.exportState v) : turnIds v = (turnIds w).map f := by
  have hids := congrArg (List.map SerializedThreadEntry.turnId) h.saved
  rw [List.map_map, List.map_map] at hids
  rw [turnIds, turnIds, List.map_map]
  exact hids

theorem Refilled.ids (h : Refilled f k w.exportState v) : v.turns.map TurnInfo.id = (w.turns.map TurnInfo.id).map f := by
  rw [h.turns, List.map_map, List.map_map]
  rfl

/-- Before its open turn is treated, a restored thread has the order of the saved one. -/
theorem Refilled.ordered (h : Refilled f k w.exportState v) (hw : Ordered w) (hv : Housed w)
    (hf : ∀ a ∈ w.turns.map TurnInfo.id, ∀ b ∈ w.turns.map TurnInfo.id, f a = f b → a = b)
    (hnames : ∀ a ∈ w.turns.map TurnInfo.id, ∃ n ≤ v.turnCounter, f a = turnName n) : Ordered v := by
  refine ⟨?_, fun turnId ho => ?_, fun turnId hmem => ?_⟩
  · rw [h.turnIds_eq]
    exact hw.contiguous.map (fun a ha b hb => hf a (hv a ha) b (hv b hb))
  · rw [h.openTurnId] at ho
    cases ho
  · rw [h.ids] at hmem
    obtain ⟨a, ha, rfl⟩ := List.mem_map.mp hmem
    obtain ⟨n, hn, hname⟩ := hnames a ha
    exact ⟨n, hn, Or.inl hname⟩

theorem Refilled.ordered_settle (h : Refilled f k w.exportState v) (hw : Ordered w) (hvalid : Valid w)
    (hf : ∀ a ∈ w.turns.map TurnInfo.id, ∀ b ∈ w.turns.map TurnInfo.id, f a = f b → a = b) (hv : Ordered v) :
    Ordered (settleOpenTurn estimateMessage k v (w.openTurnId.map f)) := by
  cases ho : w.openTurnId with
  | none => exact hv
  | some turnId =>
      rw [Option.map_some, settleOpenTurn]
      split_ifs
      · refine ⟨hv.contiguous, fun id hid hmem => ?_, hv.named⟩
        cases hid
        change f turnId ∈ turnIds v at hmem
        change (turnIds v).getLast? = some (f turnId)
        rw [h.turnIds_eq] at hmem ⊢
        obtain ⟨a, ha, haf⟩ := List.mem_map.mp hmem
        have haeq := hf a (hvalid.housed a ha) turnId (hvalid.openTurn turnId ho).1 haf
        subst haeq
        rw [List.getLast?_map, hw.last a ho ha]
        rfl
      · refine (hv.removeUnmatched (f turnId)).addNoticeClosed ?_ h.openTurnId _
        intro id hmem
        rw [turnIds, turnIds_removeUnmatched, ← turnIds, h.turnIds_eq] at hmem
        obtain ⟨a, ha, rfl⟩ := List.mem_map.mp hmem
        change f a ∈ v.turns.map TurnInfo.id
        rw [h.ids]
        exact List.mem_map_of_mem (hvalid.housed a ha)

theorem Ordered.restored (hw : Ordered w) (hv : Valid w) (t : ConversationThread) (k : Bool) :
    Ordered (t.restoreState estimateMessage w.exportState k).2 := by
  obtain ⟨v, hr, hcounter, he⟩ := restoreState_eq estimateMessage k hv.check hv.names t
  rw [he]
  have hinjective : ∀ a ∈ w.turns.map TurnInfo.id, ∀ b ∈ w.turns.map TurnInfo.id,
      namesOf k t.turnCounter w.turns a = namesOf k t.turnCounter w.turns b → a = b :=
    fun a ha b hb => namesOf_injective k _ hv.names ha hb
  have hordered : Ordered v := hr.ordered hw hv.housed hinjective (fun a ha => by
    obtain ⟨p, hp, -, hpn, -⟩ := exists_renamed k t.turnCounter hv.names ha
    obtain ⟨n, -, hn, hid⟩ := renamedTurns_new _ _ hp
    exact ⟨n, by rw [hcounter]; exact hn, hpn.symm.trans hid⟩)
  exact (hr.ordered_settle hw hv hinjective hordered).of_ids rfl (fun _ ho => ho) (fun _ hmem => hmem) le_rfl

end Restored

section Replaced

variable {t : ConversationThread} {estimateMessage : LlmMessage → Nat}

/-- What a compaction of `n` entries leaves. -/
theorem replacePrefix_eq (t : ConversationThread) {n : Nat} (hn : 0 < n) (hlength : n ≤ t.entries.length) (summary : Text) :
    ∃ entry, entry.kind = .compaction ∧ entry.turnId = "compaction-" ++ turnName (t.turnCounter + 1) ∧
      entry.message = compactionMessage summary ∧
      t.replacePrefixWithCompaction estimateMessage n summary = { t with
        entries := entry :: t.entries.drop n
        turns := setTurn (t.turns.filter (fun turn => !((t.entries.take n).any (fun e => e.turnId = turn.id) &&
          !(t.entries.drop n).any (fun e => e.turnId = turn.id)))) { id := entry.turnId, status := .committed }
        entryCounter := t.entryCounter + 1
        turnCounter := t.turnCounter + 1 } := by
  refine ⟨t.nextEntry estimateMessage ("compaction-" ++ turnName (t.turnCounter + 1)) .compaction (compactionMessage summary)
    none none, rfl, rfl, rfl, ?_⟩
  rw [replacePrefixWithCompaction, Int.toNat_natCast, Nat.min_eq_left hlength, if_neg (by omega)]
  rfl

theorem Ordered.replacePrefix (h : Ordered t) (hv : Valid t) {n : Nat} (hn : 0 < n) (hlength : n ≤ t.entries.length)
    (summary : Text) : Ordered (t.replacePrefixWithCompaction estimateMessage n summary) := by
  obtain ⟨entry, -, hid, -, heq⟩ := replacePrefix_eq t hn hlength summary
  have hname : TurnName entry.turnId (t.turnCounter + 1) := Or.inr (Or.inr hid)
  have hnew : entry.turnId ∉ t.turns.map TurnInfo.id := h.unused (Nat.lt_succ_self _) hname
  have hdrop : (t.entries.drop n).map ThreadEntry.turnId = (turnIds t).drop n := List.map_drop
  have hrest : ∀ turnId ∈ (turnIds t).drop n, turnId ∈ turnIds t := fun _ hmem => List.mem_of_mem_drop hmem
  have hids : turnIds (t.replacePrefixWithCompaction estimateMessage n summary) = entry.turnId :: (turnIds t).drop n := by
    rw [heq, turnIds, List.map_cons, hdrop]
  refine ⟨?_, fun turnId ho hmem => ?_, fun turnId hmem => ?_⟩
  · rw [hids]
    exact (h.contiguous.drop n).cons_new (fun hmem => hnew (hv.housed _ (hrest _ hmem)))
  · rw [hids] at hmem ⊢
    rw [heq] at ho
    rcases List.mem_cons.mp hmem with rfl | hmem
    · exact absurd (hv.openTurn _ ho).1 hnew
    · have hlast := h.last turnId ho (hrest turnId hmem)
      have hshort : n < (turnIds t).length := by
        by_contra hle
        rw [List.drop_eq_nil_of_le (not_lt.mp hle)] at hmem
        cases hmem
      rw [List.getLast?_cons, getLast?_drop hshort, hlast]
      rfl
  · rw [heq] at hmem
    rw [heq]
    have hkept : ∀ id, id ∈ (t.turns.filter (fun turn => !((t.entries.take n).any (fun e => e.turnId = turn.id) &&
        !(t.entries.drop n).any (fun e => e.turnId = turn.id)))).map TurnInfo.id →
        ∃ m ≤ t.turnCounter + 1, TurnName id m := by
      intro id hid
      obtain ⟨turn, hturn, rfl⟩ := List.mem_map.mp hid
      obtain ⟨m, hm, hnamed⟩ := h.named turn.id (List.mem_map_of_mem (List.mem_of_mem_filter hturn))
      exact ⟨m, hm.trans (Nat.le_succ _), hnamed⟩
    rw [setTurn_ids] at hmem
    split_ifs at hmem
    · exact hkept turnId hmem
    · rcases List.mem_append.mp hmem with hmem | hmem
      · exact hkept turnId hmem
      · rw [List.mem_singleton.mp hmem]
        exact ⟨_, le_rfl, hname⟩

end Replaced

end Kross.Context

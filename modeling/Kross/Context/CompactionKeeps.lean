import Kross.Context.ThreadOrder

namespace Kross.Context

open ConversationThread Run Contiguous

section Runs

variable {t : ConversationThread} {r : EntryRange} {l : List ThreadEntry}

/-- A whole run of entries of one turn. -/
structure IsRun (l before run after : List ThreadEntry) (turnId : String) : Prop where
  split : l = before ++ run ++ after
  same : ∀ e ∈ run, e.turnId = turnId
  nonempty : run ≠ []
  begins : ∀ a, before.getLast? = some a → a.turnId ≠ turnId
  ends : ∀ b, after.head? = some b → b.turnId ≠ turnId

theorem isRun_head (e : ThreadEntry) (entries : List ThreadEntry) :
    IsRun (e :: entries) [] (e :: entries.takeWhile (fun d => d.turnId = e.turnId))
      (entries.dropWhile (fun d => d.turnId = e.turnId)) e.turnId where
  split := by rw [List.nil_append, List.cons_append, List.takeWhile_append_dropWhile]
  same d hd := by
    rcases List.mem_cons.mp hd with rfl | hd
    · rfl
    · simpa using List.mem_takeWhile_imp hd
  nonempty := by simp
  begins _ ha := by cases ha
  ends b hb := by
    have hfalse := List.head?_dropWhile_not (fun d => decide (d.turnId = e.turnId)) entries
    rw [hb] at hfalse
    simpa using hfalse

/-- A run behind a run that is not continued. -/
theorem IsRun.behind {first before run after : List ThreadEntry} {x turnId : String} (h : IsRun l before run after turnId)
    (hfirst : ∀ e ∈ first, e.turnId = x) (hends : ∀ b, l.head? = some b → b.turnId ≠ x) :
    IsRun (first ++ l) (first ++ before) run after turnId where
  split := by rw [h.split]; simp
  same := h.same
  nonempty := h.nonempty
  ends := h.ends
  begins a ha := by
    cases hbefore : before.getLast? with
    | some b =>
        rw [List.getLast?_append, hbefore] at ha
        cases ha
        exact h.begins _ hbefore
    | none =>
        rw [List.getLast?_eq_none_iff] at hbefore
        rw [hbefore, List.append_nil] at ha
        obtain ⟨e, run, rfl⟩ := List.exists_cons_of_ne_nil h.nonempty
        have hhead : l.head? = some e := by rw [h.split, hbefore]; rfl
        have hne := hends e hhead
        rw [h.same e List.mem_cons_self] at hne
        rw [hfirst a (List.mem_of_getLast? ha)]
        exact hne.symm

theorem mem_rangesFrom {fuel start : Nat} (h : r ∈ rangesFrom t fuel start l) : ∃ before run after,
    IsRun l before run after r.turnId ∧ r.start = start + before.length ∧ r.stop = r.start + run.length ∧
      some r.turnId ≠ t.openTurnId := by
  induction fuel generalizing start l with
  | zero =>
      rw [rangesFrom] at h
      cases h
  | succ fuel ih =>
      cases l with
      | nil =>
          rw [rangesFrom] at h
          cases h
          simp
      | cons e entries =>
          have hhead := isRun_head e entries
          have hrest : r ∈ rangesFrom t fuel (start + (e :: entries.takeWhile (fun d => d.turnId = e.turnId)).length)
              (entries.dropWhile (fun d => d.turnId = e.turnId)) → ∃ before run after,
              IsRun (e :: entries) before run after r.turnId ∧ r.start = start + before.length ∧
                r.stop = r.start + run.length ∧ some r.turnId ≠ t.openTurnId := by
            intro hmem
            obtain ⟨before, run, after, hrun, hstart, hstop, hopen⟩ := ih hmem
            have hbehind := hrun.behind hhead.same hhead.ends
            rw [← List.nil_append (e :: entries.takeWhile _), ← hhead.split] at hbehind
            refine ⟨_, run, after, hbehind, ?_, hstop, hopen⟩
            rw [hstart, List.nil_append, List.length_append, Nat.add_assoc]
          rw [rangesFrom] at h
          split_ifs at h with hclosed
          · rcases List.mem_cons.mp h with rfl | h
            · exact ⟨[], _, _, hhead, rfl, rfl, hclosed.1⟩
            · exact hrest h
          · exact hrest h

end Runs

section Cuts

variable {t : ConversationThread} {n : Nat}

/-- A turn is cut before an assistant entry only. -/
def SafeCut (l : List ThreadEntry) (n : Nat) : Prop :=
  ∀ a b, (l.take n).getLast? = some a → (l.drop n).head? = some b → a.turnId = b.turnId → b.kind = .assistant

theorem IsRun.safeCut_begin {l before run after : List ThreadEntry} {turnId : String} (h : IsRun l before run after turnId) :
    SafeCut l before.length := by
  intro a b ha hb hsame
  rw [h.split, List.append_assoc, List.take_left] at ha
  rw [h.split, List.append_assoc, List.drop_left] at hb
  obtain ⟨e, run, rfl⟩ := List.exists_cons_of_ne_nil h.nonempty
  cases hb
  exact absurd (hsame.trans (h.same _ List.mem_cons_self)) (h.begins a ha)

theorem IsRun.safeCut_end {l before run after : List ThreadEntry} {turnId : String} (h : IsRun l before run after turnId) :
    SafeCut l (before.length + run.length) := by
  intro a b ha hb hsame
  rw [h.split, ← List.length_append, List.take_left, List.getLast?_append] at ha
  rw [h.split, ← List.length_append, List.drop_left] at hb
  obtain ⟨e, he⟩ := Option.isSome_iff_exists.mp (List.getLast?_isSome.mpr h.nonempty)
  rw [he] at ha
  cases ha
  exact absurd (hsame.symm.trans (h.same _ (List.mem_of_getLast? he))) (h.ends b hb)

/-- A boundary that the choice of a prefix may give. -/
def Boundary (t : ConversationThread) (n : Nat) : Prop :=
  SafeCut t.entries n ∧ ∃ before run after turnId, IsRun t.entries before run after turnId ∧
    n ≤ before.length + run.length ∧ some turnId ≠ t.openTurnId

theorem boundary_range {r : EntryRange} (h : r ∈ getCompactableRanges t) : Boundary t r.start ∧ Boundary t r.stop := by
  obtain ⟨before, run, after, hrun, hstart, hstop, hopen⟩ := mem_rangesFrom h
  rw [Nat.zero_add] at hstart
  rw [hstop, hstart]
  exact ⟨⟨hrun.safeCut_begin, before, run, after, r.turnId, hrun, Nat.le_add_right _ _, hopen⟩,
    ⟨hrun.safeCut_end, before, run, after, r.turnId, hrun, le_rfl, hopen⟩⟩

theorem boundary_split {r : EntryRange} {tokenBudget : Nat} (h : r ∈ getCompactableRanges t)
    (hsplit : findSafeSuffixStart t.entries r tokenBudget = some n) : Boundary t n := by
  obtain ⟨before, run, after, hrun, hstart, hstop, hopen⟩ := mem_rangesFrom h
  have hassistant := List.find?_some hsplit
  have hrange := List.mem_range'_1.mp (List.mem_of_find?_eq_some hsplit)
  refine ⟨fun a b ha hb hsame => ?_, before, run, after, r.turnId, hrun, by omega, hopen⟩
  rw [List.head?_drop] at hb
  rw [hb] at hassistant
  simp only [Option.any_some, isAssistant, Bool.and_eq_true, decide_eq_true_eq] at hassistant
  exact hassistant.1.1

theorem boundary_automatic {tokenBudget retained boundary : Nat} {ranges : List EntryRange}
    (hranges : ∀ r ∈ ranges, r ∈ getCompactableRanges t) (hboundary : Boundary t boundary) :
    Boundary t (automaticBoundary t.entries tokenBudget retained boundary ranges) := by
  induction ranges generalizing retained boundary with
  | nil => exact hboundary
  | cons r ranges ih =>
      have hr := hranges r List.mem_cons_self
      rw [automaticBoundary]
      split_ifs
      · exact ih (fun r hmem => hranges r (List.mem_cons_of_mem _ hmem)) (boundary_range hr).1
      · cases hsplit : findSafeSuffixStart t.entries r tokenBudget with
        | none => exact (boundary_range hr).1
        | some n => exact boundary_split hr hsplit
      · exact (boundary_range hr).2

theorem selection_entryCount {entries : List ThreadEntry} {selection : CompactionSelection}
    (h : buildCompactionSelection entries n = some selection) : selection.entryCount = n ∧ 0 < n := by
  rw [buildCompactionSelection] at h
  dsimp only at h
  split_ifs at h with hzero
  cases h
  exact ⟨rfl, Nat.pos_of_ne_zero hzero⟩

theorem boundary_manual {preserveFullTurns : Nat} {selection : CompactionSelection}
    (h : selectManualPrefix t preserveFullTurns = some selection) :
    0 < selection.entryCount ∧ Boundary t selection.entryCount := by
  rw [selectManualPrefix] at h
  dsimp only at h
  split_ifs at h with hfew
  obtain ⟨hcount, hpos⟩ := selection_entryCount h
  rw [hcount]
  refine ⟨hpos, ?_⟩
  cases hget : (getCompactableRanges t)[(getCompactableRanges t).length - preserveFullTurns]? with
  | some r => exact (boundary_range (List.mem_of_getElem? hget)).1
  | none =>
      obtain ⟨r, hr⟩ : ∃ r, (getCompactableRanges t).getLast? = some r :=
        Option.isSome_iff_exists.mp (List.getLast?_isSome.mpr (by rintro hnil; rw [hnil] at hfew; simp at hfew))
      rw [hr]
      exact (boundary_range (List.mem_of_getLast? hr)).2

theorem boundary_selectAutomatic {preserveRecentTokens : Nat} {selection : CompactionSelection}
    (h : selectAutomaticPrefix t preserveRecentTokens = some selection) :
    0 < selection.entryCount ∧ Boundary t selection.entryCount := by
  rw [selectAutomaticPrefix] at h
  split at h
  · cases h
  · rename_i last hlast
    obtain ⟨hcount, hpos⟩ := selection_entryCount h
    rw [hcount]
    exact ⟨hpos, boundary_automatic (fun r hr => List.mem_reverse.mp hr) (boundary_range (List.mem_of_getLast? hlast)).2⟩

theorem Boundary.le_length (h : Boundary t n) : n ≤ t.entries.length := by
  obtain ⟨-, before, run, after, turnId, hrun, hn, -⟩ := h
  have hlength := congrArg List.length hrun.split
  simp only [List.length_append] at hlength
  omega

/-- Before a boundary there is nothing of the open turn. -/
theorem Boundary.closed (h : Boundary t n) (ho : Ordered t) : ∀ e ∈ t.entries.take n, t.openTurnId ≠ some e.turnId := by
  obtain ⟨-, before, run, after, turnId, hrun, hn, hopen⟩ := h
  intro e he hturn
  have hmem : e ∈ before ++ run := by
    have htake : t.entries.take n = (before ++ run).take n := by
      rw [hrun.split, List.take_append_of_le_length (by rw [List.length_append]; exact hn)]
    rw [htake] at he
    exact List.mem_of_mem_take he
  rcases List.mem_append.mp hmem with hmem | hmem
  · obtain ⟨b₁, b₂, rfl⟩ := List.append_of_mem hmem
    have hids : turnIds t = b₁.map ThreadEntry.turnId ++ e.turnId :: (b₂ ++ run ++ after).map ThreadEntry.turnId := by
      rw [turnIds, hrun.split]
      simp
    have hlast := ho.last e.turnId hturn (by rw [hids]; simp)
    have hcontiguous := ho.contiguous
    rw [hids] at hlast hcontiguous
    rw [List.getLast?_append_of_ne_nil _ (by simp)] at hlast
    obtain ⟨x, run, rfl⟩ := List.exists_cons_of_ne_nil hrun.nonempty
    have hx := hcontiguous.of_append.until_last hlast x.turnId (List.mem_map_of_mem (by simp))
    rw [hrun.same x List.mem_cons_self] at hx
    rw [hx] at hopen
    exact hopen hturn.symm
  · rw [hrun.same e hmem] at hturn
    exact hopen hturn.symm

end Cuts

section Growing

variable {t u v : ConversationThread} {estimateMessage : LlmMessage → Nat} {turnId : String}

/-- What happens to a thread while entries are added: the turns that were closed are left alone. -/
structure Grows (t u : ConversationThread) : Prop where
  entries : ∃ more, u.entries = t.entries ++ more ∧
    ∀ e ∈ more, e.turnId ∈ t.turns.map TurnInfo.id → t.openTurnId = some e.turnId
  turns : ∀ turnId ∈ t.turns.map TurnInfo.id, turnId ∈ u.turns.map TurnInfo.id
  closed : ∀ turnId ∈ t.turns.map TurnInfo.id, t.openTurnId ≠ some turnId → u.openTurnId ≠ some turnId

theorem Grows.refl (t : ConversationThread) : Grows t t :=
  ⟨⟨[], (List.append_nil _).symm, fun _ he => absurd he List.not_mem_nil⟩, fun _ h => h, fun _ _ h => h⟩

theorem Grows.trans (h : Grows t u) (h' : Grows u v) : Grows t v := by
  obtain ⟨more, hmore, hopen⟩ := h.entries
  obtain ⟨more', hmore', hopen'⟩ := h'.entries
  refine ⟨⟨more ++ more', by rw [hmore', hmore, List.append_assoc], fun e he hturn => ?_⟩,
    fun turnId hturn => h'.turns turnId (h.turns turnId hturn),
    fun turnId hturn hclosed => h'.closed turnId (h.turns turnId hturn) (h.closed turnId hturn hclosed)⟩
  rcases List.mem_append.mp he with he | he
  · exact hopen e he hturn
  · by_contra hclosed
    exact h.closed _ hturn hclosed (hopen' e he (h.turns _ hturn))

theorem grows_push (e : ThreadEntry) (he : e.turnId ∈ t.turns.map TurnInfo.id → t.openTurnId = some e.turnId) :
    Grows t (t.push e) :=
  ⟨⟨[e], rfl, fun d hd => by rw [List.mem_singleton.mp hd]; exact he⟩, fun _ h => h, fun _ _ h => h⟩

/-- Beside the entries only the turns and the open one matter. -/
theorem grows_turns (hentries : u.entries = t.entries)
    (hturns : ∀ turnId ∈ t.turns.map TurnInfo.id, turnId ∈ u.turns.map TurnInfo.id)
    (hclosed : ∀ turnId ∈ t.turns.map TurnInfo.id, t.openTurnId ≠ some turnId → u.openTurnId ≠ some turnId) : Grows t u :=
  ⟨⟨[], by rw [hentries, List.append_nil], fun _ he => absurd he List.not_mem_nil⟩, hturns, hclosed⟩

/-- What may be done while a summary is awaited. -/
def Appends : ThreadOp → Prop
  | .beginTurn _ | .commitTurn | .abortTurn _ | .appendAssistant _ _ | .appendToolResult _ | .addNotice _ => True
  | .setCurrentIteration iteration => iteration.isFinite = true
  | .elsewhere _ _ => True
  | _ => False

theorem grows_beginTurn (ho : Ordered t) {userInput : Text} (hu : t.beginTurn estimateMessage userInput = .ok u) :
    Grows t u := by
  rw [ConversationThread.beginTurn] at hu
  split_ifs at hu
  cases hu
  have hunused := ho.unused (Nat.lt_succ_self t.turnCounter) (Or.inl rfl)
  refine Grows.trans (u := { t with
    turns := setTurn t.turns { id := turnName (t.turnCounter + 1), status := .open }, turnCounter := t.turnCounter + 1,
    openTurnId := some (turnName (t.turnCounter + 1)) })
    (grows_turns rfl (fun _ hturn => mem_setTurn_ids (Or.inl hturn)) (fun turnId hturn _ hopen => ?_))
    (grows_push _ (fun _ => rfl))
  cases hopen
  exact hunused hturn

theorem grows_closing (status : TurnStatus) (turnId : String) :
    Grows t { t with turns := setStatus t.turns turnId status, openTurnId := none } :=
  grows_turns rfl (fun _ hturn => by rwa [setStatus_ids]) (fun _ _ _ => nofun)

theorem grows_addNotice (ho : Ordered t) (hv : Valid t) (content : Text) :
    Grows t (t.addNotice estimateMessage content) := by
  cases hopen : t.openTurnId with
  | some turnId =>
      rw [addNotice_open hopen, ensureTurn_old (hv.openTurn turnId hopen).1]
      exact grows_push _ (fun _ => hopen)
  | none =>
      rw [addNotice_closed hopen, ensureTurn_eq]
      have hname : TurnName ("notice-" ++ turnName (t.turnCounter + 1)) (t.turnCounter + 1) := Or.inr (Or.inl rfl)
      have hunused := ho.unused (Nat.lt_succ_self _) hname
      rw [if_neg (fun hhas => hunused (hasTurn_iff.mp hhas))]
      refine ⟨⟨_, rfl, fun e he hturn => ?_⟩, fun _ hturn => mem_setTurn_ids (Or.inl hturn), fun _ _ h => h⟩
      rw [List.mem_singleton.mp he] at hturn
      exact absurd hturn hunused

/-- A step that the runtime takes keeps the order of a thread. -/
theorem Ordered.next_appends (ho : Ordered t) (hv : Valid t) (step : ThreadStep) (hs : Appends step.op) :
    Ordered (step.next t) ∧ Grows t (step.next t) := by
  obtain ⟨estimateMessage, op⟩ := step
  have hpush : ∀ e : ThreadEntry, t.openTurnId = some e.turnId → Ordered (t.push e) ∧ Grows t (t.push e) :=
    fun e hopen => ⟨ho.pushOpen hopen, grows_push e (fun _ => hopen)⟩
  cases op with
  | beginTurn userInput =>
      change Ordered (orElse t _) ∧ Grows t (orElse t _)
      cases hu : t.beginTurn estimateMessage userInput with
      | ok u => exact ⟨ho.beginTurn hv hu, grows_beginTurn ho hu⟩
      | error => exact ⟨ho, .refl t⟩
  | commitTurn =>
      change Ordered (orElse t t.commitTurn) ∧ Grows t (orElse t t.commitTurn)
      rw [ConversationThread.commitTurn]
      cases t.openTurnId with
      | none => exact ⟨ho, .refl t⟩
      | some turnId => exact ⟨ho.closing _ _, grows_closing _ _⟩
  | abortTurn reason =>
      change Ordered (orElse t (t.abortTurn estimateMessage reason)) ∧ Grows t (orElse t (t.abortTurn estimateMessage reason))
      rw [ConversationThread.abortTurn]
      cases hopen : t.openTurnId with
      | none => exact ⟨ho, .refl t⟩
      | some turnId =>
          obtain ⟨hordered, hgrows⟩ := hpush (t.nextEntry estimateMessage turnId .notice (noticeMessage reason) none none) hopen
          exact ⟨hordered.closing _ _, hgrows.trans (grows_closing _ _)⟩
  | appendAssistant content toolCalls =>
      change Ordered (orElse t (t.appendAssistant estimateMessage content toolCalls)) ∧
        Grows t (orElse t (t.appendAssistant estimateMessage content toolCalls))
      rw [ConversationThread.appendAssistant]
      cases hopen : t.openTurnId with
      | none => exact ⟨ho, .refl t⟩
      | some turnId => exact hpush _ hopen
  | appendToolResult result =>
      change Ordered (orElse t (t.appendToolResult estimateMessage result)) ∧
        Grows t (orElse t (t.appendToolResult estimateMessage result))
      rw [ConversationThread.appendToolResult]
      cases hopen : t.openTurnId with
      | none => exact ⟨ho, .refl t⟩
      | some turnId => exact hpush _ hopen
  | addNotice content => exact ⟨ho.addNotice hv content, grows_addNotice ho hv content⟩
  | setCurrentIteration iteration =>
      exact ⟨ho.of_ids rfl (fun _ h => h) (fun _ h => h) le_rfl, grows_turns rfl (fun _ h => h) (fun _ _ h => h)⟩
  | elsewhere entries turns =>
      exact ⟨ho.of_ids rfl (fun _ h => h) (fun _ h => h) (Nat.le_add_right _ _), grows_turns rfl (fun _ h => h) (fun _ _ h => h)⟩
  | interruptTurn | addCompaction | removeTurnEntries | replacePrefixWithCompaction | elideToolResult | truncateEntry
  | reestimateTokens | clear | restoreState | restoreFromConversation => exact hs.elim

theorem allowed_of_appends {step : ThreadStep} (hs : Appends step.op) : ThreadAllowed t step := by
  obtain ⟨estimateMessage, op⟩ := step
  cases op with
  | setCurrentIteration iteration => exact hs
  | replacePrefixWithCompaction | restoreState => exact hs.elim
  | _ => trivial

theorem grown {steps : List ThreadStep} (hv : Valid t) (ho : Ordered t) (hs : ∀ step ∈ steps, Appends step.op) :
    Valid (after ThreadStep.next t steps) ∧ Ordered (after ThreadStep.next t steps) ∧
      Grows t (after ThreadStep.next t steps) := by
  induction steps generalizing t with
  | nil => exact ⟨hv, ho, .refl t⟩
  | cons step steps ih =>
      have hstep := hs step List.mem_cons_self
      obtain ⟨hordered, hgrows⟩ := ho.next_appends hv step hstep
      obtain ⟨hv', ho', hgrows'⟩ := ih (hv.next (allowed_of_appends hstep)) hordered
        (fun step hmem => hs step (List.mem_cons_of_mem _ hmem))
      rw [after_cons]
      exact ⟨hv', ho', hgrows.trans hgrows'⟩

end Growing

end Kross.Context

import Kross.Context.CompactionKeeps

namespace Kross.Context

open ConversationThread Run Contiguous

section Pairing

variable {t : ConversationThread} {n : Nat} {r : ThreadEntry} {pre mid post : List ThreadEntry}

def Requests (a r : ThreadEntry) : Prop :=
  a.kind = .assistant ∧ ∃ call ∈ a.requested, r.message.toolCallId? = some call.id

/-- The assistant entry that requests the result is before it, in its turn. -/
def HasRequester (pre : List ThreadEntry) (r : ThreadEntry) : Prop := ∃ a ∈ pre, a.turnId = r.turnId ∧ Requests a r

/-- In each turn the results of a response come before the next response. -/
def Paired (t : ConversationThread) : Prop :=
  ∀ turnId pre r post, t.getEntriesForTurn turnId = pre ++ r :: post → r.kind = .toolResult →
    ∃ before a between, pre = before ++ a :: between ∧ Requests a r ∧ ∀ e ∈ between, e.kind ≠ .assistant

theorem filter_split (h : t.entries = pre ++ r :: post) : t.getEntriesForTurn r.turnId =
    pre.filter (fun e => e.turnId = r.turnId) ++ r :: post.filter (fun e => e.turnId = r.turnId) := by
  rw [getEntriesForTurn, h, List.filter_append, List.filter_cons_of_pos (by simp)]

/-- A cut that splits a turn only before an assistant entry leaves no result without its request. -/
theorem requester_behind_cut (hp : Paired t) (ho : Ordered t) (hcut : SafeCut t.entries n)
    (hdrop : t.entries.drop n = mid ++ r :: post) (hr : r.kind = .toolResult) : HasRequester mid r := by
  have hentries : t.entries = (t.entries.take n ++ mid) ++ r :: post := by
    rw [List.append_assoc, ← hdrop, List.take_append_drop]
  obtain ⟨before, a, between, hpre, hrequests, hbetween⟩ := hp _ _ r _ (filter_split hentries) hr
  have hin : ∀ {l : List ThreadEntry} {e}, e ∈ l.filter (fun e => e.turnId = r.turnId) → e ∈ l ∧ e.turnId = r.turnId := by
    intro l e he
    simpa using he
  have ha : a.turnId = r.turnId := (hin (by rw [hpre]; simp)).2
  rw [List.filter_append] at hpre
  rcases List.append_eq_append_iff.mp hpre with ⟨c, -, hmid⟩ | ⟨c, htake, hmid⟩
  · exact ⟨a, (hin (by rw [hmid]; simp)).1, ha, hrequests⟩
  · cases c with
    | nil =>
        rw [List.nil_append] at hmid
        exact ⟨a, (hin (by rw [← hmid]; exact List.mem_cons_self)).1, ha, hrequests⟩
    | cons d c =>
        obtain ⟨hda, hrest⟩ := List.cons.inj hmid
        subst hda
        exfalso
        have htaken : a ∈ (t.entries.take n).filter (fun e => e.turnId = r.turnId) := by
          rw [htake]
          exact List.mem_append_right _ List.mem_cons_self
        obtain ⟨c₁, c₂, hsplit⟩ := List.append_of_mem (hin htaken).1
        -- everything from the request to the result belongs to their turn
        have hsame : ∀ e ∈ c₂ ++ mid, e.turnId = a.turnId := by
          have hids : turnIds t = c₁.map ThreadEntry.turnId ++
              a.turnId :: ((c₂ ++ mid).map ThreadEntry.turnId ++ a.turnId :: post.map ThreadEntry.turnId) := by
            rw [turnIds, hentries, hsplit]
            simp [ha]
          have hcontiguous := ho.contiguous
          rw [hids] at hcontiguous
          exact fun e he => hcontiguous.of_append.between e.turnId (List.mem_map_of_mem he)
        obtain ⟨x, hx⟩ := Option.isSome_iff_exists.mp (List.getLast?_isSome.mpr (List.cons_ne_nil a c₂))
        have hlast : (t.entries.take n).getLast? = some x := by
          rw [hsplit, List.getLast?_append_of_ne_nil _ (by simp), hx]
        have hxa : x.turnId = a.turnId := by
          rcases List.mem_cons.mp (List.mem_of_getLast? hx) with rfl | hx
          · rfl
          · exact hsame x (List.mem_append_left _ hx)
        cases mid with
        | nil =>
            have hassistant := hcut x r hlast (by rw [hdrop]; rfl) (hxa.trans ha)
            rw [hr] at hassistant
            cases hassistant
        | cons y mid =>
            have hya := hsame y (List.mem_append_right _ List.mem_cons_self)
            have hassistant := hcut x y hlast (by rw [hdrop]; rfl) (hxa.trans hya.symm)
            have hy : y ∈ between := by
              rw [hrest]
              exact List.mem_append_right _ (List.mem_filter.mpr ⟨List.mem_cons_self, by simp [hya, ha]⟩)
            exact hbetween y hy hassistant

end Pairing

section Kept

variable {t u v : ConversationThread} {estimateMessage : LlmMessage → Nat} {n : Nat}

/-- `v` is `u` with its first `n` entries replaced by a compaction. -/
structure Replaced (u v : ConversationThread) (n : Nat) : Prop where
  entries : ∃ entry, entry.kind = .compaction ∧ v.entries = entry :: u.entries.drop n
  nonempty : 0 < n ∧ n ≤ u.entries.length
  closed : ∀ e ∈ u.entries.take n, e.kind = .compaction ∨ isClosed u e.turnId = true
  openTurnId : v.openTurnId = u.openTurnId
  openTurn : ∀ turnId, u.openTurnId = some turnId →
    v.getEntriesForTurn turnId = u.getEntriesForTurn turnId ∧ v.getTurnStatus turnId = u.getTurnStatus turnId
  requested : ∀ mid r post, u.entries.drop n = mid ++ r :: post → r.kind = .toolResult →
    HasRequester (u.entries.take n ++ mid) r → HasRequester mid r

/-- A compaction leaves the recent conversation as it is. -/
def RecentKept (u v : ConversationThread) : Prop := v = u ∨ ∃ n, Replaced u v n

theorem isClosed_of_not_open (hv : Valid t) {turnId : String} (hmem : turnId ∈ t.turns.map TurnInfo.id)
    (hopen : t.openTurnId ≠ some turnId) : isClosed t turnId = true := by
  obtain ⟨turn, hturn, rfl⟩ := List.mem_map.mp hmem
  have hstatus : turn.status ≠ .open := fun hs => hopen ((hv.opened turn hturn).mp hs)
  have hfind : t.turns.find? (fun other => other.id = turn.id) = some turn := by
    have hsome : (t.turns.find? (fun other => other.id = turn.id)).isSome := by
      rw [List.find?_isSome]
      exact ⟨turn, hturn, by simp⟩
    obtain ⟨other, hother⟩ := Option.isSome_iff_exists.mp hsome
    have hid : other.id = turn.id := by simpa using List.find?_some hother
    rw [hother, List.inj_on_of_nodup_map hv.names (List.mem_of_find?_eq_some hother) hturn hid]
  rw [isClosed, getTurnStatus, hfind]
  cases hs : turn.status with
  | «open» => exact absurd hs hstatus
  | committed => simp [hs]
  | aborted => simp [hs]

theorem find_setTurn_other {turns : List TurnInfo} {turn : TurnInfo} {turnId : String} (hne : turn.id ≠ turnId) :
    (setTurn turns turn).find? (fun other => other.id = turnId) = turns.find? (fun other => other.id = turnId) := by
  have hmap : ∀ turns : List TurnInfo, (turns.map (fun t => if t.id = turn.id then turn else t)).find?
      (fun other => other.id = turnId) = turns.find? (fun other => other.id = turnId) := by
    intro turns
    induction turns with
    | nil => rfl
    | cons other turns ih =>
        rw [List.map_cons, List.find?_cons, List.find?_cons, ih]
        by_cases hid : other.id = turn.id
        · rw [if_pos hid, hid, decide_eq_false hne]
        · rw [if_neg hid]
  rw [setTurn]
  split_ifs
  · exact hmap turns
  · rw [List.find?_append]
    simp [hne]

theorem replaced_of_boundary (hv : Valid t) (ho : Ordered t) (hp : Paired t) (hb : Boundary t n) (hn : 0 < n)
    (hu : Valid u) (ho' : Ordered u) (hg : Grows t u) (summary : Text) :
    Replaced u (u.replacePrefixWithCompaction estimateMessage n summary) n := by
  obtain ⟨more, hmore, hadded⟩ := hg.entries
  have hlength := hb.le_length
  have htake : u.entries.take n = t.entries.take n := by rw [hmore, List.take_append_of_le_length hlength]
  have hdrop : u.entries.drop n = t.entries.drop n ++ more := by rw [hmore, List.drop_append_of_le_length hlength]
  have hlength' : n ≤ u.entries.length := by
    rw [hmore, List.length_append]
    omega
  obtain ⟨entry, hkind, hid, -, heq⟩ := @replacePrefix_eq estimateMessage u n hn hlength' summary
  have hhome : ∀ e ∈ t.entries.take n, e.turnId ∈ t.turns.map TurnInfo.id := fun e he =>
    (hv.entries e (List.mem_of_mem_take he)).1
  -- the prefix has nothing of a turn that is open now
  have hclosed : ∀ e ∈ u.entries.take n, u.openTurnId ≠ some e.turnId := by
    intro e he
    rw [htake] at he
    exact hg.closed _ (hhome e he) (hb.closed ho e he)
  refine ⟨⟨entry, hkind, by rw [heq]⟩, ⟨hn, hlength'⟩, fun e he => Or.inr ?_, by rw [heq], fun turnId hopen => ?_, ?_⟩
  · exact isClosed_of_not_open hu (hu.entries e (List.mem_of_mem_take he)).1 (hclosed e he)
  · have hne : entry.turnId ≠ turnId := by
      rintro rfl
      exact ho'.unused (Nat.lt_succ_self _) (Or.inr (Or.inr hid)) (hu.openTurn _ hopen).1
    have hnone : ∀ e ∈ u.entries.take n, e.turnId ≠ turnId := fun e he hturn => hclosed e he (by rw [hopen, hturn])
    constructor
    · have hnil : (u.entries.take n).filter (fun e => e.turnId = turnId) = [] :=
        List.filter_eq_nil_iff.mpr (fun e he => by simpa using hnone e he)
      rw [heq, getEntriesForTurn, getEntriesForTurn, List.filter_cons_of_neg (by simpa using hne)]
      conv_rhs => rw [← List.take_append_drop n u.entries]
      rw [List.filter_append, hnil, List.nil_append]
    · rw [heq, getTurnStatus, getTurnStatus, find_setTurn_other hne, List.find?_filter]
      refine congrArg (Option.map TurnInfo.status) (congrArg (fun p => List.find? p u.turns) (funext fun turn => ?_))
      by_cases hid : turn.id = turnId
      · have hany : (u.entries.take n).any (fun e => e.turnId = turn.id) = false := by
          simpa [hid] using hnone
        rw [hany]
        simp [hid]
      · simp [hid]
  · intro mid r post hsplit hr hrequester
    rw [hdrop] at hsplit
    have hrest : ∀ l, HasRequester (u.entries.take n ++ l) r →
        (r.turnId ∈ t.turns.map TurnInfo.id → t.openTurnId = some r.turnId) → HasRequester l r := by
      rintro l ⟨a, ha, hturn, hrequests⟩ hopen
      rcases List.mem_append.mp ha with ha | ha
      · rw [htake] at ha
        have hhomed := hhome a ha
        rw [hturn] at hhomed
        exact absurd (hopen hhomed) (by rw [← hturn]; exact hb.closed ho a ha)
      · exact ⟨a, ha, hturn, hrequests⟩
    rcases List.append_eq_append_iff.mp hsplit with ⟨c, hmid, hmore'⟩ | ⟨c, hold, hmore'⟩
    · exact hrest mid hrequester (hadded r (by rw [hmore']; simp))
    · cases c with
      | nil => exact hrest mid hrequester (hadded r (by rw [List.nil_append] at hmore'; rw [← hmore']; exact List.mem_cons_self))
      | cons d c =>
          obtain ⟨hd, -⟩ := List.cons.inj hmore'
          subst hd
          exact requester_behind_cut hp ho hb.1 hold hr

end Kept

section Runs

/-- The steps of the program beside compactions and restores: nothing but a restored dialog adds
a compaction elsewhere, and no turn is removed. -/
def Taken : ThreadOp → Prop
  | .setCurrentIteration iteration => iteration.isFinite = true
  | .addCompaction _ _ | .removeTurnEntries _ | .replacePrefixWithCompaction _ _ | .restoreState _ _ => False
  | _ => True

/-- The threads of the program. A compaction chooses its prefix, then others add entries until
its summary is there. -/
inductive Reachable : ConversationThread → Prop
  | new (entryCounter turnCounter : Nat) : Reachable (.new entryCounter turnCounter)
  | step {t : ConversationThread} (h : Reachable t) (step : ThreadStep) (hs : Taken step.op) : Reachable (step.next t)
  | restored {t saved : ConversationThread} (h : Reachable t) (hsaved : Reachable saved) (estimateMessage : LlmMessage → Nat)
      (preserveOpenTurn : Bool) : Reachable (t.restoreState estimateMessage saved.exportState preserveOpenTurn).2
  | manual {t : ConversationThread} (h : Reachable t) (steps : List ThreadStep) (hs : ∀ step ∈ steps, Appends step.op)
      (estimateMessage : LlmMessage → Nat) (policy : ContextPolicy) (summary : CompactionSelection → Option Text) :
      Reachable (compactTurnsNow estimateMessage policy t (after ThreadStep.next t steps) summary)
  | automatic {t : ConversationThread} (h : Reachable t) (steps : List ThreadStep) (hs : ∀ step ∈ steps, Appends step.op)
      (estimateMessage : LlmMessage → Nat) (policy : ContextPolicy) (budget : Int)
      (summary : CompactionSelection → Option Text) :
      Reachable (applyTurnCompaction estimateMessage policy budget t (after ThreadStep.next t steps) summary)

variable {t u : ConversationThread} {estimateMessage : LlmMessage → Nat}

theorem Ordered.next (ho : Ordered t) (hv : Valid t) {step : ThreadStep} (hs : Taken step.op) : Ordered (step.next t) := by
  obtain ⟨estimateMessage, op⟩ := step
  have happends : Appends op → Ordered (ThreadStep.next t ⟨estimateMessage, op⟩) := fun hop => (ho.next_appends hv _ hop).1
  cases op with
  | beginTurn | commitTurn | abortTurn | appendAssistant | appendToolResult | addNotice | elsewhere =>
      exact happends trivial
  | setCurrentIteration => exact happends hs
  | interruptTurn reason =>
      change Ordered (orElse t (t.interruptTurn estimateMessage reason))
      cases hu : t.interruptTurn estimateMessage reason with
      | ok u => exact ho.interruptTurn hu
      | error => exact ho
  | elideToolResult entryId content => exact ho.update entryId (fun e => elided_turnId content e)
  | truncateEntry entryId content => exact ho.update entryId (fun _ => rfl)
  | reestimateTokens => exact ho.reestimateTokens
  | clear => exact ordered_new _ _
  | restoreFromConversation messages => exact (ordered_new _ _).restoreMessages _ (valid_new _ _) rfl
  | addCompaction | removeTurnEntries | replacePrefixWithCompaction | restoreState => exact hs.elim

theorem allowed_of_taken {step : ThreadStep} (hs : Taken step.op) : ThreadAllowed t step := by
  obtain ⟨estimateMessage, op⟩ := step
  cases op with
  | setCurrentIteration iteration => exact hs
  | replacePrefixWithCompaction | restoreState => exact hs.elim
  | _ => trivial

/-- A chosen prefix leaves a thread in order, whatever is added before it is replaced. -/
theorem kept_of_boundary {n : Nat} (hv : Valid t) (ho : Ordered t) (hb : Boundary t n) (hn : 0 < n) (hu : Valid u)
    (ho' : Ordered u) (hg : Grows t u) (summary : Text) :
    Valid (u.replacePrefixWithCompaction estimateMessage n summary) ∧
      Ordered (u.replacePrefixWithCompaction estimateMessage n summary) := by
  obtain ⟨more, hmore, -⟩ := hg.entries
  have hlength := hb.le_length
  have hlength' : n ≤ u.entries.length := by
    rw [hmore, List.length_append]
    omega
  refine ⟨hu.replacePrefix summary (fun turnId hopen => ?_), ho'.replacePrefix hu hn hlength' summary⟩
  rintro ⟨e, he, rfl⟩
  rw [Int.toNat_natCast, hmore, List.take_append_of_le_length hlength] at he
  exact absurd hopen (hg.closed _ (hv.entries e (List.mem_of_mem_take he)).1 (hb.closed ho e he))

theorem kept_compactPrefix {selection : CompactionSelection} (hv : Valid t) (ho : Ordered t)
    (hb : 0 < selection.entryCount ∧ Boundary t selection.entryCount) (hu : Valid u) (ho' : Ordered u) (hg : Grows t u)
    (summary : Option Text) :
    Valid (compactPrefix estimateMessage u selection summary) ∧ Ordered (compactPrefix estimateMessage u selection summary) := by
  cases summary with
  | none => exact ⟨hu, ho'⟩
  | some summary => exact kept_of_boundary hv ho hb.2 hb.1 hu ho' hg summary

theorem recentKept_compactPrefix {selection : CompactionSelection} (hv : Valid t) (ho : Ordered t) (hp : Paired t)
    (hb : 0 < selection.entryCount ∧ Boundary t selection.entryCount) (hu : Valid u) (ho' : Ordered u) (hg : Grows t u)
    (summary : Option Text) : RecentKept u (compactPrefix estimateMessage u selection summary) := by
  cases summary with
  | none => exact Or.inl rfl
  | some summary => exact Or.inr ⟨_, replaced_of_boundary hv ho hp hb.2 hb.1 hu ho' hg summary⟩

theorem Reachable.ordered (h : Reachable t) : Valid t ∧ Ordered t := by
  induction h with
  | new entryCounter turnCounter => exact ⟨valid_new _ _, ordered_new _ _⟩
  | step _ step hs ih => exact ⟨ih.1.next (allowed_of_taken hs), ih.2.next ih.1 hs⟩
  | restored _ _ estimateMessage preserveOpenTurn ih ihsaved =>
      exact ⟨ih.1.restoreState ihsaved.1.names, ihsaved.2.restored ihsaved.1 _ _⟩
  | manual _ steps hs estimateMessage policy summary ih =>
      obtain ⟨hu, ho', hg⟩ := grown ih.1 ih.2 hs
      rw [compactTurnsNow]
      split
      · exact ⟨hu, ho'⟩
      · rename_i selection hselection
        exact kept_compactPrefix ih.1 ih.2 (boundary_manual hselection) hu ho' hg _
  | automatic _ steps hs estimateMessage policy budget summary ih =>
      obtain ⟨hu, ho', hg⟩ := grown ih.1 ih.2 hs
      rw [applyTurnCompaction]
      split_ifs
      · exact ⟨hu, ho'⟩
      · split
        · exact ⟨hu, ho'⟩
        · rename_i selection hselection
          exact kept_compactPrefix ih.1 ih.2 (boundary_selectAutomatic hselection) hu ho' hg _

/-- Neither compaction touches the recent conversation. -/
theorem compaction_recentKept (h : Reachable t) (hp : Paired t) {steps : List ThreadStep}
    (hs : ∀ step ∈ steps, Appends step.op) (estimateMessage : LlmMessage → Nat) (policy : ContextPolicy) (budget : Int)
    (summary : CompactionSelection → Option Text) :
    RecentKept (after ThreadStep.next t steps)
        (compactTurnsNow estimateMessage policy t (after ThreadStep.next t steps) summary) ∧
      RecentKept (after ThreadStep.next t steps)
        (applyTurnCompaction estimateMessage policy budget t (after ThreadStep.next t steps) summary) := by
  obtain ⟨hv, ho⟩ := h.ordered
  obtain ⟨hu, ho', hg⟩ := grown hv ho hs
  constructor
  · rw [compactTurnsNow]
    split
    · exact Or.inl rfl
    · rename_i selection hselection
      exact recentKept_compactPrefix hv ho hp (boundary_manual hselection) hu ho' hg _
  · rw [applyTurnCompaction]
    split_ifs
    · exact Or.inl rfl
    · split
      · exact Or.inl rfl
      · rename_i selection hselection
        exact recentKept_compactPrefix hv ho hp (boundary_selectAutomatic hselection) hu ho' hg _

theorem reachable_after (h : Reachable t) {steps : List ThreadStep} (hs : ∀ step ∈ steps, Taken step.op) :
    Reachable (after ThreadStep.next t steps) := by
  induction steps generalizing t with
  | nil => exact h
  | cons step steps ih =>
      exact ih (h.step step (hs step List.mem_cons_self)) (fun step hmem => hs step (List.mem_cons_of_mem _ hmem))

/-- A turn with a call and its result. -/
def searchedRun : List ThreadStep :=
  [ThreadOp.beginTurn ['a'], .appendAssistant [] [searchCall], .appendToolResult ⟨"call-1", "Grep", ['f'], none, none⟩,
    .commitTurn].map (ThreadStep.mk countCharacters)

def searched : ConversationThread := after ThreadStep.next (.new 0 0) searchedRun

/-- The next turn begins while the summary of the first is awaited. -/
def continued : ConversationThread := after ThreadStep.next searched [⟨countCharacters, .beginTurn ['b']⟩]

theorem paired_searched : Paired searched := by
  intro turnId pre r post h hr
  have hmem : r ∈ searched.getEntriesForTurn turnId := by
    rw [h]
    simp
  have hids : ∀ e ∈ searched.entries, e.turnId = turnName 1 := by decide
  obtain ⟨hin, hturn⟩ := List.mem_filter.mp hmem
  rw [hids r hin] at hturn
  obtain rfl : turnName 1 = turnId := by simpa using hturn
  rcases pre with _ | ⟨e₁, _ | ⟨e₂, _ | ⟨e₃, pre⟩⟩⟩
  · cases h
    cases hr
  · cases h
    cases hr
  · cases h
    exact ⟨[_], _, [], rfl, ⟨rfl, searchCall, (List.mem_singleton.mpr rfl : searchCall ∈ [searchCall]), rfl⟩,
      fun _ he => absurd he List.not_mem_nil⟩
  · have hlength := congrArg List.length h
    have hthree : (searched.getEntriesForTurn (turnName 1)).length = 3 := by decide
    rw [hthree] at hlength
    simp only [List.length_cons, List.length_append] at hlength
    omega

def keepingPolicy : ContextPolicy := ⟨8, 0, 4, 1, 16⟩

theorem compaction_recentKept_searched :
    RecentKept continued (compactTurnsNow countCharacters keepingPolicy searched continued (fun _ => some ['s'])) ∧
      RecentKept continued (applyTurnCompaction countCharacters keepingPolicy 0 searched continued (fun _ => some ['s'])) :=
  compaction_recentKept (reachable_after (.new 0 0) (by simp [searchedRun, Taken])) paired_searched (by simp [Appends])
    countCharacters keepingPolicy 0 (fun _ => some ['s'])

example : (compactTurnsNow countCharacters keepingPolicy searched continued (fun _ => some ['s'])).entries.map
    ThreadEntry.kind = [.compaction, .user] := by
  decide

end Runs

end Kross.Context

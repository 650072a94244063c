import Kross.Tools.DiffPreview
import Mathlib.Data.Nat.Find

namespace Kross.Tools.DiffPreview

inductive LineOp
  | add
  | del
  | «meta»
  | ctx
  deriving DecidableEq

structure DiffPreviewLine where
  op : LineOp
  text : String
  lineNo : Option Nat
  deriving DecidableEq

def gapLine : DiffPreviewLine := ⟨.«meta», "···", none⟩

def previewLine (op : EditOp) : DiffPreviewLine :=
  match op.kind with
  | .eq => ⟨.ctx, op.text, op.newLine <|> op.oldLine⟩
  | .del => ⟨.del, op.text, op.oldLine⟩
  | .add => ⟨.add, op.text, op.newLine⟩

def changed (ops : List EditOp) (i : Nat) : Bool := ops[i]?.any fun op => op.kind ≠ .eq

/-- The inner loop over the places around a change. -/
def markAround (size : Nat) (contextLines : Int) (keep : List Bool) (i : Nat) : List Bool :=
  let first := (max 0 (i - contextLines)).toNat
  let last := (min (size - 1 : Int) (i + contextLines)).toNat
  (List.range' first (last + 1 - first)).foldl (fun keep j => keep.set j true) (keep.set i true)

def markKeep (ops : List EditOp) (contextLines : Int) : List Bool :=
  (List.range ops.length).foldl
    (fun keep i => if changed ops i then markAround ops.length contextLines keep i else keep)
    (List.replicate ops.length false)

structure Shown where
  lines : List DiffPreviewLine
  gap : Bool

def showStep (keep : Nat → Bool) (s : Shown) (op : EditOp × Nat) : Shown :=
  if keep op.2 then
    let s := if s.gap && !s.lines.isEmpty then ⟨s.lines ++ [gapLine], false⟩ else s
    { s with lines := s.lines ++ [previewLine op.1] }
  else { s with gap := true }

def lineDiffWithContext (before after : List String) (contextLines : Int) : List DiffPreviewLine :=
  let ops := buildEditScript before after
  if contextLines ≤ 0 then (ops.filter fun op => op.kind ≠ .eq).map previewLine
  else
    let keep := markKeep ops contextLines
    (ops.zipIdx.foldl (showStep fun i => keep[i]?.getD false) ⟨[], false⟩).lines

/-! ### What the preview shows -/

/-- At distance at most `c` from a change. -/
def near (ops : List EditOp) (c k : Nat) : Bool :=
  (List.range ops.length).any fun i => changed ops i && decide (i ≤ k + c) && decide (k ≤ i + c)

/-- What stands between a shown line and those after it. -/
def between (k : Nat) : List (EditOp × Nat) → List DiffPreviewLine
  | [] => []
  | next :: _ => if next.2 = k + 1 then [] else [gapLine]

/-- Lines with their places in the script, with a gap marker between those that are not adjacent. -/
def withGaps : List (EditOp × Nat) → List DiffPreviewLine
  | [] => []
  | op :: rest => previewLine op.1 :: (between op.2 rest ++ withGaps rest)

def inContext (ops : List EditOp) (c : Nat) : List DiffPreviewLine :=
  withGaps (ops.zipIdx.filter fun op => near ops c op.2)

section Marks

variable {keep : List Bool} {k : Nat}

theorem length_setAll (js : List Nat) (keep : List Bool) :
    (js.foldl (fun keep j => keep.set j true) keep).length = keep.length := by
  induction js generalizing keep with
  | nil => rfl
  | cons j js ih => rw [List.foldl_cons, ih, List.length_set]

theorem getD_set (keep : List Bool) (j k : Nat) :
    (keep.set j true)[k]?.getD false = true ↔ keep[k]?.getD false = true ∨ j = k ∧ k < keep.length := by
  rw [List.getElem?_set]
  by_cases hjk : j = k
  · subst hjk
    by_cases hlt : j < keep.length <;> simp [hlt]
  · simp [hjk]

theorem getD_setAll (js : List Nat) (keep : List Bool) :
    (js.foldl (fun keep j => keep.set j true) keep)[k]?.getD false = true ↔
      keep[k]?.getD false = true ∨ k ∈ js ∧ k < keep.length := by
  induction js generalizing keep with
  | nil => simp
  | cons j js ih =>
      rw [List.foldl_cons, ih, getD_set, List.length_set, List.mem_cons]
      constructor
      · rintro ((hkeep | ⟨rfl, hlt⟩) | ⟨hmem, hlt⟩)
        · exact .inl hkeep
        · exact .inr ⟨.inl rfl, hlt⟩
        · exact .inr ⟨.inr hmem, hlt⟩
      · rintro (hkeep | ⟨rfl | hmem, hlt⟩)
        · exact .inl (.inl hkeep)
        · exact .inl (.inr ⟨rfl, hlt⟩)
        · exact .inr ⟨hmem, hlt⟩

theorem length_markAround (c : Int) (i : Nat) (keep : List Bool) :
    (markAround keep.length c keep i).length = keep.length := by
  rw [markAround, length_setAll, List.length_set]

/-- A change marks the places at distance at most `c` from it. -/
theorem getD_markAround (c i : Nat) (keep : List Bool) :
    (markAround keep.length c keep i)[k]?.getD false = true ↔
      keep[k]?.getD false = true ∨ k < keep.length ∧ i ≤ k + c ∧ k ≤ i + c := by
  rw [markAround, getD_setAll, getD_set, List.mem_range'_1, List.length_set, or_assoc]
  refine or_congr_right ?_
  omega

/-- What the changes at some places mark. -/
theorem getD_marks (ops : List EditOp) (c : Nat) (is : List Nat) (keep : List Bool) (h : keep.length = ops.length) :
    (is.foldl (fun keep i => if changed ops i then markAround ops.length c keep i else keep) keep)[k]?.getD false = true ↔
      keep[k]?.getD false = true ∨
        k < ops.length ∧ ∃ i ∈ is, changed ops i = true ∧ i ≤ k + c ∧ k ≤ i + c := by
  induction is generalizing keep with
  | nil => simp
  | cons i is ih =>
      rw [List.foldl_cons]
      by_cases hi : changed ops i = true
      · have hlength : (markAround ops.length c keep i).length = ops.length := by
          rw [← h, length_markAround]
        have hmark := getD_markAround (k := k) c i keep
        rw [h] at hmark
        rw [if_pos hi, ih _ hlength, hmark]
        simp only [List.mem_cons, exists_eq_or_imp, hi, true_and]
        rw [or_assoc, ← and_or_left]
      · rw [if_neg hi, ih _ h]
        simp only [List.mem_cons, exists_eq_or_imp, hi, Bool.false_eq_true, false_and, false_or]

theorem near_iff {ops : List EditOp} {c : Nat} :
    near ops c k = true ↔ ∃ i ∈ List.range ops.length, changed ops i = true ∧ i ≤ k + c ∧ k ≤ i + c := by
  simp [near, and_assoc]

theorem markKeep_eq_near {ops : List EditOp} (c : Nat) (hk : k < ops.length) :
    (markKeep ops c)[k]?.getD false = near ops c k := by
  rw [Bool.eq_iff_iff, markKeep, getD_marks ops c _ _ List.length_replicate, near_iff, and_iff_right hk, or_iff_right]
  simp [hk]

end Marks

section Gaps

variable {keep : Nat → Bool}

/-- The rest of the preview, by the gap flag and whether there are lines before it. -/
def shownAfter (keep : Nat → Bool) (gap any : Bool) : List (EditOp × Nat) → List DiffPreviewLine
  | [] => []
  | op :: rest =>
    if keep op.2 then
      if gap && any then gapLine :: previewLine op.1 :: shownAfter keep false true rest
      else previewLine op.1 :: shownAfter keep gap true rest
    else shownAfter keep true any rest

theorem not_isEmpty_concat {α : Type*} (xs : List α) (x : α) : (!(xs ++ [x]).isEmpty) = true := by
  cases xs <;> rfl

theorem foldl_showStep (s : Shown) (ops : List (EditOp × Nat)) :
    (ops.foldl (showStep keep) s).lines = s.lines ++ shownAfter keep s.gap (!s.lines.isEmpty) ops := by
  induction ops generalizing s with
  | nil => exact (List.append_nil _).symm
  | cons op ops ih =>
      rw [List.foldl_cons, ih, showStep, shownAfter]
      split_ifs with hkeep hgap
      · rw [not_isEmpty_concat, List.append_assoc, List.append_assoc]
        rfl
      · rw [not_isEmpty_concat, List.append_assoc]
        rfl
      · rfl

theorem shownAfter_congr {keep' : Nat → Bool} {ops : List (EditOp × Nat)} (h : ∀ op ∈ ops, keep op.2 = keep' op.2)
    (gap any : Bool) : shownAfter keep gap any ops = shownAfter keep' gap any ops := by
  induction ops generalizing gap any with
  | nil => rfl
  | cons op ops ih =>
      rw [List.forall_mem_cons] at h
      rw [shownAfter, shownAfter, h.1]
      simp only [ih h.2]

/-- The preview with a marker wherever lines are left out between shown ones; `gap` tells whether
there are some since the last shown line. -/
def spaced (keep : Nat → Bool) (gap : Option Bool) : List (EditOp × Nat) → List DiffPreviewLine
  | [] => []
  | op :: rest =>
    if keep op.2 then
      (if gap = some true then [gapLine] else []) ++ previewLine op.1 :: spaced keep (some false) rest
    else spaced keep (gap.map fun _ => true) rest

theorem shownAfter_any (gap : Bool) (ops : List (EditOp × Nat)) :
    shownAfter keep gap true ops = spaced keep (some gap) ops := by
  induction ops generalizing gap with
  | nil => rfl
  | cons op ops ih => cases gap <;> simp [shownAfter, spaced, ih]

theorem spaced_some (keep : Nat → Bool) {k j : Nat} (ops : List EditOp) (h : k < j) :
    spaced keep (some (decide (j ≠ k + 1))) (ops.zipIdx j) =
      between k ((ops.zipIdx j).filter fun op => keep op.2) ++ withGaps ((ops.zipIdx j).filter fun op => keep op.2) := by
  induction ops generalizing k j with
  | nil => rfl
  | cons op ops ih =>
      rw [List.zipIdx_cons, spaced, List.filter_cons]
      dsimp only
      by_cases hkeep : keep j = true
      · have hnext := ih (Nat.lt_succ_self j)
        rw [decide_eq_false (not_not.mpr rfl)] at hnext
        rw [if_pos hkeep, if_pos hkeep, hnext]
        by_cases hj : j = k + 1 <;> simp [between, withGaps, hj]
      · have hnext := ih (Nat.lt_succ_of_lt h)
        rw [decide_eq_true (by omega)] at hnext
        rw [if_neg hkeep, if_neg hkeep, Option.map_some, hnext]

theorem spaced_none (ops : List EditOp) (j : Nat) :
    spaced keep none (ops.zipIdx j) = withGaps ((ops.zipIdx j).filter fun op => keep op.2) := by
  induction ops generalizing j with
  | nil => rfl
  | cons op ops ih =>
      rw [List.zipIdx_cons, spaced, List.filter_cons]
      dsimp only
      by_cases hkeep : keep j = true
      · have hnext := spaced_some keep ops (Nat.lt_succ_self j)
        rw [decide_eq_false (not_not.mpr rfl)] at hnext
        rw [if_pos hkeep, if_pos hkeep, hnext]
        rfl
      · rw [if_neg hkeep, if_neg hkeep]
        exact ih (j + 1)

theorem shownAfter_hidden (gap any : Bool) {ops : List (EditOp × Nat)} (h : ∀ op ∈ ops, keep op.2 = false)
    (rest : List (EditOp × Nat)) :
    shownAfter keep gap any (ops ++ rest) = shownAfter keep (gap || !ops.isEmpty) any rest := by
  induction ops generalizing gap with
  | nil => simp
  | cons op ops ih =>
      rw [List.forall_mem_cons] at h
      rw [List.cons_append, shownAfter, h.1, if_neg Bool.false_ne_true, ih true h.2]
      simp

theorem spaced_hidden {ops : List (EditOp × Nat)} (h : ∀ op ∈ ops, keep op.2 = false) (rest : List (EditOp × Nat)) :
    spaced keep none (ops ++ rest) = spaced keep none rest := by
  induction ops with
  | nil => rfl
  | cons op ops ih =>
      rw [List.forall_mem_cons] at h
      rw [List.cons_append, spaced, h.1, if_neg Bool.false_ne_true]
      exact ih h.2

theorem previewLine_ne_gapLine (op : EditOp) : previewLine op ≠ gapLine := by
  intro h
  have hop := congrArg DiffPreviewLine.op h
  rw [previewLine] at hop
  cases hkind : op.kind <;> rw [hkind] at hop <;> cases hop

/-- The gap flag does no harm when the first line is shown, or none at all. -/
theorem shownAfter_fresh {op : EditOp × Nat} (h : keep op.2 = true) (rest : List (EditOp × Nat)) :
    shownAfter keep false false (op :: rest) = spaced keep none (op :: rest) := by
  rw [shownAfter, spaced, if_pos h, if_pos h, shownAfter_any]
  rfl

theorem shownAfter_none {ops : List (EditOp × Nat)} (h : ∀ op ∈ ops, keep op.2 = false) :
    shownAfter keep false false ops = spaced keep none ops := by
  have hshown := shownAfter_hidden false false h []
  have hspaced := spaced_hidden h []
  rw [List.append_nil] at hshown hspaced
  rw [hshown, hspaced]
  rfl

/-- Lines left out before the first shown one come to stand after it. -/
theorem shownAfter_ne {ops rest : List (EditOp × Nat)} {op next : EditOp × Nat} (hops : ops ≠ [])
    (hhidden : ∀ op ∈ ops, keep op.2 = false) (hop : keep op.2 = true) (hnext : keep next.2 = true) :
    shownAfter keep false false (ops ++ op :: next :: rest) ≠ spaced keep none (ops ++ op :: next :: rest) := by
  have hgap : (false || !ops.isEmpty) = true := by
    rw [Bool.false_or, Bool.not_eq_true', List.isEmpty_eq_false_iff]
    exact hops
  have hshown : shownAfter keep true false (op :: next :: rest) =
      previewLine op.1 :: gapLine :: previewLine next.1 :: shownAfter keep false true rest := by
    simp [shownAfter, hop, hnext]
  have hspaced : spaced keep none (op :: next :: rest) =
      previewLine op.1 :: previewLine next.1 :: spaced keep (some false) rest := by
    simp [spaced, hop, hnext]
  rw [shownAfter_hidden _ _ hhidden, spaced_hidden hhidden, hgap, hshown, hspaced]
  intro h
  exact previewLine_ne_gapLine next.1 (List.cons.inj (List.cons.inj h).2).1.symm

end Gaps

section Context

variable {before after : List String} {ops : List EditOp} {c : Nat}

/-- No line is left out before the first one shown. -/
def Settled (ops : List EditOp) (c : Nat) : Prop :=
  (∀ i, changed ops i = false) ∨ ∃ i, i ≤ c ∧ changed ops i = true

/-- What the preview of two lists of lines has to be. -/
structure Shows (before after : List String) (c : Nat) : Prop where
  script : Correct before after (buildEditScript before after)
  lines : lineDiffWithContext before after c = inContext (buildEditScript before after) c

theorem lt_of_changed {i : Nat} (h : changed ops i = true) : i < ops.length := by
  by_contra hi
  rw [changed, List.getElem?_eq_none (Nat.le_of_not_lt hi)] at h
  cases h

theorem lineDiffWithContext_eq (hc : 1 ≤ c) :
    lineDiffWithContext before after c =
      shownAfter (near (buildEditScript before after) c) false false (buildEditScript before after).zipIdx := by
  have hpos : ¬ (c : Int) ≤ 0 := by omega
  rw [lineDiffWithContext]
  dsimp only
  rw [if_neg hpos, foldl_showStep, List.nil_append]
  refine shownAfter_congr (fun op hop => ?_) _ _
  exact markKeep_eq_near c (List.snd_lt_of_mem_zipIdx hop)

theorem inContext_eq : inContext ops c = spaced (near ops c) none ops.zipIdx := (spaced_none ops 0).symm

theorem near_zero {i : Nat} (hi : i ≤ c) (h : changed ops i = true) : near ops c 0 = true := by
  refine near_iff.mpr ⟨i, List.mem_range.mpr (lt_of_changed h), h, ?_, Nat.zero_le _⟩
  rwa [Nat.zero_add]

theorem near_of_unchanged (h : ∀ i, changed ops i = false) (k : Nat) : near ops c k = false := by
  rw [Bool.eq_false_iff]
  intro hk
  obtain ⟨i, -, hi, -⟩ := near_iff.mp hk
  rw [h i] at hi
  cases hi

theorem shown_of_settled (h : Settled ops c) :
    shownAfter (near ops c) false false ops.zipIdx = spaced (near ops c) none ops.zipIdx := by
  rcases h with hnone | ⟨i, hi, hchanged⟩
  · exact shownAfter_none fun op _ => near_of_unchanged hnone op.2
  · cases ops with
    | nil => rfl
    | cons op rest => exact shownAfter_fresh (near_zero hi hchanged) _

theorem split_zipIdx {k : Nat} (h : k + 1 < ops.length) :
    ops.zipIdx = ops.zipIdx.take k ++ (ops[k], k) :: (ops[k + 1], k + 1) :: ops.zipIdx.drop (k + 2) := by
  have hk : k < ops.zipIdx.length := by
    rw [List.length_zipIdx]
    omega
  have hnext : k + 1 < ops.zipIdx.length := by rwa [List.length_zipIdx]
  conv_lhs => rw [← List.take_append_drop k ops.zipIdx, List.drop_eq_getElem_cons hk, List.drop_eq_getElem_cons hnext]
  simp

theorem exists_first (h : ¬ Settled ops c) :
    ∃ i, c < i ∧ changed ops i = true ∧ ∀ j, changed ops j = true → i ≤ j := by
  rw [Settled, not_or, not_forall] at h
  obtain ⟨⟨i, hi⟩, hlate⟩ := h
  have hex : ∃ i, changed ops i = true := ⟨i, (Bool.not_eq_false _).mp hi⟩
  refine ⟨Nat.find hex, Nat.lt_of_not_le fun hle => hlate ⟨_, hle, Nat.find_spec hex⟩, Nat.find_spec hex, ?_⟩
  exact fun j hj => Nat.find_min' hex hj

theorem shown_ne (hc : 1 ≤ c) (h : ¬ Settled ops c) :
    shownAfter (near ops c) false false ops.zipIdx ≠ spaced (near ops c) none ops.zipIdx := by
  obtain ⟨i, hlate, hi, hfirst⟩ := exists_first h
  have hlength := lt_of_changed hi
  have hnear : ∀ k, k ≤ i → i ≤ k + c → near ops c k = true := fun k hk hkc =>
    near_iff.mpr ⟨i, List.mem_range.mpr hlength, hi, hkc, Nat.le_trans hk (Nat.le_add_right i c)⟩
  have hhidden : ∀ op ∈ ops.zipIdx.take (i - c), near ops c op.2 = false := by
    intro op hop
    rw [Bool.eq_false_iff]
    intro hk
    obtain ⟨j, -, hj, hle, -⟩ := near_iff.mp hk
    have hij := hfirst j hj
    obtain ⟨k, hk, hget⟩ := List.mem_take_iff_getElem.mp hop
    rw [List.getElem_zipIdx] at hget
    rw [← hget] at hle
    dsimp only at hle
    omega
  have hempty : ops.zipIdx.take (i - c) ≠ [] := by
    rw [← List.length_pos_iff, List.length_take, List.length_zipIdx]
    omega
  rw [split_zipIdx (k := i - c) (by omega)]
  exact shownAfter_ne hempty hhidden (hnear _ (by omega) (by omega)) (hnear _ (by omega) (by omega))

end Context

/-- The preview of two lists of lines is right exactly when the script has no change, or one that the
context of its first line reaches. -/
theorem preview_shows (before after : List String) (c : Nat) (hc : 1 ≤ c) :
    Shows before after c ↔ Settled (buildEditScript before after) c := by
  have hlines : lineDiffWithContext before after c = inContext (buildEditScript before after) c ↔
      Settled (buildEditScript before after) c := by
    rw [lineDiffWithContext_eq hc, inContext_eq]
    constructor
    · intro h
      by_contra hnot
      exact shown_ne hc hnot h
    · exact shown_of_settled
  constructor
  · intro h
    exact hlines.mp h.lines
  · intro h
    exact ⟨correct_buildEditScript before after, hlines.mpr h⟩

theorem script_replaced : buildEditScript ["a"] ["b"] = [delOp "a" 1, addOp "b" 1] := by
  simp [buildEditScript, backtrack, lengths, fillTable, fillRow, cell]

theorem preview_replaced : Shows ["a"] ["b"] 1 := by
  refine (preview_shows ["a"] ["b"] 1 (Nat.le_refl 1)).mpr (.inr ⟨0, Nat.zero_le 1, ?_⟩)
  rw [script_replaced]
  rfl

/-- Two lines are kept, the third one is deleted. -/
theorem script_last_deleted :
    buildEditScript ["a", "b", "c"] ["a", "b"] = [eqOp "a" 1 1, eqOp "b" 2 2, delOp "c" 3] := by
  simp [buildEditScript, backtrack, lengths, fillTable, fillRow, cell]

theorem preview_last_deleted : ¬ ∀ before after c, 1 ≤ c → Shows before after c := by
  intro h
  have hlines := (h ["a", "b", "c"] ["a", "b"] 1 (Nat.le_refl 1)).lines
  rw [lineDiffWithContext, script_last_deleted] at hlines
  revert hlines
  decide

end Kross.Tools.DiffPreview

import Kross.CommonSubsequence

namespace Kross.Tools.DiffPreview

open CommonSubsequence

inductive EditKind
  | eq
  | del
  | add
  deriving DecidableEq

structure EditOp where
  kind : EditKind
  text : String
  oldLine : Option Nat
  newLine : Option Nat
  deriving DecidableEq

/-- The cells of a row from its second on; `left` is the cell before them. -/
def fillRow (line : String) (left : Nat) : List Nat → List String → List Nat
  | diagonal :: above, text :: after =>
    let cell := if line = text then diagonal + 1 else max (above.headD 0) left
    cell :: fillRow line cell above after
  | _, _ => []

def fillTable (after : List String) (above : List Nat) : List String → List (List Nat)
  | [] => [above]
  | line :: before => above :: fillTable after (0 :: fillRow line 0 above after) before

def lengths (before after : List String) : List (List Nat) :=
  fillTable after (List.replicate (after.length + 1) 0) before

/-- `dp[i]![j] ?? 0` -/
def cell (dp : List (List Nat)) (i j : Nat) : Nat := (dp[i]?.getD [])[j]?.getD 0

def eqOp (text : String) (i j : Nat) : EditOp := ⟨.eq, text, some i, some j⟩

def addOp (text : String) (j : Nat) : EditOp := ⟨.add, text, none, some j⟩

def delOp (text : String) (i : Nat) : EditOp := ⟨.del, text, some i, none⟩

/-- What is pushed while the indices go down from `i` and `j`. -/
def backtrack (dp : List (List Nat)) (before after : List String) : Nat → Nat → List EditOp
  | 0, 0 => []
  | 0, j + 1 => addOp (after[j]?.getD "") (j + 1) :: backtrack dp before after 0 j
  | i + 1, 0 => delOp (before[i]?.getD "") (i + 1) :: backtrack dp before after i 0
  | i + 1, j + 1 =>
    if before[i]? = after[j]? then eqOp (before[i]?.getD "") (i + 1) (j + 1) :: backtrack dp before after i j
    else if cell dp i (j + 1) ≤ cell dp (i + 1) j then
      addOp (after[j]?.getD "") (j + 1) :: backtrack dp before after (i + 1) j
    else delOp (before[i]?.getD "") (i + 1) :: backtrack dp before after i (j + 1)
termination_by i j => i + j

def buildEditScript (before after : List String) : List EditOp :=
  (backtrack (lengths before after) before after before.length after.length).reverse

section Lengths

variable {before after : List String}

theorem fillRow_cells (line : String) (xs done rest : List String) :
    lcs (line :: xs) done :: fillRow line (lcs (line :: xs) done) (cells xs done rest) rest =
      cells (line :: xs) done rest := by
  induction rest generalizing done with
  | nil => rfl
  | cons y rest ih =>
      have hcell : (if line = y then lcs xs done + 1
          else max ((cells xs (y :: done) rest).headD 0) (lcs (line :: xs) done)) = lcs (line :: xs) (y :: done) := by
        rw [headD_cells]
        split_ifs with hline
        · rw [hline, lcs_same]
        · rw [lcs_differ hline]
      rw [cells, cells, fillRow, hcell, ih]

/-- Each row of the table has the lengths for one line more. -/
theorem getElem?_fillTable (xs before : List String) {i : Nat} (h : i ≤ before.length) :
    (fillTable after (cells xs [] after) before)[i]? = some (cells ((before.take i).reverse ++ xs) [] after) := by
  induction before generalizing xs i with
  | nil =>
      cases Nat.le_zero.mp h
      rfl
  | cons line before ih =>
      cases i with
      | zero => rfl
      | succ i =>
          have hrow := fillRow_cells line xs [] after
          rw [lcs_nil_right] at hrow
          rw [fillTable, List.getElem?_cons_succ, hrow, ih (line :: xs) (Nat.le_of_succ_le_succ h),
            List.take_succ_cons, List.reverse_cons, List.append_assoc, List.singleton_append]

theorem cells_nil (done rest : List String) : cells [] done rest = List.replicate (rest.length + 1) 0 := by
  induction rest generalizing done with
  | nil => rw [cells, lcs_nil_left, List.length_nil, List.replicate_one]
  | cons y rest ih => rw [cells, lcs_nil_left, ih, List.length_cons, List.replicate_succ (n := rest.length + 1)]

/-- What a cell of the table means. -/
theorem cell_lengths {i j : Nat} (hi : i ≤ before.length) (hj : j ≤ after.length) :
    cell (lengths before after) i j = lcs (before.take i).reverse (after.take j).reverse := by
  rw [cell, lengths, ← cells_nil [] after, getElem?_fillTable [] before hi, Option.getD_some, List.append_nil,
    getElem?_cells _ _ _ hj, Option.getD_some, List.append_nil]

end Lengths

def EditOp.old (op : EditOp) : Bool := op.kind ≠ .add

def EditOp.new (op : EditOp) : Bool := op.kind ≠ .del

def EditOp.kept (op : EditOp) : Bool := op.kind = .eq

/-- What an edit script has to be. -/
structure Correct (before after : List String) (script : List EditOp) : Prop where
  old_text : (script.filter EditOp.old).map EditOp.text = before
  new_text : (script.filter EditOp.new).map EditOp.text = after
  longest : IsLongest (script.filter EditOp.kept).length before after
  old_lines : (script.filter EditOp.old).map EditOp.oldLine = (List.range before.length).map fun i => some (i + 1)
  new_lines : (script.filter EditOp.new).map EditOp.newLine = (List.range after.length).map fun j => some (j + 1)

section Backtrack

variable (dp : List (List Nat)) (before after : List String) (i j : Nat)

def numbered (lines : List String) (k : Nat) : Option Nat × String := (some (k + 1), lines[k]?.getD "")

theorem old_backtrack :
    ((backtrack dp before after i j).filter EditOp.old).map (fun op => (op.oldLine, op.text)) =
      ((List.range i).map (numbered before)).reverse := by
  induction i, j using backtrack.induct dp before after with
  | case1 => simp [backtrack]
  | case2 j ih => simpa [backtrack, addOp, EditOp.old] using ih
  | case3 i ih => simpa [backtrack, delOp, EditOp.old, List.range_succ, numbered] using ih
  | case4 i j h ih => simpa [backtrack, h, eqOp, EditOp.old, List.range_succ, numbered] using ih
  | case5 i j h hle ih => simpa [backtrack, h, hle, addOp, EditOp.old] using ih
  | case6 i j h hlt ih => simpa [backtrack, h, hlt, delOp, EditOp.old, List.range_succ, numbered] using ih

theorem new_backtrack :
    ((backtrack dp before after i j).filter EditOp.new).map (fun op => (op.newLine, op.text)) =
      ((List.range j).map (numbered after)).reverse := by
  induction i, j using backtrack.induct dp before after with
  | case1 => simp [backtrack]
  | case2 j ih => simpa [backtrack, addOp, EditOp.new, List.range_succ, numbered] using ih
  | case3 i ih => simpa [backtrack, delOp, EditOp.new] using ih
  | case4 i j h ih => simpa [backtrack, h, eqOp, EditOp.new, List.range_succ, numbered] using ih
  | case5 i j h hle ih => simpa [backtrack, h, hle, addOp, EditOp.new, List.range_succ, numbered] using ih
  | case6 i j h hlt ih => simpa [backtrack, h, hlt, delOp, EditOp.new] using ih

end Backtrack

section Script

variable {before after : List String} {i j : Nat}

theorem reverse_take_succ (lines : List String) (h : i < lines.length) :
    (lines.take (i + 1)).reverse = lines[i] :: (lines.take i).reverse := by
  rw [List.take_succ_eq_append_getElem h, List.reverse_append]
  rfl

/-- The lines kept from two prefixes on are as many as the table says. -/
theorem kept_backtrack (hi : i ≤ before.length) (hj : j ≤ after.length) :
    ((backtrack (lengths before after) before after i j).filter EditOp.kept).length =
      lcs (before.take i).reverse (after.take j).reverse := by
  induction i, j using backtrack.induct (lengths before after) before after with
  | case1 => simp [backtrack]
  | case2 j ih => simpa [backtrack, addOp, EditOp.kept] using ih hi (Nat.le_of_succ_le hj)
  | case3 i ih => simpa [backtrack, delOp, EditOp.kept] using ih (Nat.le_of_succ_le hi) hj
  | case4 i j h ih =>
      have hsame := h
      rw [List.getElem?_eq_getElem hi, List.getElem?_eq_getElem hj, Option.some.injEq] at hsame
      rw [reverse_take_succ before hi, reverse_take_succ after hj, hsame, lcs_same,
        ← ih (Nat.le_of_succ_le hi) (Nat.le_of_succ_le hj)]
      simp [backtrack, h, eqOp, EditOp.kept]
  | case5 i j h hle ih =>
      have hne := h
      rw [List.getElem?_eq_getElem hi, List.getElem?_eq_getElem hj, Option.some.injEq] at hne
      have hcell := hle
      rw [cell_lengths (Nat.le_of_succ_le hi) hj, cell_lengths hi (Nat.le_of_succ_le hj), reverse_take_succ before hi,
        reverse_take_succ after hj] at hcell
      have hnext := ih hi (Nat.le_of_succ_le hj)
      rw [reverse_take_succ before hi] at hnext
      rw [reverse_take_succ before hi, reverse_take_succ after hj, lcs_differ hne, Nat.max_eq_right hcell, ← hnext]
      simp [backtrack, h, hle, addOp, EditOp.kept]
  | case6 i j h hlt ih =>
      have hne := h
      rw [List.getElem?_eq_getElem hi, List.getElem?_eq_getElem hj, Option.some.injEq] at hne
      have hcell := Nat.le_of_not_le hlt
      rw [cell_lengths (Nat.le_of_succ_le hi) hj, cell_lengths hi (Nat.le_of_succ_le hj), reverse_take_succ before hi,
        reverse_take_succ after hj] at hcell
      have hnext := ih (Nat.le_of_succ_le hi) hj
      rw [reverse_take_succ after hj] at hnext
      rw [reverse_take_succ before hi, reverse_take_succ after hj, lcs_differ hne, Nat.max_eq_left hcell, ← hnext]
      simp [backtrack, h, hlt, delOp, EditOp.kept]

theorem map_getD_range (lines : List String) : (List.range lines.length).map (fun k => lines[k]?.getD "") = lines := by
  apply List.ext_getElem
  · simp
  · intro k hk hlines
    simp [hlines]

theorem filter_buildEditScript (p : EditOp → Bool) :
    (buildEditScript before after).filter p =
      ((backtrack (lengths before after) before after before.length after.length).filter p).reverse := by
  rw [buildEditScript, List.filter_reverse]

theorem old_script (before after : List String) :
    ((buildEditScript before after).filter EditOp.old).map (fun op => (op.oldLine, op.text)) =
      (List.range before.length).map (numbered before) := by
  rw [filter_buildEditScript, List.map_reverse, old_backtrack, List.reverse_reverse]

theorem new_script (before after : List String) :
    ((buildEditScript before after).filter EditOp.new).map (fun op => (op.newLine, op.text)) =
      (List.range after.length).map (numbered after) := by
  rw [filter_buildEditScript, List.map_reverse, new_backtrack, List.reverse_reverse]

theorem correct_buildEditScript (before after : List String) : Correct before after (buildEditScript before after) := by
  have hold := old_script before after
  have hnew := new_script before after
  refine ⟨?_, ?_, ?_, ?_, ?_⟩
  · have h := congrArg (List.map Prod.snd) hold
    rw [List.map_map, List.map_map] at h
    exact h.trans (map_getD_range before)
  · have h := congrArg (List.map Prod.snd) hnew
    rw [List.map_map, List.map_map] at h
    exact h.trans (map_getD_range after)
  · apply IsLongest.of_reverse
    rw [filter_buildEditScript, List.length_reverse, kept_backtrack (Nat.le_refl _) (Nat.le_refl _), List.take_length,
      List.take_length]
    exact lcs_isLongest _ _
  · have h := congrArg (List.map Prod.fst) hold
    rw [List.map_map, List.map_map] at h
    exact h
  · have h := congrArg (List.map Prod.fst) hnew
    rw [List.map_map, List.map_map] at h
    exact h

end Script

end Kross.Tools.DiffPreview

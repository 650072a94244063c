import Mathlib.Data.List.Basic
import Mathlib.Tactic.Common

namespace Kross.CommonSubsequence

variable {α : Type*}

/-- The length of a longest common subsequence. -/
def IsLongest (n : Nat) (xs ys : List α) : Prop :=
  (∃ zs : List α, zs.Sublist xs ∧ zs.Sublist ys ∧ zs.length = n) ∧
    ∀ zs : List α, zs.Sublist xs → zs.Sublist ys → zs.length ≤ n

theorem IsLongest.of_reverse {n : Nat} {xs ys : List α} (h : IsLongest n xs.reverse ys.reverse) :
    IsLongest n xs ys := by
  obtain ⟨⟨zs, hx, hy, hlength⟩, hmax⟩ := h
  refine ⟨⟨zs.reverse, ?_, ?_, ?_⟩, fun ws hwx hwy => ?_⟩
  · rw [← List.reverse_sublist, List.reverse_reverse]
    exact hx
  · rw [← List.reverse_sublist, List.reverse_reverse]
    exact hy
  · rw [List.length_reverse, hlength]
  · rw [← List.length_reverse]
    exact hmax ws.reverse hwx.reverse hwy.reverse

theorem length_le_tail (zs : List α) : zs.length ≤ zs.tail.length + 1 := by
  rw [List.length_tail]
  omega

/-- A common subsequence of lists that begin differently leaves out one of the heads. -/
theorem sublist_differ {x y : α} {xs ys zs : List α} (h : x ≠ y) (hx : zs.Sublist (x :: xs))
    (hy : zs.Sublist (y :: ys)) : zs.Sublist xs ∨ zs.Sublist ys := by
  cases hx with
  | cons _ hx => exact .inl hx
  | cons_cons _ hx =>
      cases hy with
      | cons _ hy => exact .inr hy
      | cons_cons _ hy => exact absurd rfl h

variable [DecidableEq α]

def lcs : List α → List α → Nat
  | [], _ => 0
  | _ :: _, [] => 0
  | x :: xs, y :: ys => if x = y then lcs xs ys + 1 else max (lcs xs (y :: ys)) (lcs (x :: xs) ys)
termination_by xs ys => xs.length + ys.length

section Longest

variable {x y : α} {xs ys zs : List α}

@[simp] theorem lcs_nil_left (ys : List α) : lcs [] ys = 0 := by rw [lcs]

@[simp] theorem lcs_nil_right (xs : List α) : lcs xs [] = 0 := by
  cases xs with
  | nil => rw [lcs]
  | cons x xs => rw [lcs]

theorem lcs_same (x : α) (xs ys : List α) : lcs (x :: xs) (x :: ys) = lcs xs ys + 1 := by
  rw [lcs, if_pos rfl]

theorem lcs_differ (h : x ≠ y) : lcs (x :: xs) (y :: ys) = max (lcs xs (y :: ys)) (lcs (x :: xs) ys) := by
  rw [lcs, if_neg h]

theorem exists_lcs (xs ys : List α) :
    ∃ zs : List α, zs.Sublist xs ∧ zs.Sublist ys ∧ zs.length = lcs xs ys := by
  induction xs, ys using lcs.induct with
  | case1 ys => exact ⟨[], List.nil_sublist _, List.nil_sublist _, (lcs_nil_left ys).symm⟩
  | case2 x xs => exact ⟨[], List.nil_sublist _, List.nil_sublist _, (lcs_nil_right _).symm⟩
  | case3 xs x ys ih =>
      obtain ⟨zs, hx, hy, hlength⟩ := ih
      exact ⟨x :: zs, hx.cons_cons x, hy.cons_cons x, by rw [lcs_same, List.length_cons, hlength]⟩
  | case4 x xs y ys hne ihx ihy =>
      rw [lcs_differ hne]
      rcases Nat.le_total (lcs xs (y :: ys)) (lcs (x :: xs) ys) with hle | hle
      · obtain ⟨zs, hx, hy, hlength⟩ := ihy
        exact ⟨zs, hx, hy.cons y, by rw [hlength, Nat.max_eq_right hle]⟩
      · obtain ⟨zs, hx, hy, hlength⟩ := ihx
        exact ⟨zs, hx.cons x, hy, by rw [hlength, Nat.max_eq_left hle]⟩

theorem length_le_lcs (xs ys : List α) :
    ∀ zs : List α, zs.Sublist xs → zs.Sublist ys → zs.length ≤ lcs xs ys := by
  induction xs, ys using lcs.induct with
  | case1 ys =>
      intro zs hx hy
      rw [List.sublist_nil.mp hx]
      exact Nat.zero_le _
  | case2 x xs =>
      intro zs hx hy
      rw [List.sublist_nil.mp hy]
      exact Nat.zero_le _
  | case3 xs x ys ih =>
      intro zs hx hy
      rw [lcs_same]
      exact Nat.le_trans (length_le_tail zs) (Nat.succ_le_succ (ih zs.tail hx.tail hy.tail))
  | case4 x xs y ys hne ihx ihy =>
      intro zs hx hy
      rw [lcs_differ hne]
      rcases sublist_differ hne hx hy with hxs | hys
      · exact Nat.le_trans (ihx zs hxs hy) (Nat.le_max_left _ _)
      · exact Nat.le_trans (ihy zs hx hys) (Nat.le_max_right _ _)

theorem lcs_isLongest (xs ys : List α) : IsLongest (lcs xs ys) xs ys := ⟨exists_lcs xs ys, length_le_lcs xs ys⟩

end Longest

section Table

variable (xs done rest : List α)

/-- A row of the table: the lengths for what is done, and for each line more. -/
def cells : List α → List α → List Nat
  | done, [] => [lcs xs done]
  | done, y :: rest => lcs xs done :: cells (y :: done) rest

theorem headD_cells : (cells xs done rest).headD 0 = lcs xs done := by
  cases rest <;> rfl

theorem getElem?_cells {j : Nat} (h : j ≤ rest.length) :
    (cells xs done rest)[j]? = some (lcs xs ((rest.take j).reverse ++ done)) := by
  induction rest generalizing done j with
  | nil =>
      cases Nat.le_zero.mp h
      rfl
  | cons y rest ih =>
      cases j with
      | zero => rfl
      | succ j =>
          rw [cells, List.getElem?_cons_succ, ih (y :: done) (Nat.le_of_succ_le_succ h), List.take_succ_cons,
            List.reverse_cons, List.append_assoc, List.singleton_append]

end Table

end Kross.CommonSubsequence

import Mathlib.Algebra.GroupWithZero.Nat
import Mathlib.Data.List.Basic
import Mathlib.Tactic.Common

namespace Kross.RowLayout

section Bisect

/-- The first of the numbers from `low` to `high` for which `p` fails, by halving. -/
def bisect (p : Nat → Bool) (low high : Nat) : Nat :=
  if low < high then
    if p ((low + high) / 2) then bisect p ((low + high) / 2 + 1) high else bisect p low ((low + high) / 2)
  else low
termination_by high - low
decreasing_by all_goals omega

variable {p : Nat → Bool} {low high k : Nat}

theorem bisect_spec (h : low ≤ high) :
    low ≤ bisect p low high ∧ bisect p low high ≤ high ∧ (low < bisect p low high → p (bisect p low high - 1) = true) ∧
      (bisect p low high < high → p (bisect p low high) = false) := by
  induction low, high using bisect.induct p with
  | case1 low high hlt hp ih =>
      rw [bisect, if_pos hlt, if_pos hp]
      obtain ⟨hlow, hhigh, hbefore, hat⟩ := ih (by omega)
      refine ⟨by omega, hhigh, fun _ => ?_, hat⟩
      rcases Nat.lt_or_eq_of_le hlow with hlow | hlow
      · exact hbefore hlow
      · rw [← hlow]
        exact hp
  | case2 low high hlt hp ih =>
      rw [bisect, if_pos hlt, if_neg hp]
      obtain ⟨hlow, hhigh, hbefore, hat⟩ := ih (by omega)
      refine ⟨hlow, by omega, hbefore, fun _ => ?_⟩
      rcases Nat.lt_or_eq_of_le hhigh with hhigh | hhigh
      · exact hat hhigh
      · rw [hhigh]
        exact Bool.eq_false_iff.mpr hp
  | case3 low high hlt =>
      rw [bisect, if_neg hlt]
      exact ⟨Nat.le_refl low, h, fun hlt => absurd hlt (Nat.lt_irrefl low), fun hlow => absurd hlow hlt⟩

/-- What holds of the numbers below `k` only is found to fail first there. -/
theorem bisect_eq (hp : ∀ i < high, p i = true ↔ i < k) (hk : k ≤ high) : bisect p 0 high = k := by
  obtain ⟨-, hle, hbefore, hat⟩ := bisect_spec (p := p) (Nat.zero_le high)
  rcases Nat.lt_trichotomy (bisect p 0 high) k with hlt | heq | hlt
  · have htrue := (hp _ (Nat.lt_of_lt_of_le hlt hk)).mpr hlt
    rw [hat (Nat.lt_of_lt_of_le hlt hk)] at htrue
    cases htrue
  · exact heq
  · have hlast := (hp _ (by omega)).mp (hbefore (by omega))
    omega

/-- Where `p` fails, and holds before wherever it holds, the search does not go past. -/
theorem bisect_le (hp : ∀ i j, i ≤ j → p j = true → p i = true) (hk : p k = false) : bisect p 0 high ≤ k := by
  obtain ⟨-, -, hbefore, -⟩ := bisect_spec (p := p) (Nat.zero_le high)
  by_contra hlt
  have htrue := hp k (bisect p 0 high - 1) (by omega) (hbefore (by omega))
  rw [hk] at htrue
  cases htrue

end Bisect

theorem takeWhile_eq_take {α : Type} {q : α → Bool} {l : List α} {n : Nat}
    (h : ∀ i a, l[i]? = some a → (q a = true ↔ i < n)) : l.takeWhile q = l.take n := by
  induction l generalizing n with
  | nil => rw [List.takeWhile_nil, List.take_nil]
  | cons a l ih =>
      have ha := h 0 a rfl
      cases n with
      | zero =>
          have hfalse : q a = false := Bool.eq_false_iff.mpr fun htrue => absurd (ha.mp htrue) (Nat.lt_irrefl 0)
          rw [List.takeWhile_cons, hfalse, if_neg Bool.false_ne_true, List.take_zero]
      | succ n =>
          rw [List.takeWhile_cons, ha.mpr (Nat.succ_pos n), if_pos rfl, List.take_succ_cons]
          refine congrArg (a :: ·) (ih fun i b hb => ?_)
          rw [h (i + 1) b hb, Nat.succ_lt_succ_iff]

section Placing

variable {α : Type} (height : α → Nat)

/-- An item with the row it begins in and the row behind it. -/
structure Placed (α : Type) where
  item : α
  start : Nat
  stop : Nat

def total (items : List α) : Nat := (items.map height).sum

/-- Items one below another. -/
def place (row : Nat) : List α → List (Placed α)
  | [] => []
  | item :: items => ⟨item, row, row + height item⟩ :: place (row + height item) items

/-- The item of each row. -/
def rows (items : List α) : List α := items.flatMap fun item => List.replicate (height item) item

variable {height} {items more : List α} {item : α} {row : Nat}

theorem total_append : total height (items ++ more) = total height items + total height more := by
  rw [total, List.map_append, List.sum_append]
  rfl

theorem total_cons : total height (item :: items) = height item + total height items := rfl

theorem place_append : place height row (items ++ more) = place height row items ++ place height (row + total height items) more := by
  induction items generalizing row with
  | nil => rfl
  | cons item items ih => rw [List.cons_append, place, place, ih, total_cons, ← Nat.add_assoc]; rfl

theorem map_item_place (row : Nat) (items : List α) : (place height row items).map Placed.item = items := by
  induction items generalizing row with
  | nil => rfl
  | cons item items ih => rw [place, List.map_cons, ih]

theorem length_place : (place height row items).length = items.length := by
  have hlength := congrArg List.length (@map_item_place α height row items)
  rwa [List.length_map] at hlength

theorem start_le_of_mem_place {placed : Placed α} (h : placed ∈ place height row items) : row ≤ placed.start := by
  induction items generalizing row with
  | nil => cases h
  | cons item items ih =>
      rcases List.mem_cons.mp h with rfl | h
      · exact Nat.le_refl row
      · exact Nat.le_trans (Nat.le_add_right row (height item)) (ih h)

theorem start_le_stop {placed : Placed α} (h : placed ∈ place height row items) : placed.start ≤ placed.stop := by
  induction items generalizing row with
  | nil => cases h
  | cons item items ih =>
      rcases List.mem_cons.mp h with rfl | h
      · exact Nat.le_add_right row (height item)
      · exact ih h

theorem stop_le_of_mem_place {placed : Placed α} (h : placed ∈ place height row items) :
    placed.stop ≤ row + total height items := by
  induction items generalizing row with
  | nil => cases h
  | cons item items ih =>
      rw [total_cons]
      rcases List.mem_cons.mp h with rfl | h
      · dsimp only
        omega
      · have hstop := ih h
        omega

/-- What stands above is over before what stands below begins. -/
theorem pairwise_place : (place height row items).Pairwise fun above below => above.stop ≤ below.start := by
  induction items generalizing row with
  | nil => exact .nil
  | cons item items ih => exact .cons (fun _ hbelow => start_le_of_mem_place hbelow) ih

theorem stop_mono {i j : Nat} {above below : Placed α} (habove : (place height row items)[i]? = some above)
    (hbelow : (place height row items)[j]? = some below) (h : i ≤ j) : above.stop ≤ below.stop := by
  obtain ⟨hi, rfl⟩ := List.getElem?_eq_some_iff.mp habove
  obtain ⟨hj, rfl⟩ := List.getElem?_eq_some_iff.mp hbelow
  rcases Nat.lt_or_eq_of_le h with hlt | rfl
  · exact Nat.le_trans (List.pairwise_iff_getElem.mp pairwise_place i j hi hj hlt) (start_le_stop (List.getElem_mem hj))
  · exact Nat.le_refl _

variable (h : ∀ item ∈ items, height item = 1)
include h

theorem total_eq_length : total height items = items.length := by
  induction items with
  | nil => rfl
  | cons item items ih =>
      obtain ⟨hitem, hitems⟩ := List.forall_mem_cons.mp h
      rw [total_cons, hitem, ih hitems, List.length_cons, Nat.add_comm]

theorem rows_eq : rows height items = items := by
  induction items with
  | nil => rfl
  | cons item items ih =>
      obtain ⟨hitem, hitems⟩ := List.forall_mem_cons.mp h
      have hrest : rows height items = items := ih hitems
      rw [rows] at hrest ⊢
      rw [List.flatMap_cons, hitem, hrest]
      rfl

/-- Items of one row each are in the row of their number. -/
theorem getElem?_place (row i : Nat) :
    (place height row items)[i]? = items[i]?.map fun item => ⟨item, row + i, row + i + 1⟩ := by
  induction items generalizing row i with
  | nil => rfl
  | cons item items ih =>
      obtain ⟨hitem, hitems⟩ := List.forall_mem_cons.mp h
      cases i with
      | zero => rw [place, hitem]; rfl
      | succ i =>
          rw [place, hitem, List.getElem?_cons_succ, List.getElem?_cons_succ, ih hitems]
          have hrow : row + 1 + i = row + (i + 1) := by omega
          rw [hrow]

end Placing

end Kross.RowLayout

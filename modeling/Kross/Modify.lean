import Mathlib.Algebra.BigOperators.Group.List.Basic
import Mathlib.Algebra.GroupWithZero.Nat
import Mathlib.Tactic.Common

namespace Kross.Modify

variable {α : Type*} {l : List α} {i : Nat} {f : α → α} {a : α}

theorem mem_modify (h : a ∈ l.modify i f) : a ∈ l ∨ ∃ b, l[i]? = some b ∧ a = f b := by
  obtain ⟨j, hj⟩ := List.mem_iff_getElem?.mp h
  by_cases hij : i = j
  · subst hij
    rw [List.getElem?_modify_eq] at hj
    obtain ⟨b, hb, rfl⟩ := Option.map_eq_some_iff.mp hj
    exact Or.inr ⟨b, hb, rfl⟩
  · rw [List.getElem?_modify_ne _ _ hij] at hj
    exact Or.inl (List.mem_of_getElem? hj)

/-- Counting what meets `p`, where the element that changes does so only if it did before. -/
theorem countP_modify_le {p : α → Bool} (hf : ∀ a, l[i]? = some a → p (f a) = true → p a = true) :
    (l.modify i f).countP p ≤ l.countP p := by
  induction l generalizing i with
  | nil => simp
  | cons b l ih =>
      cases i with
      | zero =>
          have hb : p (f b) = true → p b = true := hf b rfl
          rw [List.modify_zero_cons, List.countP_cons, List.countP_cons]
          cases hp : p (f b)
          · simp
          · simp [hb hp]
      | succ i =>
          have hi := ih (i := i) (fun a ha => hf a (by simpa using ha))
          rw [List.modify_succ_cons, List.countP_cons, List.countP_cons]
          omega

theorem sum_map_modify {φ : α → Nat} (h : l[i]? = some a) :
    ((l.modify i f).map φ).sum + φ a = (l.map φ).sum + φ (f a) := by
  induction l generalizing i with
  | nil => simp at h
  | cons b l ih =>
      cases i with
      | zero =>
          have hb : b = a := by simpa using h
          subst hb
          simp only [List.modify_zero_cons, List.map_cons, List.sum_cons]
          omega
      | succ i =>
          have hi := ih (i := i) (by simpa using h)
          simp only [List.modify_succ_cons, List.map_cons, List.sum_cons]
          omega

end Kross.Modify

import Mathlib.Data.List.Forall2
import Mathlib.Tactic.Common

namespace Kross.PartialMap

variable {α β : Type} {f : α → Option β} {l : List α} {l' : List β}

theorem forall₂_of_mapM (h : l.mapM f = some l') : List.Forall₂ (fun a b => f a = some b) l l' := by
  induction l generalizing l' with
  | nil =>
      cases h
      exact .nil
  | cons a l ih =>
      rw [List.mapM_cons] at h
      obtain ⟨b, hb, h⟩ := Option.bind_eq_some_iff.mp h
      obtain ⟨rest, hrest, h⟩ := Option.bind_eq_some_iff.mp h
      cases h
      exact .cons hb (ih hrest)

theorem exists_of_mem_mapM {b : β} (h : l.mapM f = some l') (hb : b ∈ l') : ∃ a ∈ l, f a = some b := by
  obtain ⟨n, rfl⟩ := List.mem_iff_get.mp hb
  have hall := forall₂_of_mapM h
  have hlt : n.val < l.length := Nat.lt_of_lt_of_eq n.isLt hall.length_eq.symm
  exact ⟨l.get ⟨n, hlt⟩, List.get_mem l _, hall.get hlt n.isLt⟩

theorem exists_mem_mapM {a : α} (h : l.mapM f = some l') (ha : a ∈ l) : ∃ b ∈ l', f a = some b := by
  obtain ⟨n, rfl⟩ := List.mem_iff_get.mp ha
  have hall := forall₂_of_mapM h
  have hlt : n.val < l'.length := Nat.lt_of_lt_of_eq n.isLt hall.length_eq
  exact ⟨l'.get ⟨n, hlt⟩, List.get_mem l' _, hall.get n.isLt hlt⟩

theorem mapM_eq_map {g : α → β} (h : ∀ a ∈ l, f a = some (g a)) : l.mapM f = some (l.map g) := by
  induction l with
  | nil => rfl
  | cons a l ih =>
      rw [List.mapM_cons, h a List.mem_cons_self, ih (fun b hb => h b (List.mem_cons_of_mem a hb))]
      rfl

/-- The map succeeds when it does at every element. -/
theorem exists_mapM (h : ∀ a ∈ l, ∃ b, f a = some b) : ∃ l', l.mapM f = some l' := by
  induction l with
  | nil => exact ⟨[], rfl⟩
  | cons a l ih =>
      obtain ⟨b, hb⟩ := h a List.mem_cons_self
      obtain ⟨rest, hrest⟩ := ih (fun c hc => h c (List.mem_cons_of_mem a hc))
      refine ⟨b :: rest, ?_⟩
      rw [List.mapM_cons, hb, hrest]
      rfl

theorem forall₂_trans {γ : Type} {R : α → β → Prop} {S : β → γ → Prop} {T : α → γ → Prop} {l'' : List γ}
    (hR : List.Forall₂ R l l') (hS : List.Forall₂ S l' l'')
    (h : ∀ a ∈ l, ∀ b c, R a b → S b c → T a c) : List.Forall₂ T l l'' := by
  induction hR generalizing l'' with
  | nil =>
      cases hS
      exact .nil
  | cons hab _ ih =>
      cases hS with
      | cons hbc hS =>
          exact .cons (h _ List.mem_cons_self _ _ hab hbc)
            (ih hS (fun a ha => h a (List.mem_cons_of_mem _ ha)))

end Kross.PartialMap

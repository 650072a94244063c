import Mathlib.Data.List.Basic

namespace Kross.Contiguous

variable {α β : Type*}

/-- What is equal stands together. -/
def Contiguous : List α → Prop
  | [] => True
  | x :: l => (x ∈ l → l.head? = some x) ∧ Contiguous l

variable {l l' : List α} {x y : α}

theorem Contiguous.tail (h : Contiguous (x :: l)) : Contiguous l := h.2

theorem Contiguous.drop (h : Contiguous l) (n : Nat) : Contiguous (l.drop n) := by
  induction n generalizing l with
  | zero => exact h
  | succ n ih =>
      cases l with
      | nil => exact h
      | cons x l => exact ih h.tail

theorem Contiguous.of_append (h : Contiguous (l' ++ l)) : Contiguous l := by
  have hdrop := h.drop l'.length
  rwa [List.drop_left] at hdrop

theorem Contiguous.cons_new (h : Contiguous l) (hx : x ∉ l) : Contiguous (x :: l) :=
  ⟨fun hmem => absurd hmem hx, h⟩

/-- An element may be added behind itself or when it is new. -/
theorem Contiguous.concat (h : Contiguous l) (hx : x ∈ l → l.getLast? = some x) : Contiguous (l ++ [x]) := by
  induction l with
  | nil => exact ⟨nofun, trivial⟩
  | cons y l ih =>
      cases l with
      | nil => exact ⟨fun hmem => by rw [List.mem_singleton.mp hmem]; rfl, nofun, trivial⟩
      | cons z l =>
          refine ⟨fun hmem => ?_, ih h.tail (fun hmem => ?_)⟩
          · rcases List.mem_append.mp hmem with hmem | hmem
            · exact h.1 hmem
            · have hyx := List.mem_singleton.mp hmem
              have hlast : (z :: l).getLast? = some x := hx (by rw [hyx]; exact List.mem_cons_self)
              exact h.1 (hyx ▸ List.mem_of_getLast? hlast)
          · exact hx (List.mem_cons_of_mem _ hmem)

theorem Contiguous.map {f : α → β} (h : Contiguous l) (hf : ∀ a ∈ l, ∀ b ∈ l, f a = f b → a = b) :
    Contiguous (l.map f) := by
  induction l with
  | nil => trivial
  | cons x l ih =>
      refine ⟨fun hmem => ?_, ih h.tail (fun a ha b hb => hf a (List.mem_cons_of_mem _ ha) b (List.mem_cons_of_mem _ hb))⟩
      obtain ⟨a, ha, hax⟩ := List.mem_map.mp hmem
      have haeq := hf a (List.mem_cons_of_mem _ ha) x List.mem_cons_self hax
      have hhead := h.1 (haeq ▸ ha)
      rw [List.head?_map, hhead]
      rfl

/-- Between two equal elements all are equal to them. -/
theorem Contiguous.between {mid rest : List α} (h : Contiguous (x :: (mid ++ x :: rest))) : ∀ y ∈ mid, y = x := by
  induction mid with
  | nil => nofun
  | cons z mid ih =>
      have hhead : some z = some x := h.1 (by simp)
      cases hhead
      intro y hy
      rcases List.mem_cons.mp hy with rfl | hy
      · rfl
      · exact ih h.tail y hy

/-- Behind an element that is also the last one there is nothing else. -/
theorem Contiguous.until_last (h : Contiguous (x :: l)) (hlast : (x :: l).getLast? = some x) : ∀ y ∈ l, y = x := by
  induction l with
  | nil => nofun
  | cons z l ih =>
      have hlast' : (z :: l).getLast? = some x := hlast
      have hhead : some z = some x := h.1 (List.mem_of_getLast? hlast')
      cases hhead
      intro y hy
      rcases List.mem_cons.mp hy with rfl | hy
      · rfl
      · exact ih h.tail hlast' y hy

theorem getLast?_drop {n : Nat} (hn : n < l.length) : (l.drop n).getLast? = l.getLast? := by
  conv_rhs => rw [← List.take_append_drop n l]
  rw [List.getLast?_append]
  have hne : l.drop n ≠ [] := by
    intro hnil
    have hlength := congrArg List.length hnil
    rw [List.length_drop, List.length_nil] at hlength
    omega
  obtain ⟨a, ha⟩ := Option.isSome_iff_exists.mp (List.getLast?_isSome.mpr hne)
  rw [ha]
  rfl

end Kross.Contiguous

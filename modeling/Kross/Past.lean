import Mathlib.Data.List.Induction
import Mathlib.Tactic.Common

namespace Kross.Past

variable {α : Type*}

/-- Some element of the list meets `P`, given the elements before it. -/
def Once (P : List α → α → Prop) (l : List α) : Prop :=
  ∃ before a after, l = before ++ a :: after ∧ P before a

/-- Some element meets `P`, and none behind it meets `Q`. -/
def Since (P Q : List α → α → Prop) (l : List α) : Prop :=
  ∃ before a after, l = before ++ a :: after ∧ P before a ∧
    ∀ between b rest, after = between ++ b :: rest → ¬Q (before ++ a :: between) b

variable {P Q : List α → α → Prop} {l : List α} {a : α}

theorem not_once_nil : ¬Once P [] := by
  rintro ⟨before, a, after, h, -⟩
  cases before <;> cases h

theorem not_since_nil : ¬Since P Q [] := by
  rintro ⟨before, a, after, h, -⟩
  cases before <;> cases h

/-- A list that ends in an element is split at it or before it. -/
theorem concat_eq_split {before after : List α} {b : α} (h : l ++ [a] = before ++ b :: after) :
    (before = l ∧ b = a ∧ after = []) ∨ ∃ rest, after = rest ++ [a] ∧ l = before ++ b :: rest := by
  rcases List.eq_nil_or_concat after with rfl | ⟨rest, c, rfl⟩
  · obtain ⟨rfl, hb⟩ := List.append_inj' h rfl
    exact Or.inl ⟨rfl, (List.singleton_inj.mp hb).symm, rfl⟩
  · rw [List.concat_eq_append, ← List.cons_append, ← List.append_assoc] at h
    obtain ⟨hl, hc⟩ := List.append_inj' h rfl
    cases List.singleton_inj.mp hc
    exact Or.inr ⟨rest, List.concat_eq_append, hl⟩

theorem once_concat : Once P (l ++ [a]) ↔ Once P l ∨ P l a := by
  constructor
  · rintro ⟨before, b, after, h, hp⟩
    rcases concat_eq_split h with ⟨rfl, rfl, rfl⟩ | ⟨rest, -, rfl⟩
    · exact Or.inr hp
    · exact Or.inl ⟨before, b, rest, rfl, hp⟩
  · rintro (⟨before, b, after, rfl, hp⟩ | hp)
    · exact ⟨before, b, after ++ [a], by simp, hp⟩
    · exact ⟨l, a, [], rfl, hp⟩

theorem since_concat : Since P Q (l ++ [a]) ↔ P l a ∨ Since P Q l ∧ ¬Q l a := by
  constructor
  · rintro ⟨before, b, after, h, hp, hq⟩
    rcases concat_eq_split h with ⟨rfl, rfl, rfl⟩ | ⟨rest, rfl, rfl⟩
    · exact Or.inl hp
    · refine Or.inr ⟨⟨before, b, rest, rfl, hp, fun between c more hc => ?_⟩, hq rest a [] rfl⟩
      exact hq between c (more ++ [a]) (by rw [hc]; simp)
  · rintro (hp | ⟨⟨before, b, after, rfl, hp, hq⟩, hqa⟩)
    · refine ⟨l, a, [], rfl, hp, fun between c more hc => ?_⟩
      cases between <;> cases hc
    · refine ⟨before, b, after ++ [a], by simp, hp, fun between c more hc => ?_⟩
      rcases concat_eq_split hc with ⟨rfl, rfl, rfl⟩ | ⟨rest, -, rfl⟩
      · exact hqa
      · exact hq between c rest rfl

theorem Once.append (h : Once P l) (more : List α) : Once P (l ++ more) := by
  obtain ⟨before, a, after, rfl, hp⟩ := h
  exact ⟨before, a, after ++ more, by simp, hp⟩

theorem Once.mono {P' : List α → α → Prop} (h : Once P l) (hP : ∀ before a, P before a → P' before a) :
    Once P' l := by
  obtain ⟨before, a, after, rfl, hp⟩ := h
  exact ⟨before, a, after, rfl, hP before a hp⟩

theorem Since.once (h : Since P Q l) : Once P l := by
  obtain ⟨before, a, after, rfl, hp, -⟩ := h
  exact ⟨before, a, after, rfl, hp⟩

end Kross.Past

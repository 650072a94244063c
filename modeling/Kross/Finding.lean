import Mathlib.Data.List.Basic
import Mathlib.Tactic.Common

namespace Kross.Finding

variable {α : Type}

/-- A search for texts of some kind: it gives the first of them, with what is before and
behind it. -/
structure Finder (α : Type) where
  Kind : List α → Prop
  first : List α → Option (List α × List α × List α)
  nonempty : ∀ m, Kind m → m ≠ []
  found : ∀ text x m y, first text = some (x, m, y) → text = x ++ m ++ y ∧ Kind m ∧
    ∀ x' m' y', text = x' ++ m' ++ y' → Kind m' → x.length ≤ x'.length
  missed : ∀ text, first text = none → ∀ x m y, text = x ++ m ++ y → ¬Kind m

variable (f : Finder α)

def Occurs (text : List α) : Prop := ∃ x m y, text = x ++ m ++ y ∧ f.Kind m

/-- Two of the texts share a place. -/
def Overlapping (text : List α) : Prop :=
  ∃ x m y x' m' y', (text = x ++ m ++ y ∧ f.Kind m) ∧ (text = x' ++ m' ++ y' ∧ f.Kind m') ∧
    (x, m) ≠ (x', m') ∧ x.length ≤ x'.length ∧ x'.length < x.length + m.length

/-- The only text of the kind is replaced, overlapping ones counted. -/
def OnlyReplaced (new text result : List α) : Prop :=
  ∃ x m y, (text = x ++ m ++ y ∧ f.Kind m) ∧ result = x ++ new ++ y ∧
    ∀ x' m' y', text = x' ++ m' ++ y' → f.Kind m' → x' = x ∧ m' = m

/-- All texts of the kind that the search finds, one behind the other, are replaced. -/
inductive AllReplaced (new : List α) : List α → List α → Prop
  | none (text : List α) (h : f.first text = none) : AllReplaced new text text
  | some (text x m y rest : List α) (h : f.first text = some (x, m, y)) (hrest : AllReplaced new y rest) :
      AllReplaced new text (x ++ new ++ rest)

variable {f} {text x m y new result : List α}

theorem occurs_iff : Occurs f text ↔ f.first text ≠ none := by
  constructor
  · rintro ⟨x, m, y, htext, hm⟩ hnone
    exact f.missed text hnone x m y htext hm
  · intro h
    obtain ⟨⟨x, m, y⟩, hfirst⟩ := Option.ne_none_iff_exists'.mp h
    obtain ⟨htext, hm, -⟩ := f.found text x m y hfirst
    exact ⟨x, m, y, htext, hm⟩

theorem same_start {x' m' y' : List α} (h : text = x ++ m ++ y) (h' : text = x' ++ m' ++ y') (hlength : x'.length = x.length) :
    x' = x := by
  rw [h, List.append_assoc, List.append_assoc] at h'
  exact (List.append_inj h' hlength.symm).1.symm

/-- Where the search finds one text only, it is the only one unless it overlaps another. -/
theorem only_iff (h : f.first text = some (x, m, y)) (hnone : f.first y = none) :
    (∀ x' m' y', text = x' ++ m' ++ y' → f.Kind m' → x' = x ∧ m' = m) ↔ ¬Overlapping f text := by
  obtain ⟨htext, hm, hfirst⟩ := f.found text x m y h
  constructor
  · rintro honly ⟨x₁, m₁, y₁, x₂, m₂, y₂, h₁, h₂, hne, -⟩
    obtain ⟨rfl, rfl⟩ := honly x₁ m₁ y₁ h₁.1 h₁.2
    obtain ⟨rfl, rfl⟩ := honly x₂ m₂ y₂ h₂.1 h₂.2
    exact hne rfl
  · intro hoverlap x' m' y' htext' hm'
    have hle := hfirst x' m' y' htext' hm'
    by_cases hlt : x'.length < x.length + m.length
    · by_contra hne
      refine hoverlap ⟨x, m, y, x', m', y', ⟨htext, hm⟩, ⟨htext', hm'⟩, ?_, hle, hlt⟩
      intro he
      cases he
      exact hne ⟨rfl, rfl⟩
    · -- it lies behind the one that is found
      refine absurd hm' (f.missed y hnone (x'.drop (x.length + m.length)) m' y' ?_)
      have hdrop := congrArg (List.drop (x.length + m.length)) (htext.symm.trans htext')
      rw [← List.length_append, List.drop_left, List.append_assoc, List.length_append,
        List.drop_append_of_le_length (by omega)] at hdrop
      rw [hdrop, List.append_assoc]

theorem onlyReplaced_iff {s : List α} (h : f.first text = some (x, m, y)) (hnone : f.first y = none) :
    OnlyReplaced f new text (x ++ s ++ y) ↔ ¬Overlapping f text ∧ s = new := by
  obtain ⟨htext, hm, hfirst⟩ := f.found text x m y h
  rw [← only_iff h hnone]
  constructor
  · rintro ⟨x', m', y', ⟨htext', hm'⟩, hresult, honly⟩
    obtain ⟨rfl, rfl⟩ := honly x m y htext hm
    have hy : y' = y := by
      rw [htext] at htext'
      exact (List.append_cancel_left htext').symm
    subst hy
    refine ⟨honly, ?_⟩
    rw [List.append_assoc, List.append_assoc] at hresult
    exact List.append_cancel_right (List.append_cancel_left hresult)
  · rintro ⟨honly, rfl⟩
    exact ⟨x, m, y, ⟨htext, hm⟩, rfl, honly⟩

/-- Where the search goes on to find another text, there is no only one. -/
theorem not_onlyReplaced (h : f.first text = some (x, m, y)) (hsome : f.first y ≠ none) : ¬OnlyReplaced f new text result := by
  rintro ⟨x', m', y', -, -, honly⟩
  obtain ⟨htext, hm, -⟩ := f.found text x m y h
  obtain ⟨⟨x₂, m₂, y₂⟩, h₂⟩ := Option.ne_none_iff_exists'.mp hsome
  obtain ⟨hy, hm₂, -⟩ := f.found y x₂ m₂ y₂ h₂
  have hsecond : text = (x ++ m ++ x₂) ++ m₂ ++ y₂ := by
    rw [htext, hy]
    simp
  obtain ⟨hx, -⟩ := honly x m y htext hm
  obtain ⟨hx₂, -⟩ := honly _ m₂ y₂ hsecond hm₂
  have hlength := congrArg List.length (hx.trans hx₂.symm)
  have hpos := List.length_pos_iff.mpr (f.nonempty m hm)
  simp only [List.length_append] at hlength
  omega

theorem length_behind (h : f.first text = some (x, m, y)) : y.length < text.length := by
  obtain ⟨htext, hm, -⟩ := f.found text x m y h
  have hpos := List.length_pos_iff.mpr (f.nonempty m hm)
  rw [htext]
  simp only [List.length_append]
  omega

end Kross.Finding

import Mathlib.Tactic.Common

namespace Kross.Watermark

variable {α : Type*} (seq : α → Nat)

/-- No kept event numbered up to the mark is missing. -/
def Complete (kept : List α) (got : α → Prop) (mark : Nat) : Prop := ∀ e ∈ kept, seq e ≤ mark → got e

/-- The arrival of `e` passes over no kept event that is missing. -/
def Timely (kept : List α) (got : α → Prop) (mark : Nat) (e : α) : Prop :=
  ∀ d ∈ kept, mark < seq d → seq d ≤ seq e → d = e ∨ got d

variable {seq} {kept more : List α} {got got' : α → Prop} {mark low : Nat} {e : α}

theorem complete_zero (h : ∀ e ∈ kept, 0 < seq e) : Complete seq kept got 0 :=
  fun e he hle => absurd (h e he) (Nat.not_lt.mpr hle)

theorem Complete.of_le (h : Complete seq kept got mark) (hle : low ≤ mark) : Complete seq kept got low :=
  fun e he hlow => h e he (Nat.le_trans hlow hle)

theorem Complete.mono (h : Complete seq kept got mark) (hgot : ∀ e, got e → got' e) :
    Complete seq kept got' mark := fun e he hle => hgot e (h e he hle)

/-- New events are numbered above the mark. -/
theorem Complete.extend (h : Complete seq kept got mark)
    (hnew : ∀ e ∈ more, e ∈ kept ∨ mark < seq e) : Complete seq more got mark := by
  intro e he hle
  rcases hnew e he with hk | hlt
  · exact h e hk hle
  · exact absurd hle (Nat.not_le.mpr hlt)

theorem Complete.advance (h : Complete seq kept got mark) (ht : Timely seq kept got mark e) :
    Complete seq kept (fun d => got d ∨ d = e) (seq e) := by
  intro d hd hle
  rcases Nat.lt_or_ge mark (seq d) with hlt | hge
  · exact (ht d hd hlt hle).symm
  · exact Or.inl (h d hd hge)

end Kross.Watermark

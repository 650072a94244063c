import Mathlib.Data.List.Basic
import Mathlib.Data.List.Infix
import Mathlib.Tactic.Common

namespace Kross.Occurrence

variable {α : Type} [DecidableEq α]

/-- What is behind a prefix. -/
def behind : List α → List α → Option (List α)
  | [], text => some text
  | _ :: _, [] => none
  | a :: pattern, b :: text => if a = b then behind pattern text else none

/-- What is before and behind the first occurrence of a pattern. -/
def cut (pattern : List α) : List α → Option (List α × List α)
  | [] => (behind pattern []).map (fun after => ([], after))
  | a :: text => match behind pattern (a :: text) with
    | some after => some ([], after)
    | none => (cut pattern text).map (fun (before, after) => (a :: before, after))

variable {pattern text before after : List α}

theorem behind_eq_some : behind pattern text = some after ↔ text = pattern ++ after := by
  induction pattern generalizing text with
  | nil => simp [behind]
  | cons a pattern ih =>
      cases text with
      | nil => simp [behind]
      | cons b text =>
          rw [behind]
          split_ifs with hab
          · rw [ih, hab]
            simp
          · simp [Ne.symm hab]

theorem cut_spec (h : cut pattern text = some (before, after)) :
    text = before ++ pattern ++ after ∧ ∀ x y, text = x ++ pattern ++ y → before.length ≤ x.length := by
  induction text generalizing before with
  | nil =>
      rw [cut, Option.map_eq_some_iff] at h
      obtain ⟨rest, hbehind, he⟩ := h
      cases he
      exact ⟨behind_eq_some.mp hbehind, fun _ _ _ => Nat.zero_le _⟩
  | cons a text ih =>
      rw [cut] at h
      split at h
      · rename_i rest hbehind
        cases h
        exact ⟨behind_eq_some.mp hbehind, fun _ _ _ => Nat.zero_le _⟩
      · rename_i hbehind
        rw [Option.map_eq_some_iff] at h
        obtain ⟨⟨before', after'⟩, hcut, he⟩ := h
        cases he
        obtain ⟨htext, hfirst⟩ := ih hcut
        refine ⟨by rw [htext]; rfl, fun x y hxy => ?_⟩
        cases x with
        | nil =>
            rw [List.nil_append] at hxy
            rw [behind_eq_some.mpr hxy] at hbehind
            cases hbehind
        | cons b x =>
            have hrest : text = x ++ pattern ++ y := (List.cons.inj hxy).2
            simpa using hfirst x y hrest

theorem cut_eq_none : cut pattern text = none ↔ ∀ x y, text ≠ x ++ pattern ++ y := by
  constructor
  · intro h
    induction text with
    | nil =>
        intro x y hxy
        rw [cut, Option.map_eq_none_iff] at h
        have hnil : x = [] ∧ pattern = [] ∧ y = [] := by simpa [and_assoc] using hxy.symm
        rw [hnil.2.1] at h
        cases h
    | cons a text ih =>
        intro x y hxy
        rw [cut] at h
        split at h
        · cases h
        · rename_i hbehind
          rw [Option.map_eq_none_iff] at h
          cases x with
          | nil =>
              rw [List.nil_append] at hxy
              rw [behind_eq_some.mpr hxy] at hbehind
              cases hbehind
          | cons b x => exact ih h x y (List.cons.inj hxy).2
  · intro h
    cases hcut : cut pattern text with
    | none => rfl
    | some found => exact absurd (cut_spec hcut).1 (h _ _)

theorem cut_isSome (h : text = before ++ pattern ++ after) : ∃ x y, cut pattern text = some (x, y) ∧ x.length ≤ before.length := by
  cases hcut : cut pattern text with
  | none => exact absurd h (cut_eq_none.mp hcut _ _)
  | some found => exact ⟨found.1, found.2, rfl, (cut_spec hcut).2 _ _ h⟩

omit [DecidableEq α] in
/-- Two occurrences at one place are the same. -/
theorem same_place {x y : List α} (h : text = before ++ pattern ++ after) (h' : text = x ++ pattern ++ y)
    (hlength : before.length = x.length) : before = x ∧ after = y := by
  rw [h', List.append_assoc, List.append_assoc] at h
  obtain ⟨hx, hrest⟩ := List.append_inj h hlength.symm
  exact ⟨hx.symm, (List.append_cancel_left hrest).symm⟩

/-- The pattern occurs in one place only, overlapping ones included. -/
theorem cut_unique (h : cut pattern text = some (before, after)) (hnone : cut pattern (text.drop (before.length + 1)) = none)
    {x y : List α} (hxy : text = x ++ pattern ++ y) : before = x ∧ after = y := by
  obtain ⟨htext, hfirst⟩ := cut_spec h
  have hle := hfirst x y hxy
  rcases Nat.eq_or_lt_of_le hle with hlength | hlt
  · exact same_place htext hxy hlength
  · refine absurd ?_ (cut_eq_none.mp hnone (x.drop (before.length + 1)) y)
    rw [hxy, List.append_assoc, List.drop_append_of_le_length (by omega), ← List.append_assoc]

/-- The parts of a text between the occurrences of a pattern, from left to right; `fuel` is
the length of the text. -/
def pieces (pattern : List α) : Nat → List α → List (List α)
  | 0, text => [text]
  | fuel + 1, text => match cut pattern text with
    | none => [text]
    | some (before, after) => before :: pieces pattern fuel after

/-- `split` by a text that is not empty. -/
def split (pattern text : List α) : List (List α) := pieces pattern text.length text

/-- `indexOf` from a position on. -/
def indexOf (text pattern : List α) (position : Nat) : Option Nat :=
  (cut pattern (text.drop position)).map (fun found => position + found.1.length)

theorem indexOf_zero : indexOf text pattern 0 = (cut pattern text).map (fun found => found.1.length) := by
  simp [indexOf]

theorem indexOf_eq_none {position : Nat} : indexOf text pattern position = none ↔ cut pattern (text.drop position) = none := by
  rw [indexOf, Option.map_eq_none_iff]

/-- A text between two cuts. -/
theorem take_drop_of_cut (h : cut pattern text = some (before, after)) :
    text.take before.length = before ∧ text.drop (before.length + pattern.length) = after := by
  obtain ⟨htext, -⟩ := cut_spec h
  constructor
  · rw [htext, List.append_assoc, List.take_left]
  · rw [htext, ← List.length_append, List.drop_left]

end Kross.Occurrence

import Mathlib.Data.List.Basic
import Mathlib.Tactic.Common

namespace Kross.Wildcard

variable {α : Type}

/-- One letter of a kind, or any number of them. -/
inductive Piece (α : Type)
  | one (p : α → Bool)
  | many (p : α → Bool)

/-- Letters of a kind, and then what the rest of the pattern takes. -/
def spread (p : α → Bool) (rest : List α → Bool) : List α → Bool
  | [] => rest []
  | c :: text => rest (c :: text) || (p c && spread p rest text)

/-- The pattern takes the whole text. -/
def accepts : List (Piece α) → List α → Bool
  | [], text => text.isEmpty
  | .one p :: pieces, text => match text with
    | [] => false
    | c :: text => p c && accepts pieces text
  | .many p :: pieces, text => spread p (accepts pieces) text

variable {p : α → Bool} {rest : List α → Bool} {pieces more : List (Piece α)} {text : List α}

theorem spread_iff :
    spread p rest text = true ↔ ∃ run end', text = run ++ end' ∧ (∀ c ∈ run, p c = true) ∧ rest end' = true := by
  induction text with
  | nil =>
      rw [spread]
      constructor
      · intro h
        exact ⟨[], [], rfl, by simp, h⟩
      · rintro ⟨run, end', htext, -, h⟩
        obtain ⟨rfl, rfl⟩ := List.append_eq_nil_iff.mp htext.symm
        exact h
  | cons c text ih =>
      rw [spread, Bool.or_eq_true, Bool.and_eq_true, ih]
      constructor
      · rintro (h | ⟨hc, run, end', rfl, hrun, h⟩)
        · exact ⟨[], c :: text, rfl, by simp, h⟩
        · exact ⟨c :: run, end', rfl, by simpa using ⟨hc, hrun⟩, h⟩
      · rintro ⟨run, end', htext, hrun, h⟩
        cases run with
        | nil =>
            left
            rw [htext]
            exact h
        | cons d run =>
            obtain ⟨rfl, rfl⟩ := List.cons_eq_cons.mp htext
            right
            exact ⟨hrun c (by simp), run, end', rfl, fun d hd => hrun d (by simp [hd]), h⟩

theorem accepts_nil : accepts [] text = true ↔ text = [] := by
  rw [accepts, List.isEmpty_iff]

theorem accepts_one :
    accepts (.one p :: pieces) text = true ↔ ∃ c end', text = c :: end' ∧ p c = true ∧ accepts pieces end' = true := by
  cases text with
  | nil => simp [accepts]
  | cons c text => simp [accepts]

theorem accepts_many :
    accepts (.many p :: pieces) text = true ↔
      ∃ run end', text = run ++ end' ∧ (∀ c ∈ run, p c = true) ∧ accepts pieces end' = true :=
  spread_iff

theorem accepts_append :
    accepts (pieces ++ more) text = true ↔
      ∃ start end', text = start ++ end' ∧ accepts pieces start = true ∧ accepts more end' = true := by
  induction pieces generalizing text with
  | nil => simp [accepts_nil]
  | cons piece pieces ih =>
      cases piece with
      | one p =>
          rw [List.cons_append, accepts_one]
          constructor
          · rintro ⟨c, end', rfl, hc, h⟩
            obtain ⟨start, end', rfl, hstart, hend⟩ := ih.mp h
            exact ⟨c :: start, end', rfl, accepts_one.mpr ⟨c, start, rfl, hc, hstart⟩, hend⟩
          · rintro ⟨start, end', rfl, hstart, hend⟩
            obtain ⟨c, start, rfl, hc, h⟩ := accepts_one.mp hstart
            exact ⟨c, start ++ end', rfl, hc, ih.mpr ⟨start, end', rfl, h, hend⟩⟩
      | many p =>
          rw [List.cons_append, accepts_many]
          constructor
          · rintro ⟨run, end', rfl, hrun, h⟩
            obtain ⟨start, end', rfl, hstart, hend⟩ := ih.mp h
            exact ⟨run ++ start, end', by simp, accepts_many.mpr ⟨run, start, rfl, hrun, hstart⟩, hend⟩
          · rintro ⟨start, end', rfl, hstart, hend⟩
            obtain ⟨run, start, rfl, hrun, h⟩ := accepts_many.mp hstart
            exact ⟨run, start ++ end', by simp, hrun, ih.mpr ⟨start, end', rfl, h, hend⟩⟩

/-- A run that takes everything there is gives the rest of the pattern any end of the text. -/
theorem accepts_many_of_all (h : ∀ c ∈ text, p c = true) :
    accepts (.many p :: pieces) text = true ↔ ∃ end', end' <:+ text ∧ accepts pieces end' = true := by
  rw [accepts_many]
  constructor
  · rintro ⟨run, end', rfl, -, hend⟩
    exact ⟨end', List.suffix_append run end', hend⟩
  · rintro ⟨end', ⟨run, rfl⟩, hend⟩
    exact ⟨run, end', rfl, fun c hc => h c (List.mem_append_left _ hc), hend⟩

theorem accepts_many_many : accepts (.many p :: .many p :: pieces) text = true ↔ accepts (.many p :: pieces) text = true := by
  rw [accepts_many, accepts_many]
  constructor
  · rintro ⟨run, end', rfl, hrun, h⟩
    obtain ⟨more, end', rfl, hmore, hend⟩ := accepts_many.mp h
    refine ⟨run ++ more, end', by simp, fun c hc => ?_, hend⟩
    rcases List.mem_append.mp hc with hc | hc
    · exact hrun c hc
    · exact hmore c hc
  · rintro ⟨run, end', rfl, hrun, hend⟩
    exact ⟨[], run ++ end', rfl, by simp, accepts_many.mpr ⟨run, end', rfl, hrun, hend⟩⟩

/-- The letters a pattern can take. -/
def Piece.Takes (piece : Piece α) (c : α) : Prop := match piece with
  | .one p => p c = true
  | .many p => p c = true

theorem taken_of_accepts (h : accepts pieces text = true) : ∀ c ∈ text, ∃ piece ∈ pieces, piece.Takes c := by
  induction pieces generalizing text with
  | nil =>
      rw [accepts_nil.mp h]
      simp
  | cons piece pieces ih =>
      intro c hc
      cases piece with
      | one p =>
          obtain ⟨d, end', rfl, hd, hend⟩ := accepts_one.mp h
          rcases List.mem_cons.mp hc with rfl | hc
          · exact ⟨.one p, by simp, hd⟩
          · obtain ⟨piece, hpiece, htakes⟩ := ih hend c hc
            exact ⟨piece, by simp [hpiece], htakes⟩
      | many p =>
          obtain ⟨run, end', rfl, hrun, hend⟩ := accepts_many.mp h
          rcases List.mem_append.mp hc with hc | hc
          · exact ⟨.many p, by simp, hrun c hc⟩
          · obtain ⟨piece, hpiece, htakes⟩ := ih hend c hc
            exact ⟨piece, by simp [hpiece], htakes⟩

end Kross.Wildcard

import Kross.Run

namespace Kross.Coalescing

open Run

variable {S E A : Type*}

/-- Events and actions that change a state. Some of the events are held back and merged. -/
structure Machine (S E A : Type*) where
  receive : S → E → S
  act : S → A → S
  holds : E → Bool
  merge : E → E → Option E
  holds_merge : ∀ d e c, merge d e = some c → holds c = true
  receive_merge : ∀ s d e c, merge d e = some c → receive s c = receive (receive s d) e

/-- What comes in; at a frame nothing is held back any more. -/
inductive Input (E A : Type*)
  | arrive (e : E)
  | act (a : A)
  | frame

structure Held (S E : Type*) where
  state : S
  pending : Option E

namespace Machine

variable (m : Machine S E A)

def flush (h : Held S E) : Held S E :=
  match h.pending with
  | some d => ⟨m.receive h.state d, none⟩
  | none => h

def next (h : Held S E) : Input E A → Held S E
  | .arrive e =>
    if m.holds e then
      match h.pending.bind fun d => m.merge d e with
      | some merged => ⟨h.state, some merged⟩
      | none => ⟨(m.flush h).state, some e⟩
    else ⟨m.receive (m.flush h).state e, none⟩
  | .act a => ⟨m.act h.state a, h.pending⟩
  | .frame => m.flush h

/-- Every event is received when it comes. -/
def direct (s : S) : Input E A → S
  | .arrive e => m.receive s e
  | .act a => m.act s a
  | .frame => s

def Commute (s : S) (d : E) (a : A) : Prop := m.act (m.receive s d) a = m.receive (m.act s a) d

/-- An action is taken only where `P` lets it pass what is held back. -/
def Passes (P : S → E → A → Prop) (h : Held S E) : Input E A → Prop
  | .act a => ∀ d ∈ h.pending, P h.state d a
  | _ => True

/-- Whatever has come in so far, the flushed state is the one that has held nothing back. -/
def Unseen (h : Held S E) (inputs : List (Input E A)) : Prop :=
  ∀ before rest, inputs = before ++ rest →
    (m.flush (after m.next h before)).state = after m.direct (m.flush h).state before

section Runs

variable {m} {P : S → E → A → Prop} {h : Held S E} {i : Input E A} {inputs : List (Input E A)}

theorem flush_flush : m.flush (m.flush h) = m.flush h := by
  obtain ⟨s, _ | d⟩ := h <;> rfl

theorem holds_next (hpending : ∀ d ∈ h.pending, m.holds d = true) :
    ∀ d ∈ (m.next h i).pending, m.holds d = true := by
  obtain ⟨s, pending⟩ := h
  cases i with
  | arrive e =>
      rw [next]
      split_ifs with he
      · split
        next merged hmerge =>
          rintro c ⟨⟩
          obtain ⟨d, -, hmerge⟩ := Option.bind_eq_some_iff.mp hmerge
          exact m.holds_merge d e merged hmerge
        next =>
          rintro c ⟨⟩
          exact he
      · rintro c ⟨⟩
  | act a => exact hpending
  | frame =>
      cases pending with
      | none => exact hpending
      | some d => rintro c ⟨⟩

/-- One step cannot be seen exactly when its action commutes with what is held back. -/
theorem flush_next_iff (hP : ∀ s d a, m.holds d = true → (m.Commute s d a ↔ P s d a))
    (hpending : ∀ d ∈ h.pending, m.holds d = true) :
    (m.flush (m.next h i)).state = m.direct (m.flush h).state i ↔ Passes P h i := by
  obtain ⟨s, pending⟩ := h
  cases i with
  | arrive e =>
      refine iff_of_true ?_ trivial
      rw [next]
      split_ifs
      · cases pending with
        | none => rfl
        | some d =>
            dsimp only [Option.bind_some]
            cases hmerge : m.merge d e with
            | some merged => exact m.receive_merge s d e merged hmerge
            | none => rfl
      · rfl
  | act a =>
      cases pending with
      | none => exact iff_of_true rfl nofun
      | some d =>
          have hd : m.Commute s d a ↔ P s d a := hP s d a (hpending d rfl)
          constructor
          · rintro h c ⟨⟩
            exact hd.mp h.symm
          · intro h
            exact (hd.mpr (h d rfl)).symm
  | frame =>
      refine iff_of_true ?_ trivial
      rw [next, flush_flush, direct]

theorem unseen_cons : m.Unseen h (i :: inputs) ↔
    (m.flush (m.next h i)).state = m.direct (m.flush h).state i ∧ m.Unseen (m.next h i) inputs := by
  constructor
  · intro hall
    have hi : (m.flush (m.next h i)).state = m.direct (m.flush h).state i := hall [i] inputs rfl
    refine ⟨hi, fun before rest hsplit => ?_⟩
    rw [hi]
    exact hall (i :: before) rest (by rw [hsplit, List.cons_append])
  · rintro ⟨hi, hrest⟩ before rest hsplit
    cases before with
    | nil => rfl
    | cons j before =>
        cases hsplit
        rw [after_cons, after_cons, ← hi]
        exact hrest before rest rfl

/-- Holding back cannot be seen in a run exactly when each action may pass what is held back. -/
theorem unseen_iff (hP : ∀ s d a, m.holds d = true → (m.Commute s d a ↔ P s d a))
    (hpending : ∀ d ∈ h.pending, m.holds d = true) :
    m.Unseen h inputs ↔ Along m.next (Passes P) h inputs := by
  induction inputs generalizing h with
  | nil =>
      refine iff_of_true (fun before rest hsplit => ?_) along_nil
      rw [(List.append_eq_nil_iff.mp hsplit.symm).1]
      rfl
  | cons i inputs ih => rw [unseen_cons, along_cons, flush_next_iff hP hpending, ih (holds_next hpending)]

end Runs

end Machine

end Kross.Coalescing

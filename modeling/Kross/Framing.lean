import Mathlib.Data.List.Basic
import Mathlib.Tactic.Common

namespace Kross

/-- How the next frame is taken from the front of what has been received: it takes something, and what is
received later does not change it. -/
structure Framing (α β : Type) where
  next : List α → Option (β × List α)
  shrinks : ∀ {s : List α} {b : β} {rest : List α}, next s = some (b, rest) → rest.length < s.length
  grows : ∀ {s : List α} {b : β} {rest : List α} (t : List α), next s = some (b, rest) → next (s ++ t) = some (b, rest ++ t)

namespace Framing

variable {α β : Type} (f : Framing α β)

/-- All frames there are, and what is left. -/
def drain (s : List α) : List β × List α :=
  match h : f.next s with
  | none => ([], s)
  | some (b, rest) => (b :: (drain rest).1, (drain rest).2)
termination_by s.length
decreasing_by all_goals exact f.shrinks h

/-- The frames of what is received in chunks, taken when each chunk has come. -/
def receive : List α → List (List α) → List β × List α
  | buffer, [] => ([], buffer)
  | buffer, chunk :: chunks =>
    ((f.drain (buffer ++ chunk)).1 ++ (receive (f.drain (buffer ++ chunk)).2 chunks).1,
      (receive (f.drain (buffer ++ chunk)).2 chunks).2)

variable {f} {s t rest : List α} {b : β}

theorem drain_none (h : f.next s = none) : f.drain s = ([], s) := by
  rw [drain]
  split
  next => rfl
  next hsome =>
    rw [h] at hsome
    cases hsome

theorem drain_some (h : f.next s = some (b, rest)) : f.drain s = (b :: (f.drain rest).1, (f.drain rest).2) := by
  rw [drain]
  split
  next hnone =>
    rw [h] at hnone
    cases hnone
  next hsome =>
    obtain ⟨rfl, rfl⟩ := Prod.mk.inj (Option.some.inj (h.symm.trans hsome))
    rfl

theorem drain_append (f : Framing α β) (s t : List α) :
    f.drain (s ++ t) = ((f.drain s).1 ++ (f.drain ((f.drain s).2 ++ t)).1, (f.drain ((f.drain s).2 ++ t)).2) := by
  induction hn : s.length using Nat.strongRecOn generalizing s with
  | ind n ih =>
      cases h : f.next s with
      | none =>
          rw [drain_none h]
          rfl
      | some frame =>
          obtain ⟨b, rest⟩ := frame
          rw [drain_some h, drain_some (f.grows t h), ih _ (hn ▸ f.shrinks h) rest rfl]
          rfl

theorem next_drain (f : Framing α β) (s : List α) : f.next (f.drain s).2 = none := by
  induction hn : s.length using Nat.strongRecOn generalizing s with
  | ind n ih =>
      cases h : f.next s with
      | none => rwa [drain_none h]
      | some frame =>
          obtain ⟨b, rest⟩ := frame
          rw [drain_some h]
          exact ih _ (hn ▸ f.shrinks h) rest rfl

/-- Chunks give the frames of the whole. -/
theorem receive_eq (f : Framing α β) (buffer : List α) (chunks : List (List α)) (h : f.next buffer = none) :
    f.receive buffer chunks = f.drain (buffer ++ chunks.flatten) := by
  induction chunks generalizing buffer with
  | nil => rw [receive, List.flatten_nil, List.append_nil, drain_none h]
  | cons chunk chunks ih =>
      rw [receive, ih _ (f.next_drain _), List.flatten_cons, ← List.append_assoc, drain_append f (buffer ++ chunk)]

end Framing

end Kross

import Mathlib.Tactic.Common

namespace Kross

/-- Operations that share resources, and the wish to release these once the
operations are over. -/
structure Drain (Op : Type) where
  running : List Op
  active : Nat
  closing : Bool
  released : Bool
  counted : active = running.length
  idle : released = true → closing = true ∧ active = 0

namespace Drain

variable {Op : Type} [DecidableEq Op] {d : Drain Op} {op : Op}

def fresh : Drain Op := ⟨[], 0, false, false, rfl, nofun⟩

/-- Nothing begins once the drain is closing. -/
def start (op : Op) (d : Drain Op) : Drain Op :=
  if h : d.closing = true then d
  else { running := d.running ++ [op]
         active := d.active + 1
         closing := d.closing
         released := d.released
         counted := by rw [d.counted, List.length_append, List.length_singleton]
         idle := fun hr => absurd (d.idle hr).1 h }

def finish (op : Op) (d : Drain Op) : Drain Op :=
  if h : op ∈ d.running then
    { running := d.running.erase op
      active := d.active - 1
      closing := d.closing
      released := d.released
      counted := by rw [d.counted, List.length_erase_of_mem h]
      idle := fun hr => ⟨(d.idle hr).1, by rw [(d.idle hr).2]⟩ }
  else d

def close (d : Drain Op) : Drain Op := { d with closing := true, idle := fun hr => ⟨rfl, (d.idle hr).2⟩ }

def ready (d : Drain Op) : Bool := d.closing && d.active == 0 && !d.released

def release (d : Drain Op) : Drain Op :=
  if h : d.ready = true then
    { d with
      released := true
      idle := by
        intro _
        simp only [ready, Bool.and_eq_true, beq_iff_eq] at h
        exact h.1 }
  else d

omit [DecidableEq Op] in
theorem not_released (h : op ∈ d.running) : d.released = false := by
  cases hr : d.released with
  | false => rfl
  | true =>
      have hlength := d.counted
      rw [(d.idle hr).2] at hlength
      rw [List.eq_nil_of_length_eq_zero hlength.symm] at h
      cases h

omit [DecidableEq Op] in
theorem mem_running_start {op' : Op} (h : op' ∈ (d.start op).running) :
    op' ∈ d.running ∨ op' = op ∧ d.closing = false := by
  rw [start] at h
  split_ifs at h with hclosing
  · exact Or.inl h
  · rw [List.mem_append, List.mem_singleton] at h
    exact h.imp_right (fun he => ⟨he, by simpa using hclosing⟩)

theorem mem_running_finish {op' : Op} (h : op' ∈ (d.finish op).running) : op' ∈ d.running := by
  rw [finish] at h
  split_ifs at h
  · exact List.mem_of_mem_erase h
  · exact h

@[simp] theorem released_start : (d.start op).released = d.released := by
  rw [start]
  split_ifs <;> rfl

@[simp] theorem released_finish : (d.finish op).released = d.released := by
  rw [finish]
  split_ifs <;> rfl

@[simp] theorem closing_start : (d.start op).closing = d.closing := by
  rw [start]
  split_ifs <;> rfl

@[simp] theorem closing_finish : (d.finish op).closing = d.closing := by
  rw [finish]
  split_ifs <;> rfl

@[simp] theorem running_close : d.close.running = d.running := rfl

@[simp] theorem released_close : d.close.released = d.released := rfl

@[simp] theorem closing_close : d.close.closing = true := rfl

theorem released_release (h : d.ready = true) : d.release.released = true := by
  rw [release, dif_pos h]

@[simp] theorem running_release : d.release.running = d.running := by
  rw [release]
  split_ifs <;> rfl

@[simp] theorem closing_release : d.release.closing = d.closing := by
  rw [release]
  split_ifs <;> rfl

end Drain

end Kross

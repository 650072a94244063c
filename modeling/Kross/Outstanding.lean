import Mathlib.Data.List.Perm.Basic
import Mathlib.Tactic.Common

namespace Kross.Outstanding

variable {K O : Type*}

/-- Calls are numbered as they are made. Those that wait stand with what is kept for them,
the others with the way they were settled. -/
structure Ledger (K O : Type*) where
  issued : Nat
  waiting : List (Nat × K)
  settled : List (Nat × O)

namespace Ledger

def start : Ledger K O := ⟨0, [], []⟩

def issue (k : K) (l : Ledger K O) : Ledger K O :=
  { l with issued := l.issued + 1, waiting := l.waiting ++ [(l.issued, k)] }

/-- A call that is settled as it is made. -/
def refuse (o : O) (l : Ledger K O) : Ledger K O :=
  { l with issued := l.issued + 1, settled := (l.issued, o) :: l.settled }

def find (p : K → Bool) (l : Ledger K O) : Option K := (l.waiting.find? (fun w => p w.2)).map Prod.snd

/-- The first waiting call that meets `p` is settled. -/
def settle (p : K → Bool) (o : K → O) (l : Ledger K O) : Ledger K O :=
  match l.waiting.find? (fun w => p w.2) with
  | some w => { l with waiting := l.waiting.eraseP (fun w => p w.2), settled := (w.1, o w.2) :: l.settled }
  | none => l

def settleAll (o : K → O) (l : Ledger K O) : Ledger K O :=
  { l with waiting := [], settled := (l.waiting.map (fun w => (w.1, o w.2))).reverse ++ l.settled }

def update (f : K → K) (l : Ledger K O) : Ledger K O :=
  { l with waiting := l.waiting.map (fun w => (w.1, f w.2)) }

/-- Every call waits or is settled, and that once. -/
def Balanced (l : Ledger K O) : Prop :=
  (l.settled.map Prod.fst ++ l.waiting.map Prod.fst).Perm (List.range l.issued)

variable {l : Ledger K O} {k : K} {o : O} {p : K → Bool} {f : K → O} {g : K → K} {w : Nat × K} {x : Nat × O}

theorem Balanced.nodup (h : l.Balanced) : (l.settled.map Prod.fst ++ l.waiting.map Prod.fst).Nodup :=
  h.nodup_iff.mpr List.nodup_range

/-- No call is settled twice. -/
theorem Balanced.once (h : l.Balanced) : (l.settled.map Prod.fst).Nodup := (List.nodup_append.mp h.nodup).1

theorem Balanced.settled_or_waiting (h : l.Balanced) {call : Nat} (hcall : call < l.issued) :
    call ∈ l.settled.map Prod.fst ∨ call ∈ l.waiting.map Prod.fst :=
  List.mem_append.mp (h.mem_iff.mpr (List.mem_range.mpr hcall))

theorem balanced_start : (start : Ledger K O).Balanced := List.Perm.nil

theorem Balanced.issue (h : l.Balanced) (k : K) : (l.issue k).Balanced := by
  rw [Balanced, Ledger.issue, List.map_append, ← List.append_assoc, List.range_succ]
  exact List.Perm.append_right _ h

theorem Balanced.refuse (h : l.Balanced) (o : O) : (l.refuse o).Balanced := by
  rw [Balanced, Ledger.refuse, List.range_succ, List.map_cons, List.cons_append]
  exact (List.Perm.cons _ h).trans (List.perm_append_singleton _ _).symm

theorem Balanced.settle (h : l.Balanced) (p : K → Bool) (f : K → O) : (l.settle p f).Balanced := by
  unfold Ledger.settle
  split
  · rename_i w hw
    obtain ⟨hpw, before, after, heq, hbefore⟩ := List.find?_eq_some_iff_append.mp hw
    have herase : l.waiting.eraseP (fun w => p w.2) = before ++ after := by
      rw [heq, List.eraseP_append_right _ (by simpa using hbefore),
        List.eraseP_cons_of_pos (p := fun w : Nat × K => p w.2) hpw]
    rw [Balanced, herase]
    rw [Balanced, heq] at h
    refine List.Perm.trans ?_ h
    simp only [List.map_cons, List.map_append, List.cons_append, ← List.append_assoc]
    exact List.perm_middle.symm
  · exact h

theorem Balanced.settleAll (h : l.Balanced) (f : K → O) : (l.settleAll f).Balanced := by
  rw [Balanced, Ledger.settleAll, List.map_append, List.map_reverse, List.map_map, List.map_nil, List.append_nil]
  exact ((List.reverse_perm _).append_right _).trans (List.perm_append_comm.trans h)

theorem Balanced.update (h : l.Balanced) (g : K → K) : (l.update g).Balanced := by
  rw [Balanced, Ledger.update, List.map_map]
  exact h

theorem find_some (h : l.find p = some k) : p k = true ∧ ∃ w ∈ l.waiting, w.2 = k := by
  obtain ⟨w, hw, rfl⟩ := Option.map_eq_some_iff.mp h
  exact ⟨by simpa using List.find?_some hw, w, List.mem_of_find?_eq_some hw, rfl⟩

theorem mem_settled_settle (hx : x ∈ (l.settle p f).settled) :
    x ∈ l.settled ∨ ∃ w ∈ l.waiting, p w.2 = true ∧ x = (w.1, f w.2) := by
  unfold Ledger.settle at hx
  split at hx
  · rename_i w hw
    rcases List.mem_cons.mp hx with hx | hx
    · exact .inr ⟨w, List.mem_of_find?_eq_some hw, by simpa using List.find?_some hw, hx⟩
    · exact .inl hx
  · exact .inl hx

theorem mem_settled_settleAll (hx : x ∈ (l.settleAll f).settled) :
    x ∈ l.settled ∨ ∃ w ∈ l.waiting, x = (w.1, f w.2) := by
  rcases List.mem_append.mp hx with hx | hx
  · obtain ⟨w, hw, rfl⟩ := List.mem_map.mp (List.mem_reverse.mp hx)
    exact .inr ⟨w, hw, rfl⟩
  · exact .inl hx

theorem mem_waiting_issue (hw : w ∈ (l.issue k).waiting) : w ∈ l.waiting ∨ w.2 = k := by
  rcases List.mem_append.mp hw with hw | hw
  · exact .inl hw
  · exact .inr (by rw [List.mem_singleton.mp hw])

theorem mem_waiting_update (hw : w ∈ (l.update g).waiting) : ∃ v ∈ l.waiting, w.2 = g v.2 := by
  obtain ⟨v, hv, rfl⟩ := List.mem_map.mp hw
  exact ⟨v, hv, rfl⟩

/-- The only waiting call that meets `p` is settled. -/
theorem settle_settles (hw : w ∈ l.waiting) (hp : p w.2 = true) (hone : ∀ v ∈ l.waiting, p v.2 = true → v = w) :
    (w.1, f w.2) ∈ (l.settle p f).settled := by
  unfold Ledger.settle
  split
  · rename_i v hv
    rw [hone v (List.mem_of_find?_eq_some hv) (by simpa using List.find?_some hv)]
    exact List.mem_cons_self
  · rename_i hnone
    exact absurd hp (by simpa using List.find?_eq_none.mp hnone w hw)

theorem waiting_settle_sublist : (l.settle p f).waiting.Sublist l.waiting := by
  unfold Ledger.settle
  split
  · exact List.eraseP_sublist
  · exact List.Sublist.refl _

end Ledger

end Kross.Outstanding

import Mathlib.Data.List.Perm.Basic
import Mathlib.Data.List.Range
import Mathlib.Data.List.Sort
import Mathlib.Tactic.Common

namespace Kross.Interleaving

variable {α β : Type}

/-- Reading a list by its positions. -/
theorem filterMap_range (l : List α) (f : α → Option β) :
    (List.range l.length).filterMap (fun i => l[i]?.bind f) = l.filterMap f := by
  induction l using List.reverseRecOn with
  | nil => rfl
  | append_singleton l a ih =>
      have hlast : (l ++ [a])[l.length]?.bind f = f a := by rw [List.getElem?_concat_length]; rfl
      have hbefore : (List.range l.length).filterMap (fun i => (l ++ [a])[i]?.bind f) =
          (List.range l.length).filterMap (fun i => l[i]?.bind f) :=
        List.filterMap_congr fun i hi => by
          rw [List.getElem?_append_left (List.mem_range.mp hi)]
      rw [List.length_append, List.length_singleton, List.range_succ, List.filterMap_append,
        List.filterMap_append, hbefore, ih, List.filterMap_cons, hlast, List.filterMap_cons]
      rfl

theorem flatMap_range (l : List α) (f : α → List β) :
    (List.range l.length).flatMap (fun i => (l[i]?.map f).getD []) = l.flatMap f := by
  induction l using List.reverseRecOn with
  | nil => rfl
  | append_singleton l a ih =>
      have hbefore : (List.range l.length).flatMap (fun i => ((l ++ [a])[i]?.map f).getD []) =
          (List.range l.length).flatMap (fun i => (l[i]?.map f).getD []) :=
        List.flatMap_congr fun i hi => by
          rw [List.getElem?_append_left (List.mem_range.mp hi)]
      rw [List.length_append, List.length_singleton, List.range_succ, List.flatMap_append,
        List.flatMap_append, hbefore, ih, List.flatMap_singleton, List.getElem?_concat_length,
        List.flatMap_singleton]
      rfl

/-- Different numbers that are all the numbers below a bound, in their order. -/
theorem eq_range {l : List Nat} {n : Nat} (hs : l.Pairwise (· ≤ ·)) (hn : l.Nodup)
    (h : ∀ i, i ∈ l ↔ i < n) : l = List.range n := by
  refine List.Perm.eq_of_pairwise' hs List.pairwise_le_range ?_
  refine (List.perm_ext_iff_of_nodup hn List.nodup_range).mpr fun i => ?_
  rw [h, List.mem_range]

theorem mergeSort_eq_range {l : List Nat} {n : Nat} (hn : l.Nodup) (h : ∀ i, i ∈ l ↔ i < n) :
    l.mergeSort (· ≤ ·) = List.range n := by
  have hp := List.mergeSort_perm l (fun a b => decide (a ≤ b))
  refine eq_range ?_ (hp.nodup_iff.mpr hn) fun i => hp.mem_iff.trans (h i)
  exact (List.pairwise_mergeSort (by simpa using fun a b c => Nat.le_trans)
    (by simpa using Nat.le_total) l).imp (by simp)

/-- In a list with ascending labels the ones below a bound come first. -/
theorem filter_lt_append {l : List (Nat × α)} (h : (l.map Prod.fst).Pairwise (· ≤ ·)) (n : Nat) :
    l.filter (fun p => p.1 < n) ++ l.filter (fun p => ¬p.1 < n) = l := by
  induction l with
  | nil => rfl
  | cons p l ih =>
      rw [List.map_cons, List.pairwise_cons] at h
      by_cases hp : p.1 < n
      · simpa [hp] using ih h.2
      · have hall : ∀ q ∈ l, ¬q.1 < n := fun q hq => by
          have := h.1 q.1 (List.mem_map_of_mem hq)
          omega
        have hnone : l.filter (fun p => p.1 < n) = [] :=
          List.filter_eq_nil_iff.mpr fun q hq => by simpa using hall q hq
        have hself : l.filter (fun p => ¬p.1 < n) = l :=
          List.filter_eq_self.mpr fun q hq => by simpa using hall q hq
        simp only [List.filter_cons, hp, not_false_eq_true, decide_false, decide_true,
          Bool.false_eq_true, if_false, if_true, hnone, List.nil_append, hself]

/-- Pieces with ascending labels, put together label by label. -/
theorem flatMap_by_label {l : List (Nat × List α)} {n : Nat}
    (h : (l.map Prod.fst).Pairwise (· ≤ ·)) (hn : ∀ p ∈ l, p.1 < n) :
    l.flatMap Prod.snd = (List.range n).flatMap fun i => (l.filter (·.1 = i)).flatMap Prod.snd := by
  induction n generalizing l with
  | zero =>
      cases l with
      | nil => rfl
      | cons p l => exact absurd (hn p List.mem_cons_self) (Nat.not_lt_zero _)
  | succ n ih =>
      have hsplit := filter_lt_append h n
      have hlast : l.filter (fun p => ¬p.1 < n) = l.filter (·.1 = n) :=
        List.filter_congr fun p hp => by
          have := hn p hp
          simp only [decide_eq_decide]
          omega
      have hbelow : (l.filter (fun p => p.1 < n)).flatMap Prod.snd =
          (List.range n).flatMap fun i => (l.filter (·.1 = i)).flatMap Prod.snd := by
        rw [ih (h.sublist (List.filter_sublist.map _)) (fun p hp => by
          simpa using (List.mem_filter.mp hp).2)]
        refine List.flatMap_congr fun i hi => ?_
        rw [List.filter_filter]
        congr 1
        refine List.filter_congr fun p _ => ?_
        have := List.mem_range.mp hi
        by_cases hp : p.1 = i <;> simp [hp, this]
      rw [List.range_succ, List.flatMap_append, ← hbelow, List.flatMap_singleton, ← hlast,
        ← List.flatMap_append, hsplit]

end Kross.Interleaving

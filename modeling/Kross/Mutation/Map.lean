import Kross.Disk
import Mathlib.Tactic.Common

namespace Kross.Mutation

section Map

variable {K V : Type} [DecidableEq K]

def mapGet (id : K) (m : List (K × V)) : Option V := m.lookup id

def mapSet (id : K) (v : V) : List (K × V) → List (K × V)
  | [] => [(id, v)]
  | (k, w) :: m => if k = id then (k, v) :: m else (k, w) :: mapSet id v m

def mapDelete (id : K) (m : List (K × V)) : List (K × V) :=
  m.filter (fun e => e.1 ≠ id)

theorem mem_keys_mapSet {id k : K} {v : V} {m : List (K × V)} :
    k ∈ (mapSet id v m).map Prod.fst ↔ k = id ∨ k ∈ m.map Prod.fst := by
  induction m with
  | nil => simp [mapSet]
  | cons e m ih =>
      obtain ⟨l, w⟩ := e
      rw [mapSet]
      split_ifs with h
      · subst h
        simp
      · simp only [List.map_cons, List.mem_cons, ih]
        tauto

theorem mem_keys_mapDelete {id k : K} {m : List (K × V)} :
    k ∈ (mapDelete id m).map Prod.fst ↔ k ≠ id ∧ k ∈ m.map Prod.fst := by
  simp only [mapDelete, List.mem_map, List.mem_filter, decide_eq_true_eq]
  constructor
  · rintro ⟨e, ⟨he, hk⟩, rfl⟩
    exact ⟨hk, e, he, rfl⟩
  · rintro ⟨hk, e, he, rfl⟩
    exact ⟨e, ⟨he, hk⟩, rfl⟩

theorem mem_mapSet {id : K} {v : V} {m : List (K × V)} {e : K × V}
    (h : e ∈ mapSet id v m) : e = (id, v) ∨ e ∈ m := by
  induction m with
  | nil => exact Or.inl (List.mem_singleton.mp h)
  | cons d m ih =>
      rw [mapSet] at h
      split_ifs at h with hd
      · rcases List.mem_cons.mp h with rfl | h
        · exact Or.inl (by rw [hd])
        · exact Or.inr (List.mem_cons_of_mem _ h)
      · rcases List.mem_cons.mp h with rfl | h
        · exact Or.inr List.mem_cons_self
        · exact (ih h).imp_right (List.mem_cons_of_mem _)

theorem mem_of_mem_mapDelete {id : K} {m : List (K × V)} {e : K × V}
    (h : e ∈ mapDelete id m) : e ∈ m := (List.mem_filter.mp h).1

theorem mapGet_none {id : K} {m : List (K × V)} (h : mapGet id m = none) :
    id ∉ m.map Prod.fst := by
  intro hm
  obtain ⟨e, he, rfl⟩ := List.mem_map.mp hm
  exact absurd (List.lookup_eq_none_iff.mp h e he) (by simp)

theorem mapGet_mapSet (k p : K) (v : V) (m : List (K × V)) :
    mapGet p (mapSet k v m) = if k = p then some v else mapGet p m := by
  induction m with
  | nil =>
      rw [mapSet, mapGet, List.lookup_cons]
      split_ifs with h
      · simp [h]
      · simp [beq_false_of_ne (Ne.symm h), mapGet]
  | cons e m ih =>
      obtain ⟨l, u⟩ := e
      simp only [mapGet] at ih
      rw [mapSet]
      split_ifs with h1 h2 h2
      · subst h1
        subst h2
        simp [mapGet]
      · subst h1
        simp [mapGet, List.lookup_cons, beq_false_of_ne (Ne.symm h2)]
      · subst h2
        simp only [mapGet, List.lookup_cons, beq_false_of_ne (Ne.symm h1), ih, if_true]
      · simp only [mapGet, List.lookup_cons, ih, if_neg h2]

theorem mapGet_filter (p : K) (keep : K → Bool) (m : List (K × V)) :
    mapGet p (m.filter (fun e => keep e.1)) = if keep p then mapGet p m else none := by
  induction m with
  | nil => simp [mapGet]
  | cons e m ih =>
      obtain ⟨l, u⟩ := e
      simp only [mapGet] at ih
      rw [List.filter_cons]
      by_cases hp : p = l
      · subst hp
        cases hk : keep p <;> simp [hk, mapGet, ih]
      · have hb : (p == l) = false := beq_false_of_ne hp
        cases hl : keep l <;> simp [mapGet, List.lookup_cons, hb, ih]

theorem keys_mapSet_nodup {k : K} {v : V} {m : List (K × V)} (h : (m.map Prod.fst).Nodup) :
    ((mapSet k v m).map Prod.fst).Nodup := by
  induction m with
  | nil => simp [mapSet]
  | cons e m ih =>
      obtain ⟨l, u⟩ := e
      rw [List.map_cons, List.nodup_cons] at h
      rw [mapSet]
      split_ifs with hl
      · rw [List.map_cons, List.nodup_cons]
        exact h
      · rw [List.map_cons, List.nodup_cons]
        refine ⟨fun hm => ?_, ih h.2⟩
        rcases mem_keys_mapSet.mp hm with hm | hm
        · exact hl hm
        · exact h.1 hm

theorem mapGet_mapSet_ne {k p : K} (h : k ≠ p) (v : V) (m : List (K × V)) :
    mapGet p (mapSet k v m) = mapGet p m := by
  rw [mapGet_mapSet, if_neg h]

theorem mapGet_mapSet_self (id : K) (v : V) (m : List (K × V)) :
    mapGet id (mapSet id v m) = some v := by
  rw [mapGet_mapSet, if_pos rfl]

theorem mapSet_of_none {id : K} (v : V) {m : List (K × V)}
    (h : mapGet id m = none) : mapSet id v m = m ++ [(id, v)] := by
  induction m with
  | nil => rfl
  | cons e m ih =>
      obtain ⟨k, x⟩ := e
      rw [mapGet, List.lookup_cons] at h
      cases hk : id == k with
      | true => simp [hk] at h
      | false =>
          simp only [hk] at h
          have hne : k ≠ id := fun he => by simp [he] at hk
          rw [mapSet, if_neg hne, ih h, List.cons_append]

theorem mem_keys_iff {p : K} {m : List (K × V)} : p ∈ m.map Prod.fst ↔ mapGet p m ≠ none := by
  constructor
  · intro h hn
    exact mapGet_none hn h
  · intro h
    by_contra hp
    exact h (List.lookup_eq_none_iff.mpr (fun e he => by
      have hne : p ≠ e.1 := fun hpe => hp (hpe ▸ List.mem_map_of_mem he)
      simpa using hne))

theorem mapGet_eq_some {m : List (K × V)} (h : (m.map Prod.fst).Nodup) {p : K} {v : V} :
    mapGet p m = some v ↔ (p, v) ∈ m := FileTree.Disk.lookup_eq_some h

end Map

end Kross.Mutation

import Kross.Mutation.Map

namespace Kross.Grouping

open Kross.Mutation

variable {X K V : Type} [DecidableEq K] (key : X → K) (start : X → V) (add : V → X → V)

def put (groups : List (K × V)) (x : X) : List (K × V) :=
  mapSet (key x) (add ((mapGet (key x) groups).getD (start x)) x) groups

/-- The elements by their keys, in the order in which the keys come up. -/
def group (xs : List X) : List (K × V) := xs.foldl (put key start add) []

variable {key start add} {xs : List X} {x : X} {k : K} {v : V}

theorem group_concat (xs : List X) (x : X) :
    group key start add (xs ++ [x]) = put key start add (group key start add xs) x := by
  rw [group, List.foldl_append]
  rfl

/-- A group begins with the first element of its key, and takes in all of them. -/
theorem mapGet_group (k : K) (xs : List X) :
    mapGet k (group key start add xs) = (xs.filter (key · = k)).head?.map (fun x =>
      (xs.filter (key · = k)).foldl add (start x)) := by
  induction xs using List.reverseRecOn with
  | nil => rfl
  | append_singleton xs x ih =>
      rw [group_concat, put, mapGet_mapSet, List.filter_append]
      by_cases hk : key x = k
      · subst hk
        rw [if_pos rfl, ih, List.filter_cons_of_pos (by simp), List.filter_nil]
        cases hsame : xs.filter (key · = key x) with
        | nil => rfl
        | cons y rest => simp [List.foldl_append]
      · rw [if_neg hk, ih, List.filter_cons_of_neg (by simpa using hk), List.filter_nil, List.append_nil]

theorem keys_group (xs : List X) : ((group key start add xs).map Prod.fst).Nodup := by
  induction xs using List.reverseRecOn with
  | nil => exact List.nodup_nil
  | append_singleton xs x ih =>
      rw [group_concat]
      exact keys_mapSet_nodup ih

theorem mem_group : (k, v) ∈ group key start add xs ↔
    ∃ x, (xs.filter (key · = k)).head? = some x ∧ (xs.filter (key · = k)).foldl add (start x) = v := by
  rw [← mapGet_eq_some (keys_group xs), mapGet_group, Option.map_eq_some_iff]

/-- Every element has its group. -/
theorem exists_mem_group (hx : x ∈ xs) : ∃ v, (key x, v) ∈ group key start add xs := by
  have hmem : x ∈ xs.filter (key · = key x) := List.mem_filter.mpr ⟨hx, by simp⟩
  obtain ⟨first, hfirst⟩ := Option.isSome_iff_exists.mp
    (List.isSome_head?.mpr (List.ne_nil_of_mem hmem))
  exact ⟨_, mem_group.mpr ⟨first, hfirst, rfl⟩⟩

end Kross.Grouping

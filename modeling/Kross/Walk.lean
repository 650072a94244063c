import Kross.FileTree

namespace Kross.FileTree

variable {N C : Type} {v w : View N C} {follow : Bool} {links : Nat} {cur d q : Path N} {n : N}
  {s rest : List (Step N)} {t : Target N}

section Equations

/-- A link on the way costs one of the links that may be followed. -/
def jump (v : View N C) (follow : Bool) (cur : Path N) (t : Target N) (s : List (Step N)) : Nat → Place N
  | 0 => .blocked
  | links + 1 => walk v follow links (if t.absolute then [] else cur) (t.steps ++ s)

@[simp] theorem walk_nil : walk v follow links cur [] = .found cur := by
  cases links <;> rfl

@[simp] theorem walk_up : walk v follow links cur (.up :: s) = walk v follow links cur.dropLast s := by
  cases links <;> rfl

theorem walk_none (h : v (cur ++ [n]) = none) :
    walk v follow links cur (.name n :: s) = if s.isEmpty then .missing (cur ++ [n]) else .nowhere := by
  cases links <;> simp [walk, walkSteps, h]

theorem walk_file {c : C} (h : v (cur ++ [n]) = some (.file c)) :
    walk v follow links cur (.name n :: s) = if s.isEmpty then .found (cur ++ [n]) else .blocked := by
  cases links <;> simp [walk, walkSteps, h]

theorem walk_directory (h : v (cur ++ [n]) = some .directory) :
    walk v follow links cur (.name n :: s) = walk v follow links (cur ++ [n]) s := by
  cases links <;> simp [walk, walkSteps, h]

theorem walk_link (h : v (cur ++ [n]) = some (.link t)) :
    walk v follow links cur (.name n :: s) =
      if s.isEmpty && !follow then .found (cur ++ [n]) else jump v follow cur t s links := by
  cases links <;> simp [walk, walkSteps, h, jump]

end Equations

section Induction

/-- The steps of a walk: a link goes on with one link less to follow. -/
theorem walk_induction {motive : Nat → Path N → List (Step N) → Prop} (v : View N C)
    (nil : ∀ links cur, motive links cur [])
    (up : ∀ links cur s, motive links cur.dropLast s → motive links cur (.up :: s))
    (none : ∀ links cur n s, v (cur ++ [n]) = none → motive links cur (.name n :: s))
    (file : ∀ links cur n s c, v (cur ++ [n]) = some (.file c) → motive links cur (.name n :: s))
    (directory : ∀ links cur n s, v (cur ++ [n]) = some .directory → motive links (cur ++ [n]) s →
      motive links cur (.name n :: s))
    (link : ∀ links cur n s t, v (cur ++ [n]) = some (.link t) →
      (∀ k, links = k + 1 → motive k (if t.absolute then [] else cur) (t.steps ++ s)) →
      motive links cur (.name n :: s)) (links : Nat) (cur : Path N) (s : List (Step N)) :
    motive links cur s := by
  induction links using Nat.strong_induction_on generalizing cur s with
  | _ links ihl =>
      induction s generalizing cur with
      | nil => exact nil links cur
      | cons step s ih =>
          cases step with
          | up => exact up links cur s (ih cur.dropLast)
          | name n =>
              cases h : v (cur ++ [n]) with
              | none => exact none links cur n s h
              | some node =>
                  cases node with
                  | file c => exact file links cur n s c h
                  | directory => exact directory links cur n s h (ih (cur ++ [n]))
                  | link t => exact link links cur n s t h (fun k hk => ihl k (by omega) _ _)

end Induction

section Tree

theorem IsTree.dropLast (hv : IsTree v) (h : v cur = some .directory) : v cur.dropLast = some .directory := by
  rcases List.eq_nil_or_concat cur with rfl | ⟨p, n, rfl⟩
  · exact h
  · rw [List.concat_eq_append] at h ⊢
    rw [List.dropLast_concat]
    exact hv.parent p n (by rw [h]; exact Option.some_ne_none _)

theorem IsTree.start (hv : IsTree v) (h : v cur = some .directory) (t : Target N) :
    v (if t.absolute then [] else cur) = some .directory := by
  split_ifs
  · exact hv.root
  · exact h

variable (v follow) in
/-- Where a walk that begins in a directory comes to. -/
structure Arrives (place : Place N) : Prop where
  found : ∀ d, place = .found d → ∃ node, v d = some node ∧ (follow = true → ∀ t, node ≠ .link t)
  missing : ∀ q, place = .missing q → ∃ d n, q = d ++ [n] ∧ v d = some .directory ∧ v q = none

theorem arrives_blocked : Arrives v follow .blocked := ⟨nofun, nofun⟩

theorem arrives_found {node : Node N C} (h : v d = some node) (hl : follow = true → ∀ t, node ≠ .link t) :
    Arrives v follow (.found d) :=
  ⟨fun _ hd => by cases hd; exact ⟨node, h, hl⟩, nofun⟩

theorem walk_arrives (hv : IsTree v) (links : Nat) (cur : Path N) (s : List (Step N))
    (h : v cur = some .directory) : Arrives v follow (walk v follow links cur s) := by
  induction links, cur, s using walk_induction v with
  | nil links cur =>
      rw [walk_nil]
      exact arrives_found h (fun _ _ => nofun)
  | up links cur s ih =>
      rw [walk_up]
      exact ih (hv.dropLast h)
  | none links cur n s hn =>
      rw [walk_none hn]
      split_ifs
      · exact ⟨nofun, fun q hq => by cases hq; exact ⟨cur, n, rfl, h, hn⟩⟩
      · exact ⟨nofun, nofun⟩
  | file links cur n s c hn =>
      rw [walk_file hn]
      split_ifs
      · exact arrives_found hn (fun _ _ => nofun)
      · exact arrives_blocked
  | directory links cur n s hn ih =>
      rw [walk_directory hn]
      exact ih hn
  | link links cur n s t hn ih =>
      rw [walk_link hn]
      split_ifs with hlast
      · refine arrives_found hn (fun hfollow => ?_)
        rw [hfollow] at hlast
        simp at hlast
      · cases links with
        | zero => exact arrives_blocked
        | succ k => exact ih k rfl (hv.start h t)

/-- What a walk does with the steps that come behind a place. -/
def Continues (v : View N C) (follow : Bool) (rest : List (Step N)) (result : Place N) : Place N → Prop
  | .found d => (v d = some .directory ∧ ∃ links, result = walk v follow links d rest) ∨
      (v d ≠ some .directory ∧ result = .blocked)
  | .missing _ | .nowhere => result = .nowhere
  | .blocked => result = .blocked

/-- A walk with more steps goes on where the walk without them has come to. -/
theorem walk_append (hv : IsTree v) (hrest : rest ≠ []) (links : Nat) (cur : Path N) (s : List (Step N))
    (h : v cur = some .directory) :
    Continues v follow rest (walk v follow links cur (s ++ rest)) (walk v true links cur s) := by
  have hempty : ∀ s : List (Step N), (s ++ rest).isEmpty = false := by
    intro s
    cases s with
    | nil => simpa using hrest
    | cons step s => rfl
  induction links, cur, s using walk_induction v with
  | nil links cur =>
      rw [walk_nil]
      exact Or.inl ⟨h, links, rfl⟩
  | up links cur s ih =>
      rw [List.cons_append, walk_up, walk_up]
      exact ih (hv.dropLast h)
  | none links cur n s hn =>
      rw [List.cons_append, walk_none hn, walk_none hn, hempty, if_neg Bool.false_ne_true]
      split_ifs <;> rfl
  | file links cur n s c hn =>
      rw [List.cons_append, walk_file hn, walk_file hn, hempty, if_neg Bool.false_ne_true]
      split_ifs
      · exact Or.inr ⟨by rw [hn]; nofun, rfl⟩
      · rfl
  | directory links cur n s hn ih =>
      rw [List.cons_append, walk_directory hn, walk_directory hn]
      exact ih hn
  | link links cur n s t hn ih =>
      rw [List.cons_append, walk_link hn, walk_link hn, hempty, Bool.false_and, Bool.not_true, Bool.and_false,
        if_neg Bool.false_ne_true, if_neg Bool.false_ne_true]
      cases links with
      | zero => rfl
      | succ k =>
          have hk := ih k rfl (hv.start h t)
          rwa [List.append_assoc] at hk

/-- A tree with more in it leads where the smaller one does. -/
theorem walk_extends (hvw : ∀ p, v p ≠ none → w p = v p) (links : Nat) (cur : Path N) (s : List (Step N))
    (h : walk v follow links cur s = .found d) : walk w follow links cur s = .found d := by
  induction links, cur, s using walk_induction v with
  | nil links cur => rwa [walk_nil] at h ⊢
  | up links cur s ih =>
      rw [walk_up] at h ⊢
      exact ih h
  | none links cur n s hn =>
      rw [walk_none hn] at h
      split_ifs at h
  | file links cur n s c hn =>
      have hw : w (cur ++ [n]) = some (.file c) := by rw [hvw _ (by rw [hn]; nofun), hn]
      rw [walk_file hn] at h
      rwa [walk_file hw]
  | directory links cur n s hn ih =>
      have hw : w (cur ++ [n]) = some .directory := by rw [hvw _ (by rw [hn]; nofun), hn]
      rw [walk_directory hn] at h
      rw [walk_directory hw]
      exact ih h
  | link links cur n s t hn ih =>
      have hw : w (cur ++ [n]) = some (.link t) := by rw [hvw _ (by rw [hn]; nofun), hn]
      rw [walk_link hn] at h
      rw [walk_link hw]
      split_ifs at h ⊢ with hlast
      · exact h
      · cases links with
        | zero => cases h
        | succ k => exact ih k rfl h

end Tree

section Resolve

variable {p : Path N}

theorem resolve_arrives (hv : IsTree v) (p : Path N) : Arrives v true (resolve v p) :=
  walk_arrives hv linkLimit [] (p.map .name) hv.root

theorem locate_arrives (hv : IsTree v) (p : Path N) : Arrives v false (locate v p) :=
  walk_arrives hv linkLimit [] (p.map .name) hv.root

theorem resolve_concat (hv : IsTree v) (follow : Bool) (p : Path N) (n : N) :
    Continues v follow [.name n] (walk v follow linkLimit [] ((p ++ [n]).map .name)) (resolve v p) := by
  rw [List.map_append, List.map_singleton]
  exact walk_append hv (List.cons_ne_nil _ _) linkLimit [] (p.map .name) hv.root

end Resolve

end Kross.FileTree

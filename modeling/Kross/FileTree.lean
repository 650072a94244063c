import Mathlib.Data.List.Basic
import Mathlib.Data.List.Infix
import Mathlib.Tactic.Common

namespace Kross.FileTree

abbrev Path (N : Type) := List N

inductive Step (N : Type)
  | up
  | name (n : N)
  deriving DecidableEq

structure Target (N : Type) where
  absolute : Bool
  steps : List (Step N)
  deriving DecidableEq

inductive Node (N C : Type)
  | file (content : C)
  | directory
  | link (target : Target N)
  deriving DecidableEq

/-- What stands at each place of a file tree, links not followed. -/
abbrev View (N C : Type) := Path N → Option (Node N C)

variable {N C : Type}

structure IsTree (v : View N C) : Prop where
  root : v [] = some .directory
  parent : ∀ p n, v (p ++ [n]) ≠ none → v p = some .directory

theorem IsTree.of_prefix {v : View N C} (h : IsTree v) {p q : Path N} (hq : q <+: p) (hne : q ≠ p)
    (hp : v p ≠ none) : v q = some .directory := by
  obtain ⟨t, rfl⟩ := hq
  induction t using List.reverseRecOn with
  | nil => exact absurd (List.append_nil q).symm hne
  | append_singleton t n ih =>
      rw [← List.append_assoc] at hp
      have hd := h.parent _ _ hp
      rcases eq_or_ne t [] with rfl | ht
      · rwa [List.append_nil] at hd
      · exact ih (by simpa using ht) (by simp [hd])

theorem IsTree.none_of_prefix {v : View N C} (h : IsTree v) {p q : Path N} (hq : q <+: p)
    (hn : v q = none) : v p = none := by
  by_contra hp
  by_cases hne : q = p
  · exact hp (hne ▸ hn)
  · simp [h.of_prefix hq hne hp] at hn

/-- Where a path leads: to something, to a gap in an existing directory, or
nowhere because a parent is missing (`ENOENT`) or is no directory (`ENOTDIR`,
`ELOOP`). -/
inductive Place (N : Type)
  | found (p : Path N)
  | missing (p : Path N)
  | nowhere
  | blocked
  deriving DecidableEq

def walkSteps (jump : Path N → List (Step N) → Place N) (v : View N C) (follow : Bool) :
    Path N → List (Step N) → Place N
  | cur, [] => .found cur
  | cur, .up :: s => walkSteps jump v follow cur.dropLast s
  | cur, .name n :: s => match v (cur ++ [n]) with
    | none => if s.isEmpty then .missing (cur ++ [n]) else .nowhere
    | some (.link t) =>
        if s.isEmpty && !follow then .found (cur ++ [n])
        else jump (if t.absolute then [] else cur) (t.steps ++ s)
    | some (.file _) => if s.isEmpty then .found (cur ++ [n]) else .blocked
    | some .directory => walkSteps jump v follow (cur ++ [n]) s

/-- Path resolution with a bound on the links followed on the way. -/
def walk (v : View N C) (follow : Bool) : Nat → Path N → List (Step N) → Place N
  | 0 => walkSteps (fun _ _ => .blocked) v follow
  | links + 1 => walkSteps (walk v follow links) v follow

def linkLimit : Nat := 40

def locate (v : View N C) (p : Path N) : Place N := walk v false linkLimit [] (p.map .name)

def resolve (v : View N C) (p : Path N) : Place N := walk v true linkLimit [] (p.map .name)

def existsSync (v : View N C) (p : Path N) : Bool :=
  match resolve v p with
  | .found _ => true
  | _ => false

def lstat (v : View N C) (p : Path N) : Option (Node N C) :=
  match locate v p with
  | .found q => v q
  | _ => none

/-- No parent of `p` is a file or a link. -/
def Direct (v : View N C) (p : Path N) : Prop :=
  ∀ q, q <+: p → q ≠ p → v q = some .directory ∨ v q = none

instance [DecidableEq N] [DecidableEq C] (v : View N C) (p : Path N) : Decidable (Direct v p) :=
  decidable_of_iff (∀ q ∈ p.inits, q ≠ p → v q = some .directory ∨ v q = none)
    (forall_congr' fun q => by rw [List.mem_inits])

theorem Direct.of_prefix {v : View N C} {p q : Path N} (h : Direct v p) (hq : q <+: p) :
    Direct v q := by
  intro r hr hne
  refine h r (hr.trans hq) ?_
  rintro rfl
  exact hne (hr.eq_of_length_le hq.length_le)

theorem Direct.concat {v : View N C} {p : Path N} (h : Direct v p) (hp : v p = some .directory)
    (n : N) : Direct v (p ++ [n]) := by
  intro q hq hne
  rcases List.prefix_concat_iff.mp hq with rfl | hq
  · exact absurd rfl hne
  · by_cases hqp : q = p
    · exact Or.inl (hqp ▸ hp)
    · exact h q hq hqp

theorem walk_eq (v : View N C) (follow : Bool) (links : Nat) :
    ∃ jump, walk v follow links = walkSteps jump v follow := by
  cases links <;> exact ⟨_, rfl⟩

theorem walkSteps_directories {jump : Path N → List (Step N) → Place N} {v : View N C}
    {follow : Bool} (s : List (Step N)) (p cur : Path N)
    (h : ∀ q, q <+: p → q ≠ [] → v (cur ++ q) = some .directory) :
    walkSteps jump v follow cur (p.map .name ++ s) = walkSteps jump v follow (cur ++ p) s := by
  induction p generalizing cur with
  | nil => simp
  | cons n p ih =>
      have hn := h [n] ⟨p, rfl⟩ (by simp)
      rw [List.map_cons, List.cons_append, walkSteps, hn]
      have hq := ih (cur ++ [n]) (fun q hq hne => by
        have := h (n :: q) (List.cons_prefix_cons.mpr ⟨rfl, hq⟩) (by simp)
        simpa using this)
      simpa using hq

theorem walk_parent {v : View N C} {follow : Bool} {links : Nat} (hv : IsTree v) {p : Path N} {n : N}
    (hp : v p = some .directory) (jump : Path N → List (Step N) → Place N)
    (hj : walk v follow links = walkSteps jump v follow) :
    walk v follow links [] ((p ++ [n]).map .name) = walkSteps jump v follow p [.name n] := by
  rw [hj, List.map_append, walkSteps_directories]
  · rfl
  · intro q hq hne
    by_cases h : q = p
    · simpa [h] using hp
    · exact hv.of_prefix hq h (by simp [hp])

theorem locate_of_some {v : View N C} (hv : IsTree v) {p : Path N} (hp : v p ≠ none) :
    locate v p = .found p := by
  obtain ⟨jump, hj⟩ := walk_eq v false linkLimit
  rcases List.eq_nil_or_concat p with rfl | ⟨q, n, rfl⟩
  · rw [locate, hj]
    rfl
  · rw [List.concat_eq_append] at hp ⊢
    rw [locate, walk_parent hv (hv.parent _ _ hp) jump hj, walkSteps]
    cases h : v (q ++ [n]) with
    | none => exact absurd h hp
    | some node => cases node <;> simp [walkSteps]

theorem resolve_of_some {v : View N C} (hv : IsTree v) {p : Path N} {node : Node N C}
    (hp : v p = some node) (hl : ∀ t, node ≠ .link t) : resolve v p = .found p := by
  obtain ⟨jump, hj⟩ := walk_eq v true linkLimit
  rcases List.eq_nil_or_concat p with rfl | ⟨q, n, rfl⟩
  · rw [resolve, hj]
    rfl
  · rw [List.concat_eq_append] at hp ⊢
    rw [resolve, walk_parent hv (hv.parent q n (by simp [hp])) jump hj, walkSteps, hp]
    cases node with
    | link t => exact absurd rfl (hl t)
    | file | directory => simp [walkSteps]

theorem walk_missing {v : View N C} {follow : Bool} {links : Nat} (hv : IsTree v) {p : Path N} {n : N}
    (hp : v p = some .directory) (hn : v (p ++ [n]) = none) :
    walk v follow links [] ((p ++ [n]).map .name) = .missing (p ++ [n]) := by
  obtain ⟨jump, hj⟩ := walk_eq v follow links
  rw [walk_parent hv hp jump hj, walkSteps, hn]
  rfl

theorem walkSteps_gap {jump : Path N → List (Step N) → Place N} {v : View N C} {follow : Bool}
    (p cur : Path N)
    (h : ∀ q, q <+: p → q ≠ [] → q ≠ p → v (cur ++ q) = some .directory ∨ v (cur ++ q) = none)
    (hg : ∃ q, q <+: p ∧ q ≠ [] ∧ q ≠ p ∧ v (cur ++ q) = none) :
    walkSteps jump v follow cur (p.map .name) = .nowhere := by
  induction p generalizing cur with
  | nil =>
      obtain ⟨q, hq, hne, -⟩ := hg
      exact absurd (List.prefix_nil.mp hq) hne
  | cons n p ih =>
      obtain ⟨q, hq, hne, hqp, hn⟩ := hg
      have hp : p ≠ [] := by
        rintro rfl
        rcases List.prefix_cons_iff.mp hq with rfl | ⟨t, rfl, ht⟩
        · exact hne rfl
        · exact hqp (by rw [List.prefix_nil.mp ht])
      rw [List.map_cons, walkSteps]
      rcases h [n] ⟨p, rfl⟩ (by simp) (by simpa using hp.symm) with hd | hd
      · rw [hd]
        refine ih (cur ++ [n]) (fun r hr hrn hrp => ?_) ?_
        · have := h (n :: r) (List.cons_prefix_cons.mpr ⟨rfl, hr⟩) (by simp) (by simpa using hrp)
          simpa using this
        · rcases List.prefix_cons_iff.mp hq with rfl | ⟨t, rfl, ht⟩
          · exact absurd rfl hne
          · refine ⟨t, ht, ?_, by simpa using hqp, by simpa using hn⟩
            rintro rfl
            simp [hd] at hn
      · rw [hd]
        simp [hp]

/-- A path below directories and gaps only, with a gap above its end, leads
nowhere. -/
theorem walk_nowhere {v : View N C} {follow : Bool} {links : Nat} {p : Path N} {n : N}
    (hv : IsTree v) (hd : Direct v (p ++ [n])) (hp : v p = none) :
    walk v follow links [] ((p ++ [n]).map .name) = .nowhere := by
  obtain ⟨jump, hj⟩ := walk_eq v follow links
  rw [hj]
  refine walkSteps_gap (p ++ [n]) [] (fun q hq _ hne => by simpa using hd q hq hne) ?_
  refine ⟨p, ⟨[n], rfl⟩, ?_, by simp, by simpa using hp⟩
  rintro rfl
  simp [hv.root] at hp

theorem lstat_of_some {v : View N C} (hv : IsTree v) {p : Path N} {node : Node N C}
    (hp : v p = some node) : lstat v p = some node := by
  rw [lstat, locate_of_some hv (by simp [hp])]
  exact hp

/-- Below directories and gaps only, a path leads to itself. -/
theorem locate_direct {v : View N C} (hv : IsTree v) {p : Path N} (hd : Direct v p) :
    (v p ≠ none ∧ locate v p = .found p) ∨
      (v p = none ∧ (locate v p = .missing p ∨ locate v p = .nowhere)) := by
  by_cases hp : v p = none
  · right
    refine ⟨hp, ?_⟩
    rcases List.eq_nil_or_concat p with rfl | ⟨q, n, rfl⟩
    · simp [hv.root] at hp
    · rw [List.concat_eq_append] at hp hd ⊢
      rcases hd q ⟨[n], rfl⟩ (by simp) with hq | hq
      · exact Or.inl (walk_missing hv hq hp)
      · exact Or.inr (walk_nowhere hv hd hq)
  · exact Or.inl ⟨hp, locate_of_some hv hp⟩

theorem existsSync_of_some {v : View N C} (hv : IsTree v) {p : Path N} {node : Node N C}
    (hp : v p = some node) (hl : ∀ t, node ≠ .link t) : existsSync v p = true := by
  rw [existsSync, resolve_of_some hv hp hl]

theorem existsSync_of_none {v : View N C} (hv : IsTree v) {p : Path N} (hd : Direct v p)
    (hp : v p = none) : existsSync v p = false := by
  rcases List.eq_nil_or_concat p with rfl | ⟨q, n, rfl⟩
  · simp [hv.root] at hp
  · rw [List.concat_eq_append] at hp hd ⊢
    rcases hd q ⟨[n], rfl⟩ (by simp) with hq | hq
    · rw [existsSync, resolve, walk_missing hv hq hp]
    · rw [existsSync, resolve, walk_nowhere hv hd hq]

end Kross.FileTree

import Mathlib.Data.List.Nodup
import Mathlib.Data.List.Perm.Subperm
import Mathlib.Logic.Relation
import Mathlib.Tactic.Common

namespace Kross.DepthFirst

variable {α : Type*} [DecidableEq α]

structure Visits (α : Type*) where
  visiting : List α
  visited : List α

/-- `some` with a test that marks what it visits. -/
def anyVisit (test : α → Visits α → Bool × Visits α) : List α → Visits α → Bool × Visits α
  | [], visits => (false, visits)
  | a :: rest, visits => match test a visits with
    | (true, visits) => (true, visits)
    | (false, visits) => anyVisit test rest visits

/-- Whether a way from a node comes back to a node that is being visited. -/
def visit (next : α → List α) : Nat → α → Visits α → Bool × Visits α
  | 0, _, visits => (true, visits)
  | fuel + 1, a, visits =>
      if a ∈ visits.visiting then (true, visits)
      else if a ∈ visits.visited then (false, visits)
      else match anyVisit (visit next fuel) (next a) { visits with visiting := a :: visits.visiting } with
        | (true, visits) => (true, visits)
        | (false, visits) => (false, ⟨visits.visiting.erase a, a :: visits.visited⟩)

def hasCycle (next : α → List α) (nodes : List α) : Bool :=
  (anyVisit (visit next (nodes.length + 1)) nodes ⟨[], []⟩).1

section Correct

variable {next : α → List α} {nodes as : List α} {a b : α} {fuel : Nat} {before : Visits α}

variable (next) in
/-- No way from the node goes on for ever. -/
def Ends (a : α) : Prop := Acc (fun b a => b ∈ next a) a

variable (next) in
def Leads (a b : α) : Prop := b ∈ next a

variable (next nodes) in
def Cyclic : Prop := ∃ a ∈ nodes, Relation.TransGen (Leads next) a a

theorem Ends.not_transGen (h : Ends next a) : ¬Relation.TransGen (Leads next) a a := by
  induction h with
  | intro a _ ih =>
      intro hcycle
      obtain ⟨b, hab, hba⟩ := Relation.TransGen.head'_iff.mp hcycle
      exact ih b hab (Relation.TransGen.tail' hba hab)

variable (next nodes) in
structure Marked (visits : Visits α) : Prop where
  nodup : visits.visiting.Nodup
  known : ∀ a ∈ visits.visiting, a ∈ nodes
  ends : ∀ a ∈ visits.visited, Ends next a

variable (next nodes) in
/-- What a visit of some nodes has found out. -/
structure Found (before : Visits α) (as : List α) (found : Bool × Visits α) : Prop where
  cyclic : found.1 = true → Cyclic next nodes
  visiting : found.1 = false → found.2.visiting = before.visiting
  ends : found.1 = false → ∀ a ∈ found.2.visited, Ends next a
  kept : found.1 = false → ∀ a ∈ before.visited, a ∈ found.2.visited
  visited : found.1 = false → ∀ a ∈ as, a ∈ found.2.visited

theorem found_true (h : Cyclic next nodes) (visits : Visits α) : Found next nodes before as (true, visits) :=
  ⟨fun _ => h, nofun, nofun, nofun, nofun⟩

theorem anyVisit_found (test : α → Visits α → Bool × Visits α)
    (htest : ∀ a ∈ as, ∀ visits, Marked next nodes visits → visits.visiting = before.visiting →
      Found next nodes visits [a] (test a visits))
    (hbefore : Marked next nodes before) : Found next nodes before as (anyVisit test as before) := by
  induction as generalizing before with
  | nil => exact ⟨nofun, fun _ => rfl, fun _ => hbefore.ends, fun _ _ h => h, nofun⟩
  | cons a as ih =>
      have ha := htest a List.mem_cons_self before hbefore rfl
      rw [anyVisit]
      split
      next visits heq =>
        rw [heq] at ha
        exact found_true (ha.cyclic rfl) visits
      next visits heq =>
        rw [heq] at ha
        have hsame : visits.visiting = before.visiting := ha.visiting rfl
        have hmarked : Marked next nodes visits :=
          ⟨hsame ▸ hbefore.nodup, hsame ▸ hbefore.known, ha.ends rfl⟩
        have hrest := ih (fun b hb later hlater hv =>
          htest b (List.mem_cons_of_mem a hb) later hlater (hv.trans hsame)) hmarked
        refine ⟨hrest.cyclic, fun h => (hrest.visiting h).trans hsame, hrest.ends,
          fun h b hb => hrest.kept h b (ha.kept rfl b hb), fun h b hb => ?_⟩
        rcases List.mem_cons.mp hb with rfl | hb
        · exact hrest.kept h b (ha.visited rfl b List.mem_cons_self)
        · exact hrest.visited h b hb

theorem visit_found (hnodes : ∀ a ∈ nodes, ∀ b ∈ next a, b ∈ nodes) (hbefore : Marked next nodes before)
    (hfuel : nodes.length < fuel + before.visiting.length)
    (hpath : ∀ v ∈ before.visiting, Relation.TransGen (Leads next) v a) (ha : a ∈ nodes) :
    Found next nodes before [a] (visit next fuel a before) := by
  induction fuel generalizing a before with
  | zero =>
      have hle := (List.subperm_of_subset hbefore.nodup hbefore.known).length_le
      omega
  | succ fuel ih =>
      rw [visit]
      split_ifs with hvisiting hvisited
      · exact found_true ⟨a, ha, hpath a hvisiting⟩ before
      · exact ⟨nofun, fun _ => rfl, fun _ => hbefore.ends, fun _ _ h => h,
          fun _ b hb => List.mem_singleton.mp hb ▸ hvisited⟩
      · have hmarked : Marked next nodes { before with visiting := a :: before.visiting } :=
          ⟨List.nodup_cons.mpr ⟨hvisiting, hbefore.nodup⟩,
            List.forall_mem_cons.mpr ⟨ha, hbefore.known⟩, hbefore.ends⟩
        have hinner : Found next nodes { before with visiting := a :: before.visiting } (next a)
            (anyVisit (visit next fuel) (next a) { before with visiting := a :: before.visiting }) := by
          refine anyVisit_found (visit next fuel) (fun b hb visits hvisits hv => ?_) hmarked
          refine ih hvisits ?_ ?_ (hnodes a ha b hb)
          · rw [hv, List.length_cons]
            omega
          · intro v hvmem
            rw [hv] at hvmem
            rcases List.mem_cons.mp hvmem with rfl | hvmem
            · exact Relation.TransGen.single hb
            · exact (hpath v hvmem).tail hb
        split
        next visits heq =>
          rw [heq] at hinner
          exact found_true (hinner.cyclic rfl) visits
        next visits heq =>
          rw [heq] at hinner
          have hends : Ends next a := ⟨a, fun b hb => hinner.ends rfl b (hinner.visited rfl b hb)⟩
          refine ⟨nofun, fun _ => ?_, fun _ => ?_, fun _ b hb => ?_, fun _ b hb => ?_⟩
          · rw [hinner.visiting rfl]
            exact List.erase_cons_head a before.visiting
          · exact List.forall_mem_cons.mpr ⟨hends, hinner.ends rfl⟩
          · exact List.mem_cons_of_mem a (hinner.kept rfl b hb)
          · rw [List.mem_singleton.mp hb]
            exact List.mem_cons_self

/-- The search finds a cycle if and only if some way goes on for ever. -/
theorem hasCycle_eq_false_iff (hnodes : ∀ a ∈ nodes, ∀ b ∈ next a, b ∈ nodes) :
    hasCycle next nodes = false ↔ ∀ a ∈ nodes, Ends next a := by
  have hfound : Found next nodes ⟨[], []⟩ nodes
      (anyVisit (visit next (nodes.length + 1)) nodes ⟨[], []⟩) := by
    refine anyVisit_found _ (fun a ha visits hvisits hv => ?_) ⟨List.nodup_nil, nofun, nofun⟩
    refine visit_found hnodes hvisits (by omega) ?_ ha
    rw [hv]
    nofun
  constructor
  · intro h a ha
    exact hfound.ends h a (hfound.visited h a ha)
  · intro h
    rw [Bool.eq_false_iff]
    intro hcycle
    obtain ⟨a, ha, hloop⟩ := hfound.cyclic hcycle
    exact (h a ha).not_transGen hloop

end Correct

end Kross.DepthFirst

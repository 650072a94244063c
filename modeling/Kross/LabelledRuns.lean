import Mathlib.Data.List.SplitBy
import Mathlib.Tactic.Common

namespace Kross.LabelledRuns

variable {α L : Type*} [DecidableEq L] (label : α → Option L)

def alike (a b : α) : Bool := label a = label b

/-- The elements of a run with their label; a run of elements without one is none. -/
def labelled (g : List α) : Option (L × List α) := (g.getLast?.bind label).map (fun k => (k, g))

/-- The maximal runs of neighbours that have one label. -/
def runs (l : List α) : List (L × List α) := (l.splitBy (alike label)).filterMap (labelled label)

/-- The run that the list ends with. -/
def lastRun (l : List α) : Option (L × List α) := (l.splitBy (alike label)).getLast?.bind (labelled label)

/-- The runs that are over. -/
def closed (l : List α) : List (L × List α) := (l.splitBy (alike label)).dropLast.filterMap (labelled label)

variable {label} {r : α → α → Bool} {l : List α} {a b : α} {k : L} {g : List α}

theorem runs_eq (l : List α) : runs label l = closed label l ++ (lastRun label l).toList := by
  rcases List.eq_nil_or_concat (l.splitBy (alike label)) with h | ⟨before, g, h⟩
  · simp [runs, closed, lastRun, h]
  · rw [List.concat_eq_append] at h
    rw [runs, closed, lastRun, h, List.filterMap_append, List.dropLast_concat, List.getLast?_concat]
    cases hg : labelled label g <;> simp [hg]

theorem splitBy_concat_new (h : ∀ b ∈ l.getLast?, r b a = false) : (l ++ [a]).splitBy r = l.splitBy r ++ [[a]] :=
  List.splitBy_append_cons [] h

theorem splitBy_concat_same (h : l.getLast? = some b) (hr : r b a = true) :
    ∃ before g, l.splitBy r = before ++ [g] ∧ g.getLast? = some b ∧ (l ++ [a]).splitBy r = before ++ [g ++ [a]] := by
  have hne : l ≠ [] := by
    rintro rfl
    cases h
  obtain ⟨before, g, hsplit⟩ := List.eq_nil_or_concat (l.splitBy r) |>.resolve_left (List.splitBy_ne_nil.mpr hne)
  rw [List.concat_eq_append] at hsplit
  have hchain := List.isChain_getLast_head_splitBy r l
  have hmem : g ∈ l.splitBy r := by simp [hsplit]
  have hg : g ≠ [] := List.ne_nil_of_mem_splitBy hmem
  have hflat := List.flatten_splitBy r l
  rw [hsplit, List.flatten_concat] at hflat
  have hlast : g.getLast? = some b := by
    rw [← h, ← hflat, List.getLast?_append_of_ne_nil _ hg]
  refine ⟨before, g, hsplit, hlast, List.splitBy_eq_iff.mpr ⟨?_, ?_, ?_, ?_⟩⟩
  · rw [List.flatten_concat, ← List.append_assoc, hflat]
  · have hnil := List.nil_notMem_splitBy r l
    rw [hsplit] at hnil
    simp at hnil ⊢
    exact hnil.1
  · intro m hm
    rcases List.mem_append.mp hm with hm | hm
    · exact List.isChain_of_mem_splitBy (hsplit ▸ List.mem_append_left _ hm)
    · rw [List.mem_singleton.mp hm, List.isChain_append]
      refine ⟨List.isChain_of_mem_splitBy hmem, List.isChain_singleton a, ?_⟩
      intro x hx y hy
      rw [hlast] at hx
      cases hx
      cases hy
      exact hr
  · rw [hsplit, List.isChain_append] at hchain
    rw [List.isChain_append]
    refine ⟨hchain.1, List.isChain_singleton _, ?_⟩
    intro x hx y hy
    cases hy
    obtain ⟨hx', hg', hbreak⟩ := hchain.2.2 x hx g rfl
    exact ⟨hx', by simp, by rwa [List.head_append_of_ne_nil hg']⟩

theorem concat_new (h : ∀ b ∈ l.getLast?, label b ≠ label a) :
    closed label (l ++ [a]) = runs label l ∧ lastRun label (l ++ [a]) = (label a).map (fun k => (k, [a])) := by
  have hsplit := splitBy_concat_new (r := alike label) (a := a) (l := l) (by simpa [alike] using h)
  constructor
  · rw [closed, hsplit, List.dropLast_concat]
    rfl
  · rw [lastRun, hsplit, List.getLast?_concat]
    rfl

theorem concat_same (hb : l.getLast? = some b) (h : label b = label a) :
    closed label (l ++ [a]) = closed label l ∧
      ∃ g, lastRun label l = (label a).map (fun k => (k, g)) ∧
        lastRun label (l ++ [a]) = (label a).map (fun k => (k, g ++ [a])) := by
  obtain ⟨before, g, hl, hg, hsplit⟩ := splitBy_concat_same (r := alike label) hb (by simpa [alike] using h)
  refine ⟨?_, g, ?_, ?_⟩
  · rw [closed, closed, hsplit, hl, List.dropLast_concat, List.dropLast_concat]
  · rw [lastRun, hl, List.getLast?_concat, ← h]
    simp [labelled, hg]
  · rw [lastRun, hsplit, List.getLast?_concat]
    simp [labelled]

theorem lastRun_label (h : lastRun label l = some (k, g)) : ∃ b, l.getLast? = some b ∧ label b = some k := by
  have hne : l ≠ [] := by
    rintro rfl
    simp [lastRun] at h
  have hsplit : l.splitBy (alike label) ≠ [] := List.splitBy_ne_nil.mpr hne
  rw [lastRun, List.getLast?_eq_some_getLast hsplit, Option.bind_some, labelled] at h
  obtain ⟨k', hk, heq⟩ := Option.map_eq_some_iff.mp h
  cases heq
  obtain ⟨b, hb, hlabel⟩ := Option.bind_eq_some_iff.mp hk
  refine ⟨b, ?_, hlabel⟩
  rw [List.getLast?_eq_some_getLast (List.ne_nil_of_mem_splitBy (List.getLast_mem hsplit)),
    List.getLast_getLast_splitBy _ hne] at hb
  rw [List.getLast?_eq_some_getLast hne, hb]

/-- An element without label ends the run before it. -/
theorem concat_none (ha : label a = none) :
    closed label (l ++ [a]) = runs label l ∧ lastRun label (l ++ [a]) = none := by
  by_cases h : ∀ b ∈ l.getLast?, label b ≠ label a
  · rw [(concat_new h).1, (concat_new h).2, ha]
    exact ⟨rfl, rfl⟩
  · push Not at h
    obtain ⟨b, hb, hlabel⟩ := h
    obtain ⟨hclosed, g, hlast, hlast'⟩ := concat_same hb hlabel
    rw [ha] at hlast hlast'
    rw [hclosed, hlast', runs_eq, hlast]
    exact ⟨(List.append_nil _).symm, rfl⟩

/-- An element with the label of the last run goes on with it. -/
theorem concat_continues (ha : label a = some k) (h : lastRun label l = some (k, g)) :
    closed label (l ++ [a]) = closed label l ∧ lastRun label (l ++ [a]) = some (k, g ++ [a]) := by
  obtain ⟨b, hb, hlabel⟩ := lastRun_label h
  obtain ⟨hclosed, g', hlast, hlast'⟩ := concat_same hb (hlabel.trans ha.symm)
  rw [ha, h] at hlast
  cases hlast
  exact ⟨hclosed, by rw [hlast', ha]; rfl⟩

/-- An element with a label of its own begins a run. -/
theorem concat_begins (ha : label a = some k) (h : ∀ g, lastRun label l ≠ some (k, g)) :
    closed label (l ++ [a]) = runs label l ∧ lastRun label (l ++ [a]) = some (k, [a]) := by
  have hnew : ∀ b ∈ l.getLast?, label b ≠ label a := by
    intro b hb hlabel
    obtain ⟨-, g, hlast, -⟩ := concat_same hb hlabel
    rw [ha] at hlast
    exact h g hlast
  rw [(concat_new hnew).1, (concat_new hnew).2, ha]
  exact ⟨rfl, rfl⟩

end Kross.LabelledRuns

import Kross.Regex

namespace Kross.Regex

section Runs

variable {p : Char → Bool} {c d : Cursor} {n : Nat} {r : Regex} {before : Option Char} {text rest : List Char}

theorem mem_runs_one : d ∈ (one p).runs c ↔ ∃ x rest, c.ahead = x :: rest ∧ p x = true ∧ d = ⟨some x, rest, c.groups⟩ := by
  rw [runs]
  cases hahead : c.ahead with
  | nil => simp
  | cons x rest =>
      dsimp only
      split_ifs with hx
      · simp [hx]
      · simp [hx]

/-- A repetition of one character goes through characters of that kind. -/
theorem ahead_of_mem_rounds (h : d ∈ rounds (one p).runs n c) :
    ∃ run, (∀ x ∈ run, p x = true) ∧ c.ahead = run ++ d.ahead := by
  induction n generalizing c with
  | zero =>
      rw [rounds, List.mem_singleton] at h
      exact ⟨[], nofun, by rw [h]; rfl⟩
  | succ n ih =>
      rw [rounds, List.mem_append, List.mem_singleton, List.mem_flatMap] at h
      rcases h with ⟨e, he, hd⟩ | rfl
      · obtain ⟨x, rest, hahead, hx, rfl⟩ := mem_runs_one.mp he
        split_ifs at hd
        · obtain ⟨run, hrun, hrest⟩ := ih hd
          refine ⟨x :: run, fun y hy => ?_, ?_⟩
          · rcases List.mem_cons.mp hy with rfl | hy
            · exact hx
            · exact hrun y hy
          · change rest = run ++ d.ahead at hrest
            rw [hahead, hrest]
            rfl
        · cases hd
      · exact ⟨[], nofun, rfl⟩

theorem mem_rounds_of_ahead {run : List Char} (hrun : ∀ x ∈ run, p x = true) (h : c.ahead = run ++ rest)
    (hn : run.length ≤ n) : ∃ d ∈ rounds (one p).runs n c, d.ahead = rest := by
  induction run generalizing c n with
  | nil =>
      refine ⟨c, ?_, h⟩
      cases n with
      | zero => simp [rounds]
      | succ n => simp [rounds]
  | cons x run ih =>
      cases n with
      | zero => simp at hn
      | succ n =>
          obtain ⟨d, hd, hrest⟩ := ih (fun y hy => hrun y (List.mem_cons_of_mem _ hy))
            (c := ⟨some x, run ++ rest, c.groups⟩) (n := n) rfl (by simpa using hn)
          refine ⟨d, ?_, hrest⟩
          rw [rounds, List.mem_append, List.mem_flatMap]
          refine Or.inl ⟨_, mem_runs_one.mpr ⟨x, run ++ rest, h, hrun x List.mem_cons_self, rfl⟩, ?_⟩
          have hlt : (run ++ rest).length < c.ahead.length := by
            rw [h]
            simp
          rw [if_pos hlt]
          exact hd

theorem ahead_of_mem_several (h : d ∈ (several p).runs c) :
    ∃ run, run ≠ [] ∧ (∀ x ∈ run, p x = true) ∧ c.ahead = run ++ d.ahead := by
  rw [several, runs, List.mem_flatMap] at h
  obtain ⟨e, he, hd⟩ := h
  obtain ⟨x, rest, hahead, hx, rfl⟩ := mem_runs_one.mp he
  obtain ⟨run, hrun, hrest⟩ := ahead_of_mem_rounds hd
  refine ⟨x :: run, by simp, fun y hy => ?_, ?_⟩
  · rcases List.mem_cons.mp hy with rfl | hy
    · exact hx
    · exact hrun y hy
  · change rest = run ++ d.ahead at hrest
    rw [hahead, hrest]
    rfl

theorem mem_several_of_ahead {run : List Char} (hne : run ≠ []) (hrun : ∀ x ∈ run, p x = true) (h : c.ahead = run ++ rest) :
    ∃ d ∈ (several p).runs c, d.ahead = rest := by
  obtain ⟨x, more, rfl⟩ := List.exists_cons_of_ne_nil hne
  obtain ⟨d, hd, hrest⟩ := mem_rounds_of_ahead (c := ⟨some x, more ++ rest, c.groups⟩)
    (n := (more ++ rest).length) (fun y hy => hrun y (List.mem_cons_of_mem _ hy)) rfl (by simp)
  refine ⟨d, ?_, hrest⟩
  rw [several, runs, List.mem_flatMap]
  exact ⟨_, mem_runs_one.mpr ⟨x, more ++ rest, h, hrun x List.mem_cons_self, rfl⟩, hd⟩

end Runs

section Search

variable {r : Regex} {before : Option Char} {text begun : List Char} {c : Cursor}

/-- The search stops at the first place from which the pattern matches. -/
theorem search_some (h : r.search before text = some (begun, c)) :
    ∃ skipped b, text = skipped ++ begun ∧ c ∈ r.runs ⟨b, begun, []⟩ ∧
      ∀ x y, text = x ++ y → x.length < skipped.length → ∃ b, r.runs ⟨b, y, []⟩ = [] := by
  induction text generalizing before with
  | nil =>
      rw [search] at h
      split at h
      · rename_i d more hruns
        cases h
        exact ⟨[], before, rfl, by simp [hruns], fun _ _ _ hlt => absurd hlt (by simp)⟩
      · cases h
  | cons a text ih =>
      rw [search] at h
      split at h
      · rename_i d more hruns
        cases h
        exact ⟨[], before, rfl, by simp [hruns], fun _ _ _ hlt => absurd hlt (by simp)⟩
      · rename_i hruns
        obtain ⟨skipped, b, htext, hc, hfirst⟩ := ih h
        refine ⟨a :: skipped, b, by rw [htext]; rfl, hc, fun x y hxy hlt => ?_⟩
        cases x with
        | nil => exact ⟨before, by rw [← hruns, hxy]; rfl⟩
        | cons x₀ x =>
            obtain ⟨-, hrest⟩ := List.cons.inj hxy
            exact hfirst x y hrest (by simpa using hlt)

theorem search_none (h : r.search before text = none) {x y : List Char} (hxy : text = x ++ y) : ∃ b, r.runs ⟨b, y, []⟩ = [] := by
  induction text generalizing before x with
  | nil =>
      rw [search] at h
      split at h
      · cases h
      · rename_i hruns
        obtain ⟨rfl, rfl⟩ := List.append_eq_nil_iff.mp hxy.symm
        exact ⟨before, hruns⟩
  | cons a text ih =>
      rw [search] at h
      split at h
      · cases h
      · rename_i hruns
        cases x with
        | nil => exact ⟨before, by rw [← hruns, hxy]; rfl⟩
        | cons x₀ x => exact ih h (List.cons.inj hxy).2

end Search

section Reads

variable {r : Regex} {text : List Char} {c d : Cursor} {n : Nat}

/-- What is ahead, and what is captured, are characters of the text. -/
structure Reads (text : List Char) (c : Cursor) : Prop where
  ahead : ∀ x ∈ c.ahead, x ∈ text
  groups : ∀ g ∈ c.groups, ∀ x ∈ g.2, x ∈ text

theorem reads_of_mem_rounds {f : Cursor → List Cursor} (hf : ∀ c, Reads text c → ∀ d ∈ f c, Reads text d)
    (hc : Reads text c) (h : d ∈ rounds f n c) : Reads text d := by
  induction n generalizing c with
  | zero => exact List.mem_singleton.mp h ▸ hc
  | succ n ih =>
      rw [rounds, List.mem_append, List.mem_singleton, List.mem_flatMap] at h
      rcases h with ⟨e, he, hd⟩ | rfl
      · split_ifs at hd
        · exact ih (hf c hc e he) hd
        · cases hd
      · exact hc

/-- A match reads no more than the text. -/
theorem reads_of_mem_runs (hc : Reads text c) (h : d ∈ r.runs c) : Reads text d := by
  induction r generalizing c d with
  | empty => exact List.mem_singleton.mp h ▸ hc
  | one p =>
      obtain ⟨x, rest, hahead, -, rfl⟩ := mem_runs_one.mp h
      exact ⟨fun y hy => hc.ahead y (by rw [hahead]; exact List.mem_cons_of_mem x hy), hc.groups⟩
  | seq a b iha ihb =>
      obtain ⟨e, he, hd⟩ := List.mem_flatMap.mp h
      exact ihb (iha hc he) hd
  | alt a b iha ihb =>
      rcases List.mem_append.mp h with h | h
      · exact iha hc h
      · exact ihb hc h
  | star a ih => exact reads_of_mem_rounds (fun _ hc _ hd => ih hc hd) hc h
  | group n a ih =>
      obtain ⟨e, he, rfl⟩ := List.mem_map.mp h
      refine ⟨(ih hc he).ahead, fun g hg x hx => ?_⟩
      rcases List.mem_cons.mp hg with rfl | hg
      · exact hc.ahead x (List.mem_of_mem_take hx)
      · exact (ih hc he).groups g hg x hx
  | start | stop | boundary =>
      rw [runs] at h
      split_ifs at h
      · exact List.mem_singleton.mp h ▸ hc
      · cases h

theorem reads_of_search {before : Option Char} {begun : List Char} (h : r.search before text = some (begun, c)) :
    Reads text c := by
  obtain ⟨skipped, b, rfl, hc, -⟩ := search_some h
  exact reads_of_mem_runs ⟨fun x hx => List.mem_append_right skipped hx, fun g hg => absurd hg List.not_mem_nil⟩ hc

/-- What a group has captured is from the text. -/
theorem captured_of_exec {captured : List Char} (h : (r.exec text).bind (·.captured n) = some captured) :
    ∀ x ∈ captured, x ∈ text := by
  obtain ⟨c, hc, hcaptured⟩ := Option.bind_eq_some_iff.mp h
  obtain ⟨⟨begun, _⟩, hsearch, rfl⟩ := Option.map_eq_some_iff.mp hc
  obtain ⟨l, more, hgroups, -⟩ := List.lookup_eq_some_iff.mp hcaptured
  refine (reads_of_search hsearch).groups (n, captured) ?_
  rw [hgroups]
  exact List.mem_append_right l List.mem_cons_self

end Reads

section Leads

variable {p : Char → Bool} {a b r : Regex} {c d e : Cursor}

/-- The way to match that is tried first. -/
def Leads (r : Regex) (c d : Cursor) : Prop := ∃ more, r.runs c = d :: more

theorem Leads.seq (ha : Leads a c d) (hb : Leads b d e) : Leads (.seq a b) c e := by
  obtain ⟨more, ha⟩ := ha
  obtain ⟨others, hb⟩ := hb
  exact ⟨others ++ more.flatMap b.runs, by rw [runs, ha, List.flatMap_cons, hb]; rfl⟩

theorem leads_one {x : Char} {before : Option Char} {rest : List Char} {groups : List (Nat × List Char)} (hx : p x = true) :
    Leads (one p) ⟨before, x :: rest, groups⟩ ⟨some x, rest, groups⟩ :=
  ⟨[], by rw [runs]; simp [hx]⟩

theorem leads_word (w : List Char) (before : Option Char) (rest : List Char) (groups : List (Nat × List Char)) :
    ∃ last, Leads (word w) ⟨before, w ++ rest, groups⟩ ⟨last, rest, groups⟩ := by
  induction w generalizing before with
  | nil => exact ⟨before, [], rfl⟩
  | cons x w ih =>
      obtain ⟨last, h⟩ := ih (some x)
      exact ⟨last, (leads_one (by simp)).seq h⟩

theorem leads_rounds {run rest : List Char} (hrun : ∀ x ∈ run, p x = true) (hrest : ∀ x ∈ rest.head?, p x = false)
    (before : Option Char) (groups : List (Nat × List Char)) {n : Nat} (hn : run.length ≤ n) :
    ∃ last more, rounds (one p).runs n ⟨before, run ++ rest, groups⟩ = ⟨last, rest, groups⟩ :: more := by
  induction run generalizing before n with
  | nil =>
      cases n with
      | zero => exact ⟨before, [], rfl⟩
      | succ n =>
          cases rest with
          | nil => exact ⟨before, [], rfl⟩
          | cons x rest =>
              have hx : p x = false := hrest x rfl
              exact ⟨before, [], by simp [rounds, runs, hx]⟩
  | cons x run ih =>
      cases n with
      | zero => simp at hn
      | succ n =>
          obtain ⟨last, more, h⟩ := ih (fun y hy => hrun y (List.mem_cons_of_mem _ hy)) (some x) (n := n) (by simpa using hn)
          refine ⟨last, more ++ [⟨before, x :: run ++ rest, groups⟩], ?_⟩
          have hone : (one p).runs ⟨before, x :: run ++ rest, groups⟩ = [⟨some x, run ++ rest, groups⟩] := by
            rw [runs]
            simp [hrun x List.mem_cons_self]
          rw [rounds, hone, List.flatMap_cons, List.flatMap_nil, List.append_nil, if_pos (by simp), h]
          rfl

theorem leads_many (run : List Char) {rest : List Char} (hrun : ∀ x ∈ run, p x = true) (hrest : ∀ x ∈ rest.head?, p x = false)
    (before : Option Char) (groups : List (Nat × List Char)) :
    ∃ last, Leads (many p) ⟨before, run ++ rest, groups⟩ ⟨last, rest, groups⟩ := by
  obtain ⟨last, more, h⟩ := leads_rounds hrun hrest before groups (n := (run ++ rest).length) (by simp)
  exact ⟨last, more, h⟩

theorem leads_several {x : Char} (run rest : List Char) (hx : p x = true) (hrun : ∀ x ∈ run, p x = true)
    (hrest : ∀ x ∈ rest.head?, p x = false) (before : Option Char) (groups : List (Nat × List Char)) :
    ∃ last, Leads (several p) ⟨before, x :: run ++ rest, groups⟩ ⟨last, rest, groups⟩ := by
  obtain ⟨last, h⟩ := leads_many run hrun hrest (some x) groups
  exact ⟨last, (leads_one hx).seq h⟩

theorem Leads.group {n : Nat} (h : Leads a c d) :
    Leads (.group n a) c { d with groups := (n, c.ahead.take (c.ahead.length - d.ahead.length)) :: d.groups } := by
  obtain ⟨more, h⟩ := h
  exact ⟨_, by rw [runs, h, List.map_cons]⟩

theorem Leads.exec {text : List Char} (h : Leads r ⟨none, text, []⟩ d) : r.exec text = some d := by
  obtain ⟨more, h⟩ := h
  rw [Regex.exec, search.eq_def]
  simp only [h, Option.map_some]

end Leads

end Kross.Regex

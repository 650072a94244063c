import Kross.FileTree
import Mathlib.Data.List.Sort
import Mathlib.Data.List.Lex

namespace Kross.FileTree

variable {N β : Type} [LinearOrder N]

/-- Depth-first listing of what `get` holds from `p` on: a directory before
its children, the children in the order of their names. -/
def traverse (get : Path N → Option β) (isDirectory : β → Bool) (children : Path N → List N) :
    Nat → Path N → List (Path N × β)
  | 0, _ => []
  | depth + 1, p => match get p with
    | none => []
    | some b => (p, b) :: if isDirectory b then
        ((children p).insertionSort (· ≤ ·)).flatMap
          (fun n => traverse get isDirectory children depth (p ++ [n]))
      else []

variable {get : Path N → Option β} {isDirectory : β → Bool} {children : Path N → List N}

omit [LinearOrder N] in
/-- Everything from `root` down to the parent of `p` is a directory. -/
def Reaches (get : Path N → Option β) (isDirectory : β → Bool) (root p : Path N) : Prop :=
  root <+: p ∧ ∀ q, root <+: q → q <+: p → q ≠ p → ∃ b, get q = some b ∧ isDirectory b = true

omit [LinearOrder N] in
theorem reaches_refl (p : Path N) : Reaches get isDirectory p p :=
  ⟨List.prefix_rfl, fun _ hp hq hne => absurd (hq.eq_of_length_le hp.length_le) hne⟩

omit [LinearOrder N] in
theorem reaches_child {p q : Path N} {n : N} {b : β} (hb : get p = some b)
    (hd : isDirectory b = true) (h : Reaches get isDirectory (p ++ [n]) q) :
    Reaches get isDirectory p q := by
  refine ⟨(List.prefix_append _ _).trans h.1, fun r hpr hrq hne => ?_⟩
  obtain ⟨t, rfl⟩ := hpr
  cases t with
  | nil => exact ⟨b, by simpa using hb, hd⟩
  | cons m t =>
      refine h.2 _ ?_ hrq hne
      obtain ⟨u, hu⟩ := h.1
      rw [← hu, List.append_assoc, List.prefix_append_right_inj] at hrq
      have hm := (List.cons_prefix_cons.mp hrq).1
      exact ⟨t, by simp [hm]⟩

omit [LinearOrder N] in
theorem reaches_cases {p q : Path N} (h : Reaches get isDirectory p q) :
    q = p ∨ ∃ n b, get p = some b ∧ isDirectory b = true ∧ Reaches get isDirectory (p ++ [n]) q := by
  obtain ⟨⟨t, rfl⟩, hd⟩ := h
  cases t with
  | nil => exact Or.inl (List.append_nil p)
  | cons n t =>
      right
      obtain ⟨b, hb, hdir⟩ := hd p List.prefix_rfl (List.prefix_append _ _) (by simp)
      refine ⟨n, b, hb, hdir, ⟨t, by simp⟩, fun r hr hrq hne => ?_⟩
      exact hd r ((List.prefix_append _ _).trans hr) hrq hne

/-- `children` lists what `get` holds below the directories reached from
`root`. -/
def Lists (get : Path N → Option β) (isDirectory : β → Bool) (children : Path N → List N)
    (root : Path N) : Prop :=
  ∀ p b, Reaches get isDirectory root p → get p = some b → isDirectory b = true →
    (children p).Nodup ∧ ∀ n, n ∈ children p ↔ get (p ++ [n]) ≠ none

omit [LinearOrder N] in
theorem Lists.child {p : Path N} {b : β} (h : Lists get isDirectory children p) (hb : get p = some b)
    (hd : isDirectory b = true) (n : N) : Lists get isDirectory children (p ++ [n]) :=
  fun q c hq => h q c (reaches_child hb hd hq)

theorem mem_traverse {depth : Nat} {p q : Path N} {b : β} (hc : Lists get isDirectory children p) :
    (q, b) ∈ traverse get isDirectory children depth p ↔
      Reaches get isDirectory p q ∧ get q = some b ∧ q.length < p.length + depth := by
  induction depth generalizing p with
  | zero =>
      simp only [traverse, List.not_mem_nil, Nat.add_zero, false_iff]
      rintro ⟨h, -, hl⟩
      have := h.1.length_le
      omega
  | succ depth ih =>
      rw [traverse]
      cases hp : get p with
      | none =>
          simp only [List.not_mem_nil, false_iff]
          rintro ⟨h, hq, -⟩
          rcases reaches_cases h with rfl | ⟨n, c, hc, -⟩
          · simp [hp] at hq
          · simp [hp] at hc
      | some c =>
          rw [List.mem_cons]
          constructor
          · rintro (h | h)
            · cases h
              exact ⟨reaches_refl _, hp, by omega⟩
            · split_ifs at h with hd
              · obtain ⟨n, -, hn⟩ := List.mem_flatMap.mp h
                obtain ⟨hr, hq, hl⟩ := (ih (hc.child hp hd n)).mp hn
                refine ⟨reaches_child hp hd hr, hq, ?_⟩
                rw [List.length_append, List.length_singleton] at hl
                omega
              · simp at h
          · rintro ⟨hr, hq, hl⟩
            rcases reaches_cases hr with rfl | ⟨n, c', hc', hd, hr⟩
            · left
              rw [Option.some.inj (hq.symm.trans hp)]
            · right
              rw [hp] at hc'
              cases hc'
              rw [if_pos hd]
              refine List.mem_flatMap.mpr
                ⟨n, ?_, (ih (hc.child hp hd n)).mpr ⟨hr, hq, by simp; omega⟩⟩
              refine (List.mem_insertionSort _).mpr (((hc _ c (reaches_refl _) hp hd).2 n).mpr ?_)
              rcases reaches_cases hr with rfl | ⟨m, c', hc', -⟩
              · simp [hq]
              · simp [hc']

theorem lt_child (p : Path N) (n : N) (t : Path N) : p < p ++ n :: t := by
  have h : p ++ [] < p ++ n :: t := List.append_left_lt (List.nil_lt_cons n t)
  rwa [List.append_nil] at h

theorem sibling_lt {p q r : Path N} {m n : N} (h : m < n) (hq : p ++ [m] <+: q)
    (hr : p ++ [n] <+: r) : q < r := by
  obtain ⟨s, rfl⟩ := hq
  obtain ⟨t, rfl⟩ := hr
  rw [List.append_assoc, List.append_assoc]
  exact List.append_left_lt (List.cons_lt_cons_iff.mpr (Or.inl h))

theorem traverse_sorted (depth : Nat) {p : Path N} (hc : Lists get isDirectory children p) :
    ((traverse get isDirectory children depth p).map Prod.fst).Pairwise (· < ·) := by
  induction depth generalizing p with
  | zero => simp [traverse]
  | succ depth ih =>
      rw [traverse]
      cases hp : get p with
      | none => simp
      | some b =>
          rw [List.map_cons, List.pairwise_cons]
          constructor
          · intro q hq
            obtain ⟨⟨q, c⟩, hm, rfl⟩ := List.mem_map.mp hq
            split_ifs at hm with hd
            · obtain ⟨n, -, hn⟩ := List.mem_flatMap.mp hm
              obtain ⟨t, rfl⟩ := ((mem_traverse (hc.child hp hd n)).mp hn).1.1
              rw [List.append_assoc]
              exact lt_child p n t
            · simp at hm
          · split_ifs with hd
            · rw [List.map_flatMap, List.pairwise_flatMap]
              refine ⟨fun n _ => ih (hc.child hp hd n), ?_⟩
              have hs := List.pairwise_insertionSort (· ≤ ·) (children p)
              have hn : ((children p).insertionSort (· ≤ ·)).Nodup :=
                (List.perm_insertionSort _ _).nodup_iff.mpr (hc p b (reaches_refl p) hp hd).1
              refine (hs.and hn).imp ?_
              rintro m n ⟨hle, hne⟩ q hq r hr
              obtain ⟨⟨q, c⟩, hm, rfl⟩ := List.mem_map.mp hq
              obtain ⟨⟨r, c'⟩, hm', rfl⟩ := List.mem_map.mp hr
              exact sibling_lt (lt_of_le_of_ne hle hne)
                ((mem_traverse (hc.child hp hd m)).mp hm).1.1
                ((mem_traverse (hc.child hp hd n)).mp hm').1.1
            · simp

theorem traverse_map {γ : Type} (f : Path N → β → γ) {isDirectory' : γ → Bool}
    (hd : ∀ p b, isDirectory' (f p b) = isDirectory b) (depth : Nat) (p : Path N) :
    traverse (fun p => (get p).map (f p)) isDirectory' children depth p =
      (traverse get isDirectory children depth p).map (fun e => (e.1, f e.1 e.2)) := by
  induction depth generalizing p with
  | zero => rfl
  | succ depth ih =>
      rw [traverse, traverse]
      cases hp : get p with
      | none => rfl
      | some b =>
          simp only [Option.map_some, List.map_cons, hd]
          split_ifs with hdir
          · rw [List.map_flatMap]
            simp only [ih]
          · rfl

/-- Two listings in path order with the same entries are the same list. -/
theorem eq_of_sorted {l m : List (Path N × β)} (hl : (l.map Prod.fst).Pairwise (· < ·))
    (hm : (m.map Prod.fst).Pairwise (· < ·)) (h : ∀ e, e ∈ l ↔ e ∈ m) : l = m := by
  rw [List.pairwise_map] at hl hm
  have : Std.Irrefl (fun a b : Path N × β => a.1 < b.1) := ⟨fun a => lt_irrefl a.1⟩
  have : Std.Antisymm (fun a b : Path N × β => a.1 < b.1) :=
    ⟨fun a b hab hba => absurd hba (lt_asymm hab)⟩
  exact hl.eq_of_mem_iff hm h

end Kross.FileTree

import Kross.FileTree
import Mathlib.Data.List.MinMax
import Mathlib.Data.List.Nodup

namespace Kross.FileTree

variable {N C : Type} [DecidableEq N]

/-- A file tree as the finite list of what lies below its root. -/
structure Disk (N C : Type) [DecidableEq N] where
  entries : List (Path N × Node N C)
  keys : (entries.map Prod.fst).Nodup
  rooted : ∀ e ∈ entries, e.1 ≠ []
  parents : ∀ e ∈ entries, e.1.dropLast = [] ∨ (e.1.dropLast, .directory) ∈ entries

namespace Disk

def empty : Disk N C := ⟨[], by simp, by simp, by simp⟩

def view (d : Disk N C) : View N C := fun p =>
  if p = [] then some .directory else d.entries.lookup p

omit [DecidableEq N] in
theorem lookup_eq_some {K V : Type} [BEq K] [LawfulBEq K] {l : List (K × V)} (h : (l.map Prod.fst).Nodup)
    {p : K} {node : V} : l.lookup p = some node ↔ (p, node) ∈ l := by
  induction l with
  | nil => simp
  | cons e l ih =>
      obtain ⟨q, m⟩ := e
      rw [List.map_cons, List.nodup_cons] at h
      rw [List.lookup_cons]
      cases hq : p == q with
      | true =>
          have hq : p = q := by simpa using hq
          subst hq
          simp only [Option.some.injEq, List.mem_cons, Prod.mk.injEq, true_and]
          constructor
          · exact fun hm => Or.inl hm.symm
          · rintro (hm | hm)
            · exact hm.symm
            · exact absurd (List.mem_map_of_mem hm) h.1
      | false =>
          have hq : p ≠ q := by simpa using hq
          simp [ih h.2, hq]

theorem view_eq_some (d : Disk N C) {p : Path N} (hp : p ≠ []) {node : Node N C} :
    d.view p = some node ↔ (p, node) ∈ d.entries := by
  rw [view, if_neg hp, lookup_eq_some d.keys]

theorem view_nil (d : Disk N C) : d.view [] = some .directory := by simp [view]

theorem view_dropLast_of_mem (d : Disk N C) {e : Path N × Node N C} (he : e ∈ d.entries) :
    d.view e.1.dropLast = some .directory := by
  rcases d.parents e he with h | h
  · rw [h, view_nil]
  · by_cases hn : e.1.dropLast = []
    · rw [hn, view_nil]
    · exact (d.view_eq_some hn).mpr h

theorem isTree (d : Disk N C) : IsTree d.view := by
  refine ⟨d.view_nil, fun p n h => ?_⟩
  obtain ⟨node, hn⟩ := Option.ne_none_iff_exists'.mp h
  have hm := (d.view_eq_some (by simp)).mp hn
  simpa using d.view_dropLast_of_mem hm

def erase (d : Disk N C) (p : Path N) : Disk N C where
  entries := d.entries.filter (fun e => ¬ p <+: e.1)
  keys := d.keys.sublist (List.filter_sublist.map _)
  rooted e he := d.rooted e (List.mem_filter.mp he).1
  parents e he := by
    obtain ⟨he, hp⟩ := List.mem_filter.mp he
    refine (d.parents e he).imp_right (fun h => List.mem_filter.mpr ⟨h, ?_⟩)
    simp only [decide_eq_true_eq] at hp ⊢
    exact fun hd => hp (hd.trans (List.dropLast_prefix _))

theorem view_erase (d : Disk N C) (p q : Path N) :
    (d.erase p).view q = if p <+: q ∧ q ≠ [] then none else d.view q := by
  by_cases hq : q = []
  · simp [hq, view]
  · rw [Option.ext_iff]
    intro node
    rw [view_eq_some _ hq]
    split_ifs with h
    · simp [erase, h.1]
    · have hp : ¬ p <+: q := fun hp => h ⟨hp, hq⟩
      rw [view_eq_some _ hq]
      simp [erase, hp]

/-- Puts `node` at `p`, where its parent is a directory and nothing but a file
or a link stands at `p`. -/
def put [DecidableEq C] (d : Disk N C) (p : Path N) (node : Node N C)
    (h : p ≠ [] ∧ d.view p.dropLast = some .directory ∧ d.view p ≠ some .directory) :
    Disk N C where
  entries := (p, node) :: d.entries.filter (fun e => e.1 ≠ p)
  keys := by
    rw [List.map_cons, List.nodup_cons]
    refine ⟨by simp, d.keys.sublist (List.filter_sublist.map _)⟩
  rooted e he := by
    rcases List.mem_cons.mp he with rfl | he
    · exact h.1
    · exact d.rooted e (List.mem_filter.mp he).1
  parents e he := by
    have hkeep : ∀ q, d.view q = some .directory → q = [] ∨
        (q, .directory) ∈ (p, node) :: d.entries.filter (fun e => e.1 ≠ p) := by
      intro q hq
      by_cases hn : q = []
      · exact Or.inl hn
      · refine Or.inr (List.mem_cons_of_mem _ (List.mem_filter.mpr ⟨(d.view_eq_some hn).mp hq, ?_⟩))
        have hqp : q ≠ p := fun hqp => h.2.2 (hqp ▸ hq)
        simpa using hqp
    rcases List.mem_cons.mp he with rfl | he
    · exact hkeep _ h.2.1
    · exact hkeep _ (d.view_dropLast_of_mem (List.mem_filter.mp he).1)

theorem view_put [DecidableEq C] (d : Disk N C) {p : Path N} {node : Node N C}
    (h : p ≠ [] ∧ d.view p.dropLast = some .directory ∧ d.view p ≠ some .directory) (q : Path N) :
    (d.put p node h).view q = if q = p then some node else d.view q := by
  by_cases hq : q = []
  · subst hq
    rw [view_nil, view_nil, if_neg (Ne.symm h.1)]
  · rw [Option.ext_iff]
    intro m
    rw [view_eq_some _ hq]
    split_ifs with hp
    · subst hp
      simp [put, eq_comm]
    · rw [view_eq_some _ hq]
      simp [put, hp]

inductive FsError
  | ENOENT
  | ENOTDIR
  | EEXIST
  | EISDIR
  deriving DecidableEq

variable [DecidableEq C]

def putAt (d : Disk N C) (p : Path N) (node : Node N C) (error : FsError) :
    Except FsError (Disk N C) :=
  if h : p ≠ [] ∧ d.view p.dropLast = some .directory ∧ d.view p ≠ some .directory then
    .ok (d.put p node h)
  else .error error

/-- `rmSync` with `recursive` and `force`. -/
def rmSync (d : Disk N C) (p : Path N) : Except FsError (Disk N C) :=
  match locate d.view p with
  | .found q => .ok (d.erase q)
  | .missing _ | .nowhere => .ok d
  | .blocked => .error .ENOTDIR

def mkdirStep (d : Disk N C) (p : Path N) : Except FsError (Disk N C) :=
  match locate d.view p with
  | .missing q => d.putAt q .directory .EEXIST
  | .found _ => match resolve d.view p with
    | .found q => if d.view q = some .directory then .ok d else .error .EEXIST
    | _ => .error .EEXIST
  | .nowhere => .error .ENOENT
  | .blocked => .error .ENOTDIR

/-- `mkdirSync` with `recursive`. -/
def mkdirSync (d : Disk N C) (p : Path N) : Except FsError (Disk N C) := p.inits.foldlM mkdirStep d

def writeFileSync (d : Disk N C) (p : Path N) (content : C) : Except FsError (Disk N C) :=
  match resolve d.view p with
  | .found q | .missing q => d.putAt q (.file content) .EISDIR
  | .nowhere => .error .ENOENT
  | .blocked => .error .ENOTDIR

def symlinkSync (d : Disk N C) (target : Target N) (p : Path N) : Except FsError (Disk N C) :=
  match locate d.view p with
  | .missing q => d.putAt q (.link target) .EEXIST
  | .found _ => .error .EEXIST
  | .nowhere => .error .ENOENT
  | .blocked => .error .ENOTDIR

omit [DecidableEq C] in
def childrenAt (d : Disk N C) (p : Path N) : List N :=
  (d.entries.map Prod.fst).filterMap (fun q => if q.dropLast = p then q.getLast? else none)

omit [DecidableEq C] in
def readdirSync (d : Disk N C) (p : Path N) : List N :=
  match resolve d.view p with
  | .found q => d.childrenAt q
  | _ => []

omit [DecidableEq C] in
/-- One more than the length of the longest path, which bounds how deep a walk
over the tree can go. -/
def height (d : Disk N C) : Nat := (d.entries.map (fun e => e.1.length)).foldr max 0 + 1

theorem putAt_ok {d : Disk N C} {p : Path N} {node : Node N C} (error : FsError) (hp : p ≠ [])
    (hd : d.view p.dropLast = some .directory) (hn : d.view p ≠ some .directory) :
    ∃ d', d.putAt p node error = .ok d' ∧
      ∀ q, d'.view q = if q = p then some node else d.view q := by
  have h : p ≠ [] ∧ d.view p.dropLast = some .directory ∧ d.view p ≠ some .directory := ⟨hp, hd, hn⟩
  exact ⟨d.put p node h, by rw [putAt, dif_pos h], d.view_put h⟩

omit [DecidableEq C] in
theorem rmSync_direct {d : Disk N C} {p : Path N} (hd : Direct d.view p) :
    ∃ d', d.rmSync p = .ok d' ∧
      ∀ q, d'.view q = if p <+: q ∧ q ≠ [] then none else d.view q := by
  rcases locate_direct d.isTree hd with ⟨-, hl⟩ | ⟨hn, hl⟩
  · exact ⟨d.erase p, by rw [rmSync, hl], d.view_erase p⟩
  · refine ⟨d, ?_, fun q => ?_⟩
    · rcases hl with hl | hl <;> rw [rmSync, hl]
    · split_ifs with hq
      · exact d.isTree.none_of_prefix hq.1 hn
      · rfl

/-- A path that can be made a directory: nothing but directories and gaps on
the way and at its end. -/
def Free (v : View N C) (p : Path N) : Prop :=
  ∀ q, q <+: p → v q = some .directory ∨ v q = none

theorem mkdirStep_free {d : Disk N C} {p : Path N} {n : N} (hp : d.view p = some .directory)
    (hn : d.view (p ++ [n]) = some .directory ∨ d.view (p ++ [n]) = none) :
    ∃ d', d.mkdirStep (p ++ [n]) = .ok d' ∧
      ∀ q, d'.view q = if q = p ++ [n] then some .directory else d.view q := by
  rcases hn with hn | hn
  · refine ⟨d, ?_, fun q => ?_⟩
    · rw [mkdirStep, locate_of_some d.isTree (by simp [hn])]
      simp only [resolve_of_some d.isTree hn (by simp), if_pos hn]
    · split_ifs with hq
      · rw [hq, hn]
      · rfl
  · rw [mkdirStep, locate, walk_missing d.isTree hp hn]
    exact putAt_ok _ (by simp) (by simpa using hp) (by simp [hn])

theorem mkdirSync_free {d : Disk N C} {p : Path N} (h : Free d.view p) :
    ∃ d', d.mkdirSync p = .ok d' ∧
      ∀ q, d'.view q = if q <+: p then some .directory else d.view q := by
  induction p using List.reverseRecOn with
  | nil =>
      refine ⟨d, ?_, fun q => ?_⟩
      · have hr : resolve d.view [] = .found [] :=
          resolve_of_some d.isTree d.view_nil (by simp)
        have hl : locate d.view [] = .found [] := locate_of_some d.isTree (by simp [view_nil])
        simp [mkdirSync, mkdirStep, hl, hr, view_nil, pure, Except.pure, bind, Except.bind]
      · split_ifs with hq
        · rw [List.prefix_nil.mp hq, view_nil]
        · rfl
  | append_singleton p n ih =>
      obtain ⟨d', hd, hv⟩ := ih (fun q hq => h q (hq.trans (List.prefix_append _ _)))
      have hp : d'.view p = some .directory := by simp [hv]
      have hn : d'.view (p ++ [n]) = some .directory ∨ d'.view (p ++ [n]) = none := by
        have hlen : ¬ p ++ [n] <+: p := fun hp => by
          have hle := hp.length_le
          rw [List.length_append, List.length_singleton] at hle
          omega
        rw [hv, if_neg hlen]
        exact h _ List.prefix_rfl
      obtain ⟨d'', hd', hv'⟩ := mkdirStep_free hp hn
      refine ⟨d'', ?_, fun q => ?_⟩
      · rw [mkdirSync, List.inits_append, List.foldlM_append]
        rw [mkdirSync] at hd
        simp [hd, hd', bind, Except.bind, pure, Except.pure]
      · rw [hv', hv]
        by_cases hq : q = p ++ [n]
        · simp [hq]
        · have hqp : q <+: p ++ [n] ↔ q <+: p := by
            rw [List.prefix_concat_iff]
            exact or_iff_right hq
          simp [hq, hqp]

theorem writeFileSync_at {d : Disk N C} {p : Path N} {n : N} (c : C)
    (hp : d.view p = some .directory)
    (hn : d.view (p ++ [n]) = none ∨ ∃ c, d.view (p ++ [n]) = some (.file c)) :
    ∃ d', d.writeFileSync (p ++ [n]) c = .ok d' ∧
      ∀ q, d'.view q = if q = p ++ [n] then some (.file c) else d.view q := by
  have hr : resolve d.view (p ++ [n]) = .missing (p ++ [n]) ∨
      resolve d.view (p ++ [n]) = .found (p ++ [n]) := by
    rcases hn with hn | ⟨c', hn⟩
    · exact Or.inl (walk_missing d.isTree hp hn)
    · exact Or.inr (resolve_of_some d.isTree hn (by simp))
  have hd : d.view (p ++ [n]) ≠ some .directory := by
    rcases hn with hn | ⟨c', hn⟩ <;> simp [hn]
  obtain ⟨d', hput, hv⟩ : ∃ d', d.putAt (p ++ [n]) (.file c) .EISDIR = .ok d' ∧
      ∀ q, d'.view q = if q = p ++ [n] then some (.file c) else d.view q :=
    putAt_ok _ (by simp) (by simpa using hp) hd
  refine ⟨d', ?_, hv⟩
  rcases hr with hr | hr <;> rw [writeFileSync, hr] <;> exact hput

theorem symlinkSync_at {d : Disk N C} {p : Path N} {n : N} (t : Target N)
    (hp : d.view p = some .directory) (hn : d.view (p ++ [n]) = none) :
    ∃ d', d.symlinkSync t (p ++ [n]) = .ok d' ∧
      ∀ q, d'.view q = if q = p ++ [n] then some (.link t) else d.view q := by
  rw [symlinkSync, locate, walk_missing d.isTree hp hn]
  exact putAt_ok _ (by simp) (by simpa using hp) (by simp [hn])

omit [DecidableEq C] in
theorem mem_childrenAt {d : Disk N C} {p : Path N} {n : N} :
    n ∈ d.childrenAt p ↔ d.view (p ++ [n]) ≠ none := by
  rw [childrenAt, List.mem_filterMap]
  constructor
  · rintro ⟨q, hq, hn⟩
    obtain ⟨e, he, rfl⟩ := List.mem_map.mp hq
    split_ifs at hn with hp
    have hpe : p ++ [n] = e.1 := by
      rw [← hp]
      exact List.dropLast_append_getLast? n hn
    rw [hpe, (d.view_eq_some (d.rooted e he)).mpr he]
    simp
  · intro h
    obtain ⟨node, hn⟩ := Option.ne_none_iff_exists'.mp h
    exact ⟨p ++ [n], List.mem_map_of_mem ((d.view_eq_some (by simp)).mp hn), by simp⟩

omit [DecidableEq C] in
theorem childrenAt_nodup (d : Disk N C) (p : Path N) : (d.childrenAt p).Nodup := by
  refine d.keys.filterMap ?_
  intro q q' n hq hq'
  rw [Option.mem_def] at hq hq'
  split_ifs at hq hq' with h h'
  rw [← List.dropLast_append_getLast? n hq, ← List.dropLast_append_getLast? n hq', h, h']

omit [DecidableEq C] in
theorem view_of_height_le {d : Disk N C} {p : Path N} (hp : p ≠ []) (h : d.height ≤ p.length) :
    d.view p = none := by
  by_contra hn
  obtain ⟨node, hn⟩ := Option.ne_none_iff_exists'.mp hn
  have hm := (d.view_eq_some hp).mp hn
  have hle : p.length ≤ (d.entries.map (fun e => e.1.length)).foldr max 0 :=
    List.le_max_of_le' 0 (List.mem_map_of_mem (f := fun e => e.1.length) hm) le_rfl
  rw [height] at h
  omega

end Disk

end Kross.FileTree

import Kross.Disk
import Kross.Walk

namespace Kross.FileTree

variable {N C : Type} [DecidableEq N] [DecidableEq C] {v : View N C} {d : Disk N C} {p q a base : Path N} {n : N}
  {content : C}

/-- The directories from one that exists on, one after the other; what was made
before a failure stays. -/
def makeDirectories (d : Disk N C) (made : Path N) : List N → Disk N C × Option Disk.FsError
  | [] => (d, none)
  | n :: rest => match d.mkdirStep (made ++ [n]) with
    | .ok d => makeDirectories d (made ++ [n]) rest
    | .error error => (d, some error)

def createFile (d : Disk N C) (p : Path N) (content : C) : Disk N C × Option Disk.FsError :=
  match d.writeFileSync p content with
  | .ok d => (d, none)
  | .error error => (d, some error)

/-- `mkdir` of the parents and `writeFile`. -/
def makeAndWrite (d : Disk N C) (p : Path N) (content : C) : Disk N C × Option Disk.FsError :=
  match makeDirectories d [] p.dropLast with
  | (d, none) => createFile d p content
  | (d, some error) => (d, some error)

def Within (base : Path N) (d d' : Disk N C) : Prop := ∀ p, d'.view p ≠ d.view p → base <+: p

omit [DecidableEq C] in
theorem within_refl (base : Path N) (d : Disk N C) : Within base d d := fun _ h => absurd rfl h

omit [DecidableEq C] in
theorem Within.trans {d' d'' : Disk N C} (h : Within base d d') (h' : Within base d' d'') : Within base d d'' := by
  intro p hp
  by_cases heq : d'.view p = d.view p
  · exact h' p (heq ▸ hp)
  · exact h p heq

theorem within_put {node : Node N C} (h : p ≠ [] ∧ d.view p.dropLast = some .directory ∧ d.view p ≠ some .directory)
    (hp : base <+: p) : Within base d (d.put p node h) := by
  intro q hq
  rw [d.view_put h] at hq
  by_cases hqp : q = p
  · exact hqp ▸ hp
  · rw [if_neg hqp] at hq
    exact absurd rfl hq

section Existing

omit [DecidableEq N] [DecidableEq C] in
/-- What can be reached in a directory lies in one that is there. -/
theorem resolve_parent (hv : IsTree v) {follow : Bool} (h : ∃ q,
    walk v follow linkLimit [] ((p ++ [n]).map .name) = .found q ∨
      walk v follow linkLimit [] ((p ++ [n]).map .name) = .missing q) :
    ∃ a, resolve v p = .found a ∧ v a = some .directory := by
  have hgoes := resolve_concat hv follow p n
  obtain ⟨q, hq⟩ := h
  cases hp : resolve v p with
  | found a =>
      rw [hp] at hgoes
      rcases hgoes with ⟨hd, -⟩ | ⟨-, hblocked⟩
      · exact ⟨a, rfl, hd⟩
      · rw [hblocked] at hq
        simp at hq
  | missing r | nowhere | blocked =>
      rw [hp] at hgoes
      rw [hgoes] at hq
      simp at hq

omit [DecidableEq N] [DecidableEq C] in
theorem resolve_along (hv : IsTree v) {rest : Path N} (h : ∃ a, resolve v (p ++ rest) = .found a ∧ v a = some .directory) :
    ∃ a, resolve v p = .found a ∧ v a = some .directory := by
  induction rest using List.reverseRecOn with
  | nil => rwa [List.append_nil] at h
  | append_singleton rest n ih =>
      obtain ⟨a, ha, -⟩ := h
      rw [← List.append_assoc] at ha
      exact ih (resolve_parent hv ⟨a, Or.inl ha⟩)

omit [DecidableEq N] [DecidableEq C] in
theorem walk_in (hv : IsTree v) (follow : Bool) (hp : resolve v p = .found a) (ha : v a = some .directory) (n : N) :
    ∃ links, walk v follow linkLimit [] ((p ++ [n]).map .name) = walk v follow links a [.name n] := by
  have hgoes := resolve_concat hv follow p n
  rw [hp] at hgoes
  rcases hgoes with ⟨-, hwalk⟩ | ⟨hnot, -⟩
  · exact hwalk
  · exact absurd ha hnot

omit [DecidableEq N] [DecidableEq C] in
theorem locate_of_resolve (hv : IsTree v) (h : resolve v p = .found q) : ∃ l, locate v p = .found l := by
  rcases List.eq_nil_or_concat p with rfl | ⟨p, n, rfl⟩
  · exact ⟨[], walk_nil⟩
  · rw [List.concat_eq_append] at h ⊢
    obtain ⟨a, ha, hd⟩ := resolve_parent hv ⟨q, Or.inl h⟩
    obtain ⟨links, hresolve⟩ := walk_in hv true ha hd n
    obtain ⟨links', hlocate⟩ := walk_in hv false ha hd n
    rw [resolve, hresolve] at h
    rw [locate, hlocate]
    cases hn : v (a ++ [n]) with
    | none =>
        rw [walk_none hn] at h
        cases h
    | some node =>
        cases node with
        | file c => exact ⟨a ++ [n], by rw [walk_file hn]; rfl⟩
        | directory => exact ⟨a ++ [n], by rw [walk_directory hn, walk_nil]⟩
        | link t => exact ⟨a ++ [n], by rw [walk_link hn]; rfl⟩

theorem mkdirStep_existing (h : ∃ a, resolve d.view p = .found a ∧ d.view a = some .directory) :
    d.mkdirStep p = .ok d := by
  obtain ⟨a, ha, hd⟩ := h
  obtain ⟨l, hl⟩ := locate_of_resolve d.isTree ha
  rw [Disk.mkdirStep, hl]
  dsimp only
  rw [ha]
  dsimp only
  rw [if_pos hd]

theorem makeDirectories_append (made first rest : Path N) : makeDirectories d made (first ++ rest) =
    match makeDirectories d made first with
    | (d, none) => makeDirectories d (made ++ first) rest
    | (d, some error) => (d, some error) := by
  induction first generalizing d made with
  | nil => simp [makeDirectories]
  | cons n first ih =>
      rw [List.cons_append, makeDirectories, makeDirectories]
      cases hstep : d.mkdirStep (made ++ [n]) with
      | ok d' =>
          dsimp only
          rw [ih, List.append_assoc]
          rfl
      | error error => rfl

theorem makeDirectories_existing (made rest : Path N)
    (h : ∃ a, resolve d.view (made ++ rest) = .found a ∧ d.view a = some .directory) :
    makeDirectories d made rest = (d, none) := by
  induction rest generalizing made with
  | nil => rfl
  | cons n rest ih =>
      have happend : made ++ n :: rest = made ++ [n] ++ rest := by simp
      rw [happend] at h
      rw [makeDirectories, mkdirStep_existing (resolve_along d.isTree h)]
      exact ih (made ++ [n]) h

end Existing

section Fresh

omit [DecidableEq C] in
/-- A gap in a directory, and what stands there once something is put into it. -/
theorem walk_gap (hp : resolve d.view p = .found a) (ha : d.view a = some .directory)
    (hn : d.view (a ++ [n]) = none) (follow : Bool) :
    walk d.view follow linkLimit [] ((p ++ [n]).map .name) = .missing (a ++ [n]) := by
  obtain ⟨links, hwalk⟩ := walk_in d.isTree follow hp ha n
  rw [hwalk, walk_none hn]
  rfl

theorem resolve_put (hp : resolve d.view p = .found a) (ha : d.view a = some .directory)
    (h : a ++ [n] ≠ [] ∧ d.view (a ++ [n]).dropLast = some .directory ∧ d.view (a ++ [n]) ≠ some .directory)
    (hn : d.view (a ++ [n]) = none) :
    resolve (d.put (a ++ [n]) .directory h).view (p ++ [n]) = .found (a ++ [n]) := by
  have hkept : ∀ q, d.view q ≠ none → (d.put (a ++ [n]) .directory h).view q = d.view q := by
    intro q hq
    have hne : q ≠ a ++ [n] := fun he => hq (he ▸ hn)
    rw [d.view_put h, if_neg hne]
  have hparent : resolve (d.put (a ++ [n]) .directory h).view p = .found a :=
    walk_extends hkept linkLimit [] (p.map .name) hp
  have hmade : (d.put (a ++ [n]) .directory h).view (a ++ [n]) = some .directory := by
    rw [d.view_put h, if_pos rfl]
  have hthere : (d.put (a ++ [n]) .directory h).view a = some .directory := by
    rw [hkept a (by rw [ha]; exact Option.some_ne_none _), ha]
  obtain ⟨links, hwalk⟩ := walk_in (d.put (a ++ [n]) .directory h).isTree true hparent hthere n
  rw [resolve, hwalk, walk_directory hmade, walk_nil]

/-- Below a gap every directory is made anew. -/
theorem makeDirectories_fresh (made : Path N) (names : Path N) (hp : resolve d.view made = .found a)
    (ha : d.view a = some .directory) (hnames : names ≠ [])
    (hfresh : ∀ n, names.head? = some n → d.view (a ++ [n]) = none) :
    ∃ d', makeDirectories d made names = (d', none) ∧ Within a d d' ∧
      resolve d'.view (made ++ names) = .found (a ++ names) ∧ d'.view (a ++ names) = some .directory ∧
      ∀ n, d'.view (a ++ names ++ [n]) = none := by
  induction names generalizing d made a with
  | nil => exact absurd rfl hnames
  | cons n names ih =>
      have hn := hfresh n rfl
      have hput : a ++ [n] ≠ [] ∧ d.view (a ++ [n]).dropLast = some .directory ∧
          d.view (a ++ [n]) ≠ some .directory :=
        ⟨by simp, by rwa [List.dropLast_concat], by rw [hn]; nofun⟩
      have hstep : d.mkdirStep (made ++ [n]) = .ok (d.put (a ++ [n]) .directory hput) := by
        have hlocate : locate d.view (made ++ [n]) = .missing (a ++ [n]) := walk_gap hp ha hn false
        rw [Disk.mkdirStep, hlocate]
        dsimp only
        rw [Disk.putAt, dif_pos hput]
      have hmade : (d.put (a ++ [n]) .directory hput).view (a ++ [n]) = some .directory := by
        rw [d.view_put hput, if_pos rfl]
      have hbelow : ∀ m, (d.put (a ++ [n]) .directory hput).view (a ++ [n] ++ [m]) = none := by
        intro m
        rw [d.view_put hput, if_neg (by simp)]
        exact d.isTree.none_of_prefix (List.prefix_append _ _) hn
      have hwithin : Within a d (d.put (a ++ [n]) .directory hput) :=
        within_put hput (List.prefix_append _ _)
      have hresolve := resolve_put hp ha hput hn
      rw [makeDirectories, hstep]
      dsimp only
      rcases List.eq_nil_or_concat names with rfl | ⟨_, _, hconcat⟩
      · exact ⟨_, rfl, hwithin, hresolve, hmade, hbelow⟩
      · obtain ⟨d', hmk, hin, hres, hdir, hnone⟩ := ih (made ++ [n]) hresolve hmade (by rw [hconcat]; simp)
          (fun m _ => hbelow m)
        refine ⟨d', hmk, hwithin.trans (fun q hq => (List.prefix_append a [n]).trans (hin q hq)), ?_, ?_, ?_⟩
        · simpa using hres
        · simpa using hdir
        · simpa using hnone

end Fresh

section Safe

/-- A path is a link to a gap that does not lie below `base`. -/
def LeadsOut (v : View N C) (base p : Path N) : Prop :=
  ∃ l t q, locate v p = .found l ∧ v l = some (.link t) ∧ resolve v p = .missing q ∧ ¬base <+: q

/-- What stands at a path, or else at the nearest parent that is there, lies below `base`. -/
def Checked (v : View N C) (base p : Path N) : Prop :=
  (∃ q, resolve v p = .found q ∧ base <+: q) ∨
    ((resolve v p = .nowhere ∨ ∃ q, resolve v p = .missing q) ∧ ∃ near rest a, p.dropLast = near ++ rest ∧
      resolve v near = .found a ∧ base <+: a ∧
      ∀ n, rest.head? = some n → resolve v (near ++ [n]) = .nowhere ∨ ∃ q, resolve v (near ++ [n]) = .missing q)

theorem within_createFile (h : ∀ q, (resolve d.view p = .found q ∨ resolve d.view p = .missing q) → base <+: q) :
    Within base d (createFile d p content).1 := by
  rw [createFile, Disk.writeFileSync]
  cases hp : resolve d.view p with
  | found q | missing q =>
      dsimp only
      rw [Disk.putAt]
      split_ifs with hput
      · exact within_put hput (h q (by simp [hp]))
      · exact within_refl base d
  | nowhere | blocked => exact within_refl base d

omit [DecidableEq N] [DecidableEq C] in
/-- What is missing in a directory is a gap there, or behind a link. -/
theorem entry_of_missing (hv : IsTree v) (hp : resolve v p = .found a) (ha : v a = some .directory)
    (hmissing : resolve v (p ++ [n]) = .nowhere ∨ ∃ q, resolve v (p ++ [n]) = .missing q) :
    v (a ++ [n]) = none ∧ resolve v (p ++ [n]) = .missing (a ++ [n]) ∨
      locate v (p ++ [n]) = .found (a ++ [n]) ∧ ∃ t, v (a ++ [n]) = some (.link t) := by
  obtain ⟨links, hresolve⟩ := walk_in hv true hp ha n
  obtain ⟨links', hlocate⟩ := walk_in hv false hp ha n
  rw [resolve, hresolve] at hmissing ⊢
  rw [locate, hlocate]
  cases hn : v (a ++ [n]) with
  | none => exact Or.inl ⟨rfl, by rw [walk_none hn]; rfl⟩
  | some node =>
      cases node with
      | file c =>
          rw [walk_file hn] at hmissing
          simp at hmissing
      | directory =>
          rw [walk_directory hn, walk_nil] at hmissing
          simp at hmissing
      | link t => exact Or.inr ⟨by rw [walk_link hn]; rfl, t, rfl⟩

theorem makeAndWrite_existing (h : ∃ a, resolve d.view p.dropLast = .found a ∧ d.view a = some .directory) :
    makeAndWrite d p content = createFile d p content := by
  have hmake : makeDirectories d [] p.dropLast = (d, none) := makeDirectories_existing [] p.dropLast h
  rw [makeAndWrite, hmake]

omit [DecidableEq N] [DecidableEq C] in
/-- The parents of what is missing are directories, down to where the missing part begins. -/
theorem near_directory (hv : IsTree v) (hp : resolve v p = .found a)
    (hmissing : resolve v (p ++ [n]) = .nowhere ∨ ∃ q, resolve v (p ++ [n]) = .missing q) :
    v a = some .directory := by
  have hgoes := resolve_concat hv true p n
  rw [hp] at hgoes
  rcases hgoes with ⟨hd, -⟩ | ⟨-, hblocked⟩
  · exact hd
  · rw [resolve, hblocked] at hmissing
    simp at hmissing

theorem within_missing (hmissing : resolve d.view (p ++ [n]) = .nowhere ∨ ∃ q, resolve d.view (p ++ [n]) = .missing q)
    (hp : resolve d.view p = .found a) (hbase : base <+: a) (hin : ¬LeadsOut d.view base (p ++ [n])) :
    Within base d (makeAndWrite d (p ++ [n]) content).1 := by
  have ha := near_directory d.isTree hp hmissing
  rw [makeAndWrite_existing (by rw [List.dropLast_concat]; exact ⟨a, hp, ha⟩)]
  refine within_createFile (fun q hq => ?_)
  rcases hq with hq | hq
  · rw [hq] at hmissing
    simp at hmissing
  · rcases entry_of_missing d.isTree hp ha hmissing with ⟨-, hgap⟩ | ⟨hlocate, t, hlink⟩
    · rw [hgap] at hq
      cases hq
      exact hbase.trans (List.prefix_append a [n])
    · by_contra hout
      exact hin ⟨a ++ [n], t, q, hlocate, hlink, hq, hout⟩

/-- A link that leads to nothing stops the making of directories. -/
theorem mkdirStep_link {l : Path N} (hl : locate d.view p = .found l) (h : ∀ q, resolve d.view p ≠ .found q) :
    d.mkdirStep p = .error .EEXIST := by
  rw [Disk.mkdirStep, hl]
  dsimp only
  cases hp : resolve d.view p with
  | found q => exact absurd hp (h q)
  | missing q | nowhere | blocked => rfl

/-- Below the nearest parent that is there, the directories are made anew or not at all. -/
theorem makeDirectories_gap {near : Path N} (rest : Path N) (hp : resolve d.view near = .found a)
    (hmissing : resolve d.view (near ++ [n]) = .nowhere ∨ ∃ q, resolve d.view (near ++ [n]) = .missing q) :
    (∃ d', makeDirectories d [] (near ++ n :: rest) = (d', none) ∧ Within a d d' ∧
      ∀ m, resolve d'.view (near ++ n :: rest ++ [m]) = .missing (a ++ n :: rest ++ [m])) ∨
      makeDirectories d [] (near ++ n :: rest) = (d, some .EEXIST) := by
  have ha := near_directory d.isTree hp hmissing
  have hsome : makeDirectories d [] near = (d, none) := makeDirectories_existing [] near ⟨a, hp, ha⟩
  rw [makeDirectories_append, hsome]
  dsimp only
  rw [List.nil_append]
  rcases entry_of_missing d.isTree hp ha hmissing with ⟨hnone, -⟩ | ⟨hlocate, t, hlink⟩
  · left
    obtain ⟨d', hmake, hwithin, hresolve, hd, hbelow⟩ :=
      makeDirectories_fresh near (n :: rest) hp ha (List.cons_ne_nil n rest) (fun k hk => by cases hk; exact hnone)
    exact ⟨d', hmake, hwithin, fun m => walk_gap hresolve hd (hbelow m) true⟩
  · right
    have hstop : d.mkdirStep (near ++ [n]) = .error .EEXIST := by
      refine mkdirStep_link hlocate (fun q hq => ?_)
      rw [hq] at hmissing
      simp at hmissing
    rw [makeDirectories, hstop]

theorem within_gap {near rest : Path N} {m : N} (hp : resolve d.view near = .found a) (hbase : base <+: a)
    (hmissing : resolve d.view (near ++ [n]) = .nowhere ∨ ∃ q, resolve d.view (near ++ [n]) = .missing q) :
    Within base d (makeAndWrite d (near ++ n :: rest ++ [m]) content).1 := by
  rw [makeAndWrite, List.dropLast_concat]
  rcases makeDirectories_gap rest hp hmissing with ⟨d', hmake, hwithin, hgap⟩ | hstop
  · rw [hmake]
    dsimp only
    refine Within.trans (fun q hq => hbase.trans (hwithin q hq)) (within_createFile (fun q hq => ?_))
    rw [hgap m] at hq
    rcases hq with hq | hq
    · cases hq
    · cases hq
      rw [List.append_assoc]
      exact hbase.trans (List.prefix_append a _)
  · rw [hstop]
    exact within_refl base d

omit [DecidableEq N] [DecidableEq C] in
theorem parent_of_found (hv : IsTree v) (hq : resolve v p = .found q) :
    ∃ a, resolve v p.dropLast = .found a ∧ v a = some .directory := by
  rcases List.eq_nil_or_concat p with rfl | ⟨p, n, rfl⟩
  · exact ⟨[], walk_nil, hv.root⟩
  · rw [List.concat_eq_append] at hq ⊢
    rw [List.dropLast_concat]
    exact resolve_parent hv ⟨q, Or.inl hq⟩

theorem within_makeDirectories (hchecked : Checked d.view base p) :
    Within base d (makeDirectories d [] p.dropLast).1 := by
  rcases hchecked with ⟨q, hq, hbase⟩ | ⟨hmissing, near, rest, a, hdrop, hnear, hbase, hrest⟩
  · rw [makeDirectories_existing [] p.dropLast (parent_of_found d.isTree hq)]
    exact within_refl base d
  · rw [hdrop]
    cases rest with
    | nil =>
        have hparent : resolve d.view p.dropLast = .found a := by rwa [hdrop, List.append_nil]
        rcases List.eq_nil_or_concat p with rfl | ⟨p, m, rfl⟩
        · rw [← hdrop]
          exact within_refl base d
        · rw [List.concat_eq_append] at hmissing hparent
          rw [List.dropLast_concat] at hparent
          rw [makeDirectories_existing [] (near ++ []) ⟨a, by rwa [List.nil_append, List.append_nil],
            near_directory d.isTree hparent hmissing⟩]
          exact within_refl base d
    | cons n rest =>
        rcases makeDirectories_gap _ hnear (hrest n rfl) with ⟨d', hmake, hwithin, -⟩ | hstop
        · rw [hmake]
          exact fun q hq => hbase.trans (hwithin q hq)
        · rw [hstop]
          exact within_refl base d

theorem within_makeAndWrite (hchecked : Checked d.view base p) (hin : ¬LeadsOut d.view base p) :
    Within base d (makeAndWrite d p content).1 := by
  rcases hchecked with ⟨q, hq, hbase⟩ | ⟨hmissing, near, rest, a, hdrop, hnear, hbase, hrest⟩
  · rw [makeAndWrite_existing (parent_of_found d.isTree hq)]
    refine within_createFile (fun r hr => ?_)
    rw [hq] at hr
    simp only [Place.found.injEq, reduceCtorEq, or_false] at hr
    exact hr ▸ hbase
  · rcases List.eq_nil_or_concat p with rfl | ⟨p, m, rfl⟩
    · rw [resolve, List.map_nil, walk_nil] at hmissing
      simp at hmissing
    · rw [List.concat_eq_append] at hmissing hdrop hin ⊢
      rw [List.dropLast_concat] at hdrop
      subst hdrop
      cases rest with
      | nil =>
          rw [List.append_nil] at hmissing hin ⊢
          exact within_missing hmissing hnear hbase hin
      | cons n rest => exact within_gap hnear hbase (hrest n rfl)

theorem not_within_makeAndWrite (hout : LeadsOut d.view base p) :
    ¬Within base d (makeAndWrite d p content).1 := by
  obtain ⟨l, t, q, hlocate, hlink, hresolve, hq⟩ := hout
  have hparent : ∃ a, resolve d.view p.dropLast = .found a ∧ d.view a = some .directory := by
    rcases List.eq_nil_or_concat p with rfl | ⟨p, n, rfl⟩
    · exact ⟨[], walk_nil, d.isTree.root⟩
    · rw [List.concat_eq_append] at hlocate ⊢
      rw [List.dropLast_concat]
      exact resolve_parent d.isTree ⟨l, Or.inl hlocate⟩
  obtain ⟨c, n, rfl, hc, hnone⟩ := (resolve_arrives d.isTree p).missing q hresolve
  have hput : c ++ [n] ≠ [] ∧ d.view (c ++ [n]).dropLast = some .directory ∧
      d.view (c ++ [n]) ≠ some .directory :=
    ⟨by simp, by rwa [List.dropLast_concat], by rw [hnone]; nofun⟩
  rw [makeAndWrite_existing hparent, createFile, Disk.writeFileSync, hresolve]
  dsimp only
  rw [Disk.putAt, dif_pos hput]
  intro hwithin
  refine hq (hwithin (c ++ [n]) ?_)
  rw [d.view_put hput, if_pos rfl, hnone]
  exact Option.some_ne_none _

end Safe

end Kross.FileTree

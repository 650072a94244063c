import Kross.Tools.Paths

namespace Kross.Tools

open Kross.FileTree

section Rooted

/-- An absolute path has nothing left to go up from. -/
def NormalPath.Rooted (path : NormalPath) : Prop := path.absolute = true ∧ path.ups = 0

theorem NormalPath.Rooted.push {path : NormalPath} (h : path.Rooted) (step : Step Name) : (path.push step).Rooted := by
  cases step with
  | name n => exact h
  | up =>
      rw [NormalPath.push]
      split_ifs with hnames habsolute
      · exact h
      · exact h
      · exact absurd h.1 habsolute

theorem NormalPath.Rooted.foldl {path : NormalPath} (h : path.Rooted) (steps : List (Step Name)) :
    (steps.foldl NormalPath.push path).Rooted := by
  induction steps generalizing path with
  | nil => exact h
  | cons step steps ih => exact ih (h.push step)

theorem rooted_lexicalTarget (cwd : List Name) (root inputPath : List Char) :
    (lexicalTarget cwd root inputPath).Rooted := by
  rw [lexicalTarget]
  split_ifs with habsolute
  · have hfold := (show (⟨isAbsolute inputPath, 0, [], false⟩ : NormalPath).Rooted from ⟨habsolute, rfl⟩).foldl (stepsOf inputPath)
    exact ⟨hfold.1, hfold.2⟩
  · exact NormalPath.Rooted.foldl ⟨rfl, rfl⟩ _

theorem NormalPath.Rooted.steps {path : NormalPath} (h : path.Rooted) : path.steps = path.names.map Step.name := by
  rw [NormalPath.steps, h.2]
  rfl

theorem NormalPath.Rooted.dirname {path : NormalPath} (h : path.Rooted) : path.dirname.Rooted := h

end Rooted

section Text

theorem splitOn_names {names : List Name} (h : names ≠ []) :
    (List.intercalate ['/'] (names.map Subtype.val)).splitOn '/' = names.map Subtype.val := by
  refine List.splitOn_intercalate '/' (fun segment hsegment => ?_) (List.map_eq_nil_iff.not.mpr h)
  obtain ⟨n, -, rfl⟩ := List.mem_map.mp hsegment
  exact n.2.2.1

theorem names_text_ne_nil {names : List Name} (h : names ≠ []) :
    List.intercalate ['/'] (names.map Subtype.val) ≠ [] := by
  intro hempty
  have hsplit := splitOn_names h
  rw [hempty, List.splitOn_nil] at hsplit
  cases names with
  | nil => exact h rfl
  | cons n names =>
      rw [List.map_cons, List.cons.injEq] at hsplit
      exact n.2.1 hsplit.1.symm

theorem realText_names {p : Path Name} (h : p ≠ []) :
    realText p = [] ++ '/' :: List.intercalate ['/'] (p.map Subtype.val) := by
  have hbody := names_text_ne_nil h
  rw [realText, NormalPath.text]
  dsimp only
  rw [List.replicate_zero, List.nil_append, if_neg hbody, if_pos rfl]
  simp

theorem splitOn_realText {p : Path Name} (h : p ≠ []) : (realText p).splitOn '/' = [] :: p.map Subtype.val := by
  rw [realText_names h, List.splitOn_append_cons_self, splitOn_names h]
  rfl

/-- The text of a path within another one has its segments first. -/
theorem segments_of_startsWithin {base : Path Name} {target : List Char} (hbase : base ≠ [])
    (h : startsWithin (realText base) target = true) : [] :: base.map Subtype.val <+: target.splitOn '/' := by
  rw [startsWithin, Bool.or_eq_true, decide_eq_true_eq, List.isPrefixOf_iff_prefix] at h
  rcases h with rfl | ⟨rest, rfl⟩
  · rw [splitOn_realText hbase]
  · rw [List.append_assoc, List.singleton_append, List.splitOn_append_cons_self, splitOn_realText hbase]
    exact List.prefix_append _ _

theorem prefix_of_startsWithin {base target : Path Name} (h : startsWithin (realText base) (realText target) = true) :
    base <+: target := by
  rcases eq_or_ne base [] with rfl | hbase
  · exact List.nil_prefix
  have hsegments := segments_of_startsWithin hbase h
  rcases eq_or_ne target [] with rfl | htarget
  · have hroot : (realText []).splitOn '/' = [[], []] := by decide
    rw [hroot, List.cons_prefix_cons] at hsegments
    cases base with
    | nil => exact absurd rfl hbase
    | cons n base =>
        rw [List.map_cons, List.cons_prefix_cons] at hsegments
        exact absurd hsegments.2.1 n.2.1
  · rw [splitOn_realText htarget, List.cons_prefix_cons] at hsegments
    exact (List.prefix_map_iff_of_injective Subtype.val_injective).mp hsegments.2

end Text

section Check

variable {C : Type} [DecidableEq C] {v : View Name C} {cwd : List Name} {path : NormalPath}

/-- What a path that is there, or is not, leads to. -/
theorem NormalPath.Rooted.realpath_ok (h : path.Rooted) {p : Path Name} (hp : path.realpath v cwd = .ok p) :
    resolve v path.names = .found p := by
  rw [NormalPath.realpath, realpathSteps, h.1, if_pos rfl, h.steps] at hp
  rw [resolve]
  split at hp
  · rename_i q hq
    split_ifs at hp
    cases hp
    exact hq
  · cases hp
  · cases hp
  · cases hp

theorem NormalPath.Rooted.realpath_missing (h : path.Rooted) (hp : path.realpath v cwd = .error (.fs .ENOENT)) :
    resolve v path.names = .nowhere ∨ ∃ q, resolve v path.names = .missing q := by
  rw [NormalPath.realpath, realpathSteps, h.1, if_pos rfl, h.steps] at hp
  rw [resolve]
  split at hp
  · split_ifs at hp
    cases hp
  · rename_i q hq
    exact Or.inr ⟨q, hq⟩
  · rename_i hq
    exact Or.inl hq
  · cases hp

/-- The nearest parent that is there, and that what comes next is not there. -/
theorem realpathExistingAncestor_near {from' lexicalRoot current : NormalPath} {fuel : Nat} (h : current.Rooted)
    {a : Path Name} (ha : realpathExistingAncestor v cwd from' lexicalRoot fuel current = .ok a) :
    ∃ near rest, current.names = near ++ rest ∧ resolve v near = .found a ∧
      ∀ n, rest.head? = some n → resolve v (near ++ [n]) = .nowhere ∨ ∃ q, resolve v (near ++ [n]) = .missing q := by
  induction fuel generalizing current with
  | zero => cases ha
  | succ fuel ih =>
      rw [realpathExistingAncestor] at ha
      cases hreal : current.realpath v cwd with
      | ok p =>
          rw [hreal] at ha
          cases ha
          exact ⟨current.names, [], by simp, h.realpath_ok hreal, by simp⟩
      | error error =>
          rw [hreal] at ha
          split at ha
          · cases ‹Except.error _ = Except.ok _›
          · rename_i hmissing
            rw [hmissing] at hreal
            have hgone := h.realpath_missing hreal
            split_ifs at ha
            obtain ⟨near, rest, hnames, hnear, hrest⟩ := ih h.dirname ha
            rcases List.eq_nil_or_concat current.names with hnil | ⟨names, m, hconcat⟩
            · rw [hnil, resolve, List.map_nil, walk_nil] at hgone
              simp at hgone
            · rw [List.concat_eq_append] at hconcat
              rw [NormalPath.dirname, hconcat, List.dropLast_concat] at hnames
              subst hnames
              refine ⟨near, rest ++ [m], by rw [hconcat, List.append_assoc], hnear, fun n hn => ?_⟩
              cases rest with
              | nil =>
                  cases hn
                  rwa [hconcat, List.append_nil] at hgone
              | cons k rest => exact hrest n hn
          · cases ha

theorem assertRealPathWithinWorkspace_ok {base target : Path Name} {attemptedPath : List Char} {unit : Unit}
    (h : assertRealPathWithinWorkspace base target attemptedPath = .ok unit) : base <+: target := by
  rw [assertRealPathWithinWorkspace] at h
  split_ifs at h with hwithin
  exact prefix_of_startsWithin hwithin

variable {root inputPath : List Char} {target : NormalPath}

theorem resolveToolPath_ok (h : resolveToolPath cwd root inputPath .workspace = .ok target) :
    target = lexicalTarget cwd root inputPath := by
  rw [resolveToolPath, resolveWithinWorkspace] at h
  split_ifs at h
  cases h
  rfl

/-- Both checks together: the real path of what is there, or of the nearest parent. -/
theorem resolveWritable_checked
    (h : resolveWritablePathWithinWorkspace v cwd root inputPath .workspace = .ok target) :
    target = lexicalTarget cwd root inputPath ∧ ∃ base, realpath v cwd root = .ok base ∧ Checked v base target.names := by
  rw [resolveWritablePathWithinWorkspace] at h
  cases htool : resolveToolPath cwd root inputPath .workspace with
  | error error =>
      rw [htool] at h
      cases h
  | ok lexical =>
      have hlexical := resolveToolPath_ok htool
      have hrooted : lexical.Rooted := hlexical ▸ rooted_lexicalTarget cwd root inputPath
      rw [htool] at h
      simp only [bind, Except.bind, reduceCtorEq, if_false] at h
      cases hbase : realpath v cwd root with
      | error error =>
          rw [hbase] at h
          cases h
      | ok base =>
          rw [hbase] at h
          dsimp only at h
          cases hreal : lexical.realpath v cwd with
          | ok realTarget =>
              rw [hreal] at h
              dsimp only at h
              cases hassert : assertRealPathWithinWorkspace base realTarget inputPath with
              | error error =>
                  rw [hassert] at h
                  cases h
              | ok unit =>
                  rw [hassert] at h
                  cases h
                  exact ⟨hlexical, base, rfl, Or.inl ⟨realTarget, hrooted.realpath_ok hreal,
                    assertRealPathWithinWorkspace_ok hassert⟩⟩
          | error error =>
              rw [hreal] at h
              split at h
              · cases ‹Except.error _ = Except.ok _›
              · rename_i hmissing
                rw [hmissing] at hreal
                split at h
                · cases h
                · rename_i realParent hparent
                  split at h
                  · cases h
                  · rename_i unit hassert
                    cases h
                    obtain ⟨near, rest, hnames, hnear, hrest⟩ := realpathExistingAncestor_near hrooted.dirname hparent
                    exact ⟨hlexical, base, rfl, Or.inr ⟨hrooted.realpath_missing hreal, near, rest, realParent, hnames,
                      hnear, assertRealPathWithinWorkspace_ok hassert, hrest⟩⟩
              · cases h

end Check

section Sandbox

variable {C : Type} [DecidableEq C] {d : Disk Name C} {cwd : List Name} {root inputPath : List Char}
  {target : NormalPath} {base : Path Name} {content : C}

theorem within_write (h : Checked d.view base target.names) :
    Within base d (write d target content).1 ↔ ¬(target.slash = false ∧ LeadsOut d.view base target.names) := by
  have hfile : target.slash = false → write d target content = makeAndWrite d target.names content := by
    intro hslash
    have hdirname : target.dirname.names = target.names.dropLast := rfl
    rw [write, makeAndWrite, hdirname]
    cases hmade : makeDirectories d [] target.names.dropLast with
    | mk made error => cases error <;> simp [writeFile, hslash]
  constructor
  · rintro hwithin ⟨hslash, hout⟩
    rw [hfile hslash] at hwithin
    exact not_within_makeAndWrite hout hwithin
  · intro hin
    cases hslash : target.slash with
    | false =>
        rw [hfile hslash]
        exact within_makeAndWrite h (fun hout => hin ⟨hslash, hout⟩)
    | true =>
        have hmake := within_makeDirectories h
        have hdirname : target.dirname.names = target.names.dropLast := rfl
        rw [write, hdirname]
        cases hmade : makeDirectories d [] target.names.dropLast with
        | mk made error =>
            rw [hmade] at hmake
            cases error with
            | none => simpa [writeFile, hslash] using hmake
            | some error => exact hmake

/-- The path given is a link to something that is not there, and would not be
below the real path of the root. -/
def LinksOut (v : View Name C) (cwd : List Name) (root inputPath : List Char) : Prop :=
  ∃ base, realpath v cwd root = .ok base ∧ (lexicalTarget cwd root inputPath).slash = false ∧
    LeadsOut v base (lexicalTarget cwd root inputPath).names

theorem write_within_iff (d : Disk Name C) (cwd : List Name) (root inputPath : List Char) (content : C)
    (target : NormalPath) (h : resolveWritablePathWithinWorkspace d.view cwd root inputPath .workspace = .ok target) :
    (∃ base, realpath d.view cwd root = .ok base ∧ Within base d (write d target content).1) ↔
      ¬LinksOut d.view cwd root inputPath := by
  obtain ⟨rfl, base, hbase, hchecked⟩ := resolveWritable_checked h
  constructor
  · rintro ⟨base', hbase', hwithin⟩ ⟨base'', hbase'', hout⟩
    rw [hbase] at hbase' hbase''
    cases hbase'
    cases hbase''
    exact (within_write hchecked).mp hwithin hout
  · intro hin
    exact ⟨base, hbase, (within_write hchecked).mpr (fun hout => hin ⟨base, hbase, hout⟩)⟩

def workspaceDirectory : Name := ⟨"ws".toList, by decide⟩

def outsideDirectory : Name := ⟨"out".toList, by decide⟩

def linkName : Name := ⟨"link".toList, by decide⟩

def goneName : Name := ⟨"gone".toList, by decide⟩

/-- A workspace whose one entry is a link to nothing in another directory. -/
def danglingDisk : Disk Name String where
  entries := [([workspaceDirectory], .directory), ([outsideDirectory], .directory),
    ([workspaceDirectory, linkName], .link ⟨true, [.name outsideDirectory, .name goneName]⟩)]
  keys := by decide
  rooted := by decide
  parents := by decide

theorem write_within_iff_plain :
    (∃ base, realpath danglingDisk.view [] "/ws".toList = .ok base ∧
      Within base danglingDisk (write danglingDisk (lexicalTarget [] "/ws".toList "a/b".toList) "text").1) ↔
      ¬LinksOut danglingDisk.view [] "/ws".toList "a/b".toList :=
  write_within_iff danglingDisk [] "/ws".toList "a/b".toList "text" (lexicalTarget [] "/ws".toList "a/b".toList)
    (by decide)

/-- The check lets the link pass as a file that is not there, and the write makes
the file it leads to. -/
theorem danglingLink_writes_outside :
    resolveWritablePathWithinWorkspace danglingDisk.view [] "/ws".toList "link".toList .workspace =
        .ok (lexicalTarget [] "/ws".toList "link".toList) ∧
      ¬∃ base, realpath danglingDisk.view [] "/ws".toList = .ok base ∧
        Within base danglingDisk (write danglingDisk (lexicalTarget [] "/ws".toList "link".toList) "text").1 := by
  refine ⟨by decide, ?_⟩
  rintro ⟨base, hbase, hwithin⟩
  have hroot : realpath danglingDisk.view [] "/ws".toList = .ok [workspaceDirectory] := by decide
  rw [hroot] at hbase
  cases hbase
  have hout := hwithin [outsideDirectory, goneName] (by decide)
  revert hout
  decide

theorem executeWrite_within (hbase : realpath d.view cwd root = .ok base) (h : ¬LinksOut d.view cwd root inputPath) :
    Within base d (executeWrite d cwd root inputPath content .workspace).1 := by
  rw [executeWrite]
  cases hresolve : resolveWritablePathWithinWorkspace d.view cwd root inputPath .workspace with
  | error error => exact within_refl base d
  | ok target =>
      dsimp only
      cases readExisting d target with
      | error error => exact within_refl base d
      | ok previous =>
          obtain ⟨rfl, base', hbase', hchecked⟩ := resolveWritable_checked hresolve
          rw [hbase] at hbase'
          cases hbase'
          exact (within_write hchecked).mpr (fun hout => h ⟨base, hbase, hout⟩)

end Sandbox

end Kross.Tools

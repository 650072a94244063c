import Mathlib.Data.List.TakeWhile
import Kross.Lines
import Kross.Wildcard

namespace Kross.Tools.Glob

open Wildcard

/-- A unit of a JavaScript text. -/
abbrev CodeUnit := UInt16

@[match_pattern] abbrev star : CodeUnit := 42
@[match_pattern] abbrev slash : CodeUnit := 47
@[match_pattern] abbrev question : CodeUnit := 63

def comma : CodeUnit := 44
def openBrace : CodeUnit := 123
def closeBrace : CodeUnit := 125

/-- `\n`, `\r`, U+2028 and U+2029, which `.` does not match. -/
def isLineTerminator (c : CodeUnit) : Bool := c ∈ [10, 13, 8232, 8233]

/-- What `trim` takes away. -/
def isWhitespace (c : CodeUnit) : Bool :=
  c ∈ [9, 10, 11, 12, 13, 32, 160, 5760, 8192, 8193, 8194, 8195, 8196, 8197, 8198, 8199, 8200, 8201, 8202,
    8232, 8233, 8239, 8287, 12288, 65279]

def trim (text : List CodeUnit) : List CodeUnit :=
  ((text.dropWhile isWhitespace).reverse.dropWhile isWhitespace).reverse

def isBrace (c : CodeUnit) : Bool := c = openBrace || c = closeBrace

/-- The first match of `/\x7b([^\x7b\x7d]+)\x7d/`. -/
structure Group where
  before : List CodeUnit
  content : List CodeUnit
  after : List CodeUnit

def Group.behind (c : CodeUnit) (group : Group) : Group := { group with before := c :: group.before }

/-- The content and the text behind it, when the brace in front of the text opens a group. -/
def contentOf (text : List CodeUnit) : Option (List CodeUnit × List CodeUnit) :=
  let content := text.takeWhile (fun c => !isBrace c)
  match text.dropWhile (fun c => !isBrace c) with
  | c :: after => if content ≠ [] ∧ c = closeBrace then some (content, after) else none
  | [] => none

def exec : List CodeUnit → Option Group
  | [] => none
  | c :: text =>
    match if c = openBrace then contentOf text else none with
    | some (content, after) => some ⟨[], content, after⟩
    | none => (exec text).map (Group.behind c)

def alts (group : Group) : List (List CodeUnit) :=
  ((group.content.splitOn comma).map trim).filter (fun part => part ≠ [])

def Group.with (group : Group) (alt : List CodeUnit) : List CodeUnit := group.before ++ alt ++ group.after

theorem mem_trim {c : CodeUnit} {text : List CodeUnit} (h : c ∈ trim text) : c ∈ text := by
  rw [trim, List.mem_reverse] at h
  have hreversed := (List.dropWhile_sublist _).subset h
  rw [List.mem_reverse] at hreversed
  exact (List.dropWhile_sublist _).subset hreversed

theorem contentOf_eq_some {text content after : List CodeUnit} (h : contentOf text = some (content, after)) :
    text = content ++ closeBrace :: after ∧ ∀ c ∈ content, isBrace c = false := by
  rw [contentOf] at h
  split at h
  next c rest hdrop =>
    split_ifs at h with hcond
    obtain ⟨rfl, rfl⟩ := Prod.mk.inj (Option.some.inj h)
    refine ⟨?_, fun c hc => ?_⟩
    · rw [← hcond.2, ← hdrop, List.takeWhile_append_dropWhile]
    · simpa using List.mem_takeWhile_imp hc
  next => cases h

theorem exec_eq_some {pattern : List CodeUnit} {group : Group} (h : exec pattern = some group) :
    pattern = group.before ++ openBrace :: group.content ++ closeBrace :: group.after ∧
      ∀ c ∈ group.content, isBrace c = false := by
  induction pattern generalizing group with
  | nil => cases h
  | cons c text ih =>
      rw [exec] at h
      split at h
      next content after hcontent =>
        split_ifs at hcontent with hc
        obtain ⟨htext, hbraces⟩ := contentOf_eq_some hcontent
        cases h
        exact ⟨by simp [hc, htext], hbraces⟩
      next =>
        obtain ⟨inner, hinner, rfl⟩ := Option.map_eq_some_iff.mp h
        obtain ⟨htext, hbraces⟩ := ih hinner
        exact ⟨by simp [Group.behind, htext], hbraces⟩

theorem mem_splitOn {separator c : CodeUnit} {text part : List CodeUnit} (hpart : part ∈ text.splitOn separator)
    (hc : c ∈ part) : c ∈ text := by
  rw [← Lines.join_splitOn separator text]
  exact Lines.subset_join hpart hc

/-- Every expansion of a group opens one brace less. -/
theorem count_with {pattern alt : List CodeUnit} {group : Group} (h : exec pattern = some group)
    (halt : alt ∈ alts group) : (group.with alt).count openBrace < pattern.count openBrace := by
  obtain ⟨hpattern, hbraces⟩ := exec_eq_some h
  obtain ⟨part, hpart, rfl⟩ := List.mem_map.mp (List.mem_filter.mp halt).1
  have hnone : (trim part).count openBrace = 0 := by
    refine List.count_eq_zero.mpr fun hmem => ?_
    have hcontent := hbraces _ (mem_splitOn hpart (mem_trim hmem))
    simp [isBrace] at hcontent
  rw [hpattern, Group.with]
  simp only [List.count_append, List.count_cons, hnone]
  simp
  omega

def expandGlobBraces (pattern : List CodeUnit) : List (List CodeUnit) :=
  match h : exec pattern with
  | none => [pattern]
  | some group =>
    if (alts group).isEmpty then [pattern]
    else
      let expanded := (alts group).attach.flatMap (fun alt => expandGlobBraces (group.with alt.1))
      if expanded.isEmpty then [pattern] else expanded
termination_by pattern.count openBrace
decreasing_by exact count_with h alt.2

section Expanding

variable {pattern start : List CodeUnit} {group : Group}

theorem expandGlobBraces_none (h : exec pattern = none) : expandGlobBraces pattern = [pattern] := by
  rw [expandGlobBraces]
  split
  next => rfl
  next hsome =>
    rw [h] at hsome
    cases hsome

theorem expandGlobBraces_some (h : exec pattern = some group) :
    expandGlobBraces pattern =
      if (alts group).flatMap (fun alt => expandGlobBraces (group.with alt)) = [] then [pattern]
      else (alts group).flatMap (fun alt => expandGlobBraces (group.with alt)) := by
  rw [expandGlobBraces]
  split
  next hnone =>
    rw [h] at hnone
    cases hnone
  next found hfound =>
    obtain rfl : group = found := Option.some.inj (h.symm.trans hfound)
    have hattach : (alts group).attach.flatMap (fun alt => expandGlobBraces (group.with alt.1)) =
        (alts group).flatMap (fun alt => expandGlobBraces (group.with alt)) := by
      rw [← List.flatMap_map Subtype.val (fun alt => expandGlobBraces (group.with alt)), List.attach_map_subtype_val]
    rw [hattach]
    by_cases halts : alts group = []
    · simp [halts]
    · simp [halts]

theorem exec_append (h : ∀ c ∈ start, isBrace c = false) (pattern : List CodeUnit) :
    exec (start ++ pattern) = (exec pattern).map (fun group => { group with before := start ++ group.before }) := by
  induction start with
  | nil => simp
  | cons c start ih =>
      have hc : c ≠ openBrace := by
        rintro rfl
        simpa [isBrace] using h openBrace (by simp)
      rw [List.cons_append, exec, if_neg hc, ih (fun d hd => h d (by simp [hd]))]
      simp [Function.comp_def, Group.behind]

/-- Text without braces in front of a pattern stays in front of its expansions. -/
theorem expandGlobBraces_append (h : ∀ c ∈ start, isBrace c = false) (pattern : List CodeUnit) :
    expandGlobBraces (start ++ pattern) = (expandGlobBraces pattern).map (start ++ ·) := by
  induction hn : pattern.count openBrace using Nat.strong_induction_on generalizing pattern with
  | _ n ih =>
      have hexec := exec_append h pattern
      cases hgroup : exec pattern with
      | none =>
          rw [hgroup] at hexec
          rw [expandGlobBraces_none hexec, expandGlobBraces_none hgroup]
          rfl
      | some group =>
          rw [hgroup] at hexec
          rw [expandGlobBraces_some hexec, expandGlobBraces_some hgroup]
          have halts : (alts group).flatMap (fun alt => expandGlobBraces (start ++ group.with alt)) =
              ((alts group).flatMap (fun alt => expandGlobBraces (group.with alt))).map (start ++ ·) := by
            rw [List.map_flatMap]
            refine List.flatMap_congr fun alt halt => ?_
            exact ih _ (hn ▸ count_with hgroup halt) _ rfl
          have hsame : (alts { group with before := start ++ group.before }).flatMap (fun alt =>
                expandGlobBraces (Group.with { group with before := start ++ group.before } alt)) =
              ((alts group).flatMap (fun alt => expandGlobBraces (group.with alt))).map (start ++ ·) := by
            rw [← halts]
            simp [alts, Group.with]
          rw [hsame]
          by_cases hempty : (alts group).flatMap (fun alt => expandGlobBraces (group.with alt)) = []
          · rw [hempty, if_pos List.map_nil, if_pos rfl]
            rfl
          · rw [if_neg (List.map_eq_nil_iff.not.mpr hempty), if_neg hempty]

end Expanding

/-- The regular expression of a pattern without braces, anchored at both ends. -/
def compileGlob : List CodeUnit → List (Piece CodeUnit)
  | [] => []
  | star :: star :: slash :: pattern => .many (fun c => !isLineTerminator c) :: compileGlob pattern
  | star :: star :: pattern => .many (fun c => !isLineTerminator c) :: compileGlob pattern
  | star :: pattern => .many (· ≠ slash) :: compileGlob pattern
  | question :: pattern => .one (· ≠ slash) :: compileGlob pattern
  | c :: pattern => .one (· = c) :: compileGlob pattern

def normalizeGlobPattern (pattern : List CodeUnit) : List CodeUnit :=
  let trimmed := trim pattern
  if trimmed.isEmpty then trimmed
  else if slash ∈ trimmed ∨ [star, star] <+: trimmed then trimmed
  else [star, star, slash] ++ trimmed

def compileGlobMatcher (pattern path : List CodeUnit) : Bool :=
  (expandGlobBraces (normalizeGlobPattern pattern)).any (fun variant => accepts (compileGlob variant) path)

end Kross.Tools.Glob

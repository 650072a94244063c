import Kross.Finding
import Kross.Occurrence
import Kross.RegexRuns
import Kross.Session.Title

namespace Kross.Tools

open Kross.Finding Kross.Occurrence Kross.Session

/-- The schema has no edit without an `old_string`. -/
structure NormalizedEdit where
  oldString : List Char
  newString : List Char
  replaceAll : Bool
  old_ne : oldString ≠ []

inductive EditFailure
  | noMatch
  | ambiguous (count : Nat)
  deriving DecidableEq

section Replace

/-- What `replace` puts for a match when its second argument is a text; the patterns used
here have no groups. -/
def substitute (found before after : List Char) : List Char → List Char
  | '$' :: '$' :: template => '$' :: substitute found before after template
  | '$' :: '&' :: template => found ++ substitute found before after template
  | '$' :: '\x60' :: template => before ++ substitute found before after template
  | '$' :: '\x27' :: template => after ++ substitute found before after template
  | c :: template => c :: substitute found before after template
  | [] => []

/-- `replace` of a text -/
def replaceText (content old new : List Char) : List Char :=
  match cut old content with
  | none => content
  | some (before, after) => before ++ substitute old before after new ++ after

/-- `split` and `join` -/
def replaceAllText (content old new : List Char) : List Char := new.intercalate (split old content)

def firstMatch (r : Regex) (text : List Char) : Option (List Char × List Char × List Char) :=
  (r.search none text).map (fun (begun, c) =>
    (text.take (text.length - begun.length), begun.take (begun.length - c.ahead.length), c.ahead))

/-- `match` with the flag `g`; the pattern looks at nothing before a match. -/
def matchesOf (r : Regex) : Nat → List Char → List (List Char)
  | 0, _ => []
  | fuel + 1, text => match firstMatch r text with
    | none => []
    | some (_, found, after) => found :: matchesOf r fuel after

/-- `replace` of a pattern, with or without the flag `g`; `done` is what is before `text`. -/
def replacePattern (r : Regex) (all : Bool) (new : List Char) : Nat → List Char → List Char → List Char
  | 0, _, text => text
  | fuel + 1, done, text => match firstMatch r text with
    | none => text
    | some (before, found, after) =>
        before ++ substitute found (done ++ before) after new ++
          (if all then replacePattern r all new fuel (done ++ before ++ found) after else after)

/-- The pattern of a text in which every run of white space has become `\s+`. -/
def relaxedPattern : Bool → List Char → Regex
  | _, [] => .empty
  | inside, c :: s =>
      if isWhitespace c then
        if inside then relaxedPattern true s else .seq (Regex.several isWhitespace) (relaxedPattern true s)
      else .seq (.one (· = c)) (relaxedPattern false s)

def tryRelaxedReplace (content : List Char) (edit : NormalizedEdit) : Option (List Char) :=
  if edit.oldString.any isWhitespace = false then none
  else
    let r := relaxedPattern false edit.oldString
    let count := (matchesOf r (content.length + 1) content).length
    if count = 0 then none
    else if 1 < count ∧ edit.replaceAll = false then none
    else
      let next := replacePattern r edit.replaceAll edit.newString (content.length + 1) [] content
      if next = content then none else some next

end Replace

def editStep (content : List Char) (edit : NormalizedEdit) : Except EditFailure (List Char) :=
  let count := (split edit.oldString content).length - 1
  if count = 0 then
    match tryRelaxedReplace content edit with
    | none => .error .noMatch
    | some next => .ok next
  else if 1 < count ∧ edit.replaceAll = false then .error (.ambiguous count)
  else if edit.replaceAll then .ok (replaceAllText content edit.oldString edit.newString)
  else .ok (replaceText content edit.oldString edit.newString)

/-- The text that `Edit` writes, if it writes one. -/
def executeEdit (original : List Char) (edits : List NormalizedEdit) : Option (List Char) :=
  match edits.foldlM editStep original with
  | .error _ => none
  | .ok content => if content = original then none else some content

section Finders

/-- The search for the text itself. -/
def exactly (edit : NormalizedEdit) : Finder Char where
  Kind m := m = edit.oldString
  first text := (cut edit.oldString text).map (fun (before, after) => (before, edit.oldString, after))
  nonempty m hm := hm ▸ edit.old_ne
  found text x m y h := by
    obtain ⟨⟨before, after⟩, hcut, he⟩ := Option.map_eq_some_iff.mp h
    cases he
    obtain ⟨htext, hfirst⟩ := cut_spec hcut
    exact ⟨htext, rfl, fun x' m' y' htext' hm' => hfirst x' y' (hm' ▸ htext')⟩
  missed text h x m y htext hm := by
    rw [Option.map_eq_none_iff] at h
    exact cut_eq_none.mp h x y (hm ▸ htext)

theorem first_exactly (edit : NormalizedEdit) (text : List Char) : (exactly edit).first text =
    (cut edit.oldString text).map (fun (before, after) => (before, edit.oldString, after)) := rfl

/-- The same text up to the amount of white space in it. -/
def Alike (m old : List Char) : Prop := collapse false m = collapse false old

theorem isWhitespace_space : isWhitespace ' ' = true := by decide

/-- Behind a run of white space there is no more of it. -/
theorem collapse_true_eq {m : List Char} (h : ∀ c, m.head? = some c → isWhitespace c = false) :
    collapse true m = collapse false m := by
  cases m with
  | nil => rfl
  | cons c m =>
      rw [collapse, collapse, if_neg (by simp [h c rfl]), if_neg (by simp [h c rfl])]

theorem head_of_collapse_true {m s : List Char} (h : collapse false m = collapse true s) :
    ∀ c, m.head? = some c → isWhitespace c = false := by
  have hhead : ∀ s : List Char, ∀ c, (collapse true s).head? = some c → isWhitespace c = false := by
    intro s
    induction s with
    | nil => nofun
    | cons a s ih =>
        intro c hc
        rw [collapse] at hc
        by_cases ha : isWhitespace a = true
        · rw [if_pos ha, if_pos rfl] at hc
          exact ih c hc
        · rw [if_neg ha] at hc
          cases hc
          simpa using ha
  intro c hc
  cases m with
  | nil => cases hc
  | cons a m =>
      cases hc
      by_contra hspace
      rw [collapse, if_pos (by simpa using hspace)] at h
      have hfirst := hhead s ' ' (by rw [← h]; rfl)
      rw [isWhitespace_space] at hfirst
      cases hfirst

theorem collapse_run {run m : List Char} (hne : run ≠ []) (hrun : ∀ c ∈ run, isWhitespace c = true) :
    collapse false (run ++ m) = ' ' :: collapse true m := by
  have hinside : ∀ run : List Char, (∀ c ∈ run, isWhitespace c = true) → collapse true (run ++ m) = collapse true m := by
    intro run hrun
    induction run with
    | nil => rfl
    | cons c run ih =>
        rw [List.cons_append, collapse, if_pos (hrun c List.mem_cons_self)]
        exact ih (fun x hx => hrun x (List.mem_cons_of_mem _ hx))
  obtain ⟨c, run, rfl⟩ := List.exists_cons_of_ne_nil hne
  rw [List.cons_append, collapse, if_pos (hrun c List.mem_cons_self), if_neg (by simp),
    hinside run (fun x hx => hrun x (List.mem_cons_of_mem _ hx))]

/-- The pattern goes through the texts that are alike. -/
theorem alike_of_mem_runs {inside : Bool} {s : List Char} {c d : Cursor} (h : d ∈ (relaxedPattern inside s).runs c) :
    ∃ m, c.ahead = m ++ d.ahead ∧ collapse false m = collapse inside s := by
  induction s generalizing inside c with
  | nil =>
      rw [relaxedPattern, Regex.runs, List.mem_singleton] at h
      exact ⟨[], by rw [h]; rfl, by cases inside <;> rfl⟩
  | cons a s ih =>
      rw [relaxedPattern] at h
      rw [collapse]
      split_ifs at h with hspace hinside
      · rw [if_pos hspace, if_pos hinside]
        exact ih h
      · rw [if_pos hspace, if_neg hinside]
        rw [Regex.runs, List.mem_flatMap] at h
        obtain ⟨e, he, hd⟩ := h
        obtain ⟨run, hne, hrun, hahead⟩ := Regex.ahead_of_mem_several he
        obtain ⟨m, hm, hcollapse⟩ := ih hd
        refine ⟨run ++ m, by rw [hahead, hm, List.append_assoc], ?_⟩
        rw [collapse_run hne hrun, collapse_true_eq (head_of_collapse_true hcollapse), hcollapse]
      · rw [if_neg hspace]
        rw [Regex.runs, List.mem_flatMap] at h
        obtain ⟨e, he, hd⟩ := h
        obtain ⟨x, rest, hahead, hx, rfl⟩ := Regex.mem_runs_one.mp he
        obtain ⟨m, hm, hcollapse⟩ := ih hd
        have hxa : x = a := by simpa using hx
        subst hxa
        refine ⟨x :: m, ?_, ?_⟩
        · rw [hahead]
          exact congrArg _ hm
        · rw [collapse, if_neg hspace, hcollapse]

theorem collapse_eq_nil {m : List Char} (h : collapse false m = []) : m = [] := by
  cases m with
  | nil => rfl
  | cons a m =>
      rw [collapse, if_neg (by simp : ¬false = true)] at h
      split_ifs at h

theorem exists_run (m : List Char) : ∃ run rest, m = run ++ rest ∧ (∀ x ∈ run, isWhitespace x = true) ∧
    ∀ x, rest.head? = some x → isWhitespace x = false := by
  induction m with
  | nil => exact ⟨[], [], rfl, nofun, nofun⟩
  | cons a m ih =>
      by_cases ha : isWhitespace a = true
      · obtain ⟨run, rest, hm, hrun, hrest⟩ := ih
        refine ⟨a :: run, rest, by rw [hm]; rfl, fun x hx => ?_, hrest⟩
        rcases List.mem_cons.mp hx with rfl | hx
        · exact ha
        · exact hrun x hx
      · refine ⟨[], a :: m, rfl, nofun, fun x hx => ?_⟩
        cases hx
        simpa using ha

/-- A text that begins with a space when it is collapsed begins with white space. -/
theorem run_ne_nil {run rest s : List Char} (h : collapse false (run ++ rest) = ' ' :: s)
    (hrest : ∀ x, rest.head? = some x → isWhitespace x = false) : run ≠ [] := by
  rintro rfl
  cases rest with
  | nil => cases h
  | cons a rest =>
      have ha := hrest a rfl
      rw [List.nil_append, collapse, if_neg (by simp [ha])] at h
      have hspace : a = ' ' := (List.cons.inj h).1
      rw [hspace, isWhitespace_space] at ha
      cases ha

theorem mem_runs_of_alike {inside : Bool} {s m rest : List Char} {c : Cursor} (hahead : c.ahead = m ++ rest)
    (hm : collapse false m = collapse inside s) : ∃ d ∈ (relaxedPattern inside s).runs c, d.ahead = rest := by
  induction s generalizing inside m c with
  | nil =>
      have hnil : m = [] := collapse_eq_nil (hm.trans (by cases inside <;> rfl))
      subst hnil
      exact ⟨c, by simp [relaxedPattern, Regex.runs], hahead⟩
  | cons a s ih =>
      rw [relaxedPattern]
      have hcollapse : collapse inside (a :: s) = if isWhitespace a then
          if inside then collapse true s else ' ' :: collapse true s else a :: collapse false s := rfl
      rw [hcollapse] at hm
      by_cases hspace : isWhitespace a = true
      · rw [if_pos hspace] at hm ⊢
        by_cases hinside : inside = true
        · rw [if_pos hinside] at hm ⊢
          exact ih hahead hm
        · rw [if_neg hinside] at hm ⊢
          obtain ⟨run, behind, rfl, hrun, hbehind⟩ := exists_run m
          have hne := run_ne_nil hm hbehind
          rw [collapse_run hne hrun, collapse_true_eq hbehind] at hm
          obtain ⟨e, he, hrest⟩ := Regex.mem_several_of_ahead hne hrun (hahead.trans (List.append_assoc _ _ _))
          obtain ⟨d, hd, hdrest⟩ := ih hrest (List.cons.inj hm).2
          exact ⟨d, by rw [Regex.runs, List.mem_flatMap]; exact ⟨e, he, hd⟩, hdrest⟩
      · rw [if_neg hspace] at hm ⊢
        cases m with
        | nil => cases hm
        | cons x m =>
            rw [collapse] at hm
            have hx : isWhitespace x = false := by
              by_contra hx
              rw [if_pos (by simpa using hx)] at hm
              have ha : ' ' = a := (List.cons.inj hm).1
              rw [← ha, isWhitespace_space] at hspace
              exact hspace rfl
            rw [if_neg (by simp [hx])] at hm
            obtain ⟨rfl, hrest⟩ := List.cons.inj hm
            obtain ⟨d, hd, hdrest⟩ := ih (c := ⟨some x, m ++ rest, c.groups⟩) rfl hrest
            refine ⟨d, ?_, hdrest⟩
            rw [Regex.runs, List.mem_flatMap]
            exact ⟨_, Regex.mem_runs_one.mpr ⟨x, m ++ rest, hahead, by simp, rfl⟩, hd⟩

/-- The search with the pattern. -/
def relaxed (edit : NormalizedEdit) : Finder Char where
  Kind m := Alike m edit.oldString
  first := firstMatch (relaxedPattern false edit.oldString)
  nonempty m hm := by
    rintro rfl
    exact edit.old_ne (collapse_eq_nil hm.symm)
  found text x m y h := by
    obtain ⟨⟨begun, c⟩, hsearch, he⟩ := Option.map_eq_some_iff.mp h
    cases he
    obtain ⟨skipped, b, htext, hc, hfirst⟩ := Regex.search_some hsearch
    obtain ⟨m, hbegun, hm⟩ := alike_of_mem_runs hc
    change begun = m ++ c.ahead at hbegun
    subst hbegun
    subst htext
    have hskipped : (skipped ++ (m ++ c.ahead)).take ((skipped ++ (m ++ c.ahead)).length - (m ++ c.ahead).length) = skipped := by
      simp
    have hmatched : (m ++ c.ahead).take ((m ++ c.ahead).length - c.ahead.length) = m := by
      simp
    rw [hskipped, hmatched]
    refine ⟨by rw [List.append_assoc], hm, fun x' m' y' htext' hm' => ?_⟩
    by_contra hlt
    obtain ⟨b', hnone⟩ := hfirst x' (m' ++ y') (by rw [htext', List.append_assoc]) (by omega)
    obtain ⟨d, hd, -⟩ := mem_runs_of_alike (c := ⟨b', m' ++ y', []⟩) rfl hm'
    rw [hnone] at hd
    cases hd
  missed text h x m y htext hm := by
    rw [firstMatch, Option.map_eq_none_iff] at h
    obtain ⟨b, hnone⟩ := Regex.search_none h (htext.trans (List.append_assoc _ _ _))
    obtain ⟨d, hd, -⟩ := mem_runs_of_alike (c := ⟨b, m ++ y, []⟩) rfl hm
    rw [hnone] at hd
    cases hd

end Finders

end Kross.Tools

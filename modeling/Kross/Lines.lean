import Mathlib.Data.List.Basic
import Mathlib.Tactic.Common

namespace Kross.Lines

variable {α : Type} [DecidableEq α] (ending : α)

/-- The lines of a text, without their endings; what is behind the last ending is a line
unless it is empty. -/
def lines (text : List α) : List (List α) :=
  if (text.splitOn ending).getLast? = some [] then (text.splitOn ending).dropLast else text.splitOn ending

/-- The last line of the text has its ending. -/
def endsLine (text : List α) : Bool := (text.splitOn ending).getLast? = some []

def join (ls : List (List α)) : List α := [ending].intercalate ls

def terminated (ls : List (List α)) : List α := ls.flatMap (fun line => line ++ [ending])

/-- Nothing, or text up to the end of a line. -/
def AtLineStart (before : List α) : Prop := before = [] ∨ ∃ text, before = text ++ [ending]

/-- Nothing, or text from the end of a line on. -/
def AtLineEnd (after : List α) : Prop := after = [] ∨ ∃ rest, after = ending :: rest

variable {ending} {text before after : List α} {ls ms after' : List (List α)}

theorem splitOn_append_ending (before after : List α) :
    (before ++ ending :: after).splitOn ending = before.splitOn ending ++ after.splitOn ending :=
  List.splitOn_append_cons_self before after

/-- What is in front of a line start is a sequence of whole lines. -/
theorem splitOn_atLineStart (h : AtLineStart ending before) (after : List α) :
    (before ++ after).splitOn ending = (before.splitOn ending).dropLast ++ after.splitOn ending := by
  rcases h with rfl | ⟨text, rfl⟩
  · simp [List.splitOn_nil]
  · rw [List.append_assoc, List.singleton_append, splitOn_append_ending]
    have hbefore : (text ++ [ending]).splitOn ending = text.splitOn ending ++ [[]] := by
      rw [splitOn_append_ending, List.splitOn_nil]
    rw [hbefore, List.dropLast_concat]

theorem splitOn_join (hls : ls ≠ []) (h : ∀ line ∈ ls, ending ∉ line) : (join ending ls).splitOn ending = ls :=
  List.splitOn_intercalate ending h hls

theorem getLast?_append_splitOn (ls : List (List α)) (text : List α) :
    (ls ++ text.splitOn ending).getLast? = (text.splitOn ending).getLast? := by
  rw [List.getLast?_append]
  cases hlast : (text.splitOn ending).getLast? with
  | none => exact absurd (List.getLast?_eq_none_iff.mp hlast) (List.splitOn_ne_nil _ _)
  | some line => rfl

/-- The lines of a text that is split behind some of them. -/
theorem lines_of_splitOn (h : text.splitOn ending = ls ++ after.splitOn ending) :
    lines ending text = ls ++ lines ending after ∧ endsLine ending text = endsLine ending after := by
  have hlast : (text.splitOn ending).getLast? = (after.splitOn ending).getLast? := by
    rw [h, getLast?_append_splitOn]
  constructor
  · rw [lines, lines, hlast]
    split_ifs with hempty
    · rw [h, List.dropLast_append_of_ne_nil (List.splitOn_ne_nil _ _)]
    · exact h
  · rw [endsLine, endsLine, hlast]

/-- The lines of a text that is split into given ones, of which the last is not empty. -/
theorem lines_of_splitOn_eq (h : text.splitOn ending = ls) (hlast : ls.getLast? ≠ some []) :
    lines ending text = ls ∧ endsLine ending text = false := by
  rw [lines, endsLine, h]
  exact ⟨if_neg hlast, by simpa using hlast⟩

theorem lines_of_splitOn_empty (h : text.splitOn ending = ls) (hlast : ls.getLast? = some []) :
    lines ending text = ls.dropLast ∧ endsLine ending text = true := by
  rw [lines, endsLine, h]
  exact ⟨if_pos hlast, by simpa using hlast⟩

omit [DecidableEq α] in
theorem atLineStart_terminated (ls : List (List α)) : AtLineStart ending (terminated ending ls) := by
  rcases List.eq_nil_or_concat ls with rfl | ⟨rest, line, rfl⟩
  · exact Or.inl rfl
  · refine Or.inr ⟨terminated ending rest ++ line, ?_⟩
    simp [terminated]

theorem splitOn_terminated (h : ∀ line ∈ ls, ending ∉ line) :
    (terminated ending ls).splitOn ending = ls ++ [[]] := by
  induction ls with
  | nil => exact List.splitOn_nil ending
  | cons line ls ih =>
      have hrest := ih (fun l hl => h l (List.mem_cons_of_mem _ hl))
      have hline := List.splitOn_eq_singleton (h line List.mem_cons_self)
      rw [terminated, List.flatMap_cons, List.append_assoc, List.singleton_append, splitOn_append_ending, hline]
      rw [terminated] at hrest
      rw [hrest]
      rfl

omit [DecidableEq α] in
theorem join_cons (line : List α) (hls : ls ≠ []) : join ending (line :: ls) = line ++ ending :: join ending ls := by
  obtain ⟨next, rest, rfl⟩ := List.exists_cons_of_ne_nil hls
  simp [join, List.intercalate, List.intersperse]

omit [DecidableEq α] in
theorem join_append (ls : List (List α)) (hms : ms ≠ []) : join ending (ls ++ ms) = terminated ending ls ++ join ending ms := by
  induction ls with
  | nil => rfl
  | cons line ls ih =>
      rw [List.cons_append, join_cons line (by simp [hms]), ih]
      simp [terminated]

theorem join_splitOn (ending : α) (text : List α) : join ending (text.splitOn ending) = text :=
  List.intercalate_splitOn ending

omit [DecidableEq α] in
theorem subset_join {line : List α} (h : line ∈ ls) : line ⊆ join ending ls := by
  obtain ⟨above, below, rfl⟩ := List.append_of_mem h
  rw [join_append above (List.cons_ne_nil line below)]
  refine fun c hc => List.mem_append_right _ ?_
  cases below with
  | nil => simpa [join] using hc
  | cons next below =>
      rw [join_cons line (List.cons_ne_nil next below)]
      exact List.mem_append_left _ hc

omit [DecidableEq α] in
theorem mem_join {c : α} (h : c ∈ join ending ls) : c = ending ∨ ∃ line ∈ ls, c ∈ line := by
  induction ls with
  | nil => cases h
  | cons line ls ih =>
      by_cases hls : ls = []
      · subst hls
        exact Or.inr ⟨line, by simp, by simpa [join] using h⟩
      · rw [join_cons line hls] at h
        rcases List.mem_append.mp h with h | h
        · exact Or.inr ⟨line, by simp, h⟩
        · rcases List.mem_cons.mp h with h | h
          · exact Or.inl h
          · exact (ih h).imp_right fun ⟨other, hother, hc⟩ => ⟨other, by simp [hother], hc⟩

omit [DecidableEq α] in
theorem join_suffix (hms : ms ≠ []) (h : ms <:+ ls) : join ending ms <:+ join ending ls := by
  obtain ⟨above, rfl⟩ := h
  rw [join_append above hms]
  exact List.suffix_append _ _

omit [DecidableEq α] in
/-- An end of a text begins inside one of its lines. -/
theorem exists_of_suffix_join (hls : ls ≠ []) (h : after <:+ join ending ls) :
    ∃ line below part, line :: below <:+ ls ∧ part <:+ line ∧ after = join ending (part :: below) := by
  induction ls with
  | nil => exact absurd rfl hls
  | cons line ls ih =>
      by_cases hrest : ls = []
      · subst hrest
        refine ⟨line, [], after, List.suffix_rfl, by simpa [join] using h, by simp [join]⟩
      · rw [join_cons line hrest] at h
        obtain ⟨before, hbefore⟩ := h
        rcases List.append_eq_append_iff.mp hbefore with ⟨part, rfl, rfl⟩ | ⟨more, rfl, hmore⟩
        · exact ⟨before ++ part, ls, part, List.suffix_rfl, List.suffix_append _ _, (join_cons part hrest).symm⟩
        · cases more with
          | nil =>
              rw [List.nil_append] at hmore
              exact ⟨line, ls, [], List.suffix_rfl, List.nil_suffix, by rw [join_cons [] hrest, ← hmore]; rfl⟩
          | cons c more =>
              obtain ⟨-, hrestText⟩ := List.cons_eq_cons.mp hmore
              obtain ⟨other, below, part, hbelow, hpart, htext⟩ := ih hrest ⟨more, hrestText.symm⟩
              exact ⟨other, below, part, hbelow.trans (List.suffix_cons _ _), hpart, htext⟩

omit [DecidableEq α] in
theorem join_block (hls : ls ≠ []) (ms : List (List α)) :
    ∃ after, join ending (ls ++ ms) = join ending ls ++ after ∧ AtLineEnd ending after := by
  induction ls with
  | nil => exact absurd rfl hls
  | cons line ls ih =>
      by_cases hnil : ls = []
      · subst hnil
        rcases eq_or_ne ms [] with rfl | hms
        · exact ⟨[], by simp, Or.inl rfl⟩
        · refine ⟨ending :: join ending ms, ?_, Or.inr ⟨_, rfl⟩⟩
          rw [List.singleton_append, join_cons line hms]
          simp [join]
      · obtain ⟨after, hafter, hend⟩ := ih hnil
        refine ⟨after, ?_, hend⟩
        rw [List.cons_append, join_cons line (by simp [hnil]), hafter, join_cons line hnil]
        simp

/-- A block of lines of a text stands behind the lines before it. -/
theorem exists_block (h : lines ending text = ls ++ ms ++ after') (hms : ms ≠ []) :
    ∃ after, text = terminated ending ls ++ join ending ms ++ after ∧ AtLineEnd ending after := by
  obtain ⟨rest, hrest⟩ : ∃ rest, text.splitOn ending = ls ++ (ms ++ rest) := by
    rw [lines] at h
    split_ifs at h with hlast
    · refine ⟨after' ++ [[]], ?_⟩
      rw [← List.dropLast_append_getLast? [] hlast, h]
      simp
    · exact ⟨after', by simpa using h⟩
  have htext : [ending].intercalate (text.splitOn ending) = text := List.intercalate_splitOn ending
  rw [hrest] at htext
  obtain ⟨after, hafter, hend⟩ := join_block hms rest
  refine ⟨after, ?_, hend⟩
  rw [← htext, List.append_assoc, ← hafter]
  exact join_append ls (by simp [hms])

section Replace

variable (ending)

/-- One block of whole lines is replaced, the only one that is equal to `old`; the other
lines and what the last of them ends with stay. -/
def ReplacesLines (old new : List (List α)) (text result : List α) : Prop :=
  ∃ before after, lines ending text = before ++ old ++ after ∧ lines ending result = before ++ new ++ after ∧
    (lines ending result ≠ [] → endsLine ending result = endsLine ending text) ∧
    ∀ before' after', lines ending text = before' ++ old ++ after' → before' = before

/-- Where `old` stands between `before` and `after`, its lines are whole ones, and there
is a line to keep their last ending for. -/
def Fits (old new : List (List α)) (before after : List α) : Prop :=
  AtLineStart ending before ∧
    ((∃ rest, after = ending :: rest) ∧ new ≠ [] ∨
      after = [] ∧ old.getLast? ≠ some [] ∧ (new ≠ [] ∧ new.getLast? ≠ some [] ∨ new = [] ∧ before = []))

variable {ending} {old new : List (List α)}

theorem terminated_injective (hls : ∀ line ∈ ls, ending ∉ line) (hms : ∀ line ∈ ms, ending ∉ line)
    (h : terminated ending ls = terminated ending ms) : ls = ms := by
  have hsplit := splitOn_terminated hls
  rw [h, splitOn_terminated hms] at hsplit
  exact (List.append_cancel_right hsplit).symm

theorem not_mem_of_mem_splitOn {line : List α} (h : line ∈ text.splitOn ending) : ending ∉ line := by
  induction text generalizing line with
  | nil =>
      rw [List.splitOn_nil, List.mem_singleton] at h
      simp [h]
  | cons a text ih =>
      rw [List.splitOn_cons_eq_if_modifyHead] at h
      split_ifs at h with ha
      · rcases List.mem_cons.mp h with rfl | h
        · simp
        · exact ih h
      · have hne : ending ≠ a := by
          rintro rfl
          simp at ha
        obtain ⟨first, rest, hsplit⟩ := List.exists_cons_of_ne_nil (List.splitOn_ne_nil ending text)
        rw [hsplit, List.modifyHead_cons] at h
        rcases List.mem_cons.mp h with rfl | h
        · rw [List.mem_cons, not_or]
          exact ⟨hne, ih (by simp [hsplit])⟩
        · exact ih (by simp [hsplit, h])

/-- Where the first line ends. -/
theorem cut_unique {line line' : List α} (hline : ending ∉ line) (hline' : ending ∉ line')
    (h : line ++ ending :: before = line' ++ ending :: after) : line = line' ∧ before = after := by
  have hsplit := congrArg (List.splitOn ending) h
  rw [splitOn_append_ending, splitOn_append_ending, List.splitOn_eq_singleton hline,
    List.splitOn_eq_singleton hline'] at hsplit
  obtain ⟨rfl, -⟩ := List.cons_eq_cons.mp hsplit
  exact ⟨rfl, (List.cons_eq_cons.mp (List.append_cancel_left h)).2⟩

theorem not_mem_of_mem_lines {line : List α} (h : line ∈ lines ending text) : ending ∉ line := by
  rw [lines] at h
  split_ifs at h
  · exact not_mem_of_mem_splitOn (List.dropLast_subset _ h)
  · exact not_mem_of_mem_splitOn h

/-- The lines of a text that ends where a line starts. -/
theorem dropLast_splitOn_terminated (h : ∀ line ∈ ls, ending ∉ line) :
    ((terminated ending ls).splitOn ending).dropLast = ls := by
  rw [splitOn_terminated h, List.dropLast_concat]

theorem lines_block (hbefore : AtLineStart ending before) (hls : ls ≠ []) (h : ∀ line ∈ ls, ending ∉ line) (rest : List α) :
    lines ending (before ++ join ending ls ++ ending :: rest) =
        (before.splitOn ending).dropLast ++ ls ++ lines ending rest ∧
      endsLine ending (before ++ join ending ls ++ ending :: rest) = endsLine ending rest := by
  refine lines_of_splitOn ?_
  rw [List.append_assoc, splitOn_atLineStart hbefore, splitOn_append_ending, splitOn_join hls h, List.append_assoc]

theorem splitOn_block (hbefore : AtLineStart ending before) (hls : ls ≠ []) (h : ∀ line ∈ ls, ending ∉ line) :
    (before ++ join ending ls).splitOn ending = (before.splitOn ending).dropLast ++ ls := by
  rw [splitOn_atLineStart hbefore, splitOn_join hls h]

section Unique

variable (hold : old ≠ []) (holdLines : ∀ line ∈ old, ending ∉ line) (hnewLines : ∀ line ∈ new, ending ∉ line)
  (hunique : ∀ x y, before ++ join ending old ++ after = x ++ join ending old ++ y → before = x ∧ after = y)

include hold hunique in
/-- The block of lines stands where the text of the lines does. -/
theorem before_eq {xs ys : List (List α)} (h : lines ending (before ++ join ending old ++ after) = xs ++ old ++ ys) :
    before = terminated ending xs ∧ (before.splitOn ending).dropLast = xs ∧ AtLineEnd ending after := by
  obtain ⟨rest, hrest, hend⟩ := exists_block h hold
  obtain ⟨rfl, rfl⟩ := hunique _ _ hrest
  refine ⟨rfl, dropLast_splitOn_terminated (fun line hline => ?_), hend⟩
  have hmem : line ∈ lines ending (terminated ending xs ++ join ending old ++ after) := by
    rw [h]
    exact List.mem_append_left _ (List.mem_append_left _ hline)
  exact not_mem_of_mem_lines hmem

include hold holdLines hnewLines hunique in
theorem replacesLines_of_fits (h : Fits ending old new before after) :
    ReplacesLines ending old new (before ++ join ending old ++ after) (before ++ join ending new ++ after) := by
  obtain ⟨hbefore, ⟨⟨rest, rfl⟩, hnew⟩ | ⟨rfl, hlast, hnew⟩⟩ := h
  · obtain ⟨hlines, hends⟩ := lines_block hbefore hold holdLines rest
    obtain ⟨hlines', hends'⟩ := lines_block hbefore hnew hnewLines rest
    refine ⟨_, _, hlines, hlines', fun _ => hends'.trans hends.symm, fun xs ys hxs => ?_⟩
    exact (before_eq hold hunique hxs).2.1.symm
  · have hsplit := splitOn_block hbefore hold holdLines
    have hlastBlock : ((before.splitOn ending).dropLast ++ old).getLast? ≠ some [] := by
      rwa [List.getLast?_append_of_ne_nil _ hold]
    obtain ⟨hlines, hends⟩ := lines_of_splitOn_eq hsplit hlastBlock
    rw [← List.append_nil (before ++ join ending old)] at hlines hends
    refine ⟨(before.splitOn ending).dropLast, [], by rw [hlines, List.append_nil], ?_, ?_, fun xs ys hxs =>
      (before_eq hold hunique hxs).2.1.symm⟩
    · rcases hnew with ⟨hne, hnewLast⟩ | ⟨rfl, rfl⟩
      · have hlastBlock' : ((before.splitOn ending).dropLast ++ new).getLast? ≠ some [] := by
          rwa [List.getLast?_append_of_ne_nil _ hne]
        rw [List.append_nil, List.append_nil]
        exact (lines_of_splitOn_eq (splitOn_block hbefore hne hnewLines) hlastBlock').1
      · simp [join, lines, List.splitOn_nil]
    · intro hsome
      rcases hnew with ⟨hne, hnewLast⟩ | ⟨rfl, rfl⟩
      · have hlastBlock' : ((before.splitOn ending).dropLast ++ new).getLast? ≠ some [] := by
          rwa [List.getLast?_append_of_ne_nil _ hne]
        rw [hends, List.append_nil]
        exact (lines_of_splitOn_eq (splitOn_block hbefore hne hnewLines) hlastBlock').2
      · simp [join, lines, List.splitOn_nil] at hsome

include hold holdLines hnewLines hunique in
theorem fits_of_replacesLines
    (h : ReplacesLines ending old new (before ++ join ending old ++ after) (before ++ join ending new ++ after)) :
    Fits ending old new before after := by
  obtain ⟨xs, ys, hlines, hresult, hends, -⟩ := h
  obtain ⟨hterminated, hxs, hend⟩ := before_eq hold hunique hlines
  have hbefore : AtLineStart ending before := hterminated ▸ atLineStart_terminated xs
  refine ⟨hbefore, ?_⟩
  rcases hend with rfl | ⟨rest, rfl⟩
  · right
    rw [List.append_nil] at hlines hends hresult
    have hsplit := splitOn_block hbefore hold holdLines
    rw [hxs] at hsplit
    have hlast : old.getLast? ≠ some [] := by
      intro hempty
      have hlines' := (lines_of_splitOn_empty hsplit (by rwa [List.getLast?_append_of_ne_nil _ hold])).1
      rw [hlines] at hlines'
      have hlength := congrArg List.length hlines'
      have hpos := List.length_pos_iff.mpr hold
      simp only [List.length_append, List.length_dropLast] at hlength
      omega
    obtain ⟨hlines', hends'⟩ := lines_of_splitOn_eq hsplit (by rwa [List.getLast?_append_of_ne_nil _ hold])
    have hys : ys = [] := by
      rw [hlines] at hlines'
      simpa using hlines'
    subst hys
    refine ⟨rfl, hlast, ?_⟩
    by_cases hnew : new = []
    · refine Or.inr ⟨hnew, ?_⟩
      subst hnew
      by_contra hne
      have hxsNe : xs ≠ [] := by
        rintro rfl
        exact hne hterminated
      have hlast' : (before ++ join ending []).splitOn ending = xs ++ [[]] := by
        rw [hterminated]
        simp only [join, List.intercalate, List.intersperse, List.flatten_nil, List.append_nil]
        refine splitOn_terminated (fun line hline => ?_)
        have hmem : line ∈ lines ending (before ++ join ending old) := by
          rw [hlines]
          exact List.mem_append_left _ (List.mem_append_left _ hline)
        exact not_mem_of_mem_lines hmem
      have htrue := (lines_of_splitOn_empty hlast' (by simp)).2
      rw [hends (by rw [hresult]; simpa using hxsNe), List.append_nil, hends'] at htrue
      cases htrue
    · refine Or.inl ⟨hnew, fun hempty => ?_⟩
      have hsplit' := splitOn_block hbefore hnew hnewLines
      rw [hxs] at hsplit'
      have hlines'' := (lines_of_splitOn_empty hsplit' (by rwa [List.getLast?_append_of_ne_nil _ hnew])).1
      rw [hresult] at hlines''
      have hlength := congrArg List.length hlines''
      have hpos := List.length_pos_iff.mpr hnew
      simp only [List.length_append, List.length_dropLast, List.length_nil] at hlength
      omega
  · refine Or.inl ⟨⟨rest, rfl⟩, ?_⟩
    rintro rfl
    -- an empty text between two endings is a line
    have hempty : lines ending (before ++ join ending [[]] ++ ending :: rest) =
        (before.splitOn ending).dropLast ++ [[]] ++ lines ending rest := (lines_block hbefore (by simp) (by simp) rest).1
    have hlines' := (lines_block hbefore hold holdLines rest).1
    rw [hxs] at hempty hlines'
    rw [hlines] at hlines'
    have hys : ys = lines ending rest := List.append_cancel_left hlines'
    change lines ending (before ++ join ending [] ++ ending :: rest) = _ at hempty
    rw [hresult, hys] at hempty
    have hlength := congrArg List.length hempty
    simp only [List.length_append, List.length_singleton, List.length_nil] at hlength
    omega

end Unique

end Replace

end Kross.Lines

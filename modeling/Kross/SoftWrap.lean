import Mathlib.Algebra.GroupWithZero.Nat
import Mathlib.Data.List.Basic
import Mathlib.Tactic.Common

namespace Kross.SoftWrap

/-- How wide a character is, and whether a row may end behind it. -/
structure Metric (α : Type) where
  width : α → Nat
  isBreak : α → Bool

structure Segment (σ α : Type) where
  style : σ
  text : List α

variable {σ α : Type}

/-- The text of a row of segments. -/
def plain (row : List (Segment σ α)) : List α := row.flatMap Segment.text

/-- The characters of a row, each with its style. -/
def styled (row : List (Segment σ α)) : List (σ × α) := row.flatMap fun segment => segment.text.map (segment.style, ·)

namespace Metric

variable (m : Metric α)

def widthOf (text : List α) : Nat := (text.map m.width).sum

def scan (room width stop lastBreak : Nat) : List α → Nat × Nat
  | [] => (stop, lastBreak)
  | c :: text =>
    if room < width + m.width c then (stop, lastBreak)
    else scan room (width + m.width c) (stop + 1) (if m.isBreak c then stop + 1 else lastBreak) text

/-- How many characters are taken: those for which there is room, or as many as a row may end behind. -/
def cut (text : List α) (room : Nat) : Nat :=
  if room = 0 ∨ text.length = 0 then 0
  else
    let (stop, lastBreak) := m.scan room 0 0 0 text
    if stop < text.length ∧ 0 < lastBreak ∧ lastBreak < stop then lastBreak else stop

end Metric

/-- The rows there are, and the one that is being filled with what it uses of the width. -/
structure State (σ α : Type) where
  lines : List (List (Segment σ α))
  current : List (Segment σ α)
  used : Nat

namespace State

def start : State σ α := ⟨[], [], 0⟩

def flush (blank : Segment σ α) (s : State σ α) : State σ α :=
  ⟨s.lines ++ [if s.current.isEmpty then [blank] else s.current], [], 0⟩

/-- A row is over where a text goes on behind it. -/
def goOn (blank : Segment σ α) (rest : List α) (s : State σ α) : State σ α := if rest.isEmpty then s else s.flush blank

def push (m : Metric α) (style : σ) (text : List α) (s : State σ α) : State σ α :=
  { s with current := s.current ++ [⟨style, text⟩], used := s.used + m.widthOf text }

end State

section Wrapping

variable (m : Metric α) (blank : Segment σ α) (width : Nat)

/-- A text that goes on in the row that is being filled. -/
def wrapText (hwidth : 0 < width) (style : σ) (s : State σ α) : List α → State σ α
  | [] => s
  | c :: text =>
    if width ≤ s.used then wrapText hwidth style (s.flush blank) (c :: text)
    else if m.cut (c :: text) (width - s.used) = 0 then
      if s.used = 0 then wrapText hwidth style ((s.push m style [c]).flush blank) text
      else wrapText hwidth style (s.flush blank) (c :: text)
    else
      let pushed := s.push m style ((c :: text).take (m.cut (c :: text) (width - s.used)))
      let rest := (c :: text).drop (m.cut (c :: text) (width - s.used))
      wrapText hwidth style (pushed.goOn blank rest) rest
  termination_by text => (text.length, s.used)
  decreasing_by
    · exact .right _ (Nat.lt_of_lt_of_le hwidth ‹width ≤ s.used›)
    · exact .left _ _ (Nat.lt_succ_self text.length)
    · exact .right _ (Nat.pos_of_ne_zero ‹¬s.used = 0›)
    · refine .left _ _ ?_
      rw [List.length_drop]
      exact Nat.sub_lt (Nat.succ_pos _) (Nat.pos_of_ne_zero ‹_›)

/-- Segments as rows of at most so wide. -/
def wrap (hwidth : 0 < width) (segments : List (Segment σ α)) : List (List (Segment σ α)) :=
  let s := segments.foldl (fun s segment => wrapText m blank width hwidth segment.style s segment.text) .start
  if !s.current.isEmpty || s.lines.isEmpty then (s.flush blank).lines else s.lines

end Wrapping

section Cutting

variable {m : Metric α} {room width stop lastBreak : Nat}

theorem widthOf_append (m : Metric α) (xs ys : List α) : m.widthOf (xs ++ ys) = m.widthOf xs + m.widthOf ys := by
  rw [Metric.widthOf, List.map_append, List.sum_append]
  rfl

theorem widthOf_cons (m : Metric α) (c : α) (text : List α) : m.widthOf (c :: text) = m.width c + m.widthOf text := rfl

theorem widthOf_take_mono (m : Metric α) (text : List α) {i j : Nat} (h : i ≤ j) :
    m.widthOf (text.take i) ≤ m.widthOf (text.take j) := by
  obtain ⟨k, rfl⟩ := Nat.exists_eq_add_of_le h
  rw [List.take_add, widthOf_append]
  exact Nat.le_add_right _ _

/-- The scan stops where there is no more room. -/
theorem scan_stop (m : Metric α) (text : List α) (hwidth : width ≤ room) :
    ∃ n, (m.scan room width stop lastBreak text).1 = stop + n ∧ n ≤ text.length ∧
      width + m.widthOf (text.take n) ≤ room := by
  induction text generalizing width stop lastBreak with
  | nil => exact ⟨0, rfl, Nat.le_refl 0, hwidth⟩
  | cons c text ih =>
      rw [Metric.scan]
      by_cases hroom : room < width + m.width c
      · rw [if_pos hroom]
        exact ⟨0, rfl, Nat.zero_le _, hwidth⟩
      · rw [if_neg hroom]
        obtain ⟨n, hstop, hn, hle⟩ := ih (Nat.le_of_not_lt hroom)
        refine ⟨n + 1, by rw [hstop, Nat.add_assoc, Nat.add_comm 1], Nat.succ_le_succ hn, ?_⟩
        rw [List.take_succ_cons, widthOf_cons]
        omega

/-- What is taken has room. -/
theorem widthOf_cut (m : Metric α) (text : List α) (room : Nat) :
    m.widthOf (text.take (m.cut text room)) ≤ room := by
  rw [Metric.cut]
  split_ifs with hnone
  · exact Nat.zero_le _
  · obtain ⟨n, hstop, -, hle⟩ := scan_stop m text (Nat.zero_le room)
    rw [Nat.zero_add] at hstop hle
    dsimp only
    rw [hstop]
    split_ifs with hbreak
    · exact Nat.le_trans (widthOf_take_mono m text (Nat.le_of_lt hbreak.2.2)) hle
    · exact hle

end Cutting

section Rows

variable {m : Metric α} {blank : Segment σ α} {width : Nat} {style : σ} {s : State σ α}
  {row : List (Segment σ α)}

theorem plain_append (row more : List (Segment σ α)) : plain (row ++ more) = plain row ++ plain more :=
  List.flatMap_append

theorem plain_concat (row : List (Segment σ α)) (style : σ) (text : List α) :
    plain (row ++ [⟨style, text⟩]) = plain row ++ text := by
  rw [plain_append]
  exact congrArg (plain row ++ ·) (List.append_nil text)

theorem styled_concat (row : List (Segment σ α)) (style : σ) (text : List α) :
    styled (row ++ [⟨style, text⟩]) = styled row ++ text.map (style, ·) := by
  rw [styled, List.flatMap_append, List.flatMap_singleton]
  rfl

theorem map_snd_styled (row : List (Segment σ α)) : (styled row).map Prod.snd = plain row := by
  rw [styled, plain, List.map_flatMap]
  refine congrArg (row.flatMap ·) (funext fun segment => ?_)
  rw [List.map_map]
  exact List.map_id segment.text

theorem map_snd_flatMap_styled (rows : List (List (Segment σ α))) :
    (rows.flatMap styled).map Prod.snd = rows.flatMap plain := by
  rw [List.map_flatMap]
  exact congrArg (rows.flatMap ·) (funext map_snd_styled)

/-- A text is not wider than a row, but for one character that is wider by itself. -/
def Within (m : Metric α) (width : Nat) (text : List α) : Prop :=
  m.widthOf text ≤ width ∨ ∃ before c, text = before ++ [c] ∧ m.widthOf before = 0

/-- Each row is within the width, and `used` is how wide the last one is. -/
structure State.Fits (m : Metric α) (width : Nat) (s : State σ α) : Prop where
  lines : ∀ row ∈ s.lines, Within m width (plain row)
  current : m.widthOf (plain s.current) = s.used
  used : s.used ≤ width

/-- All that the rows show. -/
def State.shown (s : State σ α) : List (σ × α) := s.lines.flatMap styled ++ styled s.current

theorem fits_start : (State.start : State σ α).Fits m width := ⟨nofun, rfl, Nat.zero_le width⟩

theorem widthOf_push {text : List α} (h : s.Fits m width) :
    m.widthOf (plain (s.push m style text).current) = s.used + m.widthOf text := by
  show m.widthOf (plain (s.current ++ [⟨style, text⟩])) = _
  rw [plain_concat, widthOf_append, h.current]

theorem fits_push {text : List α} (h : s.Fits m width) (htext : s.used + m.widthOf text ≤ width) :
    (s.push m style text).Fits m width :=
  ⟨h.lines, widthOf_push h, htext⟩

theorem fits_flush (hblank : m.widthOf blank.text ≤ width) (hlines : ∀ row ∈ s.lines, Within m width (plain row))
    (hcurrent : Within m width (plain s.current)) : (s.flush blank).Fits m width := by
  refine ⟨?_, rfl, Nat.zero_le width⟩
  intro row hrow
  rcases List.mem_append.mp hrow with hrow | hrow
  · exact hlines row hrow
  · rw [List.mem_singleton.mp hrow]
    split_ifs
    · refine .inl ?_
      rwa [plain, List.flatMap_singleton]
    · exact hcurrent

theorem State.Fits.flush (hblank : m.widthOf blank.text ≤ width) (h : s.Fits m width) : (s.flush blank).Fits m width :=
  fits_flush hblank h.lines (.inl (h.current ▸ h.used))

theorem shown_push (text : List α) : (s.push m style text).shown = s.shown ++ text.map (style, ·) := by
  show s.lines.flatMap styled ++ styled (s.current ++ [⟨style, text⟩]) = _
  rw [styled_concat, ← List.append_assoc]
  rfl

theorem shown_flush (blank : Segment σ α) (h : s.current ≠ []) : (s.flush blank).shown = s.shown := by
  have hcurrent : s.current.isEmpty = false := List.isEmpty_eq_false_iff.mpr h
  show (s.lines ++ [if s.current.isEmpty then [blank] else s.current]).flatMap styled ++ [] = _
  rw [hcurrent, if_neg Bool.false_ne_true, List.append_nil, List.flatMap_append, List.flatMap_singleton]
  rfl

theorem current_ne_nil (h : s.Fits m width) (hused : s.used ≠ 0) : s.current ≠ [] := by
  intro hnil
  have hcurrent := h.current
  rw [hnil] at hcurrent
  exact hused hcurrent.symm

/-- A text is wrapped into rows that are not too wide, and nothing of it is lost. -/
theorem wrapText_fits (hwidth : 0 < width) (style : σ) (hblank : m.widthOf blank.text ≤ width) (text : List α)
    (h : s.Fits m width) :
    (wrapText m blank width hwidth style s text).Fits m width ∧
      (wrapText m blank width hwidth style s text).shown = s.shown ++ text.map (style, ·) := by
  induction s, text using wrapText.induct m blank width hwidth style with
  | case1 s =>
      rw [wrapText]
      exact ⟨h, (List.append_nil s.shown).symm⟩
  | case2 s c text hfull ih =>
      rw [wrapText, if_pos hfull]
      have hused : s.used ≠ 0 := by omega
      obtain ⟨hfits, hshown⟩ := ih (h.flush hblank)
      rw [hshown, shown_flush blank (current_ne_nil h hused)]
      exact ⟨hfits, rfl⟩
  | case3 s c text hfull hnone hused ih =>
      rw [wrapText, if_neg hfull, if_pos hnone, if_pos hused]
      have hforced : Within m width (plain (s.push m style [c]).current) :=
        .inr ⟨plain s.current, c, plain_concat _ _ _, h.current.trans hused⟩
      obtain ⟨hfits, hshown⟩ := ih (fits_flush hblank h.lines hforced)
      rw [hshown, shown_flush blank (List.concat_ne_nil _ _), shown_push, List.append_assoc]
      exact ⟨hfits, rfl⟩
  | case4 s c text hfull hnone hused ih =>
      rw [wrapText, if_neg hfull, if_pos hnone, if_neg hused]
      obtain ⟨hfits, hshown⟩ := ih (h.flush hblank)
      rw [hshown, shown_flush blank (current_ne_nil h hused)]
      exact ⟨hfits, rfl⟩
  | case5 s c text hfull hnone pushed rest ih =>
      rw [wrapText, if_neg hfull, if_neg hnone]
      have hcut := widthOf_cut m (c :: text) (width - s.used)
      have hpush : pushed.Fits m width := fits_push h (by omega)
      have hne : pushed.current ≠ [] := List.concat_ne_nil _ _
      have hnext : (pushed.goOn blank rest).Fits m width ∧ (pushed.goOn blank rest).shown = pushed.shown := by
        rw [State.goOn]
        split_ifs
        · exact ⟨hpush, rfl⟩
        · exact ⟨hpush.flush hblank, shown_flush blank hne⟩
      obtain ⟨hfits, hshown⟩ := ih hnext.1
      refine ⟨hfits, hshown.trans ?_⟩
      rw [hnext.2, shown_push, List.append_assoc, ← List.map_append, List.take_append_drop]

theorem wrapAll_fits (hwidth : 0 < width) (hblank : m.widthOf blank.text ≤ width) (segments : List (Segment σ α))
    (h : s.Fits m width) :
    (segments.foldl (fun s segment => wrapText m blank width hwidth segment.style s segment.text) s).Fits m width ∧
      (segments.foldl (fun s segment => wrapText m blank width hwidth segment.style s segment.text) s).shown =
        s.shown ++ styled segments := by
  induction segments generalizing s with
  | nil => exact ⟨h, (List.append_nil s.shown).symm⟩
  | cons segment segments ih =>
      obtain ⟨hfits, hshown⟩ := wrapText_fits hwidth segment.style hblank segment.text h
      obtain ⟨hall, hshowns⟩ := ih hfits
      refine ⟨hall, ?_⟩
      rw [List.foldl_cons, hshowns, hshown, List.append_assoc]
      rfl

/-- No row is too wide, but for a character that is wider by itself. -/
theorem wrap_within (hwidth : 0 < width) (hblank : m.widthOf blank.text ≤ width) {segments : List (Segment σ α)}
    (hrow : row ∈ wrap m blank width hwidth segments) : Within m width (plain row) := by
  obtain ⟨hfits, -⟩ := wrapAll_fits hwidth hblank segments fits_start
  rw [wrap] at hrow
  split_ifs at hrow
  · exact (hfits.flush hblank).lines row hrow
  · exact hfits.lines row hrow

/-- No row is too wide where no character is. -/
theorem wrap_width (hwidth : 0 < width) (hblank : m.widthOf blank.text ≤ width) (hchar : ∀ c, m.width c ≤ width)
    {segments : List (Segment σ α)} (hrow : row ∈ wrap m blank width hwidth segments) :
    m.widthOf (plain row) ≤ width := by
  rcases wrap_within hwidth hblank hrow with hle | ⟨before, c, hplain, hbefore⟩
  · exact hle
  · rw [hplain, widthOf_append, hbefore, Nat.zero_add]
    exact hchar c

/-- The rows show what the segments show, or are a blank one where these show nothing. -/
theorem wrap_styled (hwidth : 0 < width) (hblank : m.widthOf blank.text ≤ width) (segments : List (Segment σ α)) :
    (wrap m blank width hwidth segments).flatMap styled = styled segments ∨
      styled segments = [] ∧ wrap m blank width hwidth segments = [[blank]] := by
  obtain ⟨-, hshown⟩ := wrapAll_fits hwidth hblank segments fits_start
  have hstart : (State.start : State σ α).shown = [] := rfl
  rw [hstart, List.nil_append] at hshown
  rw [wrap]
  generalize segments.foldl (fun s segment => wrapText m blank width hwidth segment.style s segment.text) .start = s
    at hshown
  obtain ⟨lines, current, used⟩ := s
  cases current with
  | nil =>
      have hlines : lines.flatMap styled = styled segments := by
        rw [← hshown, State.shown]
        exact (List.append_nil _).symm
      cases lines with
      | nil => exact .inr ⟨hlines.symm, rfl⟩
      | cons row lines => exact .inl hlines
  | cons segment current =>
      refine .inl ?_
      rw [← hshown, ← shown_flush blank (List.cons_ne_nil segment current)]
      exact (List.append_nil _).symm

/-- The same without the styles. -/
theorem wrap_text (hwidth : 0 < width) (hblank : m.widthOf blank.text ≤ width) (segments : List (Segment σ α)) :
    (wrap m blank width hwidth segments).flatMap plain = plain segments ∨
      plain segments = [] ∧ wrap m blank width hwidth segments = [[blank]] := by
  rw [← map_snd_flatMap_styled, ← map_snd_styled segments]
  rcases wrap_styled hwidth hblank segments with hstyled | ⟨hstyled, hwrap⟩
  · exact .inl (congrArg (List.map Prod.snd) hstyled)
  · exact .inr ⟨congrArg (List.map Prod.snd) hstyled, hwrap⟩

end Rows

end Kross.SoftWrap

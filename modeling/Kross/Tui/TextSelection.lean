import Mathlib.Data.List.Induction
import Kross.Run
import Kross.Tui.MessagePaint

namespace Kross.Tui

section Picking

variable {α : Type}

/-- Of each text `F` has the characters that `D` picks, by the text before them. -/
structure Picks (F : List α → List α) (D : List α → α → Prop) : Prop where
  keep : ∀ text c, D text c → F (text ++ [c]) = F text ++ [c]
  drop : ∀ text c, ¬ D text c → F (text ++ [c]) = F text

/-- For each character of the text, `P` of the text before it. -/
abbrev AlongText (P : List α → α → Prop) (text : List α) : Prop := Run.Along (fun text c => text ++ [c]) P [] text

theorem after_text (text : List α) : Run.after (fun text c => text ++ [c]) [] text = text := by
  induction text using List.reverseRecOn with
  | nil => rfl
  | append_singleton text c ih => rw [Run.after_concat, ih]

theorem alongText_concat {P : List α → α → Prop} {text : List α} {c : α} :
    AlongText P (text ++ [c]) ↔ AlongText P text ∧ P text c := by
  rw [AlongText, Run.along_concat, after_text]

variable {F G : List α → List α} {D E : List α → α → Prop}

/-- What picks less has the same of a text where it picks all the same characters. -/
theorem Picks.eq_iff (hF : Picks F D) (hG : Picks G E) (hDE : ∀ text c, D text c → E text c) (hnil : F [] = [])
    (text : List α) : ∃ more, G text = G [] ++ more ∧ List.Sublist (F text) more ∧
      (F text = more ↔ AlongText (fun text c => E text c → D text c) text) := by
  induction text using List.reverseRecOn with
  | nil => exact ⟨[], (List.append_nil _).symm, by rw [hnil], iff_of_true hnil Run.along_nil⟩
  | append_singleton text c ih =>
      obtain ⟨more, hmore, hsub, heq⟩ := ih
      rw [alongText_concat, ← heq]
      by_cases hE : E text c
      · have hstep : G (text ++ [c]) = G [] ++ (more ++ [c]) := by rw [hG.keep _ _ hE, hmore, List.append_assoc]
        by_cases hD : D text c
        · refine ⟨more ++ [c], hstep, ?_, ?_⟩
          · rw [hF.keep _ _ hD]
            exact hsub.append_right [c]
          · rw [hF.keep _ _ hD, List.append_left_inj]
            exact (and_iff_left fun _ => hD).symm
        · refine ⟨more ++ [c], hstep, ?_, ?_⟩
          · rw [hF.drop _ _ hD]
            exact hsub.trans (List.sublist_append_left more [c])
          · rw [hF.drop _ _ hD]
            refine iff_of_false (fun h => ?_) fun h => hD (h.2 hE)
            have hlength := hsub.length_le
            rw [h, List.length_append, List.length_singleton] at hlength
            omega
      · have hD : ¬ D text c := fun hD => hE (hDE _ _ hD)
        refine ⟨more, by rw [hG.drop _ _ hE, hmore], by rwa [hF.drop _ _ hD], ?_⟩
        rw [hF.drop _ _ hD]
        exact (and_iff_left fun h => absurd h hE).symm

theorem append_eq_iff {xs ys xs' ys' : List α} (hx : List.Sublist xs xs') (hy : List.Sublist ys ys') :
    xs ++ ys = xs' ++ ys' ↔ xs = xs' ∧ ys = ys' := by
  refine ⟨fun h => ?_, fun h => by rw [h.1, h.2]⟩
  have hlength := congrArg List.length h
  rw [List.length_append, List.length_append] at hlength
  have hxs := hx.length_le
  have hys := hy.length_le
  exact ⟨hx.eq_of_length (by omega), hy.eq_of_length (by omega)⟩

end Picking

/-- A range of display columns, the last not included. -/
structure Columns where
  start : Nat
  «end» : Nat

def charWidth (c : Char) : Nat := charDisplayWidth c.toNat

/-- A character of this width behind `cursor` is in the range. -/
def Columns.covers (columns : Columns) (cursor width : Nat) : Bool :=
  cursor < columns.«end» && columns.start < cursor + width

section Highlighting

/-- The characters that are flushed together. -/
structure Chunk where
  text : Text
  selected : Bool

/-- What becomes of a segment: its chunks so far, and the one that is open. -/
structure Splitting where
  output : List Chunk
  chunk : Text
  chunkSelected : Option Bool
  cursor : Nat

def Splitting.flush (s : Splitting) : Splitting :=
  if s.chunk.isEmpty then s
  else { s with output := s.output ++ [⟨s.chunk, s.chunkSelected = some true⟩], chunk := [] }

def Splitting.push (columns : Columns) (s : Splitting) (c : Char) : Splitting :=
  let width := charWidth c
  let selected : Bool := if width = 0 then s.chunkSelected = some true else columns.covers s.cursor width
  let s := if s.chunkSelected.isSome && s.chunkSelected ≠ some selected then s.flush else s
  { s with chunk := s.chunk ++ [c], chunkSelected := some selected, cursor := s.cursor + width }

def Splitting.start (cursor : Nat) : Splitting := ⟨[], [], none, cursor⟩

/-- The chunks of a segment that begins in the column `cursor`. -/
def split (columns : Columns) (cursor : Nat) (text : Text) : Splitting :=
  (text.foldl (Splitting.push columns) (.start cursor)).flush

def Chunk.segment (segment : PaintSegment) (chunk : Chunk) : PaintSegment :=
  ⟨if chunk.selected then { segment.style with inverse := true } else segment.style, chunk.text⟩

def highlightFrom (columns : Columns) : Nat → List PaintSegment → List PaintSegment
  | _, [] => []
  | cursor, segment :: segments =>
    let s := split columns cursor segment.text
    s.output.map (Chunk.segment segment) ++ highlightFrom columns s.cursor segments

def highlightPaintSegments (segments : List PaintSegment) : Option Columns → List PaintSegment
  | none => segments
  | some columns => highlightFrom columns 0 segments

end Highlighting

section Copying

def copyChar (columns : Columns) (s : Text × Nat) (c : Char) : Text × Nat :=
  let width := charWidth c
  (if (if width = 0 then 0 < s.1.length else columns.covers s.2 width) then s.1 ++ [c] else s.1, s.2 + width)

def sliceDisplayColumns (text : Text) (start «end» : Nat) : Text := (text.foldl (copyChar ⟨start, «end»⟩) ([], 0)).1

end Copying

section Inverting

/-- The text of the chunks that are selected, in the segments that `counts` tells of. -/
def selectedText (columns : Columns) (counts : PaintSegment → Bool) : Nat → List PaintSegment → Text
  | _, [] => []
  | cursor, segment :: segments =>
    let s := split columns cursor segment.text
    (if counts segment then (s.output.filter Chunk.selected).flatMap Chunk.text else []) ++
      selectedText columns counts s.cursor segments

/-- The segments that are inverse and come from segments that are not. -/
def newlyInverted (columns : Columns) : Nat → List PaintSegment → List PaintSegment
  | _, [] => []
  | cursor, segment :: segments =>
    let s := split columns cursor segment.text
    (if segment.style.inverse then [] else (s.output.map (Chunk.segment segment)).filter (·.style.inverse)) ++
      newlyInverted columns s.cursor segments

theorem newlyInverted_sublist (columns : Columns) (cursor : Nat) (segments : List PaintSegment) :
    List.Sublist (newlyInverted columns cursor segments) (highlightFrom columns cursor segments) := by
  induction segments generalizing cursor with
  | nil => exact List.Sublist.refl []
  | cons segment segments ih =>
      rw [newlyInverted, highlightFrom]
      refine List.Sublist.append ?_ (ih _)
      split_ifs
      · exact List.nil_sublist _
      · exact List.filter_sublist

theorem newlyInverted_text (columns : Columns) (cursor : Nat) (segments : List PaintSegment) :
    SoftWrap.plain (newlyInverted columns cursor segments) =
      selectedText columns (fun segment => !segment.style.inverse) cursor segments := by
  induction segments generalizing cursor with
  | nil => rfl
  | cons segment segments ih =>
      have hchunks (h : segment.style.inverse = false) (chunks : List Chunk) :
          SoftWrap.plain ((chunks.map (Chunk.segment segment)).filter (·.style.inverse)) =
            (chunks.filter Chunk.selected).flatMap Chunk.text := by
        have hinverse : (fun (segment : PaintSegment) => segment.style.inverse) ∘ Chunk.segment segment = Chunk.selected := by
          funext chunk
          rw [Function.comp, Chunk.segment]
          cases chunk.selected <;> simp [h]
        rw [SoftWrap.plain, List.filter_map, hinverse, List.flatMap_map]
        rfl
      rw [newlyInverted, selectedText, SoftWrap.plain, List.flatMap_append]
      refine congrArg₂ _ ?_ (ih _)
      cases h : segment.style.inverse with
      | true => rfl
      | false => exact hchunks h _

end Inverting

section Covering

variable {columns : Columns} {before text : Text} {c : Char}

/-- The range covers a part of the character. -/
def Covers (columns : Columns) (before : Text) (c : Char) : Prop :=
  charWidth c ≠ 0 ∧ columns.covers (displayWidth before) (charWidth c) = true

/-- The range covers a character of the text. -/
def Touched (columns : Columns) (text : Text) : Prop :=
  ∃ before c after, text = before ++ c :: after ∧ Covers columns before c

/-- The last character that has a width is covered. -/
def Based (columns : Columns) (before text : Text) : Prop :=
  ∃ inner c marks, text = inner ++ c :: marks ∧ Covers columns (before ++ inner) c ∧ ∀ mark ∈ marks, charWidth mark = 0

/-- Characters that are covered, and those without width anywhere behind them. -/
def Copied (columns : Columns) (before : Text) (c : Char) : Prop :=
  Covers columns before c ∨ charWidth c = 0 ∧ Touched columns before

/-- Characters that are covered, and those without width directly behind them. -/
def Highlighted (columns : Columns) (before text : Text) (c : Char) : Prop :=
  Covers columns (before ++ text) c ∨ charWidth c = 0 ∧ Based columns before text

theorem touched_concat : Touched columns (text ++ [c]) ↔ Touched columns text ∨ Covers columns text c := by
  constructor
  · rintro ⟨before, d, after, htext, hd⟩
    rcases List.eq_nil_or_concat after with rfl | ⟨after, e, rfl⟩
    · obtain ⟨rfl, hcons⟩ := List.append_inj' htext rfl
      rw [(List.cons.inj hcons).1]
      exact .inr hd
    · rw [List.concat_eq_append, ← List.cons_append, ← List.append_assoc] at htext
      exact .inl ⟨before, d, after, (List.append_inj' htext rfl).1, hd⟩
  · rintro (⟨before, d, after, rfl, hd⟩ | hc)
    · exact ⟨before, d, after ++ [c], by rw [List.append_assoc]; rfl, hd⟩
    · exact ⟨text, c, [], rfl, hc⟩

theorem based_concat : Based columns before (text ++ [c]) ↔ Highlighted columns before text c := by
  constructor
  · rintro ⟨inner, d, marks, htext, hd, hmarks⟩
    rcases List.eq_nil_or_concat marks with rfl | ⟨marks, e, rfl⟩
    · obtain ⟨rfl, hcons⟩ := List.append_inj' htext rfl
      rw [(List.cons.inj hcons).1]
      exact .inl hd
    · rw [List.concat_eq_append, ← List.cons_append, ← List.append_assoc] at htext
      obtain ⟨htext, hcons⟩ := List.append_inj' htext rfl
      rw [(List.cons.inj hcons).1]
      rw [List.concat_eq_append] at hmarks
      exact .inr ⟨hmarks e (List.mem_append_right marks List.mem_cons_self), inner, d, marks, htext, hd,
        fun mark hmark => hmarks mark (List.mem_append_left [e] hmark)⟩
  · rintro (hc | ⟨hc, inner, d, marks, rfl, hd, hmarks⟩)
    · exact ⟨text, c, [], rfl, hc, fun _ h => absurd h List.not_mem_nil⟩
    · refine ⟨inner, d, marks ++ [c], by rw [List.append_assoc]; rfl, hd, fun mark hmark => ?_⟩
      rcases List.mem_append.mp hmark with hmark | hmark
      · exact hmarks mark hmark
      · rw [List.mem_singleton.mp hmark, hc]

theorem copied_of_highlighted (h : Highlighted columns before text c) : Copied columns (before ++ text) c := by
  rcases h with hc | ⟨hc, inner, d, marks, rfl, hd, -⟩
  · exact .inl hc
  · exact .inr ⟨hc, before ++ inner, d, marks, (List.append_assoc _ _ _).symm, hd⟩

end Covering

section Slicing

variable {columns : Columns} {text : Text} {c : Char}

def copied (columns : Columns) (text : Text) : Text × Nat := text.foldl (copyChar columns) ([], 0)

theorem copied_concat : copied columns (text ++ [c]) = copyChar columns (copied columns text) c :=
  List.foldl_concat ..

theorem copied_cursor (columns : Columns) (text : Text) : (copied columns text).2 = displayWidth text := by
  induction text using List.reverseRecOn with
  | nil => rfl
  | append_singleton text c ih =>
      rw [copied_concat, copyChar, ih, displayWidth_append]
      rfl

/-- Where something is copied already, a character is copied exactly when it is to be. -/
theorem copyChar_iff (h : 0 < (copied columns text).1.length ↔ Touched columns text) (c : Char) :
    (Copied columns text c → (copied columns (text ++ [c])).1 = (copied columns text).1 ++ [c]) ∧
      (¬ Copied columns text c → (copied columns (text ++ [c])).1 = (copied columns text).1) := by
  have hiff : (if charWidth c = 0 then 0 < (copied columns text).1.length
      else columns.covers (displayWidth text) (charWidth c) = true) ↔ Copied columns text c := by
    rw [Copied, Covers, h]
    by_cases hwidth : charWidth c = 0
    · rw [if_pos hwidth]
      exact ⟨fun ht => .inr ⟨hwidth, ht⟩, fun hc => hc.elim (fun hc => absurd hwidth hc.1) (·.2)⟩
    · rw [if_neg hwidth]
      exact ⟨fun hc => .inl ⟨hwidth, hc⟩, fun hc => hc.elim (·.2) fun hc => absurd hc.1 hwidth⟩
  rw [copied_concat, copyChar, copied_cursor]
  exact ⟨fun hc => if_pos (hiff.mpr hc), fun hc => if_neg fun hcond => hc (hiff.mp hcond)⟩

theorem copied_nonempty (columns : Columns) (text : Text) :
    0 < (copied columns text).1.length ↔ Touched columns text := by
  induction text using List.reverseRecOn with
  | nil => exact iff_of_false (Nat.lt_irrefl 0) fun ⟨before, c, after, h, _⟩ => by cases before <;> cases h
  | append_singleton text c ih =>
      rw [touched_concat]
      obtain ⟨hkeep, hdrop⟩ := copyChar_iff ih c
      by_cases hc : Copied columns text c
      · rw [hkeep hc, List.length_append]
        exact iff_of_true (Nat.succ_pos _) (hc.elim .inr fun hc => .inl hc.2)
      · rw [hdrop hc, ih]
        exact (or_iff_left fun hcovers => hc (.inl hcovers)).symm

theorem copied_picks (columns : Columns) : Picks (fun text => (copied columns text).1) (Copied columns) :=
  ⟨fun text c => (copyChar_iff (copied_nonempty columns text) c).1,
    fun text c => (copyChar_iff (copied_nonempty columns text) c).2⟩

end Slicing

section Splitting

variable {columns : Columns} {s : Splitting} {before text : Text} {c : Char}

/-- The characters that are selected so far. -/
def Splitting.selected (s : Splitting) : Text :=
  (s.output.filter Chunk.selected).flatMap Chunk.text ++ if s.chunkSelected = some true then s.chunk else []

/-- All the characters so far. -/
def Splitting.all (s : Splitting) : Text := s.output.flatMap Chunk.text ++ s.chunk

theorem flush_selected (s : Splitting) :
    (s.flush.output.filter Chunk.selected).flatMap Chunk.text = s.selected ∧ s.flush.output.flatMap Chunk.text = s.all := by
  rw [Splitting.flush, Splitting.selected, Splitting.all]
  split_ifs with hempty hselected hselected
  · rw [List.isEmpty_iff.mp hempty]
    exact ⟨(List.append_nil _).symm, (List.append_nil _).symm⟩
  · rw [List.isEmpty_iff.mp hempty]
    exact ⟨(List.append_nil _).symm, (List.append_nil _).symm⟩
  · simp [List.filter_append, hselected]
  · simp [List.filter_append, hselected]

/-- Of a segment's first characters: where they end, and whether the last of them that has a width is selected. -/
structure Split (columns : Columns) (before text : Text) (s : Splitting) : Prop where
  cursor : s.cursor = displayWidth (before ++ text)
  all : s.all = text
  fresh : s.chunkSelected = none → s.chunk = []
  based : s.chunkSelected = some true ↔ Based columns before text

theorem split_start : Split columns before [] (.start (displayWidth before)) where
  cursor := by rw [List.append_nil]; rfl
  all := rfl
  fresh := fun _ => rfl
  based := iff_of_false (fun h => nomatch h) fun ⟨inner, c, marks, h, _⟩ => by cases inner <;> cases h

/-- Whether a character is selected. -/
def Splitting.selects (columns : Columns) (s : Splitting) (c : Char) : Bool :=
  if charWidth c = 0 then s.chunkSelected = some true else columns.covers s.cursor (charWidth c)

theorem selects_iff (h : Split columns before text s) (c : Char) :
    s.selects columns c = true ↔ Highlighted columns before text c := by
  rw [Splitting.selects, Highlighted, Covers, h.cursor]
  by_cases hwidth : charWidth c = 0
  · rw [if_pos hwidth, decide_eq_true_iff, h.based]
    exact ⟨fun hb => .inr ⟨hwidth, hb⟩, fun hc => hc.elim (fun hc => absurd hwidth hc.1) (·.2)⟩
  · rw [if_neg hwidth]
    exact ⟨fun hc => .inl ⟨hwidth, hc⟩, fun hc => hc.elim (·.2) fun hc => absurd hc.1 hwidth⟩

/-- A character joins the open chunk where both are selected alike, and a new one where they are not. -/
theorem push_spec (columns : Columns) (hfresh : s.chunkSelected = none → s.chunk = []) (c : Char) :
    (s.push columns c).chunkSelected = some (s.selects columns c) ∧ (s.push columns c).cursor = s.cursor + charWidth c ∧
      (s.push columns c).all = s.all ++ [c] ∧
      (s.push columns c).selected = s.selected ++ if s.selects columns c then [c] else [] := by
  have hpush : s.push columns c =
      let opened := if s.chunkSelected.isSome && s.chunkSelected ≠ some (s.selects columns c) then s.flush else s
      { opened with chunk := opened.chunk ++ [c], chunkSelected := some (s.selects columns c),
                    cursor := opened.cursor + charWidth c } := rfl
  obtain ⟨hselected, hall⟩ := flush_selected s
  have hchunk : s.flush.chunk = [] := by
    rw [Splitting.flush]
    split_ifs with hempty
    · exact List.isEmpty_iff.mp hempty
    · rfl
  have hcursor : s.flush.cursor = s.cursor := by
    rw [Splitting.flush]
    split_ifs <;> rfl
  rw [hpush]
  generalize s.selects columns c = chosen
  by_cases hother : (s.chunkSelected.isSome && s.chunkSelected ≠ some chosen) = true
  · rw [if_pos hother]
    dsimp only
    refine ⟨rfl, congrArg (· + charWidth c) hcursor, ?_, ?_⟩
    · rw [Splitting.all, ← hall, hchunk]
      rfl
    · rw [Splitting.selected, ← hselected, hchunk]
      cases chosen <;> rfl
  · rw [if_neg hother]
    dsimp only
    refine ⟨rfl, rfl, ?_, ?_⟩
    · rw [Splitting.all, Splitting.all, List.append_assoc]
    · rw [Splitting.selected, Splitting.selected]
      cases hopen : s.chunkSelected with
      | none =>
          rw [hfresh hopen]
          cases chosen <;> simp
      | some was =>
          have hsame : was = chosen := by simpa [hopen] using hother
          rw [hsame]
          cases chosen with
          | true => exact (List.append_assoc _ _ _).symm
          | false => exact (List.append_nil _).symm

/-- The first characters of a segment that begins behind `before`. -/
def pushed (columns : Columns) (before text : Text) : Splitting :=
  text.foldl (Splitting.push columns) (.start (displayWidth before))

theorem pushed_concat : pushed columns before (text ++ [c]) = (pushed columns before text).push columns c :=
  List.foldl_concat ..

theorem split_pushed (columns : Columns) (before text : Text) : Split columns before text (pushed columns before text) := by
  induction text using List.reverseRecOn with
  | nil => exact split_start
  | append_singleton text c ih =>
      obtain ⟨hchosen, hcursor, hall, -⟩ := push_spec columns ih.fresh c
      rw [← pushed_concat] at hchosen hcursor hall
      refine ⟨?_, ?_, ?_, ?_⟩
      · rw [hcursor, ih.cursor, ← List.append_assoc, displayWidth_append (before ++ text)]
        rfl
      · rw [hall, ih.all]
      · intro hnone
        rw [hchosen] at hnone
        cases hnone
      · rw [hchosen, based_concat, ← selects_iff ih c]
        exact Option.some_inj

theorem split_cursor (columns : Columns) (before text : Text) :
    (split columns (displayWidth before) text).cursor = displayWidth (before ++ text) := by
  have hflush : split columns (displayWidth before) text = (pushed columns before text).flush := rfl
  rw [hflush, Splitting.flush]
  split_ifs <;> exact (split_pushed columns before text).cursor

theorem pushed_picks (columns : Columns) (before : Text) :
    Picks (fun text => (pushed columns before text).selected) (Highlighted columns before) := by
  have hstep (text : Text) (c : Char) : (pushed columns before (text ++ [c])).selected = (pushed columns before text).selected ++
      if (pushed columns before text).selects columns c then [c] else [] := by
    rw [pushed_concat]
    exact (push_spec columns (split_pushed columns before text).fresh c).2.2.2
  refine ⟨fun text c h => ?_, fun text c h => ?_⟩
  · rw [hstep, if_pos ((selects_iff (split_pushed columns before text) c).mpr h)]
  · rw [hstep, if_neg (mt (selects_iff (split_pushed columns before text) c).mp h), List.append_nil]

end Splitting

section Selecting

variable {columns : Columns} {counts : PaintSegment → Bool} {before : Text} {segment : PaintSegment}
  {segments : List PaintSegment}

/-- All that is copied of a segment is highlighted, in a segment that counts. -/
def CopiedAsShown (columns : Columns) (counts : PaintSegment → Bool) (before : Text) (segment : PaintSegment) : Prop :=
  AlongText (fun text c => Copied columns (before ++ text) c → counts segment = true ∧ Highlighted columns before text c)
    segment.text

/-- What is selected of a segment, if it counts. -/
theorem segment_eq_iff (columns : Columns) (counts : PaintSegment → Bool) (before : Text) (segment : PaintSegment) :
    ∃ more, (copied columns (before ++ segment.text)).1 = (copied columns before).1 ++ more ∧
      List.Sublist (if counts segment then (pushed columns before segment.text).selected else []) more ∧
      ((if counts segment then (pushed columns before segment.text).selected else []) = more ↔
        CopiedAsShown columns counts before segment) := by
  have hcopied : Picks (fun text => (copied columns (before ++ text)).1) (fun text => Copied columns (before ++ text)) := by
    refine ⟨fun text c h => ?_, fun text c h => ?_⟩
    · rw [← List.append_assoc]
      exact (copied_picks columns).keep _ _ h
    · rw [← List.append_assoc]
      exact (copied_picks columns).drop _ _ h
  have hshown : Picks (fun text => if counts segment then (pushed columns before text).selected else [])
      (fun text c => counts segment = true ∧ Highlighted columns before text c) := by
    cases counts segment with
    | true => exact ⟨fun text c h => (pushed_picks columns before).keep _ _ h.2,
        fun text c h => (pushed_picks columns before).drop _ _ fun hc => h ⟨rfl, hc⟩⟩
    | false => exact ⟨fun _ _ h => absurd h.1 Bool.false_ne_true, fun _ _ _ => rfl⟩
  have hnil : (if counts segment then (pushed columns before []).selected else []) = [] := ite_self []
  have heq := hshown.eq_iff hcopied (fun text c h => copied_of_highlighted h.2) hnil segment.text
  rw [List.append_nil] at heq
  exact heq

/-- What is selected of a row is what is copied of it exactly where all that is copied is highlighted. -/
theorem selectedText_eq_iff (columns : Columns) (counts : PaintSegment → Bool) (before : Text)
    (segments : List PaintSegment) :
    ∃ more, (copied columns (before ++ SoftWrap.plain segments)).1 = (copied columns before).1 ++ more ∧
      List.Sublist (selectedText columns counts (displayWidth before) segments) more ∧
      (selectedText columns counts (displayWidth before) segments = more ↔
        Run.Along (fun before (segment : PaintSegment) => before ++ segment.text) (CopiedAsShown columns counts) before
          segments) := by
  induction segments generalizing before with
  | nil =>
      refine ⟨[], ?_, List.Sublist.refl [], iff_of_true rfl Run.along_nil⟩
      rw [SoftWrap.plain, List.flatMap_nil, List.append_nil, List.append_nil]
  | cons segment segments ih =>
      obtain ⟨here, hhere, hsub, heq⟩ := segment_eq_iff columns counts before segment
      obtain ⟨more, hmore, hsubs, heqs⟩ := ih (before ++ segment.text)
      have hselected : ((split columns (displayWidth before) segment.text).output.filter Chunk.selected).flatMap Chunk.text =
          (pushed columns before segment.text).selected := (flush_selected _).1
      rw [selectedText, hselected, split_cursor, Run.along_cons, ← heq, ← heqs, ← append_eq_iff hsub hsubs]
      refine ⟨here ++ more, ?_, hsub.append hsubs, Iff.rfl⟩
      rw [SoftWrap.plain, List.flatMap_cons, ← List.append_assoc, ← List.append_assoc, ← hhere]
      exact hmore

/-- A character without width behind the first covered one stands directly behind a covered one of its segment. -/
def MarksFollow (columns : Columns) (before : Text) (segment : PaintSegment) : Prop :=
  AlongText (fun text c => charWidth c = 0 → Touched columns (before ++ text) → Based columns before text) segment.text

/-- The range covers nothing of the segment. -/
def Uncovered (columns : Columns) (before : Text) (segment : PaintSegment) : Prop :=
  AlongText (fun text c => ¬ Covers columns (before ++ text) c) segment.text

theorem not_based (h : Uncovered columns before segment) {text rest : Text} (htext : segment.text = text ++ rest) :
    ¬ Based columns before text := by
  rintro ⟨inner, c, marks, rfl, hc, -⟩
  have hinner := h inner c (marks ++ rest) (by rw [htext, List.append_assoc]; rfl)
  rw [after_text] at hinner
  exact hinner hc

theorem copiedAsShown_iff : CopiedAsShown columns (fun _ => true) before segment ↔ MarksFollow columns before segment := by
  rw [CopiedAsShown, MarksFollow]
  refine ⟨fun h => h.mono fun text c hshown hwidth htouched => ?_, fun h => h.mono fun text c hfollow hcopied => ?_⟩
  · exact (hshown (.inr ⟨hwidth, htouched⟩)).2.elim (fun hc => absurd hwidth hc.1) (·.2)
  · exact ⟨rfl, hcopied.imp_right fun hc => ⟨hc.1, hfollow hc.1 hc.2⟩⟩

theorem copiedAsShown_new : CopiedAsShown columns (fun segment => !segment.style.inverse) before segment ↔
    MarksFollow columns before segment ∧ (segment.style.inverse = true → Uncovered columns before segment) := by
  cases hinverse : segment.style.inverse with
  | false =>
      have hcounts : CopiedAsShown columns (fun segment => !segment.style.inverse) before segment ↔
          CopiedAsShown columns (fun _ => true) before segment := by
        rw [CopiedAsShown, CopiedAsShown, hinverse, Bool.not_false]
      rw [hcounts, copiedAsShown_iff]
      exact (and_iff_left fun h => absurd h Bool.false_ne_true).symm
  | true =>
      have hnone (text : Text) (c : Char) : (Copied columns (before ++ text) c →
          (!segment.style.inverse) = true ∧ Highlighted columns before text c) ↔ ¬ Copied columns (before ++ text) c := by
        rw [hinverse]
        exact ⟨fun h hc => absurd (h hc).1 Bool.false_ne_true, fun h hc => absurd hc h⟩
      rw [CopiedAsShown, MarksFollow, Uncovered]
      constructor
      · intro h
        refine ⟨h.mono fun text c hc hwidth htouched => ?_, fun _ => h.mono fun text c hc hcovers => ?_⟩
        · exact absurd (.inr ⟨hwidth, htouched⟩) ((hnone text c).mp hc)
        · exact (hnone text c).mp hc (.inl hcovers)
      · rintro ⟨hfollow, huncovered⟩ text c rest htext
        have hfollow := hfollow text c rest htext
        have hcovers := huncovered rfl text c rest htext
        rw [after_text] at hfollow hcovers ⊢
        refine (hnone text c).mpr fun hc => hc.elim hcovers fun hc => ?_
        exact not_based (huncovered rfl) htext (hfollow hc.1 hc.2)

/-- The row, segment by segment with the text before each. -/
abbrev AlongRow (P : Text → PaintSegment → Prop) (segments : List PaintSegment) : Prop :=
  Run.Along (fun before (segment : PaintSegment) => before ++ segment.text) P [] segments

theorem highlightFrom_text (columns : Columns) (before : Text) (segments : List PaintSegment) :
    SoftWrap.plain (highlightFrom columns (displayWidth before) segments) = SoftWrap.plain segments := by
  induction segments generalizing before with
  | nil => rfl
  | cons segment segments ih =>
      have hchunks (chunks : List Chunk) : SoftWrap.plain (chunks.map (Chunk.segment segment)) = chunks.flatMap Chunk.text := by
        rw [SoftWrap.plain, List.flatMap_map]
        rfl
      rw [highlightFrom, split_cursor, SoftWrap.plain, List.flatMap_append, SoftWrap.plain, List.flatMap_cons]
      exact congrArg₂ _ ((hchunks _).trans ((flush_selected _).2.trans (split_pushed columns before segment.text).all)) (ih _)

/-- What is newly inverted is what is copied exactly where marks follow what they mark and no inverse segment is
covered; without regard to inverse segments, where marks follow what they mark. -/
theorem inverted_eq_copied_iff (segments : List PaintSegment) (columns : Columns) :
    SoftWrap.plain (highlightPaintSegments segments (some columns)) = SoftWrap.plain segments ∧
      (SoftWrap.plain (newlyInverted columns 0 segments) =
          sliceDisplayColumns (SoftWrap.plain segments) columns.start columns.«end» ↔
        AlongRow (fun before segment => MarksFollow columns before segment ∧
          (segment.style.inverse = true → Uncovered columns before segment)) segments) ∧
      (selectedText columns (fun _ => true) 0 segments =
          sliceDisplayColumns (SoftWrap.plain segments) columns.start columns.«end» ↔
        AlongRow (MarksFollow columns) segments) := by
  have hcopied (counts : PaintSegment → Bool) : selectedText columns counts 0 segments =
      sliceDisplayColumns (SoftWrap.plain segments) columns.start columns.«end» ↔
        AlongRow (CopiedAsShown columns counts) segments := by
    obtain ⟨more, hmore, -, heq⟩ := selectedText_eq_iff columns counts [] segments
    have hslice : sliceDisplayColumns (SoftWrap.plain segments) columns.start columns.«end» = more := hmore
    rw [hslice]
    exact heq
  refine ⟨highlightFrom_text columns [] segments, ?_, ?_⟩
  · rw [newlyInverted_text, hcopied]
    exact ⟨fun h => h.mono fun _ _ => copiedAsShown_new.mp, fun h => h.mono fun _ _ => copiedAsShown_new.mpr⟩
  · rw [hcopied]
    exact ⟨fun h => h.mono fun _ _ => copiedAsShown_iff.mp, fun h => h.mono fun _ _ => copiedAsShown_iff.mpr⟩

/-- Of an `a` and an accented `b` the first column is selected; the accent is copied with the `a`. -/
theorem accent_copied :
    SoftWrap.plain (newlyInverted ⟨0, 1⟩ 0 [plainSegment ['a', 'b', Char.ofNat 0x301]]) ≠
      sliceDisplayColumns (SoftWrap.plain [plainSegment ['a', 'b', Char.ofNat 0x301]]) 0 1 := by
  decide

end Selecting

end Kross.Tui

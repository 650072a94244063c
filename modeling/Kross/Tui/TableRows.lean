import Kross.Tui.MarkdownParse
import Mathlib.Algebra.GroupWithZero.Nat

namespace Kross.Tui

/-- What a line shows. -/
def MdLine.shown (line : MdLine) : Text := line.spans.flatMap MdSpan.text

section Cells

variable {text : Text} {width : Nat}

theorem displayWidth_spaces (n : Nat) : displayWidth (spaces n) = n := by
  rw [spaces, displayWidth_replicate]
  exact Nat.mul_one n

theorem displayWidth_truncated (text : Text) (used : Nat) (h : used < width) : used + displayWidth (truncated width used text) < width := by
  induction text generalizing used with
  | nil => exact h
  | cons c text ih =>
      rw [truncated]
      split_ifs with hfull
      · exact h
      · have hrest := ih (used + displayWidth [c]) (Nat.lt_of_not_le hfull)
        have hcons : displayWidth (c :: truncated width (used + displayWidth [c]) text) =
            displayWidth [c] + displayWidth (truncated width (used + displayWidth [c]) text) := displayWidth_append [c] _
        omega

/-- A cell is cut to the width of its column. -/
theorem displayWidth_truncateToWidth (text : Text) (hwidth : 0 < width) : displayWidth (truncateToWidth text width) ≤ width := by
  rw [truncateToWidth]
  split_ifs with hfits
  · exact hfits
  · have hlt := displayWidth_truncated text 0 hwidth
    have hellipsis : displayWidth ['…'] = 1 := by decide
    rw [displayWidth_append, hellipsis]
    omega

theorem displayWidth_around {before after : Nat} (h : before + displayWidth text + after = width) :
    displayWidth (spaces before ++ text ++ spaces after) = width := by
  rw [displayWidth_append, displayWidth_append, displayWidth_spaces, displayWidth_spaces, h]

/-- A cell that is not too wide is filled up with spaces on both sides. -/
theorem padCell_eq (h : displayWidth text ≤ width) (align : Align) :
    ∃ before after, before + displayWidth text + after = width ∧
      padCell text width align = spaces before ++ text ++ spaces after := by
  have hkept {before after : Nat} (hsum : before + displayWidth text + after = width) {result : Text}
      (hresult : result = spaces before ++ text ++ spaces after) :
      (if displayWidth result < width then result ++ spaces (width - displayWidth result)
        else if width < displayWidth result then truncateToWidth result width else result) =
        spaces before ++ text ++ spaces after := by
    rw [hresult, displayWidth_around hsum, if_neg (Nat.lt_irrefl width), if_neg (Nat.lt_irrefl width)]
  cases align with
  | left =>
      have hsum : 0 + displayWidth text + (width - displayWidth text) = width := by omega
      exact ⟨0, width - displayWidth text, hsum, hkept hsum rfl⟩
  | center =>
      have hsum : (width - displayWidth text) / 2 + displayWidth text +
          (width - displayWidth text - (width - displayWidth text) / 2) = width := by omega
      exact ⟨_, _, hsum, hkept hsum rfl⟩
  | right =>
      have hsum : width - displayWidth text + displayWidth text + 0 = width := by omega
      exact ⟨width - displayWidth text, 0, hsum, hkept hsum (List.append_nil _).symm⟩

/-- What stands in a column for a cell. -/
def shownCell (cell : Text) (width : Nat) (align : Align) : Text := padCell (truncateToWidth cell width) width align

theorem displayWidth_shownCell (hwidth : 0 < width) (cell : Text) (align : Align) :
    displayWidth (shownCell cell width align) = width := by
  obtain ⟨before, after, hsum, hpad⟩ := padCell_eq (displayWidth_truncateToWidth cell hwidth) align
  rw [shownCell, hpad, displayWidth_around hsum]

theorem shownCell_eq {cell : Text} (h : displayWidth cell ≤ width) (align : Align) :
    ∃ before after, shownCell cell width align = spaces before ++ cell ++ spaces after := by
  obtain ⟨before, after, -, hpad⟩ := padCell_eq h align
  refine ⟨before, after, ?_⟩
  rw [shownCell, truncateToWidth, if_pos h, hpad]

end Cells

section Lines

variable {widths : List Nat}

/-- How wide a table is. -/
def tableWidth (widths : List Nat) : Nat := 1 + (widths.map (· + 3)).sum

theorem sum_map_zipIdx {α : Type} (f : α → Nat) (items : List α) :
    (items.zipIdx.map fun item => f item.1).sum = (items.map f).sum := by
  have hfst : items.zipIdx.map (fun item => f item.1) = (items.zipIdx.map Prod.fst).map f := by
    rw [List.map_map]
    rfl
  rw [hfst, List.zipIdx_map_fst]

theorem dataRow_width (hwidths : ∀ w ∈ widths, 0 < w) (cells : List Text) (aligns : List Align) (header : Bool) :
    displayWidth (tableLine (formatTableDataRow cells widths aligns header)).shown = tableWidth widths := by
  have hbar : displayWidth ['│'] = 1 := by decide
  have hspace : displayWidth [' '] = 1 := by decide
  have hcell (width i : Nat) (hwidth : 0 < width) :
      displayWidth ([' '] ++ (shownCell (cells.getD i []) width (aligns.getD i .left) ++ ([' '] ++ ['│']))) = width + 3 := by
    rw [displayWidth_append, displayWidth_append, displayWidth_append, displayWidth_shownCell hwidth, hbar, hspace]
    omega
  show displayWidth (List.flatMap MdSpan.text (formatTableDataRow cells widths aligns header)) = _
  rw [formatTableDataRow, List.flatMap_cons, displayWidth_append, List.flatMap_assoc, displayWidth_flatMap]
  refine congr (congrArg Nat.add hbar) (Eq.trans ?_ (sum_map_zipIdx (· + 3) widths))
  refine congrArg List.sum (List.map_congr_left ?_)
  rintro ⟨width, i⟩ hmem
  refine hcell width i (hwidths width ?_)
  have hwidth := List.mem_map_of_mem (f := Prod.fst) hmem
  rwa [List.zipIdx_map_fst] at hwidth

theorem fills_width (hne : widths ≠ []) (mid : Char) (hmid : charDisplayWidth mid.toNat = 1) :
    displayWidth (List.intercalate [mid] (widths.map fun w => List.replicate (w + 2) '─')) + 1 =
      (widths.map (· + 3)).sum := by
  have hfill (w : Nat) : displayWidth (List.replicate (w + 2) '─') = w + 2 := by
    rw [displayWidth_replicate]
    exact Nat.mul_one _
  induction widths with
  | nil => exact absurd rfl hne
  | cons w widths ih =>
      cases widths with
      | nil => rw [List.map_singleton, List.intercalate_singleton, hfill]; rfl
      | cons next widths =>
          have hmidWidth : displayWidth [mid] = 1 := hmid
          rw [List.map_cons, List.map_cons, List.intercalate_cons_cons, displayWidth_append, displayWidth_append, hfill,
            hmidWidth, List.map_cons, List.sum_cons, ← ih (List.cons_ne_nil _ _), List.map_cons]
          omega

theorem border_width (hne : widths ≠ []) {left mid right : Char} (hleft : charDisplayWidth left.toNat = 1)
    (hmid : charDisplayWidth mid.toNat = 1) (hright : charDisplayWidth right.toNat = 1) :
    displayWidth (border widths left mid right).shown = tableWidth widths := by
  have hfills := fills_width hne mid hmid
  have hrightWidth : displayWidth [right] = 1 := hright
  have hshown : (border widths left mid right).shown =
      left :: (List.intercalate [mid] (widths.map fun w => List.replicate (w + 2) '─') ++ [right]) := List.append_nil _
  rw [hshown, displayWidth_cons, displayWidth_append, hleft, hrightWidth, hfills, tableWidth]

theorem le_foldl_max (n : Nat) (ns : List Nat) : n ≤ ns.foldl max n ∧ ∀ m ∈ ns, m ≤ ns.foldl max n := by
  induction ns generalizing n with
  | nil => exact ⟨Nat.le_refl n, nofun⟩
  | cons m ns ih =>
      obtain ⟨hmax, hrest⟩ := ih (max n m)
      exact ⟨Nat.le_trans (Nat.le_max_left n m) hmax,
        List.forall_mem_cons.mpr ⟨Nat.le_trans (Nat.le_max_right n m) hmax, hrest⟩⟩

theorem columnWidths_pos (rows : List (List Text)) : ∀ w ∈ columnWidths rows, 0 < w := by
  intro w hw
  obtain ⟨col, -, rfl⟩ := List.mem_map.mp hw
  exact Nat.lt_min.mpr ⟨by decide, (le_foldl_max 1 _).1⟩

/-- Every cell has a column. -/
theorem exists_columnWidth {rows : List (List Text)} {row : List Text} {col : Nat} (hrow : row ∈ rows)
    (hcol : col < row.length) : ∃ width, (columnWidths rows)[col]? = some width := by
  have hlength := (le_foldl_max 0 (rows.map List.length)).2 row.length (List.mem_map_of_mem hrow)
  refine ⟨_, List.getElem?_eq_getElem ?_⟩
  rw [columnWidths, List.length_map, List.length_range]
  omega

theorem columnWidths_ne_nil (rows : List (List Text)) : columnWidths rows ≠ [] := by
  rw [columnWidths]
  intro h
  have hnone := List.range_eq_nil.mp (List.map_eq_nil_iff.mp h)
  omega

/-- All lines of a table are as wide as its columns and what stands between them. -/
theorem formatTableCells_width (header : List Text) (body : List (List Text)) (aligns : List Align) :
    ∀ line ∈ formatTableCells header body aligns, displayWidth line.shown = tableWidth (columnWidths (header :: body)) := by
  have hne := columnWidths_ne_nil (header :: body)
  have hpos := columnWidths_pos (header :: body)
  intro line hline
  rw [formatTableCells] at hline
  simp only [List.mem_append, List.mem_cons, List.not_mem_nil, or_false, List.mem_map] at hline
  rcases hline with ((rfl | rfl | rfl) | ⟨row, -, rfl⟩) | rfl
  · exact border_width hne (by decide) (by decide) (by decide)
  · exact dataRow_width hpos header aligns true
  · exact border_width hne (by decide) (by decide) (by decide)
  · exact dataRow_width hpos row aligns false
  · exact border_width hne (by decide) (by decide) (by decide)

end Lines

section Columns

/-- What a line of a table has in a column. -/
def MdLine.cell (line : MdLine) (col : Nat) : Option Text := line.spans[4 * col + 2]?.map MdSpan.text

theorem getElem?_flatMap_four {α β : Type} (f : α → List β) (hf : ∀ a, (f a).length = 4) (items : List α) (i : Nat) {j : Nat}
    (hj : j < 4) : (items.flatMap f)[4 * i + j]? = items[i]?.bind fun a => (f a)[j]? := by
  induction items generalizing i with
  | nil => rfl
  | cons a items ih =>
      rw [List.flatMap_cons]
      cases i with
      | zero => rw [List.getElem?_append_left (by rw [hf]; omega)]; simp
      | succ i =>
          rw [List.getElem?_append_right (by rw [hf]; omega), hf, List.getElem?_cons_succ, ← ih i]
          exact congrArg _ (by omega)

theorem cell_dataRow (cells : List Text) {widths : List Nat} (aligns : List Align) (header : Bool) {col width : Nat}
    (hwidth : widths[col]? = some width) :
    (tableLine (formatTableDataRow cells widths aligns header)).cell col =
      some (shownCell (cells.getD col []) width (aligns.getD col .left)) := by
  rw [MdLine.cell]
  show Option.map MdSpan.text (formatTableDataRow cells widths aligns header)[4 * col + 1 + 1]? = _
  rw [formatTableDataRow, List.getElem?_cons_succ, getElem?_flatMap_four _ (fun _ => rfl) _ _ (by decide),
    List.getElem?_zipIdx, hwidth]
  show some (shownCell (cells.getD (0 + col) []) width (aligns.getD (0 + col) .left)) = _
  rw [Nat.zero_add]

/-- The line of each row of a table: its first row stands between two borders. -/
theorem formatTableCells_row {header : List Text} {body : List (List Text)} {i : Nat} {row : List Text}
    (hrow : (header :: body)[i]? = some row) (aligns : List Align) :
    (formatTableCells header body aligns)[if i = 0 then 1 else i + 2]? =
      some (tableLine (formatTableDataRow row (columnWidths (header :: body)) aligns (decide (i = 0)))) := by
  cases i with
  | zero =>
      cases hrow
      rfl
  | succ i =>
      have hbody : body[i]? = some row := hrow
      have hlt : i < body.length := (List.getElem?_eq_some_iff.mp hbody).1
      show (([_, _, _] ++ body.map _) ++ [_])[i + 3]? = _
      rw [List.getElem?_append_left (by simpa using hlt), List.getElem?_append_right (by simp), List.getElem?_map]
      simp [hbody]

/-- All lines of a table are of the same width, and a cell that is no wider than its column is shown in full. -/
theorem formatTableCells_rectangular (header : List Text) (body : List (List Text)) (aligns : List Align) :
    (∀ line ∈ formatTableCells header body aligns, ∀ other ∈ formatTableCells header body aligns,
        displayWidth line.shown = displayWidth other.shown) ∧
      ∀ i row col cell, (header :: body)[i]? = some row → row[col]? = some cell →
        ∃ width, (columnWidths (header :: body))[col]? = some width ∧ (displayWidth cell ≤ width →
          ∃ line before after, (formatTableCells header body aligns)[if i = 0 then 1 else i + 2]? = some line ∧
            line.cell col = some (spaces before ++ cell ++ spaces after)) := by
  refine ⟨fun line hline other hother => ?_, fun i row col cell hrow hcell => ?_⟩
  · rw [formatTableCells_width header body aligns line hline, formatTableCells_width header body aligns other hother]
  · obtain ⟨width, hwidth⟩ := exists_columnWidth (List.mem_of_getElem? hrow) (List.getElem?_eq_some_iff.mp hcell).1
    refine ⟨width, hwidth, fun hfits => ?_⟩
    obtain ⟨before, after, hshown⟩ := shownCell_eq hfits (aligns.getD col .left)
    have hget : row.getD col [] = cell := by rw [List.getD_eq_getElem?_getD, hcell, Option.getD_some]
    refine ⟨_, before, after, formatTableCells_row hrow aligns, ?_⟩
    rw [cell_dataRow row aligns _ hwidth, hget, hshown]

theorem formatTableCells_rectangular_one :
    ∃ width, (columnWidths [[['a']]])[0]? = some width ∧ (displayWidth ['a'] ≤ width →
      ∃ line before after, (formatTableCells [['a']] [] [])[1]? = some line ∧
        line.cell 0 = some (spaces before ++ ['a'] ++ spaces after)) :=
  (formatTableCells_rectangular [['a']] [] []).2 0 [['a']] 0 ['a'] rfl rfl

end Columns

end Kross.Tui

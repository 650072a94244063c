import Kross.SoftWrap
import Mathlib.Algebra.GroupWithZero.Nat

namespace Kross.Tui

abbrev Text := List Char

def isEastAsianWide (code : Nat) : Bool :=
  code = 0x3000 || (0xff01 ≤ code && code ≤ 0xff60) || (0xffe0 ≤ code && code ≤ 0xffe6) ||
    (0x1100 ≤ code && code ≤ 0x115f) || (0x2329 ≤ code && code ≤ 0x232a) || (0x2e80 ≤ code && code ≤ 0xa4cf) ||
    (0xac00 ≤ code && code ≤ 0xd7a3) || (0xf900 ≤ code && code ≤ 0xfaff) || (0xfe10 ≤ code && code ≤ 0xfe19) ||
    (0xfe30 ≤ code && code ≤ 0xfe6f) || (0x20000 ≤ code && code ≤ 0x3fffd)

def isCombining (code : Nat) : Bool :=
  (0x0300 ≤ code && code ≤ 0x036f) || (0x1ab0 ≤ code && code ≤ 0x1aff) || (0x1dc0 ≤ code && code ≤ 0x1dff) ||
    (0x20d0 ≤ code && code ≤ 0x20ff) || (0xfe00 ≤ code && code ≤ 0xfe0f) || (0xe0100 ≤ code && code ≤ 0xe01ef) ||
    code = 0x200d || code = 0x200b || code = 0x200c || code = 0xfeff

def isPictograph (code : Nat) : Bool :=
  (0x1f300 ≤ code && code ≤ 0x1faff) || (0x1f600 ≤ code && code ≤ 0x1f64f) || (0x1f900 ≤ code && code ≤ 0x1f9ff) ||
    (0x1fa00 ≤ code && code ≤ 0x1faff)

def charDisplayWidth (code : Nat) : Nat :=
  if code = 0 then 0
  else if code ≤ 0x1f || (0x7f ≤ code && code ≤ 0x9f) then 0
  else if isCombining code then 0
  else if isPictograph code then 2
  else if isEastAsianWide code then 2
  else 1

/-- Rows are filled by the display width, and end behind white space where they can. -/
def metric : SoftWrap.Metric Char where
  width c := charDisplayWidth c.toNat
  isBreak c := c = ' ' || c = '\t'

def displayWidth (text : Text) : Nat := metric.widthOf text

def countWrappedRows (text : Text) (columns : Nat) : Nat :=
  if text.length = 0 then 1 else max 1 ((displayWidth text + max 1 columns - 1) / max 1 columns)

section Widths

variable {text : Text} {columns : Nat}

theorem charDisplayWidth_le (code : Nat) : charDisplayWidth code ≤ 2 := by
  rw [charDisplayWidth]
  split_ifs <;> decide

theorem displayWidth_append (xs ys : Text) : displayWidth (xs ++ ys) = displayWidth xs + displayWidth ys :=
  SoftWrap.widthOf_append metric xs ys

theorem displayWidth_cons (c : Char) (text : Text) : displayWidth (c :: text) = charDisplayWidth c.toNat + displayWidth text :=
  rfl

theorem displayWidth_replicate (n : Nat) (c : Char) : displayWidth (List.replicate n c) = n * charDisplayWidth c.toNat := by
  induction n with
  | zero => rw [List.replicate_zero, Nat.zero_mul]; rfl
  | succ n ih => rw [List.replicate_succ, displayWidth_cons, ih, Nat.succ_mul, Nat.add_comm]

theorem displayWidth_flatMap {α : Type} (texts : List α) (f : α → Text) :
    displayWidth (texts.flatMap f) = (texts.map fun text => displayWidth (f text)).sum := by
  induction texts with
  | nil => rfl
  | cons text texts ih => rw [List.flatMap_cons, displayWidth_append, ih, List.map_cons, List.sum_cons]

theorem one_le_countWrappedRows (text : Text) (columns : Nat) : 1 ≤ countWrappedRows text columns := by
  rw [countWrappedRows]
  split_ifs
  · exact Nat.le_refl 1
  · exact Nat.le_max_left 1 _

/-- A text takes one row exactly when it is not wider than the terminal. -/
theorem countWrappedRows_eq_one (hcolumns : 0 < columns) :
    countWrappedRows text columns = 1 ↔ displayWidth text ≤ columns := by
  rw [countWrappedRows, Nat.max_eq_right hcolumns]
  split_ifs with hempty
  · rw [List.eq_nil_of_length_eq_zero hempty]
    exact iff_of_true rfl (Nat.zero_le columns)
  · generalize displayWidth text = width
    constructor
    · intro hone
      have hdiv : (width + columns - 1) / columns ≤ 1 := by omega
      have hlt := (Nat.div_lt_iff_lt_mul hcolumns).mp (Nat.lt_succ_of_le hdiv)
      omega
    · intro hle
      have hlt : (width + columns - 1) / columns < 2 := (Nat.div_lt_iff_lt_mul hcolumns).mpr (by omega)
      omega

end Widths

end Kross.Tui

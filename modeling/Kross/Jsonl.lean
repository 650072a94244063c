import Mathlib.Algebra.GroupWithZero.Nat
import Mathlib.Data.List.Basic
import Mathlib.Tactic.Common

namespace Kross.Jsonl

/-- The characters `String.prototype.trim` removes. -/
def isTrimmed (c : Char) : Bool :=
  let n := c.toNat
  (9 ≤ n && n ≤ 13) || n = 32 || n = 0xA0 || n = 0x1680 || (0x2000 ≤ n && n ≤ 0x200A) ||
    n = 0x2028 || n = 0x2029 || n = 0x202F || n = 0x205F || n = 0x3000 || n = 0xFEFF

def blank (line : List Char) : Bool := line.all isTrimmed

/-- The lines of a file that a reader looks at. -/
def records (file : List Char) : List (List Char) :=
  (file.splitOn '\n').filter (fun line => !blank line)

/-- What is read back of a text of which only the first `n` bytes were written:
a character cut in two decodes to the replacement character. -/
def torn : Nat → List Char → List Char
  | _, [] => []
  | n, c :: s =>
      if n = 0 then [] else if c.utf8Size ≤ n then c :: torn (n - c.utf8Size) s
      else [Char.ofNat 0xFFFD]

def byteLength (s : List Char) : Nat := (s.map Char.utf8Size).sum

def Terminated (file : List Char) : Prop := file.getLast?.all (· = '\n')

instance (file : List Char) : Decidable (Terminated file) :=
  inferInstanceAs (Decidable (_ = true))

theorem terminated_nil : Terminated [] := rfl

theorem terminated_concat (s : List Char) : Terminated (s ++ ['\n']) := by
  simp [Terminated]

theorem terminated_cases {file : List Char} (h : Terminated file) :
    file = [] ∨ ∃ s, file = s ++ ['\n'] := by
  rcases List.eq_nil_or_concat file with rfl | ⟨s, c, rfl⟩
  · exact Or.inl rfl
  · right
    have hc : c = '\n' := by simpa [Terminated] using h
    exact ⟨s, by simp [hc]⟩

theorem terminated_append {s t : List Char} (hs : Terminated s) (ht : Terminated t) :
    Terminated (s ++ t) := by
  rcases terminated_cases ht with rfl | ⟨t, rfl⟩
  · rwa [List.append_nil]
  · rw [← List.append_assoc]
    exact terminated_concat _

theorem records_nil : records [] = [] := by decide

theorem records_split (s t : List Char) : records (s ++ '\n' :: t) = records s ++ records t := by
  rw [records, List.splitOn_append_cons_self, List.filter_append]
  rfl

theorem records_append {file : List Char} (h : Terminated file) (s : List Char) :
    records (file ++ s) = records file ++ records s := by
  rcases terminated_cases h with rfl | ⟨t, rfl⟩
  · rw [records_nil]
    rfl
  · rw [List.append_assoc, List.singleton_append, records_split, records_split, records_nil,
      List.append_nil]

theorem records_of_notMem {s : List Char} (h : '\n' ∉ s) :
    records s = if blank s then [] else [s] := by
  rw [records, List.splitOn_eq_singleton h]
  cases hb : blank s <;> simp [hb]

theorem records_line {s : List Char} (h : '\n' ∉ s) :
    records (s ++ ['\n']) = if blank s then [] else [s] := by
  rw [records_split, records_nil, List.append_nil, records_of_notMem h]

theorem byteLength_append (s t : List Char) : byteLength (s ++ t) = byteLength s + byteLength t := by
  simp [byteLength]

theorem torn_of_le {n : Nat} {s : List Char} (h : byteLength s ≤ n) : torn n s = s := by
  induction s generalizing n with
  | nil => rfl
  | cons c s ih =>
      have hc := Char.utf8Size_pos c
      simp only [byteLength, List.map_cons, List.sum_cons] at h
      rw [torn, if_neg (by omega), if_pos (by omega), ih (by simp only [byteLength]; omega)]

/-- A text of which less than all bytes were written reads back as a proper
prefix, or as one with a replacement character behind it. -/
theorem torn_of_lt {n : Nat} {s : List Char} (h : n < byteLength s) :
    ∃ p c u, s = p ++ c :: u ∧ (torn n s = p ∨ torn n s = p ++ [Char.ofNat 0xFFFD]) := by
  induction s generalizing n with
  | nil => simp [byteLength] at h
  | cons c s ih =>
      simp only [byteLength, List.map_cons, List.sum_cons] at h
      rw [torn]
      split_ifs with h0 hc
      · exact ⟨[], c, s, rfl, Or.inl rfl⟩
      · obtain ⟨p, d, u, rfl, ht⟩ := ih (n := n - c.utf8Size) (by simp only [byteLength]; omega)
        refine ⟨c :: p, d, u, rfl, ?_⟩
        rcases ht with ht | ht <;> simp [ht]
      · exact ⟨[], c, s, rfl, Or.inr rfl⟩

theorem torn_append_of_le {n : Nat} {s : List Char} (h : byteLength s ≤ n) (t : List Char) :
    torn n (s ++ t) = s ++ torn (n - byteLength s) t := by
  induction s generalizing n with
  | nil => simp [byteLength]
  | cons c s ih =>
      have hc := Char.utf8Size_pos c
      simp only [byteLength, List.map_cons, List.sum_cons] at h
      rw [List.cons_append, torn, if_neg (by omega), if_pos (by omega),
        ih (by simp only [byteLength]; omega)]
      simp only [byteLength, List.map_cons, List.sum_cons, List.cons_append, Nat.sub_add_eq]

theorem torn_append_of_lt {n : Nat} {s : List Char} (h : n < byteLength s) (t : List Char) :
    torn n (s ++ t) = torn n s := by
  induction s generalizing n with
  | nil => simp [byteLength] at h
  | cons c s ih =>
      simp only [byteLength, List.map_cons, List.sum_cons] at h
      rw [List.cons_append, torn, torn]
      split_ifs with h0 hc
      · rfl
      · rw [ih (by simp only [byteLength]; omega)]
      · rfl

theorem torn_terminator (n : Nat) : torn n ['\n'] = [] ∨ torn n ['\n'] = ['\n'] := by
  cases n with
  | zero => exact Or.inl rfl
  | succ n => exact Or.inr (torn_of_le (show 1 ≤ n + 1 by omega))

end Kross.Jsonl

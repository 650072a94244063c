import Kross.Json
import Mathlib.Algebra.Group.Nat.Defs

namespace Kross.Json

theorem toDigits_head (n : Nat) : ∃ c s, Nat.toDigits 10 n = c :: s ∧ c.isDigit = true ∧ (c = '0' → s = []) := by
  induction n using Nat.strongRecOn with
  | ind n ih =>
      by_cases h : n < 10
      · refine ⟨n.digitChar, [], Nat.toDigits_of_lt_base h, ?_, fun _ => rfl⟩
        rw [Nat.isDigit_digitChar, decide_eq_true h]
      · have hpos : 0 < n / 10 := Nat.div_pos (Nat.le_of_not_lt h) (by decide)
        obtain ⟨c, s, hs, hc, h0⟩ := ih (n / 10) (Nat.div_lt_self (by omega) (by decide))
        refine ⟨c, s ++ [(n % 10).digitChar], ?_, hc, ?_⟩
        · rw [Nat.toDigits_of_base_le (by decide) (Nat.le_of_not_lt h), hs, List.cons_append]
        · intro hz
          have hv : Nat.ofDigitChars 10 (Nat.toDigits 10 (n / 10)) 0 = 0 := by
            rw [hs, h0 hz, hz]
            rfl
          rw [Nat.ofDigitChars_ten_toDigits] at hv
          omega

theorem toDigits_all (n : Nat) : (Nat.toDigits 10 n).all Char.isDigit = true :=
  List.all_eq_true.mpr (fun _ hc => Nat.isDigit_of_mem_toDigits (by decide) (by decide) hc)

theorem isNumber_toDigits (n : Nat) : isNumber (Nat.toDigits 10 n) = true := by
  have hall := toDigits_all n
  obtain ⟨c, s, hs, hc, h0⟩ := toDigits_head n
  rw [hs] at hall ⊢
  have hm : c ≠ '-' := by rintro rfl; revert hc; decide
  have hrest : s.dropWhile Char.isDigit = [] := by
    rw [List.dropWhile_eq_nil_iff]
    exact fun d hd => List.all_eq_true.mp hall d (List.mem_cons_of_mem _ hd)
  have hi : integerPart (c :: s) = true := by
    by_cases hz : c = '0'
    · rw [h0 hz, hz]
      rfl
    · rw [integerPart.eq_2 c s hz, hc, hrest]
      rfl
  have hn : (c :: s).all numberChar = true := by
    refine List.all_eq_true.mpr (fun d hd => ?_)
    simp [numberChar, List.all_eq_true.mp hall d hd]
  rw [isNumber, hn, Bool.true_and]
  · exact hi
  · exact fun t ht => hm (List.cons.inj ht).1

def Number.ofNat (n : Nat) : Number := ⟨Nat.toDigits 10 n, isNumber_toDigits n⟩

theorem isNumber_negative (n : Nat) : isNumber ('-' :: Nat.toDigits 10 n) = true := by
  have h := isNumber_toDigits n
  obtain ⟨c, s, hs, hc, -⟩ := toDigits_head n
  have hm : c ≠ '-' := by rintro rfl; revert hc; decide
  rw [hs] at h ⊢
  rw [isNumber, Bool.and_eq_true] at h
  · rw [isNumber, Bool.and_eq_true]
    exact ⟨by simpa [numberChar] using h.1, h.2⟩
  · exact fun t ht => hm (List.cons.inj ht).1

def Number.ofInt : Int → Number
  | .ofNat n => .ofNat n
  | .negSucc n => ⟨'-' :: Nat.toDigits 10 (n + 1), isNumber_negative (n + 1)⟩

/-- The part of a literal behind its integer digits: the digits of the fraction
and the exponent. -/
def fractionAndExponent : List Char → List Char × Int
  | '.' :: s => (s.takeWhile Char.isDigit, exponentOf (s.dropWhile Char.isDigit))
  | s => ([], exponentOf s)
where
  exponentOf : List Char → Int
    | _ :: '-' :: s => -(Nat.ofDigitChars 10 s 0 : Nat)
    | _ :: '+' :: s => (Nat.ofDigitChars 10 s 0 : Nat)
    | _ :: s => (Nat.ofDigitChars 10 s 0 : Nat)
    | [] => 0

def scaled (digits : Nat) (exponent : Int) : Option Nat :=
  if 0 ≤ exponent then some (digits * 10 ^ exponent.toNat)
  else if digits % 10 ^ (-exponent).toNat = 0 then some (digits / 10 ^ (-exponent).toNat)
  else none

def unsigned (s : List Char) : Option Nat :=
  let tail := fractionAndExponent (s.dropWhile Char.isDigit)
  scaled (Nat.ofDigitChars 10 (s.takeWhile Char.isDigit ++ tail.1) 0) (tail.2 - tail.1.length)

/-- The natural number a literal stands for, computed without rounding. -/
def Number.toNat? (n : Number) : Option Nat :=
  match n.text with
  | '-' :: s => (unsigned s).filter (· = 0)
  | s => unsigned s

theorem unsigned_toDigits (n : Nat) : unsigned (Nat.toDigits 10 n) = some n := by
  have hall := List.all_eq_true.mp (toDigits_all n)
  have hd : (Nat.toDigits 10 n).dropWhile Char.isDigit = [] := List.dropWhile_eq_nil_iff.mpr hall
  have ht : (Nat.toDigits 10 n).takeWhile Char.isDigit = Nat.toDigits 10 n := by
    rw [List.takeWhile_eq_self_iff]
    exact hall
  rw [unsigned, hd, ht]
  simp [fractionAndExponent, fractionAndExponent.exponentOf, scaled]

theorem toNat_ofNat (n : Nat) : (Number.ofNat n).toNat? = some n := by
  obtain ⟨c, s, hs, hc, -⟩ := toDigits_head n
  have hm : c ≠ '-' := by rintro rfl; revert hc; decide
  rw [Number.toNat?]
  split
  · rename_i heq
    exact absurd (List.cons.inj (hs.symm.trans heq)).1 hm
  · exact unsigned_toDigits n

example : (⟨['1', '.', '5', 'e', '1'], by decide⟩ : Number).toNat? = some 15 := by decide

end Kross.Json

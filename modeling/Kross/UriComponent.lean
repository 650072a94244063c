import Mathlib.Data.List.Basic
import Mathlib.Tactic.Common

namespace Kross.UriComponent

/-- The bytes that `encodeURIComponent` leaves as they are: letters, digits and
the marks `! ' ( ) * - . _ ~`. -/
def unreserved (n : Nat) : Bool :=
  (48 ≤ n && n ≤ 57) || (65 ≤ n && n ≤ 90) || (97 ≤ n && n ≤ 122) ||
    [33, 39, 40, 41, 42, 45, 46, 95, 126].contains n

def upperHex (n : Nat) : Char := if n < 10 then Char.ofNat (48 + n) else Char.ofNat (55 + n)

def encodeByte (b : UInt8) : List Char :=
  if unreserved b.toNat then [Char.ofNat b.toNat]
  else ['%', upperHex (b.toNat / 16), upperHex (b.toNat % 16)]

def encodeURIComponent (s : String) : List Char := s.toUTF8.data.toList.flatMap encodeByte

theorem upperHex_inj : ∀ m < 16, ∀ n < 16, upperHex m = upperHex n → m = n := by decide

theorem toNat_ofByte (b : UInt8) : (Char.ofNat b.toNat).toNat = b.toNat := by
  have hb := b.toNat_lt
  rw [Char.ofNat, dif_pos (Or.inl (by omega))]
  rfl

theorem ofByte_inj {a b : UInt8} (h : Char.ofNat a.toNat = Char.ofNat b.toNat) : a = b := by
  have hn := congrArg Char.toNat h
  rw [toNat_ofByte, toNat_ofByte] at hn
  exact UInt8.toNat_inj.mp hn

theorem ofByte_ne_percent {b : UInt8} (h : unreserved b.toNat = true) : Char.ofNat b.toNat ≠ '%' := by
  intro he
  have hn : b.toNat = 37 := (toNat_ofByte b).symm.trans (congrArg Char.toNat he)
  rw [hn] at h
  revert h
  decide

theorem encodeByte_append_inj {a b : UInt8} {s t : List Char}
    (h : encodeByte a ++ s = encodeByte b ++ t) : a = b ∧ s = t := by
  unfold encodeByte at h
  split_ifs at h with ha hb hb
  · obtain ⟨hc, rfl⟩ := List.cons.inj h
    exact ⟨ofByte_inj hc, rfl⟩
  · exact absurd (List.cons.inj h).1 (ofByte_ne_percent ha)
  · exact absurd (List.cons.inj h).1.symm (ofByte_ne_percent hb)
  · simp only [List.cons_append, List.nil_append, List.cons.injEq, true_and] at h
    obtain ⟨h1, h2, rfl⟩ := h
    have hd := upperHex_inj _ (by have := a.toNat_lt; omega) _ (by have := b.toNat_lt; omega) h1
    have hm := upperHex_inj _ (by omega) _ (by omega) h2
    exact ⟨UInt8.toNat_inj.mp (by omega), rfl⟩

theorem encodeBytes_injective : Function.Injective (List.flatMap encodeByte) := by
  have hne : ∀ b s, encodeByte b ++ s ≠ [] := by
    intro b s
    unfold encodeByte
    split_ifs <;> simp
  intro s
  induction s with
  | nil =>
      intro t h
      cases t with
      | nil => rfl
      | cons b t => exact absurd h.symm (hne b _)
  | cons a s ih =>
      intro t h
      cases t with
      | nil => exact absurd h (hne a _)
      | cons b t =>
          obtain ⟨rfl, hst⟩ := encodeByte_append_inj h
          rw [ih hst]

/-- Different names never get one encoding. -/
theorem encodeURIComponent_injective : Function.Injective encodeURIComponent := by
  intro s t h
  have hb : s.toUTF8.data.toList = t.toUTF8.data.toList := encodeBytes_injective h
  have ha : s.toUTF8 = t.toUTF8 := ByteArray.ext (Array.toList_inj.mp hb)
  exact String.toByteArray_inj.mp ha

end Kross.UriComponent

import Kross.Utf8

namespace Kross.Utf8

def isLead (b : UInt8) : Prop := b.toNat < 0x80 ∨ 0xC2 ≤ b.toNat ∧ b.toNat ≤ 0xF4

instance (b : UInt8) : Decidable (isLead b) := inferInstanceAs (Decidable (_ ∨ _))

/-- The character in which the bytes end, unless there is a byte among them that no text has there. -/
def strict : Option Pending → List UInt8 → Option (Option Pending)
  | state, [] => some state
  | none, b :: bytes => if isLead b then strict (start b).1 bytes else none
  | some p, b :: bytes => if p.continues b then strict (p.add b).1 bytes else none

/-- A decoder that refuses what is not the encoding of a text. -/
def decodeFatal (bytes : List UInt8) : Option (List Char) :=
  if strict none bytes = some none then some (feed none bytes).2 else none

section Accepting

variable {b : UInt8} {bytes xs ys : List UInt8} {p : Pending} {state : Option Pending} {n : Nat}

theorem strict_append (state : Option Pending) (xs ys : List UInt8) :
    strict state (xs ++ ys) = (strict state xs).bind fun middle => strict middle ys := by
  induction xs generalizing state with
  | nil => cases state <;> rfl
  | cons b xs ih =>
      cases state with
      | none =>
          rw [List.cons_append, strict, strict]
          split_ifs
          · exact ih _
          · rfl
      | some p =>
          rw [List.cons_append, strict, strict]
          split_ifs
          · exact ih _
          · rfl

theorem strict_lead {text : List Char} (hn : n < 0x80 ∨ 0xC2 ≤ n ∧ n ≤ 0xF4)
    (h : start (UInt8.ofNat n) = (state, text)) :
    strict none (UInt8.ofNat n :: bytes) = strict state bytes := by
  have hlead : isLead (UInt8.ofNat n) := by
    rw [isLead, toNat_byte (by omega)]
    exact hn
  rw [strict, if_pos hlead, h]

theorem strict_last {low up point : Nat} (h : n < 64) (hlow : low ≤ 0x80 + n) (hup : 0x80 + n ≤ up) :
    strict (some ⟨1, low, up, point⟩) (UInt8.ofNat (0x80 + n) :: bytes) = strict none bytes := by
  rw [strict, if_pos (continues_byte h hlow hup), Pending.add]
  rfl

theorem strict_more {more low up point : Nat} (h : n < 64) (hlow : low ≤ 0x80 + n) (hup : 0x80 + n ≤ up) :
    strict (some ⟨more + 2, low, up, point⟩) (UInt8.ofNat (0x80 + n) :: bytes) =
      strict (some ⟨more + 1, 0x80, 0xBF, point * 64 + n⟩) bytes := by
  rw [strict, if_pos (continues_byte h hlow hup), Pending.add, toNat_byte (by omega), Nat.add_sub_cancel_left]
  simp

theorem strict_encodeChar (c : Char) (bytes : List UInt8) : strict none (encodeChar c ++ bytes) = strict none bytes := by
  have hvalid : c.toNat < 0xD800 ∨ 0xDFFF < c.toNat ∧ c.toNat < 0x110000 := c.valid
  unfold encodeChar
  generalize c.toNat = n at hvalid
  dsimp only
  split_ifs with h1 h2 h3
  · exact strict_lead (by omega) (start_one h1)
  · rw [List.cons_append, strict_lead (by omega) (start_two (by omega) (by omega))]
    exact strict_last (by omega) (by omega) (by omega)
  · have hlow : (if n / 4096 = 0 then 0xA0 else 0x80) ≤ 0x80 + n / 64 % 64 := by split_ifs <;> omega
    have hup : 0x80 + n / 64 % 64 ≤ (if n / 4096 = 13 then 0x9F else 0xBF) := by split_ifs <;> omega
    rw [List.cons_append, strict_lead (by omega) (start_three (by omega)), List.cons_append,
      strict_more (by omega) hlow hup]
    exact strict_last (by omega) (by omega) (by omega)
  · have hlow : (if n / 262144 = 0 then 0x90 else 0x80) ≤ 0x80 + n / 4096 % 64 := by split_ifs <;> omega
    have hup : 0x80 + n / 4096 % 64 ≤ (if n / 262144 = 4 then 0x8F else 0xBF) := by split_ifs <;> omega
    rw [List.cons_append, strict_lead (by omega) (start_four (by omega)), List.cons_append,
      strict_more (by omega) hlow hup, List.cons_append, strict_more (by omega) (by omega) (by omega)]
    exact strict_last (by omega) (by omega) (by omega)

theorem encode_cons (c : Char) (text : List Char) : encode (c :: text) = encodeChar c ++ encode text := List.flatMap_cons

theorem encode_append (text more : List Char) : encode (text ++ more) = encode text ++ encode more := List.flatMap_append

theorem strict_encode (text : List Char) : strict none (encode text) = some none := by
  induction text with
  | nil => rfl
  | cons c text ih => rw [encode_cons, strict_encodeChar, ih]

theorem decodeFatal_encode (text : List Char) : decodeFatal (encode text) = some text := by
  rw [decodeFatal, if_pos (strict_encode text), feed_encode]

end Accepting

section Characters

variable {b : UInt8} {bytes : List UInt8} {n : Nat}

theorem exists_char (h : n < 0xD800 ∨ 0xDFFF < n ∧ n < 0x110000) : ∃ c : Char, c.toNat = n := by
  refine ⟨Char.ofNat n, ?_⟩
  rw [Char.ofNat, dif_pos h]
  rfl

theorem byte_eq (h : n = b.toNat) : UInt8.ofNat n = b := by
  rw [h, UInt8.ofNat_toNat]

/-- A byte that goes on with a character is there, and what it leaves is accepted. -/
theorem strict_pending {p : Pending} (h : strict (some p) bytes = some none) :
    ∃ b rest, bytes = b :: rest ∧ p.continues b ∧ strict (p.add b).1 rest = some none := by
  cases bytes with
  | nil => cases h
  | cons b rest =>
      rw [strict] at h
      split_ifs at h with hb
      exact ⟨b, rest, rfl, hb, h⟩

theorem add_one {low up point : Nat} : (Pending.add ⟨1, low, up, point⟩ b).1 = none := rfl

theorem add_more {more low up point : Nat} :
    (Pending.add ⟨more + 2, low, up, point⟩ b).1 = some ⟨more + 1, 0x80, 0xBF, point * 64 + (b.toNat - 0x80)⟩ := by
  simp [Pending.add]

theorem strict_one {point low up : Nat} (h : strict (some ⟨1, low, up, point⟩) bytes = some none) :
    ∃ b rest, bytes = b :: rest ∧ low ≤ b.toNat ∧ b.toNat ≤ up ∧ strict none rest = some none := by
  obtain ⟨b, rest, rfl, hb, hrest⟩ := strict_pending h
  exact ⟨b, rest, rfl, hb.1, hb.2, hrest⟩

theorem strict_two {more point low up : Nat} (h : strict (some ⟨more + 2, low, up, point⟩) bytes = some none) :
    ∃ b rest, bytes = b :: rest ∧ low ≤ b.toNat ∧ b.toNat ≤ up ∧
      strict (some ⟨more + 1, 0x80, 0xBF, point * 64 + (b.toNat - 0x80)⟩) rest = some none := by
  obtain ⟨b, rest, rfl, hb, hrest⟩ := strict_pending h
  exact ⟨b, rest, rfl, hb.1, hb.2, add_more ▸ hrest⟩

section Lengths

variable {b1 b2 b3 : UInt8}

/-- A byte after the first of a character. -/
def isTail (b : UInt8) : Prop := 0x80 ≤ b.toNat ∧ b.toNat ≤ 0xBF

theorem exists_encodeChar_one (h : b.toNat < 0x80) : ∃ c, encodeChar c = [b] := by
  obtain ⟨c, hc⟩ := exists_char (n := b.toNat) (by omega)
  refine ⟨c, ?_⟩
  rw [encodeChar, hc, if_pos h, byte_eq rfl]

theorem exists_encodeChar_two (h : 0xC2 ≤ b.toNat ∧ b.toNat ≤ 0xDF) (h1 : isTail b1) :
    ∃ c, encodeChar c = [b, b1] := by
  rw [isTail] at h1
  obtain ⟨c, hc⟩ := exists_char (n := (b.toNat - 0xC0) * 64 + (b1.toNat - 0x80)) (by omega)
  refine ⟨c, ?_⟩
  rw [encodeChar, hc]
  rw [if_neg (by omega), if_pos (by omega), byte_eq (b := b) (by omega), byte_eq (b := b1) (by omega)]

theorem exists_encodeChar_three (h : 0xE0 ≤ b.toNat ∧ b.toNat ≤ 0xEF) (h1 : isTail b1) (h2 : isTail b2)
    (hlow : b.toNat = 0xE0 → 0xA0 ≤ b1.toNat) (hup : b.toNat = 0xED → b1.toNat ≤ 0x9F) :
    ∃ c, encodeChar c = [b, b1, b2] := by
  rw [isTail] at h1 h2
  obtain ⟨c, hc⟩ := exists_char (n := ((b.toNat - 0xE0) * 64 + (b1.toNat - 0x80)) * 64 + (b2.toNat - 0x80)) (by omega)
  refine ⟨c, ?_⟩
  rw [encodeChar, hc]
  rw [if_neg (by omega), if_neg (by omega), if_pos (by omega), byte_eq (b := b) (by omega),
    byte_eq (b := b1) (by omega), byte_eq (b := b2) (by omega)]

theorem exists_encodeChar_four (h : 0xF0 ≤ b.toNat ∧ b.toNat ≤ 0xF4) (h1 : isTail b1) (h2 : isTail b2)
    (h3 : isTail b3) (hlow : b.toNat = 0xF0 → 0x90 ≤ b1.toNat) (hup : b.toNat = 0xF4 → b1.toNat ≤ 0x8F) :
    ∃ c, encodeChar c = [b, b1, b2, b3] := by
  rw [isTail] at h1 h2 h3
  obtain ⟨c, hc⟩ := exists_char (n := (((b.toNat - 0xF0) * 64 + (b1.toNat - 0x80)) * 64 + (b2.toNat - 0x80)) * 64 +
    (b3.toNat - 0x80)) (by omega)
  refine ⟨c, ?_⟩
  rw [encodeChar, hc]
  rw [if_neg (by omega), if_neg (by omega), if_neg (by omega), byte_eq (b := b) (by omega),
    byte_eq (b := b1) (by omega), byte_eq (b := b2) (by omega), byte_eq (b := b3) (by omega)]

end Lengths

/-- What is accepted begins with a character. -/
theorem strict_cons (h : strict none (b :: bytes) = some none) :
    ∃ c rest, b :: bytes = encodeChar c ++ rest ∧ strict none rest = some none := by
  rw [strict] at h
  split_ifs at h with hlead
  rw [isLead] at hlead
  by_cases h1 : b.toNat < 0x80
  · rw [start, if_pos h1] at h
    obtain ⟨c, hc⟩ := exists_encodeChar_one h1
    exact ⟨c, bytes, by rw [hc]; rfl, h⟩
  by_cases h2 : 0xC2 ≤ b.toNat ∧ b.toNat ≤ 0xDF
  · rw [start, if_neg h1, if_pos h2] at h
    obtain ⟨b1, rest, rfl, hlow, hup, hrest⟩ := strict_one h
    obtain ⟨c, hc⟩ := exists_encodeChar_two h2 ⟨hlow, hup⟩
    exact ⟨c, rest, by rw [hc]; rfl, hrest⟩
  by_cases h3 : 0xE0 ≤ b.toNat ∧ b.toNat ≤ 0xEF
  · rw [start, if_neg h1, if_neg h2, if_pos h3] at h
    obtain ⟨b1, rest, rfl, hlow, hup, h⟩ := strict_two h
    obtain ⟨b2, rest, rfl, hlow2, hup2, hrest⟩ := strict_one h
    have htail : isTail b1 := by
      constructor
      · split_ifs at hlow <;> omega
      · split_ifs at hup <;> omega
    obtain ⟨c, hc⟩ := exists_encodeChar_three h3 htail ⟨hlow2, hup2⟩ (fun he => by rwa [if_pos he] at hlow)
      (fun he => by rwa [if_pos he] at hup)
    exact ⟨c, rest, by rw [hc]; rfl, hrest⟩
  · have h4 : 0xF0 ≤ b.toNat ∧ b.toNat ≤ 0xF4 := by omega
    rw [start, if_neg h1, if_neg h2, if_neg h3, if_pos h4] at h
    obtain ⟨b1, rest, rfl, hlow, hup, h⟩ := strict_two h
    obtain ⟨b2, rest, rfl, hlow2, hup2, h⟩ := strict_two h
    obtain ⟨b3, rest, rfl, hlow3, hup3, hrest⟩ := strict_one h
    have htail : isTail b1 := by
      constructor
      · split_ifs at hlow <;> omega
      · split_ifs at hup <;> omega
    obtain ⟨c, hc⟩ := exists_encodeChar_four h4 htail ⟨hlow2, hup2⟩ ⟨hlow3, hup3⟩ (fun he => by rwa [if_pos he] at hlow)
      (fun he => by rwa [if_pos he] at hup)
    exact ⟨c, rest, by rw [hc]; rfl, hrest⟩

theorem length_encodeChar (c : Char) : 1 ≤ (encodeChar c).length ∧ (encodeChar c).length ≤ 4 := by
  unfold encodeChar
  dsimp only
  split_ifs <;> constructor <;> exact of_decide_eq_true rfl

/-- The decoder that refuses accepts the encodings of texts, and nothing else. -/
theorem strict_iff : strict none bytes = some none ↔ ∃ text, encode text = bytes := by
  constructor
  · intro h
    induction hlength : bytes.length using Nat.strongRecOn generalizing bytes with
    | ind n ih =>
        cases bytes with
        | nil => exact ⟨[], rfl⟩
        | cons b bytes =>
            obtain ⟨c, rest, hbytes, hrest⟩ := strict_cons h
            have hlt : rest.length < n := by
              have hpos := (length_encodeChar c).1
              rw [← hlength, hbytes, List.length_append]
              omega
            obtain ⟨text, rfl⟩ := ih rest.length hlt hrest rfl
            exact ⟨c :: text, by rw [encode_cons, hbytes]⟩
  · rintro ⟨text, rfl⟩
    exact strict_encode text

theorem decodeFatal_eq_some {text : List Char} : decodeFatal bytes = some text ↔ bytes = encode text := by
  constructor
  · intro h
    rw [decodeFatal] at h
    split_ifs at h with hstrict
    obtain ⟨t, rfl⟩ := strict_iff.mp hstrict
    rw [feed_encode] at h
    cases h
    rfl
  · rintro rfl
    exact decodeFatal_encode text

end Characters

section Boundaries

variable {text head tail : List Char} {rest front : List UInt8} {p : Pending} {n : Nat}

theorem encode_injective (h : encode text = encode head) : text = head := by
  have hdecode := congrArg decodeFatal h
  rw [decodeFatal_encode, decodeFatal_encode] at hdecode
  exact Option.some.inj hdecode

theorem encode_left (h : encode text = encode head ++ rest) : ∃ more, text = head ++ more ∧ rest = encode more := by
  have hrest : strict none rest = some none := by
    have hstrict := strict_encode text
    rwa [h, strict_append, strict_encode, Option.bind_some] at hstrict
  obtain ⟨more, rfl⟩ := strict_iff.mp hrest
  rw [← encode_append] at h
  exact ⟨more, encode_injective h, rfl⟩

theorem sound_strict {state : Option Pending} {bytes : List UInt8} (hstate : ∀ q ∈ state, q.Sound)
    (h : strict state bytes = some (some p)) : p.Sound := by
  induction bytes generalizing state with
  | nil =>
      cases state with
      | none => cases h
      | some q =>
          cases h
          exact hstate p rfl
  | cons b bytes ih =>
      cases state with
      | none =>
          rw [strict] at h
          split_ifs at h
          exact ih (fun _ => sound_start) h
      | some q =>
          rw [strict] at h
          split_ifs at h
          exact ih (fun _ => sound_add) h

theorem lead_encodeChar (c : Char) : ∃ b bytes, encodeChar c = b :: bytes ∧ isLead b := by
  have hlength := (length_encodeChar c).1
  have hstrict : strict none (encodeChar c) = some none := by
    have hend := strict_encodeChar c []
    rwa [List.append_nil] at hend
  cases hbytes : encodeChar c with
  | nil => rw [hbytes] at hlength; cases hlength
  | cons b bytes =>
      rw [hbytes, strict] at hstrict
      split_ifs at hstrict with hb
      exact ⟨b, bytes, rfl, hb⟩

/-- No character that is begun goes on with the first byte of another. -/
theorem not_continues_lead {b : UInt8} (hp : p.Sound) (hb : isLead b) : ¬ p.continues b := by
  rintro ⟨hlow, hup⟩
  have hsound : 0x80 ≤ p.lower ∧ p.upper ≤ 0xBF := hp
  rw [isLead] at hb
  omega

theorem encode_right (h : encode text = front ++ encode tail) : ∃ before, text = before ++ tail ∧ front = encode before := by
  have hstrict := strict_encode text
  rw [h, strict_append] at hstrict
  obtain ⟨state, hfront, htail⟩ := Option.bind_eq_some_iff.mp hstrict
  have hnone : state = none := by
    cases state with
    | none => rfl
    | some p =>
        cases tail with
        | nil => cases htail
        | cons c tail =>
            obtain ⟨b, bytes, hc, hb⟩ := lead_encodeChar c
            have hp : p.Sound := sound_strict (by simp) hfront
            rw [encode_cons, hc, List.cons_append, strict, if_neg (not_continues_lead hp hb)] at htail
            cases htail
  rw [hnone] at hfront
  obtain ⟨before, rfl⟩ := strict_iff.mp hfront
  rw [← encode_append] at h
  exact ⟨before, encode_injective h, rfl⟩

/-- A character ends, or none has begun, at most three bytes before a byte. -/
theorem boundary_before (text : List Char) (h : n ≤ (encode text).length) :
    ∃ head more, text = head ++ more ∧ (encode head).length ≤ n ∧ n ≤ (encode head).length + 3 := by
  induction text generalizing n with
  | nil => exact ⟨[], [], rfl, Nat.zero_le n, Nat.le_add_right_of_le h⟩
  | cons c text ih =>
      have hchar := length_encodeChar c
      rw [encode_cons, List.length_append] at h
      by_cases hn : n < (encodeChar c).length
      · refine ⟨[], c :: text, rfl, Nat.zero_le n, ?_⟩
        show n ≤ 0 + 3
        omega
      · obtain ⟨head, more, rfl, hle, hge⟩ := ih (n := n - (encodeChar c).length) (by omega)
        refine ⟨c :: head, more, rfl, ?_, ?_⟩
        · rw [encode_cons, List.length_append]
          omega
        · rw [encode_cons, List.length_append]
          omega

theorem boundary_after (text : List Char) (h : n ≤ (encode text).length) :
    ∃ head more, text = head ++ more ∧ n ≤ (encode head).length ∧ (encode head).length ≤ n + 3 := by
  induction text generalizing n with
  | nil => exact ⟨[], [], rfl, h, Nat.zero_le _⟩
  | cons c text ih =>
      have hchar := length_encodeChar c
      rw [encode_cons, List.length_append] at h
      by_cases hzero : n = 0
      · exact ⟨[], c :: text, rfl, Nat.le_of_eq hzero, Nat.zero_le _⟩
      by_cases hn : n ≤ (encodeChar c).length
      · refine ⟨[c], text, rfl, ?_, ?_⟩
        · rw [encode_cons, List.length_append]
          omega
        · rw [encode_cons, List.length_append]
          show _ + 0 ≤ _
          omega
      · obtain ⟨head, more, rfl, hle, hge⟩ := ih (n := n - (encodeChar c).length) (by omega)
        refine ⟨c :: head, more, rfl, ?_, ?_⟩
        · rw [encode_cons, List.length_append]
          omega
        · rw [encode_cons, List.length_append]
          omega

end Boundaries

end Kross.Utf8

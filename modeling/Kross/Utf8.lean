import Mathlib.Data.List.Basic
import Mathlib.Tactic.Common

namespace Kross.Utf8

/-- A character of which bytes are still to come, the next of them in a range. -/
structure Pending where
  needed : Nat
  lower : Nat
  upper : Nat
  point : Nat
  deriving DecidableEq

def replacement : Char := '\uFFFD'

def start (b : UInt8) : Option Pending × List Char :=
  let n := b.toNat
  if n < 0x80 then (none, [Char.ofNat n])
  else if 0xC2 ≤ n ∧ n ≤ 0xDF then (some ⟨1, 0x80, 0xBF, n - 0xC0⟩, [])
  else if 0xE0 ≤ n ∧ n ≤ 0xEF then
    (some ⟨2, if n = 0xE0 then 0xA0 else 0x80, if n = 0xED then 0x9F else 0xBF, n - 0xE0⟩, [])
  else if 0xF0 ≤ n ∧ n ≤ 0xF4 then
    (some ⟨3, if n = 0xF0 then 0x90 else 0x80, if n = 0xF4 then 0x8F else 0xBF, n - 0xF0⟩, [])
  else (none, [replacement])

def Pending.continues (p : Pending) (b : UInt8) : Prop := p.lower ≤ b.toNat ∧ b.toNat ≤ p.upper

instance (p : Pending) (b : UInt8) : Decidable (p.continues b) := inferInstanceAs (Decidable (_ ∧ _))

def Pending.add (p : Pending) (b : UInt8) : Option Pending × List Char :=
  let point := p.point * 64 + (b.toNat - 0x80)
  if p.needed = 1 then (none, [Char.ofNat point]) else (some ⟨p.needed - 1, 0x80, 0xBF, point⟩, [])

/-- The UTF-8 decoder: a byte that cannot go on with a character replaces what there is of it, and starts anew. -/
def step (state : Option Pending) (b : UInt8) : Option Pending × List Char :=
  match state with
  | none => start b
  | some p => if p.continues b then p.add b else ((start b).1, replacement :: (start b).2)

def feed : Option Pending → List UInt8 → Option Pending × List Char
  | state, [] => (state, [])
  | state, b :: bytes => ((feed (step state b).1 bytes).1, (step state b).2 ++ (feed (step state b).1 bytes).2)

def flush : Option Pending → List Char
  | none => []
  | some _ => [replacement]

def finish (state : Option Pending) (bytes : List UInt8) : List Char := (feed state bytes).2 ++ flush (feed state bytes).1

/-- `toString('utf8')` -/
def decode (bytes : List UInt8) : List Char := finish none bytes

def encodeChar (c : Char) : List UInt8 :=
  let n := c.toNat
  if n < 0x80 then [UInt8.ofNat n]
  else if n < 0x800 then [UInt8.ofNat (0xC0 + n / 64), UInt8.ofNat (0x80 + n % 64)]
  else if n < 0x10000 then
    [UInt8.ofNat (0xE0 + n / 4096), UInt8.ofNat (0x80 + n / 64 % 64), UInt8.ofNat (0x80 + n % 64)]
  else
    [UInt8.ofNat (0xF0 + n / 262144), UInt8.ofNat (0x80 + n / 4096 % 64), UInt8.ofNat (0x80 + n / 64 % 64),
      UInt8.ofNat (0x80 + n % 64)]

def encode (text : List Char) : List UInt8 := text.flatMap encodeChar

section Feeding

variable {state : Option Pending} {xs ys : List UInt8}

theorem feed_append (state : Option Pending) (xs ys : List UInt8) :
    feed state (xs ++ ys) =
      ((feed (feed state xs).1 ys).1, (feed state xs).2 ++ (feed (feed state xs).1 ys).2) := by
  induction xs generalizing state with
  | nil => rfl
  | cons b xs ih => simp only [List.cons_append, feed, ih, List.append_assoc]

theorem finish_append (state : Option Pending) (xs ys : List UInt8) :
    finish state (xs ++ ys) = (feed state xs).2 ++ finish (feed state xs).1 ys := by
  rw [finish, feed_append, List.append_assoc, finish]

theorem finish_cons (state : Option Pending) (b : UInt8) (bytes : List UInt8) :
    finish state (b :: bytes) = (step state b).2 ++ finish (step state b).1 bytes := by
  rw [finish, feed, List.append_assoc, finish]

end Feeding

section RoundTrip

variable {n : Nat}

theorem toNat_byte (h : n < 256) : (UInt8.ofNat n).toNat = n := UInt8.toNat_ofNat_of_lt' h

theorem start_one (h : n < 0x80) : start (UInt8.ofNat n) = (none, [Char.ofNat n]) := by
  rw [start, toNat_byte (by omega), if_pos h]

theorem start_two (hlow : 2 ≤ n) (h : n < 32) :
    start (UInt8.ofNat (0xC0 + n)) = (some ⟨1, 0x80, 0xBF, n⟩, []) := by
  rw [start, toNat_byte (by omega), if_neg (by omega), if_pos (by omega)]
  simp

theorem start_three (h : n < 16) :
    start (UInt8.ofNat (0xE0 + n)) =
      (some ⟨2, if n = 0 then 0xA0 else 0x80, if n = 13 then 0x9F else 0xBF, n⟩, []) := by
  rw [start, toNat_byte (by omega), if_neg (by omega), if_neg (by omega), if_pos (by omega)]
  have hlast : (0xE0 + n = 0xED) = (n = 13) := propext (by omega)
  simp [hlast]

theorem start_four (h : n < 5) :
    start (UInt8.ofNat (0xF0 + n)) =
      (some ⟨3, if n = 0 then 0x90 else 0x80, if n = 4 then 0x8F else 0xBF, n⟩, []) := by
  rw [start, toNat_byte (by omega), if_neg (by omega), if_neg (by omega), if_neg (by omega), if_pos (by omega)]
  have hlast : (0xF0 + n = 0xF4) = (n = 4) := propext (by omega)
  simp [hlast]

theorem feed_start {b : UInt8} {p : Pending} (h : start b = (some p, [])) (bytes : List UInt8) :
    feed none (b :: bytes) = feed (some p) bytes := by
  rw [feed, step, h]
  rfl

theorem continues_byte {p : Pending} (h : n < 64) (hlow : p.lower ≤ 0x80 + n) (hup : 0x80 + n ≤ p.upper) :
    p.continues (UInt8.ofNat (0x80 + n)) := by
  rw [Pending.continues, toNat_byte (by omega)]
  exact ⟨hlow, hup⟩

theorem feed_last {low up point : Nat} (h : n < 64) (hlow : low ≤ 0x80 + n) (hup : 0x80 + n ≤ up) :
    feed (some ⟨1, low, up, point⟩) [UInt8.ofNat (0x80 + n)] = (none, [Char.ofNat (point * 64 + n)]) := by
  rw [feed, step, if_pos (continues_byte h hlow hup), Pending.add, toNat_byte (by omega), Nat.add_sub_cancel_left]
  rfl

theorem feed_more {more low up point : Nat} (h : n < 64) (hlow : low ≤ 0x80 + n) (hup : 0x80 + n ≤ up)
    (bytes : List UInt8) :
    feed (some ⟨more + 2, low, up, point⟩) (UInt8.ofNat (0x80 + n) :: bytes) =
      feed (some ⟨more + 1, 0x80, 0xBF, point * 64 + n⟩) bytes := by
  rw [feed, step, if_pos (continues_byte h hlow hup), Pending.add, toNat_byte (by omega), Nat.add_sub_cancel_left]
  simp

theorem feed_encodeChar (c : Char) : feed none (encodeChar c) = (none, [c]) := by
  have hvalid : c.toNat < 0xD800 ∨ 0xDFFF < c.toNat ∧ c.toNat < 0x110000 := c.valid
  have hc := Char.ofNat_toNat c
  unfold encodeChar
  generalize c.toNat = n at hvalid hc
  dsimp only
  split_ifs with h1 h2 h3
  · rw [feed, step, start_one h1, hc]
    rfl
  · have hpoint : n / 64 * 64 + n % 64 = n := by omega
    rw [feed_start (start_two (by omega) (by omega)), feed_last (by omega) (by omega) (by omega), hpoint, hc]
  · have hlow : (if n / 4096 = 0 then 0xA0 else 0x80) ≤ 0x80 + n / 64 % 64 := by split_ifs <;> omega
    have hup : 0x80 + n / 64 % 64 ≤ (if n / 4096 = 13 then 0x9F else 0xBF) := by split_ifs <;> omega
    have hpoint : (n / 4096 * 64 + n / 64 % 64) * 64 + n % 64 = n := by omega
    rw [feed_start (start_three (by omega)), feed_more (by omega) hlow hup, feed_last (by omega) (by omega) (by omega),
      hpoint, hc]
  · have hlow : (if n / 262144 = 0 then 0x90 else 0x80) ≤ 0x80 + n / 4096 % 64 := by split_ifs <;> omega
    have hup : 0x80 + n / 4096 % 64 ≤ (if n / 262144 = 4 then 0x8F else 0xBF) := by split_ifs <;> omega
    have hpoint : ((n / 262144 * 64 + n / 4096 % 64) * 64 + n / 64 % 64) * 64 + n % 64 = n := by omega
    rw [feed_start (start_four (by omega)), feed_more (by omega) hlow hup,
      feed_more (by omega) (by omega) (by omega), feed_last (by omega) (by omega) (by omega), hpoint, hc]

theorem feed_encode (text : List Char) : feed none (encode text) = (none, text) := by
  induction text with
  | nil => rfl
  | cons c text ih =>
      have hcons : encode (c :: text) = encodeChar c ++ encode text := List.flatMap_cons
      rw [hcons, feed_append, feed_encodeChar, ih]
      rfl

theorem decode_encode (text : List Char) : decode (encode text) = text := by
  rw [decode, finish, feed_encode]
  exact List.append_nil text

end RoundTrip

section Cuts

/-- Only a continuation byte goes on with a character. -/
def Pending.Sound (p : Pending) : Prop := 0x80 ≤ p.lower ∧ p.upper ≤ 0xBF

/-- The bytes end inside a character with which those that follow go on. -/
def Splits (xs ys : List UInt8) : Prop := ∃ p ∈ (feed none xs).1, ∃ b ∈ ys.head?, p.continues b

instance (xs ys : List UInt8) : Decidable (Splits xs ys) := by
  unfold Splits
  infer_instance

variable {b : UInt8} {p q : Pending} {state : Option Pending} {xs ys : List UInt8}

theorem sound_start (h : p ∈ (start b).1) : p.Sound := by
  unfold start at h
  dsimp only at h
  split_ifs at h <;> cases h <;> constructor <;> dsimp only <;> omega

theorem add_cases (p : Pending) (b : UInt8) :
    (∃ c, p.add b = (none, [c])) ∨ ∃ q, q.Sound ∧ p.add b = (some q, []) := by
  rw [Pending.add]
  split_ifs
  · exact .inl ⟨_, rfl⟩
  · exact .inr ⟨_, ⟨Nat.le_refl 0x80, Nat.le_refl 0xBF⟩, rfl⟩

theorem sound_add (h : q ∈ (p.add b).1) : q.Sound := by
  rcases add_cases p b with ⟨c, hadd⟩ | ⟨q, hq, hadd⟩
  · rw [hadd] at h
    cases h
  · rw [hadd] at h
    cases h
    exact hq

theorem sound_step (h : p ∈ (step state b).1) : p.Sound := by
  cases state with
  | none => exact sound_start h
  | some q =>
      rw [step] at h
      split_ifs at h with hb
      · exact sound_add h
      · exact sound_start h

theorem sound_feed (hstate : ∀ q ∈ state, q.Sound) (h : p ∈ (feed state xs).1) : p.Sound := by
  induction xs generalizing state with
  | nil => exact hstate p h
  | cons b xs ih => exact ih (fun _ => sound_step) h

theorem start_continuation (h : p.Sound) (hb : p.continues b) : start b = (none, [replacement]) := by
  have hlow := Nat.le_trans h.1 hb.1
  have hup := Nat.le_trans hb.2 h.2
  rw [start, if_neg (by omega), if_neg (by omega), if_neg (by omega), if_neg (by omega)]

theorem finish_continuation (h : p.Sound) (hb : p.continues b) (xs : List UInt8) :
    finish none (b :: xs) = replacement :: finish none xs := by
  rw [finish_cons, step, start_continuation h hb]
  rfl

theorem finish_unfinished (hb : ¬ p.continues b) (xs : List UInt8) :
    finish (some p) (b :: xs) = replacement :: finish none (b :: xs) := by
  rw [finish_cons, finish_cons, step, step, if_neg hb]
  rfl

theorem finish_continues (hb : p.continues b) (xs : List UInt8) :
    (∃ c, finish (some p) (b :: xs) = c :: finish none xs) ∨
      ∃ q, q.Sound ∧ finish (some p) (b :: xs) = finish (some q) xs := by
  rw [finish_cons, step, if_pos hb]
  rcases add_cases p b with ⟨c, hadd⟩ | ⟨q, hq, hadd⟩
  · rw [hadd]
    exact .inl ⟨c, rfl⟩
  · rw [hadd]
    exact .inr ⟨q, hq, rfl⟩

/-- What there is of a character counts for one more at most. -/
theorem length_finish (h : p.Sound) (xs : List UInt8) :
    (finish (some p) xs).length ≤ (finish none xs).length + 1 := by
  induction xs generalizing p with
  | nil => exact Nat.le_refl 1
  | cons b xs ih =>
      by_cases hb : p.continues b
      · have hnone := finish_continuation h hb xs
        rcases finish_continues hb xs with ⟨c, hc⟩ | ⟨q, hq, heq⟩
        · rw [hc, hnone]
          exact Nat.le_succ _
        · rw [heq, hnone]
          exact Nat.le_succ_of_le (ih hq)
      · rw [finish_unfinished hb]
        exact Nat.le_refl _

theorem finish_ne (h : p.Sound) (hb : p.continues b) (xs : List UInt8) :
    finish (some p) (b :: xs) ≠ replacement :: finish none (b :: xs) := by
  intro heq
  have hlength := congrArg List.length heq
  rw [finish_continuation h hb, List.length_cons, List.length_cons] at hlength
  rcases finish_continues hb xs with ⟨c, hc⟩ | ⟨q, hq, hrest⟩
  · rw [hc, List.length_cons] at hlength
    omega
  · have hle := length_finish hq xs
    rw [hrest] at hlength
    omega

theorem decode_append (xs ys : List UInt8) : decode (xs ++ ys) = (feed none xs).2 ++ finish (feed none xs).1 ys :=
  finish_append none xs ys

/-- The texts of two runs of bytes make up the text of both unless the cut falls inside a character. -/
theorem decode_cut : decode xs ++ decode ys = decode (xs ++ ys) ↔ ¬ Splits xs ys := by
  rw [decode_append]
  show (feed none xs).2 ++ flush (feed none xs).1 ++ finish none ys = _ ↔ _
  rw [List.append_assoc, List.append_right_inj]
  cases hstate : (feed none xs).1 with
  | none => simp [Splits, hstate, flush]
  | some p =>
      have hp : p.Sound := sound_feed (by simp) hstate
      cases ys with
      | nil => simp [Splits, finish, feed, flush]
      | cons b ys =>
          have hsplits : Splits xs (b :: ys) ↔ p.continues b := by simp [Splits, hstate]
          rw [hsplits]
          by_cases hb : p.continues b
          · exact iff_of_false (fun h => finish_ne hp hb ys h.symm) (not_not.mpr hb)
          · exact iff_of_true (finish_unfinished hb ys).symm hb

theorem decode_nil : decode [] = [] := rfl

end Cuts

/-- `TextDecoder` with `stream: true`; `begun` tells that it has given a character. -/
structure TextDecoder where
  pending : Option Pending
  begun : Bool

namespace TextDecoder

def fresh : TextDecoder := ⟨none, false⟩

/-- The text of a chunk, without a byte order mark that begins the stream. -/
def decode (d : TextDecoder) (chunk : List UInt8) : TextDecoder × List Char :=
  let fed := feed d.pending chunk
  if d.begun = true ∨ fed.2 = [] then (⟨fed.1, d.begun⟩, fed.2)
  else (⟨fed.1, true⟩, if fed.2.head? = some '\uFEFF' then fed.2.tail else fed.2)

/-- `decode()` -/
def flush (d : TextDecoder) : List Char := Utf8.flush d.pending

variable (d : TextDecoder) (xs ys : List UInt8)

theorem decode_append :
    d.decode (xs ++ ys) =
      (((d.decode xs).1.decode ys).1, (d.decode xs).2 ++ ((d.decode xs).1.decode ys).2) := by
  obtain ⟨pending, begun⟩ := d
  rcases hx : feed pending xs with ⟨state, text⟩
  have happend := feed_append pending xs ys
  rw [hx] at happend
  cases begun with
  | true => simp [decode, happend, hx]
  | false =>
      cases text with
      | nil => simp [decode, happend, hx]
      | cons c text =>
          by_cases hc : c = '\uFEFF'
          · simp [decode, happend, hx, hc]
          · simp [decode, happend, hx, hc]

theorem decode_nil : d.decode [] = (d, []) := by
  rw [decode]
  simp [feed]

end TextDecoder

end Kross.Utf8

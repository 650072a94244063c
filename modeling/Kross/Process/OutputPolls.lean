import Kross.Run
import Kross.Utf8
import Mathlib.Algebra.Order.Floor.Ring
import Mathlib.Data.Rat.Floor

namespace Kross.Process

open Utf8

/-- `none` stands for a number that is not finite, and for none at all. -/
def positive (value : Option ℚ) (fallback : Nat) : Nat :=
  match value with
  | some value => if 0 < value then ⌊value⌋.toNat else fallback
  | none => fallback

def defaultMaxBufferBytes : Nat := 1024 * 1024

def defaultMaxPollBytes : Nat := 64 * 1024

structure Options where
  maxBufferBytes : Option ℚ
  maxPollBytes : Option ℚ

def Options.bufferBytes (o : Options) : Nat := positive o.maxBufferBytes defaultMaxBufferBytes

def Options.pollBytes (o : Options) : Nat := positive o.maxPollBytes defaultMaxPollBytes

/-- The last bytes of a stream, between two positions in it. -/
structure StreamBuffer where
  data : List UInt8
  start : Nat
  stop : Nat

def emptyBuffer : StreamBuffer := ⟨[], 0, 0⟩

def appendBounded (target : StreamBuffer) (chunk : List UInt8) (maxBytes : Nat) : StreamBuffer :=
  let stop := target.stop + chunk.length
  let whole := target.data ++ chunk
  let data := if maxBytes < whole.length then whole.drop (whole.length - maxBytes) else whole
  ⟨data, stop - data.length, stop⟩

structure Reading where
  text : List Char
  cursor : Nat
  truncated : Bool
  bytes : Nat

def readBuffer (source : StreamBuffer) (requestedCursor : ℚ) (maxBytes : Nat) : Reading :=
  let normalized := ⌊requestedCursor⌋.toNat
  let cursor := min (max normalized source.start) source.stop
  let available := source.stop - cursor
  let bytes := min available maxBytes
  let offset := cursor - source.start
  ⟨decode ((source.data.drop offset).take bytes), cursor + bytes, normalized < source.start, bytes⟩

namespace StreamBuffer

/-- What a buffer holds of a stream: all that was written but its first bytes. -/
structure Holds (buffer : StreamBuffer) (written : List UInt8) : Prop where
  stop_eq : buffer.stop = written.length
  start_le : buffer.start ≤ written.length
  data_eq : buffer.data = written.drop buffer.start

variable {buffer : StreamBuffer} {written : List UInt8}

theorem emptyBuffer_holds : emptyBuffer.Holds [] := ⟨rfl, Nat.le_refl 0, rfl⟩

theorem Holds.length_data (h : buffer.Holds written) : buffer.data.length = written.length - buffer.start := by
  rw [h.data_eq, List.length_drop]

theorem Holds.appendBounded (h : buffer.Holds written) (chunk : List UInt8) (maxBytes : Nat) :
    (appendBounded buffer chunk maxBytes).Holds (written ++ chunk) := by
  have hdata : buffer.data ++ chunk = (written ++ chunk).drop buffer.start := by
    rw [h.data_eq, List.drop_append_of_le_length h.start_le]
  have hlength : (buffer.data ++ chunk).length = (written ++ chunk).length - buffer.start := by
    rw [hdata, List.length_drop]
  have hstart : buffer.start ≤ (written ++ chunk).length := by
    rw [List.length_append]
    exact h.start_le.trans (Nat.le_add_right _ _)
  have hstop : buffer.stop + chunk.length = (written ++ chunk).length := by rw [h.stop_eq, List.length_append]
  unfold Process.appendBounded
  dsimp only
  rw [hstop]
  split_ifs with hlarge
  · refine ⟨rfl, Nat.sub_le _ _, ?_⟩
    dsimp only
    rw [List.length_drop, hlength, hdata, List.drop_drop]
    congr 1
    omega
  · refine ⟨rfl, Nat.sub_le _ _, ?_⟩
    dsimp only
    rw [hlength, Nat.sub_sub_self hstart, hdata]

theorem length_appendBounded (chunk : List UInt8) (maxBytes : Nat) :
    (appendBounded buffer chunk maxBytes).data.length ≤ maxBytes := by
  unfold Process.appendBounded
  dsimp only
  split_ifs with hlarge
  · rw [List.length_drop]
    omega
  · exact Nat.le_of_not_lt hlarge

theorem Holds.readBuffer (h : buffer.Holds written) {position : Nat} (hposition : position ≤ written.length)
    (maxBytes : Nat) :
    readBuffer buffer (position : ℚ) maxBytes =
      ⟨decode ((written.drop (max position buffer.start)).take maxBytes),
        max position buffer.start + min (written.length - max position buffer.start) maxBytes,
        position < buffer.start, min (written.length - max position buffer.start) maxBytes⟩ := by
  have hnormal : ⌊(position : ℚ)⌋.toNat = position := by simp
  have hcursor : min (max position buffer.start) buffer.stop = max position buffer.start := by
    rw [h.stop_eq]
    exact Nat.min_eq_left (max_le hposition h.start_le)
  have hoffset : buffer.start + (max position buffer.start - buffer.start) = max position buffer.start :=
    Nat.add_sub_cancel' (le_max_right _ _)
  have htext : ((buffer.data.drop (max position buffer.start - buffer.start)).take
      (min (written.length - max position buffer.start) maxBytes)) =
      (written.drop (max position buffer.start)).take maxBytes := by
    rw [h.data_eq, List.drop_drop, hoffset, Nat.min_comm, ← List.length_drop, ← List.take_eq_take_min]
  unfold Process.readBuffer
  dsimp only
  rw [hnormal, hcursor, h.stop_eq, htext]

end StreamBuffer

end Kross.Process

namespace Kross.Process

open Utf8 Run

inductive Stream
  | stdout
  | stderr
  deriving DecidableEq

inductive Status
  | running
  | exited
  | killed
  deriving DecidableEq

structure Handle where
  status : Status
  stdout : StreamBuffer
  stderr : StreamBuffer
  lastPollFingerprint : Option (Status × Nat × Nat)
  unchangedPolls : Nat

structure ProcessCursor where
  stdout : Nat
  stderr : Nat

/-- `Partial<ProcessCursor>` -/
structure PartialCursor where
  stdout : Option ℚ
  stderr : Option ℚ

inductive ProgressState
  | changed
  | unchanged
  | terminal

structure Progress where
  state : ProgressState
  unchangedPolls : Nat
  recommendedDelayMs : Nat

structure Truncated where
  stdout : Bool
  stderr : Bool

structure PollResult where
  stdout : List Char
  stderr : List Char
  cursor : ProcessCursor
  truncated : Truncated
  progress : Progress

def started : Handle := ⟨.running, emptyBuffer, emptyBuffer, none, 0⟩

/-- The handler of `data` events. -/
def onData (o : Options) (handle : Handle) (stream : Stream) (chunk : List UInt8) : Handle :=
  match stream with
  | .stdout => { handle with stdout := appendBounded handle.stdout chunk o.bufferBytes }
  | .stderr => { handle with stderr := appendBounded handle.stderr chunk o.bufferBytes }

def onClose (handle : Handle) (killed : Bool) : Handle :=
  if handle.status = .running then { handle with status := if killed then .killed else .exited } else handle

def poll (o : Options) (handle : Handle) (cursor : PartialCursor) (maxBytes : Option ℚ) : Handle × PollResult :=
  let budget := min (positive maxBytes o.pollBytes) o.pollBytes
  let stdout := readBuffer handle.stdout (cursor.stdout.getD 0) budget
  let stderr := readBuffer handle.stderr (cursor.stderr.getD 0) (budget - stdout.bytes)
  let fingerprint := (handle.status, handle.stdout.stop, handle.stderr.stop)
  let terminal := handle.status ≠ .running
  let changed := handle.lastPollFingerprint ≠ some fingerprint
  let unchangedPolls := if terminal ∨ changed then 0 else handle.unchangedPolls + 1
  let recommendedDelayMs := if terminal ∨ changed then 0 else min 4000 (250 * 2 ^ (unchangedPolls - 1))
  ({ handle with lastPollFingerprint := some fingerprint, unchangedPolls := unchangedPolls },
    { stdout := stdout.text
      stderr := stderr.text
      cursor := ⟨stdout.cursor, stderr.cursor⟩
      truncated := ⟨stdout.truncated, stderr.truncated⟩
      progress :=
        ⟨if terminal then .terminal else if changed then .changed else .unchanged, unchangedPolls,
          recommendedDelayMs⟩ })

/-! ### By stream -/

def Handle.buffer (handle : Handle) : Stream → StreamBuffer
  | .stdout => handle.stdout
  | .stderr => handle.stderr

def ProcessCursor.position (cursor : ProcessCursor) : Stream → Nat
  | .stdout => cursor.stdout
  | .stderr => cursor.stderr

def ProcessCursor.passed (cursor : ProcessCursor) : PartialCursor :=
  ⟨some (cursor.stdout : ℚ), some (cursor.stderr : ℚ)⟩

namespace PollResult

def text (r : PollResult) : Stream → List Char
  | .stdout => r.stdout
  | .stderr => r.stderr

def lost (r : PollResult) : Stream → Bool
  | .stdout => r.truncated.stdout
  | .stderr => r.truncated.stderr

end PollResult

/-- A process that is polled, with all that it has written. -/
structure Watch where
  handle : Handle
  cursor : ProcessCursor
  polled : List PollResult
  written : Stream → List UInt8

inductive Event
  | output (stream : Stream) (chunk : List UInt8)
  | close (killed : Bool)
  | poll (maxBytes : Option ℚ)

namespace Watch

def fresh : Watch := ⟨started, ⟨0, 0⟩, [], fun _ => []⟩

/-- Each poll passes the cursor that the one before it returned. -/
def next (o : Options) (w : Watch) : Event → Watch
  | .output stream chunk =>
    { w with
      handle := onData o w.handle stream chunk
      written := Function.update w.written stream (w.written stream ++ chunk) }
  | .close killed => { w with handle := onClose w.handle killed }
  | .poll maxBytes =>
    let result := Process.poll o w.handle w.cursor.passed maxBytes
    { w with handle := result.1, cursor := result.2.cursor, polled := w.polled ++ [result.2] }

def position (w : Watch) (i : Stream) : Nat := w.cursor.position i

def buffer (w : Watch) (i : Stream) : StreamBuffer := w.handle.buffer i

/-- The texts of a stream that were polled. -/
def text (w : Watch) (i : Stream) : List Char := w.polled.flatMap fun r => r.text i

/-- No poll has reported the stream as truncated. -/
def Whole (w : Watch) (i : Stream) : Prop := ∀ r ∈ w.polled, r.lost i = false

instance (w : Watch) (i : Stream) : Decidable (w.Whole i) :=
  inferInstanceAs (Decidable (∀ r ∈ w.polled, r.lost i = false))

/-- A byte of the stream that was written and is held no more. -/
def Discarded (w : Watch) (i : Stream) (k : Nat) : Prop :=
  k + (w.buffer i).data.length < (w.written i).length

/-- Where the next poll begins to read. -/
def begins (w : Watch) (i : Stream) : Nat := max (w.position i) (w.buffer i).start

def unread (w : Watch) (i : Stream) : Nat := (w.written i).length - w.begins i

/-- What the budget of a poll leaves for a stream. -/
def share (o : Options) (w : Watch) (maxBytes : Option ℚ) : Stream → Nat
  | .stdout => min (positive maxBytes o.pollBytes) o.pollBytes
  | .stderr => min (positive maxBytes o.pollBytes) o.pollBytes - w.unread .stdout

structure Sound (w : Watch) : Prop where
  holds : ∀ i, (w.buffer i).Holds (w.written i)
  position_le : ∀ i, w.position i ≤ (w.written i).length

section Facts

variable {o : Options} {w : Watch} {i : Stream} {maxBytes : Option ℚ}

theorem sub_min_comm (a b : Nat) : a - min b a = a - b := by omega

/-- A poll, one stream at a time. -/
theorem poll_stream (o : Options) (maxBytes : Option ℚ) (h : w.Sound) (i : Stream) :
    let r := (Process.poll o w.handle w.cursor.passed maxBytes).2
    r.text i = decode (((w.written i).drop (w.begins i)).take (w.share o maxBytes i)) ∧
      r.cursor.position i = w.begins i + min (w.unread i) (w.share o maxBytes i) ∧
      r.lost i = decide (w.position i < (w.buffer i).start) := by
  have hout := (h.holds .stdout).readBuffer (h.position_le .stdout) (w.share o maxBytes .stdout)
  have herr := (h.holds .stderr).readBuffer (h.position_le .stderr) (w.share o maxBytes .stderr)
  have hleft : w.share o maxBytes .stdout -
      (readBuffer (w.buffer .stdout) (w.position .stdout) (w.share o maxBytes .stdout)).bytes =
      w.share o maxBytes .stderr := by
    rw [hout]
    exact sub_min_comm _ _
  cases i with
  | stdout =>
      exact ⟨congrArg Reading.text hout, congrArg Reading.cursor hout, congrArg Reading.truncated hout⟩
  | stderr =>
      rw [← hleft] at herr ⊢
      exact ⟨congrArg Reading.text herr, congrArg Reading.cursor herr, congrArg Reading.truncated herr⟩

theorem begins_le (h : w.Sound) : w.begins i ≤ (w.written i).length :=
  max_le (h.position_le i) (h.holds i).start_le

theorem sound_fresh : fresh.Sound := by
  constructor
  · intro i
    cases i <;> exact StreamBuffer.emptyBuffer_holds
  · intro i
    cases i <;> exact Nat.le_refl 0

theorem buffer_output (stream : Stream) (chunk : List UInt8) :
    (w.next o (.output stream chunk)).buffer i =
      if i = stream then appendBounded (w.buffer i) chunk o.bufferBytes else w.buffer i := by
  cases stream <;> cases i <;> rfl

theorem written_output (stream : Stream) (chunk : List UInt8) :
    (w.next o (.output stream chunk)).written i = if i = stream then w.written i ++ chunk else w.written i := by
  by_cases hi : i = stream
  · subst hi
    rw [if_pos rfl]
    exact Function.update_self _ _ _
  · rw [if_neg hi]
    exact Function.update_of_ne hi _ _

theorem buffer_close (killed : Bool) : (w.next o (.close killed)).buffer i = w.buffer i := by
  show (onClose w.handle killed).buffer i = _
  rw [onClose]
  split_ifs <;> cases i <;> rfl

theorem sound_next (h : w.Sound) (e : Event) : (w.next o e).Sound := by
  cases e with
  | output stream chunk =>
      constructor
      · intro i
        rw [buffer_output, written_output]
        split_ifs
        · exact (h.holds i).appendBounded chunk _
        · exact h.holds i
      · intro i
        rw [written_output]
        split_ifs
        · exact (h.position_le i).trans (by simp)
        · exact h.position_le i
  | close killed =>
      exact ⟨fun i => by rw [buffer_close]; exact h.holds i, h.position_le⟩
  | poll maxBytes =>
      refine ⟨h.holds, fun i => ?_⟩
      have hcursor : (w.next o (.poll maxBytes)).position i = _ := (poll_stream o maxBytes h i).2.1
      have hbegins := begins_le (i := i) h
      rw [hcursor]
      show _ ≤ (w.written i).length
      rw [unread]
      omega

end Facts

/-- What polling owes to the reader of a stream. -/
structure Lossless (o : Options) (w : Watch) (i : Stream) : Prop where
  reports : ∀ maxBytes, (Process.poll o w.handle w.cursor.passed maxBytes).2.lost i = true ↔
    ∃ k, w.position i ≤ k ∧ w.Discarded i k
  text_eq : w.Whole i → w.text i = decode ((w.written i).take (w.position i))
  all : w.Whole i → w.position i = (w.written i).length → w.text i = decode (w.written i)

/-- A poll does not begin to read a stream inside a character. -/
def BeginsWell (o : Options) (w : Watch) : Event → Prop
  | .poll maxBytes => ∀ i, w.Whole i → (w.buffer i).start ≤ w.position i → 0 < w.share o maxBytes i →
      ¬ Splits ((w.written i).take (w.position i)) ((w.written i).drop (w.position i))
  | _ => True

def Faithful (w : Watch) : Prop := ∀ i, w.Whole i → w.text i = decode ((w.written i).take (w.position i))

section Polls

variable {o : Options} {w : Watch} {i : Stream} {maxBytes : Option ℚ}

theorem discarded_iff (h : w.Sound) (k : Nat) : w.Discarded i k ↔ k < (w.buffer i).start := by
  have hle := (h.holds i).start_le
  rw [Discarded, (h.holds i).length_data]
  omega

theorem reports_discarded (h : w.Sound) (maxBytes : Option ℚ) :
    (Process.poll o w.handle w.cursor.passed maxBytes).2.lost i = true ↔
      ∃ k, w.position i ≤ k ∧ w.Discarded i k := by
  rw [(poll_stream o maxBytes h i).2.2, decide_eq_true_iff]
  constructor
  · intro hlt
    exact ⟨w.position i, le_refl _, (discarded_iff h _).mpr hlt⟩
  · rintro ⟨k, hle, hk⟩
    exact hle.trans_lt ((discarded_iff h k).mp hk)

theorem lossless_iff_faithful (h : w.Sound) : (∀ i, w.Lossless o i) ↔ w.Faithful := by
  constructor
  · intro hall i
    exact (hall i).text_eq
  · intro hw i
    refine ⟨reports_discarded h, hw i, fun hwhole hend => ?_⟩
    rw [hw i hwhole, hend, List.take_length]

theorem whole_poll (h : w.Sound) :
    (w.next o (.poll maxBytes)).Whole i ↔ w.Whole i ∧ (w.buffer i).start ≤ w.position i := by
  have hlost := (poll_stream o maxBytes h i).2.2
  show (∀ r ∈ w.polled ++ [_], r.lost i = false) ↔ _
  rw [List.forall_mem_append, List.forall_mem_singleton, hlost, decide_eq_false_iff_not, Nat.not_lt]
  exact Iff.rfl

theorem text_poll (h : w.Sound) :
    (w.next o (.poll maxBytes)).text i =
      w.text i ++ decode (((w.written i).drop (w.begins i)).take (w.share o maxBytes i)) := by
  show (w.polled ++ [_]).flatMap _ = _
  rw [List.flatMap_append, List.flatMap_singleton, (poll_stream o maxBytes h i).1]
  rfl

theorem position_poll (h : w.Sound) :
    (w.next o (.poll maxBytes)).position i = w.begins i + min (w.unread i) (w.share o maxBytes i) :=
  (poll_stream o maxBytes h i).2.1

theorem take_poll (xs : List UInt8) (k n : Nat) :
    xs.take (k + min (xs.length - k) n) = xs.take k ++ (xs.drop k).take n := by
  rw [List.take_add, List.take_eq_take_min (i := n), List.length_drop, Nat.min_comm]

theorem splits_take (xs ys : List UInt8) (n : Nat) : Splits xs (ys.take n) ↔ 0 < n ∧ Splits xs ys := by
  cases n with
  | zero => simp [Splits]
  | succ n => cases ys <;> simp [Splits]

/-- A poll that reports nothing adds the text of the bytes it returns, if it does not begin inside a character. -/
theorem faithful_poll (h : w.Sound) (hw : w.Faithful) :
    (w.next o (.poll maxBytes)).Faithful ↔ BeginsWell o w (.poll maxBytes) := by
  refine forall_congr' fun i => ?_
  rw [whole_poll h, and_imp]
  refine imp_congr_right fun hwhole => imp_congr_right fun hstart => ?_
  have hbegins : w.begins i = w.position i := max_eq_left hstart
  have hwritten : (w.next o (.poll maxBytes)).written i = w.written i := rfl
  rw [text_poll h, position_poll h, hwritten, hw i hwhole, hbegins, unread, hbegins, take_poll, decode_cut, splits_take,
    not_and]

theorem faithful_output (h : w.Sound) (stream : Stream) (chunk : List UInt8) :
    (w.next o (.output stream chunk)).Faithful ↔ w.Faithful := by
  refine forall_congr' fun i => imp_congr_right fun _ => ?_
  have hposition : (w.next o (.output stream chunk)).position i = w.position i := rfl
  rw [hposition, written_output]
  split_ifs
  · rw [List.take_append_of_le_length (h.position_le i)]
    exact Iff.rfl
  · exact Iff.rfl

theorem faithful_next (h : w.Sound) (hw : w.Faithful) (e : Event) : (w.next o e).Faithful ↔ BeginsWell o w e := by
  cases e with
  | output stream chunk => exact iff_of_true ((faithful_output h stream chunk).mpr hw) trivial
  | close killed => exact iff_of_true hw trivial
  | poll maxBytes => exact faithful_poll h hw

theorem faithful_fresh : fresh.Faithful := by
  intro i _
  cases i <;> rfl

end Polls

/-- Polling loses nothing exactly when no poll begins to read inside a character. -/
theorem polling_lossless (o : Options) (events : List Event) :
    Throughout (next o) (fun w => ∀ i, w.Lossless o i) fresh events ↔ Along (next o) (BeginsWell o) fresh events := by
  refine throughout_iff_along (I := Sound) (fun _ e h => sound_next h e) (fun w e h hw => ?_) sound_fresh
    ((lossless_iff_faithful sound_fresh).mpr faithful_fresh)
  rw [lossless_iff_faithful (sound_next h e)]
  exact faithful_next h ((lossless_iff_faithful h).mp hw) e

/-- A character of which the first byte is polled before the second is written. -/
def halves : List Event := [.output .stdout [0xC3], .poll none, .output .stdout [0xA9], .poll none]

theorem polling_halves : ¬ ∀ o events, Throughout (next o) (fun w => ∀ i, w.Lossless o i) fresh events := by
  intro h
  have hwhole : (after (next ⟨none, none⟩) fresh halves).Whole .stdout := by decide
  have htext := (h ⟨none, none⟩ halves halves [] rfl .stdout).text_eq hwhole
  revert htext
  decide

end Watch

end Kross.Process

import Kross.Framing
import Kross.JsonRoundTrip
import Kross.RegexRuns
import Kross.Session.Title
import Kross.Utf8
import Mathlib.Algebra.Group.Nat.Defs

namespace Kross.Mcp.Rpc.Stdio

open Json

def headerBreak : List UInt8 := [13, 10, 13, 10]

def indexOfHeaderEnd : List UInt8 → Option Nat
  | [] => none
  | b :: buffer => if headerBreak <+: b :: buffer then some 0 else (indexOfHeaderEnd buffer).map (· + 1)

/-- `/Content-Length:\s*(\d+)/i` -/
def contentLength : Regex :=
  Regex.sequence [Regex.word "Content-Length:".toList, Regex.many Session.isWhitespace, .group 1 (Regex.several Char.isDigit)]

def matchLength (headerText : List Char) : Option (List Char) :=
  (contentLength.exec headerText).bind (fun found => found.captured 1)

/-- What is finite as a number: below half a step above the largest double. -/
def isFinite (n : Nat) : Bool := n < 2 ^ 1024 - 2 ^ 970

def indexOfNewline (buffer : List UInt8) : Option Nat := buffer.findIdx? (· = 10)

theorem indexOfNewline_lt {buffer : List UInt8} {nl : Nat} (h : indexOfNewline buffer = some nl) : nl < buffer.length :=
  (List.findIdx?_eq_some_iff_findIdx_eq.mp h).1

/-- The message of the first frame, none for a body that is no JSON, and what is behind the frame. -/
def tryReadFramedMessage (buffer : List UInt8) : Option (Option Json.Value × List UInt8) :=
  match indexOfHeaderEnd buffer with
  | none => none
  | some headerEnd =>
    match matchLength (Utf8.decode (buffer.take headerEnd)) with
    | none =>
      match h : indexOfNewline buffer with
      | none => none
      | some nl => tryReadFramedMessage (buffer.drop (nl + 1))
    | some digits =>
      let length := Nat.ofDigitChars 10 digits 0
      if isFinite length = false then none
      else if buffer.length < headerEnd + 4 + length then none
      else some (parse (Utf8.decode ((buffer.drop (headerEnd + 4)).take length)), buffer.drop (headerEnd + 4 + length))
termination_by buffer.length
decreasing_by
  have := indexOfNewline_lt h
  rw [List.length_drop]
  omega

section Reading

variable {buffer more : List UInt8} {i : Nat}

theorem indexOfHeaderEnd_some (h : indexOfHeaderEnd buffer = some i) : i + 4 ≤ buffer.length := by
  induction buffer generalizing i with
  | nil => cases h
  | cons b buffer ih =>
      rw [indexOfHeaderEnd] at h
      split_ifs at h with hbreak
      · obtain rfl := Option.some.inj h
        simpa [headerBreak] using hbreak.length_le
      · obtain ⟨j, hj, rfl⟩ := Option.map_eq_some_iff.mp h
        have := ih hj
        simp only [List.length_cons]
        omega

theorem indexOfHeaderEnd_append (h : indexOfHeaderEnd buffer = some i) (more : List UInt8) :
    indexOfHeaderEnd (buffer ++ more) = some i := by
  induction buffer generalizing i with
  | nil => cases h
  | cons b buffer ih =>
      rw [indexOfHeaderEnd] at h
      rw [List.cons_append, indexOfHeaderEnd]
      split_ifs at h with hbreak
      · have hmore : headerBreak <+: b :: (buffer ++ more) := hbreak.trans (List.prefix_append (b :: buffer) more)
        rw [if_pos hmore, h]
      · obtain ⟨j, hj, rfl⟩ := Option.map_eq_some_iff.mp h
        have hlong := indexOfHeaderEnd_some hj
        have hnot : ¬ headerBreak <+: b :: (buffer ++ more) := by
          intro hmore
          refine hbreak (List.prefix_of_prefix_length_le hmore (List.prefix_append (b :: buffer) more) ?_)
          simp only [headerBreak, List.length_cons, List.length_nil]
          omega
        rw [if_neg hnot, ih hj]
        rfl

theorem indexOfNewline_append {nl : Nat} (h : indexOfNewline buffer = some nl) (more : List UInt8) :
    indexOfNewline (buffer ++ more) = some nl := by
  rw [indexOfNewline, List.findIdx?_append, ← indexOfNewline, h]
  rfl

variable {headerEnd nl : Nat} {digits : List Char} {message : Option Json.Value} {rest : List UInt8}

theorem tryReadFramedMessage_line (hheader : indexOfHeaderEnd buffer = some headerEnd)
    (hmatch : matchLength (Utf8.decode (buffer.take headerEnd)) = none) (hnl : indexOfNewline buffer = some nl) :
    tryReadFramedMessage buffer = tryReadFramedMessage (buffer.drop (nl + 1)) := by
  rw [tryReadFramedMessage, hheader]
  dsimp only
  rw [hmatch]
  dsimp only
  split
  next hnone =>
    rw [hnone] at hnl
    cases hnl
  next found hfound =>
    obtain rfl := Option.some.inj (hnl.symm.trans hfound)
    rfl

theorem tryReadFramedMessage_frame (hheader : indexOfHeaderEnd buffer = some headerEnd)
    (hmatch : matchLength (Utf8.decode (buffer.take headerEnd)) = some digits)
    (hfinite : isFinite (Nat.ofDigitChars 10 digits 0) = true)
    (hlength : headerEnd + 4 + Nat.ofDigitChars 10 digits 0 ≤ buffer.length) :
    tryReadFramedMessage buffer =
      some (parse (Utf8.decode ((buffer.drop (headerEnd + 4)).take (Nat.ofDigitChars 10 digits 0))),
        buffer.drop (headerEnd + 4 + Nat.ofDigitChars 10 digits 0)) := by
  rw [tryReadFramedMessage, hheader]
  dsimp only
  rw [hmatch]
  dsimp only
  rw [if_neg (by simp [hfinite]), if_neg (by omega)]

/-- A message is read from the frame at the front, or behind a line that is given up. -/
theorem tryReadFramedMessage_cases (h : tryReadFramedMessage buffer = some (message, rest)) :
    ∃ headerEnd, indexOfHeaderEnd buffer = some headerEnd ∧
      ((matchLength (Utf8.decode (buffer.take headerEnd)) = none ∧
          ∃ nl, indexOfNewline buffer = some nl ∧ tryReadFramedMessage (buffer.drop (nl + 1)) = some (message, rest)) ∨
        ∃ digits, matchLength (Utf8.decode (buffer.take headerEnd)) = some digits ∧
          isFinite (Nat.ofDigitChars 10 digits 0) = true ∧
          headerEnd + 4 + Nat.ofDigitChars 10 digits 0 ≤ buffer.length ∧
          message = parse (Utf8.decode ((buffer.drop (headerEnd + 4)).take (Nat.ofDigitChars 10 digits 0))) ∧
          rest = buffer.drop (headerEnd + 4 + Nat.ofDigitChars 10 digits 0)) := by
  rw [tryReadFramedMessage] at h
  split at h
  next => cases h
  next headerEnd hheader =>
    refine ⟨headerEnd, hheader, ?_⟩
    split at h
    next hmatch =>
      split at h
      next => cases h
      next nl hnl => exact Or.inl ⟨hmatch, nl, hnl, h⟩
    next digits hmatch =>
      dsimp only at h
      split_ifs at h with hfinite hlength
      obtain ⟨rfl, rfl⟩ := Prod.mk.inj (Option.some.inj h)
      exact Or.inr ⟨digits, hmatch, by simpa using hfinite, by omega, rfl, rfl⟩

/-- Bytes that come later do not change the first frame. -/
theorem tryReadFramedMessage_append (more : List UInt8) (h : tryReadFramedMessage buffer = some (message, rest)) :
    tryReadFramedMessage (buffer ++ more) = some (message, rest ++ more) := by
  induction hn : buffer.length using Nat.strongRecOn generalizing buffer with
  | ind n ih =>
      obtain ⟨headerEnd, hheader, hcases⟩ := tryReadFramedMessage_cases h
      have hlong := indexOfHeaderEnd_some hheader
      have hheader' := indexOfHeaderEnd_append hheader more
      have htake : (buffer ++ more).take headerEnd = buffer.take headerEnd := List.take_append_of_le_length (by omega)
      rcases hcases with ⟨hmatch, nl, hnl, hrest⟩ | ⟨digits, hmatch, hfinite, hlength, rfl, rfl⟩
      · have hlt := indexOfNewline_lt hnl
        rw [tryReadFramedMessage_line hheader' (htake ▸ hmatch) (indexOfNewline_append hnl more),
          List.drop_append_of_le_length (by omega)]
        exact ih (buffer.drop (nl + 1)).length (by rw [List.length_drop]; omega) hrest rfl
      · rw [tryReadFramedMessage_frame hheader' (htake ▸ hmatch) hfinite (by rw [List.length_append]; omega),
          List.drop_append_of_le_length hlength, List.drop_append_of_le_length (by omega),
          List.take_append_of_le_length (by rw [List.length_drop]; omega)]

theorem tryReadFramedMessage_shrinks (h : tryReadFramedMessage buffer = some (message, rest)) :
    rest.length < buffer.length := by
  induction hn : buffer.length using Nat.strongRecOn generalizing buffer with
  | ind n ih =>
      obtain ⟨headerEnd, hheader, ⟨-, nl, hnl, hrest⟩ | ⟨digits, -, -, hlength, -, rfl⟩⟩ := tryReadFramedMessage_cases h
      · have hlt := indexOfNewline_lt hnl
        have hshort := ih (buffer.drop (nl + 1)).length (by rw [List.length_drop]; omega) hrest rfl
        rw [List.length_drop] at hshort
        omega
      · rw [List.length_drop]
        omega

end Reading

def frames : Framing UInt8 (Option Json.Value) :=
  ⟨tryReadFramedMessage, tryReadFramedMessage_shrinks, fun more h => tryReadFramedMessage_append more h⟩

/-- What is handed on when a chunk has come, and what is kept. -/
def onStdout (buffer chunk : List UInt8) : List (Option Json.Value) × List UInt8 := frames.drain (buffer ++ chunk)

/-- A process's output, chunk by chunk. -/
def onChunks : List UInt8 → List (List UInt8) → List (Option Json.Value) × List UInt8
  | buffer, [] => ([], buffer)
  | buffer, chunk :: chunks =>
    ((onStdout buffer chunk).1 ++ (onChunks (onStdout buffer chunk).2 chunks).1,
      (onChunks (onStdout buffer chunk).2 chunks).2)

theorem onChunks_eq_receive (buffer : List UInt8) (chunks : List (List UInt8)) :
    onChunks buffer chunks = frames.receive buffer chunks := by
  induction chunks generalizing buffer with
  | nil => rfl
  | cons chunk chunks ih => rw [onChunks, ih, Framing.receive, onStdout]

theorem onChunks_eq (chunks : List (List UInt8)) : onChunks [] chunks = onStdout [] chunks.flatten := by
  have hempty : frames.next [] = none := by
    change tryReadFramedMessage [] = none
    rw [tryReadFramedMessage]
    rfl
  rw [onChunks_eq_receive, frames.receive_eq [] chunks hempty, onStdout]

/-- No buffer is longer. -/
def maxBufferLength : Nat := 2 ^ 53 - 1

/-- A message of which a buffer can hold the text. -/
structure Message where
  value : Json.Value
  fits : (Utf8.encode (render value)).length ≤ maxBufferLength

def headerText (n : Nat) : List Char := "Content-Length: ".toList ++ Nat.toDigits 10 n

/-- The bytes of `writeMessage`. -/
def Message.frame (m : Message) : List UInt8 :=
  Utf8.encode (headerText (Utf8.encode (render m.value)).length ++ "\r\n\r\n".toList) ++ Utf8.encode (render m.value)

section Writing

variable {text : List Char} {n : Nat}

theorem indexOfHeaderEnd_break {header : List UInt8} (h : 13 ∉ header) (more : List UInt8) :
    indexOfHeaderEnd (header ++ headerBreak ++ more) = some header.length := by
  induction header with
  | nil =>
      rw [List.nil_append, headerBreak, List.cons_append, indexOfHeaderEnd]
      exact if_pos ⟨more, rfl⟩
  | cons b header ih =>
      rw [List.mem_cons, not_or] at h
      have hnot : ¬ headerBreak <+: b :: (header ++ headerBreak ++ more) :=
        fun hbreak => h.1 (List.cons_prefix_cons.mp hbreak).1
      rw [List.cons_append, List.cons_append, indexOfHeaderEnd, if_neg hnot, ih h.2]
      rfl

theorem return_notMem_encode (h : ∀ c ∈ text, c.toNat < 128 ∧ c ≠ '\r') : 13 ∉ Utf8.encode text := by
  intro hmem
  obtain ⟨c, hc, hbyte⟩ := List.mem_flatMap.mp hmem
  obtain ⟨hascii, hne⟩ := h c hc
  rw [Utf8.encodeChar, if_pos hascii, List.mem_singleton] at hbyte
  have hnat := congrArg UInt8.toNat hbyte
  rw [Utf8.toNat_byte (by omega)] at hnat
  exact hne (Char.toNat_inj.mp hnat.symm)

theorem isDigit_of_mem {c : Char} (h : c ∈ Nat.toDigits 10 n) : c.isDigit = true :=
  Nat.isDigit_of_mem_toDigits (by decide) (by decide) h

theorem digit_range {c : Char} (h : c.isDigit = true) : 48 ≤ c.toNat ∧ c.toNat ≤ 57 := Char.isDigit_iff_toNat.mp h

theorem not_isWhitespace_of_isDigit {c : Char} (h : c.isDigit = true) : Session.isWhitespace c = false := by
  obtain ⟨hlow, hup⟩ := digit_range h
  simp only [Session.isWhitespace, Bool.or_eq_false_iff, Bool.and_eq_false_iff, decide_eq_false_iff_not]
  omega

theorem headerText_plain (n : Nat) : ∀ c ∈ headerText n, c.toNat < 128 ∧ c ≠ '\r' := by
  intro c hc
  rcases List.mem_append.mp hc with hc | hc
  · have hall : ("Content-Length: ".toList.all fun c => decide (c.toNat < 128 ∧ c ≠ '\r')) = true := by decide
    simpa using List.all_eq_true.mp hall c hc
  · have hdigit := digit_range (isDigit_of_mem hc)
    exact ⟨by omega, by rintro rfl; exact absurd hdigit.1 (by decide)⟩

theorem matchLength_headerText (n : Nat) : matchLength (headerText n) = some (Nat.toDigits 10 n) := by
  obtain ⟨x, run, hdigits⟩ := List.exists_cons_of_ne_nil (Nat.toDigits_ne_nil (n := n) (b := 10))
  have hall : ∀ c ∈ x :: run, c.isDigit = true := fun c hc => isDigit_of_mem (hdigits ▸ hc)
  have hspace : ∀ c ∈ (Nat.toDigits 10 n).head?, Session.isWhitespace c = false := by
    intro c hc
    rw [hdigits] at hc
    exact not_isWhitespace_of_isDigit (hall c (by simp [Option.some.inj hc]))
  obtain ⟨last₁, hword⟩ := Regex.leads_word "Content-Length:".toList none (' ' :: Nat.toDigits 10 n) []
  obtain ⟨last₂, hblank⟩ := Regex.leads_many (p := Session.isWhitespace) [' '] (by simp; decide) hspace last₁ []
  obtain ⟨last₃, hrun⟩ := Regex.leads_several (p := Char.isDigit) run [] (hall x (by simp))
    (fun c hc => hall c (by simp [hc])) (by simp) last₂ []
  rw [List.append_nil, ← hdigits] at hrun
  have hexec : contentLength.exec (headerText n) = _ := (hword.seq (hblank.seq (hrun.group (n := 1)))).exec
  rw [matchLength, hexec]
  simp [Cursor.captured]

theorem encode_append (text more : List Char) : Utf8.encode (text ++ more) = Utf8.encode text ++ Utf8.encode more :=
  List.flatMap_append

theorem isFinite_of_le (h : n ≤ maxBufferLength) : isFinite n = true := by
  have hsum : 1024 = 54 + 970 := rfl
  have hpos : 0 < 2 ^ 970 := Nat.two_pow_pos 970
  rw [isFinite, decide_eq_true_iff, hsum, Nat.pow_add]
  generalize 2 ^ 970 = half at hpos ⊢
  rw [maxBufferLength] at h
  omega

theorem read_frame (m : Message) (more : List UInt8) :
    tryReadFramedMessage (m.frame ++ more) = some (some m.value, more) := by
  have hfits := m.fits
  have hparse := parse_render m.value
  rw [Message.frame]
  generalize hbody : Utf8.encode (render m.value) = body at hfits
  have hlength : Nat.ofDigitChars 10 (Nat.toDigits 10 body.length) 0 = body.length := Nat.ofDigitChars_ten_toDigits
  have hbreak : Utf8.encode "\r\n\r\n".toList = headerBreak := by decide
  rw [encode_append, hbreak]
  generalize hheader : Utf8.encode (headerText body.length) = header
  have hend : indexOfHeaderEnd (header ++ headerBreak ++ body ++ more) = some header.length := by
    rw [List.append_assoc (header ++ headerBreak)]
    exact indexOfHeaderEnd_break (hheader ▸ return_notMem_encode (headerText_plain _)) _
  have htake : (header ++ headerBreak ++ body ++ more).take header.length = header := by simp
  have hdrop : (header ++ headerBreak ++ body ++ more).drop (header.length + 4) = body ++ more := by
    rw [List.append_assoc (header ++ headerBreak)]
    exact List.drop_left' (by simp [headerBreak])
  have hmatch : matchLength (Utf8.decode ((header ++ headerBreak ++ body ++ more).take header.length)) =
      some (Nat.toDigits 10 body.length) := by
    rw [htake, ← hheader, Utf8.decode_encode, matchLength_headerText]
  have hlong : header.length + 4 + body.length ≤ (header ++ headerBreak ++ body ++ more).length := by
    simp only [List.length_append, headerBreak, List.length_cons, List.length_nil]
    omega
  have hrest : (header ++ headerBreak ++ body ++ more).drop (header.length + 4 + body.length) = more := by
    rw [← List.drop_drop, hdrop, List.drop_left]
  rw [tryReadFramedMessage_frame hend hmatch (by rw [hlength]; exact isFinite_of_le hfits) (by rwa [hlength]), hlength,
    hdrop, hrest, List.take_left, ← hbody, Utf8.decode_encode, hparse]

theorem onStdout_frames (messages : List Message) (more : List UInt8) :
    onStdout [] (messages.flatMap Message.frame ++ more) =
      (messages.map (fun m => some m.value) ++ (onStdout [] more).1, (onStdout [] more).2) := by
  induction messages with
  | nil => rfl
  | cons m messages ih =>
      rw [onStdout] at ih ⊢
      rw [List.flatMap_cons, List.append_assoc, List.nil_append, Framing.drain_some (read_frame m _)]
      rw [List.nil_append] at ih
      rw [ih]
      rfl

/-- Of a frame that has not come as a whole nothing is read. -/
theorem read_take (m : Message) {k : Nat} (hk : k < m.frame.length) : tryReadFramedMessage (m.frame.take k) = none := by
  cases h : tryReadFramedMessage (m.frame.take k) with
  | none => rfl
  | some found =>
      obtain ⟨message, rest⟩ := found
      have hwhole := tryReadFramedMessage_append (m.frame.drop k) h
      have hframe := read_frame m []
      rw [List.append_nil] at hframe
      rw [List.take_append_drop, hframe] at hwhole
      obtain ⟨-, hrest⟩ := Prod.mk.inj (Option.some.inj hwhole)
      have hlength := congrArg List.length hrest
      rw [List.length_append, List.length_drop, List.length_nil] at hlength
      omega

def ping : Message := ⟨.str "ping", by decide⟩

end Writing

end Kross.Mcp.Rpc.Stdio

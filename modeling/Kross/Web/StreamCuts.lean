import Kross.Web.StreamChunks

namespace Kross.Web.Sse

open Lines Utf8

/-- A line of a stream and the kind of its end. -/
structure Line where
  content : List Char
  crlf : Bool
  noNewline : '\n' ∉ content
  noReturn : content.getLast? ≠ some '\r'

def Line.text (l : Line) : List Char := l.content ++ if l.crlf then ['\r', '\n'] else ['\n']

structure Event where
  lines : List Line
  blankCrlf : Bool
  nonempty : lines ≠ []
  proper : ∀ l ∈ lines, l.content ≠ []

/-- The line that ends an event. -/
def Event.blank (e : Event) : Line := ⟨[], e.blankCrlf, by simp, by simp⟩

def Event.all (e : Event) : List Line := e.lines ++ [e.blank]

def linesText (ls : List Line) : List Char := ls.flatMap Line.text

theorem linesText_cons (l : Line) (ls : List Line) : linesText (l :: ls) = l.text ++ linesText ls := List.flatMap_cons

theorem linesText_append (ls ms : List Line) : linesText (ls ++ ms) = linesText ls ++ linesText ms := List.flatMap_append

/-- Events, with a byte order mark in front of them or without one. -/
structure Stream where
  bom : Bool
  events : List Event
  plain : (linesText (events.flatMap Event.all)).head? ≠ some '\uFEFF'

namespace Stream

def lines (s : Stream) : List Line := s.events.flatMap Event.all

def text (s : Stream) : List Char := linesText s.lines

def bytes (s : Stream) : List UInt8 := encode (if s.bom then '\uFEFF' :: s.text else s.text)

end Stream

/-- Normalized but where the text is cut. -/
def normalizeWith (cut : Nat → Bool) : Nat → List Char → List Char
  | _, [] => []
  | i, '\r' :: '\n' :: text =>
    if cut (i + 1) then '\r' :: '\n' :: normalizeWith cut (i + 2) text else '\n' :: normalizeWith cut (i + 2) text
  | i, c :: text => c :: normalizeWith cut (i + 1) text

section Normalizing

variable {cut : Nat → Bool} {i : Nat} {c : Char} {text piece : List Char}

theorem normalizeWith_other (h : c = '\r' → text.head? ≠ some '\n') (i : Nat) :
    normalizeWith cut i (c :: text) = c :: normalizeWith cut (i + 1) text := by
  rw [normalizeWith]
  rintro rest rfl rfl
  exact h rfl rfl

theorem normalize_other (h : c = '\r' → text.head? ≠ some '\n') : normalize (c :: text) = c :: normalize text := by
  rw [normalize]
  rintro rest rfl rfl
  exact h rfl rfl

/-- A piece is normalized by itself. -/
theorem normalizeWith_piece (hinside : ∀ j, i < j → j < i + piece.length → cut j = false)
    (hend : cut (i + piece.length) = true) (text : List Char) :
    normalizeWith cut i (piece ++ text) = normalize piece ++ normalizeWith cut (i + piece.length) text := by
  induction piece using normalize.induct generalizing i with
  | case1 => rfl
  | case2 piece ih =>
      have hcut : cut (i + 1) = false := hinside (i + 1) (by omega) (by simp)
      have hlength : i + ('\r' :: '\n' :: piece).length = i + 2 + piece.length := by
        simp only [List.length_cons]
        omega
      rw [hlength] at hinside hend
      rw [List.cons_append, List.cons_append, normalizeWith, hcut, normalize, hlength,
        ih (fun j hj hlt => hinside j (by omega) hlt) hend]
      rfl
  | case3 c piece hother ih =>
      have hhead : c = '\r' → piece.head? ≠ some '\n' := by
        rintro rfl hhead
        obtain ⟨rest, rfl⟩ := List.head?_eq_some_iff.mp hhead
        exact hother rest rfl rfl
      have hlength : i + (c :: piece).length = i + 1 + piece.length := by
        rw [List.length_cons]
        omega
      rw [hlength] at hinside hend
      rw [normalize_other hhead, List.cons_append, hlength]
      have hrest := ih (fun j hj hlt => hinside j (by omega) hlt) hend
      by_cases hcut : c = '\r' ∧ piece = [] ∧ text.head? = some '\n'
      · obtain ⟨rfl, rfl, hnewline⟩ := hcut
        obtain ⟨rest, rfl⟩ := List.head?_eq_some_iff.mp hnewline
        have hend' : cut (i + 1) = true := hend
        rw [List.nil_append, normalizeWith, if_pos hend', List.length_nil, Nat.add_zero,
          normalizeWith_other (by intro h; exact absurd h (by decide))]
        rfl
      · have hboth : c = '\r' → (piece ++ text).head? ≠ some '\n' := by
          rintro rfl hnewline
          cases piece with
          | nil => exact hcut ⟨rfl, rfl, hnewline⟩
          | cons d piece => exact hhead rfl hnewline
        rw [normalizeWith_other hboth, hrest]
        rfl

/-- A text that has no line end and does not begin one stays. -/
theorem normalizeWith_content (hnewline : '\n' ∉ piece) (hreturn : piece.getLast? ≠ some '\r') (i : Nat) (text : List Char) :
    normalizeWith cut i (piece ++ text) = piece ++ normalizeWith cut (i + piece.length) text := by
  induction piece generalizing i with
  | nil => rfl
  | cons c piece ih =>
      rw [List.mem_cons, not_or] at hnewline
      have hboth : c = '\r' → (piece ++ text).head? ≠ some '\n' := by
        rintro rfl hhead
        cases piece with
        | nil => exact hreturn rfl
        | cons d piece =>
            obtain rfl := Option.some.inj hhead
            exact hnewline.2 List.mem_cons_self
      have hrest : piece.getLast? ≠ some '\r' := by
        cases piece with
        | nil => simp
        | cons d piece => rwa [List.getLast?_cons_cons] at hreturn
      rw [List.cons_append, normalizeWith_other hboth, ih hnewline.2 hrest, List.length_cons, Nat.add_assoc,
        Nat.add_comm 1]
      rfl

end Normalizing

/-- The texts of the chunks. -/
def texts (decoder : TextDecoder) : List (List UInt8) → List (List Char)
  | [] => []
  | chunk :: chunks => (decoder.decode chunk).2 :: texts (decoder.decode chunk).1 chunks

/-- Where pieces begin and end. -/
def cuts : Nat → List (List Char) → List Nat
  | i, [] => [i]
  | i, piece :: pieces => i :: cuts (i + piece.length) pieces

def cutsOf (chunks : List (List UInt8)) (j : Nat) : Bool := j ∈ cuts 0 (texts .fresh chunks)

/-- A line as it comes into the buffer. -/
def markLine (cut : Nat → Bool) (i : Nat) (l : Line) : Marked := ⟨l.content, l.crlf && cut (i + l.content.length + 1)⟩

def markLines (cut : Nat → Bool) : Nat → List Line → List Marked
  | _, [] => []
  | i, l :: ls => markLine cut i l :: markLines cut (i + l.text.length) ls

def markEvent (cut : Nat → Bool) (i : Nat) (e : Event) : MarkedEvent :=
  ⟨markLines cut i e.lines, (markLine cut (i + (linesText e.lines).length) e.blank).cut⟩

def markEvents (cut : Nat → Bool) : Nat → List Event → List MarkedEvent
  | _, [] => []
  | i, e :: es => markEvent cut i e :: markEvents cut (i + (linesText e.all).length) es

section Cutting

variable {cut : Nat → Bool} {i j : Nat}

theorem received_eq (decoder : TextDecoder) (chunks : List (List UInt8)) :
    received decoder chunks = (texts decoder chunks).flatMap normalize := by
  induction chunks generalizing decoder with
  | nil => rfl
  | cons chunk chunks ih => rw [received, ih, texts, List.flatMap_cons]

theorem texts_flatten (decoder : TextDecoder) (chunks : List (List UInt8)) :
    (texts decoder chunks).flatten = (decoder.decode chunks.flatten).2 := by
  induction chunks generalizing decoder with
  | nil => rw [texts, List.flatten_nil, List.flatten_nil, TextDecoder.decode_nil]
  | cons chunk chunks ih => rw [texts, List.flatten_cons, ih, List.flatten_cons, TextDecoder.decode_append]

theorem mem_cuts_texts (decoder : TextDecoder) (chunks : List (List UInt8)) :
    j ∈ cuts i (texts decoder chunks) ↔
      ∃ before after, chunks = before ++ after ∧ j = i + (decoder.decode before.flatten).2.length := by
  induction chunks generalizing decoder i with
  | nil =>
      rw [texts, cuts, List.mem_singleton]
      constructor
      · rintro rfl
        exact ⟨[], [], rfl, by rw [List.flatten_nil, TextDecoder.decode_nil]; rfl⟩
      · rintro ⟨before, after, hchunks, rfl⟩
        obtain ⟨rfl, rfl⟩ := List.append_eq_nil_iff.mp hchunks.symm
        rw [List.flatten_nil, TextDecoder.decode_nil]
        rfl
  | cons chunk chunks ih =>
      rw [texts, cuts, List.mem_cons, ih]
      constructor
      · rintro (rfl | ⟨before, after, rfl, rfl⟩)
        · exact ⟨[], chunk :: chunks, rfl, by rw [List.flatten_nil, TextDecoder.decode_nil]; rfl⟩
        · refine ⟨chunk :: before, after, rfl, ?_⟩
          rw [List.flatten_cons, TextDecoder.decode_append, List.length_append, Nat.add_assoc]
      · rintro ⟨before, after, hchunks, rfl⟩
        cases before with
        | nil =>
            left
            rw [List.flatten_nil, TextDecoder.decode_nil]
            rfl
        | cons first before =>
            obtain ⟨rfl, rfl⟩ := List.cons_eq_cons.mp hchunks
            right
            refine ⟨before, after, rfl, ?_⟩
            rw [List.flatten_cons, TextDecoder.decode_append, List.length_append, Nat.add_assoc]

theorem le_of_mem_cuts {pieces : List (List Char)} (h : j ∈ cuts i pieces) : i ≤ j := by
  induction pieces generalizing i with
  | nil => exact Nat.le_of_eq (List.mem_singleton.mp h).symm
  | cons piece pieces ih =>
      rcases List.mem_cons.mp h with rfl | h
      · exact Nat.le_refl j
      · exact Nat.le_of_add_right_le (ih h)

theorem mem_cuts_self (i : Nat) (pieces : List (List Char)) : i ∈ cuts i pieces := by
  cases pieces with
  | nil => exact List.mem_singleton_self i
  | cons piece pieces => exact List.mem_cons_self

/-- Pieces normalized one by one are the text normalized but where they meet. -/
theorem normalize_pieces (pieces : List (List Char)) (h : ∀ j, i ≤ j → (cut j = true ↔ j ∈ cuts i pieces)) :
    pieces.flatMap normalize = normalizeWith cut i pieces.flatten := by
  induction pieces generalizing i with
  | nil => rfl
  | cons piece pieces ih =>
      have hrest : ∀ j, i + piece.length ≤ j → (cut j = true ↔ j ∈ cuts (i + piece.length) pieces) := by
        intro j hj
        rw [h j (by omega), cuts, List.mem_cons]
        refine ⟨?_, Or.inr⟩
        rintro (rfl | hmem)
        · have hlength : piece.length = 0 := by omega
          rw [hlength]
          exact mem_cuts_self j pieces
        · exact hmem
      have hinside : ∀ j, i < j → j < i + piece.length → cut j = false := by
        intro j hj hlt
        by_contra hcut
        rw [Bool.not_eq_false, h j (by omega), cuts, List.mem_cons] at hcut
        rcases hcut with rfl | hmem
        · omega
        · have := le_of_mem_cuts hmem
          omega
      have hend : cut (i + piece.length) = true := (hrest _ (Nat.le_refl _)).mpr (mem_cuts_self _ _)
      rw [List.flatMap_cons, List.flatten_cons, normalizeWith_piece hinside hend, ih hrest]

theorem length_text (l : Line) : l.text.length = l.content.length + if l.crlf then 2 else 1 := by
  rw [Line.text, List.length_append]
  cases l.crlf with
  | true => rfl
  | false => rfl

theorem normalizeWith_line (l : Line) (i : Nat) (text : List Char) :
    normalizeWith cut i (l.text ++ text) =
      (markLine cut i l).shown ++ '\n' :: normalizeWith cut (i + l.text.length) text := by
  rw [length_text, Line.text, List.append_assoc, normalizeWith_content l.noNewline l.noReturn, Marked.shown, markLine]
  cases hcrlf : l.crlf with
  | false =>
      have hother : '\n' = '\r' → text.head? ≠ some '\n' := fun h => absurd h (by decide)
      simp only [Bool.false_eq_true, if_false, Bool.false_and, List.cons_append, List.nil_append]
      rw [normalizeWith_other hother, Nat.add_assoc]
  | true =>
      simp only [if_true, Bool.true_and, List.cons_append, List.nil_append]
      rw [normalizeWith, ← Nat.add_assoc]
      cases cut (i + l.content.length + 1) with
      | true => simp
      | false => simp

theorem normalizeWith_lines (ls : List Line) (i : Nat) (text : List Char) :
    normalizeWith cut i (linesText ls ++ text) =
      terminated '\n' ((markLines cut i ls).map Marked.shown) ++ normalizeWith cut (i + (linesText ls).length) text := by
  induction ls generalizing i with
  | nil => rfl
  | cons l ls ih =>
      rw [linesText, List.flatMap_cons, List.append_assoc, normalizeWith_line, ← linesText, ih, markLines, List.map_cons,
        terminated_cons, List.length_append, Nat.add_assoc, List.append_assoc]
      rfl

theorem normalizeWith_events (es : List Event) (i : Nat) :
    normalizeWith cut i (linesText (es.flatMap Event.all)) = (markEvents cut i es).flatMap MarkedEvent.text := by
  induction es generalizing i with
  | nil => rfl
  | cons e es ih =>
      have hall : linesText e.all = linesText e.lines ++ e.blank.text := by
        rw [linesText, Event.all, List.flatMap_append, List.flatMap_singleton]
        rfl
      have hsplit : linesText ((e :: es).flatMap Event.all) =
          linesText e.lines ++ (e.blank.text ++ linesText (es.flatMap Event.all)) := by
        rw [← List.append_assoc, ← hall, linesText, List.flatMap_cons, List.flatMap_append]
        rfl
      rw [hsplit, normalizeWith_lines, normalizeWith_line, Nat.add_assoc, ← List.length_append, ← hall, ih, markEvents,
        List.flatMap_cons]
      have hblank (m : Marked) (h : m.content = []) :
          m.shown ++ ['\n'] = if m.cut then ['\r', '\n'] else ['\n'] := by
        rw [Marked.shown, h]
        cases m.cut with
        | true => rfl
        | false => rfl
      have hmark := hblank (markLine cut (i + (linesText e.lines).length) e.blank) rfl
      rw [MarkedEvent.text, markEvent, MarkedEvent.shown, ← hmark]
      simp only [List.append_assoc, List.cons_append, List.nil_append]

end Cutting

/-- The bytes of a stream, in chunks. -/
structure CutStream where
  stream : Stream
  chunks : List (List UInt8)
  whole : chunks.flatten = stream.bytes

/-- A chunk ends when the text has been received. -/
def EndsAt (chunks : List (List UInt8)) (text : List Char) : Prop :=
  ∃ before after, chunks = before ++ after ∧ (TextDecoder.fresh.decode before.flatten).2 = text

/-- A line whose end is neither that of data nor that of an event. -/
def Harmless (content : List Char) : Prop := content ≠ [] ∧ ¬ dataLabel <+: content

/-- No chunk ends between the CR and the LF of a line that carries data or ends an event. -/
def CutStream.LineEndsWhole (c : CutStream) : Prop :=
  ∀ before l after, c.stream.lines = before ++ l :: after → l.crlf = true →
    EndsAt c.chunks (linesText before ++ l.content ++ ['\r']) → Harmless l.content

section Deciding

variable {cut : Nat → Bool} {i : Nat}

theorem markLines_append (ls ms : List Line) (i : Nat) :
    markLines cut i (ls ++ ms) = markLines cut i ls ++ markLines cut (i + (linesText ls).length) ms := by
  induction ls generalizing i with
  | nil => rfl
  | cons l ls ih =>
      rw [List.cons_append, markLines, ih, markLines, linesText_cons, List.length_append, Nat.add_assoc]
      rfl

theorem mem_markLines {m : Marked} {ls : List Line} :
    m ∈ markLines cut i ls ↔
      ∃ before l after, ls = before ++ l :: after ∧ m = markLine cut (i + (linesText before).length) l := by
  constructor
  · intro h
    induction ls generalizing i with
    | nil => cases h
    | cons l ls ih =>
        rcases List.mem_cons.mp h with rfl | h
        · exact ⟨[], l, ls, rfl, rfl⟩
        · obtain ⟨before, l', after, rfl, rfl⟩ := ih h
          refine ⟨l :: before, l', after, rfl, ?_⟩
          rw [linesText_cons, List.length_append, Nat.add_assoc]
  · rintro ⟨before, l, after, rfl, rfl⟩
    rw [markLines_append]
    exact List.mem_append_right _ List.mem_cons_self

theorem markLines_contents (i : Nat) (ls : List Line) : (markLines cut i ls).map Marked.content = ls.map Line.content := by
  induction ls generalizing i with
  | nil => rfl
  | cons l ls ih =>
      rw [markLines, List.map_cons, List.map_cons, ih]
      rfl

theorem markEvent_sound (i : Nat) (e : Event) : (markEvent cut i e).Sound := by
  have hcontents : (markEvent cut i e).contents = e.lines.map Line.content := markLines_contents i e.lines
  constructor
  · intro hnil
    have hlines := congrArg (List.map Marked.content) hnil
    rw [markEvent, markLines_contents] at hlines
    exact e.nonempty (List.map_eq_nil_iff.mp hlines)
  · rw [hcontents]
    intro line hline
    obtain ⟨l, hl, rfl⟩ := List.mem_map.mp hline
    exact ⟨e.proper l hl, l.noNewline⟩

theorem markEvents_sound (i : Nat) (es : List Event) : ∀ e ∈ markEvents cut i es, e.Sound := by
  induction es generalizing i with
  | nil => exact fun e he => absurd he List.not_mem_nil
  | cons e es ih =>
      intro marked hmarked
      rcases List.mem_cons.mp hmarked with rfl | hmarked
      · exact markEvent_sound i e
      · exact ih _ marked hmarked

theorem markEvents_contents (i : Nat) (es : List Event) :
    (markEvents cut i es).map MarkedEvent.contents = es.map (fun e => e.lines.map Line.content) := by
  induction es generalizing i with
  | nil => rfl
  | cons e es ih =>
      rw [markEvents, List.map_cons, List.map_cons, ih]
      exact congrArg (· :: _) (markLines_contents i e.lines)

theorem markEvents_whole_iff (i : Nat) (es : List Event) :
    (∀ e ∈ markEvents cut i es, e.blank = false ∧ ∀ l ∈ e.lines, l.cut = true → l.isData = false) ↔
      ∀ m ∈ markLines cut i (es.flatMap Event.all), m.cut = true → Harmless m.content := by
  induction es generalizing i with
  | nil => exact iff_of_true (fun e he => absurd he List.not_mem_nil) (fun m hm => absurd hm List.not_mem_nil)
  | cons e es ih =>
      have hlines : ∀ l ∈ markLines cut i e.lines, l.content ≠ [] := by
        intro l hl
        obtain ⟨before, line, after, hsplit, rfl⟩ := mem_markLines.mp hl
        exact e.proper line (by rw [hsplit]; simp)
      have hline : ∀ l ∈ markLines cut i e.lines, (l.cut = true → l.isData = false) ↔ (l.cut = true → Harmless l.content) := by
        intro l hl
        refine imp_congr_right fun _ => ?_
        rw [Marked.isData, decide_eq_false_iff_not, Harmless, and_iff_right (hlines l hl)]
      have hblank : (markEvent cut i e).blank = false ↔
          ((markLine cut (i + (linesText e.lines).length) e.blank).cut = true →
            Harmless (markLine cut (i + (linesText e.lines).length) e.blank).content) := by
        rw [← Bool.not_eq_true]
        exact imp_congr_right fun _ => iff_of_false not_false (fun h => h.1 rfl)
      rw [markEvents, List.forall_mem_cons, ih, List.flatMap_cons, markLines_append, List.forall_mem_append, Event.all,
        markLines_append, List.forall_mem_append, hblank]
      have hlast : markLines cut (i + (linesText e.lines).length) [e.blank] =
          [markLine cut (i + (linesText e.lines).length) e.blank] := rfl
      have hsame : (∀ l ∈ (markEvent cut i e).lines, l.cut = true → l.isData = false) ↔
          ∀ m ∈ markLines cut i e.lines, m.cut = true → Harmless m.content :=
        forall_congr' fun l => forall_congr' fun hl => hline l hl
      rw [hsame, hlast, List.forall_mem_singleton, and_comm (a := ∀ m ∈ markLines cut i e.lines, _)]

theorem decode_bytes (s : Stream) : (TextDecoder.fresh.decode s.bytes).2 = s.text := by
  have hplain : s.text.head? ≠ some '\uFEFF' := s.plain
  rw [TextDecoder.decode, Stream.bytes]
  simp only [TextDecoder.fresh, feed_encode, Bool.false_eq_true, false_or]
  cases s.bom with
  | true => simp
  | false =>
      by_cases hnil : s.text = []
      · simp [hnil]
      · simp [hnil, hplain]

theorem CutStream.text_eq (c : CutStream) : (texts .fresh c.chunks).flatten = linesText c.stream.lines := by
  rw [texts_flatten, c.whole, decode_bytes]
  rfl

theorem CutStream.frames_eq (c : CutStream) :
    readEventStream c.chunks = (framesOf [] (markEvents (cutsOf c.chunks) 0 c.stream.events)).map frameOfLines := by
  have hcuts : ∀ j, 0 ≤ j → (cutsOf c.chunks j = true ↔ j ∈ cuts 0 (texts .fresh c.chunks)) :=
    fun j _ => by rw [cutsOf, decide_eq_true_iff]
  have hempty : Proper [] := fun line hline => absurd hline List.not_mem_nil
  rw [readEventStream_eq, received_eq, normalize_pieces _ hcuts, c.text_eq, Stream.lines, normalizeWith_events]
  exact drain_events hempty (markEvents_sound 0 c.stream.events)

/-- Text that the stream begins with has come at a cut exactly when a chunk ends at its length. -/
theorem CutStream.endsAt_iff (c : CutStream) {start : List Char} (h : start <+: c.stream.text) :
    EndsAt c.chunks start ↔ cutsOf c.chunks start.length = true := by
  rw [cutsOf, decide_eq_true_iff, mem_cuts_texts]
  refine exists_congr fun before => exists_congr fun after => and_congr_right fun hchunks => ?_
  have hprefix : (TextDecoder.fresh.decode before.flatten).2 <+: c.stream.text := by
    rw [← decode_bytes, ← c.whole, hchunks, List.flatten_append, TextDecoder.decode_append]
    exact List.prefix_append _ _
  rw [Nat.zero_add]
  constructor
  · rintro rfl
    rfl
  · intro hlength
    exact (List.prefix_of_prefix_length_le hprefix h (Nat.le_of_eq hlength.symm)).eq_of_length hlength.symm

theorem CutStream.start_isPrefix (c : CutStream) {before after : List Line} {l : Line}
    (h : c.stream.lines = before ++ l :: after) (hcrlf : l.crlf = true) :
    linesText before ++ l.content ++ ['\r'] <+: c.stream.text := by
  refine ⟨'\n' :: linesText after, ?_⟩
  rw [Stream.text, h, linesText_append, linesText_cons, Line.text, if_pos hcrlf]
  simp

theorem CutStream.lineEndsWhole_iff (c : CutStream) :
    c.LineEndsWhole ↔ ∀ m ∈ markLines (cutsOf c.chunks) 0 c.stream.lines, m.cut = true → Harmless m.content := by
  have hlength (before : List Line) (l : Line) :
      (linesText before ++ l.content ++ ['\r']).length = 0 + (linesText before).length + l.content.length + 1 := by
    simp only [List.length_append, List.length_cons, List.length_nil]
    omega
  constructor
  · intro h m hm hcut
    obtain ⟨before, l, after, hlines, rfl⟩ := mem_markLines.mp hm
    obtain ⟨hcrlf, hends⟩ := Bool.and_eq_true_iff.mp hcut
    rw [← hlength, ← c.endsAt_iff (c.start_isPrefix hlines hcrlf)] at hends
    exact h before l after hlines hcrlf hends
  · intro h before l after hlines hcrlf hends
    rw [c.endsAt_iff (c.start_isPrefix hlines hcrlf), hlength] at hends
    exact h _ (mem_markLines.mpr ⟨before, l, after, hlines, rfl⟩) (Bool.and_eq_true_iff.mpr ⟨hcrlf, hends⟩)

theorem CutStream.events_iff (c : CutStream) :
    readEventStream c.chunks = c.stream.events.map (fun e => frameOfLines (e.lines.map Line.content)) ↔ c.LineEndsWhole := by
  have hcontents : c.stream.events.map (fun e => frameOfLines (e.lines.map Line.content)) =
      (markEvents (cutsOf c.chunks) 0 c.stream.events).map (fun e => frameOfLines e.contents) := by
    have hmarks : (markEvents (cutsOf c.chunks) 0 c.stream.events).map MarkedEvent.contents = _ :=
      markEvents_contents 0 c.stream.events
    have hmap := congrArg (List.map frameOfLines) hmarks
    rw [List.map_map, List.map_map] at hmap
    exact hmap.symm
  rw [c.frames_eq, hcontents, frames_same_iff, markEvents_whole_iff, c.lineEndsWhole_iff]
  rfl

def Stream.uncut (s : Stream) : CutStream := ⟨s, [s.bytes], by simp⟩

theorem Stream.uncut_whole (s : Stream) : s.uncut.LineEndsWhole := by
  rintro before l after hlines hcrlf ⟨first, rest, hchunks, htext⟩
  exfalso
  have hprefix := s.uncut.start_isPrefix hlines hcrlf
  cases first with
  | nil =>
      rw [List.flatten_nil, TextDecoder.decode_nil] at htext
      simp at htext
  | cons chunk first =>
      obtain ⟨rfl, hnil⟩ := List.cons_eq_cons.mp hchunks
      obtain ⟨rfl, rfl⟩ := List.append_eq_nil_iff.mp hnil.symm
      rw [List.flatten_cons, List.flatten_nil, List.append_nil, decode_bytes, Stream.text] at htext
      have hlength := congrArg List.length htext
      change s.lines = before ++ l :: after at hlines
      rw [hlines, linesText_append, linesText_cons, Line.text, if_pos hcrlf] at hlength
      simp only [List.length_append, List.length_cons, List.length_nil] at hlength
      omega

/-- Chunks give the frames of the uncut stream exactly when none ends between the CR and the LF of a
data line or of a blank one. -/
theorem readEventStream_uncut_iff (c : CutStream) :
    readEventStream c.chunks = readEventStream [c.chunks.flatten] ↔ c.LineEndsWhole := by
  have huncut := c.stream.uncut.events_iff.mpr c.stream.uncut_whole
  rw [c.whole, ← c.events_iff]
  change readEventStream [c.stream.bytes] = _ at huncut
  rw [huncut]
  rfl

theorem readEventStream_single {chunks : List (List UInt8)} (raw : List Char)
    (h : splitFrame (received .fresh chunks) = some (raw, [])) : readEventStream chunks = [frameOf raw] := by
  have hnone : frames.next [] = none := rfl
  rw [readEventStream_eq, Framing.drain_some h, Framing.drain_none hnone]
  rfl

def letter : Event :=
  ⟨[⟨"data: a".toList, true, by decide, by decide⟩], true, by decide, by decide⟩

def letterCut : CutStream where
  stream := ⟨false, [letter], by decide⟩
  chunks := [encode "data: a\r".toList, encode "\n\r\n".toList]
  whole := by decide

/-- The CR of a cut line end is taken for data. -/
theorem cut_line_end_read :
    readEventStream letterCut.chunks = [⟨some "a\r".toList⟩] ∧
      readEventStream [letterCut.chunks.flatten] = [⟨some "a".toList⟩] :=
  ⟨readEventStream_single "data: a\r".toList (by decide),
    readEventStream_single "data: a".toList (by decide)⟩

end Deciding

end Kross.Web.Sse

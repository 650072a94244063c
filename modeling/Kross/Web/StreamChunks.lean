import Kross.Framing
import Kross.Lines
import Kross.Utf8
import Mathlib.Algebra.GroupWithZero.Nat

namespace Kross.Web.Sse

open Lines Utf8

structure SseFrame where
  data : Option (List Char)

/-- `replace(/\r\n/g, '\n')` -/
def normalize : List Char → List Char
  | [] => []
  | '\r' :: '\n' :: text => '\n' :: normalize text
  | c :: text => c :: normalize text

/-- The text in front of the first blank line, and the text behind it. -/
def splitFrame : List Char → Option (List Char × List Char)
  | [] => none
  | c :: text =>
    if ['\n', '\n'] <+: c :: text then some ([], text.drop 1)
    else (splitFrame text).map (fun split => (c :: split.1, split.2))

def dataLabel : List Char := "data:".toList

/-- `line.slice(5).replace(/^ /, '')` -/
def dataValue (line : List Char) : List Char :=
  let value := line.drop dataLabel.length
  if value.head? = some ' ' then value.tail else value

def frameData (ls : List (List Char)) : List Char :=
  join '\n' ((ls.filter (fun line => dataLabel <+: line)).map dataValue)

def frameOfLines (ls : List (List Char)) : SseFrame := ⟨if frameData ls = [] then none else some (frameData ls)⟩

def frameOf (rawFrame : List Char) : SseFrame := frameOfLines (rawFrame.splitOn '\n')

section Splitting

variable {text rest raw more line : List Char} {ls : List (List Char)}

theorem splitFrame_length (h : splitFrame text = some (raw, rest)) : rest.length < text.length := by
  induction text generalizing raw with
  | nil => cases h
  | cons c text ih =>
      rw [splitFrame] at h
      split_ifs at h
      · cases h
        rw [List.length_drop, List.length_cons]
        omega
      · obtain ⟨⟨inner, behind⟩, hinner, hsplit⟩ := Option.map_eq_some_iff.mp h
        obtain ⟨-, rfl⟩ := Prod.mk.inj hsplit
        exact Nat.lt_trans (ih hinner) (Nat.lt_succ_self _)

theorem splitFrame_ne_nil (h : splitFrame text = some (raw, rest)) : text ≠ [] := by
  rintro rfl
  cases h

theorem splitFrame_append (h : splitFrame text = some (raw, rest)) (more : List Char) :
    splitFrame (text ++ more) = some (raw, rest ++ more) := by
  induction text generalizing raw with
  | nil => cases h
  | cons c text ih =>
      rw [splitFrame] at h
      rw [List.cons_append, splitFrame]
      split_ifs at h with hblank
      · cases h
        have hmore : ['\n', '\n'] <+: c :: (text ++ more) := hblank.trans (List.prefix_append (c :: text) more)
        have hlength := hblank.length_le
        simp only [List.length_cons, List.length_nil] at hlength
        rw [if_pos hmore, List.drop_append_of_le_length (by omega)]
      · obtain ⟨⟨inner, behind⟩, hinner, hsplit⟩ := Option.map_eq_some_iff.mp h
        obtain ⟨rfl, rfl⟩ := Prod.mk.inj hsplit
        obtain ⟨d, text, rfl⟩ := List.exists_cons_of_ne_nil (splitFrame_ne_nil hinner)
        have hnot : ¬ ['\n', '\n'] <+: c :: (d :: text ++ more) := by
          intro hmore
          refine hblank (List.prefix_of_prefix_length_le hmore (List.prefix_append (c :: d :: text) more) ?_)
          simp
        rw [if_neg hnot, ih hinner]
        rfl

def frames : Framing Char (List Char) :=
  ⟨splitFrame, splitFrame_length, fun more h => splitFrame_append h more⟩

theorem splitFrame_line (h : '\n' ∉ line) (text : List Char) :
    splitFrame (line ++ text) = (splitFrame text).map (fun split => (line ++ split.1, split.2)) := by
  induction line with
  | nil => simp
  | cons c line ih =>
      rw [List.mem_cons, not_or] at h
      have hnot : ¬ ['\n', '\n'] <+: c :: (line ++ text) := fun hblank => h.1 (List.cons_prefix_cons.mp hblank).1
      rw [List.cons_append, splitFrame, if_neg hnot, ih h.2]
      simp [Function.comp_def]

/-- Lines that are not blank, none of which goes over a line's end. -/
def Proper (ls : List (List Char)) : Prop := ∀ line ∈ ls, line ≠ [] ∧ '\n' ∉ line

theorem terminated_cons (line : List Char) (ls : List (List Char)) :
    terminated '\n' (line :: ls) = line ++ '\n' :: terminated '\n' ls := by
  simp [terminated]

theorem splitFrame_newline (h : Proper ls) (hls : ls ≠ []) (more : List Char) :
    splitFrame ('\n' :: (terminated '\n' ls ++ more)) =
      (splitFrame (terminated '\n' ls ++ more)).map (fun split => ('\n' :: split.1, split.2)) := by
  obtain ⟨line, ls, rfl⟩ := List.exists_cons_of_ne_nil hls
  obtain ⟨hne, hline⟩ := h line (by simp)
  obtain ⟨c, line, rfl⟩ := List.exists_cons_of_ne_nil hne
  have hnot : ¬ ['\n', '\n'] <+: '\n' :: (terminated '\n' ((c :: line) :: ls) ++ more) := by
    intro hblank
    rw [terminated_cons] at hblank
    have hc := (List.cons_prefix_cons.mp (List.cons_prefix_cons.mp hblank).2).1
    exact hline (List.mem_cons.mpr (Or.inl hc))
  rw [splitFrame, if_neg hnot]

theorem splitFrame_blank (h : Proper ls) (hls : ls ≠ []) (rest : List Char) :
    splitFrame (terminated '\n' ls ++ '\n' :: rest) = some (join '\n' ls, rest) := by
  induction ls with
  | nil => exact absurd rfl hls
  | cons line ls ih =>
      have hproper : Proper ls := fun l hl => h l (List.mem_cons_of_mem _ hl)
      rw [terminated_cons, List.append_assoc, List.cons_append, splitFrame_line (h line (by simp)).2]
      by_cases hnil : ls = []
      · subst hnil
        have hblank : ['\n', '\n'] <+: '\n' :: (terminated '\n' [] ++ '\n' :: rest) := ⟨rest, rfl⟩
        rw [splitFrame, if_pos hblank]
        simp [join, terminated]
      · rw [splitFrame_newline hproper hnil, ih hproper hnil, join_cons line hnil]
        rfl

theorem splitFrame_none (h : Proper ls) : splitFrame (terminated '\n' ls) = none := by
  induction ls with
  | nil => rfl
  | cons line ls ih =>
      have hproper : Proper ls := fun l hl => h l (List.mem_cons_of_mem _ hl)
      rw [terminated_cons, splitFrame_line (h line (by simp)).2]
      by_cases hnil : ls = []
      · subst hnil
        rfl
      · have hnewline := splitFrame_newline hproper hnil []
        rw [List.append_nil, ih hproper] at hnewline
        rw [hnewline]
        rfl

end Splitting

/-- The loop over the chunks, each of which is normalized by itself. -/
def readChunks (decoder : TextDecoder) (buffer : List Char) : List (List UInt8) → List SseFrame
  | [] => []
  | chunk :: chunks =>
    let decoded := decoder.decode chunk
    let drained := frames.drain (buffer ++ normalize decoded.2)
    drained.1.map frameOf ++ readChunks decoded.1 drained.2 chunks

def readEventStream (chunks : List (List UInt8)) : List SseFrame := readChunks .fresh [] chunks

/-- All that comes into the buffer. -/
def received (decoder : TextDecoder) : List (List UInt8) → List Char
  | [] => []
  | chunk :: chunks => normalize (decoder.decode chunk).2 ++ received (decoder.decode chunk).1 chunks

theorem readChunks_eq (decoder : TextDecoder) (buffer : List Char) (chunks : List (List UInt8))
    (h : splitFrame buffer = none) :
    readChunks decoder buffer chunks = (frames.drain (buffer ++ received decoder chunks)).1.map frameOf := by
  induction chunks generalizing decoder buffer with
  | nil =>
      rw [readChunks, received, List.append_nil, Framing.drain_none h]
      rfl
  | cons chunk chunks ih =>
      rw [readChunks, ih _ _ (frames.next_drain _), received, ← List.append_assoc,
        frames.drain_append (buffer ++ normalize (decoder.decode chunk).2), List.map_append]

theorem readEventStream_eq (chunks : List (List UInt8)) :
    readEventStream chunks = (frames.drain (received .fresh chunks)).1.map frameOf :=
  readChunks_eq .fresh [] chunks rfl

open Lines Utf8

/-- A line of a stream with its end, which a chunk may have cut. -/
structure Marked where
  content : List Char
  cut : Bool

def Marked.shown (l : Marked) : List Char := if l.cut then l.content ++ ['\r'] else l.content

/-- An event with the line that ends it. -/
structure MarkedEvent where
  lines : List Marked
  blank : Bool

namespace MarkedEvent

def contents (e : MarkedEvent) : List (List Char) := e.lines.map Marked.content

def shown (e : MarkedEvent) : List (List Char) := e.lines.map Marked.shown

/-- What comes into the buffer of an event. -/
def text (e : MarkedEvent) : List Char :=
  terminated '\n' e.shown ++ (if e.blank then ['\r', '\n'] else ['\n'])

structure Sound (e : MarkedEvent) : Prop where
  nonempty : e.lines ≠ []
  proper : Proper e.contents

end MarkedEvent

/-- The frames of events, by their lines; those of an event of which the last line end is cut
are kept for the next one. -/
def framesOf : List (List Char) → List MarkedEvent → List (List (List Char))
  | _, [] => []
  | kept, e :: es =>
    if e.blank then framesOf (kept ++ (e.shown ++ [['\r']])) es else (kept ++ e.shown) :: framesOf [] es

section Marks

variable {e : MarkedEvent} {es : List MarkedEvent} {kept : List (List Char)}

theorem shown_proper {l : Marked} (h : l.content ≠ [] ∧ '\n' ∉ l.content) : l.shown ≠ [] ∧ '\n' ∉ l.shown := by
  rw [Marked.shown]
  split_ifs
  · refine ⟨by simp, ?_⟩
    simp [h.2]
  · exact h

theorem MarkedEvent.Sound.shown (h : e.Sound) : e.shown ≠ [] ∧ Proper e.shown := by
  refine ⟨List.map_eq_nil_iff.not.mpr h.nonempty, fun line hline => ?_⟩
  obtain ⟨l, hl, rfl⟩ := List.mem_map.mp hline
  exact shown_proper (h.proper _ (List.mem_map_of_mem hl))

theorem Proper.append {ls ms : List (List Char)} (hls : Proper ls) (hms : Proper ms) : Proper (ls ++ ms) := by
  intro line hline
  rcases List.mem_append.mp hline with hline | hline
  · exact hls line hline
  · exact hms line hline

theorem splitOn_join_proper {ls : List (List Char)} (h : Proper ls) (hls : ls ≠ []) :
    frameOf (join '\n' ls) = frameOfLines ls := by
  rw [frameOf, splitOn_join hls fun line hline => (h line hline).2]

/-- What is drained of events are their frames. -/
theorem drain_events (hkept : Proper kept) (hes : ∀ e ∈ es, e.Sound) :
    (frames.drain (terminated '\n' kept ++ es.flatMap MarkedEvent.text)).1.map frameOf =
      (framesOf kept es).map frameOfLines := by
  induction es generalizing kept with
  | nil =>
      have hnone : frames.next (terminated '\n' kept) = none := splitFrame_none hkept
      rw [List.flatMap_nil, List.append_nil, Framing.drain_none hnone]
      rfl
  | cons e es ih =>
      have hrest : ∀ e ∈ es, e.Sound := fun e he => hes e (List.mem_cons_of_mem _ he)
      obtain ⟨hne, hshown⟩ := (hes e List.mem_cons_self).shown
      rw [List.flatMap_cons, framesOf, MarkedEvent.text]
      split_ifs
      · have hreturn : Proper [['\r']] := by simp [Proper]
        have htext : terminated '\n' kept ++ (terminated '\n' e.shown ++ ['\r', '\n'] ++ es.flatMap MarkedEvent.text) =
            terminated '\n' (kept ++ (e.shown ++ [['\r']])) ++ es.flatMap MarkedEvent.text := by
          simp [terminated]
        rw [htext]
        exact ih (hkept.append (hshown.append hreturn)) hrest
      · have htext : terminated '\n' kept ++ (terminated '\n' e.shown ++ ['\n'] ++ es.flatMap MarkedEvent.text) =
            terminated '\n' (kept ++ e.shown) ++ '\n' :: es.flatMap MarkedEvent.text := by
          simp [terminated]
        have hlines : kept ++ e.shown ≠ [] := by simp [hne]
        have hsplit := splitFrame_blank (hkept.append hshown) hlines (es.flatMap MarkedEvent.text)
        have hempty : Proper [] := fun line hline => absurd hline List.not_mem_nil
        have hbehind := ih hempty hrest
        rw [terminated, List.flatMap_nil, List.nil_append] at hbehind
        rw [htext, Framing.drain_some hsplit, List.map_cons, List.map_cons,
          splitOn_join_proper (hkept.append hshown) hlines, hbehind]

theorem framesOf_length (kept : List (List Char)) (es : List MarkedEvent) :
    (framesOf kept es).length = es.countP (fun e => !e.blank) := by
  induction es generalizing kept with
  | nil => rfl
  | cons e es ih =>
      rw [framesOf]
      split_ifs with h
      · rw [ih, List.countP_cons_of_neg (by simp [h])]
      · rw [List.length_cons, ih, List.countP_cons_of_pos (by simpa using h)]

theorem framesOf_whole (h : ∀ e ∈ es, e.blank = false) : framesOf [] es = es.map MarkedEvent.shown := by
  induction es with
  | nil => rfl
  | cons e es ih =>
      rw [framesOf, if_neg (by simp [h e]), ih fun e he => h e (List.mem_cons_of_mem _ he)]
      rfl

theorem dataValue_return {line : List Char} (h : dataLabel <+: line) : dataValue (line ++ ['\r']) = dataValue line ++ ['\r'] := by
  obtain ⟨value, rfl⟩ := h
  rw [dataValue, dataValue, List.append_assoc, List.drop_left, List.drop_left]
  cases value with
  | nil => rfl
  | cons c value =>
      by_cases hc : c = ' '
      · simp [hc]
      · simp [hc]

theorem isData_shown (l : Marked) : dataLabel <+: l.shown ↔ dataLabel <+: l.content := by
  rw [Marked.shown]
  split_ifs
  · constructor
    · intro h
      rcases List.prefix_concat_iff.mp h with heq | h
      · have hlast := congrArg List.getLast? heq
        rw [List.getLast?_concat] at hlast
        exact absurd hlast (by decide)
      · exact h
    · exact fun h => h.trans (List.prefix_append _ _)
  · exact Iff.rfl

def dataValues (ls : List (List Char)) : List (List Char) := (ls.filter (fun line => dataLabel <+: line)).map dataValue

def Marked.isData (l : Marked) : Bool := dataLabel <+: l.content

theorem dataValues_cons (line : List Char) (ls : List (List Char)) :
    dataValues (line :: ls) = if dataLabel <+: line then dataValue line :: dataValues ls else dataValues ls := by
  rw [dataValues, List.filter_cons]
  by_cases h : dataLabel <+: line
  · simp [h, dataValues]
  · simp [h, dataValues]

theorem dataValue_shown {l : Marked} (h : l.isData = true) :
    dataValue l.shown = dataValue l.content ++ (if l.cut then ['\r'] else []) := by
  rw [Marked.shown]
  split_ifs
  · exact dataValue_return (of_decide_eq_true h)
  · exact (List.append_nil _).symm

/-- Each cut behind a data line makes its data one character longer. -/
theorem sum_dataValues (ls : List Marked) :
    (dataValues (ls.map Marked.shown)).length = (dataValues (ls.map Marked.content)).length ∧
      ((dataValues (ls.map Marked.shown)).map List.length).sum =
        ((dataValues (ls.map Marked.content)).map List.length).sum + ls.countP (fun l => l.cut && l.isData) := by
  induction ls with
  | nil => exact ⟨rfl, rfl⟩
  | cons l ls ih =>
      rw [List.map_cons, List.map_cons, dataValues_cons, dataValues_cons]
      simp only [isData_shown]
      by_cases hdata : l.isData = true
      · have hlabel : dataLabel <+: l.content := of_decide_eq_true hdata
        rw [if_pos hlabel, if_pos hlabel, dataValue_shown hdata]
        cases hcut : l.cut with
        | true =>
            rw [List.countP_cons_of_pos (by simp [hcut, hdata])]
            simp only [List.length_cons, List.map_cons, List.sum_cons, List.length_append, ih.1, ih.2, if_true,
              List.length_nil]
            exact ⟨trivial, by omega⟩
        | false =>
            rw [List.countP_cons_of_neg (by simp [hcut])]
            simp only [List.length_cons, List.map_cons, List.sum_cons, ih.1, ih.2, Bool.false_eq_true, if_false,
              List.append_nil]
            exact ⟨trivial, by omega⟩
      · have hlabel : ¬ dataLabel <+: l.content := fun h => hdata (decide_eq_true h)
        rw [if_neg hlabel, if_neg hlabel, List.countP_cons_of_neg (by simp [hdata])]
        exact ih

theorem length_join (ls : List (List Char)) : (join '\n' ls).length = (ls.map List.length).sum + (ls.length - 1) := by
  induction ls with
  | nil => rfl
  | cons line ls ih =>
      by_cases hnil : ls = []
      · subst hnil
        simp [join]
      · have hpos := List.length_pos_iff.mpr hnil
        rw [join_cons line hnil, List.length_append, List.length_cons, ih, List.map_cons, List.sum_cons,
          List.length_cons]
        omega

theorem dataValues_whole {ls : List Marked} (h : ∀ l ∈ ls, l.cut = true → l.isData = false) :
    dataValues (ls.map Marked.shown) = dataValues (ls.map Marked.content) := by
  induction ls with
  | nil => rfl
  | cons l ls ih =>
      rw [List.map_cons, List.map_cons, dataValues_cons, dataValues_cons,
        ih fun l hl => h l (List.mem_cons_of_mem _ hl)]
      simp only [isData_shown]
      split_ifs with hlabel
      · have hdata : l.isData = true := decide_eq_true hlabel
        have hcut : ¬ l.cut = true := fun hcut => by
          rw [h l List.mem_cons_self hcut] at hdata
          cases hdata
        rw [dataValue_shown hdata, if_neg hcut, List.append_nil]
      · rfl

theorem frameData_shown_iff (e : MarkedEvent) :
    frameData e.shown = frameData e.contents ↔ ∀ l ∈ e.lines, l.cut = true → l.isData = false := by
  constructor
  · intro h
    have hlength := congrArg List.length h
    obtain ⟨hcount, hsum⟩ := sum_dataValues e.lines
    change (join '\n' (dataValues e.shown)).length = (join '\n' (dataValues e.contents)).length at hlength
    rw [length_join, length_join] at hlength
    change (dataValues e.shown).length = (dataValues e.contents).length at hcount
    rw [hcount] at hlength
    have hzero : e.lines.countP (fun l => l.cut && l.isData) = 0 := by
      simp only [MarkedEvent.shown, MarkedEvent.contents] at hlength
      omega
    intro l hl hcut
    simpa [hcut] using List.countP_eq_zero.mp hzero l hl
  · exact fun h => congrArg (join '\n') (dataValues_whole h)

theorem frameOfLines_inj {ls ms : List (List Char)} : frameOfLines ls = frameOfLines ms ↔ frameData ls = frameData ms := by
  refine ⟨fun h => ?_, fun h => by rw [frameOfLines, frameOfLines, h]⟩
  have hdata := congrArg SseFrame.data h
  simp only [frameOfLines] at hdata
  split_ifs at hdata with hls hms hms
  · rw [hls, hms]
  · exact Option.some.inj hdata

/-- The frames of cut events are those of whole ones exactly when no blank line's end and no data
line's end is cut. -/
theorem frames_same_iff (es : List MarkedEvent) :
    (framesOf [] es).map frameOfLines = es.map (fun e => frameOfLines e.contents) ↔
      ∀ e ∈ es, e.blank = false ∧ ∀ l ∈ e.lines, l.cut = true → l.isData = false := by
  constructor
  · intro h
    have hlength := congrArg List.length h
    rw [List.length_map, List.length_map, framesOf_length] at hlength
    have hwhole : ∀ e ∈ es, e.blank = false := by
      intro e he
      simpa using List.countP_eq_length.mp hlength e he
    rw [framesOf_whole hwhole, List.map_map, List.map_inj_left] at h
    exact fun e he => ⟨hwhole e he, (frameData_shown_iff e).mp (frameOfLines_inj.mp (h e he))⟩
  · intro h
    rw [framesOf_whole fun e he => (h e he).1, List.map_map, List.map_inj_left]
    exact fun e he => frameOfLines_inj.mpr ((frameData_shown_iff e).mpr (h e he).2)

end Marks

end Kross.Web.Sse

import Mathlib.Algebra.Group.Nat.Defs
import Mathlib.Data.List.Basic
import Mathlib.Tactic.Common

namespace Kross.Tui.Mouse

/-- Input as code units. -/
abbrev Input := List UInt16

inductive ScrollDirection
  | up
  | down
  deriving DecidableEq

structure WheelEvent where
  direction : ScrollDirection
  steps : Nat
  col : Int
  row : Int
  deriving DecidableEq

inductive Phase
  | down
  | drag
  | up
  deriving DecidableEq

structure MousePointerEvent where
  phase : Phase
  col : Int
  row : Int
  deriving DecidableEq

inductive ParseResult
  | incomplete
  | notMouse
  | mouse (length : Nat) (event : Option WheelEvent) (pointer : Option MousePointerEvent)

structure Filtered where
  events : List WheelEvent
  pointers : List MousePointerEvent
  rest : Input
  carry : Input
  deriving DecidableEq

def escape : UInt16 := 0x1b
def bracket : UInt16 := 0x5b
def less : UInt16 := 0x3c
def semicolon : UInt16 := 0x3b
def press : UInt16 := 0x4d
def release : UInt16 := 0x6d

def isDigit (c : UInt16) : Bool := 0x30 ≤ c && c ≤ 0x39

/-- `/[0-9;]/` -/
def isField (c : UInt16) : Bool := isDigit c || c = semicolon

section Parsing

/-- The nearest double, ties to even; nothing where it is infinite. -/
def toDouble (n : Nat) : Option Nat :=
  let unit := 2 ^ (n.log2 + 1 - 53)
  let low := n / unit
  let rest := n % unit
  let value := (if unit < 2 * rest || (unit = 2 * rest && low % 2 = 1) then low + 1 else low) * unit
  if value < 2 ^ 1024 then some value else none

/-- `Number` of digits; that of no digits is 0. -/
def toNumber (digits : Input) : Option Nat := toDouble (digits.foldl (fun n c => n * 10 + (c.toNat - 0x30)) 0)

def mouseFromButton (button col row : Int) (isRelease : Bool) : Option WheelEvent × Option MousePointerEvent :=
  let bits := BitVec.ofInt 32 button
  let motion := bits &&& 32#32 ≠ 0#32
  let base := bits &&& ~~~0x3c#32
  if base = 64#32 || base = 4#32 then (some ⟨.up, 1, col, row⟩, none)
  else if base = 65#32 || base = 5#32 then (some ⟨.down, 1, col, row⟩, none)
  else if base = 0#32 then (none, some ⟨if isRelease then .up else if motion then .drag else .down, col, row⟩)
  else if base = 3#32 then (none, some ⟨.up, col, row⟩)
  else (none, none)

def mouse (length : Nat) (button col row : Int) (isRelease : Bool) : ParseResult :=
  let (wheel, pointer) := mouseFromButton button col row isRelease
  .mouse length wheel pointer

/-- A report whose fields are `body`, ended by `final`. -/
def parseFields (hasLt : Bool) (body : Input) (final : UInt16) (length : Nat) : ParseResult :=
  if final ≠ press && final ≠ release then .notMouse
  else
    match body.splitOn semicolon with
    | button :: col :: row :: more =>
      if !more.isEmpty && !hasLt && final = release then .notMouse
      else
        match toNumber button, toNumber col, toNumber row with
        | some button, some col, some row =>
          if !hasLt && final = release then .notMouse else mouse length button col row (final = release)
        | _, _, _ => .notMouse
    | _ => .notMouse

/-- X10: what stands behind `ESC [ M`. -/
def parseX10 : Input → ParseResult
  | cb :: cx :: cy :: _ => mouse 6 ((cb.toNat : Int) - 32) ((cx.toNat : Int) - 32) ((cy.toNat : Int) - 32) false
  | _ => .incomplete

/-- SGR and urxvt: what stands behind `ESC [ <` or `ESC [`, of which `start` units are. -/
def parseSgr (hasLt : Bool) (start : Nat) (text : Input) : ParseResult :=
  let body := text.takeWhile isField
  match text.dropWhile isField with
  | [] => .incomplete
  | final :: _ => parseFields hasLt body final (start + body.length + 1)

/-- What stands behind `ESC [`. -/
def parseReport (text : Input) : ParseResult :=
  if text.head? = some press then parseX10 text.tail
  else if text.head? = some less then parseSgr true 3 text.tail
  else parseSgr false 2 text

/-- The text from the place on where a report may begin. -/
def tryParseMouseAt : Input → ParseResult
  | first :: second :: text => if first = escape && second = bracket then parseReport text else .notMouse
  | _ => .notMouse

end Parsing

section Filtering

def Filtered.empty : Filtered := ⟨[], [], [], []⟩

def Filtered.keep (c : UInt16) (s : Filtered) : Filtered := { s with rest := c :: s.rest }

def Filtered.report (event : Option WheelEvent) (pointer : Option MousePointerEvent) (s : Filtered) : Filtered :=
  { s with events := event.toList ++ s.events, pointers := pointer.toList ++ s.pointers }

def filterMouseSequences : Input → Filtered
  | [] => .empty
  | c :: text =>
    if c ≠ escape then (filterMouseSequences text).keep c
    else
      match tryParseMouseAt (c :: text) with
      | .incomplete => ⟨[], [], [], c :: text⟩
      | .mouse length event pointer => (filterMouseSequences (text.drop (length - 1))).report event pointer
      | .notMouse => (filterMouseSequences text).keep c
  termination_by text => text.length
  decreasing_by all_goals grind

/-- The next chunk is filtered behind what is carried over. -/
def filterChunk (s : Filtered) (chunk : Input) : Filtered :=
  let next := filterMouseSequences (s.carry ++ chunk)
  ⟨s.events ++ next.events, s.pointers ++ next.pointers, s.rest ++ next.rest, next.carry⟩

end Filtering

section Prefixes

variable {text more body : Input} {c final : UInt16} {hasLt : Bool} {length : Nat} {event : Option WheelEvent}
  {pointer : Option MousePointerEvent}

theorem parseFields_cases (hasLt : Bool) (body : Input) (final : UInt16) (length : Nat) :
    parseFields hasLt body final length = .notMouse ∨
      ∃ event pointer, parseFields hasLt body final length = .mouse length event pointer := by
  rw [parseFields]
  repeat' split
  all_goals first | exact .inl rfl | exact .inr ⟨_, _, rfl⟩

/-- More text does not change a verdict that is not to wait for more. -/
theorem parseX10_append (h : parseX10 text ≠ .incomplete) (more : Input) :
    parseX10 (text ++ more) = parseX10 text ∧ ∃ event pointer, parseX10 text = .mouse 6 event pointer ∧ 3 ≤ text.length := by
  match text, h with
  | cb :: cx :: cy :: text, _ => exact ⟨rfl, _, _, rfl, by simp⟩

theorem parseSgr_append {start : Nat} (h : parseSgr hasLt start text ≠ .incomplete) (more : Input) :
    parseSgr hasLt start (text ++ more) = parseSgr hasLt start text ∧
      (parseSgr hasLt start text = .notMouse ∨ ∃ length event pointer,
        parseSgr hasLt start text = .mouse length event pointer ∧ 0 < length ∧ length ≤ start + text.length) := by
  have hsplit : text.takeWhile isField ++ text.dropWhile isField = text := List.takeWhile_append_dropWhile
  rw [parseSgr] at h ⊢
  rw [parseSgr]
  cases hdrop : text.dropWhile isField with
  | nil =>
      rw [hdrop] at h
      exact absurd rfl h
  | cons final after =>
      have hlength := congrArg List.length hsplit
      rw [hdrop, List.length_append, List.length_cons] at hlength
      have htake : (text ++ more).takeWhile isField = text.takeWhile isField := by
        rw [List.takeWhile_append, if_neg (by omega)]
      have hdropMore : (text ++ more).dropWhile isField = final :: (after ++ more) := by
        rw [List.dropWhile_append, hdrop]
        rfl
      rw [htake, hdropMore]
      refine ⟨rfl, ?_⟩
      rcases parseFields_cases hasLt (text.takeWhile isField) final (start + (text.takeWhile isField).length + 1) with
        hnot | ⟨event, pointer, hmouse⟩
      · exact .inl hnot
      · exact .inr ⟨_, event, pointer, hmouse, by omega, by omega⟩

theorem parseReport_append (h : parseReport text ≠ .incomplete) (more : Input) :
    parseReport (text ++ more) = parseReport text ∧
      (parseReport text = .notMouse ∨ ∃ length event pointer,
        parseReport text = .mouse length event pointer ∧ 0 < length ∧ length ≤ text.length + 2) := by
  cases text with
  | nil => exact absurd rfl h
  | cons first text =>
      rw [parseReport] at h ⊢
      rw [parseReport, List.cons_append, List.head?_cons, List.head?_cons, List.tail_cons, List.tail_cons]
      rw [List.head?_cons, List.tail_cons] at h
      split_ifs at h ⊢ with hpress hless
      · obtain ⟨happend, event, pointer, hmouse, hlength⟩ := parseX10_append h more
        exact ⟨happend, .inr ⟨6, event, pointer, hmouse, by decide, Nat.add_le_add_right (Nat.succ_le_succ hlength) 2⟩⟩
      · obtain ⟨happend, hverdict⟩ := parseSgr_append h more
        refine ⟨happend, hverdict.imp_right ?_⟩
        rintro ⟨length, event, pointer, hmouse, hpos, hlength⟩
        exact ⟨length, event, pointer, hmouse, hpos, by rw [List.length_cons]; omega⟩
      · obtain ⟨happend, hverdict⟩ := parseSgr_append h more
        refine ⟨happend, hverdict.imp_right ?_⟩
        rintro ⟨length, event, pointer, hmouse, hpos, hlength⟩
        exact ⟨length, event, pointer, hmouse, hpos, by omega⟩

/-- Behind more than an escape a verdict that is given stays. -/
theorem tryParse_append {first second : UInt16} (h : tryParseMouseAt (first :: second :: text) ≠ .incomplete) (more : Input) :
    tryParseMouseAt (first :: second :: text ++ more) = tryParseMouseAt (first :: second :: text) ∧
      (tryParseMouseAt (first :: second :: text) = .notMouse ∨ ∃ length event pointer,
        tryParseMouseAt (first :: second :: text) = .mouse length event pointer ∧ 0 < length ∧ length ≤ text.length + 2) := by
  rw [tryParseMouseAt] at h ⊢
  rw [List.cons_append, List.cons_append, tryParseMouseAt]
  split_ifs at h ⊢ with hopen
  · exact parseReport_append h more
  · exact ⟨rfl, .inl rfl⟩

theorem tryParse_notMouse {first second : UInt16} (h : tryParseMouseAt (first :: second :: text) = .notMouse) (more : Input) :
    tryParseMouseAt (first :: (second :: text ++ more)) = .notMouse :=
  (tryParse_append (by rw [h]; exact nofun) more).1.trans h

theorem tryParse_mouse {first second : UInt16} (h : tryParseMouseAt (first :: second :: text) = .mouse length event pointer)
    (more : Input) : tryParseMouseAt (first :: (second :: text ++ more)) = .mouse length event pointer ∧
      length - 1 ≤ (second :: text).length := by
  obtain ⟨happend, hnot | ⟨_, _, _, hmouse, hpos, hlength⟩⟩ := tryParse_append (by rw [h]; exact nofun) more
  · exact absurd (h.symm.trans hnot) nofun
  · obtain ⟨rfl, -, -⟩ := ParseResult.mouse.inj (h.symm.trans hmouse)
    exact ⟨happend.trans h, by rw [List.length_cons]; omega⟩

end Prefixes

section Chunks

variable {text more : Input} {c : UInt16} {s : Filtered}

/-- What is filtered behind what has been. -/
def Filtered.then (s next : Filtered) : Filtered :=
  ⟨s.events ++ next.events, s.pointers ++ next.pointers, s.rest ++ next.rest, next.carry⟩

theorem filter_other (hc : c ≠ escape) (text : Input) :
    filterMouseSequences (c :: text) = (filterMouseSequences text).keep c := by
  rw [filterMouseSequences, if_pos hc]

theorem filter_incomplete (h : tryParseMouseAt (escape :: text) = .incomplete) :
    filterMouseSequences (escape :: text) = ⟨[], [], [], escape :: text⟩ := by
  rw [filterMouseSequences, if_neg (not_not.mpr rfl), h]

theorem filter_notMouse (h : tryParseMouseAt (escape :: text) = .notMouse) :
    filterMouseSequences (escape :: text) = (filterMouseSequences text).keep escape := by
  rw [filterMouseSequences, if_neg (not_not.mpr rfl), h]

theorem filter_mouse {length : Nat} {event : Option WheelEvent} {pointer : Option MousePointerEvent}
    (h : tryParseMouseAt (escape :: text) = .mouse length event pointer) :
    filterMouseSequences (escape :: text) = (filterMouseSequences (text.drop (length - 1))).report event pointer := by
  rw [filterMouseSequences, if_neg (not_not.mpr rfl), h]

theorem keep_then (c : UInt16) (s next : Filtered) : (s.keep c).then next = (s.then next).keep c := rfl

theorem report_then (event : Option WheelEvent) (pointer : Option MousePointerEvent) (s next : Filtered) :
    (s.report event pointer).then next = (s.then next).report event pointer := by
  rw [Filtered.then, Filtered.then, Filtered.report, Filtered.report, List.append_assoc, List.append_assoc]

theorem empty_then (s : Filtered) : Filtered.empty.then s = s := rfl

theorem getLast_drop (h : text.getLast? ≠ some c) (n : Nat) : (text.drop n).getLast? ≠ some c := by
  rw [List.getLast?_drop]
  split_ifs
  · exact nofun
  · exact h

/-- Where the text is not cut behind an escape, what is left of it can be filtered with the rest. -/
theorem filter_append (h : text.getLast? ≠ some escape) (more : Input) :
    filterMouseSequences (text ++ more) =
      (filterMouseSequences text).then (filterMouseSequences ((filterMouseSequences text).carry ++ more)) := by
  induction hlength : text.length using Nat.strongRecOn generalizing text with
  | _ n ih =>
      cases text with
      | nil => rw [filterMouseSequences]; rfl
      | cons c text =>
          have hshort : text.length < n := by rw [← hlength]; exact Nat.lt_succ_self _
          have htail : text.getLast? ≠ some escape := getLast_drop h 1
          by_cases hc : c = escape
          · subst hc
            cases text with
            | nil => exact absurd rfl h
            | cons second text =>
                cases hverdict : tryParseMouseAt (escape :: second :: text) with
                | incomplete => rw [filter_incomplete hverdict]; rfl
                | notMouse =>
                    rw [List.cons_append, filter_notMouse hverdict, filter_notMouse (tryParse_notMouse hverdict more),
                      keep_then]
                    exact congrArg _ (ih _ hshort htail rfl)
                | mouse length event pointer =>
                    obtain ⟨hmore, hlength⟩ := tryParse_mouse hverdict more
                    have hdrop : ((second :: text).drop (length - 1)).length < n :=
                      Nat.lt_of_le_of_lt (List.length_drop ▸ Nat.sub_le _ _) hshort
                    rw [List.cons_append, filter_mouse hverdict, filter_mouse hmore, report_then,
                      List.drop_append_of_le_length hlength]
                    exact congrArg _ (ih _ hdrop (getLast_drop htail (length - 1)) rfl)
          · rw [List.cons_append, filter_other hc, filter_other hc, keep_then]
            exact congrArg _ (ih _ hshort htail rfl)

/-- What is carried over waits for more. -/
theorem filter_carry (text : Input) :
    filterMouseSequences (filterMouseSequences text).carry = ⟨[], [], [], (filterMouseSequences text).carry⟩ := by
  induction hlength : text.length using Nat.strongRecOn generalizing text with
  | _ n ih =>
      cases text with
      | nil => rw [filterMouseSequences, Filtered.empty, filterMouseSequences, Filtered.empty]
      | cons c text =>
          have hshort : text.length < n := by rw [← hlength]; exact Nat.lt_succ_self _
          by_cases hc : c = escape
          · subst hc
            cases hverdict : tryParseMouseAt (escape :: text) with
            | incomplete =>
                rw [filter_incomplete hverdict]
                exact filter_incomplete hverdict
            | notMouse =>
                rw [filter_notMouse hverdict]
                exact ih _ hshort text rfl
            | mouse length event pointer =>
                rw [filter_mouse hverdict]
                exact ih _ (Nat.lt_of_le_of_lt (List.length_drop ▸ Nat.sub_le _ _) hshort) _ rfl
          · rw [filter_other hc]
            exact ih _ hshort text rfl

theorem filterChunk_append (h : more = [] ∨ text.getLast? ≠ some escape) :
    filterChunk (filterMouseSequences text) more = filterMouseSequences (text ++ more) := by
  have hthen : filterChunk (filterMouseSequences text) more =
      (filterMouseSequences text).then (filterMouseSequences ((filterMouseSequences text).carry ++ more)) := rfl
  rcases h with rfl | h
  · rw [hthen, List.append_nil, List.append_nil, filter_carry, Filtered.then]
    simp
  · rw [hthen, ← filter_append h more]

end Chunks

section Receiving

/-- `/^\d+/` and a unit that ends it. -/
def digitsThen (ends : UInt16 → Bool) (text : Input) : Option Input :=
  match text.takeWhile isDigit, text.dropWhile isDigit with
  | _ :: _, c :: after => if ends c then some after else none
  | _, _ => none

/-- `/^\[<?\d+;\d+;\d+[Mm]/` -/
def isResidue : Input → Bool
  | c :: text =>
    let fields := if text.head? = some less then text.tail else text
    c = bracket && (((digitsThen (· = semicolon) fields).bind (digitsThen (· = semicolon))).bind
      (digitsThen fun c => c = press || c = release)).isSome
  | [] => false

def looksLikeMouseResidue (text : Input) : Bool := text.tails.any isResidue

/-- What the patched stream does with a chunk: one without reports goes through as it is. -/
def receive (s : Filtered) (chunk : Input) : Filtered :=
  if s.carry.isEmpty && !chunk.contains escape && !looksLikeMouseResidue chunk then { s with rest := s.rest ++ chunk }
  else filterChunk s chunk

theorem filter_plain {text : Input} (h : escape ∉ text) : filterMouseSequences text = ⟨[], [], text, []⟩ := by
  induction text with
  | nil => rw [filterMouseSequences]; rfl
  | cons c text ih =>
      have hc : c ≠ escape := fun heq => h (heq ▸ List.mem_cons_self)
      rw [filter_other hc, ih fun hmem => h (List.mem_cons_of_mem c hmem)]
      rfl

theorem receive_eq (s : Filtered) (chunk : Input) : receive s chunk = filterChunk s chunk := by
  rw [receive]
  split_ifs with hplain
  · rw [Bool.and_eq_true, Bool.and_eq_true, List.isEmpty_iff, Bool.not_eq_true', ← Bool.not_eq_true, List.contains_iff_mem]
      at hplain
    obtain ⟨⟨hcarry, hchunk⟩, -⟩ := hplain
    rw [filterChunk, hcarry, List.nil_append, filter_plain hchunk, List.append_nil, List.append_nil, ← hcarry]
  · rfl

/-- Filtering does not depend on the chunks, as long as none ends in an escape before more input. -/
theorem filter_chunks (chunks : List Input)
    (h : ∀ before after, chunks = before ++ after → after.flatten ≠ [] → before.flatten.getLast? ≠ some escape) :
    chunks.foldl filterChunk .empty = filterMouseSequences chunks.flatten ∧
      chunks.foldl receive .empty = filterMouseSequences chunks.flatten := by
  have hfold (before after : List Input) (hsplit : chunks = before ++ after) :
      after.foldl filterChunk (filterMouseSequences before.flatten) = filterMouseSequences chunks.flatten := by
    induction after generalizing before with
    | nil => rw [hsplit, List.append_nil]; rfl
    | cons chunk after ih =>
        have hchunk : chunk = [] ∨ before.flatten.getLast? ≠ some escape := by
          by_cases hempty : chunk = []
          · exact .inl hempty
          · exact .inr (h before _ hsplit fun hnil => hempty (List.flatten_eq_nil_iff.mp hnil chunk List.mem_cons_self))
        have hnext := ih (before ++ [chunk]) (by rw [hsplit, List.append_assoc]; rfl)
        rw [List.foldl_cons, filterChunk_append hchunk, ← hnext, List.flatten_append, List.flatten_singleton]
  have hstart : filterMouseSequences [] = .empty := by rw [filterMouseSequences]
  have hreceive : receive = filterChunk := by
    funext s chunk
    exact receive_eq s chunk
  rw [hreceive, ← hstart]
  exact ⟨hfold [] chunks rfl, hfold [] chunks rfl⟩

/-- A report of the wheel in two chunks. -/
theorem filter_chunks_wheel :
    [[0x61, 0x1b, 0x5b, 0x3c, 0x36], [0x34, 0x3b, 0x31, 0x3b, 0x32, 0x4d]].foldl filterChunk .empty =
      filterMouseSequences [0x61, 0x1b, 0x5b, 0x3c, 0x36, 0x34, 0x3b, 0x31, 0x3b, 0x32, 0x4d] := by
  refine (filter_chunks _ fun before after hsplit hafter => ?_).1
  match before with
  | [] => exact nofun
  | [_] =>
      obtain ⟨rfl, -⟩ := List.cons.inj hsplit
      decide
  | [_, _] =>
      have hnil : after = [] := ((List.cons.inj (List.cons.inj hsplit).2).2).symm
      exact absurd (congrArg List.flatten hnil) hafter
  | _ :: _ :: _ :: _ => exact absurd (List.cons.inj (List.cons.inj hsplit).2).2 nofun

end Receiving

end Kross.Tui.Mouse

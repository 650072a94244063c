import Mathlib.Data.List.Induction
import Mathlib.Logic.Function.Basic
import Kross.Run

namespace Kross.Tui.Frame

/-- What is written to a terminal: characters and control sequences. -/
inductive Token
  | char (c : Char)
  | newline
  | style (code : List Char)
  | resetStyle
  | cursorTo (row : Nat)
  | cursorHome
  | eraseLine
  | eraseToLineEnd
  | clearTerminal
  | beginSynchronizedUpdate
  | endSynchronizedUpdate
  | other (code : List Char)
  deriving DecidableEq

abbrev Output := List Token

structure Size where
  rows : Nat
  columns : Nat

structure Screen (Cell Style : Type) where
  size : Size
  row : Nat → List Cell
  line : Nat
  column : Nat
  style : Style

/-- A kind of terminal: what it puts left of the cursor for a character, and what it does at its margin, for other
sequences and when it is resized. -/
structure Display (Cell Style : Type) where
  plain : Style
  restyle : List Char → Style → Style
  /-- What erasing leaves. -/
  erased : Style → Cell
  width : Char → Nat
  put : Style → Char → List Cell → List Cell
  put_length : ∀ style c left, (put style c left).length = left.length + width c
  /-- What becomes of the cells from the cursor on. -/
  beside : Style → Char → List Cell → List Cell
  margin : Char → Screen Cell Style → Screen Cell Style
  perform : Token → Screen Cell Style → Screen Cell Style
  reflow : Size → Screen Cell Style → Screen Cell Style

section Performing

variable {Cell Style : Type}

def Screen.setRow (s : Screen Cell Style) (cells : List Cell) : Screen Cell Style :=
  { s with row := Function.update s.row s.line cells }

def Display.blankRow (d : Display Cell Style) (style : Style) (columns : Nat) : List Cell :=
  List.replicate columns (d.erased style)

def perform (d : Display Cell Style) (s : Screen Cell Style) : Token → Screen Cell Style
  | .char c =>
    if s.column + d.width c < s.size.columns then
      { s.setRow (d.put s.style c ((s.row s.line).take s.column) ++ d.beside s.style c ((s.row s.line).drop s.column)) with
        column := s.column + d.width c }
    else d.margin c s
  | .style code => { s with style := d.restyle code s.style }
  | .resetStyle => { s with style := d.plain }
  | .cursorTo row => { s with line := min (row - 1) (s.size.rows - 1), column := 0 }
  | .cursorHome => { s with line := 0, column := 0 }
  | .eraseLine => s.setRow (d.blankRow s.style s.size.columns)
  | .eraseToLineEnd =>
    s.setRow ((s.row s.line).take s.column ++ d.blankRow s.style (s.size.columns - s.column))
  | .clearTerminal => { s with row := fun _ => d.blankRow s.style s.size.columns, line := 0, column := 0 }
  | .beginSynchronizedUpdate => s
  | .endSynchronizedUpdate => s
  | .newline => d.perform .newline s
  | .other code => d.perform (.other code) s

def shown (d : Display Cell Style) (s : Screen Cell Style) (output : Output) : Screen Cell Style :=
  output.foldl (perform d) s

/-- A resized terminal does with its rows and its cursor as it likes. -/
def resize (d : Display Cell Style) (s : Screen Cell Style) (size : Size) : Screen Cell Style :=
  { d.reflow size s with size := size, style := s.style }

def blankScreen (d : Display Cell Style) (size : Size) : Screen Cell Style :=
  ⟨size, fun _ => d.blankRow d.plain size.columns, 0, 0, d.plain⟩

def Screen.contents (s : Screen Cell Style) : List (List Cell) := (List.range s.size.rows).map s.row

end Performing

section Writing

structure Writer where
  previousFrame : Option (List Output)
  previousInkLineCount : Nat
  previousColumns : Option Nat
  previousRows : Option Nat

def Writer.start : Writer := ⟨none, 0, none, none⟩

structure ExtractedFrame where
  lines : List Output
  inkLineCount : Nat

/-- `eraseLines` is that of ansi-escapes. -/
def extractFrame (eraseLines : Nat → Output) (w : Writer) (text : Output) : Option ExtractedFrame :=
  let recognized := w.previousFrame.isNone
  let erasePrevious := eraseLines w.previousInkLineCount
  let (output, recognized) :=
    if 0 < w.previousInkLineCount && erasePrevious.isPrefixOf text then (text.drop erasePrevious.length, true)
    else (text, recognized)
  let (output, recognized) :=
    if [Token.clearTerminal].isPrefixOf output then (output.drop 1, true) else (output, recognized)
  if !recognized || !output.contains .newline then none
  else
    let lines := output.splitOn .newline
    some ⟨if lines.getLast? = some [] then lines.dropLast else lines, lines.length⟩

def normalizeTerminalDimension (value : Nat) : Nat := max 1 value

def lineAt (lines : List Output) (index : Nat) : Output := (lines[index]?).getD []

def drawLine (index : Nat) (line : Output) : Output :=
  .cursorTo (index + 1) :: if 0 < line.length then line ++ [.resetStyle, .eraseToLineEnd] else [.eraseLine]

/-- A row whose line is not the one that was there. -/
def changed (previous : Option (List Output)) (next : List Output) (index : Nat) : Bool :=
  previous.bind (·[index]?) ≠ some (lineAt next index)

def renderFrameDiff (previous : Option (List Output)) (next : List Output) (terminalRows : Nat) : Output :=
  let safeTerminalRows := normalizeTerminalDimension terminalRows
  let rowCount := min safeTerminalRows (max (previous.getD []).length next.length)
  let output := (if previous.isSome then [] else [.cursorHome]) ++
    (List.range rowCount).flatMap fun index => if changed previous next index then drawLine index (lineAt next index) else []
  if 0 < output.length then output ++ [.cursorTo safeTerminalRows] else output

def renderFullFrame (next : List Output) (terminalRows : Nat) : Output :=
  let safeTerminalRows := normalizeTerminalDimension terminalRows
  .cursorHome :: ((List.range safeTerminalRows).flatMap fun index => drawLine index (lineAt next index)) ++
    [.cursorTo safeTerminalRows]

def Writer.resized (w : Writer) (size : Size) : Bool :=
  w.previousFrame.isSome && (w.previousRows ≠ some (normalizeTerminalDimension size.rows) ||
    w.previousColumns ≠ some (normalizeTerminalDimension size.columns))

def visibleFrame (frame : ExtractedFrame) (size : Size) : List Output :=
  frame.lines.take (normalizeTerminalDimension size.rows)

def patches (synchronized : Bool) (w : Writer) (size : Size) (visible : List Output) : Output :=
  (if w.resized size then [.clearTerminal] else []) ++
    if synchronized then renderFullFrame visible (normalizeTerminalDimension size.rows)
    else renderFrameDiff (if w.resized size then none else w.previousFrame) visible (normalizeTerminalDimension size.rows)

/-- The writer after a text, and what it writes; a text that is no frame goes through. -/
def write (eraseLines : Nat → Output) (synchronized : Bool) (w : Writer) (size : Size) (text : Output) : Writer × Output :=
  match extractFrame eraseLines w text with
  | none => (w, text)
  | some frame =>
    let visible := visibleFrame frame size
    let patched := patches synchronized w size visible
    (⟨some visible, frame.inkLineCount, some (normalizeTerminalDimension size.columns),
      some (normalizeTerminalDimension size.rows)⟩,
      if patched.isEmpty then []
      else if synchronized then .beginSynchronizedUpdate :: patched ++ [.endSynchronizedUpdate] else patched)

end Writing

section Drawing

variable {Cell Style : Type} {d : Display Cell Style} {s s' : Screen Cell Style} {line : Output} {lines : Nat → Output}
  {p : Nat → Bool}

/-- A line free of cursor movement. -/
def Token.isText : Token → Bool
  | .char _ | .style _ | .resetStyle => true
  | _ => false

def Display.lineWidth (d : Display Cell Style) : Output → Nat
  | [] => 0
  | .char c :: line => d.width c + d.lineWidth line
  | _ :: line => d.lineWidth line

/-- What stands left of the cursor after a line. -/
def Display.leftOf (d : Display Cell Style) : Style → List Cell → Output → List Cell
  | _, cells, [] => cells
  | style, cells, .char c :: line => d.leftOf style (d.put style c cells) line
  | style, cells, .style code :: line => d.leftOf (d.restyle code style) cells line
  | _, cells, _ :: line => d.leftOf d.plain cells line

/-- The row that shows a line. -/
def Display.drawn (d : Display Cell Style) (columns : Nat) (line : Output) : List Cell :=
  let cells := d.leftOf d.plain [] line
  cells ++ d.blankRow d.plain (columns - cells.length)

theorem shown_append (d : Display Cell Style) (s : Screen Cell Style) (output more : Output) :
    shown d s (output ++ more) = shown d (shown d s output) more := List.foldl_append

/-- Writing has left `cells` in front of the cursor, and nothing has changed on other rows. -/
structure Wrote (s s' : Screen Cell Style) (cells : List Cell) : Prop where
  size : s'.size = s.size
  line : s'.line = s.line
  left : (s'.row s'.line).take s'.column = cells
  column : cells.length = s'.column
  others : ∀ i, i ≠ s.line → s'.row i = s.row i

theorem perform_char {c : Char} {cells : List Cell} (hleft : (s.row s.line).take s.column = cells)
    (hcolumn : cells.length = s.column) (hfits : s.column + d.width c < s.size.columns) :
    Wrote s (perform d s (.char c)) (d.put s.style c cells) ∧ (perform d s (.char c)).style = s.style ∧
      (perform d s (.char c)).column = s.column + d.width c := by
  have hlength : (d.put s.style c cells).length = s.column + d.width c := by rw [d.put_length, hcolumn]
  rw [perform, if_pos hfits, hleft, Screen.setRow]
  refine ⟨⟨rfl, rfl, ?_, hlength, fun i hi => Function.update_of_ne hi _ _⟩, rfl, rfl⟩
  dsimp only
  rw [Function.update_self, ← hlength, List.take_left]

/-- A line free of cursor movement that fits leaves its cells in front of the cursor. -/
theorem shown_line {cells : List Cell} (htext : ∀ token ∈ line, token.isText = true)
    (hleft : (s.row s.line).take s.column = cells) (hcolumn : cells.length = s.column)
    (hfits : s.column + d.lineWidth line < s.size.columns) : Wrote s (shown d s line) (d.leftOf s.style cells line) := by
  induction line generalizing s cells with
  | nil => exact ⟨rfl, rfl, hleft, hcolumn, fun _ _ => rfl⟩
  | cons token line ih =>
      have hline : ∀ token ∈ line, token.isText = true := fun token htoken => htext token (List.mem_cons_of_mem _ htoken)
      have hstep : shown d s (token :: line) = shown d (perform d s token) line := rfl
      rw [hstep]
      cases token with
      | char c =>
          rw [Display.lineWidth] at hfits
          obtain ⟨hwrote, hstyle, hcursor⟩ := perform_char hleft hcolumn (d := d) (c := c) (by omega)
          have hrest := ih hline hwrote.left hwrote.column (by rw [hcursor, hwrote.size]; omega)
          rw [hstyle] at hrest
          refine ⟨hrest.size.trans hwrote.size, hrest.line.trans hwrote.line, hrest.left, hrest.column, fun i hi => ?_⟩
          exact (hrest.others i (hwrote.line.symm ▸ hi)).trans (hwrote.others i hi)
      | style code =>
          have hrest := ih (s := perform d s (.style code)) hline hleft hcolumn hfits
          exact ⟨hrest.size, hrest.line, hrest.left, hrest.column, hrest.others⟩
      | resetStyle =>
          have hrest := ih (s := perform d s .resetStyle) hline hleft hcolumn hfits
          exact ⟨hrest.size, hrest.line, hrest.left, hrest.column, hrest.others⟩
      | _ => exact absurd (htext _ List.mem_cons_self) Bool.false_ne_true

/-- Where `p` holds the rows show their lines now; the others are as they were. -/
structure Redrawn (d : Display Cell Style) (s s' : Screen Cell Style) (p : Nat → Prop) (lines : Nat → Output) : Prop where
  size : s'.size = s.size
  style : s'.style = d.plain
  redrawn : ∀ i, p i → s'.row i = d.drawn s.size.columns (lines i)
  kept : ∀ i, ¬ p i → s'.row i = s.row i

theorem drawLine_shown {index : Nat} (hindex : index < normalizeTerminalDimension s.size.rows)
    (hstyle : s.style = d.plain) (htext : ∀ token ∈ lines index, token.isText = true)
    (hfits : lines index ≠ [] → d.lineWidth (lines index) < s.size.columns) :
    Redrawn d s (shown d s (drawLine index (lines index))) (· = index) lines := by
  have hmoved : perform d s (.cursorTo (index + 1)) = { s with line := index, column := 0 } := by
    rw [normalizeTerminalDimension] at hindex
    have hline : min (index + 1 - 1) (s.size.rows - 1) = index := by omega
    rw [perform, hline]
  have hdraw : shown d s (drawLine index (lines index)) = shown d (perform d s (.cursorTo (index + 1)))
      (if 0 < (lines index).length then lines index ++ [.resetStyle, .eraseToLineEnd] else [.eraseLine]) := rfl
  rw [hdraw, hmoved]
  split_ifs with hnonempty
  · have hwrote : Wrote { s with line := index, column := 0 } (shown d { s with line := index, column := 0 } (lines index))
        (d.leftOf s.style [] (lines index)) :=
      shown_line htext rfl rfl (by rw [Nat.zero_add]; exact hfits (List.ne_nil_of_length_pos hnonempty))
    rw [congrArg (fun style => d.leftOf style [] (lines index)) hstyle] at hwrote
    rw [shown_append]
    generalize shown d { s with line := index, column := 0 } (lines index) = s' at hwrote ⊢
    have herased : shown d s' [.resetStyle, .eraseToLineEnd] = { s'.setRow ((s'.row s'.line).take s'.column ++
        d.blankRow d.plain (s'.size.columns - s'.column)) with style := d.plain } := rfl
    rw [herased, hwrote.left, ← hwrote.column, hwrote.size, Screen.setRow, hwrote.line]
    dsimp only
    refine ⟨hwrote.size, rfl, ?_, fun i hi => (Function.update_of_ne hi _ _).trans (hwrote.others i hi)⟩
    rintro i rfl
    exact Function.update_self _ _ _
  · have hempty : lines index = [] := List.eq_nil_of_length_eq_zero (Nat.eq_zero_of_not_pos hnonempty)
    refine ⟨rfl, hstyle, ?_, fun i hi => Function.update_of_ne hi _ _⟩
    rintro i rfl
    rw [hempty, Display.drawn, Display.leftOf, List.nil_append, List.length_nil, Nat.sub_zero, ← hstyle]
    exact Function.update_self _ _ _

/-- Lines that are drawn one after another. -/
theorem drawLines_shown {n : Nat} (hn : n ≤ normalizeTerminalDimension s.size.rows) (hstyle : s.style = d.plain)
    (htext : ∀ i < n, ∀ token ∈ lines i, token.isText = true)
    (hfits : ∀ i < n, lines i ≠ [] → d.lineWidth (lines i) < s.size.columns) :
    Redrawn d s (shown d s ((List.range n).flatMap fun index => if p index then drawLine index (lines index) else []))
      (fun i => i < n ∧ p i = true) lines := by
  induction n with
  | zero => exact ⟨rfl, hstyle, fun i hi => absurd hi.1 (Nat.not_lt_zero i), fun _ _ => rfl⟩
  | succ n ih =>
      have hbefore := ih (by omega) (fun i hi => htext i (by omega)) (fun i hi => hfits i (by omega))
      rw [List.range_succ, List.flatMap_append, List.flatMap_singleton, shown_append]
      generalize shown d s ((List.range n).flatMap fun index => if p index then drawLine index (lines index) else []) = s'
        at hbefore
      cases hp : p n with
      | true =>
          have hdraw : Redrawn d s' (shown d s' (drawLine n (lines n))) (· = n) lines :=
            drawLine_shown (by rw [hbefore.size]; omega) hbefore.style (htext n n.lt_succ_self)
              (by rw [hbefore.size]; exact hfits n n.lt_succ_self)
          rw [if_pos rfl]
          refine ⟨hdraw.size.trans hbefore.size, hdraw.style, fun i hi => ?_, fun i hi => ?_⟩
          · by_cases hin : i = n
            · rw [hdraw.redrawn i hin, hbefore.size]
            · rw [hdraw.kept i hin]
              exact hbefore.redrawn i ⟨by omega, hi.2⟩
          · have hin : i ≠ n := fun hin => hi ⟨by omega, hin ▸ hp⟩
            rw [hdraw.kept i hin]
            exact hbefore.kept i fun hi' => hi ⟨by omega, hi'.2⟩
      | false =>
          refine ⟨hbefore.size, hbefore.style, fun i hi => ?_, fun i hi => ?_⟩
          · have hin : i ≠ n := fun hin => Bool.false_ne_true (hp.symm.trans (hin ▸ hi.2))
            exact hbefore.redrawn i ⟨by omega, hi.2⟩
          · exact hbefore.kept i fun hi' => hi ⟨by omega, hi'.2⟩

/-- Frames whose lines are free of cursor movement and narrower than the terminal. -/
def Fits (d : Display Cell Style) (columns : Nat) (visible : List Output) : Prop :=
  ∀ line ∈ visible, (∀ token ∈ line, token.isText = true) ∧ d.lineWidth line < columns

theorem Fits.lineAt {visible : List Output} {columns : Nat} (h : Fits d columns visible) (i : Nat) :
    (∀ token ∈ lineAt visible i, token.isText = true) ∧
      (lineAt visible i ≠ [] → d.lineWidth (lineAt visible i) < columns) := by
  rw [Frame.lineAt]
  cases hline : visible[i]? with
  | none => exact ⟨fun _ h => absurd h List.not_mem_nil, fun h => absurd rfl h⟩
  | some line =>
      have hmem := h line (List.mem_of_getElem? hline)
      exact ⟨hmem.1, fun _ => hmem.2⟩

theorem normalize_normalize (value : Nat) :
    normalizeTerminalDimension (normalizeTerminalDimension value) = normalizeTerminalDimension value := by
  rw [normalizeTerminalDimension, normalizeTerminalDimension]
  omega

/-- What the cursor does before and after does not matter. -/
theorem Redrawn.of_cursor {q : Nat → Prop} {line column line' column' : Nat}
    (h : Redrawn d { s with line := line, column := column } s' q lines) :
    Redrawn d s { s' with line := line', column := column' } q lines :=
  ⟨h.size, h.style, h.redrawn, h.kept⟩

theorem full_shown {visible : List Output} (hstyle : s.style = d.plain) (hfits : Fits d s.size.columns visible) :
    Redrawn d s (shown d s (renderFullFrame visible (normalizeTerminalDimension s.size.rows)))
      (· < normalizeTerminalDimension s.size.rows) (lineAt visible) := by
  have hlines : Redrawn d { s with line := 0, column := 0 } _ _ (lineAt visible) :=
    drawLines_shown (p := fun _ => true) (Nat.le_refl _) hstyle (fun i _ => (hfits.lineAt i).1) fun i _ => (hfits.lineAt i).2
  simp only [if_true, and_true] at hlines
  rw [renderFullFrame, normalize_normalize, List.cons_append, shown, List.foldl_cons, ← shown, shown_append]
  exact hlines.of_cursor

/-- The rows that the diff draws. -/
def drawnByDiff (previous : Option (List Output)) (visible : List Output) (rows i : Nat) : Prop :=
  i < min (normalizeTerminalDimension rows) (max (previous.getD []).length visible.length) ∧
    changed previous visible i = true

theorem diff_shown {visible : List Output} (previous : Option (List Output)) (hstyle : s.style = d.plain)
    (hfits : Fits d s.size.columns visible) :
    Redrawn d s (shown d s (renderFrameDiff previous visible (normalizeTerminalDimension s.size.rows)))
      (drawnByDiff previous visible s.size.rows) (lineAt visible) := by
  have hlines (line column : Nat) : Redrawn d { s with line := line, column := column } _ _ (lineAt visible) :=
    drawLines_shown (p := changed previous visible)
      (Nat.min_le_left (normalizeTerminalDimension s.size.rows) (max (previous.getD []).length visible.length)) hstyle
      (fun i _ => (hfits.lineAt i).1) fun i _ => (hfits.lineAt i).2
  rw [renderFrameDiff, normalize_normalize]
  generalize ((List.range (min (normalizeTerminalDimension s.size.rows) (max (previous.getD []).length visible.length))).flatMap
    fun index => if changed previous visible index then drawLine index (lineAt visible index) else []) = body at hlines ⊢
  have houtput : Redrawn d s (shown d s ((if previous.isSome then [] else [.cursorHome]) ++ body))
      (drawnByDiff previous visible s.size.rows) (lineAt visible) := by
    rw [shown_append]
    cases previous with
    | none => exact (hlines 0 0).of_cursor
    | some previous => exact (hlines s.line s.column).of_cursor
  generalize (if previous.isSome then [] else [Token.cursorHome]) ++ body = output at houtput ⊢
  split_ifs
  · rw [shown_append]
    exact Redrawn.of_cursor (s := s) houtput
  · exact houtput

end Drawing

section Runs

variable {Cell Style : Type}

inductive Event
  | resize (size : Size)
  | write (text : Output)

/-- The writer and the terminal it writes to, in one of its modes. -/
def step (d : Display Cell Style) (eraseLines : Nat → Output) (synchronized : Bool) (s : Writer × Screen Cell Style) :
    Event → Writer × Screen Cell Style
  | .resize size => (s.1, resize d s.2 size)
  | .write text =>
    let (w, output) := write eraseLines synchronized s.1 s.2.size text
    (w, shown d s.2 output)

def start (d : Display Cell Style) (size : Size) : Writer × Screen Cell Style := (.start, blankScreen d size)

/-- A text is a frame, with lines free of cursor movement and narrower than the terminal. -/
def Framed (d : Display Cell Style) (eraseLines : Nat → Output) (s : Writer × Screen Cell Style) : Event → Prop
  | .resize _ => True
  | .write text => ∃ frame, extractFrame eraseLines s.1 text = some frame ∧
      Fits d s.2.size.columns (visibleFrame frame s.2.size)

/-- Where the size is that of the last frame, the rows that are not drawn show their lines. -/
def Kept (d : Display Cell Style) (w : Writer) (s : Screen Cell Style) (visible : List Output) : Prop :=
  w.resized s.size = false → ∀ i < s.size.rows, ¬ drawnByDiff w.previousFrame visible s.size.rows i →
    s.row i = d.drawn s.size.columns (lineAt visible i)

def KeptAt (d : Display Cell Style) (eraseLines : Nat → Output) (s : Writer × Screen Cell Style) : Event → Prop
  | .resize _ => True
  | .write text => ∀ frame ∈ extractFrame eraseLines s.1 text, Kept d s.1 s.2 (visibleFrame frame s.2.size)

variable {d : Display Cell Style} {eraseLines : Nat → Output} {s t : Writer × Screen Cell Style} {w : Writer}
  {visible : List Output} {screen : Screen Cell Style}

/-- The rows that a frame is to be shown in. -/
def Shows (d : Display Cell Style) (s : Screen Cell Style) (visible : List Output) : Prop :=
  ∀ i < s.size.rows, s.row i = d.drawn s.size.columns (lineAt visible i)

theorem lt_normalize {i rows : Nat} (h : i < rows) : i < normalizeTerminalDimension rows :=
  Nat.lt_of_lt_of_le h (Nat.le_max_right 1 rows)

theorem full_patches (hstyle : screen.style = d.plain) (hfits : Fits d screen.size.columns visible) :
    (shown d screen (patches true w screen.size visible)).size = screen.size ∧
      (shown d screen (patches true w screen.size visible)).style = d.plain ∧
      Shows d (shown d screen (patches true w screen.size visible)) visible := by
  rw [patches, if_pos rfl, shown_append]
  have hcleared : ∃ row line column, shown d screen (if w.resized screen.size then [.clearTerminal] else []) =
      { screen with row := row, line := line, column := column } := by
    split_ifs
    · exact ⟨_, _, _, rfl⟩
    · exact ⟨screen.row, screen.line, screen.column, rfl⟩
  obtain ⟨row, line, column, hcleared⟩ := hcleared
  have hfull := full_shown (d := d) (s := { screen with row := row, line := line, column := column }) hstyle hfits
  rw [hcleared]
  refine ⟨hfull.size, hfull.style, fun i hi => ?_⟩
  rw [hfull.size] at hi ⊢
  exact hfull.redrawn i (lt_normalize hi)

/-- With the diff the frame is shown exactly where the rows that are left alone show it already. -/
theorem diff_patches (hstyle : screen.style = d.plain) (hfits : Fits d screen.size.columns visible) :
    (shown d screen (patches false w screen.size visible)).size = screen.size ∧
      (shown d screen (patches false w screen.size visible)).style = d.plain ∧
      (Shows d (shown d screen (patches false w screen.size visible)) visible ↔ Kept d w screen visible) := by
  rw [patches, if_neg Bool.false_ne_true, shown_append]
  cases hresized : w.resized screen.size with
  | true =>
      have hdiff : Redrawn d (perform d screen .clearTerminal) (shown d (shown d screen [.clearTerminal])
          (renderFrameDiff none visible (normalizeTerminalDimension screen.size.rows)))
            (drawnByDiff none visible screen.size.rows) (lineAt visible) := diff_shown none hstyle hfits
      rw [if_pos rfl, if_pos rfl]
      generalize shown d (shown d screen [.clearTerminal])
        (renderFrameDiff none visible (normalizeTerminalDimension screen.size.rows)) = s' at hdiff
      have hsize : s'.size = screen.size := hdiff.size
      refine ⟨hsize, hdiff.style, iff_of_true (fun i hi => ?_) fun h => absurd (hresized.symm.trans h) nofun⟩
      rw [hsize] at hi ⊢
      by_cases hdrawn : drawnByDiff none visible screen.size.rows i
      · exact hdiff.redrawn i hdrawn
      · have hbeyond : visible.length ≤ i := by
          by_contra hlt
          exact hdrawn ⟨Nat.lt_min.mpr ⟨lt_normalize hi, Nat.lt_of_lt_of_le (Nat.lt_of_not_le hlt) (Nat.le_max_right _ _)⟩,
            rfl⟩
        have hempty : lineAt visible i = [] := by
          rw [lineAt, List.getElem?_eq_none hbeyond]
          rfl
        have hcleared : s'.row i = d.blankRow screen.style screen.size.columns := hdiff.kept i hdrawn
        rw [hcleared, hempty, hstyle]
        exact (List.nil_append _).symm
  | false =>
      have hdiff : Redrawn d screen (shown d (shown d screen [])
          (renderFrameDiff w.previousFrame visible (normalizeTerminalDimension screen.size.rows)))
            (drawnByDiff w.previousFrame visible screen.size.rows) (lineAt visible) := diff_shown w.previousFrame hstyle hfits
      rw [if_neg Bool.false_ne_true, if_neg Bool.false_ne_true]
      generalize shown d (shown d screen [])
        (renderFrameDiff w.previousFrame visible (normalizeTerminalDimension screen.size.rows)) = s' at hdiff
      refine ⟨hdiff.size, hdiff.style, fun h _ i hi hdrawn => ?_, fun h i hi => ?_⟩
      · have hrow := h i (hdiff.size.symm ▸ hi)
        rwa [hdiff.kept i hdrawn, hdiff.size] at hrow
      · rw [hdiff.size] at hi ⊢
        by_cases hdrawn : drawnByDiff w.previousFrame visible screen.size.rows i
        · exact hdiff.redrawn i hdrawn
        · rw [hdiff.kept i hdrawn]
          exact h hresized i hi hdrawn

/-- In both modes a frame makes the same of the writer, and the terminal shows its patches. -/
theorem write_frame {text : Output} {frame : ExtractedFrame} (h : extractFrame eraseLines w text = some frame)
    (synchronized : Bool) (screen : Screen Cell Style) :
    (write eraseLines synchronized w screen.size text).1 = (write eraseLines false w screen.size text).1 ∧
      shown d screen (write eraseLines synchronized w screen.size text).2 =
        shown d screen (patches synchronized w screen.size (visibleFrame frame screen.size)) := by
  rw [write, write, h]
  refine ⟨rfl, ?_⟩
  dsimp only
  generalize patches synchronized w screen.size (visibleFrame frame screen.size) = patched
  split_ifs with hempty
  · rw [List.isEmpty_iff.mp hempty]
  · rw [shown_append]
    rfl
  · rfl

theorem contents_eq_iff {s s' : Screen Cell Style} (hsize : s.size = s'.size) (h : Shows d s' visible) :
    s.contents = s'.contents ↔ Shows d s visible := by
  rw [Screen.contents, Screen.contents, hsize, List.map_inj_left]
  constructor
  · intro hrows i hi
    rw [hsize] at hi ⊢
    exact (hrows i (List.mem_range.mpr hi)).trans (h i hi)
  · intro hrows i hi
    rw [List.mem_range] at hi
    exact (hsize ▸ hrows i (hsize ▸ hi)).trans (h i hi).symm

/-- The runs in the two modes differ in the rows and the cursor only. -/
structure Same (d : Display Cell Style) (s t : Writer × Screen Cell Style) : Prop where
  writer : s.1 = t.1
  size : s.2.size = t.2.size
  style : s.2.style = d.plain
  style' : t.2.style = d.plain

theorem step_same (h : Same d s t) {a : Event} (hframed : Framed d eraseLines s a) :
    Same d (step d eraseLines false s a) (step d eraseLines true t a) ∧
      ∀ text, a = .write text → ((step d eraseLines false s a).2.contents = (step d eraseLines true t a).2.contents ↔
        KeptAt d eraseLines s a) := by
  cases a with
  | resize size => exact ⟨⟨h.writer, rfl, h.style, h.style'⟩, fun text htext => nomatch htext⟩
  | write text =>
      obtain ⟨frame, hframe, hfits⟩ := hframed
      obtain ⟨w, screen⟩ := s
      obtain ⟨w', screen'⟩ := t
      obtain ⟨rfl, hsize, hstyle, hstyle'⟩ := h
      dsimp only at hframe hfits hsize hstyle hstyle'
      obtain ⟨hfullSize, hfullStyle, hfull⟩ := full_patches (w := w) hstyle' (hsize ▸ hfits)
      obtain ⟨hdiffSize, hdiffStyle, hdiff⟩ := diff_patches (w := w) hstyle hfits
      obtain ⟨-, hdiffShown⟩ := write_frame (d := d) hframe false screen
      obtain ⟨hwriter, hfullShown⟩ := write_frame (d := d) hframe true screen'
      rw [← hsize] at hfullShown hwriter hfull hfullSize hfullStyle
      have hleft : step d eraseLines false (w, screen) (.write text) = ((write eraseLines false w screen.size text).1,
          shown d screen (patches false w screen.size (visibleFrame frame screen.size))) := by rw [← hdiffShown]; rfl
      have hright : step d eraseLines true (w, screen') (.write text) = ((write eraseLines false w screen.size text).1,
          shown d screen' (patches true w screen.size (visibleFrame frame screen.size))) := by
        rw [← hwriter, ← hfullShown, step, ← hsize]
      rw [hleft, hright]
      have hsizes := hdiffSize.trans hfullSize.symm
      refine ⟨⟨rfl, hsizes, hdiffStyle, hfullStyle⟩, fun _ _ => (contents_eq_iff hsizes hfull).trans (hdiff.trans ?_)⟩
      constructor
      · intro hkept other hother
        rw [← Option.some.inj (hframe.symm.trans hother)]
        exact hkept
      · exact fun hkept => hkept frame hframe

/-- A resize that leaves the terminal with another size than the last frame had. -/
def Away (s : Writer × Screen Cell Style) : Event → Prop
  | .resize size => s.1.resized size = true
  | .write _ => True

/-- At the size of the last frame the terminal shows it. -/
def Settled (d : Display Cell Style) (s : Writer × Screen Cell Style) : Prop :=
  s.1.resized s.2.size = false → Shows d s.2 (s.1.previousFrame.getD [])

theorem kept_of_settled (h : Settled d s) (visible : List Output) : Kept d s.1 s.2 visible := by
  intro hresized i hi hdrawn
  have hline : lineAt (s.1.previousFrame.getD []) i = lineAt visible i := by
    rw [drawnByDiff, not_and_or] at hdrawn
    rcases hdrawn with hbeyond | hsame
    · have hrows := lt_normalize hi
      have hempty (lines : List Output) (h : lines.length ≤ i) : lineAt lines i = [] := by
        rw [lineAt, List.getElem?_eq_none h]
        rfl
      rw [hempty _ (by omega), hempty _ (by omega)]
    · rw [changed, decide_eq_true_iff, not_not] at hsame
      cases hprevious : s.1.previousFrame with
      | none => rw [hprevious] at hsame; cases hsame
      | some previous =>
          rw [hprevious] at hsame
          have hget : previous[i]? = some (lineAt visible i) := hsame
          rw [Option.getD_some, lineAt, hget]
          rfl
  rw [← hline]
  exact h hresized i hi

/-- Where no resize ends at the size of the last frame, the rows that are not drawn still show their lines. -/
theorem keptAt_of_away {events : List Event} (size : Size)
    (hframed : Run.Along (step d eraseLines false) (Framed d eraseLines) (start d size) events)
    (haway : Run.Along (step d eraseLines false) Away (start d size) events) :
    Run.Along (step d eraseLines false) (KeptAt d eraseLines) (start d size) events := by
  have hstep (s : Writer × Screen Cell Style) (a : Event) (h : Framed d eraseLines s a ∧ Away s a)
      (hs : s.2.style = d.plain ∧ Settled d s) :
      (step d eraseLines false s a).2.style = d.plain ∧ Settled d (step d eraseLines false s a) := by
    cases a with
    | resize size => exact ⟨hs.1, fun hresized => absurd (h.2.symm.trans hresized) nofun⟩
    | write text =>
        obtain ⟨frame, hframe, hfits⟩ := h.1
        obtain ⟨hsize, hstyle, hdiff⟩ := diff_patches (w := s.1) hs.1 hfits
        obtain ⟨-, hshown⟩ := write_frame (d := d) hframe false s.2
        have hframeOf : (write eraseLines false s.1 s.2.size text).1.previousFrame = some (visibleFrame frame s.2.size) := by
          rw [write, hframe]
        have hright : step d eraseLines false s (.write text) = ((write eraseLines false s.1 s.2.size text).1,
            shown d s.2 (patches false s.1 s.2.size (visibleFrame frame s.2.size))) := by rw [← hshown]; rfl
        rw [hright]
        refine ⟨hstyle, fun _ => ?_⟩
        rw [hframeOf]
        exact hdiff.mpr (kept_of_settled hs.2 _)
  have hblank : Settled d (start d size) := fun _ i _ => (List.nil_append _).symm
  exact ((hframed.and haway).keeping hstep ⟨rfl, hblank⟩).mono fun s a h => by
    cases a with
    | resize size => exact trivial
    | write text => exact fun frame _ => kept_of_settled h.2.2 _

/-- A terminal of plain cells; resizing cuts rows off and adds blank ones. -/
def cellDisplay : Display (Option Char) Unit where
  plain := ()
  restyle _ style := style
  erased _ := none
  width _ := 1
  put _ c left := left ++ [some c]
  put_length _ _ _ := List.length_append
  beside _ _ cells := cells.tail
  margin _ s := s
  perform _ s := s
  reflow size s := { s with
    row := fun i => if i < min size.rows s.size.rows then (s.row i ++ List.replicate size.columns none).take size.columns
      else List.replicate size.columns none }

def eraseLinesOf (n : Nat) : Output :=
  ((List.replicate n [Token.eraseLine]).intersperse [.other ['A']]).flatten ++ [.other ['G']]

def firstFrame : Output := [.char 'a', .newline, .char 'b', .newline]

def secondFrame : Output := eraseLinesOf 3 ++ [.char 'a', .newline, .char 'b', .newline, .char 'c', .newline]

end Runs

end Kross.Tui.Frame

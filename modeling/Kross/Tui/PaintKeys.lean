import Kross.RowLayout
import Kross.Tui.MessagePaint
import Kross.Tui.RowsFit

namespace Kross.Tui

open RowLayout (Placed bisect)

section Window

/-- The rows that items take by the heights that they declare. -/
abbrev rowsOf (items : List PaintItem) : Nat := RowLayout.total PaintItem.height items

structure PaintLayout where
  entries : List (Placed PaintItem)
  totalRows : Nat

def PaintLayout.push (layout : PaintLayout) (item : PaintItem) : PaintLayout :=
  ⟨layout.entries ++ [⟨item, layout.totalRows, layout.totalRows + item.height⟩], layout.totalRows + item.height⟩

/-- A message below the layout so far; the painter goes on with what it has kept. -/
def addMessage (env : Env) (columns : Nat) (streamingMessageId : Option Nat) (nowMs : Int) (s : Painter × PaintLayout)
    (message : ChatMessage) : Painter × PaintLayout :=
  let (p, items) := paintMessage env s.1 message (max 20 columns) (streamingMessageId = some message.id) nowMs
  (p, items.foldl PaintLayout.push s.2)

def buildPaintLayout (env : Env) (p : Painter) (messages : List ChatMessage) (columns : Nat) (streamingMessageId : Option Nat)
    (nowMs : Int) : Painter × PaintLayout :=
  messages.foldl (addMessage env columns streamingMessageId nowMs) (p, ⟨[], 0⟩)

structure PaintWindow where
  items : List PaintItem
  startRow : Nat
  maxScrollOffset : Nat
  totalRows : Nat
  hasMoreAbove : Bool
  hasMoreBelow : Bool

def findFirstVisibleEntry (entries : List (Placed PaintItem)) (startLine : Nat) : Nat :=
  bisect (fun middle => entries[middle]?.any fun entry => entry.stop ≤ startLine) 0 entries.length

/-- Items are taken off the top while they use more than the viewport. -/
def dropFromTop (viewportRows : Nat) : Nat → List PaintItem → List PaintItem
  | _, [] => []
  | used, item :: visible =>
    if viewportRows < used then dropFromTop viewportRows (used - item.height) visible else item :: visible

def windowPaintLayout (layout : PaintLayout) (viewportRows : Nat) (scrollOffset : Int) : PaintWindow :=
  let viewportRows := max 1 viewportRows
  let maxScrollOffset := layout.totalRows - viewportRows
  let scrollOffset := min scrollOffset.toNat maxScrollOffset
  let endLine := layout.totalRows - scrollOffset
  let startLine := endLine - viewportRows
  if layout.entries.isEmpty then ⟨[], 0, 0, 0, false, false⟩
  else
    let firstVisible := findFirstVisibleEntry layout.entries startLine
    let visible := ((layout.entries.drop firstVisible).takeWhile fun entry => entry.start < endLine).map Placed.item
    let visible := dropFromTop viewportRows (rowsOf visible) visible
    ⟨visible, endLine - visible.length, maxScrollOffset, layout.totalRows, 0 < startLine, 0 < scrollOffset⟩

def windowPaintRows (env : Env) (p : Painter) (messages : List ChatMessage) (columns viewportRows : Nat) (scrollOffset : Int)
    (streamingMessageId : Option Nat) (nowMs : Int) : PaintWindow :=
  windowPaintLayout (buildPaintLayout env p messages columns streamingMessageId nowMs).2 viewportRows scrollOffset

end Window

section Hits

inductive ClickableMessageHit
  | thinking (messageId : Nat)
  | tool (messageId : Nat)
  deriving DecidableEq

/-- What `/^before(\d+)after/` captures; `after` begins with no digit, so the digits are all there are. -/
def keyId (before after : String) (key : String) : Option Nat :=
  let rest := key.toList.drop before.toList.length
  let digits := rest.takeWhile Char.isDigit
  if before.toList.isPrefixOf key.toList && !digits.isEmpty && after.toList.isPrefixOf (rest.dropWhile Char.isDigit) then
    some (number digits)
  else none

def clickableHitFromPaintKey (key : String) : Option ClickableMessageHit :=
  ((keyId "th-h-" "" key <|> (keyId "th-gap-" "" key <|> keyId "th-" "-" key)).map .thinking) <|>
    ((keyId "tool-" "-title" key <|> (keyId "tool-" "-detail" key <|>
      (keyId "tool-gap-" "" key <|> keyId "tool-" "-item-" key))).map .tool)

/-- The item in a row; `cursor` is the row in which the first one begins. -/
def itemInRow (localRow : Nat) : Nat → List PaintItem → Option PaintItem
  | _, [] => none
  | cursor, item :: items =>
    if cursor ≤ localRow && localRow < cursor + item.height then some item
    else itemInRow localRow (cursor + item.height) items

def hitTestClickableMessage (env : Env) (p : Painter) (messages : List ChatMessage) (columns contentRows : Nat)
    (scrollOffset clickRow viewportTopRow : Int) (streamingMessageId : Option Nat) (nowMs : Int) : Option ClickableMessageHit :=
  let contentRows := max 1 contentRows
  if clickRow < viewportTopRow || viewportTopRow + contentRows ≤ clickRow then none
  else
    let windowed := windowPaintRows env p messages columns contentRows scrollOffset streamingMessageId nowMs
    let contentHeight := rowsOf windowed.items
    let padTop := contentRows - contentHeight
    let localRow := clickRow - (viewportTopRow + padTop)
    if localRow < 0 || contentHeight ≤ localRow then none
    else (itemInRow localRow.toNat 0 windowed.items).bind fun item => clickableHitFromPaintKey item.key

structure TextSelectionPoint where
  row : Nat
  col : Nat

def resolveViewportSelectionPoint (window : PaintWindow) (contentRows : Nat)
    (viewportTopRow contentLeftCol terminalRow terminalCol : Int) (clamp : Bool) : Option TextSelectionPoint :=
  if window.items.isEmpty then none
  else
    let contentHeight := window.items.length
    let padTop := contentRows - contentHeight
    let firstRow := viewportTopRow + padTop
    let lastRow := firstRow + contentHeight - 1
    if !clamp && (terminalRow < firstRow || lastRow < terminalRow) then none
    else
      let localRow := (min (terminalRow - firstRow) (contentHeight - 1)).toNat
      window.items[localRow]?.map fun item =>
        let lineWidth := max 1 (displayWidth (SoftWrap.plain item.segments))
        let localCol := (terminalCol - contentLeftCol).toNat
        ⟨window.startRow + localRow, min localCol (lineWidth - 1)⟩

end Hits

section Reading

variable {before after key : String} {n : Nat} {rest : Text}

theorem number_toString (n : Nat) : number (toString n).toList = n := by
  have hdigits : (toString n).toList = Nat.toDigits 10 n := Nat.toList_repr
  have hfold : (fun (n : Nat) (c : Char) => n * 10 + (c.toNat - 48)) = fun n c => 10 * n + (c.toNat - '0'.toNat) := by
    funext n c
    rw [Nat.mul_comm]
    rfl
  rw [number, hdigits, hfold]
  exact Nat.ofDigitChars_ten_toDigits

theorem digits_cons (n : Nat) : ∃ d ds, (toString n).toList = d :: ds ∧ d.isDigit = true := by
  cases hdigits : (toString n).toList with
  | nil => exact absurd ((Nat.toList_repr (n := n)).symm.trans hdigits) Nat.toDigits_ne_nil
  | cons d ds => exact ⟨d, ds, rfl, isDigit_of_mem_toString (by rw [hdigits]; exact List.mem_cons_self)⟩

theorem takeWhile_digits (hrest : ∀ c ∈ rest.head?, c.isDigit = false) :
    ((toString n).toList ++ rest).takeWhile Char.isDigit = (toString n).toList ∧
      ((toString n).toList ++ rest).dropWhile Char.isDigit = rest := by
  have hall : ∀ c ∈ (toString n).toList, c.isDigit = true := fun _ hc => isDigit_of_mem_toString hc
  rw [List.takeWhile_append_of_pos hall, List.dropWhile_append_of_pos hall]
  cases rest with
  | nil => exact ⟨List.append_nil _, rfl⟩
  | cons c rest =>
      have hc : c.isDigit = false := hrest c rfl
      rw [List.takeWhile_cons, List.dropWhile_cons, hc, if_neg Bool.false_ne_true, if_neg Bool.false_ne_true]
      exact ⟨List.append_nil _, rfl⟩

/-- A number behind `before` is read where `after` goes on behind it. -/
theorem keyId_eq (hkey : key.toList = before.toList ++ ((toString n).toList ++ rest))
    (hrest : ∀ c ∈ rest.head?, c.isDigit = false) :
    keyId before after key = if after.toList.isPrefixOf rest then some n else none := by
  obtain ⟨htake, hdrop⟩ := takeWhile_digits (n := n) hrest
  obtain ⟨d, ds, hdigits, -⟩ := digits_cons n
  have hne : (toString n).toList.isEmpty = false := by rw [hdigits]; rfl
  have hbefore : before.toList.isPrefixOf key.toList = true := by
    rw [hkey]
    exact List.isPrefixOf_iff_prefix.mpr (List.prefix_append _ _)
  rw [keyId, hbefore, hkey, List.drop_left, htake, hdrop, hne, number_toString]
  rfl

theorem keyId_eq_end (hkey : key.toList = before.toList ++ (toString n).toList) : keyId before "" key = some n := by
  rw [← List.append_nil (toString n).toList] at hkey
  exact (keyId_eq hkey nofun).trans (if_pos rfl)

theorem keyId_eq_none (h : before.toList.isPrefixOf key.toList = false) : keyId before after key = none := by
  rw [keyId, h]
  rfl

end Reading

section Shapes

variable {key : String} {rest : Text} (id : Nat)

theorem hit_thinking_header : clickableHitFromPaintKey ("th-h-" ++ toString id) = some (.thinking id) := by
  have hid : keyId "th-h-" "" ("th-h-" ++ toString id) = some id := keyId_eq_end String.toList_append
  rw [clickableHitFromPaintKey, hid]
  rfl

theorem hit_thinking_gap : clickableHitFromPaintKey ("th-gap-" ++ toString id) = some (.thinking id) := by
  have hother : keyId "th-h-" "" ("th-gap-" ++ toString id) = none := by
    refine keyId_eq_none ?_
    rw [String.toList_append]
    rfl
  have hid : keyId "th-gap-" "" ("th-gap-" ++ toString id) = some id := keyId_eq_end String.toList_append
  rw [clickableHitFromPaintKey, hother, hid]
  rfl

/-- What is not a digit does not stand where a number stands. -/
theorem isPrefixOf_digits (base : Text) {c : Char} (hc : c.isDigit = false) (more rest : Text) :
    (base ++ c :: more).isPrefixOf (base ++ ((toString id).toList ++ rest)) = false := by
  obtain ⟨d, ds, hdigits, hd⟩ := digits_cons id
  rw [Bool.eq_false_iff, ne_eq, List.isPrefixOf_iff_prefix, hdigits, List.prefix_append_right_inj, List.cons_append,
    List.cons_prefix_cons]
  rintro ⟨rfl, -⟩
  rw [hc] at hd
  cases hd

theorem hit_thinking_line (rest : Text) (hkey : key.toList = "th-".toList ++ ((toString id).toList ++ ('-' :: rest))) :
    clickableHitFromPaintKey key = some (.thinking id) := by
  have hh : 'h'.isDigit = false := rfl
  have hg : 'g'.isDigit = false := rfl
  have hheader : keyId "th-h-" "" key = none :=
    keyId_eq_none (by rw [hkey]; exact isPrefixOf_digits id "th-".toList hh ['-'] _)
  have hgap : keyId "th-gap-" "" key = none :=
    keyId_eq_none (by rw [hkey]; exact isPrefixOf_digits id "th-".toList hg ['a', 'p', '-'] _)
  have hid : keyId "th-" "-" key = some id :=
    (keyId_eq hkey (fun c hc => by cases hc; rfl)).trans (if_pos rfl)
  rw [clickableHitFromPaintKey, hheader, hgap, hid]
  rfl

/-- No key of a thinking message begins with `too`. -/
theorem thinking_none (hkey : key.toList = "too".toList ++ rest) :
    (keyId "th-h-" "" key <|> (keyId "th-gap-" "" key <|> keyId "th-" "-" key)) = none := by
  rw [keyId_eq_none (by rw [hkey]; rfl), keyId_eq_none (by rw [hkey]; rfl), keyId_eq_none (by rw [hkey]; rfl)]
  rfl

theorem hit_tool_gap : clickableHitFromPaintKey ("tool-gap-" ++ toString id) = some (.tool id) := by
  have hkey : ("tool-gap-" ++ toString id).toList = "tool-gap-".toList ++ (toString id).toList := String.toList_append
  have hnoDigits (after : String) : keyId "tool-" after ("tool-gap-" ++ toString id) = none := by
    rw [keyId, hkey]
    rfl
  have hid : keyId "tool-gap-" "" ("tool-gap-" ++ toString id) = some id := keyId_eq_end hkey
  have hthinking := thinking_none hkey
  rw [clickableHitFromPaintKey, hthinking, hnoDigits, hnoDigits, hid]
  rfl

theorem hit_tool_row (part : String) (rest : Text) (hpart : part ∈ ["-title", "-detail", "-item-"])
    (hkey : key.toList = "tool-".toList ++ ((toString id).toList ++ (part.toList ++ rest))) :
    clickableHitFromPaintKey key = some (.tool id) := by
  have hthinking := thinking_none hkey
  have hg : 'g'.isDigit = false := rfl
  have hgap : keyId "tool-gap-" "" key = none :=
    keyId_eq_none (by rw [hkey]; exact isPrefixOf_digits id "tool-".toList hg ['a', 'p', '-'] _)
  have hread (after : String) : keyId "tool-" after key =
      if after.toList.isPrefixOf (part.toList ++ rest) then some id else none := by
    refine keyId_eq hkey fun c hc => ?_
    simp only [List.mem_cons, List.not_mem_nil, or_false] at hpart
    rcases hpart with rfl | rfl | rfl <;>
      · cases hc
        rfl
  rw [clickableHitFromPaintKey, hthinking, hgap, hread, hread, hread]
  simp only [List.mem_cons, List.not_mem_nil, or_false] at hpart
  rcases hpart with rfl | rfl | rfl <;> rfl

/-- No key of these begins with `t`. -/
theorem hit_none {c : Char} (rest : Text) (hc : c ≠ 't') (hkey : key.toList = c :: rest) : clickableHitFromPaintKey key = none := by
  have hnone (before after : String) (more : Text) (hbefore : before.toList = 't' :: more) :
      keyId before after key = none := by
    refine keyId_eq_none ?_
    rw [hkey, hbefore, List.isPrefixOf]
    simp [Ne.symm hc]
  rw [clickableHitFromPaintKey, hnone _ _ _ rfl, hnone _ _ _ rfl, hnone _ _ _ rfl, hnone _ _ _ rfl, hnone _ _ _ rfl,
    hnone _ _ _ rfl, hnone _ _ _ rfl]
  rfl

end Shapes

section Items

variable {env : Env} {s : Markdown} {message : ChatMessage} {tool : ToolCallState} {columns : Nat}

/-- What a click on a row of a message is for. -/
def clickable (message : ChatMessage) : Option ClickableMessageHit :=
  match message.from', message.tool with
  | .thinking, _ => some (.thinking message.id)
  | .tool, some _ => some (.tool message.id)
  | _, _ => none

/-- A row of a message: it is one row high, and its key tells the message. -/
structure RowOf (hit : Option ClickableMessageHit) (item : PaintItem) : Prop where
  height : item.height = 1
  hit : clickableHitFromPaintKey item.key = hit

variable {hit : Option ClickableMessageHit}

theorem rowOf_prefixedItems {key : Nat → String} {before : Nat → List PaintSegment} {rows : List (List PaintSegment)}
    (hkey : ∀ w, clickableHitFromPaintKey (key w) = hit) : ∀ item ∈ prefixedItems key before rows, RowOf hit item := by
  intro item hitem
  obtain ⟨⟨row, w⟩, -, rfl⟩ := List.mem_map.mp hitem
  exact ⟨rfl, hkey w⟩

theorem rowOf_softWrapLineItems {keyPrefix : String} {segments : List PaintSegment}
    (hkey : ∀ w : Nat, clickableHitFromPaintKey (keyPrefix ++ "-W" ++ toString w) = hit) :
    ∀ item ∈ softWrapLineItems keyPrefix segments columns, RowOf hit item := by
  intro item hitem
  obtain ⟨⟨row, w⟩, -, rfl⟩ := List.mem_map.mp hitem
  exact ⟨rfl, hkey w⟩

theorem rowOf_gap {key : String} (hkey : clickableHitFromPaintKey key = hit) : ∀ item ∈ [blankItem key], RowOf hit item := by
  intro item hitem
  rw [List.mem_singleton.mp hitem]
  exact ⟨rfl, hkey⟩

theorem forall_mem_append {items more : List PaintItem} (hitems : ∀ item ∈ items, RowOf hit item)
    (hmore : ∀ item ∈ more, RowOf hit item) : ∀ item ∈ items ++ more, RowOf hit item :=
  List.forall_mem_append.mpr ⟨hitems, hmore⟩

/-- A key that begins with a text that begins with another character than `t`. -/
theorem hit_none_append {begun more : String} {c : Char} {rest : Text} (hbegun : begun.toList = c :: rest) (hc : c ≠ 't') :
    clickableHitFromPaintKey (begun ++ more) = none := by
  refine hit_none (rest ++ more.toList) hc ?_
  rw [String.toList_append, hbegun]
  rfl

theorem paintUser_rows : ∀ item ∈ paintUser message columns, RowOf none item := by
  refine forall_mem_append (rowOf_prefixedItems fun w => ?_) (rowOf_gap ?_)
  · rw [String.append_assoc, String.append_assoc]
    exact hit_none_append rfl (by decide)
  · exact hit_none_append rfl (by decide)

theorem paintSystem_rows : ∀ item ∈ paintSystem env message columns, RowOf none item := by
  rw [paintSystem]
  split
  · refine forall_mem_append (rowOf_softWrapLineItems fun w => ?_) (rowOf_gap ?_)
    · rw [String.append_assoc, String.append_assoc]
      exact hit_none_append rfl (by decide)
    · exact hit_none_append rfl (by decide)
  · refine forall_mem_append (rowOf_softWrapLineItems fun w => ?_) (rowOf_gap ?_)
    · rw [String.append_assoc, String.append_assoc]
      exact hit_none_append rfl (by decide)
    · exact hit_none_append rfl (by decide)

theorem agentLines_rows {id : String} {bodyWidth : Nat} {firstContent : Bool} {i : Nat} {lines : List MdLine} :
    ∀ item ∈ agentLines id bodyWidth firstContent i lines, RowOf none item := by
  induction lines generalizing firstContent i with
  | nil => exact nofun
  | cons line lines ih =>
      rw [agentLines]
      split_ifs
      · refine List.forall_mem_cons.mpr ⟨⟨rfl, ?_⟩, ih⟩
        show clickableHitFromPaintKey (_ ++ "-blank") = none
        rw [String.append_assoc, String.append_assoc, String.append_assoc]
        exact hit_none_append rfl (by decide)
      · refine forall_mem_append (rowOf_prefixedItems fun w => ?_) ih
        rw [String.append_assoc, String.append_assoc, String.append_assoc, String.append_assoc]
        exact hit_none_append rfl (by decide)

theorem paintAgent_rows (streaming : Bool) : ∀ item ∈ (paintAgent env s message columns streaming).2, RowOf none item :=
  forall_mem_append agentLines_rows (rowOf_gap (hit_none_append rfl (by decide)))

/-- The key of a row of a tool call: what part of it the row is in, then `more`. -/
theorem hit_tool_key (id : Nat) (part more : String) (hpart : part ∈ ["-title", "-detail", "-item-"]) (rest : String) :
    clickableHitFromPaintKey ("tool-" ++ toString id ++ (part ++ more) ++ rest) = some (.tool id) := by
  refine hit_tool_row id part (more.toList ++ rest.toList) hpart ?_
  simp only [String.toList_append, List.append_assoc]

theorem detailItems_rows : ∀ item ∈ detailItems (toString message.id) tool columns, RowOf (some (.tool message.id)) item := by
  have hpart : "-detail" ∈ ["-title", "-detail", "-item-"] := by decide
  refine forall_mem_append (fun item hitem => ?_) ?_
  · obtain ⟨⟨line, index⟩, -, hitem⟩ := List.mem_flatMap.mp hitem
    refine rowOf_prefixedItems (fun w => ?_) item hitem
    rw [String.append_assoc, String.append_assoc]
    exact hit_tool_key message.id "-detail" "-" hpart (toString index ++ ("-W" ++ toString w))
  · split_ifs
    · intro item hitem
      rw [List.mem_singleton.mp hitem]
      refine ⟨rfl, ?_⟩
      show clickableHitFromPaintKey ("tool-" ++ toString message.id ++ "-detail-trunc") = _
      rw [← String.append_empty (s := "tool-" ++ toString message.id ++ "-detail-trunc")]
      exact hit_tool_key message.id "-detail" "-trunc" hpart ""
    · exact nofun

theorem paintTool_rows : ∀ item ∈ paintTool env message tool columns, RowOf (some (.tool message.id)) item := by
  refine forall_mem_append (forall_mem_append (rowOf_prefixedItems fun w => ?_) ?_) (rowOf_gap (hit_tool_gap message.id))
  · exact hit_tool_key message.id "-title" "-W" (by decide) (toString w)
  · split_ifs
    · intro item hitem
      obtain ⟨⟨row, index⟩, -, rfl⟩ := List.mem_map.mp hitem
      exact ⟨rfl, hit_tool_key message.id "-item-" "" (by decide) (toString index)⟩
    · exact detailItems_rows
    · exact nofun

theorem thinkingLines_rows {text : Text} :
    ∀ item ∈ thinkingLines (toString message.id) columns text, RowOf (some (.thinking message.id)) item := by
  intro item hitem
  obtain ⟨⟨line, i⟩, -, hitem⟩ := List.mem_flatMap.mp hitem
  refine rowOf_prefixedItems (fun w => ?_) item hitem
  refine hit_thinking_line message.id ('L' :: ((toString i).toList ++ ("-W".toList ++ (toString w).toList))) ?_
  simp only [String.toList_append, List.append_assoc]
  rfl

/-- The header of a thinking message is no wider than the terminal. -/
def HeaderFits (env : Env) (message : ChatMessage) (columns : Nat) (streaming : Bool) (nowMs : Int) : Prop :=
  message.from' = .thinking → displayWidth (formatThinkingLabel env message streaming nowMs) + 2 ≤ columns

theorem paintThinking_rows (env : Env) (message : ChatMessage) (columns : Nat) (streaming : Bool) (nowMs : Int) :
    ∃ rows, paintThinking env message columns streaming nowMs =
        lineItem ("th-h-" ++ toString message.id)
          [colorSegment "cyan" "▪ ".toList, dimSegment (formatThinkingLabel env message streaming nowMs)] columns :: rows ∧
      ∀ item ∈ rows, RowOf (some (.thinking message.id)) item := by
  refine ⟨_, rfl, forall_mem_append ?_ (rowOf_gap (hit_thinking_gap message.id))⟩
  split_ifs
  · exact thinkingLines_rows
  · exact nofun

theorem header_height (hcolumns : 0 < columns) (key : String) (label : Text) :
    (lineItem key [colorSegment "cyan" "▪ ".toList, dimSegment label] columns).height = 1 ↔ displayWidth label + 2 ≤ columns := by
  have hplain : SoftWrap.plain [colorSegment "cyan" "▪ ".toList, dimSegment label] = "▪ ".toList ++ label := by
    rw [SoftWrap.plain, List.flatMap_cons, List.flatMap_singleton]
    rfl
  have hmark : displayWidth "▪ ".toList = 2 := by decide
  rw [lineItem, hplain, countWrappedRows_eq_one hcolumns, displayWidth_append, hmark, Nat.add_comm]

/-- Each row of a message has a height, and its key tells the message. -/
structure Shown (message : ChatMessage) (item : PaintItem) : Prop where
  height : 1 ≤ item.height
  hit : clickableHitFromPaintKey item.key = clickable message

theorem shown_of_rows {items : List PaintItem} (h : ∀ item ∈ items, RowOf (clickable message) item) :
    (∀ item ∈ items, Shown message item) ∧ ∀ item ∈ items, item.height = 1 :=
  ⟨fun item hitem => ⟨Nat.le_of_eq (h item hitem).height.symm, (h item hitem).hit⟩, fun item hitem => (h item hitem).height⟩

/-- What is painted of a message has rows of one height exactly when the header fits. -/
theorem paintMessageUncached_rows (hcolumns : 0 < columns) (streaming : Bool) (nowMs : Int) :
    (∀ item ∈ (paintMessageUncached env s message columns streaming nowMs).2, Shown message item) ∧
      ((∀ item ∈ (paintMessageUncached env s message columns streaming nowMs).2, item.height = 1) ↔
        HeaderFits env message columns streaming nowMs) := by
  have hother {items : List PaintItem} {hit : Option ClickableMessageHit} (hfrom : message.from' ≠ .thinking)
      (hhit : hit = clickable message) (hrows : ∀ item ∈ items, RowOf hit item) :
      (∀ item ∈ items, Shown message item) ∧
        ((∀ item ∈ items, item.height = 1) ↔ HeaderFits env message columns streaming nowMs) := by
    obtain ⟨hshown, hheight⟩ := shown_of_rows (hhit ▸ hrows)
    exact ⟨hshown, iff_of_true hheight fun hthinking => absurd hthinking hfrom⟩
  rw [paintMessageUncached]
  cases hfrom : message.from' with
  | tool =>
      cases htool : message.tool with
      | some tool => exact hother (by rw [hfrom]; decide) (by rw [clickable, hfrom, htool]) paintTool_rows
      | none => exact hother (by rw [hfrom]; decide) (by rw [clickable, hfrom, htool]) (paintAgent_rows streaming)
  | system => exact hother (by rw [hfrom]; decide) (by rw [clickable, hfrom]) paintSystem_rows
  | user => exact hother (by rw [hfrom]; decide) (by rw [clickable, hfrom]) paintUser_rows
  | agent => exact hother (by rw [hfrom]; decide) (by rw [clickable, hfrom]) (paintAgent_rows streaming)
  | thinking =>
      have hclickable : clickable message = some (.thinking message.id) := by rw [clickable, hfrom]
      obtain ⟨rows, hpaint, hrows⟩ := paintThinking_rows env message columns streaming nowMs
      obtain ⟨hshown, hheights⟩ := shown_of_rows (hclickable ▸ hrows)
      show (∀ item ∈ paintThinking env message columns streaming nowMs, Shown message item) ∧
        ((∀ item ∈ paintThinking env message columns streaming nowMs, item.height = 1) ↔ _)
      rw [hpaint, List.forall_mem_cons, List.forall_mem_cons, header_height hcolumns, and_iff_left hheights, HeaderFits,
        imp_iff_right hfrom]
      refine ⟨⟨⟨?_, ?_⟩, hshown⟩, Iff.rfl⟩
      · rw [lineItem]
        dsimp only
        exact one_le_countWrappedRows _ columns
      · rw [hclickable]
        exact hit_thinking_header message.id

end Items

end Kross.Tui

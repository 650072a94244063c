import Kross.Tui.PaintKeys

namespace Kross.Tui

open RowLayout (Placed place total bisect)

section Layout

variable {env : Env} {p : Painter}

theorem foldl_push (entries : List (Placed PaintItem)) (row : Nat) (items : List PaintItem) :
    items.foldl PaintLayout.push ⟨entries, row⟩ = ⟨entries ++ place PaintItem.height row items, row + rowsOf items⟩ := by
  induction items generalizing entries row with
  | nil => rw [place, List.append_nil]; rfl
  | cons item items ih =>
      have htotal : rowsOf (item :: items) = item.height + rowsOf items := rfl
      rw [List.foldl_cons, PaintLayout.push, ih, place, htotal, List.append_assoc, ← Nat.add_assoc]
      rfl

/-- The calls that paint messages one below another. -/
def paintCalls (messages : List ChatMessage) (columns : Nat) (streamingMessageId : Option Nat) (nowMs : Int) : List PaintCall :=
  messages.map fun message => ⟨message, max 20 columns, streamingMessageId = some message.id, nowMs⟩

/-- What is painted of each message. -/
def painted (env : Env) : Painter → List PaintCall → List (ChatMessage × PaintItem)
  | _, [] => []
  | p, call :: calls => (paint env p call).2.map (call.message, ·) ++ painted env (afterPaint env p call) calls

def layoutOf (items : List PaintItem) : PaintLayout := ⟨place PaintItem.height 0 items, rowsOf items⟩

theorem foldl_addMessage (messages : List ChatMessage) (columns : Nat) (streamingMessageId : Option Nat) (nowMs : Int)
    (entries : List (Placed PaintItem)) (row : Nat) :
    let items := (painted env p (paintCalls messages columns streamingMessageId nowMs)).map Prod.snd
    (messages.foldl (addMessage env columns streamingMessageId nowMs) (p, ⟨entries, row⟩)).2 =
      ⟨entries ++ place PaintItem.height row items, row + rowsOf items⟩ := by
  induction messages generalizing p entries row with
  | nil => exact congrArg (PaintLayout.mk · row) (List.append_nil entries).symm
  | cons message messages ih =>
      let call : PaintCall := ⟨message, max 20 columns, streamingMessageId = some message.id, nowMs⟩
      have hcalls : painted env p (paintCalls (message :: messages) columns streamingMessageId nowMs) =
          (paint env p call).2.map (message, ·) ++
            painted env (afterPaint env p call) (paintCalls messages columns streamingMessageId nowMs) := rfl
      have hitems : ((paint env p call).2.map (message, ·)).map Prod.snd = (paint env p call).2 := by
        rw [List.map_map]
        exact List.map_id _
      have hadd : addMessage env columns streamingMessageId nowMs (p, ⟨entries, row⟩) message =
          (afterPaint env p call, (paint env p call).2.foldl PaintLayout.push ⟨entries, row⟩) := rfl
      have htotal (items more : List PaintItem) : rowsOf (items ++ more) = rowsOf items + rowsOf more := RowLayout.total_append
      dsimp only
      rw [List.foldl_cons, hadd, foldl_push, ih, hcalls, List.map_append, hitems, RowLayout.place_append, htotal,
        List.append_assoc, Nat.add_assoc]

theorem buildPaintLayout_eq (messages : List ChatMessage) (columns : Nat) (streamingMessageId : Option Nat) (nowMs : Int) :
    (buildPaintLayout env p messages columns streamingMessageId nowMs).2 =
      layoutOf ((painted env p (paintCalls messages columns streamingMessageId nowMs)).map Prod.snd) := by
  refine (foldl_addMessage messages columns streamingMessageId nowMs [] 0).trans ?_
  rw [Nat.zero_add]
  rfl

end Layout

section Window

variable {items : List PaintItem} {viewportRows : Nat} {scrollOffset : Int}

theorem dropFromTop_of_le {used : Nat} {visible : List PaintItem} (h : used ≤ viewportRows) :
    dropFromTop viewportRows used visible = visible := by
  cases visible with
  | nil => rfl
  | cons item visible => exact if_neg (Nat.not_lt.mpr h)

/-- Where the viewport ends. -/
def endLine (rows viewportRows : Nat) (scrollOffset : Int) : Nat :=
  rows - min scrollOffset.toNat (rows - max 1 viewportRows)

def startLine (rows viewportRows : Nat) (scrollOffset : Int) : Nat :=
  endLine rows viewportRows scrollOffset - max 1 viewportRows

theorem lines_spec (rows viewportRows : Nat) (scrollOffset : Int) :
    endLine rows viewportRows scrollOffset ≤ rows ∧
      endLine rows viewportRows scrollOffset - startLine rows viewportRows scrollOffset = min (max 1 viewportRows) rows ∧
      startLine rows viewportRows scrollOffset ≤ endLine rows viewportRows scrollOffset := by
  rw [startLine, endLine]
  omega

theorem windowPaintLayout_eq (hne : items ≠ []) :
    windowPaintLayout (layoutOf items) viewportRows scrollOffset =
      let stop := endLine (rowsOf items) viewportRows scrollOffset
      let begun := startLine (rowsOf items) viewportRows scrollOffset
      let visible := (((place PaintItem.height 0 items).drop (findFirstVisibleEntry (place PaintItem.height 0 items) begun)).takeWhile
        fun entry => entry.start < stop).map Placed.item
      let shown := dropFromTop (max 1 viewportRows) (rowsOf visible) visible
      ⟨shown, stop - shown.length, rowsOf items - max 1 viewportRows, rowsOf items, 0 < begun,
        0 < min scrollOffset.toNat (rowsOf items - max 1 viewportRows)⟩ := by
  have hentries : (place PaintItem.height 0 items).isEmpty = false := by
    rw [List.isEmpty_eq_false_iff, ne_eq, ← List.length_eq_zero_iff, RowLayout.length_place, List.length_eq_zero_iff]
    exact hne
  rw [windowPaintLayout, layoutOf, hentries]
  rfl

theorem visible_of_heights {begun stop : Nat} (h : ∀ item ∈ items, item.height = 1) (hle : begun ≤ stop)
    (hstop : stop ≤ items.length) :
    (((place PaintItem.height 0 items).drop (findFirstVisibleEntry (place PaintItem.height 0 items) begun)).takeWhile
        fun entry => entry.start < stop).map Placed.item = (items.drop begun).take (stop - begun) := by
  have hentry (i : Nat) := RowLayout.getElem?_place h 0 i
  have hfirst : findFirstVisibleEntry (place PaintItem.height 0 items) begun = begun := by
    refine RowLayout.bisect_eq (fun i hi => ?_) (by rw [RowLayout.length_place]; omega)
    rw [RowLayout.length_place] at hi
    rw [hentry, List.getElem?_eq_getElem hi, Option.map_some, Option.any_some, decide_eq_true_iff]
    dsimp only
    omega
  have htake : ((place PaintItem.height 0 items).drop begun).takeWhile (fun entry => entry.start < stop) =
      ((place PaintItem.height 0 items).drop begun).take (stop - begun) := by
    refine RowLayout.takeWhile_eq_take fun i entry hi => ?_
    rw [List.getElem?_drop, hentry] at hi
    obtain ⟨item, -, rfl⟩ := Option.map_eq_some_iff.mp hi
    rw [decide_eq_true_iff]
    dsimp only
    omega
  rw [hfirst, htake, List.map_take, List.map_drop, RowLayout.map_item_place]

/-- Items of one row each: the viewport shows those from its first row on. -/
theorem window_of_heights (h : ∀ item ∈ items, item.height = 1) (viewportRows : Nat) (scrollOffset : Int) :
    (windowPaintLayout (layoutOf items) viewportRows scrollOffset).items =
        (items.drop (startLine items.length viewportRows scrollOffset)).take (min (max 1 viewportRows) items.length) ∧
      (windowPaintLayout (layoutOf items) viewportRows scrollOffset).startRow =
        startLine items.length viewportRows scrollOffset := by
  have hrows : rowsOf items = items.length := RowLayout.total_eq_length h
  obtain ⟨hstop, hfill, hle⟩ := lines_spec items.length viewportRows scrollOffset
  cases hne : items with
  | nil => exact ⟨by simp [windowPaintLayout, layoutOf, place], by simp [windowPaintLayout, layoutOf, place, startLine, endLine]⟩
  | cons first more =>
      rw [← hne]
      rw [windowPaintLayout_eq (by rw [hne]; exact List.cons_ne_nil _ _), hrows]
      generalize endLine items.length viewportRows scrollOffset = stop at *
      generalize startLine items.length viewportRows scrollOffset = begun at *
      have hvisible := visible_of_heights h hle hstop
      have hlength : ((items.drop begun).take (stop - begun)).length = stop - begun := by
        rw [List.length_take, List.length_drop]
        omega
      have hshown : rowsOf ((items.drop begun).take (stop - begun)) = stop - begun :=
        (RowLayout.total_eq_length fun item hitem => h item (List.mem_of_mem_drop (List.mem_of_mem_take hitem))).trans hlength
      dsimp only
      rw [hvisible, hshown, dropFromTop_of_le (by omega), hlength, hfill]
      exact ⟨rfl, by omega⟩

end Window

section Display

/-- The row of the conversation that the terminal shows in a row: the window stands at the bottom of the content. -/
def displayedRow (window : PaintWindow) (contentRows : Nat) (viewportTopRow terminalRow : Int) : Option Nat :=
  let padTop := contentRows - rowsOf window.items
  if terminalRow - viewportTopRow < padTop then none
  else some (window.startRow + ((terminalRow - viewportTopRow).toNat - padTop))

/-- The message of each row of the conversation. -/
def rowMessages (shown : List (ChatMessage × PaintItem)) : List ChatMessage :=
  shown.flatMap fun row => List.replicate row.2.height row.1

/-- The window is a part of the layout that begins in its first row and fills the viewport. -/
structure WindowFills (items : List PaintItem) (viewportRows : Nat) (window : PaintWindow) : Prop where
  part : ∃ before after, items = before ++ window.items ++ after ∧ rowsOf before = window.startRow
  filled : rowsOf window.items = min (max 1 viewportRows) (rowsOf items)

/-- The rows of the content are found as they are displayed. -/
structure HitsDisplayed (env : Env) (p : Painter) (messages : List ChatMessage) (columns contentRows : Nat) (scrollOffset : Int)
    (streamingMessageId : Option Nat) (nowMs viewportTopRow terminalRow : Int) : Prop where
  message :
    let window := windowPaintRows env p messages columns contentRows scrollOffset streamingMessageId nowMs
    let shown := painted env p (paintCalls messages columns streamingMessageId nowMs)
    hitTestClickableMessage env p messages columns contentRows scrollOffset terminalRow viewportTopRow streamingMessageId nowMs =
      (displayedRow window contentRows viewportTopRow terminalRow).bind fun row => (rowMessages shown)[row]?.bind clickable
  row :
    let window := windowPaintRows env p messages columns contentRows scrollOffset streamingMessageId nowMs
    ∀ contentLeftCol terminalCol,
      (resolveViewportSelectionPoint window contentRows viewportTopRow contentLeftCol terminalRow terminalCol false).map
        TextSelectionPoint.row = displayedRow window contentRows viewportTopRow terminalRow

/-- The window, and both kinds of hit tests, agree with the screen for every viewport. -/
def ViewportAgrees (env : Env) (p : Painter) (messages : List ChatMessage) (columns : Nat) (streamingMessageId : Option Nat)
    (nowMs : Int) : Prop :=
  ∀ contentRows scrollOffset,
    WindowFills ((painted env p (paintCalls messages columns streamingMessageId nowMs)).map Prod.snd) contentRows
        (windowPaintRows env p messages columns contentRows scrollOffset streamingMessageId nowMs) ∧
      ∀ viewportTopRow terminalRow : Int, viewportTopRow ≤ terminalRow → terminalRow < viewportTopRow + contentRows →
        HitsDisplayed env p messages columns contentRows scrollOffset streamingMessageId nowMs viewportTopRow terminalRow

/-- An item of one row that tells its message. -/
def Regular (row : ChatMessage × PaintItem) : Prop := RowOf (clickable row.1) row.2

variable {items : List PaintItem} {viewportRows : Nat} {scrollOffset : Int}

theorem windowFills_of_heights (h : ∀ item ∈ items, item.height = 1) (viewportRows : Nat) (scrollOffset : Int) :
    WindowFills items viewportRows (windowPaintLayout (layoutOf items) viewportRows scrollOffset) := by
  obtain ⟨hitems, hstart⟩ := window_of_heights h viewportRows scrollOffset
  obtain ⟨hstop, hfill, hle⟩ := lines_spec items.length viewportRows scrollOffset
  have hcount {part : List PaintItem} (hpart : ∀ item ∈ part, item ∈ items) : rowsOf part = part.length :=
    RowLayout.total_eq_length fun item hitem => h item (hpart item hitem)
  constructor
  · refine ⟨items.take (startLine items.length viewportRows scrollOffset),
      (items.drop (startLine items.length viewportRows scrollOffset)).drop (min (max 1 viewportRows) items.length), ?_, ?_⟩
    · rw [hitems, List.append_assoc, List.take_append_drop, List.take_append_drop]
    · rw [hstart, hcount fun _ => List.mem_of_mem_take, List.length_take]
      omega
  · rw [hitems, hcount fun _ hitem => List.mem_of_mem_drop (List.mem_of_mem_take hitem), hcount fun _ => id, List.length_take,
      List.length_drop]
    omega

theorem itemInRow_of_heights (h : ∀ item ∈ items, item.height = 1) {localRow cursor : Nat} (hcursor : cursor ≤ localRow) :
    itemInRow localRow cursor items = items[localRow - cursor]? := by
  induction items generalizing cursor with
  | nil => rfl
  | cons item items ih =>
      obtain ⟨hitem, hitems⟩ := List.forall_mem_cons.mp h
      rw [itemInRow, hitem]
      by_cases hrow : localRow = cursor
      · rw [if_pos (by simp [hrow]), hrow, Nat.sub_self]
        rfl
      · have hsub : localRow - cursor = localRow - (cursor + 1) + 1 := by omega
        rw [if_neg (by simp; omega), ih hitems (by omega), hsub, List.getElem?_cons_succ]

variable {env : Env} {p : Painter} {messages : List ChatMessage} {columns contentRows : Nat} {streamingMessageId : Option Nat}
  {nowMs viewportTopRow terminalRow : Int}

theorem rowMessages_of_heights {shown : List (ChatMessage × PaintItem)} (h : ∀ row ∈ shown, row.2.height = 1) :
    rowMessages shown = shown.map Prod.fst := by
  induction shown with
  | nil => rfl
  | cons row shown ih =>
      obtain ⟨hrow, hshown⟩ := List.forall_mem_cons.mp h
      rw [rowMessages] at ih ⊢
      rw [List.flatMap_cons, ih hshown, hrow]
      rfl

/-- The window of rows of one height each. -/
structure WindowOf (shown : List (ChatMessage × PaintItem)) (contentRows : Nat) (window : PaintWindow) : Prop where
  heights : ∀ item ∈ window.items, item.height = 1
  length : window.items.length ≤ contentRows
  rows : ∀ i < window.items.length, ∃ row, shown[window.startRow + i]? = some row ∧ window.items[i]? = some row.2

theorem windowOf_heights {shown : List (ChatMessage × PaintItem)} (h : ∀ row ∈ shown, row.2.height = 1) (hpos : 0 < contentRows)
    (scrollOffset : Int) : WindowOf shown contentRows (windowPaintLayout (layoutOf (shown.map Prod.snd)) contentRows scrollOffset) := by
  have hheights : ∀ item ∈ shown.map Prod.snd, item.height = 1 := by
    intro item hitem
    obtain ⟨row, hrow, rfl⟩ := List.mem_map.mp hitem
    exact h row hrow
  obtain ⟨hitems, hstart⟩ := window_of_heights hheights contentRows scrollOffset
  refine ⟨fun item hitem => ?_, ?_, fun i hi => ?_⟩
  · rw [hitems] at hitem
    exact hheights item (List.mem_of_mem_drop (List.mem_of_mem_take hitem))
  · rw [hitems, List.length_take, List.length_drop]
    omega
  · rw [hitems, List.length_take, List.length_drop, List.length_map] at hi
    have hlt : startLine shown.length contentRows scrollOffset + i < shown.length := by omega
    refine ⟨shown[startLine shown.length contentRows scrollOffset + i], ?_, ?_⟩
    · rw [hstart, List.length_map, List.getElem?_eq_getElem hlt]
    · rw [hitems, List.length_map, List.getElem?_take_of_lt (by omega), List.getElem?_drop, List.getElem?_map,
        List.getElem?_eq_getElem hlt]
      rfl

theorem select_row {shown : List (ChatMessage × PaintItem)} {window : PaintWindow} (h : WindowOf shown contentRows window)
    (htop : viewportTopRow ≤ terminalRow) (hbottom : terminalRow < viewportTopRow + contentRows)
    (contentLeftCol terminalCol : Int) :
    (resolveViewportSelectionPoint window contentRows viewportTopRow contentLeftCol terminalRow terminalCol false).map
      TextSelectionPoint.row = displayedRow window contentRows viewportTopRow terminalRow := by
  have hrows : rowsOf window.items = window.items.length := RowLayout.total_eq_length h.heights
  have hlength := h.length
  rw [resolveViewportSelectionPoint, displayedRow, hrows]
  dsimp only
  cases hempty : window.items.isEmpty with
  | true =>
      rw [List.isEmpty_iff] at hempty
      rw [hempty, if_pos rfl, if_pos (by simp; omega)]
      rfl
  | false =>
      have hpos : 0 < window.items.length := List.length_pos_iff.mpr (List.isEmpty_eq_false_iff.mp hempty)
      rw [if_neg Bool.false_ne_true]
      by_cases habove : terminalRow - viewportTopRow < ↑(contentRows - window.items.length)
      · rw [if_pos habove, if_pos (by simp; omega)]
        rfl
      · have hlocal : (min (terminalRow - (viewportTopRow + ↑(contentRows - window.items.length)))
            (↑window.items.length - 1)).toNat = (terminalRow - viewportTopRow).toNat - (contentRows - window.items.length) := by
          omega
        have hlt : (terminalRow - viewportTopRow).toNat - (contentRows - window.items.length) < window.items.length := by omega
        rw [if_neg habove, if_neg (by simp; omega), hlocal, List.getElem?_eq_getElem hlt]
        rfl

/-- A click on rows of one height each reads the key of the item that is displayed. -/
theorem hit_key (h : ∀ row ∈ painted env p (paintCalls messages columns streamingMessageId nowMs), row.2.height = 1)
    (htop : viewportTopRow ≤ terminalRow) (hbottom : terminalRow < viewportTopRow + contentRows) :
    hitTestClickableMessage env p messages columns contentRows scrollOffset terminalRow viewportTopRow streamingMessageId nowMs =
      (displayedRow (windowPaintRows env p messages columns contentRows scrollOffset streamingMessageId nowMs) contentRows
          viewportTopRow terminalRow).bind fun row =>
        (painted env p (paintCalls messages columns streamingMessageId nowMs))[row]?.bind fun row =>
          clickableHitFromPaintKey row.2.key := by
  have hmax : max 1 contentRows = contentRows := by omega
  have hwindow := windowOf_heights h (show 0 < contentRows by omega) scrollOffset
  rw [← buildPaintLayout_eq] at hwindow
  rw [hitTestClickableMessage, hmax, if_neg (by simp; omega), displayedRow, windowPaintRows]
  generalize windowPaintLayout (buildPaintLayout env p messages columns streamingMessageId nowMs).2 contentRows scrollOffset =
    window at hwindow ⊢
  have hlength := hwindow.length
  have hrows : rowsOf window.items = window.items.length := RowLayout.total_eq_length hwindow.heights
  dsimp only
  rw [hrows]
  by_cases habove : terminalRow - viewportTopRow < ↑(contentRows - window.items.length)
  · rw [if_pos habove, if_pos (by simp; omega)]
    rfl
  · have hlocal : (terminalRow - (viewportTopRow + ↑(contentRows - window.items.length))).toNat =
        (terminalRow - viewportTopRow).toNat - (contentRows - window.items.length) := by omega
    obtain ⟨row, hrow, hitem⟩ := hwindow.rows
      ((terminalRow - viewportTopRow).toNat - (contentRows - window.items.length)) (by omega)
    rw [if_neg habove, if_neg (by simp; omega), hlocal, Option.bind_some, hrow,
      itemInRow_of_heights hwindow.heights (Nat.zero_le _), Nat.sub_zero, hitem]
    rfl

/-- Where every item is of one row and tells its message, the rows are found as they are displayed. -/
theorem hits_of_regular (h : ∀ row ∈ painted env p (paintCalls messages columns streamingMessageId nowMs), Regular row)
    (htop : viewportTopRow ≤ terminalRow) (hbottom : terminalRow < viewportTopRow + contentRows) :
    HitsDisplayed env p messages columns contentRows scrollOffset streamingMessageId nowMs viewportTopRow terminalRow := by
  have hheights : ∀ row ∈ painted env p (paintCalls messages columns streamingMessageId nowMs), row.2.height = 1 :=
    fun row hrow => (h row hrow).height
  constructor
  · dsimp only
    rw [hit_key hheights htop hbottom, rowMessages_of_heights hheights]
    refine congrArg (Option.bind _) (funext fun i => ?_)
    rw [List.getElem?_map]
    cases hrow : (painted env p (paintCalls messages columns streamingMessageId nowMs))[i]? with
    | none => rfl
    | some row => exact (h row (List.mem_of_getElem? hrow)).hit
  · have hwindow := windowOf_heights hheights (show 0 < contentRows by omega) scrollOffset
    rw [← buildPaintLayout_eq] at hwindow
    exact select_row hwindow htop hbottom

end Display

section Tall

variable {items above below : List PaintItem} {tall : PaintItem}

theorem dropFromTop_tall (htall : 2 ≤ tall.height) (visible : List PaintItem) :
    rowsOf (dropFromTop 1 (rowsOf (visible ++ [tall])) (visible ++ [tall])) ≠ 1 := by
  induction visible with
  | nil =>
      have hrows : rowsOf [tall] = tall.height := Nat.add_zero _
      rw [List.nil_append, hrows, dropFromTop, if_pos (Nat.lt_of_succ_le htall)]
      exact Nat.zero_ne_one
  | cons item visible ih =>
      have hrows : rowsOf (item :: (visible ++ [tall])) = item.height + rowsOf (visible ++ [tall]) := rfl
      have hlast : rowsOf (visible ++ [tall]) = rowsOf visible + (tall.height + 0) := RowLayout.total_append
      rw [List.cons_append, hrows, dropFromTop, if_pos (by omega), Nat.add_sub_cancel_left]
      exact ih

theorem getElem?_place_tall :
    (place PaintItem.height 0 (above ++ tall :: below))[above.length]? =
      some ⟨tall, rowsOf above, rowsOf above + tall.height⟩ := by
  rw [RowLayout.place_append, List.getElem?_append_right (by rw [RowLayout.length_place]), RowLayout.length_place, Nat.sub_self,
    place, Nat.zero_add]
  rfl

theorem firstVisible_le (below : List PaintItem) {begun : Nat} (hbegun : begun < rowsOf above + tall.height) :
    findFirstVisibleEntry (place PaintItem.height 0 (above ++ tall :: below)) begun ≤ above.length := by
  refine RowLayout.bisect_le (fun i j hij hj => ?_) ?_
  · obtain ⟨entry, hentry, hstop⟩ := (Option.any_eq_true _ _).mp hj
    have hi : i < (place PaintItem.height 0 (above ++ tall :: below)).length :=
      Nat.lt_of_le_of_lt hij (List.getElem?_eq_some_iff.mp hentry).1
    have hmono := RowLayout.stop_mono (List.getElem?_eq_getElem hi) hentry hij
    rw [List.getElem?_eq_getElem hi, Option.any_some, decide_eq_true_iff]
    exact Nat.le_trans hmono (decide_eq_true_iff.mp hstop)
  · rw [getElem?_place_tall, Option.any_some, decide_eq_false_iff_not]
    exact Nat.not_le.mpr hbegun

/-- The window that ends with an item shows items that stand above it, and the item. -/
theorem visible_tall (htall : 0 < tall.height) {first : Nat} (hfirst : first ≤ above.length) :
    (((place PaintItem.height 0 (above ++ tall :: below)).drop first).takeWhile
        fun entry => entry.start < rowsOf above + tall.height).map Placed.item = above.drop first ++ [tall] := by
  have hlength : first ≤ (place PaintItem.height 0 above).length := by rwa [RowLayout.length_place]
  have habove : ∀ entry ∈ (place PaintItem.height 0 above).drop first,
      decide (entry.start < rowsOf above + tall.height) = true := by
    intro entry hentry
    have hmem := List.mem_of_mem_drop hentry
    have hstart := RowLayout.start_le_stop hmem
    have hstop : entry.stop ≤ 0 + rowsOf above := RowLayout.stop_le_of_mem_place hmem
    rw [decide_eq_true_iff]
    omega
  have hbelow : (place PaintItem.height (rowsOf above + tall.height) below).takeWhile
      (fun entry => entry.start < rowsOf above + tall.height) = [] := by
    cases below with
    | nil => rfl
    | cons item below => rw [place, List.takeWhile_cons, if_neg (by simp)]
  have hsplit : place PaintItem.height 0 (above ++ tall :: below) = place PaintItem.height 0 above ++
      ⟨tall, rowsOf above, rowsOf above + tall.height⟩ :: place PaintItem.height (rowsOf above + tall.height) below := by
    rw [RowLayout.place_append, Nat.zero_add]
    rfl
  rw [hsplit, List.drop_append_of_le_length hlength, List.takeWhile_append_of_pos habove, List.takeWhile_cons,
    if_pos (by simpa using htall), hbelow, List.map_append, List.map_drop, RowLayout.map_item_place]
  rfl

/-- An item that is higher than the viewport is not shown in it. -/
theorem window_of_tall (htall : 2 ≤ tall.height) :
    rowsOf (windowPaintLayout (layoutOf (above ++ tall :: below)) 1 (rowsOf below)).items ≠ 1 := by
  have hrows : rowsOf (above ++ tall :: below) = rowsOf above + (tall.height + rowsOf below) := RowLayout.total_append
  have hstop : endLine (rowsOf (above ++ tall :: below)) 1 (rowsOf below) = rowsOf above + tall.height := by
    rw [endLine, hrows]
    omega
  have hbegun : startLine (rowsOf (above ++ tall :: below)) 1 (rowsOf below) < rowsOf above + tall.height := by
    rw [startLine, hstop]
    omega
  have hfirst := firstVisible_le below hbegun
  rw [windowPaintLayout_eq (by simp), hstop]
  dsimp only
  rw [visible_tall (Nat.lt_of_lt_of_le Nat.zero_lt_two htall) hfirst, Nat.max_self]
  exact dropFromTop_tall htall _

end Tall

section Agreement

variable {env : Env} {p : Painter} {call : PaintCall}

/-- What the cache has for a call are rows of its message; or else the header fits. -/
def Level (env : Env) (p : Painter) (call : PaintCall) : Prop :=
  match cached env p call with
  | some entry => ∀ item ∈ entry.items, RowOf (clickable call.message) item
  | none => HeaderFits env call.message (max 20 call.columns) call.streaming call.nowMs

theorem uncached_rows (env : Env) (p : Painter) (call : PaintCall) :
    (∀ item ∈ (uncached env p call).2, Shown call.message item) ∧
      ((∀ item ∈ (uncached env p call).2, item.height = 1) ↔
        HeaderFits env call.message (max 20 call.columns) call.streaming call.nowMs) := by
  have hcolumns : 0 < max 20 call.columns := by omega
  rw [uncached]
  exact paintMessageUncached_rows hcolumns call.streaming call.nowMs

theorem level_iff : (∀ item ∈ (paint env p call).2, RowOf (clickable call.message) item) ↔ Level env p call := by
  rw [Level]
  cases hcached : cached env p call with
  | some entry => rw [paint_hit hcached]
  | none =>
      obtain ⟨hshown, hheights⟩ := uncached_rows env p call
      rw [paint_miss hcached, ← hheights]
      exact forall₂_congr fun item hitem => ⟨RowOf.height, fun hheight => ⟨hheight, (hshown item hitem).hit⟩⟩

theorem forall_painted {P : ChatMessage × PaintItem → Prop} {calls : List PaintCall} :
    (∀ row ∈ painted env p (call :: calls), P row) ↔
      (∀ item ∈ (paint env p call).2, P (call.message, item)) ∧ ∀ row ∈ painted env (afterPaint env p call) calls, P row := by
  rw [painted]
  generalize (paint env p call).2 = items
  generalize painted env (afterPaint env p call) calls = rest
  rw [List.forall_mem_append, List.forall_mem_map]

/-- All that is painted is regular exactly when each call is level in the state that it finds. -/
theorem regular_iff (calls : List PaintCall) :
    (∀ row ∈ painted env p calls, Regular row) ↔ Run.Along (afterPaint env) (Level env) p calls := by
  induction calls generalizing p with
  | nil => exact iff_of_true (fun _ hrow => absurd hrow List.not_mem_nil) Run.along_nil
  | cons call calls ih =>
      rw [forall_painted, ih, Run.along_cons, ← level_iff]
      exact Iff.rfl

/-- Nothing that is kept is without a row. -/
def Tall (_id : Nat) (entry : CacheEntry) : Prop := ∀ item ∈ entry.items, 1 ≤ item.height

theorem paint_tall (env : Env) (call : PaintCall) (h : p.Keeps Tall) :
    (∀ item ∈ (paint env p call).2, 1 ≤ item.height) ∧ (afterPaint env p call).Keeps Tall := by
  have hpainted : ∀ item ∈ (uncached env p call).2, 1 ≤ item.height :=
    fun item hitem => ((uncached_rows env p call).1 item hitem).height
  refine ⟨?_, paint_keeps h fun _ => hpainted⟩
  cases hcached : cached env p call with
  | some entry =>
      rw [paint_hit hcached]
      exact h _ entry (cached_spec hcached).1
  | none =>
      rw [paint_miss hcached]
      exact hpainted

theorem painted_tall (h : p.Keeps Tall) (calls : List PaintCall) : ∀ row ∈ painted env p calls, 1 ≤ row.2.height := by
  induction calls generalizing p with
  | nil => exact fun _ hrow => absurd hrow List.not_mem_nil
  | cons call calls ih =>
      obtain ⟨hitems, hkeeps⟩ := paint_tall env call h
      exact forall_painted.mpr ⟨hitems, ih hkeeps⟩

variable {messages : List ChatMessage} {columns : Nat} {streamingMessageId : Option Nat} {nowMs : Int}

/-- Where the viewport agrees, all that is painted is of one height. -/
theorem heights_of_agrees (hkeeps : p.Keeps Tall) (h : ViewportAgrees env p messages columns streamingMessageId nowMs) :
    ∀ row ∈ painted env p (paintCalls messages columns streamingMessageId nowMs), row.2.height = 1 := by
  intro row hrow
  by_contra hheight
  have htall : 2 ≤ row.2.height := by
    have hpos := painted_tall hkeeps _ row hrow
    omega
  obtain ⟨above, below, hsplit⟩ := List.append_of_mem (List.mem_map_of_mem (f := Prod.snd) hrow)
  have hfilled := (h 1 (rowsOf below)).1.filled
  have hwindow : windowPaintRows env p messages columns 1 (rowsOf below) streamingMessageId nowMs =
      windowPaintLayout (layoutOf (above ++ row.2 :: below)) 1 (rowsOf below) := by
    rw [windowPaintRows, buildPaintLayout_eq, hsplit]
  have hrows : rowsOf (above ++ row.2 :: below) = rowsOf above + (row.2.height + rowsOf below) := RowLayout.total_append
  rw [hwindow, hsplit, hrows] at hfilled
  exact window_of_tall htall (hfilled.trans (by omega))

/-- A viewport as high as the conversation shows each row in its place. -/
theorem displayedRow_whole (h : ∀ row ∈ painted env p (paintCalls messages columns streamingMessageId nowMs), row.2.height = 1)
    {i : Nat} {row : ChatMessage × PaintItem}
    (hrow : (painted env p (paintCalls messages columns streamingMessageId nowMs))[i]? = some row) :
    let rows := (painted env p (paintCalls messages columns streamingMessageId nowMs)).length
    i < rows ∧ displayedRow (windowPaintRows env p messages columns rows 0 streamingMessageId nowMs) rows 0 i = some i := by
  intro rows
  have hi : i < rows := (List.getElem?_eq_some_iff.mp hrow).1
  have hheights : ∀ item ∈ (painted env p (paintCalls messages columns streamingMessageId nowMs)).map Prod.snd,
      item.height = 1 := List.forall_mem_map.mpr h
  have hfilled := (windowFills_of_heights hheights rows 0).filled
  have hstart := (window_of_heights hheights rows 0).2
  have htotal := RowLayout.total_eq_length hheights
  rw [List.length_map] at hstart htotal
  rw [← buildPaintLayout_eq] at hfilled hstart
  refine ⟨hi, ?_⟩
  have hwhole : rowsOf (windowPaintRows env p messages columns rows 0 streamingMessageId nowMs).items = rows := by
    rw [windowPaintRows, hfilled, show rowsOf _ = rows from htotal]
    omega
  have hbegun : (windowPaintRows env p messages columns rows 0 streamingMessageId nowMs).startRow = 0 := by
    rw [windowPaintRows, hstart, startLine, endLine]
    omega
  rw [displayedRow, hwhole, hbegun, Nat.sub_self]
  rw [if_neg (by omega)]
  simp

end Agreement

end Kross.Tui

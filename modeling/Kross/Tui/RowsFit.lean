import Kross.Lines
import Kross.RegexRuns
import Kross.Tui.PaintCalls

namespace Kross.Tui

open Session (isWhitespace trim collapse)
open SoftWrap (plain)

/-- An item has no line break, and takes as many rows of the terminal as it says. -/
def Fits (columns : Nat) (item : PaintItem) : Prop :=
  '\n' ∉ plain item.segments ∧ countWrappedRows (plain item.segments) columns = item.height

section Conditions

/-- What stands around the name of an item of a group. -/
def itemMargin (item : ToolCallItem) : Nat :=
  match item.status with
  | .failed | .denied => 12
  | .cancelled => 15
  | _ => 4

def PaintableItems (tool : ToolCallState) (items : List ToolCallItem) (columns : Nat) : Prop :=
  ∀ item ∈ items, '\n' ∉ itemName tool item ∧ displayWidth (itemName tool item) + itemMargin item ≤ columns

def PaintableDetails (tool : ToolCallState) : Prop := ∀ line ∈ tool.detailLines.getD [], '\n' ∉ line.text

def PaintableTool (env : Env) (message : ChatMessage) (tool : ToolCallState) (columns : Nat) : Prop :=
  let items := ensureToolItems env.parseJson tool
  '\n' ∉ formatToolTitle env.parseJson tool ∧
    (message.expanded = true → if 1 < items.length then PaintableItems tool items columns else PaintableDetails tool)

def PaintableReport (report : VerificationReport) : Prop :=
  report.status ∈ ["passed", "failed", "not-run"] → ∀ command ∈ report.commands.take 3, '\n' ∉ command

def PaintableSystem (message : ChatMessage) : Prop :=
  match message.verification with
  | some report => PaintableReport report
  | none => '\n' ∉ message.text

/-- No line break stands within a line that the Markdown parser gives. -/
def PaintableAgent (env : Env) (s : Markdown) (message : ChatMessage) (streaming : Bool) : Prop :=
  ∀ line ∈ trimTrailingBlankMdLines
      (parseMarkdownStreaming env.lex s message.text ("msg-" ++ toString message.id) streaming).2,
    line.kind ≠ .blank → ∀ span ∈ line.spans, '\n' ∉ span.text

/-- The texts that rows are made of have no line break, and the items of a group are not wider than the terminal. -/
def Paintable (env : Env) (s : Markdown) (message : ChatMessage) (columns : Nat) (streaming : Bool) : Prop :=
  match message.from', message.tool with
  | .tool, some tool => PaintableTool env message tool columns
  | .system, _ => PaintableSystem message
  | .user, _ => '\n' ∉ withoutPrompt message.text
  | .thinking, _ => True
  | _, _ => PaintableAgent env s message streaming

end Conditions

section Wrapped

variable {segments : List PaintSegment} {columns width : Nat} {key : Nat → String} {before : Nat → List PaintSegment}

theorem blank_width_le (width : Nat) : metric.widthOf (plainSegment [' ']).text ≤ max 1 width := Nat.le_max_left 1 width

theorem width_le_two (c : Char) : metric.width c ≤ 2 := charDisplayWidth_le c.toNat

/-- The rows of wrapped segments show what these show; they are no wider than the width, but for
characters that have no width and one behind them that is wider than a row. -/
theorem wrapPaintSegments_rows (segments : List PaintSegment) (maxWidth : Nat) :
    ((wrapPaintSegments segments maxWidth).flatMap SoftWrap.styled = SoftWrap.styled segments ∨
        SoftWrap.styled segments = [] ∧ wrapPaintSegments segments maxWidth = [[plainSegment [' ']]]) ∧
      ∀ line ∈ wrapPaintSegments segments maxWidth, displayWidth (plain line) ≤ max 1 maxWidth ∨
        ∃ before c, plain line = before ++ [c] ∧ displayWidth before = 0 := by
  have hwidth : 0 < max 1 maxWidth := Nat.lt_of_lt_of_le Nat.one_pos (Nat.le_max_left 1 maxWidth)
  have hblank := blank_width_le maxWidth
  exact ⟨SoftWrap.wrap_styled hwidth hblank segments, fun line hline => SoftWrap.wrap_within hwidth hblank hline⟩

/-- A wide character is forced into a row of characters that have no width. -/
theorem forced_behind_zeroWidth :
    ∃ line ∈ wrapPaintSegments [plainSegment ['\u200b'], plainSegment ['世']] 1,
      ¬(displayWidth (plain line) ≤ 1 ∨ ∃ c, plain line = [c] ∧ displayWidth (plain line) ≤ displayWidth [c]) := by
  let wrapOne (s : SoftWrap.State Style Char) (segment : PaintSegment) :=
    SoftWrap.wrapText metric (plainSegment [' ']) (max 1 1) Nat.one_pos segment.style s segment.text
  have hfirst : wrapOne .start (plainSegment ['\u200b']) = ⟨[], [plainSegment ['\u200b']], 0⟩ := by
    refine (SoftWrap.wrapText.eq_2 ..).trans ?_
    rw [if_neg (by decide), if_neg (by decide)]
    exact SoftWrap.wrapText.eq_1 ..
  have hsecond : wrapOne ⟨[], [plainSegment ['\u200b']], 0⟩ (plainSegment ['世']) =
      ⟨[[plainSegment ['\u200b'], plainSegment ['世']]], [], 0⟩ := by
    refine (SoftWrap.wrapText.eq_2 ..).trans ?_
    rw [if_neg (by decide), if_pos (by decide), if_pos rfl]
    exact SoftWrap.wrapText.eq_1 ..
  have hall : [plainSegment ['\u200b'], plainSegment ['世']].foldl wrapOne .start =
      ⟨[[plainSegment ['\u200b'], plainSegment ['世']]], [], 0⟩ :=
    (congrArg (wrapOne · (plainSegment ['世'])) hfirst).trans hsecond
  have hrows : wrapPaintSegments [plainSegment ['\u200b'], plainSegment ['世']] 1 =
      [[plainSegment ['\u200b'], plainSegment ['世']]] := by
    rw [wrapPaintSegments, SoftWrap.wrap, hall]
    rfl
  rw [hrows]
  refine ⟨_, List.mem_singleton_self _, ?_⟩
  rintro (hle | ⟨c, hc, -⟩)
  · revert hle
    decide
  · cases hc

theorem wrapPaintSegments_width (hwidth : 2 ≤ width) {row : List PaintSegment}
    (hrow : row ∈ wrapPaintSegments segments width) : displayWidth (plain row) ≤ width := by
  have hmax : max 1 width = width := Nat.max_eq_right (Nat.le_of_succ_le hwidth)
  have hle := SoftWrap.wrap_width _ (blank_width_le width) (fun c => (width_le_two c).trans (by omega)) hrow
  rwa [hmax] at hle

/-- A line break is in a row exactly when it is in what is wrapped. -/
theorem newline_mem_wrap (segments : List PaintSegment) (width : Nat) :
    (∃ row ∈ wrapPaintSegments segments width, '\n' ∈ plain row) ↔ '\n' ∈ plain segments := by
  have hwidth : 0 < max 1 width := Nat.lt_of_lt_of_le Nat.one_pos (Nat.le_max_left 1 width)
  rcases SoftWrap.wrap_text hwidth (blank_width_le width) segments with htext | ⟨htext, hwrap⟩
  · rw [← htext, List.mem_flatMap]
    rfl
  · rw [wrapPaintSegments, hwrap, htext]
    refine iff_of_false ?_ List.not_mem_nil
    rintro ⟨row, hrow, hmem⟩
    rw [List.mem_singleton.mp hrow] at hmem
    revert hmem
    decide

theorem rowItem_fits (hcolumns : 0 < columns) (key : String) :
    Fits columns (rowItem key segments) ↔ '\n' ∉ plain segments ∧ displayWidth (plain segments) ≤ columns :=
  and_congr_right fun _ => countWrappedRows_eq_one hcolumns

theorem blankItem_fits (hcolumns : 0 < columns) (key : String) : Fits columns (blankItem key) := by
  refine (rowItem_fits hcolumns key).mpr ⟨by decide, ?_⟩
  have hone : displayWidth (plain [plainSegment [' ']]) = 1 := by decide
  rw [hone]
  exact hcolumns

theorem mem_of_mem_zipIdx {α : Type} {row : α} {i : Nat} {rows : List α} (h : (row, i) ∈ rows.zipIdx) : row ∈ rows := by
  have hmem := List.mem_map_of_mem (f := Prod.fst) h
  rwa [List.zipIdx_map_fst] at hmem

theorem exists_mem_zipIdx {α : Type} {row : α} {rows : List α} (h : row ∈ rows) : ∃ i, (row, i) ∈ rows.zipIdx := by
  rw [← List.zipIdx_map_fst 0 rows] at h
  obtain ⟨⟨_, i⟩, hmem, rfl⟩ := List.mem_map.mp h
  exact ⟨i, hmem⟩

/-- What holds of the items of each row, whatever its number is. -/
theorem forall_flatMap_zipIdx {α β : Type} {P : β → Prop} {Q : α → Prop} {items : α × Nat → List β} {rows : List α}
    (h : ∀ row ∈ rows, ∀ i, (∀ item ∈ items (row, i), P item) ↔ Q row) :
    (∀ item ∈ rows.zipIdx.flatMap items, P item) ↔ ∀ row ∈ rows, Q row := by
  constructor
  · intro hall row hrow
    obtain ⟨i, hi⟩ := exists_mem_zipIdx hrow
    exact (h row hrow i).mp fun item hitem => hall item (List.mem_flatMap.mpr ⟨(row, i), hi, hitem⟩)
  · intro hall item hitem
    obtain ⟨⟨row, i⟩, hi, hitem⟩ := List.mem_flatMap.mp hitem
    have hrow := mem_of_mem_zipIdx hi
    exact (h row hrow i).mpr (hall row hrow) item hitem

theorem forall_map_zipIdx {α β : Type} {P : β → Prop} {Q : α → Prop} {item : α × Nat → β} {rows : List α}
    (h : ∀ row ∈ rows, ∀ i, P (item (row, i)) ↔ Q row) :
    (∀ x ∈ rows.zipIdx.map item, P x) ↔ ∀ row ∈ rows, Q row := by
  rw [List.map_eq_flatMap]
  exact forall_flatMap_zipIdx fun row hrow i => List.forall_mem_singleton.trans (h row hrow i)

/-- Wrapped rows behind something that takes the rest of the terminal. -/
theorem prefixedItems_fit (hwidth : 2 ≤ width) (hbefore : ∀ n, '\n' ∉ plain (before n))
    (hroom : ∀ n, displayWidth (plain (before n)) + width ≤ columns) :
    (∀ item ∈ prefixedItems key before (wrapPaintSegments segments width), Fits columns item) ↔
      '\n' ∉ plain segments := by
  have hcolumns : 0 < columns := by
    have hle := hroom 0
    omega
  rw [← newline_mem_wrap segments width, not_exists]
  refine (forall_map_zipIdx fun row hrow i => ?_).trans (forall_congr' fun row => not_and.symm)
  rw [rowItem_fits hcolumns, SoftWrap.plain_append, displayWidth_append, List.mem_append, or_iff_right (hbefore i)]
  exact and_iff_left (Nat.le_trans (Nat.add_le_add_left (wrapPaintSegments_width hwidth hrow) _) (hroom i))

theorem softWrapLineItems_fit (hcolumns : 2 ≤ columns) (keyPrefix : String) :
    (∀ item ∈ softWrapLineItems keyPrefix segments columns, Fits columns item) ↔ '\n' ∉ plain segments := by
  have hmax : max 1 columns = columns := Nat.max_eq_right (Nat.le_of_succ_le hcolumns)
  have hpos : 0 < columns := Nat.lt_of_succ_le (Nat.le_of_succ_le hcolumns)
  rw [← newline_mem_wrap segments columns, not_exists, softWrapLineItems, hmax]
  refine (forall_map_zipIdx fun row hrow i => ?_).trans (forall_congr' fun row => not_and.symm)
  rw [rowItem_fits hpos]
  cases row with
  | nil => exact iff_of_true ⟨by decide, hpos⟩ List.not_mem_nil
  | cons segment row => exact and_iff_left (wrapPaintSegments_width hcolumns hrow)

end Wrapped

section Texts

variable {text : Text}

theorem isDigit_of_mem_toString {n : Nat} {c : Char} (h : c ∈ (toString n).toList) : c.isDigit = true := by
  have hdigits : c ∈ Nat.toDigits 10 n := by
    have hrepr : (toString n).toList = Nat.toDigits 10 n := Nat.toList_repr
    rwa [hrepr] at h
  exact Nat.isDigit_of_mem_toDigits (by decide) (by decide) hdigits

theorem newline_notMem_nat (n : Nat) : '\n' ∉ (toString n).toList := by
  intro h
  have hdigit := isDigit_of_mem_toString h
  revert hdigit
  decide

theorem newline_notMem_int (n : Int) : '\n' ∉ (toString n).toList := by
  cases n with
  | ofNat n => exact newline_notMem_nat n
  | negSucc n =>
      have htext : toString (Int.negSucc n) = "-" ++ toString (n + 1) := rfl
      rw [htext, String.toList_append, List.mem_append, not_or]
      exact ⟨by decide, newline_notMem_nat (n + 1)⟩

theorem newline_notMem_collapse (inside : Bool) : '\n' ∉ collapse inside text := by
  induction text generalizing inside with
  | nil => exact List.not_mem_nil
  | cons c text ih =>
      rw [collapse]
      split_ifs with hspace hinside
      · exact ih true
      · rw [List.mem_cons, not_or]
        exact ⟨by decide, ih true⟩
      · rw [List.mem_cons, not_or]
        refine ⟨?_, ih false⟩
        rintro rfl
        exact hspace (by decide)

theorem mem_of_mem_trim {c : Char} (h : c ∈ trim text) : c ∈ text := by
  rw [trim, Session.trimEnd, List.mem_reverse] at h
  have hmem := List.dropWhile_subset _ h
  exact List.dropWhile_subset _ (List.mem_reverse.mp hmem)

theorem mem_of_mem_slice {c : Char} {n : Nat} (h : c ∈ Session.slice text n) : c ∈ text ∨ c = '\ufffd' := by
  induction text generalizing n with
  | nil => cases n <;> cases h
  | cons a text ih =>
      cases n with
      | zero => cases h
      | succ n =>
          rw [Session.slice] at h
          split_ifs at h
          · rcases List.mem_cons.mp h with rfl | h
            · exact .inl List.mem_cons_self
            · exact (ih h).imp (List.mem_cons_of_mem a) id
          · exact .inr (List.mem_singleton.mp h)
          · exact Nat.succ_ne_zero n

theorem newline_notMem_truncate (h : '\n' ∉ text) (limit : Nat) : '\n' ∉ Session.truncate text limit := by
  rw [Session.truncate]
  split_ifs
  · exact h
  · rw [List.mem_append, not_or]
    refine ⟨fun hmem => ?_, by decide⟩
    rcases mem_of_mem_slice hmem with hmem | heq
    · exact h hmem
    · exact absurd heq (by decide)

theorem newline_notMem_translate {locale : Locale} {zh en : String} (hzh : '\n' ∉ zh.toList) (hen : '\n' ∉ en.toList) :
    '\n' ∉ translate locale zh en := by
  cases locale with
  | zh => exact hzh
  | en => exact hen

theorem newline_notMem_concat {before after : String} (hbefore : '\n' ∉ before.toList) (hafter : '\n' ∉ after.toList) :
    '\n' ∉ (before ++ after).toList := by
  rw [String.toList_append, List.mem_append, not_or]
  exact ⟨hbefore, hafter⟩

/-- What stands around a number. -/
theorem newline_notMem_around {before after middle : String} (hbefore : '\n' ∉ before.toList)
    (hmiddle : '\n' ∉ middle.toList) (hafter : '\n' ∉ after.toList) : '\n' ∉ (before ++ middle ++ after).toList :=
  newline_notMem_concat (newline_notMem_concat hbefore hmiddle) hafter

theorem newline_notMem_label (env : Env) (message : ChatMessage) (streaming : Bool) (nowMs : Int) :
    '\n' ∉ formatThinkingLabel env message streaming nowMs := by
  rw [formatThinkingLabel]
  split
  · have hseconds := newline_notMem_int (formatActiveThoughtSeconds env message nowMs)
    exact newline_notMem_translate (newline_notMem_around (by decide) hseconds (by decide))
      (newline_notMem_around (by decide) hseconds (by decide))
  · split
    · rename_i seconds _
      exact newline_notMem_translate (newline_notMem_around (by decide) (newline_notMem_int seconds) (by decide))
        (newline_notMem_around (by decide) (newline_notMem_int seconds) (by decide))
    · exact newline_notMem_translate (by decide) (by decide)

theorem newline_notMem_hint (tool : ToolCallState) : ∀ hint ∈ toolStatusHint tool, '\n' ∉ hint := by
  have hsummary : '\n' ∉ trim (collapse false (tool.summary.getD [])) :=
    fun h => newline_notMem_collapse false (mem_of_mem_trim h)
  intro hint hhint
  rw [toolStatusHint] at hhint
  generalize trim (collapse false (tool.summary.getD [])) = summary at hsummary hhint
  split at hhint
  · cases hhint
  · split at hhint
    · cases hhint
      exact newline_notMem_truncate hsummary 48
    · cases hhint
      exact newline_notMem_truncate hsummary 48
    · cases hhint
      exact newline_notMem_truncate hsummary 48
    · cases hhint
    · cases hhint
    · split at hhint
      · cases hhint
        exact newline_notMem_truncate hsummary 40
      · split at hhint
        · rename_i replaced hreplaced
          split_ifs at hreplaced hhint
          · cases hhint
            rw [List.mem_append, not_or]
            exact ⟨fun hmem => hsummary (Regex.captured_of_exec hreplaced _ hmem), by decide⟩
          · cases hhint
        · split at hhint
          · rename_i code hcode
            split_ifs at hcode hhint
            · cases hhint
            · cases hhint
              rw [List.mem_append, not_or]
              exact ⟨by decide, fun hmem => hsummary (Regex.captured_of_exec hcode _ hmem)⟩
          · cases hhint

end Texts

section Rows

variable {env : Env} {tool : ToolCallState} {segments : List PaintSegment} {columns : Nat}

/-- No segment has a line break. -/
def Unbroken (segments : List PaintSegment) : Prop := ∀ segment ∈ segments, '\n' ∉ segment.text

theorem newline_notMem_plain (h : Unbroken segments) : '\n' ∉ plain segments := by
  intro hmem
  obtain ⟨segment, hsegment, htext⟩ := List.mem_flatMap.mp hmem
  exact h segment hsegment htext

theorem unbroken_append {more : List PaintSegment} (h : Unbroken segments) (hmore : Unbroken more) :
    Unbroken (segments ++ more) :=
  fun segment hsegment => (List.mem_append.mp hsegment).elim (h segment) (hmore segment)

theorem unbroken_singleton {segment : PaintSegment} (h : '\n' ∉ segment.text) : Unbroken [segment] := by
  intro other hother
  rwa [List.mem_singleton.mp hother]

theorem newline_notMem_count {sign : String} (h : '\n' ∉ sign.toList) (n : Nat) : '\n' ∉ (count sign n).toList := by
  rw [count, String.toList_append, List.mem_append, not_or]
  exact ⟨h, newline_notMem_nat n⟩

theorem unbroken_delta (stats : LineStats) : Unbroken (deltaSegments stats) := by
  rw [deltaSegments]
  split_ifs
  · exact unbroken_singleton (by decide)
  all_goals
    refine unbroken_append (unbroken_append ?_ ?_) ?_ <;>
      first
      | exact unbroken_singleton (newline_notMem_count (by decide) _)
      | exact unbroken_singleton (by decide)
      | exact nofun

theorem newline_notMem_stats (stats : LineStats) : '\n' ∉ formatLineStatsLabel stats := by
  have hadded : '\n' ∉ (count "+" stats.linesAdded).toList := newline_notMem_count (by decide) _
  have hremoved : '\n' ∉ (count "-" stats.linesRemoved).toList := newline_notMem_count (by decide) _
  rw [formatLineStatsLabel]
  split_ifs
  · decide
  · exact newline_notMem_around hadded (by decide) hremoved
  · exact hadded
  · exact hremoved
  · decide

/-- The counts are taken from the end of a title, and they have no line break. -/
theorem newline_mem_baseTitle : '\n' ∈ baseTitle env tool ↔ '\n' ∈ formatToolTitle env.parseJson tool := by
  rw [baseTitle]
  dsimp only
  split
  · rename_i stats _
    split_ifs with hsuffix
    · obtain ⟨before, hbefore⟩ := List.isSuffixOf_iff_suffix.mp hsuffix
      rw [← hbefore, List.length_append, List.length_cons, Nat.add_sub_cancel, List.take_left, List.mem_append,
        List.mem_cons, or_iff_left]
      rintro (h | h)
      · exact absurd h (by decide)
      · exact newline_notMem_stats stats h
    · rfl
  · rfl

theorem newline_notMem_status (locale : Locale) (status : ToolCallStatus) :
    '\n' ∉ (toolStatusSegments locale status).text := by
  cases locale <;> cases status <;> decide

theorem newline_mem_title (expanded multiItem : Bool) :
    '\n' ∈ plain (buildToolTitleSegments env tool expanded multiItem) ↔ '\n' ∈ formatToolTitle env.parseJson tool := by
  rw [← newline_mem_baseTitle, buildToolTitleSegments]
  rw [List.append_assoc, List.append_assoc, List.append_assoc, SoftWrap.plain_append, List.mem_append]
  constructor
  · rintro (hmem | hmem)
    · obtain ⟨segment, hsegment, htext⟩ := List.mem_flatMap.mp hmem
      rcases List.mem_cons.mp hsegment with rfl | hsegment
      · refine absurd htext ?_
        show '\n' ∉ if _ then _ else _
        split_ifs <;> decide
      · rwa [List.mem_singleton.mp hsegment] at htext
    · refine absurd hmem (newline_notMem_plain ?_)
      refine unbroken_append ?_ (unbroken_append ?_ (unbroken_append ?_ ?_))
      · split
        · exact unbroken_append (unbroken_singleton (by decide)) (unbroken_delta _)
        · exact nofun
      · exact unbroken_append (unbroken_singleton (by decide)) (unbroken_singleton (newline_notMem_status _ _))
      · split
        · rename_i hint hhint
          refine unbroken_singleton (?_ : '\n' ∉ " · ".toList ++ hint)
          rw [List.mem_append, not_or]
          exact ⟨by decide, newline_notMem_hint tool hint hhint⟩
        · exact nofun
      · split_ifs
        · exact unbroken_singleton (by decide)
        · exact nofun
  · intro h
    exact .inl (List.mem_flatMap.mpr ⟨_, List.mem_cons_of_mem _ List.mem_cons_self, h⟩)

end Rows

section Kinds

variable {env : Env} {s : Markdown} {message : ChatMessage} {tool : ToolCallState} {columns : Nat}

theorem forall_append {α : Type} {P : α → Prop} {xs ys : List α} :
    (∀ x ∈ xs ++ ys, P x) ↔ (∀ x ∈ xs, P x) ∧ ∀ y ∈ ys, P y := List.forall_mem_append

theorem gap_fits (hcolumns : 0 < columns) (key : String) : ∀ item ∈ [blankItem key], Fits columns item := by
  intro item hitem
  rw [List.mem_singleton.mp hitem]
  exact blankItem_fits hcolumns key

theorem paintUser_fits (hcolumns : 20 ≤ columns) :
    (∀ item ∈ paintUser message columns, Fits columns item) ↔ '\n' ∉ withoutPrompt message.text := by
  have hwidth : max 1 (columns - displayWidth promptPrefix) = columns - 2 := by
    have hprompt : displayWidth promptPrefix = 2 := by decide
    omega
  rw [paintUser, forall_append, and_iff_left (gap_fits (by omega) _), hwidth, prefixedItems_fit (by omega)]
  · exact not_congr (by rw [plain, List.flatMap_singleton]; rfl)
  · intro n
    split_ifs <;> decide
  · intro n
    have hbefore : displayWidth (plain [if n = 0 then boldSegment "#c084fc" promptPrefix
        else colorSegment "#c084fc" (spaces (displayWidth promptPrefix))]) = 2 := by split_ifs <;> decide
    omega

theorem dimIndent : displayWidth (plain [dimSegment "  ".toList]) = 2 := by decide

theorem thinkingLines_fit (hcolumns : 20 ≤ columns) (id : String) (text : Text) :
    ∀ item ∈ thinkingLines id columns text, Fits columns item := by
  intro item hitem
  obtain ⟨⟨line, i⟩, hline, hitem⟩ := List.mem_flatMap.mp hitem
  have hmax : max 1 (columns - 2) = columns - 2 := by omega
  have hunbroken : '\n' ∉ line := by
    have hmem := mem_of_mem_zipIdx hline
    rw [trimTrailingEmptyLines] at hmem
    split_ifs at hmem
    · rw [List.mem_singleton.mp hmem]
      exact List.not_mem_nil
    · have hkept := List.dropWhile_subset _ (List.mem_reverse.mp hmem)
      exact Lines.not_mem_of_mem_splitOn (List.mem_reverse.mp hkept)
  rw [hmax] at hitem
  refine (prefixedItems_fit (by omega) (fun _ => by decide) (fun _ => ?_)).mpr ?_ item hitem
  · rw [dimIndent]
    omega
  · rwa [plain, List.flatMap_singleton]

theorem paintThinking_fits (hcolumns : 20 ≤ columns) (streaming : Bool) (nowMs : Int) :
    ∀ item ∈ paintThinking env message columns streaming nowMs, Fits columns item := by
  intro item hitem
  rcases List.mem_cons.mp hitem with rfl | hitem
  · refine ⟨newline_notMem_plain ?_, rfl⟩
    exact unbroken_append (unbroken_singleton (by decide)) (unbroken_singleton (newline_notMem_label env message streaming nowMs))
  · rcases List.mem_append.mp hitem with hitem | hitem
    · split_ifs at hitem
      · exact thinkingLines_fit hcolumns _ _ item hitem
      · cases hitem
    · exact gap_fits (by omega) _ item hitem

theorem newline_mem_intercalate {sep : Text} (hsep : '\n' ∉ sep) (texts : List Text) :
    '\n' ∈ sep.intercalate texts ↔ ∃ text ∈ texts, '\n' ∈ text := by
  induction texts with
  | nil => exact iff_of_false List.not_mem_nil (by simp)
  | cons text texts ih =>
      rw [List.exists_mem_cons_iff, ← ih]
      cases texts with
      | nil => rw [List.intercalate_singleton, List.intercalate_nil, or_iff_left List.not_mem_nil]
      | cons next texts => rw [List.intercalate_cons_cons, List.mem_append, List.mem_append, or_iff_left hsep]

theorem newline_mem_commands (commands : List Text) :
    '\n' ∈ formatCommands commands ↔ ∃ command ∈ commands.take 3, '\n' ∈ command := by
  rw [formatCommands]
  split_ifs with hempty
  · rw [List.isEmpty_iff.mp hempty]
    exact iff_of_false List.not_mem_nil (by simp)
  · have hremaining : '\n' ∉ if 0 < commands.length - (commands.take 3).length
        then (" +" ++ toString (commands.length - (commands.take 3).length)).toList else [] := by
      split_ifs
      · exact newline_notMem_concat (by decide) (newline_notMem_nat _)
      · exact List.not_mem_nil
    dsimp only
    rw [List.mem_append, List.mem_append, or_iff_left hremaining, or_iff_right (by decide), newline_mem_intercalate (by decide)]

theorem newline_mem_checked {locale : Locale} {report : VerificationReport} {zh en : String} (hzh : '\n' ∉ zh.toList)
    (hen : '\n' ∉ en.toList) :
    '\n' ∈ checked locale report zh en ↔ ∃ command ∈ report.commands.take 3, '\n' ∈ command := by
  have hcount := newline_notMem_nat report.commands.length
  rw [checked, List.mem_append, newline_mem_commands, or_iff_right]
  refine newline_notMem_translate ?_ ?_
  · exact newline_notMem_concat (newline_notMem_concat (newline_notMem_concat hzh (by decide)) hcount) (by decide)
  · exact newline_notMem_concat (newline_notMem_concat (newline_notMem_concat hen (by decide)) hcount) (by decide)

theorem newline_mem_presentation {locale : Locale} {report : VerificationReport} :
    '\n' ∉ formatVerificationPresentation locale report ↔ PaintableReport report := by
  have hchecked {zh en : String} (hzh : '\n' ∉ zh.toList) (hen : '\n' ∉ en.toList)
      (hstatus : report.status ∈ ["passed", "failed", "not-run"]) :
      '\n' ∉ checked locale report zh en ↔ PaintableReport report := by
    rw [newline_mem_checked hzh hen, PaintableReport, imp_iff_right hstatus, not_exists]
    exact forall_congr' fun command => not_and
  rw [formatVerificationPresentation]
  split
  · exact hchecked (by decide) (by decide) (by simp [*])
  · exact hchecked (by decide) (by decide) (by simp [*])
  · exact hchecked (by decide) (by decide) (by simp [*])
  · rename_i hpassed hfailed hnotRun
    refine iff_of_true (newline_notMem_translate (by decide) (by decide)) fun hstatus => ?_
    rw [List.mem_cons, List.mem_cons, List.mem_singleton] at hstatus
    rcases hstatus with h | h | h
    · exact absurd h hpassed
    · exact absurd h hfailed
    · exact absurd h hnotRun

theorem plain_singleton (segment : PaintSegment) : plain [segment] = segment.text := by
  rw [plain, List.flatMap_singleton]

theorem paintSystem_fits (hcolumns : 20 ≤ columns) :
    (∀ item ∈ paintSystem env message columns, Fits columns item) ↔ PaintableSystem message := by
  rw [paintSystem, PaintableSystem]
  cases message.verification with
  | some report =>
      rw [forall_append, and_iff_left (gap_fits (by omega) _), softWrapLineItems_fit (by omega), plain_singleton]
      exact newline_mem_presentation
  | none =>
      rw [forall_append, and_iff_left (gap_fits (by omega) _), softWrapLineItems_fit (by omega), plain_singleton]
      show '\n' ∉ "· ".toList ++ message.text ↔ '\n' ∉ message.text
      rw [List.mem_append, or_iff_right (by decide)]

theorem itemSegments_plain (tool : ToolCallState) (item : ToolCallItem) :
    ∃ after : Text, '\n' ∉ after ∧ displayWidth after + 4 = itemMargin item ∧
      plain (itemSegments tool item) = "  · ".toList ++ (itemName tool item ++ after) := by
  rw [itemSegments, itemMargin]
  cases item.status with
  | failed => exact ⟨"  failed".toList, by decide, by decide, rfl⟩
  | denied => exact ⟨"  denied".toList, by decide, by decide, rfl⟩
  | cancelled => exact ⟨"  cancelled".toList, by decide, by decide, rfl⟩
  | running | completed | awaiting => exact ⟨[], List.not_mem_nil, rfl, rfl⟩

theorem groupItems_fit (hcolumns : 0 < columns) (id : String) (items : List ToolCallItem) :
    (∀ item ∈ groupItems id tool items, Fits columns item) ↔ PaintableItems tool items columns := by
  refine forall_map_zipIdx fun item _ i => ?_
  obtain ⟨after, hafter, hmargin, hplain⟩ := itemSegments_plain tool item
  have hbefore : displayWidth "  · ".toList = 4 := by decide
  rw [rowItem_fits hcolumns, hplain, List.mem_append, List.mem_append, or_iff_right (by decide), or_iff_left hafter,
    displayWidth_append, displayWidth_append, hbefore]
  exact and_congr_right fun _ => by omega

theorem newline_notMem_spaces (n : Nat) : '\n' ∉ spaces n := by
  intro h
  exact absurd (List.eq_of_mem_replicate h) (by decide)

theorem newline_notMem_gutter (op : Option DetailOp) (lineNo : Option Nat) : '\n' ∉ formatDiffGutter op lineNo := by
  have hnumber (n : Nat) : '\n' ∉ padStart 4 (toString n).toList := by
    rw [padStart, List.mem_append, not_or]
    exact ⟨newline_notMem_spaces _, newline_notMem_nat _⟩
  rw [formatDiffGutter.eq_def]
  cases lineNo.filter (1 ≤ ·) with
  | none =>
      dsimp only
      have hblank := newline_notMem_spaces 4
      split
      · exact List.not_mem_append hblank (by decide)
      · exact List.not_mem_append hblank (by decide)
      · exact List.not_mem_append hblank (by decide)
      · exact List.not_mem_nil
  | some n =>
      dsimp only
      split
      · exact List.not_mem_append (hnumber n) (by decide)
      · exact List.not_mem_append (hnumber n) (by decide)
      · exact List.not_mem_append (hnumber n) (by decide)
      · exact List.not_mem_nil

theorem newline_mem_detail (line : ToolDetailLine) : '\n' ∈ plain (detailLineSegments line) ↔ '\n' ∈ line.text := by
  have htext : plain (detailLineSegments line) = formatDiffGutter line.op line.lineNo ++ line.text := by
    rw [detailLineSegments]
    split <;> exact plain_singleton _
  rw [htext, List.mem_append, or_iff_right (newline_notMem_gutter line.op line.lineNo)]

theorem detailItems_fit (hcolumns : 20 ≤ columns) (id : String) :
    (∀ item ∈ detailItems id tool columns, Fits columns item) ↔ PaintableDetails tool := by
  have hmax : max 1 (columns - 2) = columns - 2 := by omega
  have htruncated : ∀ item ∈ if tool.detailTruncated = true
      then [rowItem ("tool-" ++ id ++ "-detail-trunc") [dimSegment "  … truncated".toList]] else [],
      Fits columns item := by
    split_ifs
    · intro item hitem
      rw [List.mem_singleton.mp hitem, rowItem_fits (by omega)]
      exact ⟨by decide, Nat.le_trans (by decide) hcolumns⟩
    · exact nofun
  rw [detailItems, forall_append, and_iff_left htruncated, hmax]
  refine forall_flatMap_zipIdx fun line _ i => ?_
  rw [prefixedItems_fit (by omega) (fun _ => by decide), newline_mem_detail]
  intro _
  rw [dimIndent]
  omega

theorem paintTool_fits (hcolumns : 20 ≤ columns) :
    (∀ item ∈ paintTool env message tool columns, Fits columns item) ↔ PaintableTool env message tool columns := by
  have hmax : max 1 columns = columns := by omega
  rw [paintTool, PaintableTool, forall_append, and_iff_left (gap_fits (by omega) _), forall_append, hmax,
    prefixedItems_fit (by omega) (fun _ => List.not_mem_nil) (fun _ => Nat.le_of_eq (Nat.zero_add columns)),
    newline_mem_title]
  refine and_congr_right fun _ => ?_
  by_cases hexpanded : message.expanded = true
  · rw [if_pos hexpanded, imp_iff_right hexpanded]
    split_ifs with hseveral
    · exact groupItems_fit (by omega) _ _
    · exact detailItems_fit hcolumns _
  · rw [if_neg hexpanded]
    exact iff_of_true nofun fun h => absurd h hexpanded

theorem newline_mem_mdLine {line : MdLine} (hkind : line.kind ≠ .blank) :
    '\n' ∈ plain (mdLineToSegments line) ↔ ∃ span ∈ line.spans, '\n' ∈ span.text := by
  rw [mdLineToSegments, if_neg hkind]
  split_ifs with hempty
  · rw [List.isEmpty_iff.mp hempty]
    exact iff_of_false (by decide) (by simp)
  · rw [plain, List.flatMap_map]
    exact List.mem_flatMap

/-- The rows of the lines of an answer. -/
theorem agentLines_fit (hcolumns : 20 ≤ columns) (id : String) (firstContent : Bool) (i : Nat) (lines : List MdLine) :
    (∀ item ∈ agentLines id (columns - 2) firstContent i lines, Fits columns item) ↔
      ∀ line ∈ lines, line.kind ≠ .blank → ∀ span ∈ line.spans, '\n' ∉ span.text := by
  induction lines generalizing firstContent i with
  | nil => exact iff_of_true nofun nofun
  | cons line lines ih =>
      rw [agentLines, List.forall_mem_cons]
      dsimp only
      split_ifs with hblank
      · rw [List.forall_mem_cons, ih, and_iff_right (blankItem_fits (by omega) _)]
        exact (and_iff_right fun h => absurd hblank h).symm
      · rw [forall_append, ih, prefixedItems_fit (by omega), imp_iff_right hblank, newline_mem_mdLine hblank, not_exists]
        · exact and_congr_left fun _ => forall_congr' fun span => not_and
        · intro n
          split_ifs <;> decide
        · intro n
          have hbullet : displayWidth (plain [if (firstContent && decide (n = 0)) = true then colorSegment "cyan" bullet
              else plainSegment (spaces (displayWidth bullet))]) = 2 := by split_ifs <;> decide
          omega

theorem paintAgent_fits (hcolumns : 20 ≤ columns) (streaming : Bool) :
    (∀ item ∈ (paintAgent env s message columns streaming).2, Fits columns item) ↔
      PaintableAgent env s message streaming := by
  have hwidth : max 1 (columns - displayWidth bullet) = columns - 2 := by
    have hbullet : displayWidth bullet = 2 := by decide
    omega
  rw [paintAgent, PaintableAgent]
  dsimp only
  rw [forall_append, and_iff_left (gap_fits (by omega) _), hwidth, agentLines_fit hcolumns]

/-- What is painted fits exactly when it may be painted. -/
theorem paintMessageUncached_fits (hcolumns : 20 ≤ columns) (streaming : Bool) (nowMs : Int) :
    (∀ item ∈ (paintMessageUncached env s message columns streaming nowMs).2, Fits columns item) ↔
      Paintable env s message columns streaming := by
  rw [paintMessageUncached, Paintable]
  cases hfrom : message.from' with
  | tool =>
      cases htool : message.tool with
      | some tool => exact paintTool_fits hcolumns
      | none => exact paintAgent_fits hcolumns streaming
  | system => exact paintSystem_fits hcolumns
  | user => exact paintUser_fits hcolumns
  | thinking => exact iff_of_true (paintThinking_fits hcolumns streaming nowMs) trivial
  | agent => exact paintAgent_fits hcolumns streaming

end Kinds

section Calls

def AllFit (env : Env) (p : Painter) (call : PaintCall) : Prop := ∀ item ∈ (paint env p call).2, Fits call.columns item

def PaintCall.Paintable (env : Env) (p : Painter) (call : PaintCall) : Prop :=
  Tui.Paintable env p.markdown call.message call.columns call.streaming

/-- What is kept for a width fits it. -/
def Fitted (_id : Nat) (entry : CacheEntry) : Prop := ∀ item ∈ entry.items, Fits entry.columns item

variable {env : Env} {p : Painter} {call : PaintCall} {columns : Nat}

/-- What is painted anew fits exactly when it may be painted. -/
theorem allFit_iff (hcolumns : 20 ≤ call.columns) (hmiss : cached env p call = none) :
    AllFit env p call ↔ call.Paintable env p := by
  rw [AllFit, paint_miss hmiss, uncached, Nat.max_eq_right hcolumns]
  exact paintMessageUncached_fits hcolumns call.streaming call.nowMs

/-- A call that may be painted leaves what fits, and returns what fits. -/
theorem paint_fitted (hcolumns : 20 ≤ call.columns) (h : p.Keeps Fitted) (hcall : call.Paintable env p) :
    AllFit env p call ∧ (afterPaint env p call).Keeps Fitted := by
  have hwidth : max 20 call.columns = call.columns := Nat.max_eq_right hcolumns
  have hall (hmiss : cached env p call = none) : AllFit env p call := (allFit_iff hcolumns hmiss).mpr hcall
  constructor
  · cases hcached : cached env p call with
    | some entry =>
        obtain ⟨hentry, -, hentryColumns⟩ := cached_spec hcached
        rw [AllFit, paint_hit hcached, ← hwidth, ← hentryColumns]
        exact h _ entry hentry
    | none => exact hall hcached
  · refine paint_keeps h fun hmiss item hitem => ?_
    have hfits := hall hmiss
    rw [AllFit, paint_miss hmiss, ← hwidth] at hfits
    exact hfits item hitem

def thinking : ChatMessage := ⟨1, .thinking, [], none, none, none, none, false⟩

def bareEnv : Env := ⟨.zh, fun _ => [], fun _ => none, fun _ => none⟩

end Calls

end Kross.Tui

import Kross.Tui.MarkdownParse
import Kross.Tui.ToolDisplay

namespace Kross.Tui

open Parsed (Value)
open Session (isWhitespace trim collapse)

inductive Locale
  | zh
  | en

structure VerificationReport where
  status : String
  commands : List Text

inductive From
  | user
  | agent
  | system
  | tool
  | thinking
  deriving DecidableEq

structure ChatMessage where
  id : Nat
  from' : From
  text : Text
  createdAt : Option Text
  durationMs : Option Int
  tool : Option ToolCallState
  verification : Option VerificationReport
  expanded : Bool

/-- The lexer of marked, the locale, and what `JSON.parse` and `Date` make of a text. -/
structure Env where
  locale : Locale
  lex : Text → List Token
  parseJson : Text → Option Value
  parseDate : Text → Option Int

structure Style where
  bold : Bool
  italic : Bool
  dim : Bool
  color : Option String
  backgroundColor : Option String
  inverse : Bool

abbrev PaintSegment := SoftWrap.Segment Style Char

structure PaintItem where
  key : String
  segments : List PaintSegment
  height : Nat

section Segments

def Style.plain : Style := ⟨false, false, false, none, none, false⟩

def plainSegment (text : Text) : PaintSegment := ⟨.plain, text⟩

def dimSegment (text : Text) : PaintSegment := ⟨{ Style.plain with dim := true }, text⟩

def colorSegment (color : String) (text : Text) : PaintSegment := ⟨{ Style.plain with color := some color }, text⟩

def boldSegment (color : String) (text : Text) : PaintSegment :=
  ⟨{ Style.plain with bold := true, color := some color }, text⟩

def rowItem (key : String) (segments : List PaintSegment) : PaintItem := ⟨key, segments, 1⟩

def blankItem (key : String) : PaintItem := rowItem key [plainSegment [' ']]

def wrapPaintSegments (segments : List PaintSegment) (maxWidth : Nat) : List (List PaintSegment) :=
  SoftWrap.wrap metric (plainSegment [' ']) (max 1 maxWidth) (Nat.lt_of_lt_of_le Nat.one_pos (Nat.le_max_left 1 maxWidth)) segments

/-- Rows of wrapped segments, each behind what stands before it. -/
def prefixedItems (key : Nat → String) (before : Nat → List PaintSegment) (rows : List (List PaintSegment)) :
    List PaintItem :=
  rows.zipIdx.map fun (row, w) => rowItem (key w) (before w ++ row)

def lineItem (key : String) (segments : List PaintSegment) (columns : Nat) : PaintItem :=
  ⟨key, segments, countWrappedRows (SoftWrap.plain segments) columns⟩

def softWrapLineItems (keyPrefix : String) (segments : List PaintSegment) (columns : Nat) : List PaintItem :=
  (wrapPaintSegments segments (max 1 columns)).zipIdx.map fun (line, index) =>
    rowItem (keyPrefix ++ "-W" ++ toString index) (if line.isEmpty then [plainSegment [' ']] else line)

end Segments

section Texts

def translate (locale : Locale) (zh en : String) : Text :=
  match locale with
  | .zh => zh.toList
  | .en => en.toList

def formatCommands (commands : List Text) : Text :=
  if commands.isEmpty then []
  else
    let visible := commands.take 3
    let remaining := commands.length - visible.length
    " · ".toList ++ List.intercalate ", ".toList visible ++
      (if 0 < remaining then (" +" ++ toString remaining).toList else [])

def checked (locale : Locale) (report : VerificationReport) (zh en : String) : Text :=
  let n := toString report.commands.length
  translate locale (zh ++ " · " ++ n ++ " 项检查") (en ++ " · " ++ n ++ " check(s)") ++ formatCommands report.commands

def formatVerificationPresentation (locale : Locale) (report : VerificationReport) : Text :=
  match report.status with
  | "passed" => checked locale report "✓ 验证通过" "✓ Verification passed"
  | "failed" => checked locale report "✗ 验证失败" "✗ Verification failed"
  | "not-run" => checked locale report "! 未完成验证" "! Verification not run"
  | _ => translate locale "— 无需验证" "— Verification not needed"

def verificationToneColor : String → String
  | "passed" => "green"
  | "failed" => "red"
  | "not-run" => "yellow"
  | _ => "gray"

def dayMs : Int := 24 * 3600 * 1000

/-- `Math.max(1, Math.round(ms / 1000))` -/
def roundedSeconds (ms : Int) : Int := max 1 ((ms + 500) / 1000)

def startOf (env : Env) (message : ChatMessage) : Option Int :=
  message.createdAt.bind fun createdAt => if createdAt.isEmpty then none else env.parseDate createdAt

def formatThoughtSeconds (env : Env) (message : ChatMessage) (nowMs : Int) : Option Int :=
  match message.durationMs.filter (0 ≤ ·) with
  | some durationMs => some (roundedSeconds durationMs)
  | none =>
    (startOf env message).bind fun start =>
      if 0 < nowMs - start ∧ nowMs - start < dayMs then some (roundedSeconds (nowMs - start)) else none

def formatActiveThoughtSeconds (env : Env) (message : ChatMessage) (nowMs : Int) : Int :=
  match startOf env message with
  | some start => if nowMs - start ≤ 0 ∨ dayMs ≤ nowMs - start then 0 else (nowMs - start) / 1000
  | none => 0

def formatThinkingLabel (env : Env) (message : ChatMessage) (streaming : Bool) (nowMs : Int) : Text :=
  if streaming then
    let seconds := toString (formatActiveThoughtSeconds env message nowMs)
    translate env.locale ("思考中… " ++ seconds ++ " 秒") ("Thinking… " ++ seconds ++ "s")
  else
    match formatThoughtSeconds env message nowMs with
    | some seconds =>
      translate env.locale ("思考了 " ++ toString seconds ++ " 秒") ("Thought for " ++ toString seconds ++ "s")
    | none => translate env.locale "思考过程" "Thinking"

/-- `replace(/^\>\s*/, '')` -/
def withoutPrompt : Text → Text
  | '>' :: text => text.dropWhile isWhitespace
  | text => text

def trimTrailingEmptyLines (lines : List Text) : List Text :=
  let kept := (lines.reverse.dropWhile fun line => (trim line).isEmpty).reverse
  if kept.isEmpty then [[]] else kept

end Texts

section Tools

def toolStatusSegments (locale : Locale) : ToolCallStatus → PaintSegment
  | .running => colorSegment "yellow" "…".toList
  | .completed => colorSegment "green" "✓".toList
  | .failed => colorSegment "red" ("✗ ".toList ++ translate locale "失败" "failed")
  | .denied => colorSegment "red" ("✗ ".toList ++ translate locale "已拒绝" "rejected")
  | .cancelled => colorSegment "yellow" ("✗ ".toList ++ translate locale "已中断" "interrupted")
  | .awaiting => colorSegment "yellow" ("… ".toList ++ translate locale "等待确认" "awaiting approval")

/-- `/^replaced\s+(\d+)/i` -/
def replacedCount (summary : Text) : Option Text :=
  ((Regex.sequence [.start, Regex.word "replaced".toList, Regex.several isWhitespace,
    .group 1 (Regex.several Char.isDigit)]).exec summary).bind (·.captured 1)

/-- `/exit=(-?\d+)/i` -/
def exitCode (summary : Text) : Option Text :=
  ((Regex.sequence [Regex.word "exit=".toList,
    .group 1 (.seq (Regex.optional (.one (· = '-'))) (Regex.several Char.isDigit))]).exec summary).bind (·.captured 1)

def toolStatusHint (tool : ToolCallState) : Option Text :=
  let summary := trim (collapse false (tool.summary.getD []))
  if summary.isEmpty then none
  else
    match tool.status with
    | .failed | .denied | .cancelled => some (Session.truncate summary 48)
    | .running | .awaiting => none
    | .completed =>
      if tool.name = "Edit".toList && (summary = "no match".toList || "ambiguous".toList.isPrefixOf summary) then
        some (Session.truncate summary 40)
      else
        match if tool.name = "Edit".toList then replacedCount summary else none with
        | some replaced => if 1 < number replaced then some (replaced ++ ['×']) else none
        | none =>
          match if tool.name = "Bash".toList then exitCode summary else none with
          | some code => if code = ['0'] then none else some ("exit ".toList ++ code)
          | none => none

def deltaSegments (stats : LineStats) : List PaintSegment :=
  if stats.linesAdded = 0 && stats.linesRemoved = 0 then [dimSegment "±0".toList]
  else
    (if 0 < stats.linesAdded then [colorSegment "green" (count "+" stats.linesAdded).toList] else []) ++
      (if 0 < stats.linesAdded && 0 < stats.linesRemoved then [plainSegment [' ']] else []) ++
      (if 0 < stats.linesRemoved then [colorSegment "red" (count "-" stats.linesRemoved).toList] else [])

/-- The counts of lines that a title shows. -/
def shownDelta (tool : ToolCallState) : Option LineStats :=
  if isEditOrWrite tool.name && tool.status ≠ .running && tool.status ≠ .awaiting then
    resolveLineStats tool.linesAdded tool.linesRemoved tool.summary
  else none

/-- The title without the counts that are shown behind it. -/
def baseTitle (env : Env) (tool : ToolCallState) : Text :=
  let fullTitle := formatToolTitle env.parseJson tool
  match shownDelta tool with
  | some stats =>
    let label := formatLineStatsLabel stats
    if (' ' :: label).isSuffixOf fullTitle then fullTitle.take (fullTitle.length - (label.length + 1)) else fullTitle
  | none => fullTitle

def buildToolTitleSegments (env : Env) (tool : ToolCallState) (expanded multiItem : Bool) : List PaintSegment :=
  let canExpand := 0 < (ensureToolItems env.parseJson tool).length
  [colorSegment "cyan" (if canExpand then "▪ ".toList else "  ".toList), boldSegment "cyan" (baseTitle env tool)] ++
    (match shownDelta tool with
      | some stats => plainSegment [' '] :: deltaSegments stats
      | none => []) ++
    [plainSegment "  ".toList, toolStatusSegments env.locale tool.status] ++
    (match toolStatusHint tool with
      | some hint => [dimSegment (" · ".toList ++ hint)]
      | none => []) ++
    (if canExpand && !expanded && multiItem then [dimSegment " · ctrl+e".toList] else [])

def padStart (width : Nat) (text : Text) : Text := spaces (width - text.length) ++ text

def formatDiffGutter (op : Option DetailOp) (lineNo : Option Nat) : Text :=
  let num := match lineNo.filter (1 ≤ ·) with
    | some n => padStart 4 (toString n).toList
    | none => spaces 4
  match op with
  | some .add => num ++ " + ".toList
  | some .del => num ++ " - ".toList
  | some .ctx => num ++ "   ".toList
  | _ => []

def diffSegment (backgroundColor : String) (text : Text) : PaintSegment :=
  ⟨{ Style.plain with color := some "#ecfdf5", backgroundColor := some backgroundColor }, text⟩

def detailLineSegments (line : ToolDetailLine) : List PaintSegment :=
  let text := formatDiffGutter line.op line.lineNo ++ line.text
  match line.op with
  | some .add => [diffSegment "#14532d" text]
  | some .del => [diffSegment "#7f1d1d" text]
  | _ => [dimSegment text]

/-- What an item of a group is shown as. -/
def itemName (tool : ToolCallState) (item : ToolCallItem) : Text :=
  ((item.path <|> item.preview) <|> item.summary).getD tool.name

def itemSegments (tool : ToolCallState) (item : ToolCallItem) : List PaintSegment :=
  [dimSegment "  · ".toList, dimSegment (itemName tool item)] ++
    match item.status with
    | .failed => [colorSegment "red" "  failed".toList]
    | .denied => [colorSegment "red" "  denied".toList]
    | .cancelled => [colorSegment "yellow" "  cancelled".toList]
    | _ => []

def groupItems (id : String) (tool : ToolCallState) (items : List ToolCallItem) : List PaintItem :=
  items.zipIdx.map fun (item, index) => rowItem ("tool-" ++ id ++ "-item-" ++ toString index) (itemSegments tool item)

def detailItems (id : String) (tool : ToolCallState) (width : Nat) : List PaintItem :=
  ((tool.detailLines.getD []).zipIdx.flatMap fun (line, index) =>
    prefixedItems (fun w => "tool-" ++ id ++ "-detail-" ++ toString index ++ "-W" ++ toString w)
      (fun _ => [dimSegment "  ".toList]) (wrapPaintSegments (detailLineSegments line) (max 1 (width - 2)))) ++
    if tool.detailTruncated then [rowItem ("tool-" ++ id ++ "-detail-trunc") [dimSegment "  … truncated".toList]] else []

def paintTool (env : Env) (message : ChatMessage) (tool : ToolCallState) (columns : Nat) : List PaintItem :=
  let items := ensureToolItems env.parseJson tool
  let width := max 1 columns
  let id := toString message.id
  prefixedItems (fun w => "tool-" ++ id ++ "-title-W" ++ toString w) (fun _ => [])
      (wrapPaintSegments (buildToolTitleSegments env tool message.expanded (1 < items.length)) width) ++
    (if message.expanded then if 1 < items.length then groupItems id tool items else detailItems id tool width
      else []) ++
    [blankItem ("tool-gap-" ++ id)]

end Tools

section Messages

def headingColor (line : MdLine) : Option String :=
  match line.kind, line.level with
  | .heading, some 1 => some "cyan"
  | .heading, some 2 => some "#22d3ee"
  | _, _ => none

def spanToSegment (line : MdLine) (span : MdSpan) : PaintSegment :=
  ⟨⟨span.bold || line.kind = .heading, span.italic, span.dim, span.color <|> headingColor line, none, span.inverse⟩,
    span.text⟩

def mdLineToSegments (line : MdLine) : List PaintSegment :=
  if line.kind = .blank then [plainSegment [' ']]
  else if line.spans.isEmpty then [plainSegment [' ']]
  else line.spans.map (spanToSegment line)

def bullet : Text := "● ".toList

def promptPrefix : Text := "> ".toList

/-- The rows of the lines from the `i`-th on; `firstContent` tells that none has had the bullet yet. -/
def agentLines (id : String) (bodyWidth : Nat) : Bool → Nat → List MdLine → List PaintItem
  | _, _, [] => []
  | firstContent, i, md :: lines =>
    let key := "agent-" ++ id ++ "-L" ++ toString i
    if md.kind = .blank then blankItem (key ++ "-blank") :: agentLines id bodyWidth firstContent (i + 1) lines
    else
      let wrapped := wrapPaintSegments (mdLineToSegments md) bodyWidth
      prefixedItems (fun w => key ++ "-W" ++ toString w)
          (fun w => [if firstContent && w = 0 then colorSegment "cyan" bullet else plainSegment (spaces (displayWidth bullet))])
          wrapped ++
        agentLines id bodyWidth (firstContent && wrapped.isEmpty) (i + 1) lines

def paintAgent (env : Env) (s : Markdown) (message : ChatMessage) (columns : Nat) (streaming : Bool) :
    Markdown × List PaintItem :=
  let id := toString message.id
  let (s, lines) := parseMarkdownStreaming env.lex s message.text ("msg-" ++ id) streaming
  (s, agentLines id (max 1 (columns - displayWidth bullet)) true 0 (trimTrailingBlankMdLines lines) ++ [blankItem ("agent-gap-" ++ id)])

def thinkingLines (id : String) (columns : Nat) (text : Text) : List PaintItem :=
  (trimTrailingEmptyLines (text.splitOn '\n')).zipIdx.flatMap fun (line, i) =>
    prefixedItems (fun w => "th-" ++ id ++ "-L" ++ toString i ++ "-W" ++ toString w) (fun _ => [dimSegment "  ".toList])
      (wrapPaintSegments [dimSegment line] (max 1 (columns - 2)))

def paintThinking (env : Env) (message : ChatMessage) (columns : Nat) (streaming : Bool) (nowMs : Int) :
    List PaintItem :=
  let id := toString message.id
  let label := formatThinkingLabel env message streaming nowMs
  lineItem ("th-h-" ++ id) [colorSegment "cyan" "▪ ".toList, dimSegment label] columns ::
    ((if message.expanded && !streaming then thinkingLines id columns message.text else []) ++
      [blankItem ("th-gap-" ++ id)])

def paintSystem (env : Env) (message : ChatMessage) (columns : Nat) : List PaintItem :=
  let id := toString message.id
  match message.verification with
  | some report =>
    softWrapLineItems ("verify-" ++ id)
      [colorSegment (verificationToneColor report.status) (formatVerificationPresentation env.locale report)] columns ++
      [blankItem ("verify-gap-" ++ id)]
  | none => softWrapLineItems ("sys-" ++ id) [dimSegment ("· ".toList ++ message.text)] columns ++ [blankItem ("sys-gap-" ++ id)]

def paintUser (message : ChatMessage) (columns : Nat) : List PaintItem :=
  let id := toString message.id
  prefixedItems (fun w => "user-" ++ id ++ "-W" ++ toString w)
      (fun w => [if w = 0 then boldSegment "#c084fc" promptPrefix
        else colorSegment "#c084fc" (spaces (displayWidth promptPrefix))])
      (wrapPaintSegments [boldSegment "#c084fc" (withoutPrompt message.text)]
        (max 1 (columns - displayWidth promptPrefix))) ++
    [blankItem ("user-gap-" ++ id)]

def paintMessageUncached (env : Env) (s : Markdown) (message : ChatMessage) (columns : Nat) (streaming : Bool)
    (nowMs : Int) : Markdown × List PaintItem :=
  match message.from', message.tool with
  | .tool, some tool => (s, paintTool env message tool columns)
  | .system, _ => (s, paintSystem env message columns)
  | .user, _ => (s, paintUser message columns)
  | .thinking, _ => (s, paintThinking env message columns streaming nowMs)
  | _, _ => paintAgent env s message columns streaming

end Messages

section Cache

structure CacheEntry where
  fingerprint : Text
  columns : Nat
  items : List PaintItem
  totalHeight : Nat

structure MessagePaintCache where
  entries : Nat → Option CacheEntry
  columns : Nat

def MessagePaintCache.fresh : MessagePaintCache := ⟨fun _ => none, 0⟩

def From.text : From → String
  | .user => "user"
  | .agent => "agent"
  | .system => "system"
  | .tool => "tool"
  | .thinking => "thinking"

def numberText (n : Option Nat) : Text := (n.map fun n => (toString n).toList).getD []

def toolSignature (tool : ToolCallState) : Text :=
  let itemSignature (item : ToolCallItem) : Text :=
    item.status.text.toList ++ [':'] ++ item.path.getD [] ++ [':'] ++ item.summary.getD []
  let items := match tool.items with
    | some items => (toString items.length).toList ++ [':'] ++ List.intercalate [','] (items.map itemSignature)
    | none => []
  List.intercalate ['|'] [tool.name, tool.status.text.toList, tool.summary.getD [], numberText tool.linesAdded,
    numberText tool.linesRemoved, (toString (tool.detailLines.getD []).length).toList,
    if tool.detailTruncated then ['1'] else ['0'], items]

def layoutFingerprint (message : ChatMessage) : Text :=
  let text := message.text
  let tail := if 24 < Session.length text then sliceEnd text 24 else []
  List.intercalate ['\x01'] [message.from'.text.toList, if message.expanded then ['1'] else ['0'],
    (toString (Session.length text)).toList, Session.slice text 24, tail, (message.tool.map toolSignature).getD [],
    (message.durationMs.map fun durationMs => (toString durationMs).toList).getD ['-']]

def paintFingerprint (env : Env) (message : ChatMessage) (streaming : Bool) : Text :=
  let verification := match message.verification with
    | some report => "\x01v:".toList ++ formatVerificationPresentation env.locale report
    | none => []
  layoutFingerprint message ++ verification ++ ['\x01', if streaming then 's' else 'd']

/-- The cache for a width; another width makes it forget. -/
def MessagePaintCache.at (cache : MessagePaintCache) (width : Nat) : MessagePaintCache :=
  if width ≠ cache.columns then ⟨fun _ => none, width⟩ else cache

def MessagePaintCache.hit (cache : MessagePaintCache) (id : Nat) (fingerprint : Text) (width : Nat) : Option CacheEntry :=
  (cache.entries id).filter fun entry => entry.fingerprint = fingerprint && entry.columns = width

def MessagePaintCache.store (cache : MessagePaintCache) (id : Nat) (entry : CacheEntry) : MessagePaintCache :=
  { cache with entries := fun other => if other = id then some entry else cache.entries other }

structure Painter where
  markdown : Markdown
  cache : MessagePaintCache

def Painter.start : Painter := ⟨⟨[], fun _ => none⟩, .fresh⟩

def paintMessage (env : Env) (p : Painter) (message : ChatMessage) (columns : Nat) (streaming : Bool) (nowMs : Int) :
    Painter × List PaintItem :=
  let width := max 20 columns
  let cache := p.cache.at width
  let fingerprint := paintFingerprint env message streaming
  match if streaming then none else cache.hit message.id fingerprint width with
  | some hit => (⟨p.markdown, cache⟩, hit.items)
  | none =>
    let (markdown, items) := paintMessageUncached env p.markdown message width streaming nowMs
    let totalHeight := (items.map PaintItem.height).sum
    (⟨markdown, cache.store message.id ⟨fingerprint, width, items, totalHeight⟩⟩, items)

end Cache

end Kross.Tui

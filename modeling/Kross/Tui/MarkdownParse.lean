import Kross.Session.Title
import Kross.Tui.DisplayWidth
import Mathlib.Algebra.GroupWithZero.Nat

namespace Kross.Tui

open Session (trim trimEnd)

structure MdSpan where
  text : Text
  bold : Bool
  italic : Bool
  dim : Bool
  color : Option String
  inverse : Bool

inductive MdKind
  | paragraph
  | heading
  | list
  | quote
  | code
  | hr
  | blank
  | table
  deriving DecidableEq

structure MdLine where
  spans : List MdSpan
  kind : MdKind
  level : Option Nat

inductive Align
  | left
  | center
  | right

/-- What there is in a token of marked besides its text and the tokens in it. -/
inductive TokenKind
  | space
  | heading (depth : Nat)
  | paragraph
  | text
  | code (lang : Text)
  | list (ordered : Bool) (start : Option Nat)
  | listItem (task checked : Bool)
  | blockquote
  | hr
  | table (header : List Text) (align : List (Option Align)) (rows : List (List Text))
  | html
  | escape
  | strong
  | em
  | codespan
  | del
  | link (href : Text)
  | image (href : Text)
  | br
  | other

/-- A token of marked; the tokens of a list are its items. -/
inductive Token
  | node (kind : TokenKind) (raw : Text) (text : Option Text) (tokens : List Token)

def Token.kind : Token → TokenKind
  | .node kind _ _ _ => kind

def Token.raw : Token → Text
  | .node _ raw _ _ => raw

def plainSpan (text : Text) : MdSpan := ⟨text, false, false, false, none, false⟩

def dimSpan (text : Text) : MdSpan := { plainSpan text with dim := true }

def colored (color text : String) : MdSpan := { plainSpan text.toList with color := some color }

section Inline

def orEmpty (spans : List MdSpan) : List MdSpan := if spans.isEmpty then [plainSpan []] else spans

def linkLabel (span : MdSpan) : MdSpan := { span with bold := true, color := span.color <|> some "blue" }

def hrefSpan (href : Text) : List MdSpan :=
  if href.isEmpty then [] else [dimSpan (" (".toList ++ href ++ ")".toList)]

/-- The text of a token, or else what it is written with. -/
def fallbackText (text : Option Text) (raw : Text) : Text := text.getD raw

mutual
def inlineTokenToSpans : Token → List MdSpan
  | .node kind raw text tokens =>
    let inner := orEmpty (inlineSpans tokens)
    match kind with
    | .text => if tokens.isEmpty then [plainSpan (text.getD [])] else inner
    | .escape => [plainSpan (text.getD [])]
    | .strong => inner.map fun span => { span with bold := true }
    | .em => inner.map fun span => { span with italic := true }
    | .codespan => [{ plainSpan (text.getD []) with color := some "yellow", bold := true }]
    | .del => inner.map fun span => { span with dim := true }
    | .link href => inner.map linkLabel ++ hrefSpan href
    | .image href =>
      let alt := if (text.getD []).isEmpty then "image".toList else text.getD []
      { plainSpan alt with bold := true, color := some "blue" } :: hrefSpan href
    | .br => [plainSpan ['\n']]
    | .html => [dimSpan (fallbackText text raw)]
    | _ => [plainSpan (fallbackText text raw)]

def inlineSpans : List Token → List MdSpan
  | [] => []
  | token :: tokens => inlineTokenToSpans token ++ inlineSpans tokens
end

def inlineTokensToSpans (tokens : List Token) : List MdSpan := orEmpty (inlineSpans tokens)

def listItemToSpans : Token → List MdSpan
  | .node _ _ text tokens =>
    let spans := tokens.flatMap fun
      | .node .text _ text tokens => if tokens.isEmpty then [plainSpan (text.getD [])] else inlineTokensToSpans tokens
      | .node .paragraph _ _ tokens => inlineTokensToSpans tokens
      | .node _ _ (some text) _ => [plainSpan text]
      | .node _ _ none _ => []
    if spans.isEmpty then [plainSpan (text.getD [])] else spans

end Inline

section Tables

def truncated (width used : Nat) : Text → Text
  | [] => []
  | c :: text =>
    let w := displayWidth [c]
    if width ≤ used + w then [] else c :: truncated width (used + w) text

def truncateToWidth (text : Text) (width : Nat) : Text :=
  if displayWidth text ≤ width then text else truncated width 0 text ++ ['…']

def spaces (n : Nat) : Text := List.replicate n ' '

def padCell (text : Text) (width : Nat) (align : Align) : Text :=
  let pad := width - displayWidth text
  let result := match align with
    | .right => spaces pad ++ text
    | .center => spaces (pad / 2) ++ text ++ spaces (pad - pad / 2)
    | .left => text ++ spaces pad
  let actual := displayWidth result
  if actual < width then result ++ spaces (width - actual)
  else if width < actual then truncateToWidth result width
  else result

def tableLine (spans : List MdSpan) : MdLine := ⟨spans, .table, none⟩

def border (widths : List Nat) (left mid right : Char) : MdLine :=
  let fills := widths.map fun w => List.replicate (w + 2) '─'
  tableLine [dimSpan (left :: List.intercalate [mid] fills ++ [right])]

def formatTableDataRow (cells : List Text) (widths : List Nat) (aligns : List Align) (header : Bool) : List MdSpan :=
  dimSpan ['│'] :: (widths.zipIdx.flatMap fun (width, i) =>
    let cell := truncateToWidth (cells.getD i []) width
    let padded := padCell cell width (aligns.getD i .left)
    [plainSpan [' '], { plainSpan padded with bold := header, color := if header then some "cyan" else none },
      plainSpan [' '], dimSpan ['│']])

/-- The width of each column: that of its widest cell, but no more than 28. -/
def columnWidths (rows : List (List Text)) : List Nat :=
  let colCount := max 1 ((rows.map List.length).foldl max 0)
  (List.range colCount).map fun col => min 28 ((rows.map fun row => displayWidth (row.getD col [])).foldl max 1)

def formatTableCells (header : List Text) (body : List (List Text)) (aligns : List Align) : List MdLine :=
  let widths := columnWidths (header :: body)
  [border widths '┌' '┬' '┐', tableLine (formatTableDataRow header widths aligns true), border widths '├' '┼' '┤'] ++
    (body.map fun row => tableLine (formatTableDataRow row widths aligns false)) ++ [border widths '└' '┴' '┘']

end Tables

section Blocks

def codeLine (span : MdSpan) : MdLine := ⟨[span], .code, none⟩

/-- The rows of a block of code without the empty ones at its end. -/
def codeRows (text : Text) : List Text :=
  let rows := (text.splitOn '\n').reverse.dropWhile List.isEmpty
  if rows.isEmpty then [[]] else rows.reverse

def codeLines (lang text : Text) : List MdLine :=
  let lang := trim lang
  let head := if lang.isEmpty then "┌────".toList else "┌ ".toList ++ lang
  let foot := '└' :: List.replicate (if lang.isEmpty then 4 else Session.length lang + 2) '─'
  codeLine { dimSpan head with color := some "gray" } ::
    ((codeRows text).map fun row => codeLine { plainSpan (if row.isEmpty then [' '] else row) with color := some "cyan" }) ++
    [codeLine { dimSpan foot with color := some "gray" }]

def listPrefix (ordered : Bool) (index : Nat) : Token → String
  | .node (.listItem task checked) _ _ _ =>
    if ordered then toString index ++ ". " else if task then if checked then "☑ " else "☐ " else "• "
  | _ => if ordered then toString index ++ ". " else "• "

def quoteBar : MdSpan := dimSpan "│ ".toList

def quoted (line : MdLine) : MdLine :=
  match line.kind with
  | .blank => ⟨[quoteBar], .quote, none⟩
  | _ => ⟨quoteBar :: line.spans.map fun span => { span with dim := true }, .quote, none⟩

def paragraph (spans : List MdSpan) : MdLine := ⟨spans, .paragraph, none⟩

def headingLine (depth : Nat) (tokens : List Token) : MdLine :=
  let level := min 3 (max 1 depth)
  let color := if level = 1 then some "cyan" else if level = 2 then some "blue" else none
  ⟨(inlineTokensToSpans tokens).map fun span => { span with bold := true, color := span.color <|> color }, .heading, some level⟩

mutual
def tokenToLines : Token → List MdLine
  | .node kind raw text tokens =>
    match kind with
    | .space => [⟨[plainSpan [' ']], .blank, none⟩]
    | .heading depth => [headingLine depth tokens]
    | .paragraph => [paragraph (inlineTokensToSpans tokens)]
    | .text => if tokens.isEmpty then [paragraph [plainSpan (text.getD [])]] else [paragraph (inlineTokensToSpans tokens)]
    | .code lang => codeLines lang (text.getD [])
    | .list ordered start =>
      (tokens.zipIdx (start.getD 1)).map fun (item, index) =>
        ⟨colored "cyan" (listPrefix ordered index item) :: listItemToSpans item, .list, none⟩
    | .blockquote =>
      let out := (tokensToLines tokens).map quoted
      if out.isEmpty then [⟨[quoteBar], .quote, none⟩] else out
    | .hr => [⟨[dimSpan (List.replicate 48 '─')], .hr, none⟩]
    | .table header align rows => formatTableCells header rows (align.map fun a => a.getD .left)
    | .html =>
      let text := trim (fallbackText text raw)
      if text.isEmpty then [] else [paragraph [dimSpan text]]
    | _ => if (trim raw).isEmpty then [] else [paragraph [plainSpan (trimEnd raw)]]

def tokensToLines : List Token → List MdLine
  | [] => []
  | token :: tokens => tokenToLines token ++ tokensToLines tokens
end

end Blocks

structure StreamParseState where
  stablePrefix : Text
  stableLines : List MdLine

/-- The parser keeps what it has parsed: by source, the latest last, and by message that is streaming. -/
structure Markdown where
  parseCache : List (Text × List MdLine)
  streamStates : String → Option StreamParseState

section Parsing

/-- `replace(/\r\n/g, '\n')` -/
def normalize : Text → Text
  | '\r' :: '\n' :: text => '\n' :: normalize text
  | c :: text => c :: normalize text
  | [] => []

def emptyParagraph : List MdLine := [paragraph [plainSpan []]]

/-- `lex` is the lexer of marked. -/
def parseMarkdown (lex : Text → List Token) (source : Text) : List MdLine :=
  let normalized := normalize source
  if normalized.isEmpty then emptyParagraph
  else
    let result := tokensToLines (lex normalized)
    if result.isEmpty then emptyParagraph else result

def codeUnits (c : Char) : List UInt32 :=
  let n := c.toNat
  if n < 0x10000 then [UInt32.ofNat n]
  else [UInt32.ofNat (0xd800 + (n - 0x10000) / 0x400), UInt32.ofNat (0xdc00 + (n - 0x10000) % 0x400)]

def sourceHash (source : Text) : UInt32 :=
  let units := source.flatMap codeUnits
  let step := max 1 (units.length / 96)
  let sampled := units.zipIdx.filterMap fun (unit, i) => if i % step = 0 then some unit else none
  sampled.foldl (fun hash unit => (hash ^^^ unit) * 16777619) 2166136261 ^^^ units.getLast?.getD 0

/-- `slice(-n)` -/
def sliceEnd (text : Text) (n : Nat) : Text := (Session.slice text.reverse n).reverse

def parseCacheKey (source : Text) : Text :=
  if Session.length source ≤ 256 then source
  else
    (toString (Session.length source) ++ ":" ++ toString (sourceHash source).toNat ++ ":").toList ++
      Session.slice source 48 ++ [':'] ++ sliceEnd source 48

def parseCacheMax : Nat := 256

def cachedParseMarkdown (lex : Text → List Token) (s : Markdown) (source : Text) : Markdown × List MdLine :=
  let key := parseCacheKey source
  let others := s.parseCache.filter fun entry => entry.1 ≠ key
  match s.parseCache.lookup key with
  | some hit => ({ s with parseCache := others ++ [(key, hit)] }, hit)
  | none =>
    let lines := parseMarkdown lex source
    let kept := if parseCacheMax ≤ s.parseCache.length then s.parseCache.tail else s.parseCache
    ({ s with parseCache := kept ++ [(key, lines)] }, lines)

def trimTrailingBlankMdLines (lines : List MdLine) : List MdLine :=
  let kept := (lines.reverse.dropWhile fun line => line.kind = .blank).reverse
  if kept.isEmpty then lines.take 1 else kept

end Parsing

section Streaming

def isSpaceToken (token : Token) : Bool :=
  match token.kind with
  | .space => true
  | _ => false

/-- The length of the tokens before the last one that is not space. -/
def stableLength (tokens : List Token) : Nat :=
  let content := (tokens.reverse.dropWhile isSpaceToken).reverse
  (content.dropLast.map fun token => token.raw.length).sum

def Markdown.setStream (s : Markdown) (streamKey : String) (state : Option StreamParseState) : Markdown :=
  { s with streamStates := fun key => if key = streamKey then state else s.streamStates key }

def streamStart (s : Markdown) (normalized : Text) (streamKey : String) : StreamParseState :=
  match s.streamStates streamKey with
  | some state => if state.stablePrefix.isPrefixOf normalized then state else ⟨[], []⟩
  | none => ⟨[], []⟩

/-- The stable prefix grows by the blocks that are over. -/
def advance (lex : Text → List Token) (s : Markdown) (state : StreamParseState) (normalized : Text) :
    Markdown × StreamParseState :=
  let tail := normalized.drop state.stablePrefix.length
  let step := if tail.isEmpty then 0 else stableLength (lex tail)
  if step = 0 then (s, state)
  else
    let stablePrefix := state.stablePrefix ++ tail.take step
    let (s, stableLines) := cachedParseMarkdown lex s stablePrefix
    (s, ⟨stablePrefix, stableLines⟩)

def parseMarkdownStreaming (lex : Text → List Token) (s : Markdown) (source : Text) (streamKey : String)
    (streaming : Bool) : Markdown × List MdLine :=
  if !streaming then cachedParseMarkdown lex (s.setStream streamKey none) source
  else
    let normalized := normalize source
    let (s, state) := advance lex s (streamStart s normalized streamKey) normalized
    let unstable := normalized.drop state.stablePrefix.length
    let unstableLines := if unstable.isEmpty then [] else parseMarkdown lex unstable
    let lines := state.stableLines ++ unstableLines
    (s.setStream streamKey (some state), if lines.isEmpty then emptyParagraph else lines)

end Streaming

end Kross.Tui

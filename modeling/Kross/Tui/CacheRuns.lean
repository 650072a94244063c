import Kross.Tui.PaintCalls
import Kross.Tui.PaintKeys

namespace Kross.Tui

section Parsing

variable {lex : Text → List Token} {s : Markdown} {source streamText : Text} {streamKey : String} {streaming : Bool}

/-- What the cache has for a text are its lines. -/
def Good (lex : Text → List Token) (s : Markdown) (source : Text) : Prop :=
  ∀ lines, s.parseCache.lookup (parseCacheKey source) = some lines → lines = parseMarkdown lex source

theorem cachedParse_of_good (h : Good lex s source) : (cachedParseMarkdown lex s source).2 = parseMarkdown lex source := by
  rw [cachedParseMarkdown]
  cases hlookup : s.parseCache.lookup (parseCacheKey source) with
  | some hit => exact h hit hlookup
  | none => rfl

theorem streamStates_cachedParse : (cachedParseMarkdown lex s source).1.streamStates = s.streamStates := by
  rw [cachedParseMarkdown]
  cases s.parseCache.lookup (parseCacheKey source) <;> rfl

/-- The lines of the text are kept, with what there was for other keys. -/
theorem mem_cachedParse {key : Text} {lines : List MdLine} (h : (key, lines) ∈ (cachedParseMarkdown lex s source).1.parseCache) :
    key = parseCacheKey source ∧ lines = (cachedParseMarkdown lex s source).2 ∨
      key ≠ parseCacheKey source ∧ (key, lines) ∈ s.parseCache := by
  rw [cachedParseMarkdown] at h ⊢
  cases hlookup : s.parseCache.lookup (parseCacheKey source) with
  | some hit =>
      rw [hlookup] at h
      rcases List.mem_append.mp h with h | h
      · obtain ⟨hmem, hne⟩ := List.mem_filter.mp h
        exact .inr ⟨by simpa using hne, hmem⟩
      · obtain ⟨rfl, rfl⟩ := Prod.mk.inj (List.mem_singleton.mp h)
        exact .inl ⟨rfl, rfl⟩
  | none =>
      rw [hlookup] at h
      rcases List.mem_append.mp h with h | h
      · have hmem : (key, lines) ∈ s.parseCache := by
          split_ifs at h
          · exact List.mem_of_mem_tail h
          · exact h
        have hne := List.lookup_eq_none_iff.mp hlookup (key, lines) hmem
        exact .inr ⟨fun heq => by simp [heq] at hne, hmem⟩
      · obtain ⟨rfl, rfl⟩ := Prod.mk.inj (List.mem_singleton.mp h)
        exact .inl ⟨rfl, rfl⟩

/-- The text that the growing stable prefix is parsed from. -/
def advanceSource (lex : Text → List Token) (state : StreamParseState) (normalized : Text) : Option Text :=
  let tail := normalized.drop state.stablePrefix.length
  let step := if tail.isEmpty then 0 else stableLength (lex tail)
  if step = 0 then none else some (state.stablePrefix ++ tail.take step)

theorem advance_eq (lex : Text → List Token) (s : Markdown) (state : StreamParseState) (normalized : Text) :
    advance lex s state normalized = match advanceSource lex state normalized with
      | none => (s, state)
      | some stablePrefix =>
        ((cachedParseMarkdown lex s stablePrefix).1, ⟨stablePrefix, (cachedParseMarkdown lex s stablePrefix).2⟩) := by
  rw [advance, advanceSource]
  split_ifs <;> rfl

/-- The text that a call of the streaming parser looks up. -/
def lookedUp (lex : Text → List Token) (s : Markdown) (source : Text) (streamKey : String) (streaming : Bool) : Option Text :=
  if !streaming then some source else advanceSource lex (streamStart s (normalize source) streamKey) (normalize source)

/-- The parser without the cache. -/
def Markdown.bare (s : Markdown) : Markdown := ⟨[], s.streamStates⟩

theorem good_bare : Good lex s.bare source := fun _ h => nomatch h

theorem advance_of_good {state : StreamParseState} {normalized : Text}
    (h : ∀ looked ∈ advanceSource lex state normalized, Good lex s looked) :
    (advance lex s state normalized).2 = (advance lex s.bare state normalized).2 ∧
      (advance lex s state normalized).1.streamStates = s.streamStates ∧
      (advance lex s.bare state normalized).1.streamStates = s.streamStates := by
  rw [advance_eq, advance_eq]
  cases hsource : advanceSource lex state normalized with
  | none => exact ⟨rfl, rfl, rfl⟩
  | some looked =>
      dsimp only
      rw [cachedParse_of_good (h looked hsource), cachedParse_of_good good_bare]
      exact ⟨rfl, streamStates_cachedParse, streamStates_cachedParse⟩

/-- A text that is no longer streaming is parsed at once, and its stream is over. -/
theorem parseMarkdownStreaming_done (h : Good lex s source) (streamKey : String) :
    (parseMarkdownStreaming lex s source streamKey false).2 = parseMarkdown lex source ∧
      (parseMarkdownStreaming lex s source streamKey false).1.streamStates = (s.setStream streamKey none).streamStates := by
  have hgood : Good lex (s.setStream streamKey none) source := h
  rw [parseMarkdownStreaming, if_pos Bool.not_false, cachedParse_of_good hgood, streamStates_cachedParse]
  exact ⟨rfl, rfl⟩

/-- Where the cache has the lines of what is looked up, the parser answers as without it. -/
theorem parseMarkdownStreaming_of_good (h : ∀ looked ∈ lookedUp lex s source streamKey streaming, Good lex s looked) :
    (parseMarkdownStreaming lex s source streamKey streaming).2 =
        (parseMarkdownStreaming lex s.bare source streamKey streaming).2 ∧
      (parseMarkdownStreaming lex s source streamKey streaming).1.streamStates =
        (parseMarkdownStreaming lex s.bare source streamKey streaming).1.streamStates := by
  cases streaming with
  | false =>
      obtain ⟨hlines, hstreams⟩ := parseMarkdownStreaming_done (h source rfl) streamKey
      obtain ⟨hbareLines, hbareStreams⟩ := parseMarkdownStreaming_done (good_bare (s := s)) streamKey
      rw [hlines, hstreams, hbareLines, hbareStreams]
      exact ⟨rfl, rfl⟩
  | true =>
      obtain ⟨hstate, hstreams, hbare⟩ := advance_of_good h
      have hstart : streamStart s.bare (normalize source) streamKey = streamStart s (normalize source) streamKey := rfl
      rw [parseMarkdownStreaming, parseMarkdownStreaming, if_neg (by decide), if_neg (by decide)]
      dsimp only
      rw [hstart, hstate, Markdown.setStream, Markdown.setStream, hstreams, hbare]
      exact ⟨rfl, rfl⟩

theorem streamStates_advance {state : StreamParseState} {normalized : Text} :
    (advance lex s state normalized).1.streamStates = s.streamStates := by
  rw [advance_eq]
  cases advanceSource lex state normalized with
  | none => rfl
  | some looked => exact streamStates_cachedParse

/-- Only the stream of the message changes. -/
theorem streamStates_other {key : String} (hkey : key ≠ streamKey) :
    (parseMarkdownStreaming lex s source streamKey streaming).1.streamStates key = s.streamStates key := by
  rw [parseMarkdownStreaming]
  cases streaming with
  | false =>
      rw [if_pos Bool.not_false, streamStates_cachedParse]
      exact if_neg hkey
  | true =>
      rw [if_neg (by decide)]
      dsimp only
      rw [Markdown.setStream]
      dsimp only
      rw [if_neg hkey, streamStates_advance]

/-- All that is kept was parsed from the text that was looked up last for its key. -/
def ParsedFrom (lex : Text → List Token) (parsed : Text → Option Text) (s : Markdown) : Prop :=
  ∀ key lines, (key, lines) ∈ s.parseCache → ∃ old, parsed key = some old ∧ lines = parseMarkdown lex old

/-- What was looked up last for each key, when a text is looked up. -/
def look (parsed : Text → Option Text) (source : Text) : Text → Option Text :=
  fun key => if key = parseCacheKey source then some source else parsed key

variable {parsed : Text → Option Text}

theorem parsedFrom_cachedParse (h : ParsedFrom lex parsed s) (hgood : Good lex s source) :
    ParsedFrom lex (look parsed source) (cachedParseMarkdown lex s source).1 := by
  intro key lines hmem
  rcases mem_cachedParse hmem with ⟨hkey, hlines⟩ | ⟨hkey, hmem⟩
  · exact ⟨source, if_pos hkey, hlines.trans (cachedParse_of_good hgood)⟩
  · obtain ⟨old, hold, hlines⟩ := h key lines hmem
    exact ⟨old, (if_neg hkey).trans hold, hlines⟩

/-- What was looked up last for each key after a call of the streaming parser. -/
def lookAgain (parsed : Text → Option Text) : Option Text → Text → Option Text
  | some looked => look parsed looked
  | none => parsed

theorem parsedFrom_streaming (h : ParsedFrom lex parsed s)
    (hgood : ∀ looked ∈ lookedUp lex s source streamKey streaming, Good lex s looked) :
    ParsedFrom lex (lookAgain parsed (lookedUp lex s source streamKey streaming))
      (parseMarkdownStreaming lex s source streamKey streaming).1 := by
  rw [parseMarkdownStreaming]
  cases streaming with
  | false => exact parsedFrom_cachedParse (s := s.setStream streamKey none) h (hgood source rfl)
  | true =>
      have hadvance : ParsedFrom lex (lookAgain parsed (lookedUp lex s source streamKey true))
          (advance lex s (streamStart s (normalize source) streamKey) (normalize source)).1 := by
        have hlooked : lookedUp lex s source streamKey true =
            advanceSource lex (streamStart s (normalize source) streamKey) (normalize source) := rfl
        rw [hlooked] at hgood ⊢
        rw [advance_eq]
        cases hsource : advanceSource lex (streamStart s (normalize source) streamKey) (normalize source) with
        | none => exact h
        | some looked => exact parsedFrom_cachedParse h (hgood looked hsource)
      rw [if_neg (by decide)]
      exact hadvance

end Parsing

section Painting

variable {env : Env} {s : Markdown} {message : ChatMessage} {columns : Nat} {streaming : Bool} {nowMs : Int}

/-- The messages that are painted as Markdown. -/
def paintsMarkdown (message : ChatMessage) : Bool :=
  match message.from', message.tool with
  | .tool, some _ | .system, _ | .user, _ | .thinking, _ => false
  | _, _ => true

def streamKeyOf (message : ChatMessage) : String := "msg-" ++ toString message.id

theorem paint_markdown (h : paintsMarkdown message = true) :
    paintMessageUncached env s message columns streaming nowMs = paintAgent env s message columns streaming := by
  rw [paintsMarkdown] at h
  rw [paintMessageUncached]
  cases hfrom : message.from' with
  | tool =>
      cases htool : message.tool with
      | some tool => rw [hfrom, htool] at h; cases h
      | none => rfl
  | agent => rfl
  | system | user | thinking => rw [hfrom] at h; cases h

/-- What other messages are painted as does not depend on the parser. -/
theorem paint_other (env : Env) (columns : Nat) (streaming : Bool) (nowMs : Int) (h : paintsMarkdown message = false) :
    ∃ items, ∀ s, paintMessageUncached env s message columns streaming nowMs = (s, items) := by
  rw [paintsMarkdown] at h
  cases hfrom : message.from' with
  | tool =>
      cases htool : message.tool with
      | some tool => exact ⟨_, fun s => by rw [paintMessageUncached, hfrom, htool]⟩
      | none => rw [hfrom, htool] at h; cases h
  | agent => rw [hfrom] at h; cases h
  | system | user | thinking => exact ⟨_, fun s => by rw [paintMessageUncached, hfrom]⟩

/-- The text that painting a message looks up. -/
def paintSource (env : Env) (s : Markdown) (message : ChatMessage) (streaming : Bool) : Option Text :=
  if paintsMarkdown message then lookedUp env.lex s message.text (streamKeyOf message) streaming else none

theorem paintUncached_of_good (columns : Nat) (nowMs : Int)
    (h : ∀ looked ∈ paintSource env s message streaming, Good env.lex s looked) :
    (paintMessageUncached env s message columns streaming nowMs).2 =
        (paintMessageUncached env s.bare message columns streaming nowMs).2 ∧
      (paintMessageUncached env s message columns streaming nowMs).1.streamStates =
        (paintMessageUncached env s.bare message columns streaming nowMs).1.streamStates := by
  cases hmarkdown : paintsMarkdown message with
  | true =>
      rw [paintSource, hmarkdown, if_pos rfl] at h
      obtain ⟨hlines, hstreams⟩ := parseMarkdownStreaming_of_good h
      rw [paint_markdown hmarkdown, paint_markdown hmarkdown, paintAgent, paintAgent]
      dsimp only
      rw [streamKeyOf] at hlines hstreams
      rw [hlines, hstreams]
      exact ⟨rfl, rfl⟩
  | false =>
      obtain ⟨items, hitems⟩ := paint_other env columns streaming nowMs hmarkdown
      rw [hitems, hitems]
      exact ⟨rfl, rfl⟩

theorem parsedFrom_paint {parsed : Text → Option Text} (h : ParsedFrom env.lex parsed s)
    (hgood : ∀ looked ∈ paintSource env s message streaming, Good env.lex s looked) :
    ParsedFrom env.lex (lookAgain parsed (paintSource env s message streaming))
      (paintMessageUncached env s message columns streaming nowMs).1 := by
  cases hmarkdown : paintsMarkdown message with
  | true =>
      rw [paintSource, hmarkdown, if_pos rfl] at hgood ⊢
      rw [paint_markdown hmarkdown]
      exact parsedFrom_streaming h hgood
  | false =>
      obtain ⟨items, hitems⟩ := paint_other env columns streaming nowMs hmarkdown
      rw [paintSource, hmarkdown, hitems]
      exact h

/-- What is painted of a message that is no longer streaming. -/
def purePaint (env : Env) (call : PaintCall) : List PaintItem :=
  (paintMessageUncached env ⟨[], fun _ => none⟩ call.message (max 20 call.columns) false call.nowMs).2

/-- It does not depend on the streams. -/
theorem paint_done (env : Env) (s : Markdown) (message : ChatMessage) (columns : Nat) (nowMs : Int) :
    (paintMessageUncached env s.bare message columns false nowMs).2 =
      (paintMessageUncached env ⟨[], fun _ => none⟩ message columns false nowMs).2 := by
  cases hmarkdown : paintsMarkdown message with
  | true =>
      have hlines (s : Markdown) (h : Good env.lex s message.text) :
          (parseMarkdownStreaming env.lex s message.text ("msg-" ++ toString message.id) false).2 =
            parseMarkdown env.lex message.text := (parseMarkdownStreaming_done h (streamKeyOf message)).1
      rw [paint_markdown hmarkdown, paint_markdown hmarkdown, paintAgent, paintAgent]
      dsimp only
      rw [hlines s.bare good_bare, hlines ⟨[], fun _ => none⟩ (good_bare (s := ⟨[], fun _ => none⟩))]
  | false =>
      obtain ⟨items, hitems⟩ := paint_other env columns false nowMs hmarkdown
      rw [hitems, hitems]

theorem streamStates_paint_done :
    (paintMessageUncached env s message columns false nowMs).1.streamStates =
      if paintsMarkdown message then (s.setStream (streamKeyOf message) none).streamStates else s.streamStates := by
  cases hmarkdown : paintsMarkdown message with
  | true =>
      rw [paint_markdown hmarkdown, if_pos rfl, paintAgent]
      dsimp only
      rw [parseMarkdownStreaming, if_pos Bool.not_false, streamStates_cachedParse, streamKeyOf]
  | false =>
      obtain ⟨items, hitems⟩ := paint_other env columns false nowMs hmarkdown
      rw [hitems, if_neg Bool.false_ne_true]

theorem streamStates_paint_other {key : String} (hkey : key ≠ streamKeyOf message) :
    (paintMessageUncached env s message columns streaming nowMs).1.streamStates key = s.streamStates key := by
  cases hmarkdown : paintsMarkdown message with
  | true =>
      rw [paint_markdown hmarkdown]
      exact streamStates_other hkey
  | false =>
      obtain ⟨items, hitems⟩ := paint_other env columns streaming nowMs hmarkdown
      rw [hitems]

/-- Only what is painted as Markdown ends in the gap of an agent's message. -/
theorem paint_gap (env : Env) (s : Markdown) (message : ChatMessage) (columns : Nat) (streaming : Bool) (nowMs : Int) :
    ∃ items gap, (paintMessageUncached env s message columns streaming nowMs).2 = items ++ [blankItem gap] ∧
    (gap.toList.head? = some 'a' ↔ paintsMarkdown message = true) := by
  have hhead (before : String) (rest : String) (c : Char) (more : List Char) (h : before.toList = c :: more) :
      (before ++ rest).toList.head? = some c := by
    rw [String.toList_append, h]
    rfl
  have hother (items : List PaintItem) (before : String) (c : Char) (more : List Char) (h : before.toList = c :: more)
      (hc : c ≠ 'a') : ∃ items' gap, items ++ [blankItem (before ++ toString message.id)] = items' ++ [blankItem gap] ∧
        (gap.toList.head? = some 'a' ↔ false = true) := by
    refine ⟨items, _, rfl, ?_⟩
    rw [hhead before _ c more h]
    exact ⟨fun heq => absurd (Option.some.inj heq) hc, fun heq => absurd heq Bool.false_ne_true⟩
  cases hmarkdown : paintsMarkdown message with
  | true =>
      rw [paint_markdown hmarkdown]
      refine ⟨_, _, rfl, ?_⟩
      rw [hhead "agent-gap-" _ 'a' _ rfl]
      exact iff_of_true rfl rfl
  | false =>
      rw [paintsMarkdown] at hmarkdown
      rw [paintMessageUncached]
      cases hfrom : message.from' with
      | tool =>
          cases htool : message.tool with
          | some tool => exact hother _ "tool-gap-" 't' _ rfl (by decide)
          | none => rw [hfrom, htool] at hmarkdown; cases hmarkdown
      | agent => rw [hfrom] at hmarkdown; cases hmarkdown
      | system =>
          dsimp only
          rw [paintSystem]
          cases message.verification with
          | some report => exact hother _ "verify-gap-" 'v' _ rfl (by decide)
          | none => exact hother _ "sys-gap-" 's' _ rfl (by decide)
      | user => exact hother _ "user-gap-" 'u' _ rfl (by decide)
      | thinking =>
          dsimp only
          rw [paintThinking, ← List.cons_append]
          exact hother _ "th-gap-" 't' _ rfl (by decide)

theorem paintsMarkdown_of_same {call old : PaintCall} (h : purePaint env old = purePaint env call) :
    paintsMarkdown old.message = paintsMarkdown call.message := by
  obtain ⟨items, gap, hitems, hgap⟩ := paint_gap env ⟨[], fun _ => none⟩ call.message (max 20 call.columns) false
    call.nowMs
  obtain ⟨oldItems, oldGap, holdItems, holdGap⟩ := paint_gap env ⟨[], fun _ => none⟩ old.message (max 20 old.columns)
    false old.nowMs
  rw [purePaint, purePaint, hitems, holdItems] at h
  have hgaps : blankItem oldGap = blankItem gap := (List.cons.inj (List.append_inj' h rfl).2).1
  have hkey : oldGap = gap := congrArg PaintItem.key hgaps
  rw [Bool.eq_iff_iff, ← hgap, ← holdGap, hkey]

end Painting

section Runs

/-- What is asked of the caches: to paint a message, or to parse a text. -/
inductive Ask
  | paint (call : PaintCall)
  | parse (source : Text)

inductive Answer
  | items (items : List PaintItem)
  | lines (lines : List MdLine)

def ask (env : Env) (p : Painter) : Ask → Painter × Answer
  | .paint call => ((paint env p call).1, .items (paint env p call).2)
  | .parse source =>
    (⟨(cachedParseMarkdown env.lex p.markdown source).1, p.cache⟩, .lines (cachedParseMarkdown env.lex p.markdown source).2)

/-- The same without any cache; there is no more to it than the streams. -/
def askPlain (env : Env) (streams : String → Option StreamParseState) : Ask → (String → Option StreamParseState) × Answer
  | .paint call =>
    let (s, items) :=
      paintMessageUncached env ⟨[], streams⟩ call.message (max 20 call.columns) call.streaming call.nowMs
    (s.streamStates, .items items)
  | .parse source => (streams, .lines (parseMarkdown env.lex source))

def answers {S : Type} (next : S → Ask → S × Answer) : S → List Ask → List Answer
  | _, [] => []
  | s, a :: asks => (next s a).2 :: answers next (next s a).1 asks

/-- What has been asked for last: by message, and by the key of a text. -/
structure Asked where
  painted : Nat → Option PaintCall
  parsed : Text → Option Text

/-- The text that is looked up in the cache of parsed texts. -/
def sourceOf (env : Env) (p : Painter) : Ask → Option Text
  | .paint call =>
    if (cached env p call).isSome then none else paintSource env p.markdown call.message call.streaming
  | .parse source => some source

def remember (env : Env) (s : Painter × Asked) (a : Ask) : Painter × Asked :=
  ((ask env s.1 a).1, {
    painted := match a with
      | .paint call => fun id => if id = call.message.id then some call else s.2.painted id
      | .parse _ => s.2.painted
    parsed := lookAgain s.2.parsed (sourceOf env s.1 a) })

/-- Where a cache answers, what was last asked for under the same key is parsed, or painted, alike. -/
def Alike (env : Env) (s : Painter × Asked) (a : Ask) : Prop :=
  (∀ source ∈ sourceOf env s.1 a, (s.1.markdown.parseCache.lookup (parseCacheKey source)).isSome →
      ∀ old ∈ s.2.parsed (parseCacheKey source), parseMarkdown env.lex old = parseMarkdown env.lex source) ∧
    ∀ call, a = .paint call → (cached env s.1 call).isSome →
      ∀ old ∈ s.2.painted call.message.id, purePaint env old = purePaint env call

/-- What is kept of a message was painted from the call that asked for it last. -/
def PaintedFrom (env : Env) (painted : Nat → Option PaintCall) (id : Nat) (entry : CacheEntry) : Prop :=
  ∃ old, painted id = some old ∧ entry.fingerprint = paintFingerprint env old.message old.streaming ∧
    entry.columns = max 20 old.columns ∧ (old.streaming = false → entry.items = purePaint env old)

/-- The caches have what would be computed anew, and the streams are those of the run without caches. -/
structure Sound (env : Env) (s : Painter × Asked) (plain : String → Option StreamParseState) : Prop where
  streams : s.1.markdown.streamStates = plain
  parsed : ParsedFrom env.lex s.2.parsed s.1.markdown
  painted : s.1.Keeps (PaintedFrom env s.2.painted)
  ended : ∀ id old, s.2.painted id = some old → old.streaming = false → paintsMarkdown old.message = true →
    plain ("msg-" ++ toString id) = none

variable {env : Env} {s : Painter × Asked} {plain : String → Option StreamParseState} {call : PaintCall} {source : Text}

theorem good_of_alike (h : ParsedFrom env.lex s.2.parsed s.1.markdown)
    (halike : (s.1.markdown.parseCache.lookup (parseCacheKey source)).isSome →
      ∀ old ∈ s.2.parsed (parseCacheKey source), parseMarkdown env.lex old = parseMarkdown env.lex source) :
    Good env.lex s.1.markdown source := by
  intro lines hlookup
  obtain ⟨l, more, hsplit, -⟩ := List.lookup_eq_some_iff.mp hlookup
  have hmem : (parseCacheKey source, lines) ∈ s.1.markdown.parseCache := by
    rw [hsplit]
    exact List.mem_append_right l List.mem_cons_self
  obtain ⟨old, hold, hlines⟩ := h _ _ hmem
  exact hlines.trans (halike (by rw [hlookup]; rfl) old hold)

theorem streaming_of_fingerprint {message other : ChatMessage} {streaming streaming' : Bool}
    (h : paintFingerprint env message streaming = paintFingerprint env other streaming') : streaming = streaming' := by
  have hlast := congrArg List.getLast? h
  rw [paintFingerprint, paintFingerprint] at hlast
  cases streaming <;> cases streaming' <;> first | rfl | simp at hlast

/-- A text is parsed as without the cache. -/
theorem parse_sound (h : Sound env s plain) (halike : Alike env s (.parse source)) :
    (ask env s.1 (.parse source)).2 = (askPlain env plain (.parse source)).2 ∧
      Sound env (remember env s (.parse source)) (askPlain env plain (.parse source)).1 := by
  have hgood := good_of_alike h.parsed (halike.1 source rfl)
  refine ⟨congrArg Answer.lines (cachedParse_of_good hgood), ?_, ?_, h.painted, h.ended⟩
  · exact streamStates_cachedParse.trans h.streams
  · exact parsedFrom_cachedParse h.parsed hgood

theorem cached_done {entry : CacheEntry} (h : cached env s.1 call = some entry) : call.streaming = false := by
  rw [cached] at h
  split_ifs at h with hstreaming
  exact eq_false_of_ne_true hstreaming

theorem askPlain_done (h : call.streaming = false) :
    (askPlain env plain (.paint call)).2 = .items (purePaint env call) := by
  rw [askPlain, h]
  exact congrArg Answer.items (paint_done env ⟨[], plain⟩ call.message (max 20 call.columns) call.nowMs)

/-- The stream of a message that is painted as Markdown and no longer streaming is over. -/
theorem ended_remember (h : Sound env s plain) : ∀ id old, (remember env s (.paint call)).2.painted id = some old →
    old.streaming = false → paintsMarkdown old.message = true →
      (askPlain env plain (.paint call)).1 ("msg-" ++ toString id) = none := by
  intro id old hold hstreaming hmarkdown
  rw [askPlain]
  dsimp only
  by_cases hid : id = call.message.id
  · have hcall : old = call := (Option.some.inj ((if_pos hid).symm.trans hold)).symm
    rw [hcall] at hstreaming hmarkdown
    rw [hstreaming, streamStates_paint_done, if_pos hmarkdown, hid]
    exact if_pos rfl
  · have hkey : "msg-" ++ toString id ≠ streamKeyOf call.message := by
      intro hkey
      have hread (n : Nat) : keyId "msg-" "" ("msg-" ++ toString n) = some n := keyId_eq_end String.toList_append
      have hids : some id = some call.message.id := (hread id).symm.trans (hkey ▸ hread call.message.id)
      exact hid (Option.some.inj hids)
    rw [streamStates_paint_other hkey]
    exact h.ended id old ((if_neg hid).symm.trans hold) hstreaming hmarkdown

/-- What the paint cache has for a call is what would be painted. -/
theorem hit_sound {entry : CacheEntry} (h : Sound env s plain) (halike : Alike env s (.paint call))
    (hhit : cached env s.1 call = some entry) : entry.items = purePaint env call ∧
      (paintsMarkdown call.message = true → plain (streamKeyOf call.message) = none) := by
  obtain ⟨hentry, hfingerprint, -⟩ := cached_spec hhit
  obtain ⟨old, hold, holdFingerprint, -, hitems⟩ := h.painted _ _ hentry
  have hstreaming : old.streaming = false :=
    (streaming_of_fingerprint (holdFingerprint.symm.trans hfingerprint)).trans (cached_done hhit)
  have hsame : purePaint env old = purePaint env call := halike.2 call rfl (by rw [hhit]; rfl) old hold
  refine ⟨(hitems hstreaming).trans hsame, fun hmarkdown => ?_⟩
  exact h.ended _ old hold hstreaming ((paintsMarkdown_of_same hsame).trans hmarkdown)

theorem setStream_none {streams : String → Option StreamParseState} {key : String} (h : streams key = none) :
    ((⟨[], streams⟩ : Markdown).setStream key none).streamStates = streams := by
  funext other
  by_cases hkey : other = key
  · rw [hkey, h]
    exact if_pos rfl
  · exact if_neg hkey

theorem paint_hit_sound {entry : CacheEntry} (h : Sound env s plain) (halike : Alike env s (.paint call))
    (hhit : cached env s.1 call = some entry) :
    (ask env s.1 (.paint call)).2 = (askPlain env plain (.paint call)).2 ∧
      Sound env (remember env s (.paint call)) (askPlain env plain (.paint call)).1 := by
  obtain ⟨hitems, hended⟩ := hit_sound h halike hhit
  obtain ⟨hentry, hfingerprint, hcolumns⟩ := cached_spec hhit
  have hdone := cached_done hhit
  have hplain : (askPlain env plain (.paint call)).1 = plain := by
    rw [askPlain, hdone]
    dsimp only
    rw [streamStates_paint_done]
    split_ifs with hmarkdown
    · exact setStream_none (hended hmarkdown)
    · rfl
  have hafter : (ask env s.1 (.paint call)).1 = ⟨s.1.markdown, s.1.cache.at (max 20 call.columns)⟩ := by
    rw [ask, paint_hit hhit]
  refine ⟨?_, ?_, ?_, ?_, ended_remember h⟩
  · rw [askPlain_done hdone, ask, paint_hit hhit, hitems]
  · rw [hplain, remember, hafter]
    exact h.streams
  · have hsource : sourceOf env s.1 (.paint call) = none := by
      rw [sourceOf, hhit]
      rfl
    rw [remember, hafter, hsource]
    exact h.parsed
  · intro id other hother
    rw [remember, hafter] at hother
    by_cases hid : id = call.message.id
    · subst hid
      have hsame : other = entry := Option.some.inj (Eq.trans (mem_at hother).symm hentry)
      rw [hsame]
      exact ⟨call, if_pos rfl, hfingerprint, hcolumns, fun _ => hitems⟩
    · obtain ⟨old, hold, hrest⟩ := h.painted id other (mem_at hother)
      exact ⟨old, (if_neg hid).trans hold, hrest⟩

theorem paint_miss_sound (h : Sound env s plain) (halike : Alike env s (.paint call)) (hmiss : cached env s.1 call = none) :
    (ask env s.1 (.paint call)).2 = (askPlain env plain (.paint call)).2 ∧
      Sound env (remember env s (.paint call)) (askPlain env plain (.paint call)).1 := by
  have hsource : sourceOf env s.1 (.paint call) = paintSource env s.1.markdown call.message call.streaming := by
    rw [sourceOf, hmiss]
    rfl
  have hgood : ∀ looked ∈ paintSource env s.1.markdown call.message call.streaming, Good env.lex s.1.markdown looked :=
    fun looked hlooked => good_of_alike h.parsed (halike.1 looked (hsource ▸ hlooked))
  have hbare : s.1.markdown.bare = ⟨[], plain⟩ := by rw [Markdown.bare, h.streams]
  obtain ⟨hitems, hstreams⟩ := paintUncached_of_good (max 20 call.columns) call.nowMs hgood
  rw [hbare] at hitems hstreams
  have hafter : (ask env s.1 (.paint call)).1 =
      ⟨(uncached env s.1 call).1, (s.1.cache.at (max 20 call.columns)).store call.message.id (kept env s.1 call)⟩ := by
    rw [ask, paint_miss hmiss]
  refine ⟨?_, ?_, ?_, ?_, ended_remember h⟩
  · rw [ask, paint_miss hmiss]
    exact congrArg Answer.items hitems
  · rw [remember, hafter]
    exact hstreams
  · rw [remember, hafter, hsource]
    exact parsedFrom_paint h.parsed hgood
  · intro id entry hentry
    rw [remember, hafter] at hentry
    by_cases hid : id = call.message.id
    · have hsame : entry = kept env s.1 call := (Option.some.inj ((if_pos hid).symm.trans hentry)).symm
      rw [hsame]
      refine ⟨call, if_pos hid, rfl, rfl, fun hdone => ?_⟩
      rw [hdone] at hitems
      have hkept : (kept env s.1 call).items = (paintMessageUncached env ⟨[], plain⟩ call.message (max 20 call.columns)
          false call.nowMs).2 := by
        rw [kept, uncached, hdone]
        exact hitems
      exact hkept.trans (paint_done env ⟨[], plain⟩ call.message (max 20 call.columns) call.nowMs)
    · have hbefore : entry ∈ s.1.cache.entries id := mem_at ((if_neg hid).symm.trans hentry)
      obtain ⟨old, hold, hrest⟩ := h.painted id entry hbefore
      exact ⟨old, (if_neg hid).trans hold, hrest⟩

theorem ask_sound {a : Ask} (h : Sound env s plain) (halike : Alike env s a) :
    (ask env s.1 a).2 = (askPlain env plain a).2 ∧ Sound env (remember env s a) (askPlain env plain a).1 := by
  cases a with
  | parse source => exact parse_sound h halike
  | paint call =>
      cases hcached : cached env s.1 call with
      | some entry => exact paint_hit_sound h halike hcached
      | none => exact paint_miss_sound h halike hcached

theorem answers_eq {asks : List Ask} (h : Sound env s plain) (halike : Run.Along (remember env) (Alike env) s asks) :
    answers (ask env) s.1 asks = answers (askPlain env) plain asks := by
  induction asks generalizing s plain with
  | nil => rfl
  | cons a asks ih =>
      obtain ⟨ha, hasks⟩ := Run.along_cons.mp halike
      obtain ⟨hanswer, hsound⟩ := ask_sound h ha
      rw [answers, answers, hanswer]
      exact congrArg _ (ih hsound hasks)

def Asked.start : Painter × Asked := (.start, ⟨fun _ => none, fun _ => none⟩)

theorem sound_start : Sound env Asked.start fun _ => none :=
  ⟨rfl, fun _ _ h => absurd h List.not_mem_nil, keeps_start, fun _ _ h => nomatch h⟩

def askedOf (text : Text) : PaintCall := ⟨⟨1, .user, text, none, none, none, none, false⟩, 40, false, 0⟩

theorem sourceOf_other {p : Painter} (h : paintsMarkdown call.message = false) : sourceOf env p (.paint call) = none := by
  rw [sourceOf, paintSource, h]
  exact ite_self none

end Runs

section Recurring

variable {env : Env} {p : Painter} {call next : PaintCall}

/-- A call with nothing else for its message's fingerprint and width is answered with what was painted before it. -/
theorem cached_afterPaint (h : cached env p call = none) (hdone : next.streaming = false)
    (hid : next.message.id = call.message.id) (hcolumns : max 20 next.columns = max 20 call.columns)
    (hfingerprint : paintFingerprint env next.message next.streaming = paintFingerprint env call.message call.streaming) :
    cached env (afterPaint env p call) next = some (kept env p call) := by
  have hwidth : ((p.cache.at (max 20 call.columns)).store call.message.id (kept env p call)).columns = max 20 call.columns := by
    rw [MessagePaintCache.store, MessagePaintCache.at]
    split_ifs with hsame
    · rfl
    · exact (not_not.mp hsame).symm
  rw [cached, hdone, if_neg Bool.false_ne_true, afterPaint, paint_miss h, MessagePaintCache.at, hcolumns, hwidth,
    if_neg (not_not.mpr rfl), MessagePaintCache.hit, MessagePaintCache.store, hid]
  dsimp only
  rw [if_pos rfl, ← hdone, hfingerprint]
  simp [kept]

/-- What stands behind the first segment of each row. -/
def shownText (items : List PaintItem) : Text := items.flatMap fun item => SoftWrap.plain (item.segments.drop 1)

theorem shownText_user {message : ChatMessage} {columns : Nat} (hne : withoutPrompt message.text ≠ []) :
    shownText (paintUser message columns) = withoutPrompt message.text := by
  have hrows (key : Nat → String) (before : Nat → PaintSegment) (rows : List (List PaintSegment)) :
      shownText (prefixedItems key (fun w => [before w]) rows) = rows.flatMap SoftWrap.plain := by
    rw [shownText, prefixedItems, List.flatMap_map]
    calc (rows.zipIdx.flatMap fun row => SoftWrap.plain row.1)
        = (rows.zipIdx.map Prod.fst).flatMap SoftWrap.plain := (List.flatMap_map ..).symm
      _ = rows.flatMap SoftWrap.plain := by rw [List.zipIdx_map_fst]
  have hwidth (width : Nat) : 0 < max 1 width := Nat.lt_of_lt_of_le Nat.one_pos (Nat.le_max_left 1 width)
  have htext (width : Nat) : (wrapPaintSegments [boldSegment "#c084fc" (withoutPrompt message.text)] width).flatMap
      SoftWrap.plain = withoutPrompt message.text := by
    have hplain : SoftWrap.plain [boldSegment "#c084fc" (withoutPrompt message.text)] = withoutPrompt message.text :=
      List.append_nil _
    rcases SoftWrap.wrap_text (hwidth width) (blank_width_le width)
      [boldSegment "#c084fc" (withoutPrompt message.text)] with hwrap | ⟨hempty, -⟩
    · exact hwrap.trans hplain
    · exact absurd (hplain.symm.trans hempty) hne
  have happend (items more : List PaintItem) : shownText (items ++ more) = shownText items ++ shownText more :=
    List.flatMap_append
  rw [paintUser, happend, hrows _ (fun w => if w = 0 then boldSegment "#c084fc" promptPrefix
    else colorSegment "#c084fc" (spaces (displayWidth promptPrefix))), htext]
  exact List.append_nil _

def recurring (c : Char) : Text := List.replicate 24 'a' ++ c :: List.replicate 24 'a'

end Recurring

end Kross.Tui

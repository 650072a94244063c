import Kross.Context.ConversationThread
import Mathlib.Algebra.GroupWithZero.Nat

namespace Kross.Context

open ConversationThread

structure ContextPolicy where
  toolResultQuota : Nat
  preserveFullTurns : Nat
  preserveRecentTokens : Nat
  preserveToolIterations : Nat
  maxToolResultTokens : Nat

structure SummarizeTurnInput where
  turnId : String
  entries : List ThreadEntry

structure EntryRange where
  turnId : String
  start : Nat
  stop : Nat
  tokens : Nat

structure CompactionSelection where
  entryCount : Nat
  turns : List SummarizeTurnInput
  previousSummary : Text

def LlmMessage.content : LlmMessage → Text
  | .chat _ content _ => content
  | .tool _ _ content => content

def tokensOf (entries : List ThreadEntry) : Nat := (entries.map ThreadEntry.tokensEst).sum

def estimateThreadTokens (t : ConversationThread) : Nat := tokensOf t.entries

section Ranges

variable (t : ConversationThread)

def isClosed (turnId : String) : Bool :=
  t.getTurnStatus turnId = some .committed || t.getTurnStatus turnId = some .aborted

/-- The runs of entries of one turn, from the position `start` on; the turn is closed and the
run is more than compactions. -/
def rangesFrom : Nat → Nat → List ThreadEntry → List EntryRange
  | 0, _, _ => []
  | _, _, [] => []
  | fuel + 1, start, e :: entries =>
      let run := e :: entries.takeWhile (fun d => d.turnId = e.turnId)
      let rest := rangesFrom fuel (start + run.length) (entries.dropWhile (fun d => d.turnId = e.turnId))
      if some e.turnId ≠ t.openTurnId ∧ run.any (fun d => d.kind ≠ .compaction) ∧ isClosed t e.turnId then
        ⟨e.turnId, start, start + run.length, tokensOf run⟩ :: rest
      else rest

def getCompactableRanges : List EntryRange := rangesFrom t t.entries.length 0 t.entries

end Ranges

section Select

/-- The prefix is what it replaces: the earlier summaries, and the entries by turn. -/
def buildCompactionSelection (entries : List ThreadEntry) (entryCount : Nat) : Option CompactionSelection :=
  if entryCount = 0 then none
  else
    let taken := entries.take entryCount
    let previousSummaries := ((taken.filter (fun e => e.kind = .compaction)).map
      (fun e => extractCompactionBody e.message.content)).filter (fun s => !s.isEmpty)
    let others := taken.filter (fun e => e.kind ≠ .compaction)
    let turns := (others.map ThreadEntry.turnId).eraseDups.map
      (fun turnId => ⟨turnId, others.filter (fun e => e.turnId = turnId)⟩)
    if turns.isEmpty && previousSummaries.isEmpty then none
    else some { entryCount, turns, previousSummary := ['\n', '\n'].intercalate previousSummaries }

def selectManualPrefix (t : ConversationThread) (preserveFullTurns : Nat) : Option CompactionSelection :=
  let ranges := getCompactableRanges t
  if ranges.length ≤ preserveFullTurns then none
  else
    let entryCount := match ranges[ranges.length - preserveFullTurns]? with
      | some firstPreserved => firstPreserved.start
      | none => (ranges.getLast?.map EntryRange.stop).getD 0
    buildCompactionSelection t.entries entryCount

def isAssistant (e : ThreadEntry) : Bool := e.kind = .assistant && e.message.role = some .assistant

def findSafeSuffixStart (entries : List ThreadEntry) (range : EntryRange) (tokenBudget : Nat) : Option Nat :=
  (List.range' (range.start + 1) (range.stop - (range.start + 1))).find? (fun index =>
    entries[index]?.any isAssistant && tokensOf ((entries.take range.stop).drop index) ≤ tokenBudget)

/-- The ranges come from the last one on. -/
def automaticBoundary (entries : List ThreadEntry) (tokenBudget : Nat) (retainedTokens boundary : Nat) :
    List EntryRange → Nat
  | [] => boundary
  | range :: ranges =>
      if retainedTokens + range.tokens ≤ tokenBudget then
        automaticBoundary entries tokenBudget (retainedTokens + range.tokens) range.start ranges
      else if retainedTokens = 0 then (findSafeSuffixStart entries range tokenBudget).getD range.start
      else range.stop

def selectAutomaticPrefix (t : ConversationThread) (preserveRecentTokens : Nat) : Option CompactionSelection :=
  let ranges := getCompactableRanges t
  match ranges.getLast? with
  | none => none
  | some last => buildCompactionSelection t.entries
      (automaticBoundary t.entries (max 1 preserveRecentTokens) 0 last.stop ranges.reverse)

end Select

section Compact

variable (estimateMessage : LlmMessage → Nat)

/-- `t` is the thread when the summary is there; `none` is a summarizer that throws, or an
abort of the signal. -/
def compactPrefix (t : ConversationThread) (selection : CompactionSelection) (summary : Option Text) :
    ConversationThread :=
  match summary with
  | none => t
  | some summary => t.replacePrefixWithCompaction estimateMessage selection.entryCount summary

/-- The prefix is chosen in `t`, and `t'` is the thread when the summary is there. -/
def compactTurnsNow (policy : ContextPolicy) (t t' : ConversationThread) (summary : CompactionSelection → Option Text) :
    ConversationThread :=
  match selectManualPrefix t policy.preserveFullTurns with
  | none => t'
  | some selection => compactPrefix estimateMessage t' selection (summary selection)

def applyTurnCompaction (policy : ContextPolicy) (budget : Int) (t t' : ConversationThread)
    (summary : CompactionSelection → Option Text) : ConversationThread :=
  if estimateThreadTokens t ≤ budget then t'
  else match selectAutomaticPrefix t (min policy.preserveRecentTokens budget.toNat) with
    | none => t'
    | some selection => compactPrefix estimateMessage t' selection (summary selection)

end Compact

end Kross.Context

import Kross.LabelledRuns
import Kross.Session.Title

namespace Kross.Worker.StreamSegments

open LabelledRuns

abbrev Text := List Char

inductive Sender
  | user | agent | system | tool | thinking
  deriving DecidableEq

/-- The tool record of a message is its call. -/
structure StoredSessionMessage where
  id : Nat
  sender : Sender
  text : Text
  callId : Option String := none
  deriving DecidableEq

inductive Status
  | completed | failed | cancelled | approvalRequired
  deriving DecidableEq

structure AgentResult where
  status : Status
  summary : Text
  deriving DecidableEq

inductive AgentRunStreamEvent
  | turnStart
  | toolsStart
  | textDelta (text : Text)
  | thinkingDelta (text : Text)
  | result (result : AgentResult)
  deriving DecidableEq

inductive Kind
  | agent | thinking
  deriving DecidableEq

def Kind.sender : Kind → Sender
  | .agent => .agent
  | .thinking => .thinking

/-- `messages` are those the store has of the session, in their order. -/
structure ActiveSession where
  nextMessageId : Nat
  toolMessages : List (String × StoredSessionMessage)
  messages : List StoredSessionMessage
  deriving DecidableEq

def upsert (m : StoredSessionMessage) (messages : List StoredSessionMessage) : List StoredSessionMessage :=
  if messages.any (fun x => x.id = m.id) then messages.map (fun x => if x.id = m.id then m else x)
  else messages ++ [m]

namespace ActiveSession

def upsertMessage (m : StoredSessionMessage) (s : ActiveSession) : ActiveSession :=
  { s with messages := upsert m s.messages }

def persistMessage (sender : Sender) (text : Text) (s : ActiveSession) : StoredSessionMessage × ActiveSession :=
  let message : StoredSessionMessage := { id := s.nextMessageId, sender, text }
  (message, { s with nextMessageId := s.nextMessageId + 1 }.upsertMessage message)

/-- The trace of a tool call; the call has one message, which each trace of it rewrites. -/
def persistToolTrace (callId : String) (text : Text) (s : ActiveSession) : ActiveSession :=
  match s.toolMessages.lookup callId with
  | some previous =>
      let message : StoredSessionMessage := { id := previous.id, sender := .tool, text, callId := some callId }
      { s with toolMessages := (callId, message) :: s.toolMessages }.upsertMessage message
  | none =>
      let message : StoredSessionMessage := { id := s.nextMessageId, sender := .tool, text, callId := some callId }
      { s with
        nextMessageId := s.nextMessageId + 1
        toolMessages := (callId, message) :: s.toolMessages }.upsertMessage message

def restoredToolMessages (messages : List StoredSessionMessage) : List (String × StoredSessionMessage) :=
  (messages.filterMap (fun m => m.callId.map (fun callId => (callId, m)))).reverse

/-- The session of a runtime that begins with the messages the store has. -/
def opened (messages : List StoredSessionMessage) : ActiveSession :=
  { nextMessageId := (messages.map StoredSessionMessage.id).foldr max 0 + 1
    toolMessages := restoredToolMessages messages
    messages }

end ActiveSession

structure Consumer where
  session : ActiveSession
  segmentFrom : Option Kind
  segmentText : Text
  segmentMessage : Option StoredSessionMessage
  hasAgentText : Bool
  finalResult : Option AgentResult
  deriving DecidableEq

namespace Consumer

def start (session : ActiveSession) : Consumer := ⟨session, none, [], none, false, none⟩

def flushSegment (c : Consumer) : Consumer :=
  { c with
    session := match c.segmentMessage with
      | some m => if m.text ≠ c.segmentText then c.session.upsertMessage { m with text := c.segmentText } else c.session
      | none => c.session
    segmentFrom := none
    segmentText := []
    segmentMessage := none }

/-- A delta that finds its segment open, or no segment. -/
def extend (kind : Kind) (text : Text) (c : Consumer) : Consumer :=
  if c.segmentMessage = none ∧ text ≠ [] then
    let (message, session) := c.session.persistMessage kind.sender text
    { c with
      session
      segmentFrom := some kind
      segmentText := text
      segmentMessage := some message
      hasAgentText := c.hasAgentText || kind = .agent }
  else { c with segmentText := c.segmentText ++ text }

def delta (kind : Kind) (text : Text) (c : Consumer) : Consumer :=
  if c.segmentFrom ≠ some kind then c.flushSegment.extend kind text else c.extend kind text

def consume (c : Consumer) : AgentRunStreamEvent → Consumer
  | .textDelta text => c.delta .agent text
  | .thinkingDelta text => c.delta .thinking text
  | .turnStart | .toolsStart => c.flushSegment
  | .result result => { c.flushSegment with finalResult := some result }

/-- What stands after the loop. -/
def finish (c : Consumer) : ActiveSession :=
  let c := c.flushSegment
  match c.finalResult with
  | some result =>
      if !c.hasAgentText && Session.trim result.summary ≠ [] then
        (c.session.persistMessage (if result.status = .approvalRequired then .system else .agent) result.summary).2
      else c.session
  | none => c.session

end Consumer

/-- The runtime stores the traces of its tools between two events of the stream. -/
inductive Step
  | event (event : AgentRunStreamEvent)
  | toolTrace (callId : String) (text : Text)
  deriving DecidableEq

def next (c : Consumer) : Step → Consumer
  | .event event => c.consume event
  | .toolTrace callId text => { c with session := c.session.persistToolTrace callId text }

inductive Ending
  | normal
  | thrown
  deriving DecidableEq

def consumeStream (session : ActiveSession) (steps : List Step) (ending : Ending) : ActiveSession :=
  let c := steps.foldl next (.start session)
  match ending with
  | .normal => c.finish
  | .thrown => c.session

section Specification

namespace AgentRunStreamEvent

/-- A delta belongs to a run of its kind, every other event ends the run before it. -/
def kind : AgentRunStreamEvent → Option Kind
  | .textDelta _ => some .agent
  | .thinkingDelta _ => some .thinking
  | _ => none

def text : AgentRunStreamEvent → Text
  | .textDelta text | .thinkingDelta text => text
  | _ => []

def result? : AgentRunStreamEvent → Option AgentResult
  | .result outcome => some outcome
  | _ => none

end AgentRunStreamEvent

open AgentRunStreamEvent

abbrev SegmentRun := Kind × List AgentRunStreamEvent

def SegmentRun.text (run : SegmentRun) : Text := run.2.flatMap AgentRunStreamEvent.text

/-- The deltas of a run that have text. -/
def SegmentRun.worded (run : SegmentRun) : List Text :=
  (run.2.map AgentRunStreamEvent.text).filter (· ≠ [])

def SegmentRun.message (run : SegmentRun) : Option (Sender × Text) :=
  if run.text = [] then none else some (run.1.sender, run.text)

def events (steps : List Step) : List AgentRunStreamEvent :=
  steps.filterMap (fun step => match step with
    | .event event => some event
    | .toolTrace _ _ => none)

def runMessages (es : List AgentRunStreamEvent) : List (Sender × Text) := (runs kind es).filterMap SegmentRun.message

def lastResult (es : List AgentRunStreamEvent) : Option AgentResult := (es.filterMap result?).getLast?

/-- The summary of the last result, when no message of the agent stands before it. -/
def summaryMessage (es : List AgentRunStreamEvent) : List (Sender × Text) :=
  match lastResult es with
  | some outcome =>
      if (∀ said ∈ runMessages es, said.1 ≠ .agent) ∧ Session.trim outcome.summary ≠ [] then
        [(if outcome.status = .approvalRequired then .system else .agent, outcome.summary)]
      else []
  | none => []

/-- The messages that are no tool's. -/
def spoken (messages : List StoredSessionMessage) : List StoredSessionMessage :=
  messages.filter (fun m => m.sender ≠ .tool)

def said (messages : List StoredSessionMessage) : List (Sender × Text) :=
  (spoken messages).map (fun m => (m.sender, m.text))

/-- What the session had is followed by one message for each run with text and, at a
normal end, by the summary. -/
def Persisted (session : ActiveSession) (steps : List Step) (ending : Ending) : Prop :=
  said (consumeStream session steps ending).messages =
    said session.messages ++ runMessages (events steps) ++
      match ending with
      | .normal => summaryMessage (events steps)
      | .thrown => []

instance (session : ActiveSession) (steps : List Step) (ending : Ending) :
    Decidable (Persisted session steps ending) := inferInstanceAs (Decidable (_ = _))

end Specification

/-- The ids of the store are below the next one, and the ids of calls are of their messages. -/
structure ActiveSession.Valid (s : ActiveSession) : Prop where
  fresh : ∀ m ∈ s.messages, m.id < s.nextMessageId
  distinct : (s.messages.map StoredSessionMessage.id).Nodup
  calls : ∀ call ∈ s.toolMessages, call.2.id < s.nextMessageId ∧
    ∀ m ∈ s.messages, m.id = call.2.id → m.sender = .tool

end Kross.Worker.StreamSegments

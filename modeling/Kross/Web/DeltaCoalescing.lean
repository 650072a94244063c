import Kross.Coalescing
import Kross.Web.CloudState

namespace Kross.Web.UseCloud

open Coalescing Json Run

section Merging

def isStreamDelta (envelope : EventEnvelope) : Bool :=
  match envelope.event with
  | .stream (.textDelta _) => true
  | .stream (.thinkingDelta _) => true
  | _ => false

def mergeStreamDeltas (previous next : EventEnvelope) : Option EventEnvelope :=
  if previous.workspaceId ≠ next.workspaceId ∨ previous.sessionId ≠ next.sessionId then none
  else
    match previous.event, next.event with
    | .stream (.textDelta text), .stream (.textDelta more) =>
      some { next with event := .stream (.textDelta (text ++ more)) }
    | .stream (.thinkingDelta text), .stream (.thinkingDelta more) =>
      some { next with event := .stream (.thinkingDelta (text ++ more)) }
    | _, _ => none

end Merging

section Deltas

variable {s : CloudState} {toText : Value → String} {messages : List UiMessage} {sender : From} {text : String}
  {d : EventEnvelope} {uuid : String}

/-- Who speaks in a delta, and what is said. -/
def deltaOf (envelope : EventEnvelope) : Option (From × String) :=
  match envelope.event with
  | .stream (.textDelta text) => some (.agent, text)
  | .stream (.thinkingDelta text) => some (.thinking, text)
  | _ => none

theorem isStreamDelta_iff : isStreamDelta d = true ↔ ∃ sender text, deltaOf d = some (sender, text) := by
  rw [isStreamDelta, deltaOf]
  split
  next text h => exact iff_of_true rfl ⟨.agent, text, rfl⟩
  next text h => exact iff_of_true rfl ⟨.thinking, text, rfl⟩
  next => exact iff_of_false Bool.false_ne_true (fun ⟨_, _, h⟩ => nomatch h)

/-- Whether the deltas of a session are let through. -/
def shows (s : CloudState) (sessionId : Option String) : Bool :=
  match sessionId with
  | none => true
  | some sessionId => sessionId = "" || s.activeSessionId = some sessionId

theorem concerns_stream {data : StreamEvent} (h : d.event = .stream data) : concerns s d = shows s d.sessionId := by
  simp only [concerns, shows, h]
  cases d.sessionId with
  | none => rfl
  | some id => exact Bool.or_false _

theorem onEvent_stream {data : StreamEvent} (h : d.event = .stream data) :
    onEvent toText s d uuid = applyStream s data := by
  simp only [onEvent, h]

theorem reducer_delta (h : deltaOf d = some (sender, text)) :
    reducer toText s (.event d uuid) = if shows s d.sessionId then applyDelta sender text s else s := by
  rw [deltaOf] at h
  split at h
  next hd =>
    cases h
    rw [reducer, concerns_stream hd, onEvent_stream hd, applyStream]
  next hd =>
    cases h
    rw [reducer, concerns_stream hd, onEvent_stream hd, applyStream]
  next => cases h

theorem extend_streaming {last : UiMessage} (more : String) (hstreaming : last.streaming = some true)
    (hsender : last.from' = sender) :
    extendMessages sender more (messages ++ [last]) = messages ++ [{ last with text := last.text ++ more }] := by
  rw [extendMessages, List.getLast?_concat]
  dsimp only
  rw [if_pos (by simp [hstreaming, hsender]), List.dropLast_concat]

/-- The last message is extended, or a new one is begun. -/
theorem extend_cases (sender : From) (messages : List UiMessage) :
    (∃ init last, messages = init ++ [last] ∧ last.streaming = some true ∧ last.from' = sender) ∨
      ∀ text,
        extendMessages sender text messages = messages.map UiMessage.still ++ [streamingMessage sender text] := by
  rcases List.eq_nil_or_concat messages with rfl | ⟨init, last, rfl⟩
  · exact .inr fun _ => rfl
  · rw [List.concat_eq_append]
    by_cases hlast : last.streaming = some true ∧ last.from' = sender
    · exact .inl ⟨init, last, rfl, hlast⟩
    · refine .inr fun text => ?_
      rw [extendMessages, List.getLast?_concat]
      dsimp only
      rw [if_neg (by simpa using hlast)]

theorem extend_extend (text more : String) :
    extendMessages sender more (extendMessages sender text messages) =
      extendMessages sender (text ++ more) messages := by
  rcases extend_cases sender messages with ⟨init, last, rfl, hstreaming, hsender⟩ | hnew
  · have hlonger : ({ last with text := last.text ++ text } : UiMessage).streaming = some true := hstreaming
    rw [extend_streaming text hstreaming hsender, extend_streaming (text ++ more) hstreaming hsender,
      extend_streaming more hlonger hsender, String.append_assoc]
  · have hsender : (streamingMessage sender text).from' = sender := rfl
    rw [hnew, hnew, extend_streaming more rfl hsender]
    rfl

/-- A delta always ends with a message that is still streaming. -/
theorem extend_last (sender : From) (text : String) (messages : List UiMessage) :
    ∃ init last, extendMessages sender text messages = init ++ [last] ∧ last.streaming = some true := by
  rcases extend_cases sender messages with ⟨init, last, rfl, hstreaming, hsender⟩ | hnew
  · exact ⟨init, _, extend_streaming text hstreaming hsender, hstreaming⟩
  · exact ⟨_, _, hnew text, rfl⟩

theorem merge_deltas {e c : EventEnvelope} (h : mergeStreamDeltas d e = some c) :
    d.sessionId = c.sessionId ∧ e.sessionId = c.sessionId ∧ ∃ sender text more,
      deltaOf d = some (sender, text) ∧ deltaOf e = some (sender, more) ∧
        deltaOf c = some (sender, text ++ more) := by
  rw [mergeStreamDeltas] at h
  split_ifs at h with hsame
  have hsession : d.sessionId = e.sessionId := by
    by_contra hne
    exact hsame (.inr hne)
  split at h
  next text more hd he =>
    cases h
    exact ⟨hsession, rfl, .agent, text, more, by rw [deltaOf, hd], by rw [deltaOf, he], rfl⟩
  next text more hd he =>
    cases h
    exact ⟨hsession, rfl, .thinking, text, more, by rw [deltaOf, hd], by rw [deltaOf, he], rfl⟩
  next => cases h

theorem shows_applyDelta (sessionId : Option String) :
    shows (applyDelta sender text s) sessionId = shows s sessionId := rfl

/-- Two deltas that are merged are worth their merger. -/
theorem reducer_merged {e c : EventEnvelope} {first second : String} (h : mergeStreamDeltas d e = some c) :
    reducer toText s (.event c uuid) = reducer toText (reducer toText s (.event d first)) (.event e second) := by
  obtain ⟨hd, he, sender, text, more, hdelta, hnext, hmerged⟩ := merge_deltas h
  rw [reducer_delta hmerged, reducer_delta hdelta, reducer_delta hnext, hd, he]
  cases hshows : shows s c.sessionId with
  | false => rw [if_neg Bool.false_ne_true, if_neg Bool.false_ne_true, hshows, if_neg Bool.false_ne_true]
  | true =>
      rw [if_pos rfl, if_pos rfl, shows_applyDelta, hshows, if_pos rfl, applyDelta, applyDelta, applyDelta,
        extend_extend]

end Deltas

section Handler

def isLocal : Action → Bool
  | .event _ _ => false
  | _ => true

/-- What the components dispatch themselves. -/
abbrev LocalAction := { action : Action // isLocal action = true }

/-- An event that has come in; `uuid` is for the action that dispatches it. -/
structure Delivery where
  envelope : EventEnvelope
  uuid : String

/-- The event handler of useCloud with its reducer. -/
def handler (toText : Value → String) : Machine CloudState Delivery LocalAction where
  receive s delivery := reducer toText s (.event delivery.envelope delivery.uuid)
  act s action := reducer toText s action.val
  holds delivery := isStreamDelta delivery.envelope
  merge pending delivery :=
    (mergeStreamDeltas pending.envelope delivery.envelope).map fun merged => ⟨merged, delivery.uuid⟩
  holds_merge d e c h := by
    obtain ⟨merged, hmerge, rfl⟩ := Option.map_eq_some_iff.mp h
    obtain ⟨-, -, sender, text, more, -, -, hmerged⟩ := merge_deltas hmerge
    exact isStreamDelta_iff.mpr ⟨sender, text ++ more, hmerged⟩
  receive_merge s d e c h := by
    obtain ⟨merged, hmerge, rfl⟩ := Option.map_eq_some_iff.mp h
    exact reducer_merged hmerge

/-- An action writes no message on the screen where the pending delta goes, and the delta goes nowhere
else once a session or a workspace is selected. -/
def Apart (s : CloudState) (pending : Delivery) (action : LocalAction) : Prop :=
  match action.val with
  | .optimisticUser _ => shows s pending.envelope.sessionId = false
  | .localMessage _ _ => shows s pending.envelope.sessionId = false
  | .selectSession id => shows { s with activeSessionId := some id } pending.envelope.sessionId = false
  | .selectWorkspace _ => shows { s with activeSessionId := none } pending.envelope.sessionId = false
  | _ => True

variable {s : CloudState} {toText : Value → String} {sender : From} {text : String} {sessionId : Option String}

/-- What a delta does to the state. -/
def delta (sender : From) (text : String) (sessionId : Option String) (s : CloudState) : CloudState :=
  if shows s sessionId then applyDelta sender text s else s

theorem delta_hidden (h : shows s sessionId = false) : delta sender text sessionId s = s := by
  rw [delta, h, if_neg Bool.false_ne_true]

theorem delta_shown (h : shows s sessionId = true) : delta sender text sessionId s = applyDelta sender text s := by
  rw [delta, if_pos h]

/-- What changes neither the messages nor the session on the screen may pass a delta. -/
theorem delta_passed (f : CloudState → CloudState) (hactive : ∀ s, (f s).activeSessionId = s.activeSessionId)
    (hmessages : ∀ s messages, f { s with messages } = { f s with messages })
    (hkept : ∀ s, (f s).messages = s.messages) :
    f (delta sender text sessionId s) = delta sender text sessionId (f s) := by
  have hshows : shows (f s) sessionId = shows s sessionId := by
    simp only [shows, hactive]
  cases h : shows s sessionId with
  | false => rw [delta_hidden h, delta_hidden (hshows.trans h)]
  | true => rw [delta_shown h, delta_shown (hshows.trans h), applyDelta, applyDelta, hmessages, hkept]

/-- A message of one's own may pass a delta only when the delta is not shown. -/
theorem delta_message_iff (f : CloudState → CloudState) (message : UiMessage) (hstill : message.streaming = none)
    (hactive : ∀ s, (f s).activeSessionId = s.activeSessionId)
    (hmessages : ∀ s, (f s).messages = s.messages ++ [message]) :
    f (delta sender text sessionId s) = delta sender text sessionId (f s) ↔ shows s sessionId = false := by
  have hshows : shows (f s) sessionId = shows s sessionId := by
    simp only [shows, hactive]
  cases h : shows s sessionId with
  | false => exact iff_of_true (by rw [delta_hidden h, delta_hidden (hshows.trans h)]) rfl
  | true =>
      refine iff_of_false (fun heq => ?_) Bool.noConfusion
      rw [delta_shown h, delta_shown (hshows.trans h)] at heq
      have hlast : (applyDelta sender text s).messages ++ [message] = extendMessages sender text (f s).messages :=
        (hmessages _).symm.trans (congrArg CloudState.messages heq)
      obtain ⟨init, last, hinit, hstreaming⟩ := extend_last sender text (f s).messages
      rw [hinit] at hlast
      rw [(List.append_singleton_inj.mp hlast).2, hstreaming] at hstill
      cases hstill

/-- What clears the screen may pass a delta only when the delta is not shown afterwards. -/
theorem delta_cleared_iff (f : CloudState → CloudState) (hmessages : ∀ s messages, f { s with messages } = f s)
    (hcleared : ∀ s, (f s).messages = []) :
    f (delta sender text sessionId s) = delta sender text sessionId (f s) ↔ shows (f s) sessionId = false := by
  have hf : f (delta sender text sessionId s) = f s := by
    rw [delta]
    split_ifs
    · exact hmessages s _
    · rfl
  rw [hf]
  cases h : shows (f s) sessionId with
  | false => exact iff_of_true (delta_hidden h).symm rfl
  | true =>
      refine iff_of_false (fun heq => ?_) Bool.noConfusion
      rw [delta_shown h] at heq
      have hnil := congrArg CloudState.messages heq
      rw [hcleared, applyDelta, hcleared] at hnil
      cases hnil

/-- An action commutes with a pending delta exactly when it is apart from it. -/
theorem commute_iff_apart (s : CloudState) (pending : Delivery) (action : LocalAction)
    (hpending : isStreamDelta pending.envelope = true) :
    (handler toText).Commute s pending action ↔ Apart s pending action := by
  obtain ⟨sender, text, hdelta⟩ := isStreamDelta_iff.mp hpending
  have hreceive : ∀ s, (handler toText).receive s pending = delta sender text pending.envelope.sessionId s :=
    fun s => reducer_delta hdelta
  obtain ⟨action, hlocal⟩ := action
  rw [Machine.Commute, hreceive, hreceive]
  cases action with
  | event envelope uuid => cases hlocal
  | selectWorkspace id =>
      exact delta_cleared_iff (reducer toText · (.selectWorkspace id)) (fun _ _ => rfl) (fun _ => rfl)
  | selectSession id =>
      exact delta_cleared_iff (reducer toText · (.selectSession id)) (fun _ _ => rfl) (fun _ => rfl)
  | creatingSession requestId =>
      refine iff_of_true ?_ trivial
      exact delta_passed (reducer toText · (.creatingSession requestId)) (fun _ => rfl) (fun _ _ => rfl) (fun _ => rfl)
  | optimisticUser text =>
      exact delta_message_iff (reducer toText · (.optimisticUser text)) _ rfl (fun _ => rfl) (fun _ => rfl)
  | localMessage sender text =>
      exact delta_message_iff (reducer toText · (.localMessage sender text)) _ rfl (fun _ => rfl) (fun _ => rfl)
  | clearError id =>
      refine iff_of_true ?_ trivial
      exact delta_passed (reducer toText · (.clearError id)) (fun _ => rfl) (fun _ _ => rfl) (fun _ => rfl)
  | clearInspection =>
      refine iff_of_true ?_ trivial
      exact delta_passed (reducer toText · .clearInspection) (fun _ => rfl) (fun _ _ => rfl) (fun _ => rfl)
  | clearWorkspaceProgress =>
      refine iff_of_true ?_ trivial
      exact delta_passed (reducer toText · .clearWorkspaceProgress) (fun _ => rfl) (fun _ _ => rfl) (fun _ => rfl)

end Handler

section Invisible

/-- What is behind the pending delta is what a handler shows that holds nothing back, exactly as long as
every local action is apart from the delta that is pending then. -/
theorem coalescing_unseen (toText : Value → String) (s : CloudState) (inputs : List (Input Delivery LocalAction)) :
    (∀ before rest, inputs = before ++ rest →
      ((handler toText).flush (after (handler toText).next ⟨s, none⟩ before)).state =
        after (handler toText).direct s before) ↔
      Along (handler toText).next (Machine.Passes Apart) ⟨s, none⟩ inputs :=
  Machine.unseen_iff commute_iff_apart nofun

def sayA : Delivery := ⟨⟨"w", some "s", none, .stream (.textDelta "a")⟩, "uuid"⟩

/-- The user sends an input while a delta of the answer is held back. -/
theorem coalescing_overtaken :
    ¬ ∀ toText s inputs, ((handler toText).flush (after (handler toText).next ⟨s, none⟩ inputs)).state =
        after (handler toText).direct s inputs := by
  intro h
  have htexts := congrArg (fun s => s.messages.map UiMessage.text)
    (h (fun _ => "") { initialState with activeSessionId := some "s" }
      [.arrive sayA, .act ⟨.optimisticUser "b", rfl⟩])
  revert htexts
  decide

end Invisible

end Kross.Web.UseCloud

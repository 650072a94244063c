import Kross.Run
import Mathlib.Algebra.Order.Floor.Ring
import Mathlib.Data.Rat.Floor

namespace Kross.Tools

/-- What the code looks at of a thrown value. -/
structure ToolError where
  isError : Bool
  name : String
  code : Option String
  boundary : Bool
  deriving DecidableEq

def isErrorNamed (error : ToolError) (name : String) : Bool := error.isError && error.name == name

def toolTimeoutError : ToolError := ⟨true, "ToolTimeoutError", none, false⟩

def operationAbortedError : ToolError := ⟨true, "AbortError", none, false⟩

def retryableErrno : List String :=
  ["EAGAIN", "EBUSY", "ETIMEDOUT", "ECONNRESET", "ECONNREFUSED", "EPIPE", "EIO", "ENFILE", "EMFILE", "EAI_AGAIN"]

def nonRetryableErrno : List String :=
  ["ENOENT", "ENOTDIR", "EISDIR", "EEXIST", "EPERM", "EACCES", "EROFS", "EINVAL", "ENAMETOOLONG", "ELOOP"]

def isRetryableToolError (error : ToolError) : Bool :=
  if isErrorNamed error "ToolValidationError" || isErrorNamed error "ToolPermissionError" ||
      isErrorNamed error "ToolNotFoundError" then false
  else if error.boundary then false
  else if isErrorNamed error "ToolTimeoutError" then true
  else match error.code with
    | some code =>
        if code ∈ nonRetryableErrno then false
        else if code ∈ retryableErrno then true
        else error.isError
    | none => error.isError

structure ToolRetryPolicy where
  maxAttempts : ℚ
  backoffMs : Option ℚ
  backoffMultiplier : Option ℚ
  retryOn : Option (ToolError → Nat → Bool)

structure ResolvedToolRetryPolicy where
  maxAttempts : Nat
  backoffMs : ℚ
  backoffMultiplier : ℚ
  retryOn : ToolError → Nat → Bool

/-- A policy, `false`, or nothing. -/
inductive RetryOption
  | unset
  | off
  | policy (p : ToolRetryPolicy)

def RetryOption.layer : RetryOption → List ToolRetryPolicy
  | .policy p => [p]
  | .off | .unset => []

def defaultToolRetryPolicy : ResolvedToolRetryPolicy := ⟨2, 200, 2, fun error _ => isRetryableToolError error⟩

def timeoutOnlyRetryPolicy : ToolRetryPolicy :=
  ⟨2, some 200, some 2, some (fun error _ => isErrorNamed error "ToolTimeoutError")⟩

def noRetryPolicy : ResolvedToolRetryPolicy := ⟨1, 0, 1, fun _ _ => false⟩

def ResolvedToolRetryPolicy.under (resolved : ResolvedToolRetryPolicy) (layer : ToolRetryPolicy) :
    ResolvedToolRetryPolicy where
  maxAttempts := max 1 ⌊layer.maxAttempts⌋.toNat
  backoffMs := layer.backoffMs.getD resolved.backoffMs
  backoffMultiplier := layer.backoffMultiplier.getD resolved.backoffMultiplier
  retryOn := layer.retryOn.getD resolved.retryOn

def resolveToolRetryPolicy (callRetry definitionRetry gatewayRetry : RetryOption) : ResolvedToolRetryPolicy :=
  match callRetry, definitionRetry, gatewayRetry with
  | .off, _, _ | _, .off, _ | _, .unset, .off => noRetryPolicy
  | _, _, _ => (gatewayRetry.layer ++ definitionRetry.layer ++ callRetry.layer).foldl
      ResolvedToolRetryPolicy.under defaultToolRetryPolicy

def retryBackoffMs (policy : ResolvedToolRetryPolicy) (failedAttempt : Nat) : Nat :=
  ⌊policy.backoffMs * policy.backoffMultiplier ^ (failedAttempt - 1) + 1 / 2⌋.toNat

end Kross.Tools

namespace Kross.Tools.CallAttempts

inductive ToolApprovalAction
  | allow
  | ask
  | deny
  deriving DecidableEq

/-- `inspected` is what the policy says of the parsed input; there is none for a tool that is
not registered or an input that it does not accept. -/
structure ToolCall where
  inspected : Option ToolApprovalAction
  approved : Bool
  timeoutMs : Option Nat
  definitionRetry : RetryOption
  callRetry : RetryOption

structure GatewayOptions where
  defaultTimeoutMs : Option Nat
  defaultRetry : RetryOption

/-- One `execute` of a tool: whether its promise is settled and its signal aborted. -/
structure Invocation where
  id : Nat
  settled : Bool
  signalled : Bool
  deriving DecidableEq

structure Attempt where
  policy : ResolvedToolRetryPolicy
  timeoutMs : Option Nat
  number : Nat

inductive Phase
  | between
  | starting (a : Attempt)
  | racing (a : Attempt) (winner : Option (Except ToolError Unit))
  | sleeping (a : Attempt)

/-- The calls are made one after the other; the last invocation comes first. -/
structure State where
  phase : Phase
  aborted : Bool
  invocations : List Invocation

/-- `fault` is what the summary or the trace of a result throws, `untraced` that the trace of
another event does. -/
inductive Event
  | call (c : ToolCall) (aborted untraced : Bool)
  | proceed (fault : Option ToolError) (untraced : Bool)
  | settle (id : Nat) (outcome : Except ToolError Unit)
  | timeout
  | abort

def State.over (s : State) : State := { s with phase := .between }

def State.call (options : GatewayOptions) (s : State) (c : ToolCall) (aborted untraced : Bool) : State :=
  match s.phase, c.inspected with
  | .between, some action =>
      if aborted then s
      else if action = .deny ∨ action = .ask ∧ c.approved = false then s
      else if untraced then s
      else
        let policy := resolveToolRetryPolicy c.callRetry c.definitionRetry options.defaultRetry
        { s with phase := .starting ⟨policy, c.timeoutMs <|> options.defaultTimeoutMs, 1⟩, aborted := false }
  | _, _ => s

/-- The `catch` of the loop -/
def State.caught (s : State) (a : Attempt) (error : ToolError) (untraced : Bool) : State :=
  if s.aborted || isErrorNamed error "AbortError" then s.over
  else if a.number < a.policy.maxAttempts ∧ a.policy.retryOn error a.number = true then
    if untraced then s.over
    else if 0 < retryBackoffMs a.policy a.number then { s with phase := .sleeping a }
    else { s with phase := .starting { a with number := a.number + 1 } }
  else s.over

def State.proceed (s : State) (fault : Option ToolError) (untraced : Bool) : State :=
  match s.phase with
  | .starting a =>
      if a.policy.maxAttempts < a.number then s.over
      else if s.aborted then s.caught a operationAbortedError untraced
      else { s with phase := .racing a none, invocations := ⟨s.invocations.length, false, false⟩ :: s.invocations }
  | .racing a (some (.ok _)) =>
      if s.aborted then s.caught a operationAbortedError untraced
      else match fault with
        | none => s.over
        | some error => s.caught a error untraced
  | .racing a (some (.error error)) => s.caught a error untraced
  | .sleeping a => { s with phase := .starting { a with number := a.number + 1 } }
  | .between | .racing _ none => s

def settleIn (id : Nat) (invocations : List Invocation) : List Invocation :=
  invocations.map (fun i => if i.id = id then { i with settled := true } else i)

def signalNewest : List Invocation → List Invocation
  | [] => []
  | i :: rest => { i with signalled := true } :: rest

def State.settle (s : State) (id : Nat) (outcome : Except ToolError Unit) : State :=
  let invocations := settleIn id s.invocations
  match s.phase, s.invocations.head? with
  | .racing a none, some newest =>
      if newest.id = id ∧ newest.settled = false then { s with phase := .racing a (some outcome), invocations }
      else { s with invocations }
  | _, _ => { s with invocations }

def State.timeout (s : State) : State :=
  match s.phase with
  | .racing a none =>
      if a.timeoutMs.isSome then
        { s with phase := .racing a (some (.error toolTimeoutError)), invocations := signalNewest s.invocations }
      else s
  | _ => s

def State.abort (s : State) : State :=
  match s.phase with
  | .racing a none =>
      { phase := .racing a (some (.error operationAbortedError)), aborted := true, invocations := signalNewest s.invocations }
  | .racing a (some winner) =>
      { phase := .racing a (some winner), aborted := true, invocations := signalNewest s.invocations }
  | .sleeping _ => { s with phase := .between, aborted := true }
  | .between | .starting _ => { s with aborted := true }

def next (options : GatewayOptions) (s : State) : Event → State
  | .call c aborted untraced => s.call options c aborted untraced
  | .proceed fault untraced => s.proceed fault untraced
  | .settle id outcome => s.settle id outcome
  | .timeout => s.timeout
  | .abort => s.abort

def start : State := ⟨.between, false, []⟩

/-- An attempt begins, and a call ends, when all handlers before it have settled. -/
structure Sequential (s : State) : Prop where
  earlier : ∀ i ∈ s.invocations.tail, i.settled = true
  settled : s.phase = .between → ∀ i ∈ s.invocations, i.settled = true

/-- No timeout and no abort comes while the promise of the attempt is open. -/
def Unhurried (s : State) (event : Event) : Prop := event = .timeout ∨ event = .abort → ∀ a, s.phase ≠ .racing a none

variable {options : GatewayOptions} {s : State} {event : Event} {i : Invocation} {a : Attempt} {error : ToolError} {id : Nat}
variable {untraced : Bool} {invocations : List Invocation}

/-- It has ended or has been told to. -/
def Invocation.Left (i : Invocation) : Prop := i.settled = true ∨ i.signalled = true

/-- The invocations that the loop waits for no more. -/
def State.behind (s : State) : List Invocation :=
  match s.phase with
  | .racing _ none => s.invocations.tail
  | _ => s.invocations

theorem State.mem_behind (h : i ∈ s.behind) : i ∈ s.invocations := by
  unfold State.behind at h
  split at h
  · exact List.mem_of_mem_tail h
  · exact h

theorem State.behind_eq (h : ∀ a, s.phase ≠ .racing a none) : s.behind = s.invocations := by
  unfold State.behind
  split
  · rename_i a hphase
    exact absurd hphase (h a)
  · rfl

theorem State.mem_behind_of_tail (h : i ∈ s.invocations.tail) : i ∈ s.behind := by
  unfold State.behind
  split
  · exact h
  · exact List.mem_of_mem_tail h

theorem mem_settleIn (h : i ∈ settleIn id invocations) : ∃ j ∈ invocations,
    i = if j.id = id then { j with settled := true } else j := by
  obtain ⟨j, hj, he⟩ := List.mem_map.mp h
  exact ⟨j, hj, he.symm⟩

theorem left_of_settleIn (h : ∀ j ∈ invocations, j.Left) : ∀ i ∈ settleIn id invocations, i.Left := by
  intro i hi
  obtain ⟨j, hj, rfl⟩ := mem_settleIn hi
  by_cases hid : j.id = id
  · rw [if_pos hid]
    exact Or.inl rfl
  · rw [if_neg hid]
    exact h j hj

theorem tail_settleIn : (settleIn id invocations).tail = settleIn id invocations.tail := by
  cases invocations <;> rfl

theorem left_of_signalNewest (h : ∀ j ∈ invocations.tail, j.Left) : ∀ i ∈ signalNewest invocations, i.Left := by
  cases invocations with
  | nil => nofun
  | cons j rest =>
      intro i hi
      rcases List.mem_cons.mp hi with rfl | hi
      · exact Or.inr rfl
      · exact h i hi

/-- The `catch` leaves the invocations alone, and none is waited for behind it. -/
theorem State.caught_spec (s : State) (a : Attempt) (error : ToolError) (untraced : Bool) :
    (s.caught a error untraced).invocations = s.invocations ∧ ∀ a', (s.caught a error untraced).phase ≠ .racing a' none := by
  unfold State.caught
  split_ifs <;> exact ⟨rfl, nofun⟩

theorem State.behind_caught : (s.caught a error untraced).behind = s.invocations := by
  obtain ⟨hinvocations, hphase⟩ := s.caught_spec a error untraced
  rw [State.behind_eq hphase, hinvocations]

theorem left_call (h : ∀ i ∈ s.behind, i.Left) (c : ToolCall) (aborted : Bool) :
    ∀ i ∈ (s.call options c aborted untraced).behind, i.Left := by
  unfold State.call
  split
  · rename_i hphase _
    have hbehind : s.behind = s.invocations := State.behind_eq (by rw [hphase]; nofun)
    split_ifs
    · exact h
    · exact h
    · exact h
    · rwa [hbehind] at h
  · exact h

theorem left_proceed (h : ∀ i ∈ s.behind, i.Left) (fault : Option ToolError) :
    ∀ i ∈ (s.proceed fault untraced).behind, i.Left := by
  unfold State.proceed
  split
  · rename_i a hphase
    rw [State.behind_eq (by rw [hphase]; nofun)] at h
    split_ifs
    · exact h
    · rwa [State.behind_caught]
    · exact h
  · rename_i a _ hphase
    rw [State.behind_eq (by rw [hphase]; nofun)] at h
    split_ifs
    · rwa [State.behind_caught]
    · cases fault with
      | none => exact h
      | some error =>
          dsimp only
          rwa [State.behind_caught]
  · rename_i a error hphase
    rw [State.behind_eq (by rw [hphase]; nofun)] at h
    rwa [State.behind_caught]
  · rename_i a hphase
    rwa [State.behind_eq (by rw [hphase]; nofun)] at h
  · exact h
  · exact h

theorem left_settle (h : ∀ i ∈ s.behind, i.Left) (outcome : Except ToolError Unit) :
    ∀ i ∈ (s.settle id outcome).behind, i.Left := by
  unfold State.settle
  dsimp only
  split
  · rename_i a newest hphase hnewest
    obtain ⟨rest, hinvocations⟩ : ∃ rest, s.invocations = newest :: rest := List.head?_eq_some_iff.mp hnewest
    rw [State.behind, hphase, hinvocations] at h
    rw [hinvocations]
    split_ifs with hnow
    · intro i hi
      change i ∈ (if newest.id = id then _ else _) :: settleIn id rest at hi
      rw [if_pos hnow.1] at hi
      rcases List.mem_cons.mp hi with rfl | hi
      · exact Or.inl rfl
      · exact left_of_settleIn h i hi
    · intro i hi
      rw [State.behind] at hi
      dsimp only at hi
      rw [hphase] at hi
      exact left_of_settleIn h i hi
  · intro i hi
    by_cases hopen : ∃ a, s.phase = .racing a none
    · obtain ⟨a, hphase⟩ := hopen
      rw [State.behind, hphase] at h
      rw [State.behind] at hi
      dsimp only at hi
      rw [hphase] at hi
      dsimp only at hi
      rw [tail_settleIn] at hi
      exact left_of_settleIn h i hi
    · rw [State.behind_eq (fun a hphase => hopen ⟨a, hphase⟩)] at h
      exact left_of_settleIn h i (State.mem_behind hi)

/-- Whatever happens, a handler is left behind only when it has been told to stop. -/
theorem left_next (h : ∀ i ∈ s.behind, i.Left) (event : Event) : ∀ i ∈ (next options s event).behind, i.Left := by
  cases event with
  | call c aborted untraced => exact left_call h c aborted
  | proceed fault untraced => exact left_proceed h fault
  | settle id outcome => exact left_settle h outcome
  | timeout =>
      change ∀ i ∈ s.timeout.behind, i.Left
      unfold State.timeout
      split
      · rename_i a hphase
        split_ifs
        · rw [State.behind, hphase] at h
          exact left_of_signalNewest h
        · exact h
      · exact h
  | abort =>
      change ∀ i ∈ s.abort.behind, i.Left
      have htail : ∀ i ∈ s.invocations.tail, i.Left := fun i hi => h i (State.mem_behind_of_tail hi)
      unfold State.abort
      split
      · exact left_of_signalNewest htail
      · exact left_of_signalNewest htail
      · rename_i hphase
        rwa [State.behind_eq (by rw [hphase]; nofun)] at h
      · rename_i hphase
        rw [State.behind_eq (by rw [hphase]; nofun)] at h
        rwa [hphase]
      · rename_i hphase
        rw [State.behind_eq (by rw [hphase]; nofun)] at h
        rwa [hphase]

theorem caught_invocations : (s.caught a error untraced).invocations = s.invocations := (s.caught_spec a error untraced).1

/-- Under the condition nothing is told to stop before it has ended. -/
def Told (s : State) : Prop := ∀ i ∈ s.invocations, i.signalled = true → i.settled = true

theorem told_call (h : Told s) (c : ToolCall) (aborted : Bool) : Told (s.call options c aborted untraced) := by
  unfold State.call
  split
  · split_ifs <;> exact h
  · exact h

theorem told_proceed (h : Told s) (fault : Option ToolError) : Told (s.proceed fault untraced) := by
  have hcaught : ∀ a error, Told (s.caught a error untraced) := fun a error i hi => h i (by rwa [caught_invocations] at hi)
  unfold State.proceed
  split
  · split_ifs
    · exact h
    · exact hcaught _ _
    · intro i hi hsignalled
      rcases List.mem_cons.mp hi with rfl | hi
      · cases hsignalled
      · exact h i hi hsignalled
  · split_ifs
    · exact hcaught _ _
    · cases fault with
      | none => exact h
      | some error => exact hcaught _ _
  · exact hcaught _ _
  · exact h
  · exact h
  · exact h

theorem told_settleIn (h : Told s) : ∀ i ∈ settleIn id s.invocations, i.signalled = true → i.settled = true := by
  intro i hi
  obtain ⟨j, hj, rfl⟩ := mem_settleIn hi
  by_cases hid : j.id = id
  · rw [if_pos hid]
    exact fun _ => rfl
  · rw [if_neg hid]
    exact h j hj

theorem told_settle (h : Told s) (outcome : Except ToolError Unit) : Told (s.settle id outcome) := by
  unfold State.settle
  dsimp only
  split
  · split_ifs <;> exact told_settleIn h
  · exact told_settleIn h

/-- Once the promise of the attempt is no longer open, an abort finds it settled. -/
theorem told_abort (h : Told s) (hleft : ∀ i ∈ s.behind, i.Left) (hclosed : ∀ a, s.phase ≠ .racing a none) : Told s.abort := by
  rw [State.behind_eq hclosed] at hleft
  unfold State.abort
  split
  · rename_i a hphase
    exact absurd hphase (hclosed a)
  · intro i hi
    change i ∈ signalNewest s.invocations at hi
    cases hinvocations : s.invocations with
    | nil =>
        rw [hinvocations] at hi
        cases hi
    | cons newest rest =>
        rw [hinvocations] at hi
        have hnewest : newest ∈ s.invocations := by
          rw [hinvocations]
          exact List.mem_cons_self
        rcases List.mem_cons.mp hi with rfl | hi
        · exact fun _ => (hleft newest hnewest).elim (fun hsettled => hsettled) (h newest hnewest)
        · exact h i (by rw [hinvocations]; exact List.mem_cons_of_mem _ hi)
  · exact h
  · exact h
  · exact h

theorem told_next (h : Told s) (hleft : ∀ i ∈ s.behind, i.Left) (hevent : Unhurried s event) : Told (next options s event) := by
  cases event with
  | call c aborted untraced => exact told_call h c aborted
  | proceed fault untraced => exact told_proceed h fault
  | settle id outcome => exact told_settle h outcome
  | timeout =>
      change Told s.timeout
      unfold State.timeout
      split
      · rename_i a hphase
        exact absurd hphase (hevent (Or.inl rfl) a)
      · exact h
  | abort => exact told_abort h hleft (hevent (Or.inr rfl))

theorem sequential_of_told (h : Told s) (hleft : ∀ i ∈ s.behind, i.Left) : Sequential s := by
  have hsettled : ∀ i ∈ s.behind, i.settled = true := fun i hi =>
    (hleft i hi).elim (fun hsettled => hsettled) (h i (State.mem_behind hi))
  constructor
  · exact fun i hi => hsettled i (State.mem_behind_of_tail hi)
  · intro hphase
    rwa [State.behind_eq (by rw [hphase]; nofun)] at hsettled

/-- A command of the shell with its own policy, allowed without a question. -/
def shellCall : ToolCall := ⟨some .allow, false, some 120000, .policy timeoutOnlyRetryPolicy, .unset⟩

def defaultOptions : GatewayOptions := ⟨none, .unset⟩

end Kross.Tools.CallAttempts

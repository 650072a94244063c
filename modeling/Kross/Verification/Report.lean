import Kross.Verification.ChangedFiles

namespace Kross.Verification

open Kross.Json Kross.Mutation Kross.Session Kross.Trace

structure KnownVerificationCommand where
  command : Text
  label : Text

structure CollectVerificationReportOptions where
  changedFiles : List Text
  knownCommands : List KnownVerificationCommand := []
  requestedCommand : Option VerificationCommandIdentity := none

inductive CommandTool
  | bash
  | processStart
  | verify
  deriving DecidableEq

def CommandTool.ofName : String → Option CommandTool
  | "Bash" => some .bash
  | "ProcessStart" => some .processStart
  | "Verify" => some .verify
  | _ => none

def CommandTool.name : CommandTool → String
  | .bash => "Bash"
  | .processStart => "ProcessStart"
  | .verify => "Verify"

structure CommandStart extends VerificationCommandIdentity where
  toolName : CommandTool
  callId : Option String
  iteration : Option Number
  timestamp : String
  eventIndex : Nat
  deriving DecidableEq

inductive OutcomeStatus
  | passed
  | failed
  | unknown
  deriving DecidableEq

def OutcomeStatus.name : OutcomeStatus → String
  | .passed => "passed"
  | .failed => "failed"
  | .unknown => "unknown"

structure CommandOutcome extends CommandStart where
  exitCode : Option Number
  status : OutcomeStatus
  completedAt : String
  completedEventIndex : Nat
  deriving DecidableEq

inductive VerificationStatus
  | passed
  | failed
  | notRun
  | notNeeded
  deriving DecidableEq

structure VerificationReport where
  status : VerificationStatus
  commands : List Text
  evidence : List Text
  reason : Option Text
  deriving DecidableEq

structure VerificationGateAssessment where
  required : Bool
  satisfied : Bool
  report : VerificationReport
  reason : Text
  lastMutationIndex : Int
  requiredKinds : List VerificationKind
  observedKinds : List VerificationKind

section ExitCodes

/-- `=== 0`. -/
def isZero (exitCode : Number) : Bool := exitCode.toNat? = some 0

open Regex in
def exitPattern : Regex :=
  sequence [.boundary, literal "exit=".toList,
    .group 1 (.seq (optional (.one (· = '-'))) (several Char.isDigit)), .boundary]

def parseExitCode (summary : Option String) : Option Number := do
  let found ← exitPattern.exec (summary.getD "").toList
  let digits ← found.captured 1
  let n : Int := Nat.ofDigitChars 10 (digits.filter Char.isDigit) 0
  pure (.ofInt (if digits.head? = some '-' then -n else n))

end ExitCodes

section Starts

variable (platform : Platform)

/-- Of two commands with one fingerprint the later one names it. -/
def knownByFingerprint (knownCommands : List KnownVerificationCommand) (fingerprint : Text) : Option Text :=
  (knownCommands.reverse.map (fun item =>
    (fingerprintCommand platform item.command, slice item.label 240))).lookup fingerprint

def commandStartFromEvent (event : TraceEvent) (eventIndex : Nat) (known : Text → Option Text) :
    Option CommandStart := do
  let toolName ← event.toolName.bind CommandTool.ofName
  let input := asRecord (event.payload.get "input")
  let rawCommand := (asString (input.bind (·.get "command"))).map String.toList
  let fingerprint := ((asString (input.bind (·.get "commandFingerprint"))).map String.toList).or
    (rawCommand.map (fingerprintCommand platform))
  let recognized := rawCommand.bind (identifyVerificationCommand platform)
  let label := (((asString (input.bind (·.get "verificationCommand"))).map String.toList).or
    (recognized.map VerificationCommandIdentity.label)).or (fingerprint.bind known)
  let label ← label.filter (· ≠ [])
  let fingerprint ← fingerprint.filter (· ≠ [])
  pure {
    label := slice label 240
    kinds := (recognized.map VerificationCommandIdentity.kinds).getD []
    fingerprint, toolName, eventIndex
    callId := event.callId
    iteration := asNumber (event.payload.get "iteration")
    timestamp := event.timestamp }

end Starts

section Collect

def isTerminal (event : TraceEvent) : Bool :=
  event.type = "tool_call.completed" || event.type = "tool_call.failed" || event.type = "tool_call.cancelled"

def statusOf (event : TraceEvent) (exitCode : Option Number) : OutcomeStatus :=
  if event.type = "tool_call.completed" then match exitCode with
    | none => .unknown
    | some code => if isZero code then .passed else .failed
  else if event.type = "tool_call.failed" then .failed
  else .unknown

def outcomeFromEvent (start : CommandStart) (event : TraceEvent) (eventIndex : Nat) : CommandOutcome :=
  let exitCode := (asNumber (event.data.bind (·.get "exitCode"))).or
    (parseExitCode (asString (event.payload.get "summary")))
  { start with
    exitCode, status := statusOf event exitCode
    completedAt := event.timestamp, completedEventIndex := eventIndex }

/-- The end that a poll has seen of a background process. -/
def polledOutcome (start : CommandStart) (event : TraceEvent) (eventIndex : Nat) : CommandOutcome :=
  let exitCode := asNumber (event.data.bind (·.get "exitCode"))
  { start with
    exitCode
    status := if asString (event.data.bind (·.get "status")) = some "exited" && exitCode.any isZero then .passed
      else .failed
    completedAt := event.timestamp, completedEventIndex := eventIndex }

structure Collected where
  startedByCallId : String → Option CommandStart
  startedQueues : CommandTool → List CommandStart
  processCommands : String → Option CommandStart
  outcomes : List CommandOutcome
  allStarts : List CommandStart

def Collected.empty : Collected := ⟨fun _ => none, fun _ => [], fun _ => none, [], []⟩

namespace Collected

variable (collected : Collected)

def started (start : CommandStart) : Collected :=
  let collected := { collected with allStarts := collected.allStarts ++ [start] }
  match start.callId with
  | some callId =>
      { collected with startedByCallId := Function.update collected.startedByCallId callId (some start) }
  | none =>
      { collected with
        startedQueues := Function.update collected.startedQueues start.toolName
          (collected.startedQueues start.toolName ++ [start]) }

def takeStart (event : TraceEvent) (toolName : CommandTool) : Option CommandStart × Collected :=
  match event.callId with
  | some callId => (collected.startedByCallId callId, collected)
  | none =>
      let queue := collected.startedQueues toolName
      (queue.head?,
        { collected with startedQueues := Function.update collected.startedQueues toolName queue.tail })

/-- A background command ends when a poll says so, not when it has started. -/
def ended (event : TraceEvent) (eventIndex : Nat) (toolName : CommandTool) : Collected :=
  match collected.takeStart event toolName with
  | (none, collected) => collected
  | (some start, collected) =>
      if toolName = .processStart && event.type = "tool_call.completed" then
        match asString (event.data.bind (·.get "processId")) with
        | some processId =>
            { collected with
              processCommands := Function.update collected.processCommands processId (some start) }
        | none => collected
      else { collected with outcomes := collected.outcomes ++ [outcomeFromEvent start event eventIndex] }

/-- The process that a poll has found ended. -/
def terminalPoll (event : TraceEvent) : Option String :=
  if event.toolName = some "ProcessPoll" && event.type = "tool_call.completed" &&
      (asString (event.data.bind (·.get "status")) = some "exited" ||
        asString (event.data.bind (·.get "status")) = some "killed") then
    asString (event.data.bind (·.get "processId"))
  else none

def polled (event : TraceEvent) (eventIndex : Nat) (processId : String) : Collected :=
  match collected.processCommands processId with
  | none => collected
  | some start =>
      { collected with
        outcomes := collected.outcomes ++ [polledOutcome start event eventIndex]
        processCommands := Function.update collected.processCommands processId none }

def step (platform : Platform) (known : Text → Option Text) (entry : TraceEvent × Nat) : Collected :=
  let (event, eventIndex) := entry
  if event.type = "tool_call.started" then
    match commandStartFromEvent platform event eventIndex known with
    | some start => collected.started start
    | none => collected
  else if isTerminal event then
    match event.toolName.bind CommandTool.ofName with
    | some toolName => collected.ended event eventIndex toolName
    | none => match terminalPoll event with
      | some processId => collected.polled event eventIndex processId
      | none => collected
  else collected

end Collected

def collect (platform : Platform) (known : Text → Option Text) (events : List TraceEvent) : Collected :=
  events.zipIdx.foldl (fun collected entry => collected.step platform known entry) .empty

end Collect

section Evidence

def formatLocation (iteration : Option Number) (timestamp : String) : Text :=
  (match iteration with
    | none => []
    | some iteration => ", iteration=".toList ++ iteration.text) ++ ", at=".toList ++ timestamp.toList

def formatOutcomeEvidence (outcome : CommandOutcome) : Text :=
  outcome.label ++ ": ".toList ++ outcome.status.name.toList ++ " (".toList ++
    (match outcome.exitCode with
      | none => "exit=unknown".toList
      | some exitCode => "exit=".toList ++ exitCode.text) ++
    formatLocation outcome.iteration outcome.completedAt ++ ")".toList

def formatPendingEvidence (start : CommandStart) : Text :=
  start.label ++ ": completion not observed".toList ++ formatLocation start.iteration start.timestamp

def startIdentity (start : CommandStart) : Text :=
  match start.callId with
  | some callId => callId.toList
  | none => start.toolName.name.toList ++ ':' :: start.fingerprint ++ ':' :: start.timestamp.toList

end Evidence

section Report

variable (platform : Platform) (events : List TraceEvent) (options : CollectVerificationReportOptions)

def Collected.validOutcomes (collected : Collected) (lastMutationIndex : Int) : List CommandOutcome :=
  collected.outcomes.filter (fun outcome =>
    lastMutationIndex < outcome.eventIndex && lastMutationIndex < outcome.completedEventIndex)

def Collected.validStarts (collected : Collected) (lastMutationIndex : Int) : List CommandStart :=
  collected.allStarts.filter (fun start => lastMutationIndex < start.eventIndex)

def Collected.pending (collected : Collected) (lastMutationIndex : Int) : List CommandStart :=
  (collected.validStarts lastMutationIndex).filter (fun start =>
    startIdentity start ∉
      (collected.validOutcomes lastMutationIndex).map (fun outcome => startIdentity outcome.toCommandStart))

def latestByLabel (outcomes : List CommandOutcome) : List (Text × CommandOutcome) :=
  outcomes.foldl (fun latest outcome => mapSet outcome.label outcome latest) []

def collectVerificationReport : VerificationReport :=
  let collected := collect platform (knownByFingerprint platform options.knownCommands) events
  -- A command counts only when it started after the last mutation.
  let lastMutationIndex := findLastFileMutationIndex events
  let validOutcomes := collected.validOutcomes lastMutationIndex
  let validStarts := collected.validStarts lastMutationIndex
  let pending := collected.pending lastMutationIndex
  let commands := validOutcomes.map (·.label) ++ pending.map (·.label)
  let evidence := validOutcomes.map formatOutcomeEvidence ++ pending.map formatPendingEvidence
  if validOutcomes = [] && pending = [] then
    if options.changedFiles ≠ [] then
      { status := .notRun, commands := [], evidence := []
        reason := some
          (if collected.outcomes.length + collected.allStarts.length - validStarts.length > 0 then
            "Earlier verification was invalidated by a later workspace mutation; no recognized verification command ran after the last mutation.".toList
          else
            "Workspace files changed, but no recognized verification command was observed after the last mutation.".toList) }
    else
      { status := .notNeeded, commands := [], evidence := []
        reason := some "No workspace file changes or verification commands were observed.".toList }
  else
    let latest := (latestByLabel validOutcomes).map Prod.snd
    if latest.any (fun outcome => outcome.status = .failed) then
      { status := .failed, commands, evidence
        reason := some "At least one latest verification command failed.".toList }
    else if pending ≠ [] || latest.any (fun outcome => outcome.status = .unknown) then
      { status := .notRun, commands, evidence
        reason := some "A verification command was observed without a confirmed exit status.".toList }
    else { status := .passed, commands, evidence, reason := none }

end Report

section Files

variable (platform : Platform)

def normalizedPath (path : Text) : Text :=
  platform.toLowerCase (path.map (fun c => if c = '\\' then '/' else c))

open Regex in
def documentationName : Regex :=
  sequence [.alt .start (.one (· = '/')),
    choice [literal "readme".toList, literal "changelog".toList, literal "contributing".toList,
      literal "code_of_conduct".toList, literal "security".toList],
    optional (.seq (.one (· = '.')) (many (· ≠ '/'))), .stop]

open Regex in
def documentationExtension : Regex :=
  sequence [.one (· = '.'),
    choice [literal "md".toList, literal "mdx".toList, literal "rst".toList, literal "adoc".toList,
      literal "txt".toList], .stop]

def isDocumentationFile (path : Text) : Bool :=
  let normalized := normalizedPath platform path
  "docs/".toList.isPrefixOf normalized || documentationName.test normalized ||
    documentationExtension.test normalized

def requiresVerificationForFiles (changedFiles : List Text) : Bool :=
  changedFiles ≠ [] && !changedFiles.all (isDocumentationFile platform)

open Regex in
def packageRootPattern : Regex :=
  sequence [.start, literal "packages/".toList, .group 1 (several (· ≠ '/')), .one (· = '/')]

open Regex in
def packageFile : Regex :=
  sequence [.alt .start (.one (· = '/')),
    choice [literal "package.json".toList, literal "package-lock.json".toList,
      literal "pnpm-lock.yaml".toList, literal "yarn.lock".toList,
      .seq (literal "bun.lock".toList) (optional (.one (· = 'b'))),
      sequence [literal "tsconfig".toList, many (· ≠ '/'), literal ".json".toList]], .stop]

open Regex in
def commandPath : Regex :=
  sequence [.alt .start (.one (· = '/')), choice [literal "cli".toList, literal "protocol".toList],
    choice [.one (· = '/'), .one (· = '.'), .stop]]

def isHighRiskChange (changedFiles : List Text) : Bool :=
  let normalized := changedFiles.map (normalizedPath platform)
  let packageRoots := unique (normalized.filterMap (fun path =>
    (packageRootPattern.exec path).bind (·.captured 1)))
  1 < packageRoots.length || normalized.any (fun path =>
    packageFile.test path || "scripts/".toList.isPrefixOf path || commandPath.test path)

def requiredVerificationKinds (changedFiles : List Text) : List VerificationKind :=
  if changedFiles = [] || changedFiles.all (isDocumentationFile platform) then []
  else if isHighRiskChange platform changedFiles then [.test, .build] else []

end Files

section Gate

variable (platform : Platform) (events : List TraceEvent) (options : CollectVerificationReportOptions)

/-- `split(' && ')`; `label` is the part read so far, backwards. -/
def splitLabels (label : Text) : Text → List Text
  | ' ' :: '&' :: '&' :: ' ' :: rest => label.reverse :: splitLabels [] rest
  | c :: rest => splitLabels (c :: label) rest
  | [] => [label.reverse]

def commandKinds (knownCommands : List KnownVerificationCommand) (command : Text) : List VerificationKind :=
  ((identifyVerificationCommand platform command).map VerificationCommandIdentity.kinds).getD [] ++
    if command ∈ knownCommands.map (fun item => slice item.label 240) then [.test] else []

def collectReportKinds (report : VerificationReport) (knownCommands : List KnownVerificationCommand) :
    List VerificationKind :=
  unique (report.commands.flatMap (commandKinds platform knownCommands))

def kindName : VerificationKind → String
  | .test => "test"
  | .typecheck => "typecheck"
  | .build => "build"
  | .lint => "lint"

def assessVerificationGate : VerificationGateAssessment :=
  let report := collectVerificationReport platform events options
  let requestedCommandPassed := options.requestedCommand.all (fun requested =>
    report.status = .passed &&
      report.commands.any (fun command => requested.label ∈ splitLabels [] command))
  let requiredKinds := requiredVerificationKinds platform options.changedFiles
  let codeChangeRequiresCheck := requiresVerificationForFiles platform options.changedFiles
  let observedKinds :=
    if report.status = .passed then collectReportKinds platform report options.knownCommands else []
  let requiredKindsPassed :=
    if requiredKinds ≠ [] then requiredKinds.all (· ∈ observedKinds)
    else !codeChangeRequiresCheck || observedKinds.any (· ∈ [.test, .typecheck, .build])
  let required := options.requestedCommand.isSome || codeChangeRequiresCheck
  let satisfied := !required || (report.status = .passed && requestedCommandPassed && requiredKindsPassed)
  let reason :=
    if satisfied then
      if required then "Post-mutation verification passed.".toList
      else "No completion-blocking verification is required for this run.".toList
    else match options.requestedCommand.filter (fun _ => !requestedCommandPassed) with
      | some requested =>
          "The explicitly requested verification command (".toList ++ requested.label ++
            ") did not pass.".toList
      | none =>
          if !requiredKindsPassed && report.status = .passed then
            if requiredKinds ≠ [] then
              "Verification passed, but the change risk also requires: ".toList ++
                (" + ".intercalate (requiredKinds.map kindName)).toList ++ ".".toList
            else
              "Verification passed, but code changes require a related test, typecheck, or build check.".toList
          else report.reason.getD
            "A recognized verification command must pass after the last workspace mutation.".toList
  { required, satisfied
    report := if !satisfied && report.status ≠ .failed then
        { report with status := .notRun, reason := some reason } else report
    reason
    lastMutationIndex := findLastFileMutationIndex events
    requiredKinds, observedKinds }

end Gate

end Kross.Verification

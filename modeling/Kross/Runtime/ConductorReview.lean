import Kross.Grouping
import Kross.Runtime.ConductorExecution

namespace Kross.Runtime

open Kross.Grouping Kross.Session Kross.Verification

section Roots

/-- `extra` are the added directories by their ids. -/
structure WorkspaceRoots where
  primaryPath : Text
  extra : List (Text × Text)

def basename (path : Text) : Text := (path.reverse.takeWhile (· ≠ '/')).reverse

def WorkspaceRoots.resolveById (roots : WorkspaceRoots) (id : Text) : Option Text :=
  let trimmed := trim id
  if trimmed = [] then none
  else match roots.extra.lookup trimmed with
    | some path => some path
    | none =>
        let name := basename roots.primaryPath
        let primaryId := if name = [] then "primary".toList else name
        if trimmed = primaryId ∨ trimmed = "primary".toList ∨ trimmed = ['.'] then some roots.primaryPath else none

variable (workspaceRoot : Text) (roots : Option WorkspaceRoots)

/-- Where a subagent works that is given a root's id, or none. -/
def rootOf (repoId : Option String) : Text :=
  ((repoId.filter (· ≠ "")).bind (fun id => roots.bind (·.resolveById id.toList))).getD workspaceRoot

end Roots

/-- `repoId ?? '__primary__'`. -/
def rootKey (repoId : Option String) : String := repoId.getD "__primary__"

def sortFiles (files : List Text) : List Text := (unique files).mergeSort (fun a b => String.ofList a ≤ String.ofList b)

section Validation

variable (platform : Platform)

structure ConductorValidationTarget where
  repoId : Option String
  changedFiles : List Text
  verificationDigest : Text

structure ConductorValidationOutcome where
  repoId : Option String
  status : SubagentStatus
  summary : Text
  changedFiles : List Text
  verification : VerificationReport
  evidence : List Text
  risks : List Text

/-- What the outcomes of a root add up to. -/
structure RootOutcomes where
  repoId : Option String
  changedFiles : List Text
  verification : List Text
  required : Bool

def verificationStatusName : VerificationStatus → String
  | .passed => "passed"
  | .failed => "failed"
  | .notRun => "not-run"
  | .notNeeded => "not-needed"

def verificationLine (outcome : ConductorTaskOutcome) : Text :=
  outcome.taskId.toList ++ ": ".toList ++ (verificationStatusName outcome.verification.status).toList ++
    if outcome.verification.commands = [] then []
    else " (".toList ++ List.intercalate ", ".toList outcome.verification.commands ++ [')']

def RootOutcomes.add (target : RootOutcomes) (outcome : ConductorTaskOutcome) : RootOutcomes where
  repoId := target.repoId
  changedFiles := target.changedFiles ++ outcome.changedFiles
  verification := target.verification ++ [verificationLine outcome]
  required := target.required ||
    (requiresVerificationForFiles platform outcome.changedFiles && outcome.verification.status ≠ .passed)

def outcomesByRoot (outcomes : List ConductorTaskOutcome) : List (String × RootOutcomes) :=
  group (fun outcome : ConductorTaskOutcome => rootKey outcome.repoId)
    (fun outcome => ⟨outcome.repoId, [], [], false⟩) (RootOutcomes.add platform) outcomes

def buildConductorValidationTargets (outcomes : List ConductorTaskOutcome) : List ConductorValidationTarget :=
  (((outcomesByRoot platform outcomes).map Prod.snd).filter RootOutcomes.required).map (fun target =>
    ⟨target.repoId, sortFiles target.changedFiles, List.intercalate ['\n'] target.verification⟩)

def failedValidationOutcome (target : ConductorValidationTarget) (message : Text) : ConductorValidationOutcome where
  repoId := target.repoId
  status := .failed
  summary := message
  changedFiles := target.changedFiles
  verification := ⟨.failed, [], [], some ("Validation worker failed: ".toList ++ message)⟩
  evidence := []
  risks := [message]

/-- `none` is an abort. -/
def executeConductorValidation (target : ConductorValidationTarget) : Spawned → Option ConductorValidationOutcome
  | .result result => some {
      repoId := target.repoId
      status := result.status
      summary := result.summary
      changedFiles := target.changedFiles
      verification := result.verification
      evidence := result.evidence
      risks := result.risks }
  | .thrown message => some (failedValidationOutcome target message)
  | .aborted => none

def relevantOutcome (outcome : ConductorTaskOutcome) : Bool :=
  requiresVerificationForFiles platform outcome.changedFiles || outcome.verification.status = .passed ||
    outcome.verification.status = .failed ||
    (outcome.changedFiles = [] && outcome.verification.status = .notRun)

/-- Of two validations of one root the later one counts. -/
def validationByRoot (validations : List ConductorValidationOutcome) (repoId : Option String) :
    Option ConductorValidationOutcome :=
  validations.reverse.find? (fun validation => rootKey validation.repoId = rootKey repoId)

def effectiveVerification (validations : List ConductorValidationOutcome) (outcome : ConductorTaskOutcome) :
    VerificationReport :=
  if requiresVerificationForFiles platform outcome.changedFiles then
    ((validationByRoot validations outcome.repoId).map ConductorValidationOutcome.verification).getD
      outcome.verification
  else outcome.verification

def aggregateConductorVerification (outcomes : List ConductorTaskOutcome)
    (validations : List ConductorValidationOutcome) : VerificationReport :=
  let relevant := outcomes.filter (relevantOutcome platform)
  if relevant = [] then
    ⟨.notNeeded, [], [], some "No worker workspace changes or verification commands were observed.".toList⟩
  else
    let commands := unique (relevant.flatMap (·.verification.commands) ++
      validations.flatMap (·.verification.commands))
    let evidence := relevant.flatMap (fun outcome =>
        outcome.verification.evidence.map (fun item => outcome.taskId.toList ++ ": ".toList ++ item)) ++
      validations.flatMap (fun validation => validation.verification.evidence.map (fun item =>
        "validation(".toList ++ (validation.repoId.getD "primary").toList ++ "): ".toList ++ item))
    let effective := relevant.map (effectiveVerification platform validations)
    let unverified := relevant.any (fun outcome =>
      requiresVerificationForFiles platform outcome.changedFiles &&
        (effectiveVerification platform validations outcome).status ≠ .passed)
    if effective.any (·.status = .failed) then
      ⟨.failed, commands, evidence, some "At least one worker reported failed verification.".toList⟩
    else if unverified || effective.any (·.status = .notRun) then
      ⟨.notRun, commands, evidence,
        some "At least one worker change lacks passing verification evidence.".toList⟩
    else ⟨.passed, commands, evidence, none⟩

end Validation

section Review

structure ConductorReviewTarget where
  repoId : Option String
  changedFiles : List Text

def buildConductorReviewTargets (outcomes : List ConductorTaskOutcome) : List ConductorReviewTarget :=
  let byRoot := group (fun outcome : ConductorTaskOutcome => rootKey outcome.repoId)
    (fun outcome => (⟨outcome.repoId, []⟩ : ConductorReviewTarget))
    (fun target outcome => { target with changedFiles := target.changedFiles ++ outcome.changedFiles }) outcomes
  if byRoot = [] then [⟨none, []⟩]
  else byRoot.map (fun (_, target) => { target with changedFiles := sortFiles target.changedFiles })

inductive ConductorVerdict
  | pass
  | needsWork
  deriving DecidableEq

open Regex in
def verdictPattern : Regex :=
  sequence [.boundary, word "VERDICT".toList, many isWhitespace, .one (· = ':'), many isWhitespace,
    .group 1 (.alt (word "PASS".toList) (word "NEEDS_WORK".toList)), .boundary]

def parseConductorReviewVerdict (text : Text) : Option ConductorVerdict := do
  let last ← (verdictPattern.matchAll text).getLast?
  let verdict ← last.captured 1
  if verdict.map Char.toUpper = "PASS".toList then pure .pass
  else if verdict.map Char.toUpper = "NEEDS_WORK".toList then pure .needsWork
  else none

def inspected (result : SubagentResult) : Bool :=
  "Git:status".toList ∈ result.toolsUsed && "Git:diff:unstaged".toList ∈ result.toolsUsed &&
    "Git:diff:staged".toList ∈ result.toolsUsed

/-- What one reviewer makes of the review. -/
structure ConductorReview where
  target : ConductorReviewTarget
  incomplete : Bool
  rejected : Bool
  text : Option Text
  risks : List Text

def rootLabel (repoId : Option String) : Text := (repoId.getD "primary").toList

def missingTools (result : SubagentResult) (verdict : Option ConductorVerdict) : List Text :=
  (if "Git:status".toList ∈ result.toolsUsed then [] else ["Git(status)".toList]) ++
  (if "Git:diff:unstaged".toList ∈ result.toolsUsed then [] else ["Git(diff unstaged)".toList]) ++
  (if "Git:diff:staged".toList ∈ result.toolsUsed then [] else ["Git(diff staged)".toList]) ++
  (if verdict.isSome then [] else ["VERDICT".toList])

/-- `none` is an abort. -/
def reviewTarget (target : ConductorReviewTarget) : Spawned → Option ConductorReview
  | .result result =>
      let verdict := parseConductorReviewVerdict result.summary
      let label := rootLabel target.repoId
      if result.status = .completed ∧ trim result.summary ≠ [] ∧ inspected result ∧ verdict ≠ none then
        some {
          target
          incomplete := false
          rejected := verdict = some .needsWork
          text := some ("#### ".toList ++ label ++ '\n' :: trim result.summary)
          risks := if verdict = some .needsWork then [label ++ ": reviewer verdict=NEEDS_WORK".toList] else [] }
      else
        let missing := missingTools result verdict
        some {
          target
          incomplete := true
          rejected := false
          text := none
          risks := [label ++ ": reviewer 未能完成只读验收".toList ++
            if missing = [] then [] else "，缺少工具证据：".toList ++ List.intercalate ", ".toList missing] }
  | .thrown message => some {
      target
      incomplete := true
      rejected := false
      text := none
      risks := [rootLabel target.repoId ++ ": reviewer failed — ".toList ++ message] }
  | .aborted => none

end Review

section Result

variable (platform : Platform)

inductive ConductorStatus
  | completed
  | failed
  deriving DecidableEq

structure ConductorResult where
  status : ConductorStatus
  changedFiles : List Text
  risks : List Text
  verification : VerificationReport
  validations : List ConductorValidationOutcome
  reviews : List ConductorReview

/-- What the validators and the reviewers come to. -/
structure ConductorChecks where
  validator : ConductorValidationTarget → Spawned
  reviewer : ConductorReviewTarget → Spawned

def anyFailed (seniorClient : Bool) (outcomes : List ConductorTaskOutcome)
    (validations : List ConductorValidationOutcome) (reviews : List ConductorReview) : Bool :=
  (!seniorClient || reviews.any ConductorReview.incomplete) || reviews.any ConductorReview.rejected ||
    (outcomes.any (fun outcome => requiresVerificationForFiles platform outcome.changedFiles) &&
      (aggregateConductorVerification platform outcomes validations).status ≠ .passed) ||
    validations.any (·.status ≠ .completed) ||
    outcomes.any (fun outcome => outcome.status = .failed || outcome.executionIncomplete = some true)

def validationRisks (validation : ConductorValidationOutcome) : List Text :=
  validation.risks.map (fun risk =>
    "validation(".toList ++ rootLabel validation.repoId ++ "): ".toList ++ risk)

def outcomeRisks (outcome : ConductorTaskOutcome) : List Text :=
  outcome.risks.map (fun risk => outcome.taskId.toList ++ ": ".toList ++ risk)

def conductorReviews (seniorClient : Bool) (outcomes : List ConductorTaskOutcome) (checks : ConductorChecks) :
    Option (List ConductorReview) :=
  if seniorClient then
    (buildConductorReviewTargets outcomes).mapM (fun target => reviewTarget target (checks.reviewer target))
  else some []

/-- What the phase does with the outcomes of the workers; `none` is an abort. -/
def conductorResult (seniorClient : Bool) (outcomes : List ConductorTaskOutcome) (checks : ConductorChecks) :
    Option ConductorResult := do
  let validations ← (buildConductorValidationTargets platform outcomes).mapM (fun target =>
    executeConductorValidation target (checks.validator target))
  let reviews ← conductorReviews seniorClient outcomes checks
  pure {
    status := if anyFailed platform seniorClient outcomes validations reviews then .failed else .completed
    changedFiles := outcomes.flatMap (fun outcome =>
      outcome.changedFiles.map (fun file => outcome.taskId.toList ++ ':' :: file))
    risks := outcomes.flatMap outcomeRisks ++ validations.flatMap validationRisks ++
      (if seniorClient then [] else ["未配置高级模型，无法执行最终 diff 验收".toList]) ++
      reviews.flatMap ConductorReview.risks
    verification := aggregateConductorVerification platform outcomes validations
    validations, reviews }

end Result

end Kross.Runtime

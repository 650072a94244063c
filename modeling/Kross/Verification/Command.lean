import Kross.Regex
import Kross.Session.Title
import Mathlib.Data.List.Dedup

namespace Kross.Verification

open Kross.Session (isWhitespace collapse trim slice)

abbrev Text := List Char

inductive VerificationKind
  | test
  | typecheck
  | build
  | lint
  deriving DecidableEq

/-- The library functions of the platform that a report is made with. -/
structure Platform where
  sha256 : Text → Text
  toLowerCase : Text → Text
  localeCompare : Text → Text → Ordering

structure VerificationCommandIdentity where
  label : Text
  kinds : List VerificationKind
  fingerprint : Text
  deriving DecidableEq

/-- A label that a command matched, and its kind. -/
structure Check where
  label : Text
  kind : VerificationKind
  deriving DecidableEq

section Patterns

open Regex

def doubleQuote : Char := Char.ofNat 34
def singleQuote : Char := Char.ofNat 39

def letter (c : Char) : Bool := c.isAlpha || c = '_'

def space : Regex := several isWhitespace

/-- A quoted text, or one without white space. -/
def environmentValue : Regex :=
  choice [
    sequence [.one (· = doubleQuote), many (· ≠ doubleQuote), .one (· = doubleQuote)],
    sequence [.one (· = singleQuote), many (· ≠ singleQuote), .one (· = singleQuote)],
    several (fun c => !isWhitespace c)]

/-- The place of a command: the start of the text or a control operator, and
the environment that is set before it. -/
def commandPrefix : Regex :=
  sequence [
    .alt .start (.seq (choice [word "&&".toList, word "||".toList, word ";".toList, word "|".toList])
      (many isWhitespace)),
    optional (.seq (word "env".toList) space),
    .star (sequence [
      .one letter, many isWord, .one (· = '='), environmentValue, space])]

def scriptChar (c : Char) : Bool := c.isAlphanum || c = ':' || c = '_' || c = '-'

def scriptPattern : Regex :=
  sequence [
    commandPrefix,
    .group 1 (choice [word "npm".toList, word "pnpm".toList, word "yarn".toList, word "bun".toList]),
    space,
    optional (.seq (word "run".toList) space),
    .group 2 (several scriptChar),
    .boundary]

/-- Not one of the control operators that end a command. -/
def argument (c : Char) : Bool := c ≠ ';' && c ≠ '&' && c ≠ '|'

def npx (name : Text) : Regex :=
  sequence [optional (.seq (word "npx".toList) space), word name, .boundary]

def words (first second : Text) : Regex := sequence [word first, space, word second, .boundary]

def checks : List (Regex × Check) := [
  (npx "vitest".toList, ⟨"vitest".toList, .test⟩),
  (npx "jest".toList, ⟨"jest".toList, .test⟩),
  (sequence [npx "tsc".toList, many argument, word "--noEmit".toList, .boundary],
    ⟨"tsc --noEmit".toList, .typecheck⟩),
  (npx "eslint".toList, ⟨"eslint".toList, .lint⟩),
  (.seq (choice [word "pytest".toList,
      sequence [word "python".toList, optional (word "3".toList), space, word "-m".toList, space,
        word "pytest".toList]]) .boundary,
    ⟨"pytest".toList, .test⟩),
  (words "go".toList "test".toList, ⟨"go test".toList, .test⟩),
  (words "cargo".toList "test".toList, ⟨"cargo test".toList, .test⟩),
  (sequence [choice [word "mvn".toList, word "mvnw".toList, word "./mvnw".toList], space,
      choice [word "test".toList, word "verify".toList], .boundary],
    ⟨"maven test".toList, .test⟩),
  (sequence [choice [word "gradle".toList, word "gradlew".toList, word "./gradlew".toList], space,
      many argument, .boundary, word "test".toList, .boundary],
    ⟨"gradle test".toList, .test⟩),
  (words "dotnet".toList "test".toList, ⟨"dotnet test".toList, .test⟩),
  (words "swift".toList "test".toList, ⟨"swift test".toList, .test⟩),
  (sequence [word "make".toList, space, choice [word "test".toList, word "check".toList], .boundary],
    ⟨"make test".toList, .test⟩)]

end Patterns

/-- Whether a control operator outside quotes can replace or detach the exit
status. `before` is the character before the text; the next one is passed over
when it is `escaped`, or the second one of `&&`. -/
def statusMasked (quote : Option Char) (escaped : Bool) (before : Option Char) : Text → Bool
  | [] => false
  | c :: rest =>
      if escaped then statusMasked quote false (some c) rest
      else if c = '\\' && quote ≠ some singleQuote then statusMasked quote true (some c) rest
      else match quote with
        | some q => statusMasked (if c = q then none else some q) false (some c) rest
        | none =>
            if c = singleQuote || c = doubleQuote then statusMasked (some c) false (some c) rest
            else if c = ';' || c = '|' || c = '\n' || c = '\r' then true
            else if c = '&' && rest.head? = some '&' then statusMasked none true (some c) rest
            else if c = '&' && before ≠ some '>' && rest.head? ≠ some '>' then true
            else statusMasked none false (some c) rest

def hasStatusMaskingOperator (command : Text) : Bool := statusMasked none false none command

def normalize (command : Text) : Text := collapse false (trim command)

def scriptKind (script : Text) : Option VerificationKind :=
  if "test".toList.isPrefixOf script then some .test
  else if script ∈ ["typecheck".toList, "type-check".toList, "check:types".toList, "check-types".toList] then
    some .typecheck
  else if "build".toList.isPrefixOf script || "package:check".toList.isPrefixOf script ||
      "package-check".toList.isPrefixOf script then some .build
  else if "lint".toList.isPrefixOf script then some .lint
  else none

def scriptLabel (manager script : Text) : Text :=
  if script = "test".toList then manager ++ " test".toList
  else if manager = "yarn".toList || manager = "bun".toList then manager ++ ' ' :: script
  else manager ++ " run ".toList ++ script

def packageManagerCheck (found : Cursor) : Option Check := do
  let manager ← found.captured 1
  let script ← found.captured 2
  let manager := manager.map Char.toLower
  let script := script.map Char.toLower
  let kind ← scriptKind script
  pure ⟨scriptLabel manager script, kind⟩

def collectPackageManagerChecks (command : Text) : List Check :=
  (scriptPattern.matchAll command).filterMap packageManagerCheck

def collectKnownChecks (command : Text) : List Check :=
  checks.filterMap (fun (body, check) =>
    if (Regex.seq commandPrefix body).test command then some check else none)

/-- The first of the equal elements stays. -/
def unique {α : Type} [DecidableEq α] (l : List α) : List α := l.reverse.dedup.reverse

@[simp] theorem mem_unique {α : Type} [DecidableEq α] {a : α} {l : List α} : a ∈ unique l ↔ a ∈ l := by
  rw [unique, List.mem_reverse, List.mem_dedup, List.mem_reverse]

def joinLabels : List Text → Text
  | [] => []
  | [label] => label
  | label :: labels => label ++ " && ".toList ++ joinLabels labels

section Identify

variable (platform : Platform)

def fingerprintCommand (command : Text) : Text := platform.sha256 (normalize command)

def recognizedChecks (command : Text) : List Check :=
  let normalized := normalize command
  if normalized = [] || hasStatusMaskingOperator command then []
  else unique (collectPackageManagerChecks normalized ++ collectKnownChecks normalized)

/-- A bounded, argument-safe identity for recognized verification commands. -/
def identifyVerificationCommand (command : Text) : Option VerificationCommandIdentity :=
  match recognizedChecks command with
  | [] => none
  | found => some {
      label := slice (joinLabels (found.map Check.label)) 240
      kinds := unique (found.map Check.kind)
      fingerprint := fingerprintCommand platform command }

end Identify

section Requested

open Regex

def backquote : Char := Char.ofNat 96

def quoteMark (c : Char) : Bool := c = backquote || c = singleQuote || c = doubleQuote

def colonOrSpace (c : Char) : Bool := c = ':' || c = '：' || isWhitespace c

def howToRun : Regex :=
  .alt
    (.seq (choice [word "如何".toList, word "怎么".toList, word "怎样".toList])
      (choice [word "运行".toList, word "执行".toList, word "跑".toList]))
    (sequence [.boundary, word "how".toList, space, word "to".toList, space, word "run".toList, .boundary])

def imperative : Regex :=
  .alt
    (.seq (optional (choice [word "请".toList, word "帮我".toList]))
      (choice [word "运行".toList, word "执行".toList, word "跑一下".toList, word "跑".toList,
        word "验证".toList]))
    (sequence [.boundary, word "run".toList, .boundary])

def fencedPattern : Regex :=
  sequence [.start, many colonOrSpace, .one quoteMark, .group 1 (several (fun c => !quoteMark c)),
    .one quoteMark]

/-- `split(/\r?\n/, 1)[0]`. -/
def firstLine : Text → Text
  | [] => []
  | '\n' :: _ => []
  | '\r' :: '\n' :: _ => []
  | c :: rest => c :: firstLine rest

/-- The command that the words behind an imperative name. -/
def namedCommand (behind : Text) : Text :=
  let tail := trim behind
  ((fencedPattern.exec tail).bind (·.captured 1)).getD (firstLine (tail.dropWhile colonOrSpace))

variable (platform : Platform)

def identifyRequestedVerificationCommand (input : Text) : Option VerificationCommandIdentity :=
  if howToRun.test input then none
  else match identifyVerificationCommand platform input with
    | some direct => some direct
    | none => (imperative.matchAll input).findSome?
        (fun found => identifyVerificationCommand platform (namedCommand found.ahead))

end Requested

end Kross.Verification

import Kross.Lines
import Kross.Occurrence
import Kross.Session.Title

namespace Kross.Tools

open Kross.Session

abbrev Line := List Char

inductive OperationKind
  | add
  | update
  | delete
  deriving DecidableEq

structure PatchOperation where
  kind : OperationKind
  path : List Char
  body : List Line
  deriving DecidableEq

inductive PatchError
  | noBegin
  | contentAfterEnd
  | emptyPath
  | unexpectedLine (line : Line)
  | noEnd
  | noOperations
  | duplicatePaths (paths : List (List Char))
  deriving DecidableEq

def PatchError.message : PatchError → String
  | .noBegin => "Patch must start with *** Begin Patch"
  | .contentAfterEnd => "Unexpected content after *** End Patch"
  | .emptyPath => "Patch file path must not be empty"
  | .unexpectedLine line => "Unexpected patch line: " ++ String.ofList line
  | .noEnd => "Patch must end with *** End Patch"
  | .noOperations => "Patch has no file operations"
  | .duplicatePaths paths => "Patch contains duplicate paths: " ++ ", ".intercalate (paths.map String.ofList)

section Parse

/-- `replace(/\r\n/g, '\n')` -/
def withoutReturns : List Char → List Char
  | '\r' :: '\n' :: text => '\n' :: withoutReturns text
  | c :: text => c :: withoutReturns text
  | [] => []

/-- What `.` does not match. -/
def isLineTerminator (c : Char) : Bool := c = '\n' || c = '\r' || c = '\u2028' || c = '\u2029'

def headerOf (kind : OperationKind) (start : String) (line : Line) : Option (OperationKind × List Char) :=
  match Occurrence.behind start.toList line with
  | some path => if path ≠ [] ∧ path.all (fun c => !isLineTerminator c) then some (kind, trim path) else none
  | none => none

/-- `/^\*\*\* (Add|Update|Delete) File: (.+)$/` -/
def header (line : Line) : Option (OperationKind × List Char) :=
  (headerOf .add "*** Add File: " line).or
    ((headerOf .update "*** Update File: " line).or (headerOf .delete "*** Delete File: " line))

def parseOperations : List Line → List PatchOperation → Option PatchOperation → Except PatchError (List PatchOperation)
  | [], _, _ => .error .noEnd
  | line :: rest, operations, current =>
      if line = "*** End Patch".toList then
        if rest.any (fun item => trim item ≠ []) then .error .contentAfterEnd
        else .ok (operations ++ current.toList)
      else match header line with
        | some (kind, path) =>
            if path = [] then .error .emptyPath
            else parseOperations rest (operations ++ current.toList) (some ⟨kind, path, []⟩)
        | none => match current with
          | none => if trim line ≠ [] then .error (.unexpectedLine line) else parseOperations rest operations none
          | some operation => parseOperations rest operations (some { operation with body := operation.body ++ [line] })

/-- Each path that is there before, once. -/
def duplicates (paths : List (List Char)) : List (List Char) :=
  (((List.range paths.length).filter (fun i => decide (paths.getD i [] ∈ paths.take i))).map (paths.getD · [])).eraseDups

def parsePatch (patch : List Char) : Except PatchError (List PatchOperation) :=
  match (withoutReturns patch).splitOn '\n' with
  | [] => .error .noBegin
  | first :: rest =>
      if trim first ≠ "*** Begin Patch".toList then .error .noBegin
      else match parseOperations rest [] none with
        | .error error => .error error
        | .ok operations =>
            if operations = [] then .error .noOperations
            else if duplicates (operations.map PatchOperation.path) ≠ [] then
              .error (.duplicatePaths (duplicates (operations.map PatchOperation.path)))
            else .ok operations

end Parse

section Bodies

/-- The lines of every body come from `lines`. -/
def BodiesFrom (lines : List Line) (operations : List PatchOperation) : Prop :=
  ∀ operation ∈ operations, ∀ line ∈ operation.body, line ∈ lines

theorem BodiesFrom.append {lines : List Line} {operations more : List PatchOperation} (h : BodiesFrom lines operations)
    (hmore : BodiesFrom lines more) : BodiesFrom lines (operations ++ more) := by
  intro operation hmem
  rcases List.mem_append.mp hmem with hmem | hmem
  · exact h operation hmem
  · exact hmore operation hmem

theorem bodies_parseOperations {lines : List Line} {rest : List Line} {operations : List PatchOperation}
    {current : Option PatchOperation} {parsed : List PatchOperation} (h : parseOperations rest operations current = .ok parsed)
    (hrest : ∀ line ∈ rest, line ∈ lines) (hoperations : BodiesFrom lines operations) (hcurrent : BodiesFrom lines current.toList) :
    BodiesFrom lines parsed := by
  have hboth := hoperations.append hcurrent
  induction rest generalizing operations current with
  | nil => cases h
  | cons line rest ih =>
      have hrest' : ∀ l ∈ rest, l ∈ lines := fun l hl => hrest l (List.mem_cons_of_mem _ hl)
      unfold parseOperations at h
      by_cases hend : line = "*** End Patch".toList
      · rw [if_pos hend] at h
        split_ifs at h
        cases h
        exact hboth
      rw [if_neg hend] at h
      cases hheader : header line with
      | some found =>
          obtain ⟨kind, path⟩ := found
          rw [hheader] at h
          dsimp only at h
          split_ifs at h
          have hnew : BodiesFrom lines (some (⟨kind, path, []⟩ : PatchOperation)).toList := by
            intro operation hmem
            rw [Option.toList_some, List.mem_singleton] at hmem
            subst hmem
            nofun
          exact ih h hrest' hboth hnew (hboth.append hnew)
      | none =>
          rw [hheader] at h
          cases current with
          | none =>
              dsimp only at h
              split_ifs at h
              exact ih h hrest' hoperations hcurrent hboth
          | some operation =>
              have hnew : BodiesFrom lines (some { operation with body := operation.body ++ [line] }).toList := by
                intro operation' hmem l hl
                rw [Option.toList_some, List.mem_singleton] at hmem
                subst hmem
                rcases List.mem_append.mp hl with hl | hl
                · exact hcurrent operation (by simp) l hl
                · rw [List.mem_singleton.mp hl]
                  exact hrest line List.mem_cons_self
              exact ih h hrest' hoperations hnew (hoperations.append hnew)

/-- No line of a body goes on behind its end. -/
theorem body_lines {patch : List Char} {operations : List PatchOperation} {operation : PatchOperation}
    (h : parsePatch patch = .ok operations) (hoperation : operation ∈ operations) : ∀ line ∈ operation.body, '\n' ∉ line := by
  rw [parsePatch] at h
  split at h
  · cases h
  · rename_i first rest hsplit
    split_ifs at h
    split at h
    · cases h
    · rename_i parsed hparsed
      split_ifs at h
      cases h
      intro line hline
      have hmem := bodies_parseOperations hparsed (fun _ hl => hl) (by nofun) (by nofun) operation hoperation line hline
      have hlines : line ∈ (withoutReturns patch).splitOn '\n' := by
        rw [hsplit]
        exact List.mem_cons_of_mem _ hmem
      exact Lines.not_mem_of_mem_splitOn hlines

end Bodies

open Kross.Lines Kross.Occurrence

inductive UpdateError
  | noHunks (path : List Char)
  | emptyLine (path : List Char)
  | malformedLine (path : List Char) (line : Line)
  | noPreimage (path : List Char)
  | noMatch (path : List Char)
  | ambiguous (path : List Char)
  deriving DecidableEq

def UpdateError.message : UpdateError → String
  | .noHunks path => "Update File has no hunks: " ++ String.ofList path
  | .emptyLine path => "Malformed empty hunk line in " ++ String.ofList path
  | .malformedLine path line => "Malformed hunk line in " ++ String.ofList path ++ ": " ++ String.ofList line
  | .noPreimage path => "Update hunk has no preimage: " ++ String.ofList path
  | .noMatch path => "Hunk does not match file: " ++ String.ofList path
  | .ambiguous path => "Hunk is ambiguous in file: " ++ String.ofList path

/-- The parts of a body between the lines that begin with `@@`. -/
def hunksOf : List Line → List Line → List (List Line)
  | [], current => if current = [] then [] else [current]
  | line :: body, current =>
      if "@@".toList.isPrefixOf line then (if current = [] then [] else [current]) ++ hunksOf body []
      else hunksOf body (current ++ [line])

/-- The context and removed lines of a hunk, and its context and added lines. -/
def hunkSides (path : List Char) : List Line → Except UpdateError (List Line × List Line)
  | [] => .ok ([], [])
  | [] :: _ => .error (.emptyLine path)
  | (mark :: value) :: rest =>
      if mark = ' ' then (fun (old, new) => (value :: old, value :: new)) <$> hunkSides path rest
      else if mark = '-' then (fun (old, new) => (value :: old, new)) <$> hunkSides path rest
      else if mark = '+' then (fun (old, new) => (old, value :: new)) <$> hunkSides path rest
      else .error (.malformedLine path (mark :: value))

def applyHunk (path : List Char) (content : List Char) (hunk : List Line) : Except UpdateError (List Char) :=
  match hunkSides path hunk with
  | .error error => .error error
  | .ok (old, new) =>
      let oldText := join '\n' old
      if oldText = [] then .error (.noPreimage path)
      else match indexOf content oldText 0 with
        | none => .error (.noMatch path)
        | some first =>
            if (indexOf content oldText (first + 1)).isSome then .error (.ambiguous path)
            else .ok (content.take first ++ join '\n' new ++ content.drop (first + oldText.length))

def applyHunks (path : List Char) (original : List Char) (hunks : List (List Line)) : Except UpdateError (List Char) :=
  hunks.foldlM (applyHunk path) original

def applyUpdateHunks (original : List Char) (operation : PatchOperation) : Except UpdateError (List Char) :=
  if hunksOf operation.body [] = [] then .error (.noHunks operation.path)
  else applyHunks operation.path original (hunksOf operation.body [])

section Hunks

variable {path content result : List Char} {hunk : List Line} {old new : List Line} {hunks : List (List Line)}

theorem hunkSides_lines (h : hunkSides path hunk = .ok (old, new)) {p : Char → Prop} (hp : ∀ line ∈ hunk, ∀ c ∈ line, p c) :
    (∀ line ∈ old, ∀ c ∈ line, p c) ∧ ∀ line ∈ new, ∀ c ∈ line, p c := by
  induction hunk generalizing old new with
  | nil =>
      cases h
      exact ⟨nofun, nofun⟩
  | cons line rest ih =>
      cases line with
      | nil => cases h
      | cons mark value =>
          have hvalue : ∀ c ∈ value, p c := fun c hc => hp _ List.mem_cons_self c (List.mem_cons_of_mem _ hc)
          have hcons : ∀ {ls : List Line}, (∀ line ∈ ls, ∀ c ∈ line, p c) → ∀ line ∈ value :: ls, ∀ c ∈ line, p c := by
            intro ls hls line hline
            rcases List.mem_cons.mp hline with rfl | hline
            · exact hvalue
            · exact hls line hline
          unfold hunkSides at h
          cases hrest : hunkSides path rest with
          | error error =>
              rw [hrest] at h
              split_ifs at h <;> cases h
          | ok sides =>
              obtain ⟨oldRest, newRest⟩ := sides
              obtain ⟨hold, hnew⟩ := ih hrest (fun line hline => hp line (List.mem_cons_of_mem _ hline))
              rw [hrest] at h
              split_ifs at h
              · cases h
                exact ⟨hcons hold, hcons hnew⟩
              · cases h
                exact ⟨hcons hold, hnew⟩
              · cases h
                exact ⟨hold, hcons hnew⟩

/-- What an accepted hunk does: its old lines stand in one place of the text only, and
the new ones take their place. -/
theorem applyHunk_ok (h : applyHunk path content hunk = .ok result) :
    ∃ old new before after, hunkSides path hunk = .ok (old, new) ∧ old ≠ [] ∧
      cut (join '\n' old) content = some (before, after) ∧ content = before ++ join '\n' old ++ after ∧
      result = before ++ join '\n' new ++ after ∧
      ∀ x y, before ++ join '\n' old ++ after = x ++ join '\n' old ++ y → before = x ∧ after = y := by
  rw [applyHunk] at h
  split at h
  · cases h
  · rename_i old new hsides
    dsimp only at h
    split_ifs at h with hempty
    cases hfirst : indexOf content (join '\n' old) 0 with
    | none =>
        rw [hfirst] at h
        cases h
    | some first =>
        rw [hfirst] at h
        dsimp only at h
        split_ifs at h with hagain
        cases h
        rw [indexOf_zero, Option.map_eq_some_iff] at hfirst
        obtain ⟨⟨before, after⟩, hcut, rfl⟩ := hfirst
        have hnone := indexOf_eq_none.mp (Option.not_isSome_iff_eq_none.mp hagain)
        obtain ⟨htake, hdrop⟩ := take_drop_of_cut hcut
        have hcontent := (cut_spec hcut).1
        refine ⟨old, new, before, after, hsides, ?_, hcut, hcontent, by rw [htake, hdrop], fun x y hxy => ?_⟩
        · rintro rfl
          exact hempty rfl
        · exact cut_unique hcut hnone (hcontent.trans hxy)

/-- Every hunk in turn replaces one block of whole lines. -/
def LineByLine (path : List Char) : List Char → List (List Line) → Prop
  | _, [] => True
  | content, hunk :: hunks => ∀ old new next, hunkSides path hunk = .ok (old, new) → applyHunk path content hunk = .ok next →
      ReplacesLines '\n' old new content next ∧ LineByLine path next hunks

/-- Every hunk in turn stands in the text so that it fits. -/
def Fitting (path : List Char) : List Char → List (List Line) → Prop
  | _, [] => True
  | content, hunk :: hunks => ∀ old new before after next, hunkSides path hunk = .ok (old, new) →
      cut (join '\n' old) content = some (before, after) → applyHunk path content hunk = .ok next →
      Fits '\n' old new before after ∧ Fitting path next hunks

theorem lineByLine_iff_fitting (hlines : ∀ hunk ∈ hunks, ∀ line ∈ hunk, '\n' ∉ line)
    (h : applyHunks path content hunks = .ok result) : LineByLine path content hunks ↔ Fitting path content hunks := by
  induction hunks generalizing content with
  | nil => exact Iff.rfl
  | cons hunk hunks ih =>
      rw [applyHunks, List.foldlM_cons] at h
      cases hnext : applyHunk path content hunk with
      | error error =>
          rw [hnext] at h
          cases h
      | ok next =>
          rw [hnext] at h
          have hrest : LineByLine path next hunks ↔ Fitting path next hunks :=
            ih (fun hunk' hmem => hlines hunk' (List.mem_cons_of_mem _ hmem)) h
          obtain ⟨old, new, before, after, hsides, hold, hcut, hcontent, hresult, hunique⟩ := applyHunk_ok hnext
          have hclean : ∀ line ∈ hunk, ∀ c ∈ line, c ≠ '\n' := by
            rintro line hline c hc rfl
            exact hlines hunk List.mem_cons_self line hline hc
          obtain ⟨holdLines, hnewLines⟩ := hunkSides_lines hsides hclean
          have hold' : ∀ line ∈ old, '\n' ∉ line := fun line hline hmem => holdLines line hline _ hmem rfl
          have hnew' : ∀ line ∈ new, '\n' ∉ line := fun line hline hmem => hnewLines line hline _ hmem rfl
          have hiff : ReplacesLines '\n' old new content next ↔ Fits '\n' old new before after := by
            rw [hcontent, hresult]
            exact ⟨fits_of_replacesLines hold hold' hnew' hunique, replacesLines_of_fits hold hold' hnew' hunique⟩
          constructor
          · intro hall old₁ new₁ before₁ after₁ next₁ hsides₁ hcut₁ hnext₁
            rw [hsides] at hsides₁
            cases hsides₁
            rw [hcut] at hcut₁
            cases hcut₁
            rw [hnext] at hnext₁
            cases hnext₁
            obtain ⟨hreplaces, hlater⟩ := hall old new next hsides hnext
            exact ⟨hiff.mp hreplaces, hrest.mp hlater⟩
          · intro hall old₁ new₁ next₁ hsides₁ hnext₁
            rw [hsides] at hsides₁
            cases hsides₁
            rw [hnext] at hnext₁
            cases hnext₁
            obtain ⟨hfits, hlater⟩ := hall old new before after next hsides hcut hnext
            exact ⟨hiff.mpr hfits, hrest.mpr hlater⟩

theorem mem_hunksOf {body current : List Line} (hmem : hunk ∈ hunksOf body current) {line : Line} (hline : line ∈ hunk) :
    line ∈ body ∨ line ∈ current := by
  induction body generalizing current with
  | nil =>
      rw [hunksOf] at hmem
      split_ifs at hmem
      · cases hmem
      · rw [List.mem_singleton.mp hmem] at hline
        exact Or.inr hline
  | cons first body ih =>
      rw [hunksOf] at hmem
      split_ifs at hmem with hmark hcurrent
      · rcases ih (by simpa using hmem) with h | h
        · exact Or.inl (List.mem_cons_of_mem _ h)
        · cases h
      · rcases List.mem_append.mp hmem with hmem | hmem
        · rw [List.mem_singleton.mp hmem] at hline
          exact Or.inr hline
        · rcases ih hmem with h | h
          · exact Or.inl (List.mem_cons_of_mem _ h)
          · cases h
      · rcases ih hmem with h | h
        · exact Or.inl (List.mem_cons_of_mem _ h)
        · rcases List.mem_append.mp h with h | h
          · exact Or.inr h
          · exact Or.inl (by simp [List.mem_singleton.mp h])

theorem update_lineByLine_iff {patch original : List Char} {operations : List PatchOperation} {operation : PatchOperation}
    (hparse : parsePatch patch = .ok operations) (hoperation : operation ∈ operations)
    (h : applyUpdateHunks original operation = .ok result) :
    LineByLine operation.path original (hunksOf operation.body []) ↔ Fitting operation.path original (hunksOf operation.body []) := by
  rw [applyUpdateHunks] at h
  split_ifs at h
  refine lineByLine_iff_fitting (fun hunk hmem line hline => ?_) h
  rcases mem_hunksOf hmem hline with hbody | hnil
  · exact body_lines hparse hoperation line hbody
  · cases hnil

def patchOf (hunk : List String) : List Char :=
  ("*** Begin Patch\n*** Update File: note\n@@\n" ++ "\n".intercalate hunk ++ "\n*** End Patch").toList

def operationOf (hunk : List String) : PatchOperation := ⟨.update, "note".toList, "@@".toList :: hunk.map String.toList⟩

/-- The second of three lines becomes another one. -/
theorem update_lineByLine_iff_second :
    LineByLine "note".toList "a\nb\nc\n".toList (hunksOf (operationOf ["-b", "+d"]).body []) :=
  (update_lineByLine_iff (show parsePatch (patchOf ["-b", "+d"]) = .ok [operationOf ["-b", "+d"]] by decide)
    List.mem_cons_self
    (show applyUpdateHunks "a\nb\nc\n".toList (operationOf ["-b", "+d"]) = .ok "a\nd\nc\n".toList by decide)).mpr (by
      intro old new before after next hsides hcut _
      have hcut' : cut (join '\n' ["b".toList]) "a\nb\nc\n".toList = some ("a\n".toList, "\nc\n".toList) := by decide
      cases hsides
      cases hcut'.symm.trans hcut
      exact ⟨⟨Or.inr ⟨['a'], rfl⟩, Or.inl ⟨⟨_, rfl⟩, by simp⟩⟩, trivial⟩)

/-- The removed line leaves an empty one behind. -/
theorem removed_line_stays_empty :
    parsePatch (patchOf ["-a"]) = .ok [operationOf ["-a"]] ∧
      applyUpdateHunks "a\nb\n".toList (operationOf ["-a"]) = .ok "\nb\n".toList ∧
      ¬LineByLine "note".toList "a\nb\n".toList (hunksOf (operationOf ["-a"]).body []) := by
  refine ⟨by decide, by decide, fun h => ?_⟩
  have happly : applyHunks "note".toList "a\nb\n".toList (hunksOf (operationOf ["-a"]).body []) = .ok "\nb\n".toList := by
    decide
  have hcut : cut (join '\n' ["a".toList]) "a\nb\n".toList = some ([], "\nb\n".toList) := by decide
  have hfits := ((lineByLine_iff_fitting (by decide) happly).mp h _ _ _ _ _ rfl hcut (by rfl)).1
  rcases hfits with ⟨-, ⟨-, hnew⟩ | ⟨hafter, -⟩⟩
  · exact hnew rfl
  · cases hafter

end Hunks

end Kross.Tools

import Kross.CommandLine
import Kross.Session.Title
import Kross.Tools.Paths

namespace Kross.Tools.Git

open CommandLine

inductive GitAction
  | status | diff | log | show | branch | add | restore | commit | checkout | stash | fetch | pull | push
  deriving DecidableEq

inductive StashAction
  | list | push | pop
  deriving DecidableEq

structure GitInput where
  action : GitAction
  paths : Option (List Text) := none
  staged : Option Bool := none
  context : Option Nat := none
  limit : Option Nat := none
  revision : Option Text := none
  message : Option Text := none
  branch : Option Text := none
  create : Option Bool := none
  remote : Option Text := none
  setUpstream : Option Bool := none
  includeUntracked : Option Bool := none
  stashAction : Option StashAction := none
  deriving DecidableEq

/-- `gitInputSchema` -/
def GitInput.accepted (input : GitInput) : Bool :=
  input.paths.all (fun paths => paths.length ≤ 100 && paths.all (· ≠ [])) &&
    input.context.all (· ≤ 20) && input.limit.all (fun n => 1 ≤ n && n ≤ 100) &&
    input.revision.all (· ≠ []) && input.message.all (fun m => m ≠ [] && Session.length m ≤ 20000) &&
    input.branch.all (· ≠ []) && input.remote.all (· ≠ [])

inductive ToolRisk
  | read | write | execute | network
  deriving DecidableEq

def resolveRisk (input : GitInput) : ToolRisk :=
  match input.action with
  | .fetch | .pull | .push => .network
  | .restore | .checkout => .execute
  | .stash => if input.stashAction = some .pop then .execute else .write
  | .status | .diff | .log | .show | .branch => .read
  | .add | .commit => .write

inductive GitError
  | invalid (message : String)
  | path (error : PathError)

/-- A string of the input that is there and not empty. -/
def given (value : Option Text) : Bool := value.any (· ≠ [])

def validateActionInput (input : GitInput) : Except GitError Unit :=
  if input.action = .commit && !given input.message then .error (.invalid "Git commit 需要 message")
  else if input.action = .checkout && !given input.branch then .error (.invalid "Git checkout 需要 branch")
  else if input.action = .push && input.setUpstream = some true && !given input.branch then
    .error (.invalid "Git push 设置 upstream 时需要 branch")
  else .ok ()

/-- `taken` tells the arguments that are strings of the input from those the tool writes. -/
structure Arg where
  text : Text
  taken : Bool
  deriving DecidableEq

def fixed (text : String) : Arg := ⟨text.toList, false⟩

def taken (text : Text) : Arg := ⟨text, true⟩

/-- `value ?? text` -/
def orElse (value : Option Text) (text : String) : Arg := (value.map taken).getD (fixed text)

/-- `relative` of two absolute paths. -/
def relative (base target : NormalPath) : Text :=
  let rec behind : List Name → List Name → List Name × List Name
    | a :: base, b :: target => if a = b then behind base target else (a :: base, b :: target)
    | base, target => (base, target)
  let (up, down) := behind base.names target.names
  List.intercalate ['/'] (List.replicate up.length "..".toList ++ down.map Subtype.val)

section Build

variable (cwd : List Name) (workdir : Text)

def pathspec (inputPath : Text) : Except GitError Arg :=
  match resolveWithinWorkspace cwd workdir inputPath with
  | .ok target =>
      let path := relative (normalize workdir) target
      .ok (if path = [] then fixed "." else taken path)
  | .error error => .error (.path error)

def appendPathspecs (args : List Arg) (inputPaths : Option (List Text)) : Except GitError (List Arg) :=
  match inputPaths with
  | none | some [] => .ok args
  | some paths => do
      let pathspecs ← paths.mapM (pathspec cwd workdir)
      .ok (args ++ fixed "--" :: pathspecs)

/-- The paths, or `.` where there are none. -/
def pathsOrAll (paths : Option (List Text)) : Option (List Text) :=
  match paths with
  | none | some [] => some [".".toList]
  | some paths => some paths

def buildGitArgs (input : GitInput) : Except GitError (List Arg) :=
  match input.action with
  | .status => .ok [fixed "status", fixed "--short", fixed "--branch"]
  | .diff => appendPathspecs cwd workdir
      ([fixed "diff", fixed "--no-ext-diff", ⟨"--unified=".toList ++ (toString (input.context.getD 3)).toList, false⟩] ++
        if input.staged = some true then [fixed "--cached"] else []) input.paths
  | .log => appendPathspecs cwd workdir
      [fixed "log", fixed "--oneline", fixed "--no-decorate", fixed "-n", fixed (toString (input.limit.getD 20))] input.paths
  | .show => .ok [fixed "show", fixed "--stat", fixed "--oneline", fixed "--no-renames", orElse input.revision "HEAD"]
  | .branch => .ok [fixed "branch", fixed "--list", fixed "--verbose", fixed "--no-abbrev"]
  | .add => appendPathspecs cwd workdir [fixed "add"] (pathsOrAll input.paths)
  | .restore => appendPathspecs cwd workdir
      (fixed "restore" :: if input.staged = some true then [fixed "--staged"] else []) (pathsOrAll input.paths)
  | .commit => .ok [fixed "commit", fixed "-m", taken (input.message.getD [])]
  | .checkout =>
      if input.create = some true then .ok [fixed "switch", fixed "-c", taken (input.branch.getD [])]
      else .ok [fixed "switch", taken (input.branch.getD [])]
  | .stash => match input.stashAction.getD .list with
    | .list => .ok [fixed "stash", fixed "list"]
    | .pop => .ok [fixed "stash", fixed "pop"]
    | .push => appendPathspecs cwd workdir
        ([fixed "stash", fixed "push"] ++
          (if input.includeUntracked = some true then [fixed "--include-untracked"] else []) ++
          if given input.message then [fixed "-m", taken (input.message.getD [])] else []) input.paths
  | .fetch => .ok [fixed "fetch", orElse input.remote "origin"]
  | .pull => .ok [fixed "pull", fixed "--ff-only", orElse input.remote "origin"]
  | .push => .ok ([fixed "push"] ++ (if input.setUpstream = some true then [fixed "--set-upstream"] else []) ++
      [orElse input.remote "origin"] ++ if given input.branch then [taken (input.branch.getD [])] else [])

/-- The arguments that git is run with, when it is run. -/
def gitArgs (input : GitInput) : Except GitError (List Arg) := do
  validateActionInput input
  buildGitArgs cwd workdir input

end Build

section Reading

/-- The options of the commands used here whose value is the next argument. -/
def takesValue (command option : Text) : Bool :=
  (command = "commit".toList || command = "stash".toList) && option = "-m".toList ||
    command = "switch".toList && option = "-c".toList || command = "log".toList && option = "-n".toList

/-- How git reads its arguments. -/
def readings : List Arg → List (Arg × Role)
  | [] => []
  | command :: args => (command, .operand) :: args.zip (roles (takesValue command.text) (args.map Arg.text))

/-- The options of the commands that only read with which they write a file or run a program. -/
def writesOrRuns (option : Text) : Bool :=
  "--output".toList.isPrefixOf option || option = "--ext-diff".toList || option = "--textconv".toList

def forces (option : Text) : Bool := option = "-f".toList || "--force".toList.isPrefixOf option

/-- The operands of a push behind the command and the remote. -/
def refspecs (args : List Arg) : List Text :=
  (((readings args).filter (fun p => p.2 = .operand)).drop 2).map (fun p => p.1.text)

structure Stays (input : GitInput) (args : List Arg) : Prop where
  arguments : ∀ p ∈ readings args, p.1.taken = true → p.2 = .operand ∨ p.2 = .value
  reads : resolveRisk input = .read → ∀ p ∈ readings args, p.2 = .option → writesOrRuns p.1.text = false
  unforced : input.action = .push → (∀ p ∈ readings args, p.2 = .option → forces p.1.text = false) ∧
    ∀ refspec ∈ refspecs args, refspec.head? ≠ some '+'

/-- Of an input that reaches git, the strings that stand where options do. -/
def Undashed (input : GitInput) : Prop :=
  match input.action with
  | .show => ∀ revision ∈ input.revision, isOption revision = false
  | .checkout => input.create ≠ some true → ∀ branch ∈ input.branch, isOption branch = false
  | .fetch | .pull => ∀ remote ∈ input.remote, isOption remote = false
  | .push => (∀ remote ∈ input.remote, isOption remote = false) ∧
      ∀ branch ∈ input.branch, isOption branch = false ∧ branch.head? ≠ some '+'
  | _ => True

end Reading

section Proofs

variable {input : GitInput} {args f t : List Arg} {c : String}

/-- An option of the tool's own that has no value. -/
structure Flag (c : String) (o : Arg) : Prop where
  own : o.taken = false
  option : isOption o.text = true
  dashed : o.text ≠ doubleDash
  plain : takesValue c.toList o.text = false
  harmless : writesOrRuns o.text = false ∧ forces o.text = false

instance (c : String) (o : Arg) : Decidable (Flag c o) :=
  decidable_of_iff (o.taken = false ∧ isOption o.text = true ∧ o.text ≠ doubleDash ∧
    takesValue c.toList o.text = false ∧ writesOrRuns o.text = false ∧ forces o.text = false)
    ⟨fun ⟨h₁, h₂, h₃, h₄, h₅⟩ => ⟨h₁, h₂, h₃, h₄, h₅⟩, fun ⟨h₁, h₂, h₃, h₄, h₅⟩ => ⟨h₁, h₂, h₃, h₄, h₅⟩⟩

/-- The readings of the arguments behind the flags. -/
def tailReadings (c : String) (rest : List Arg) : List (Arg × Role) :=
  rest.zip (rolesFrom (takesValue c.toList) .anything (rest.map Arg.text))

theorem readings_flags (h : ∀ o ∈ f, Flag c o) : readings (fixed c :: (f ++ t)) =
    (fixed c, .operand) :: (f.map (fun o => (o, .option)) ++ tailReadings c t) := by
  rw [readings, roles, fixed]
  congr 1
  induction f with
  | nil => rfl
  | cons o f ih =>
      have ho := h o List.mem_cons_self
      rw [List.cons_append, List.map_cons, rolesFrom_option ho.option ho.dashed, ho.plain, List.zip_cons_cons]
      exact congrArg _ (ih (fun o' ho' => h o' (List.mem_cons_of_mem _ ho')))

/-- What an argument has to be read as. -/
structure Fits (p : Arg × Role) : Prop where
  argument : p.1.taken = true → p.2 = .operand ∨ p.2 = .value
  harmless : p.2 = .option → writesOrRuns p.1.text = false ∧ forces p.1.text = false

theorem fits_operand {a : Arg} : Fits (a, .operand) := ⟨fun _ => .inl rfl, nofun⟩

theorem fits_value {a : Arg} : Fits (a, .value) := ⟨fun _ => .inr rfl, nofun⟩

theorem fits_readings (hflags : ∀ o ∈ f, Flag c o) (hrest : ∀ p ∈ tailReadings c t, Fits p) :
    ∀ p ∈ readings (fixed c :: (f ++ t)), Fits p := by
  rw [readings_flags hflags]
  intro p hp
  rcases List.mem_cons.mp hp with rfl | hp
  · exact fits_operand
  · rcases List.mem_append.mp hp with hp | hp
    · obtain ⟨o, ho, rfl⟩ := List.mem_map.mp hp
      exact ⟨fun htaken => absurd htaken (by simp [(hflags o ho).own]), fun _ => (hflags o ho).harmless⟩
    · exact hrest p hp

theorem stays (hfits : ∀ p ∈ readings args, Fits p)
    (hrefspecs : input.action = .push → ∀ refspec ∈ refspecs args, refspec.head? ≠ some '+') : Stays input args :=
  ⟨fun p hp => (hfits p hp).argument, fun _ p hp ho => ((hfits p hp).harmless ho).1,
    fun hpush => ⟨fun p hp ho => ((hfits p hp).harmless ho).2, hrefspecs hpush⟩⟩

theorem tail_nil : ∀ p ∈ tailReadings c [], Fits p := nofun

/-- The paths are behind the end of the options. -/
theorem tail_paths (paths : List Arg) : ∀ p ∈ tailReadings c (fixed "--" :: paths), Fits p := by
  have hdash : (fixed "--").text = doubleDash := by decide
  rw [tailReadings, List.map_cons, hdash, rolesFrom_separator, List.zip_cons_cons]
  intro p hp
  rcases List.mem_cons.mp hp with rfl | hp
  · exact ⟨nofun, nofun⟩
  · obtain ⟨a, role⟩ := p
    have hrole := (List.of_mem_zip hp).2
    obtain ⟨_, _, rfl⟩ := List.mem_map.mp hrole
    exact fits_operand

/-- The message, or the new branch, is the value of the option before it. -/
theorem tail_value {option : String} {a : Arg} (ho : isOption option.toList = true) (hne : option.toList ≠ doubleDash)
    (hvalue : takesValue c.toList option.toList = true)
    (hharmless : writesOrRuns option.toList = false ∧ forces option.toList = false)
    (hrest : ∀ p ∈ tailReadings c t, Fits p) : ∀ p ∈ tailReadings c (fixed option :: a :: t), Fits p := by
  rw [tailReadings, List.map_cons, fixed, rolesFrom_option ho hne, hvalue, if_pos rfl, List.map_cons, rolesFrom_value]
  intro p hp
  rw [List.zip_cons_cons, List.zip_cons_cons] at hp
  rcases List.mem_cons.mp hp with rfl | hp
  · exact ⟨nofun, fun _ => hharmless⟩
  · rcases List.mem_cons.mp hp with rfl | hp
    · exact fits_value
    · exact hrest p hp

theorem tail_operand {a : Arg} (ha : isOption a.text = false) (hrest : ∀ p ∈ tailReadings c t, Fits p) :
    ∀ p ∈ tailReadings c (a :: t), Fits p := by
  rw [tailReadings, List.map_cons, rolesFrom_operand ha, List.zip_cons_cons]
  intro p hp
  rcases List.mem_cons.mp hp with rfl | hp
  · exact fits_operand
  · exact hrest p hp

theorem tail_flag {o : Arg} (ho : Flag c o) (hrest : ∀ p ∈ tailReadings c t, Fits p) :
    ∀ p ∈ tailReadings c (o :: t), Fits p := by
  rw [tailReadings, List.map_cons, rolesFrom_option ho.option ho.dashed, ho.plain, List.zip_cons_cons]
  intro p hp
  rcases List.mem_cons.mp hp with rfl | hp
  · exact ⟨fun htaken => absurd htaken (by simp [ho.own]), fun _ => ho.harmless⟩
  · exact hrest p hp

/-- A string of the input that begins with a dash where an option may stand is no argument. -/
theorem dashed_read {a : Arg} (ha : isOption a.text = true) :
    (a, Role.option) ∈ tailReadings c (a :: t) ∨ (a, Role.separator) ∈ tailReadings c (a :: t) := by
  rw [tailReadings, List.map_cons]
  by_cases hne : a.text = doubleDash
  · rw [hne, rolesFrom_separator]
    exact .inr List.mem_cons_self
  · rw [rolesFrom_option ha hne]
    exact .inl List.mem_cons_self

theorem not_stays {a : Arg} (htaken : a.taken = true)
    (h : (a, Role.option) ∈ readings args ∨ (a, Role.separator) ∈ readings args) : ¬ Stays input args := by
  intro hstays
  rcases h with h | h
  · rcases hstays.arguments _ h htaken with h | h <;> cases h
  · rcases hstays.arguments _ h htaken with h | h <;> cases h

theorem not_stays_dashed (hflags : ∀ o ∈ f, Flag c o) {a : Arg} (htaken : a.taken = true)
    (ha : isOption a.text = true) : ¬ Stays input (fixed c :: (f ++ a :: t)) := by
  refine not_stays htaken ?_
  rw [readings_flags hflags]
  exact (dashed_read ha).imp (fun h => List.mem_cons_of_mem _ (List.mem_append_right _ h))
    (fun h => List.mem_cons_of_mem _ (List.mem_append_right _ h))

section Paths

variable {cwd : List Name} {workdir : Text}

theorem appendPathspecs_ok {base : List Arg} {paths : Option (List Text)} (h : appendPathspecs cwd workdir base paths = .ok args) :
    args = base ∨ ∃ pathspecs, args = base ++ fixed "--" :: pathspecs := by
  unfold appendPathspecs at h
  split at h
  · exact .inl (Except.ok.inj h).symm
  · exact .inl (Except.ok.inj h).symm
  · rename_i paths _
    cases hpaths : paths.mapM (pathspec cwd workdir) with
    | error error =>
        rw [hpaths] at h
        cases h
    | ok pathspecs =>
        rw [hpaths] at h
        exact .inr ⟨pathspecs, (Except.ok.inj h).symm⟩

/-- With flags only before its paths, no input can become an option. -/
theorem stays_paths {paths : Option (List Text)} (haction : input.action ≠ .push) (hflags : ∀ o ∈ f, Flag c o)
    (htail : ∀ p ∈ tailReadings c t, Fits p)
    (htail' : ∀ pathspecs, ∀ p ∈ tailReadings c (t ++ fixed "--" :: pathspecs), Fits p)
    (h : appendPathspecs cwd workdir (fixed c :: (f ++ t)) paths = .ok args) : Stays input args := by
  rcases appendPathspecs_ok h with rfl | ⟨pathspecs, rfl⟩
  · exact stays (fits_readings hflags htail) (fun hpush => absurd hpush haction)
  · rw [List.cons_append, List.append_assoc]
    exact stays (fits_readings hflags (htail' pathspecs)) (fun hpush => absurd hpush haction)

theorem stays_flags {paths : Option (List Text)} (haction : input.action ≠ .push) (hflags : ∀ o ∈ f, Flag c o)
    (h : appendPathspecs cwd workdir (fixed c :: f) paths = .ok args) : Stays input args := by
  rw [← List.append_nil f] at h
  exact stays_paths haction hflags tail_nil tail_paths h

end Paths

theorem refspecs_push (hflags : ∀ o ∈ f, Flag "push" o) {remote : Arg} (hremote : isOption remote.text = false)
    (branches : List Arg) (hbranches : ∀ branch ∈ branches, isOption branch.text = false) :
    refspecs (fixed "push" :: (f ++ remote :: branches)) = branches.map Arg.text := by
  have hoperands : ∀ rest : List Arg, (∀ a ∈ rest, isOption a.text = false) →
      tailReadings "push" rest = rest.map (fun a => (a, .operand)) := by
    intro rest hrest
    induction rest with
    | nil => rfl
    | cons a rest ih =>
        have htail := ih (fun b hb => hrest b (List.mem_cons_of_mem _ hb))
        rw [tailReadings, List.map_cons, rolesFrom_operand (hrest a List.mem_cons_self), List.zip_cons_cons, List.map_cons]
        exact congrArg _ htail
  have hall : ∀ a ∈ remote :: branches, isOption a.text = false := by
    intro a ha
    rcases List.mem_cons.mp ha with rfl | ha
    · exact hremote
    · exact hbranches a ha
  have hflagged : (f.map (fun o => (o, Role.option))).filter (fun p => p.2 = .operand) = [] := by
    rw [List.filter_eq_nil_iff]
    intro p hp
    obtain ⟨o, -, rfl⟩ := List.mem_map.mp hp
    simp
  have hkept : ∀ rest : List Arg, (rest.map (fun a => (a, Role.operand))).filter (fun p => p.2 = .operand) =
      rest.map (fun a => (a, Role.operand)) := by
    intro rest
    rw [List.filter_eq_self]
    intro p hp
    obtain ⟨a, -, rfl⟩ := List.mem_map.mp hp
    rfl
  rw [refspecs, readings_flags hflags, hoperands _ hall, List.filter_cons_of_pos rfl, List.filter_append, hflagged,
    List.nil_append, hkept, List.map_cons, List.drop_succ_cons, List.drop_succ_cons, List.drop_zero, List.map_map]
  rfl

theorem isOption_orElse {value : Option Text} {text : String} (htext : isOption text.toList = false) :
    isOption (orElse value text).text = false ↔ ∀ v ∈ value, isOption v = false := by
  cases value with
  | none => exact ⟨fun _ => nofun, fun _ => htext⟩
  | some v => exact ⟨fun h _ hv => Option.some.inj hv ▸ h, fun h => h v rfl⟩

/-- The operand of `show`, `fetch` and `pull`. -/
theorem stays_operand_iff (value : Option Text) (text : String) (haction : input.action ≠ .push)
    (hflags : ∀ o ∈ f, Flag c o) (htext : isOption text.toList = false) :
    Stays input (fixed c :: (f ++ [orElse value text])) ↔ ∀ v ∈ value, isOption v = false := by
  constructor
  · intro h v hv
    by_contra hdash
    rw [Option.mem_def.mp hv] at h
    exact not_stays_dashed hflags (a := orElse (some v) text) rfl (Bool.eq_true_of_not_eq_false hdash) h
  · intro h
    have htail : ∀ p ∈ tailReadings c [orElse value text], Fits p :=
      tail_operand ((isOption_orElse htext).mpr h) tail_nil
    exact stays (fits_readings hflags htail) (fun hpush => absurd hpush haction)

theorem stays_push_iff (haction : input.action = .push) (hflags : ∀ o ∈ f, Flag "push" o) :
    Stays input (fixed "push" :: (f ++
      orElse input.remote "origin" :: if given input.branch then [taken (input.branch.getD [])] else [])) ↔
        (∀ remote ∈ input.remote, isOption remote = false) ∧
          ∀ branch ∈ input.branch, isOption branch = false ∧ branch.head? ≠ some '+' := by
  have horigin : isOption "origin".toList = false := by decide
  constructor
  · intro h
    have hremote : ∀ remote ∈ input.remote, isOption remote = false := by
      intro remote hremote
      by_contra hdash
      rw [Option.mem_def.mp hremote] at h
      exact not_stays_dashed hflags (a := orElse (some remote) "origin") rfl (Bool.eq_true_of_not_eq_false hdash) h
    refine ⟨hremote, fun branch hbranch => ?_⟩
    rw [← isOption_orElse horigin] at hremote
    rw [Option.mem_def.mp hbranch] at h
    by_cases hempty : branch = []
    · subst hempty
      exact ⟨rfl, nofun⟩
    · have hgiven : given (some branch) = true := by simpa [given] using hempty
      rw [hgiven, if_pos rfl, Option.getD_some] at h
      have hbranch : isOption branch = false := by
        by_contra hdash
        have hread := dashed_read (c := "push") (t := []) (a := taken branch) (Bool.eq_true_of_not_eq_false hdash)
        refine not_stays (a := taken branch) rfl ?_ h
        rw [readings_flags hflags, tailReadings, List.map_cons, rolesFrom_operand hremote, List.zip_cons_cons]
        exact hread.imp
          (fun h => List.mem_cons_of_mem _ (List.mem_append_right _ (List.mem_cons_of_mem _ h)))
          (fun h => List.mem_cons_of_mem _ (List.mem_append_right _ (List.mem_cons_of_mem _ h)))
      have hspecs := refspecs_push hflags hremote [taken branch] (by
        intro b hb
        rw [List.mem_singleton.mp hb]
        exact hbranch)
      refine ⟨hbranch, (h.unforced haction).2 branch ?_⟩
      rw [hspecs]
      exact List.mem_singleton_self _
  · rintro ⟨hremote, hbranch⟩
    rw [← isOption_orElse horigin] at hremote
    have hbranches : ∀ b ∈ (if given input.branch then [taken (input.branch.getD [])] else []),
        isOption b.text = false ∧ b.text.head? ≠ some '+' := by
      intro b hb
      split_ifs at hb with hgiven
      · rw [List.mem_singleton.mp hb]
        obtain ⟨branch, hsome⟩ : ∃ branch, input.branch = some branch := by
          cases hsome : input.branch with
          | none => simp [given, hsome] at hgiven
          | some branch => exact ⟨branch, rfl⟩
        rw [hsome, Option.getD_some]
        exact hbranch branch hsome
      · cases hb
    have htail : ∀ p ∈ tailReadings "push" (orElse input.remote "origin" ::
        if given input.branch then [taken (input.branch.getD [])] else []), Fits p := by
      refine tail_operand hremote ?_
      split_ifs with hgiven
      · exact tail_operand (hbranches _ (by simp [hgiven])).1 tail_nil
      · exact tail_nil
    refine stays (fits_readings hflags htail) (fun _ => ?_)
    rw [refspecs_push hflags hremote _ (fun b hb => (hbranches b hb).1)]
    intro refspec hrefspec
    obtain ⟨b, hb, rfl⟩ := List.mem_map.mp hrefspec
    exact (hbranches b hb).2

section Actions

variable {cwd : List Name} {workdir : Text}

theorem stays_fixed (haction : input.action ≠ .push) (hflags : ∀ o ∈ f, Flag c o) :
    Stays input (fixed c :: f) := by
  rw [← List.append_nil f]
  exact stays (fits_readings hflags tail_nil) (fun hpush => absurd hpush haction)

theorem stays_log (haction : input.action = .log) (h : buildGitArgs cwd workdir input = .ok args) : Stays input args := by
  have hother : input.action ≠ .push := by rw [haction]; nofun
  have hvalue : ∀ rest : List Arg, (∀ p ∈ tailReadings "log" rest, Fits p) →
      ∀ p ∈ tailReadings "log" (fixed "-n" :: fixed (toString (input.limit.getD 20)) :: rest), Fits p := fun _ =>
    tail_value (by decide) (by decide) (by decide) (by decide)
  rw [buildGitArgs, haction] at h
  exact stays_paths (c := "log") (f := [fixed "--oneline", fixed "--no-decorate"])
    (t := [fixed "-n", fixed (toString (input.limit.getD 20))]) hother (by decide)
    (hvalue [] tail_nil) (fun pathspecs => hvalue _ (tail_paths pathspecs)) h

theorem stays_diff (haction : input.action = .diff) (h : buildGitArgs cwd workdir input = .ok args) : Stays input args := by
  have hother : input.action ≠ .push := by rw [haction]; nofun
  rw [buildGitArgs, haction] at h
  have hunified : Flag "diff" ⟨"--unified=".toList ++ (toString (input.context.getD 3)).toList, false⟩ :=
    ⟨rfl, rfl, nofun, rfl, rfl, rfl⟩
  have hflags : ∀ o ∈ [fixed "--no-ext-diff", ⟨"--unified=".toList ++ (toString (input.context.getD 3)).toList, false⟩] ++
      (if input.staged = some true then [fixed "--cached"] else []), Flag "diff" o := by
    intro o ho
    simp only [List.cons_append, List.nil_append, List.mem_cons] at ho
    rcases ho with rfl | rfl | ho
    · decide
    · exact hunified
    · split_ifs at ho
      · rw [List.mem_singleton.mp ho]
        decide
      · cases ho
  exact stays_flags hother hflags h

theorem stays_restore (haction : input.action = .restore) (h : buildGitArgs cwd workdir input = .ok args) :
    Stays input args := by
  have hother : input.action ≠ .push := by rw [haction]; nofun
  rw [buildGitArgs, haction] at h
  refine stays_flags (c := "restore") hother ?_ h
  split_ifs <;> decide

theorem stays_stash (haction : input.action = .stash) (h : buildGitArgs cwd workdir input = .ok args) :
    Stays input args := by
  have hother : input.action ≠ .push := by rw [haction]; nofun
  rw [buildGitArgs, haction] at h
  cases hstash : input.stashAction.getD .list with
  | list =>
      rw [hstash] at h
      cases h
      exact stays (fits_readings (f := []) nofun (tail_operand rfl tail_nil)) (fun hpush => absurd hpush hother)
  | pop =>
      rw [hstash] at h
      cases h
      exact stays (fits_readings (f := []) nofun (tail_operand rfl tail_nil)) (fun hpush => absurd hpush hother)
  | push =>
      rw [hstash] at h
      have hmessage : ∀ rest : List Arg, (∀ p ∈ tailReadings "stash" rest, Fits p) → ∀ p ∈ tailReadings "stash"
          ((if given input.message then [fixed "-m", taken (input.message.getD [])] else []) ++ rest), Fits p := by
        intro rest hrest
        split_ifs
        · exact tail_value (by decide) (by decide) (by decide) (by decide) hrest
        · exact hrest
      have huntracked : ∀ rest : List Arg, (∀ p ∈ tailReadings "stash" rest, Fits p) → ∀ p ∈ tailReadings "stash"
          ((if input.includeUntracked = some true then [fixed "--include-untracked"] else []) ++ rest), Fits p := by
        intro rest hrest
        split_ifs
        · exact tail_flag (by decide) hrest
        · exact hrest
      have htail : ∀ rest : List Arg, (∀ p ∈ tailReadings "stash" rest, Fits p) → ∀ p ∈ tailReadings "stash"
          (fixed "push" :: ((if input.includeUntracked = some true then [fixed "--include-untracked"] else []) ++
            ((if given input.message then [fixed "-m", taken (input.message.getD [])] else []) ++ rest))), Fits p :=
        fun rest hrest => tail_operand rfl (huntracked _ (hmessage _ hrest))
      have hbuilt : appendPathspecs cwd workdir (fixed "stash" :: ([] ++ fixed "push" ::
          ((if input.includeUntracked = some true then [fixed "--include-untracked"] else []) ++
            if given input.message then [fixed "-m", taken (input.message.getD [])] else []))) input.paths = .ok args := by
        simpa only [List.cons_append, List.append_assoc, List.nil_append] using h
      refine stays_paths (f := []) hother nofun ?_ (fun pathspecs => ?_) hbuilt
      · simpa only [List.append_nil] using htail [] tail_nil
      · simpa only [List.cons_append, List.append_assoc] using htail _ (tail_paths pathspecs)

theorem stays_commit (haction : input.action = .commit) (h : buildGitArgs cwd workdir input = .ok args) :
    Stays input args := by
  have hother : input.action ≠ .push := by rw [haction]; nofun
  rw [buildGitArgs, haction] at h
  cases h
  exact stays (fits_readings (f := []) nofun
    (tail_value (by decide) (by decide) (by decide) (by decide) tail_nil)) (fun hpush => absurd hpush hother)

theorem stays_checkout_iff (haction : input.action = .checkout) (hvalid : validateActionInput input = .ok ()) :
    (∀ args, buildGitArgs cwd workdir input = .ok args → Stays input args) ↔ Undashed input := by
  have hother : input.action ≠ .push := by rw [haction]; nofun
  obtain ⟨branch, hbranch⟩ : ∃ branch, input.branch = some branch := by
    cases hbranch : input.branch with
    | none => simp [validateActionInput, haction, hbranch, given] at hvalid
    | some branch => exact ⟨branch, rfl⟩
  rw [buildGitArgs, Undashed, haction]
  by_cases hcreate : input.create = some true
  · simp only [hcreate, if_true, ne_eq, not_true_eq_false, false_implies, iff_true]
    rintro args ⟨⟩
    exact stays (fits_readings (f := []) nofun
      (tail_value (by decide) (by decide) (by decide) (by decide) tail_nil)) (fun hpush => absurd hpush hother)
  · have hiff := stays_operand_iff (c := "switch") (f := []) input.branch "" hother nofun rfl
    simp only [hcreate, if_false, ne_eq, not_false_eq_true, forall_const]
    rw [← hiff, hbranch]
    exact ⟨fun h => h _ rfl, fun h args hargs => Except.ok.inj hargs ▸ h⟩

/-- The arguments that are built are all there is to the property. -/
theorem stays_build_iff (hvalid : validateActionInput input = .ok ()) :
    (∀ args, buildGitArgs cwd workdir input = .ok args → Stays input args) ↔ Undashed input := by
  have hone : ∀ built, buildGitArgs cwd workdir input = .ok built →
      ((∀ args, buildGitArgs cwd workdir input = .ok args → Stays input args) ↔ Stays input built) := by
    intro built hbuilt
    rw [hbuilt]
    exact ⟨fun h => h _ rfl, fun h args hargs => Except.ok.inj hargs ▸ h⟩
  cases haction : input.action with
  | status | branch =>
      have hother : input.action ≠ .push := by rw [haction]; nofun
      rw [Undashed, haction]
      refine ⟨fun _ => trivial, fun _ args hargs => ?_⟩
      rw [buildGitArgs, haction] at hargs
      cases hargs
      exact stays_fixed hother (by decide)
  | diff =>
      rw [Undashed, haction]
      exact ⟨fun _ => trivial, fun _ args => stays_diff haction⟩
  | log =>
      rw [Undashed, haction]
      exact ⟨fun _ => trivial, fun _ args => stays_log haction⟩
  | «show» =>
      have hother : input.action ≠ .push := by rw [haction]; nofun
      rw [hone _ (by rw [buildGitArgs, haction]), Undashed, haction]
      exact stays_operand_iff (c := "show") (f := [fixed "--stat", fixed "--oneline", fixed "--no-renames"])
        input.revision "HEAD" hother (by decide) rfl
  | add =>
      have hother : input.action ≠ .push := by rw [haction]; nofun
      rw [Undashed, haction]
      refine ⟨fun _ => trivial, fun _ args hargs => ?_⟩
      rw [buildGitArgs, haction] at hargs
      exact stays_flags (f := []) hother nofun hargs
  | restore =>
      rw [Undashed, haction]
      exact ⟨fun _ => trivial, fun _ args => stays_restore haction⟩
  | commit =>
      rw [Undashed, haction]
      exact ⟨fun _ => trivial, fun _ args => stays_commit haction⟩
  | checkout => exact stays_checkout_iff haction hvalid
  | stash =>
      rw [Undashed, haction]
      exact ⟨fun _ => trivial, fun _ args => stays_stash haction⟩
  | fetch =>
      have hother : input.action ≠ .push := by rw [haction]; nofun
      rw [hone _ (by rw [buildGitArgs, haction]), Undashed, haction]
      exact stays_operand_iff (c := "fetch") (f := []) input.remote "origin" hother nofun rfl
  | pull =>
      have hother : input.action ≠ .push := by rw [haction]; nofun
      rw [hone _ (by rw [buildGitArgs, haction]), Undashed, haction]
      exact stays_operand_iff (c := "pull") (f := [fixed "--ff-only"]) input.remote "origin" hother (by decide) rfl
  | push =>
      rw [hone _ (by rw [buildGitArgs, haction]), Undashed, haction]
      have hflags : ∀ o ∈ (if input.setUpstream = some true then [fixed "--set-upstream"] else []), Flag "push" o := by
        split_ifs <;> decide
      have hiff := stays_push_iff haction hflags
      simpa only [List.append_assoc, List.cons_append, List.nil_append] using hiff

end Actions

end Proofs

def showInput : GitInput := { action := .show, revision := some "--output=README.md".toList }

end Kross.Tools.Git

import Kross.Faults
import Kross.Session.Title
import Mathlib.Algebra.Group.Nat.Defs
import Mathlib.Data.List.Basic
import Mathlib.Tactic.Common

namespace Kross.Server

/-- What `getContainer` takes. -/
inductive ContainerRef
  | name (name : String)
  | id (id : Nat)
  deriving DecidableEq

structure Container where
  id : Nat
  name : Option String
  volumes : List String
  network : String
  running : Bool
  deriving DecidableEq

structure Network where
  name : String
  endpoints : List Nat
  deriving DecidableEq

/-- The containers, volumes and networks of a Docker host. A container's volumes exist. -/
structure Docker where
  containers : List Container
  volumes : List String
  networks : List Network
  nextId : Nat
  fresh : ∀ c ∈ containers, c.id < nextId
  mounted : ∀ c ∈ containers, ∀ v ∈ c.volumes, v ∈ volumes

def Container.answersTo (c : Container) : ContainerRef → Bool
  | .name name => c.name = some name
  | .id id => c.id = id

def Container.started (c : Container) (id : Nat) : Container := if c.id = id then { c with running := true } else c

@[simp] theorem Container.started_id (c : Container) (id : Nat) : (c.started id).id = c.id := by
  rw [started]
  split_ifs <;> rfl

@[simp] theorem Container.started_volumes (c : Container) (id : Nat) : (c.started id).volumes = c.volumes := by
  rw [started]
  split_ifs <;> rfl

def Network.join (n : Network) (name : String) (id : Nat) : Network :=
  if n.name = name then { n with endpoints := n.endpoints ++ [id] } else n

@[simp] theorem Network.join_name (n : Network) (name : String) (id : Nat) : (n.join name id).name = n.name := by
  rw [join]
  split_ifs <;> rfl

def Network.leave (n : Network) (id : Nat) : Network :=
  { n with endpoints := n.endpoints.filter fun e => e ≠ id }

namespace Docker

variable (d : Docker)

def find (ref : ContainerRef) : Option Container := d.containers.find? fun c => c.answersTo ref

def network (name : String) : Option Network := d.networks.find? fun n => n.name = name

/-- `listNetworks`, and whether one of them has the name -/
def hasNetwork (name : String) : Bool := d.networks.any fun n => n.name = name

def createNetwork (name : String) : Option Docker :=
  if d.hasNetwork name then none else some { d with networks := d.networks ++ [⟨name, []⟩] }

/-- A container that is in the network already is refused. -/
def connect (name : String) (id : Nat) : Option Docker :=
  match d.network name with
  | none => none
  | some network =>
    if network.endpoints.contains id then none
    else some { d with networks := d.networks.map fun n => n.join name id }

/-- A volume that is there already is not an error. -/
def createVolume (name : String) : Docker where
  containers := d.containers
  volumes := if name ∈ d.volumes then d.volumes else d.volumes ++ [name]
  networks := d.networks
  nextId := d.nextId
  fresh := d.fresh
  mounted := by
    intro c hc v hv
    have h := d.mounted c hc v hv
    split_ifs
    · exact h
    · exact List.mem_append_left _ h

theorem mem_createVolume (name : String) : name ∈ (d.createVolume name).volumes := by
  rw [createVolume]
  dsimp only
  split_ifs with h
  · exact h
  · exact List.mem_append_right _ (List.mem_singleton_self name)

/-- A name that is taken is refused; a volume that is not there is made. -/
def createContainer (name : Option String) (volume network : String) : Option (Nat × Docker) :=
  if name.isSome && d.containers.any fun c => c.name = name then none
  else some (d.nextId,
    { containers := d.containers ++ [⟨d.nextId, name, [volume], network, false⟩]
      volumes := (d.createVolume volume).volumes
      networks := d.networks
      nextId := d.nextId + 1
      fresh := by
        intro c hc
        rcases List.mem_append.mp hc with hc | hc
        · exact Nat.lt_succ_of_lt (d.fresh c hc)
        · rw [List.mem_singleton.mp hc]
          exact Nat.lt_succ_self _
      mounted := by
        intro c hc v hv
        rcases List.mem_append.mp hc with hc | hc
        · exact (d.createVolume volume).mounted c hc v hv
        · rw [List.mem_singleton.mp hc] at hv
          rw [List.mem_singleton.mp hv]
          exact d.mem_createVolume volume })

/-- A container that starts joins its network. -/
def start (id : Nat) : Option Docker :=
  match d.find (.id id) with
  | none => none
  | some container =>
    if d.hasNetwork container.network then
      some
        { containers := d.containers.map fun c => c.started id
          volumes := d.volumes
          networks := d.networks.map fun n => n.join container.network id
          nextId := d.nextId
          fresh := by
            intro c hc
            obtain ⟨c', hc', rfl⟩ := List.mem_map.mp hc
            rw [Container.started_id]
            exact d.fresh c' hc'
          mounted := by
            intro c hc v hv
            obtain ⟨c', hc', rfl⟩ := List.mem_map.mp hc
            rw [Container.started_volumes] at hv
            exact d.mounted c' hc' v hv }
    else none

/-- `remove({ force: true })` -/
def removeContainer (id : Nat) : Docker where
  containers := d.containers.filter fun c => c.id ≠ id
  volumes := d.volumes
  networks := d.networks.map fun n => n.leave id
  nextId := d.nextId
  fresh := fun c hc => d.fresh c (List.mem_of_mem_filter hc)
  mounted := fun c hc => d.mounted c (List.mem_of_mem_filter hc)

/-- A volume that a container uses is not removed. -/
def removeVolume (name : String) : Docker :=
  if h : ∃ c ∈ d.containers, name ∈ c.volumes then d
  else
    { containers := d.containers
      volumes := d.volumes.filter fun v => v ≠ name
      networks := d.networks
      nextId := d.nextId
      fresh := d.fresh
      mounted := by
        intro c hc v hv
        refine List.mem_filter.mpr ⟨d.mounted c hc v hv, decide_eq_true fun hvn => h ⟨c, hc, ?_⟩⟩
        rwa [← hvn] }

def disconnect (name : String) (ref : ContainerRef) : Docker :=
  match d.find ref with
  | some c => { d with networks := d.networks.map fun n => if n.name = name then n.leave c.id else n }
  | none => d

/-- A network that a container uses is not removed. -/
def removeNetwork (name : String) : Docker :=
  { d with networks := d.networks.filter fun n => n.name ≠ name || !n.endpoints.isEmpty }

section Facts

variable {d} {name : String} {id : Nat}

theorem hasNetwork_iff : d.hasNetwork name = true ↔ ∃ n ∈ d.networks, n.name = name := by
  simp [hasNetwork]

theorem exists_network (h : d.hasNetwork name = true) : ∃ n, d.network name = some n := by
  obtain ⟨n, hn, hname⟩ := hasNetwork_iff.mp h
  refine Option.isSome_iff_exists.mp (List.find?_isSome.mpr ⟨n, hn, ?_⟩)
  exact decide_eq_true hname

/-- A change of the endpoints of the networks leaves their names. -/
theorem hasNetwork_map {e : Docker} {f : Network → Network} (hnetworks : e.networks = d.networks.map f)
    (hf : ∀ n, (f n).name = n.name) (name : String) : e.hasNetwork name = d.hasNetwork name := by
  rw [hasNetwork, hasNetwork, hnetworks, List.any_map]
  simp only [Function.comp_def, hf]

theorem find_congr {e : Docker} (h : e.containers = d.containers) (ref : ContainerRef) : e.find ref = d.find ref := by
  rw [find, find, h]

theorem id_ne {c : Container} (hc : c ∈ d.containers) (hid : d.nextId ≤ id) : c.id ≠ id :=
  Nat.ne_of_lt (Nat.lt_of_lt_of_le (d.fresh c hc) hid)

end Facts

end Docker

end Kross.Server

namespace Kross.Server.Orchestrator

open FaultM

abbrev Text := List Char

inductive Credential
  | httpsToken (token : Text)
  | sshKey (privateKey : Text)

def Credential.secret : Credential → Text
  | .httpsToken token => token
  | .sshKey privateKey => privateKey

structure CreateWorkspaceContainerInput where
  id : Text
  gitUrl : Text
  credential : Option Credential

structure DockerOrchestrator where
  network : String
  gatewayContainer : ContainerRef
  diskBytes : Nat

/-- The calls to Docker that create makes, save those that clean up. -/
inductive Call
  | listNetworks
  | createNetwork
  | listWorkspaceNetworks
  | createWorkspaceNetwork
  | inspectNetwork
  | inspectGateway
  | connectGateway
  | createVolume
  | createHelper
  | attachHelper
  | startHelper
  | waitHelper
  | createWorker
  | startWorker
  deriving DecidableEq

inductive CreateError
  | message (text : String)
  | docker (call : Call)

/-- A parsed URL, with what is read of it. -/
structure Url where
  protocol : Text
  username : Text
  password : Text
  href : Text

section GitUrl

def isHostCharacter (c : Char) : Bool := c.isAlphanum || c = '_' || c = '.' || c = '-'

def isLineTerminator (c : Char) : Bool := c = '\n' || c = '\r' || c = '\u2028' || c = '\u2029'

/-- `/^[\w.-]+@[\w.-]+:.+/` -/
def isScpAddress (text : Text) : Bool :=
  match text.span isHostCharacter with
  | (_ :: _, '@' :: rest) =>
    match rest.span isHostCharacter with
    | (_ :: _, ':' :: c :: _) => !isLineTerminator c
    | _ => false
  | _ => false

/-- `parseUrl` is what `new URL` makes of a text. -/
def normalizeGitUrl (parseUrl : Text → Option Url) (value : Text) (credential : Option Credential) :
    Except String Text :=
  let trimmed := Session.trim value
  let token := match credential with
    | some (.httpsToken _) => true
    | _ => false
  let key := match credential with
    | some (.sshKey _) => true
    | _ => false
  if isScpAddress trimmed then
    if token then .error "HTTPS Token 不能与 SSH Git URL 一起使用" else .ok trimmed
  else
    match parseUrl trimmed with
    | none => .error "Git URL 必须是 HTTPS、SSH 或标准 scp 风格地址"
    | some url =>
      if url.password ≠ [] || (url.protocol = "https:".toList || url.protocol = "http:".toList) && url.username ≠ [] then
        .error "Git URL 不得内嵌凭证，请使用 credential 字段"
      else if token && url.protocol ≠ "https:".toList then .error "HTTPS Token 只能用于 https:// Git URL"
      else if key && !(["ssh:".toList, "git+ssh:".toList].contains url.protocol) then
        .error "SSH 私钥只能用于 SSH Git URL"
      else if !(["https:".toList, "ssh:".toList, "git:".toList, "git+ssh:".toList].contains url.protocol) then
        .error ("不支持的 Git URL 协议: " ++ String.ofList url.protocol)
      else .ok url.href

end GitUrl

section Names

/-- What stands for a character, by its code units, that a name may not have. -/
def safeCharacter (c : Char) : Text :=
  if c.isAlphanum || c = '_' || c = '.' || c = '-' then [c] else if c.toNat < 0x10000 then ['-'] else ['-', '-']

def safeId (id : Text) : Text := id.flatMap safeCharacter

def containerName (id : Text) : String := String.ofList ("kross-worker-".toList ++ safeId id)

def volumeName (id : Text) : String := String.ofList ("kross-workspace-".toList ++ safeId id)

def workspaceNetworkName (id : Text) : String :=
  String.ofList (("kross-workspace-net-".toList ++ safeId id).take 63)

end Names

/-- Docker, with the calls made and whether they succeeded. -/
structure World where
  docker : Docker
  calls : List (Call × Bool)

abbrev CreateM (α : Type) := FaultM Call Unit World CreateError α

def World.answered {α : Type} (w : World) (site : Call) : Option (α × Docker) → Option α × World
  | some (a, docker) => (some a, ⟨docker, w.calls ++ [(site, true)]⟩)
  | none => (none, ⟨w.docker, w.calls ++ [(site, false)]⟩)

def failed {α : Type} (site : Call) : CreateM α := throw (.error (.docker site))

/-- A call that Docker may refuse, and that may fail without an effect. -/
def call {α : Type} (site : Call) (effect : Docker → Option (α × Docker)) : CreateM α := do
  let answer ← step site (.docker site) (fun _ w => (w.answered (α := α) site none).2)
    (fun w => .ok (w.answered site (effect w.docker)))
  match answer with
  | some a => pure a
  | none => failed site

def look {α : Type} (site : Call) (effect : Docker → Option α) : CreateM α :=
  call site fun d => (effect d).map fun a => (a, d)

def change (site : Call) (effect : Docker → Option Docker) : CreateM Unit :=
  call site fun d => (effect d).map fun d => ((), d)

/-- A call of which the outcome is swallowed. -/
def cleanUp (effect : Docker → Docker) : CreateM Unit := update fun w => { w with docker := effect w.docker }

section Create

variable (o : DockerOrchestrator) (parseUrl : Text → Option Url)

def ensureNetwork : CreateM Unit := do
  let listed ← look .listNetworks fun d => some (d.hasNetwork o.network)
  if !listed then change .createNetwork fun d => d.createNetwork o.network

def ensureWorkspaceNetwork (workspaceId : Text) : CreateM Unit := do
  let listed ← look .listWorkspaceNetworks fun d => some (d.hasNetwork (workspaceNetworkName workspaceId))
  if !listed then change .createWorkspaceNetwork fun d => d.createNetwork (workspaceNetworkName workspaceId)

def attachGateway (workspaceId : Text) : CreateM Unit := do
  let name := workspaceNetworkName workspaceId
  let network ← look .inspectNetwork fun d => d.network name
  let gateway ← look .inspectGateway fun d => d.find o.gatewayContainer
  if !network.endpoints.contains gateway.id then change .connectGateway fun d => d.connect name gateway.id

def removeWorkspaceNetwork (workspaceId : Text) : CreateM Unit := do
  cleanUp fun d => d.disconnect (workspaceNetworkName workspaceId) o.gatewayContainer
  cleanUp fun d => d.removeNetwork (workspaceNetworkName workspaceId)

def fail {α : Type} (text : String) : CreateM α := throw (.error (.message text))

def normalized (input : CreateWorkspaceContainerInput) : CreateM Text :=
  match normalizeGitUrl parseUrl input.gitUrl input.credential with
  | .ok url => pure url
  | .error text => fail text

/-- Whether there is a secret to hand to the helper: an empty text is none. -/
def hasCredentialInput (input : CreateWorkspaceContainerInput) : Bool :=
  match input.credential with
  | some credential => !credential.secret.isEmpty
  | none => false

def attachStdin (input : CreateWorkspaceContainerInput) : CreateM Unit :=
  if hasCredentialInput input then look .attachHelper fun _ => some () else pure ()

/-- `statusCode` is what the clone in the helper exits with. -/
def runHelper (statusCode : Nat) (input : CreateWorkspaceContainerInput) (helper : Nat) : CreateM Unit := do
  attachStdin input
  change .startHelper fun d => d.start helper
  let status ← look .waitHelper fun _ => some statusCode
  if status ≠ 0 then
    if status = 42 then fail ("仓库超过工作区磁盘配额（" ++ toString (o.diskBytes / 1024 ^ 3) ++ " GiB）")
    else fail ("Git clone 失败，退出码 " ++ toString status)

def cloneRepository (statusCode : Nat) (volume : String) (input : CreateWorkspaceContainerInput) : CreateM Unit := do
  let _ ← normalized parseUrl input
  let helper ← call .createHelper fun d => d.createContainer none volume o.network
  always (runHelper o statusCode input helper) (cleanUp fun d => d.removeContainer helper)

def createWorkerContainer (workspaceId : Text) (name volume : String) : CreateM Nat :=
  call .createWorker fun d => d.createContainer (some name) volume (workspaceNetworkName workspaceId)

structure Created where
  containerName : String
  volumeName : String
  workerToken : String

/-- What create does in its `try`. -/
def provision (statusCode : Nat) (workerToken : String) (input : CreateWorkspaceContainerInput) : CreateM Created := do
  ensureWorkspaceNetwork input.id
  attachGateway o input.id
  change .createVolume fun d => some (d.createVolume (volumeName input.id))
  cloneRepository o parseUrl statusCode (volumeName input.id) input
  let container ← createWorkerContainer input.id (containerName input.id) (volumeName input.id)
  change .startWorker fun d => d.start container
  pure ⟨containerName input.id, volumeName input.id, workerToken⟩

def create (statusCode : Nat) (workerToken : String) (input : CreateWorkspaceContainerInput) : CreateM Created := do
  let _ ← normalized parseUrl input
  ensureNetwork o
  attempt (provision o parseUrl statusCode workerToken input) fun error => do
    cleanUp fun d => d.removeVolume (volumeName input.id)
    removeWorkspaceNetwork o input.id
    throw (.error error)

end Create

end Kross.Server.Orchestrator

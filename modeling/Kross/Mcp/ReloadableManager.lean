import Kross.Mcp.Generation
import Kross.Run
import Mathlib.Logic.Function.Basic

namespace Kross.Mcp

/-- What the gateway and the manager were when a generation was begun. -/
structure Before where
  tools : List ToolDefinition
  current : Option Nat

/-- The first preparation or a reload, with its generation; at most one is under way. -/
inductive Work
  | idle
  | preparing (before : Before) (next : Nat)
  | rejecting (before : Before) (next : Nat) (error : String)
  | settled (before : Before) (next : Nat) (outcome : Except String Unit)

inductive Shutdown
  | open
  | reloading
  | draining
  | retiring
  | done
  deriving DecidableEq

/-- The state of `connectReloadableMcpManager` with its gateway, and all generations
there were. None is current before the first one is prepared. -/
structure Manager where
  tools : List ToolDefinition
  generation : Nat → Generation
  begun : Nat
  current : Option Nat
  work : Work
  shutdown : Shutdown
  retired : List Nat

inductive Act
  | server (created : Except String Unit)
  | listed (answer : Except String (List ListedTool))
  | proceed
  | prepared
  | rejected
  | forgotten
  | reload (config : Except String (List ServerConfig))
  | started (generation operation : Nat)
  | finished (generation operation : Nat)
  | released (generation : Nat)
  | closed (generation client : Nat)
  | close
  | closing

namespace Manager

def modify (g : Nat) (f : Generation → Generation) (m : Manager) : Manager :=
  { m with generation := Function.update m.generation g (f (m.generation g)) }

section Preparation

def begin (servers : List ServerConfig) (m : Manager) : Manager :=
  { m.modify m.begun (fun _ => .begin servers) with
    begun := m.begun + 1
    work := .preparing ⟨m.tools, m.current⟩ m.begun }

/-- The preparation under way goes on. -/
def prepare (f : Nat → Generation → Generation) (m : Manager) : Manager :=
  match m.work with
  | .preparing _ g => m.modify g (f g)
  | _ => m

def reject (before : Before) (g : Nat) (error : String) (m : Manager) : Manager :=
  { m.modify g Generation.close with work := .rejecting before g error }

def install (g : Nat) (tools : List ToolDefinition) (m : Manager) : Manager := { m with tools, current := some g }

def retire (g : Nat) (m : Manager) : Manager := { m.modify g Generation.close with retired := m.retired ++ [g] }

def rejection (failures : List (String × String)) : String :=
  "MCP reload rejected: " ++ "; ".intercalate (failures.map (fun failure => failure.1 ++ ": " ++ failure.2))

/-- Why a prepared generation is given up, or else the gateway with its tools. -/
def swap (next : Generation) (m : Manager) : Except String (List ToolDefinition) :=
  if m.current.isSome ∧ next.failures ≠ [] then .error (rejection next.failures)
  else if m.current.isSome ∧ m.shutdown ≠ .open then .error "MCP manager is closed"
  else replaceCategory "mcp:" next.definitions m.tools

/-- All servers are through. -/
def prepared (m : Manager) : Manager :=
  match m.work with
  | .preparing before g =>
      if (m.generation g).Prepared then
        match m.swap (m.generation g), m.current with
        | .error error, _ => m.reject before g error
        | .ok tools, none => { m.install g tools with work := .idle }
        | .ok tools, some previous =>
            { (m.install g tools).retire previous with work := .settled before g (.ok ()) }
      else m
  | _ => m

def rejected (m : Manager) : Manager :=
  match m.work with
  | .rejecting before g error =>
      if (m.generation g).Closed then { m with work := .settled before g (.error error) } else m
  | _ => m

/-- `reloadPromise = undefined` -/
def forgotten (m : Manager) : Manager :=
  match m.work, m.current with
  | .settled _ _ _, some _ => { m with work := .idle }
  | _, _ => m

def reload (config : Except String (List ServerConfig)) (m : Manager) : Manager :=
  match m.work, m.shutdown with
  | .idle, .open => match config with
    | .ok servers => m.begin servers
    | .error error => { m.begin [] with work := .settled ⟨m.tools, m.current⟩ m.begun (.error error) }
  | _, _ => m

end Preparation

section Operations

/-- The definitions of the generation have been in the gateway. -/
def HandedOut (m : Manager) (g : Nat) : Prop := m.current = some g ∨ g ∈ m.retired

instance (m : Manager) (g : Nat) : Decidable (m.HandedOut g) := inferInstanceAs (Decidable (_ ∨ _))

/-- A tool call, or a request for resources or prompts. A call may hold a definition
that has since been replaced. -/
def started (g operation : Nat) (m : Manager) : Manager :=
  if m.HandedOut g then m.modify g (Generation.started operation) else m

end Operations

section Shutdown

def teardown (m : Manager) : Manager :=
  match m.current, replaceCategory "mcp:" [] m.tools with
  | some g, .ok tools => { m.modify g Generation.close with tools, shutdown := .draining }
  | _, _ => m

def close (m : Manager) : Manager :=
  match m.current, m.shutdown, m.work with
  | some _, .open, .idle => m.teardown
  | some _, .open, _ => { m with shutdown := .reloading }
  | _, _, _ => m

/-- `close` goes on once what it waits for is over. -/
def closing (m : Manager) : Manager :=
  match m.shutdown, m.work, m.current with
  | .reloading, .idle, _ => m.teardown
  | .draining, _, some g => if (m.generation g).Closed then { m with shutdown := .retiring } else m
  | .retiring, _, _ => if ∀ g ∈ m.retired, (m.generation g).Closed then { m with shutdown := .done } else m
  | _, _, _ => m

end Shutdown

def step (m : Manager) : Act → Manager
  | .server created => m.prepare (fun _ => Generation.server created)
  | .listed answer => m.prepare (fun g => Generation.listed g answer)
  | .proceed => m.prepare (fun _ => Generation.proceed)
  | .prepared => m.prepared
  | .rejected => m.rejected
  | .forgotten => m.forgotten
  | .reload config => m.reload config
  | .started g operation => m.started g operation
  | .finished g operation => m.modify g (Generation.finished operation)
  | .released g => m.modify g Generation.released
  | .closed g client => m.modify g (Generation.closed client)
  | .close => m.close
  | .closing => m.closing

/-- The first generation is begun on a gateway without MCP tools. -/
def start (tools : List ToolDefinition) (servers : List ServerConfig) : Manager :=
  begin servers
    { tools := tools.filter (fun tool => !inCategory "mcp:" tool)
      generation := fun _ => .begin []
      begun := 0
      current := none
      work := .idle
      shutdown := .open
      retired := [] }

end Manager

end Kross.Mcp

import Kross.Drain
import Kross.Session.Title

namespace Kross.Mcp

section Gateway

/-- The fields of a definition that its place in the gateway depends on. `origin` is
the generation and the client that a call of an MCP tool goes to. -/
structure ToolDefinition where
  name : String
  category : Option String
  origin : Option (Nat × Nat)
  deriving DecidableEq

def inCategory (categoryPrefix : String) (definition : ToolDefinition) : Bool :=
  definition.category.any (fun category => categoryPrefix.toList.isPrefixOf category.toList)

/-- What `replaceCategory` finds wrong with the definitions, going through them. -/
def findCollision (categoryPrefix : String) (tools : List ToolDefinition) :
    List String → List ToolDefinition → Option String
  | _, [] => none
  | incoming, definition :: definitions =>
      if definition.name ∈ incoming then some s!"Duplicate replacement tool: {definition.name}"
      else if tools.any (fun existing => existing.name = definition.name && !inCategory categoryPrefix existing) then
        some s!"Tool already registered: {definition.name}"
      else findCollision categoryPrefix tools (incoming ++ [definition.name]) definitions

def replaceCategory (categoryPrefix : String) (definitions tools : List ToolDefinition) :
    Except String (List ToolDefinition) :=
  match findCollision categoryPrefix tools [] definitions with
  | some message => .error message
  | none => .ok (tools.filter (fun tool => !inCategory categoryPrefix tool) ++ definitions)

def definitionsByCategory (categoryPrefix : String) (tools : List ToolDefinition) : List ToolDefinition :=
  tools.filter (inCategory categoryPrefix)

theorem mem_replaceCategory {categoryPrefix : String} {definitions tools tools' : List ToolDefinition}
    (h : replaceCategory categoryPrefix definitions tools = .ok tools') {tool : ToolDefinition} (ht : tool ∈ tools')
    (hc : inCategory categoryPrefix tool = true) : tool ∈ definitions := by
  rw [replaceCategory] at h
  split at h
  · cases h
  · cases h
    rcases List.mem_append.mp ht with ht | ht
    · have hnot := (List.mem_filter.mp ht).2
      rw [hc] at hnot
      cases hnot
    · exact ht

end Gateway

section Names

def isNameChar (c : Char) : Bool := c.isAlphanum || c = '_' || c = '-'

/-- Each run of characters that a name cannot have becomes one `_`. -/
def replaceRuns : Bool → List Char → List Char
  | _, [] => []
  | inRun, c :: rest =>
      if isNameChar c then c :: replaceRuns false rest
      else if inRun then replaceRuns true rest else '_' :: replaceRuns true rest

def sanitizeMcpNamePart (value : String) : String :=
  let replaced := replaceRuns false (Session.trim value.toList)
  let cleaned := (replaced.dropWhile (· = '_')).reverse.dropWhile (· = '_')
  if cleaned = [] then "tool" else String.ofList cleaned.reverse

def buildMcpToolName (serverId toolName : String) : String :=
  s!"{sanitizeMcpNamePart serverId}__{sanitizeMcpNamePart toolName}"

end Names

section Tools

/-- An entry of what a server lists. Nothing checks the entries, and one that is no
tool makes `createMcpToolDefinition` throw. -/
inductive ListedTool
  | tool (name : String)
  | malformed (message : String)

def createMcpToolDefinition (serverId : String) (origin : Nat × Nat) (name : String) : ToolDefinition :=
  ⟨buildMcpToolName serverId name, some s!"mcp:{serverId}", some origin⟩

/-- The loop over the listed tools: what the gateway has afterwards, and the names of
what was registered unless an entry broke it off. -/
def registerTools (serverId : String) (origin : Nat × Nat) :
    List ToolDefinition → List String → List ListedTool → List ToolDefinition × Except String (List String)
  | tools, names, [] => (tools, .ok names)
  | tools, _, .malformed message :: _ => (tools, .error message)
  | tools, names, .tool name :: listed =>
      let definition := createMcpToolDefinition serverId origin name
      if tools.any (·.name = definition.name) then registerTools serverId origin tools names listed
      else registerTools serverId origin (tools ++ [definition]) (names ++ [definition.name]) listed

def registerAnswer (serverId : String) (origin : Nat × Nat) (tools : List ToolDefinition) :
    Except String (List ListedTool) → List ToolDefinition × Except String (List String)
  | .error message => (tools, .error message)
  | .ok listed => registerTools serverId origin tools [] listed

/-- The new definitions all go to the client that listed them. -/
theorem origin_registerTools {serverId : String} {origin : Nat × Nat} {tools : List ToolDefinition}
    {names : List String} {listed : List ListedTool} {definition : ToolDefinition}
    (h : definition ∈ (registerTools serverId origin tools names listed).1) :
    definition ∈ tools ∨ definition.origin = some origin := by
  induction listed generalizing tools names with
  | nil => exact Or.inl h
  | cons entry listed ih =>
      cases entry with
      | malformed message => exact Or.inl h
      | tool name =>
          rw [registerTools] at h
          split_ifs at h
          · exact ih h
          · rcases ih h with hmem | horigin
            · rcases List.mem_append.mp hmem with hmem | hmem
              · exact Or.inl hmem
              · rw [List.mem_singleton] at hmem
                exact Or.inr (hmem ▸ rfl)
            · exact Or.inr horigin

end Tools

structure ServerConfig where
  serverId : String
  disabled : Bool

structure McpConnectResult where
  serverId : String
  toolNames : List String
  error : Option String

/-- Where the loop over the servers stands: before the next server, waiting for a
client to connect and list its tools, or for the one that failed to close. -/
inductive Stage
  | next
  | connecting (serverId : String) (client : Nat)
  | closing (client : Nat)
  deriving DecidableEq

def Stage.pending : Stage → Option Nat
  | .next => none
  | .connecting _ client => some client
  | .closing client => some client

/-- A run of `connectAndRegisterMcpTools` and the manager it gives. The clients that
were opened for it are numbered; `clients` are those that are connected, `closeCalled`
those on which `close` was called and `closeSettled` those where that is over. -/
structure Generation where
  servers : List ServerConfig
  stage : Stage
  staging : List ToolDefinition
  results : List McpConnectResult
  opened : Nat
  clients : List Nat
  operations : Drain Nat
  closeCalled : List Nat
  closeSettled : List Nat

namespace Generation

def begin (servers : List ServerConfig) : Generation := ⟨servers, .next, [], [], 0, [], .fresh, [], []⟩

def definitions (generation : Generation) : List ToolDefinition := definitionsByCategory "mcp:" generation.staging

def record (result : McpConnectResult) (generation : Generation) : Generation :=
  { generation with results := generation.results ++ [result] }

section Preparation

/-- The next server of the loop; `created` is what `createClient` does. -/
def server (created : Except String Unit) (generation : Generation) : Generation :=
  match generation.servers, generation.stage with
  | server :: servers, .next =>
      let generation := { generation with servers }
      if server.disabled then generation.record ⟨server.serverId, [], some "disabled"⟩
      else match created with
        | .error message => generation.record ⟨server.serverId, [], some message⟩
        | .ok () =>
            { generation with
              stage := .connecting server.serverId generation.opened
              opened := generation.opened + 1 }
  | _, _ => generation

/-- What connecting and listing the tools gives. A client that fails is closed. -/
def listed (g : Nat) (answer : Except String (List ListedTool)) (generation : Generation) : Generation :=
  match generation.stage with
  | .connecting serverId client =>
      let outcome := registerAnswer serverId (g, client) generation.staging answer
      match outcome.2 with
      | .ok names =>
          { generation.record ⟨serverId, names, none⟩ with
            stage := .next
            staging := outcome.1
            clients := generation.clients ++ [client] }
      | .error message =>
          { generation.record ⟨serverId, [], some message⟩ with
            stage := .closing client
            staging := outcome.1
            closeCalled := generation.closeCalled ++ [client] }
  | _ => generation

def proceed (generation : Generation) : Generation :=
  match generation.stage with
  | .closing client => if client ∈ generation.closeSettled then { generation with stage := .next } else generation
  | _ => generation

def Prepared (generation : Generation) : Prop := generation.servers = [] ∧ generation.stage = .next

instance (generation : Generation) : Decidable generation.Prepared := inferInstanceAs (Decidable (_ ∧ _))

/-- The errors that a reload is rejected for. -/
def failures (generation : Generation) : List (String × String) :=
  generation.results.filterMap (fun result => match result.error with
    | some error => if error ≠ "" ∧ error ≠ "disabled" then some (result.serverId, error) else none
    | none => none)

end Preparation

section Operations

def closed (client : Nat) (generation : Generation) : Generation :=
  if client ∈ generation.closeCalled then
    { generation with closeSettled := generation.closeSettled ++ [client] }
  else generation

def started (operation : Nat) (generation : Generation) : Generation :=
  { generation with operations := generation.operations.start operation }

def finished (operation : Nat) (generation : Generation) : Generation :=
  { generation with operations := generation.operations.finish operation }

def close (generation : Generation) : Generation := { generation with operations := generation.operations.close }

/-- `closeResources`, when there is no operation any more -/
def released (generation : Generation) : Generation :=
  if generation.operations.ready then
    { generation with
      operations := generation.operations.release
      closeCalled := generation.closeCalled ++ generation.clients }
  else generation

/-- The promise that `close` gives is resolved. -/
def Closed (generation : Generation) : Prop :=
  generation.operations.released = true ∧ ∀ client ∈ generation.clients, client ∈ generation.closeSettled

instance (generation : Generation) : Decidable generation.Closed := inferInstanceAs (Decidable (_ ∧ _))

end Operations

section Kept

/-- The connected clients are closed by the drain only, and the others before the
preparation goes on. -/
structure Kept (generation : Generation) : Prop where
  clients : ∀ client ∈ generation.clients, client < generation.opened
  pending : ∀ client, generation.stage.pending = some client →
    client < generation.opened ∧ client ∉ generation.clients
  connecting : ∀ serverId client, generation.stage = .connecting serverId client → client ∉ generation.closeCalled
  called : ∀ client ∈ generation.closeCalled,
    client < generation.opened ∧ (client ∈ generation.clients → generation.operations.released = true)
  ended : ∀ client < generation.opened,
    client ∈ generation.clients ∨ client ∈ generation.closeSettled ∨ generation.stage.pending = some client

variable {generation : Generation} {g : Nat}

theorem kept_begin (servers : List ServerConfig) : (begin servers).Kept := ⟨nofun, nofun, nofun, nofun, nofun⟩

theorem Kept.record (h : generation.Kept) (result : McpConnectResult) : (generation.record result).Kept :=
  ⟨h.clients, h.pending, h.connecting, h.called, h.ended⟩

theorem Kept.server (h : generation.Kept) (created : Except String Unit) : (generation.server created).Kept := by
  rw [Generation.server]
  split
  · rename_i server servers hservers hstage
    have hnext : ({ generation with servers } : Generation).Kept :=
      ⟨h.clients, h.pending, h.connecting, h.called, h.ended⟩
    dsimp only
    split_ifs
    · exact hnext.record _
    · cases created with
      | error message => exact hnext.record _
      | ok =>
          refine ⟨fun c hc => ?_, fun c hc => ?_, fun _ c hc hcalled => ?_, fun c hc => ?_, fun c hc => ?_⟩
          · exact Nat.lt_succ_of_lt (h.clients c hc)
          · cases hc
            exact ⟨Nat.lt_succ_self _, fun hmem => absurd (h.clients _ hmem) (Nat.lt_irrefl _)⟩
          · cases hc
            exact absurd (h.called _ hcalled).1 (Nat.lt_irrefl _)
          · exact ⟨Nat.lt_succ_of_lt (h.called c hc).1, (h.called c hc).2⟩
          · rcases Nat.lt_succ_iff_lt_or_eq.mp hc with hlt | rfl
            · have hended := h.ended c hlt
              rw [hstage] at hended
              rcases hended with hmem | hsettled | hpending
              · exact Or.inl hmem
              · exact Or.inr (Or.inl hsettled)
              · cases hpending
            · exact Or.inr (Or.inr rfl)
  · exact h

theorem Kept.listed (h : generation.Kept) (answer : Except String (List ListedTool)) :
    (generation.listed g answer).Kept := by
  rw [Generation.listed]
  split
  · rename_i serverId client hstage
    have hpending := h.pending client (by rw [hstage]; rfl)
    dsimp only
    split
    · refine ⟨fun c hc => ?_, nofun, nofun, fun c hc => ⟨(h.called c hc).1, fun hmem => ?_⟩, fun c hc => ?_⟩
      · rcases List.mem_append.mp hc with hc | hc
        · exact h.clients c hc
        · rw [List.mem_singleton] at hc
          exact hc ▸ hpending.1
      · rcases List.mem_append.mp hmem with hmem | hmem
        · exact (h.called c hc).2 hmem
        · rw [List.mem_singleton] at hmem
          exact absurd (hmem ▸ hc) (h.connecting serverId client hstage)
      · rcases h.ended c hc with hmem | hsettled | hstill
        · exact Or.inl (List.mem_append_left _ hmem)
        · exact Or.inr (Or.inl hsettled)
        · rw [hstage] at hstill
          cases hstill
          exact Or.inl (List.mem_append_right _ List.mem_cons_self)
    · refine ⟨h.clients, fun c hc => ?_, nofun, fun c hc => ?_, fun c hc => ?_⟩
      · cases hc
        exact hpending
      · rcases List.mem_append.mp hc with hc | hc
        · exact h.called c hc
        · rw [List.mem_singleton] at hc
          subst hc
          exact ⟨hpending.1, fun hmem => absurd hmem hpending.2⟩
      · have hended := h.ended c hc
        rwa [hstage] at hended
  · exact h

theorem Kept.proceed (h : generation.Kept) : generation.proceed.Kept := by
  rw [Generation.proceed]
  split
  · rename_i client hstage
    split_ifs with hsettled
    · refine ⟨h.clients, nofun, nofun, h.called, fun c hc => ?_⟩
      rcases h.ended c hc with hmem | hended | hpending
      · exact Or.inl hmem
      · exact Or.inr (Or.inl hended)
      · rw [hstage] at hpending
        cases hpending
        exact Or.inr (Or.inl hsettled)
    · exact h
  · exact h

theorem Kept.closed (h : generation.Kept) (client : Nat) : (generation.closed client).Kept := by
  rw [Generation.closed]
  split_ifs
  · refine ⟨h.clients, h.pending, h.connecting, h.called, fun c hc => ?_⟩
    rcases h.ended c hc with hmem | hended | hpending
    · exact Or.inl hmem
    · exact Or.inr (Or.inl (List.mem_append_left _ hended))
    · exact Or.inr (Or.inr hpending)
  · exact h

/-- What only touches the operations and does not undo the release. -/
theorem Kept.onOperations (h : generation.Kept) {operations : Drain Nat}
    (hreleased : operations.released = generation.operations.released) :
    ({ generation with operations } : Generation).Kept :=
  ⟨h.clients, h.pending, h.connecting, fun c hc => ⟨(h.called c hc).1, fun hmem =>
    hreleased.trans ((h.called c hc).2 hmem)⟩, h.ended⟩

theorem Kept.started (h : generation.Kept) (operation : Nat) : (generation.started operation).Kept :=
  h.onOperations Drain.released_start

theorem Kept.finished (h : generation.Kept) (operation : Nat) : (generation.finished operation).Kept :=
  h.onOperations Drain.released_finish

theorem Kept.close (h : generation.Kept) : generation.close.Kept := h.onOperations Drain.released_close

theorem Kept.released (h : generation.Kept) : generation.released.Kept := by
  rw [Generation.released]
  split_ifs with hready
  · have hreleased := Drain.released_release hready
    refine ⟨h.clients, h.pending, fun serverId c hc hcalled => ?_, fun c hc => ⟨?_, fun _ => hreleased⟩, h.ended⟩
    · rcases List.mem_append.mp hcalled with hcalled | hmem
      · exact h.connecting serverId c hc hcalled
      · exact (h.pending c (by rw [hc]; rfl)).2 hmem
    · rcases List.mem_append.mp hc with hc | hmem
      · exact (h.called c hc).1
      · exact h.clients c hmem
  · exact h

/-- When everything is over, every client that was opened is closed. -/
theorem Kept.all_settled (h : generation.Kept) (hprepared : generation.Prepared) (hclosed : generation.Closed) :
    ∀ client < generation.opened, client ∈ generation.closeSettled := by
  intro client hclient
  rcases h.ended client hclient with hmem | hsettled | hpending
  · exact hclosed.2 client hmem
  · exact hsettled
  · rw [hprepared.2] at hpending
    cases hpending

end Kept

section Closed

variable {generation : Generation}

theorem Closed.closed (h : generation.Closed) (client : Nat) : (generation.closed client).Closed := by
  rw [Generation.closed]
  split_ifs
  · exact ⟨h.1, fun c hc => List.mem_append_left _ (h.2 c hc)⟩
  · exact h

end Closed

end Generation

end Kross.Mcp

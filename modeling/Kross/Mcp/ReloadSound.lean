import Kross.Mcp.ReloadableManager

namespace Kross.Mcp

open Kross.Run

section Drawn

/-- The definitions all go to clients that are connected. -/
def Generation.Drawn (g : Nat) (generation : Generation) : Prop :=
  ∀ definition ∈ generation.staging, ∃ client ∈ generation.clients, definition.origin = some (g, client)

/-- The list has an entry that is no tool, and before it one that gets registered. -/
def BreaksOff (serverId : String) (tools : List ToolDefinition) (listed : List ListedTool) (message : String) : Prop :=
  ∃ before rest name, listed = before ++ .malformed message :: rest ∧ (∀ m, .malformed m ∉ before) ∧
    .tool name ∈ before ∧ ¬tools.any (·.name = buildMcpToolName serverId name)

variable {serverId message : String} {origin : Nat × Nat} {tools : List ToolDefinition} {names : List String}
  {entries : List ListedTool} {generation : Generation} {g : Nat}

theorem malformed_of_error (h : (registerTools serverId origin tools names entries).2 = .error message) :
    ∃ before rest, entries = before ++ .malformed message :: rest ∧ ∀ m, .malformed m ∉ before := by
  induction entries generalizing tools names with
  | nil => cases h
  | cons entry entries ih =>
      cases entry with
      | malformed m =>
          cases h
          exact ⟨[], entries, rfl, by simp⟩
      | tool name =>
          have hrest : ∃ tools' names', (registerTools serverId origin tools' names' entries).2 = .error message := by
            rw [registerTools] at h
            split_ifs at h
            · exact ⟨_, _, h⟩
            · exact ⟨_, _, h⟩
          obtain ⟨tools', names', hrest⟩ := hrest
          obtain ⟨before, rest, rfl, hbefore⟩ := ih hrest
          exact ⟨.tool name :: before, rest, rfl, by simpa using hbefore⟩

/-- Unless the list breaks off, an error leaves nothing registered. -/
theorem registerTools_error (h : (registerTools serverId origin tools names entries).2 = .error message) :
    (registerTools serverId origin tools names entries).1 = tools ∨ BreaksOff serverId tools entries message := by
  induction entries generalizing tools names with
  | nil => cases h
  | cons entry entries ih =>
      cases entry with
      | malformed m => exact Or.inl rfl
      | tool name =>
          obtain ⟨before, rest, hentries, hbefore⟩ := malformed_of_error h
          rw [registerTools] at h ⊢
          split_ifs at h ⊢ with htaken
          · refine (ih h).imp_right ?_
            rintro ⟨before, rest, name', rfl, hbefore, hname, hfree⟩
            exact ⟨.tool name :: before, rest, name', rfl, by simpa using hbefore, List.mem_cons_of_mem _ hname, hfree⟩
          · right
            cases before with
            | nil => cases hentries
            | cons entry before =>
                cases hentries
                exact ⟨.tool name :: before, rest, name, rfl, hbefore, List.mem_cons_self, htaken⟩

theorem Generation.Drawn.server (h : generation.Drawn g) (created : Except String Unit) :
    (generation.server created).Drawn g := by
  rw [Generation.server]
  split
  · dsimp only
    split_ifs
    · exact h
    · cases created <;> exact h
  · exact h

theorem Generation.Drawn.proceed (h : generation.Drawn g) : generation.proceed.Drawn g := by
  rw [Generation.proceed]
  split
  · split_ifs <;> exact h
  · exact h

theorem mem_registerAnswer {answer : Except String (List ListedTool)} {definition : ToolDefinition}
    (h : definition ∈ (registerAnswer serverId origin tools answer).1) :
    definition ∈ tools ∨ definition.origin = some origin := by
  cases answer with
  | error message => exact Or.inl h
  | ok listed => exact origin_registerTools h

theorem failures_record (h : generation.failures ≠ []) (result : McpConnectResult) :
    (generation.record result).failures ≠ [] := by
  rw [Generation.failures, Generation.record, List.filterMap_append]
  exact fun hnil => h (List.append_eq_nil_iff.mp hnil).1

theorem failures_server (h : generation.failures ≠ []) (created : Except String Unit) :
    (generation.server created).failures ≠ [] := by
  rw [Generation.server]
  split
  · dsimp only
    split_ifs
    · exact failures_record h _
    · cases created with
      | error message => exact failures_record h _
      | ok => exact h
  · exact h

theorem failures_listed (h : generation.failures ≠ []) (answer : Except String (List ListedTool)) :
    (generation.listed g answer).failures ≠ [] := by
  rw [Generation.listed]
  split
  · dsimp only
    split
    · exact failures_record h _
    · exact failures_record h _
  · exact h

theorem failures_proceed (h : generation.failures ≠ []) : generation.proceed.failures ≠ [] := by
  rw [Generation.proceed]
  split
  · split_ifs <;> exact h
  · exact h

/-- A server that breaks off either leaves the definitions drawn or an error that a
reload is rejected for. -/
theorem Generation.Drawn.listed (h : generation.Drawn g) (answer : Except String (List ListedTool)) {blocks : Prop}
    (hwhole : ∀ serverId client listed message, answer = .ok listed → generation.stage = .connecting serverId client →
      BreaksOff serverId generation.staging listed message → blocks ∧ message ≠ "" ∧ message ≠ "disabled") :
    (generation.listed g answer).Drawn g ∨ blocks ∧ (generation.listed g answer).failures ≠ [] := by
  rw [Generation.listed]
  split
  · rename_i serverId client hstage
    dsimp only
    split
    · left
      intro definition hdefinition
      rcases mem_registerAnswer hdefinition with hmem | horigin
      · obtain ⟨c, hc, horigin⟩ := h definition hmem
        exact ⟨c, List.mem_append_left _ hc, horigin⟩
      · exact ⟨client, List.mem_append_right _ List.mem_cons_self, horigin⟩
    · rename_i message herror
      cases answer with
      | error message => exact Or.inl h
      | ok listed =>
          rcases registerTools_error herror with hsame | hbreaks
          · left
            intro definition hdefinition
            refine h definition ?_
            rw [← hsame]
            exact hdefinition
          · obtain ⟨hblocks, hempty, hdisabled⟩ := hwhole serverId client listed message rfl hstage hbreaks
            refine Or.inr ⟨hblocks, ?_⟩
            simp [Generation.failures, Generation.record, hempty, hdisabled]
  · exact Or.inl h

end Drawn

section Same

/-- What happens to a generation apart from its preparation. -/
structure Generation.Same (generation generation' : Generation) : Prop where
  servers : generation'.servers = generation.servers
  stage : generation'.stage = generation.stage
  staging : generation'.staging = generation.staging
  results : generation'.results = generation.results
  opened : generation'.opened = generation.opened
  clients : generation'.clients = generation.clients
  settled : generation.closeSettled ⊆ generation'.closeSettled
  released : generation.operations.released = true → generation'.operations.released = true

variable {generation generation' : Generation} {g : Nat}

theorem same_onOperations {operations : Drain Nat}
    (h : generation.operations.released = true → operations.released = true) :
    generation.Same { generation with operations } := ⟨rfl, rfl, rfl, rfl, rfl, rfl, fun _ hc => hc, h⟩

theorem same_started (operation : Nat) : generation.Same (generation.started operation) :=
  same_onOperations (fun h => by rwa [Drain.released_start])

theorem same_finished (operation : Nat) : generation.Same (generation.finished operation) :=
  same_onOperations (fun h => by rwa [Drain.released_finish])

theorem same_close : generation.Same generation.close := same_onOperations (fun h => h)

theorem same_released : generation.Same generation.released := by
  rw [Generation.released]
  split_ifs with hready
  · exact ⟨rfl, rfl, rfl, rfl, rfl, rfl, fun _ hc => hc, fun _ => Drain.released_release hready⟩
  · exact ⟨rfl, rfl, rfl, rfl, rfl, rfl, fun _ hc => hc, fun h => h⟩

theorem same_closed (client : Nat) : generation.Same (generation.closed client) := by
  rw [Generation.closed]
  split_ifs
  · exact ⟨rfl, rfl, rfl, rfl, rfl, rfl, fun _ hc => List.mem_append_left _ hc, fun h => h⟩
  · exact ⟨rfl, rfl, rfl, rfl, rfl, rfl, fun _ hc => hc, fun h => h⟩

theorem Generation.Same.prepared (h : generation.Same generation') (hp : generation.Prepared) : generation'.Prepared :=
  ⟨h.servers.trans hp.1, h.stage.trans hp.2⟩

theorem Generation.Same.closed (h : generation.Same generation') (hc : generation.Closed) : generation'.Closed :=
  ⟨h.released hc.1, fun c hmem => h.settled (hc.2 c (h.clients ▸ hmem))⟩

theorem Generation.Same.drawn (h : generation.Same generation') (hd : generation.Drawn g) : generation'.Drawn g := by
  intro definition hdefinition
  rw [h.staging] at hdefinition
  rw [h.clients]
  exact hd definition hdefinition

theorem Generation.Same.definitions (h : generation.Same generation') : generation'.definitions = generation.definitions := by
  rw [Generation.definitions, Generation.definitions, h.staging]

theorem Generation.Same.failures (h : generation.Same generation') : generation'.failures = generation.failures := by
  rw [Generation.failures, Generation.failures, h.results]

end Same

section Kept

/-- The generation that is being prepared. -/
def Work.making : Work → Option Nat
  | .preparing _ g => some g
  | _ => none

/-- The generation that is being prepared or given up. -/
def Work.next : Work → Option Nat
  | .preparing _ g => some g
  | .rejecting _ g _ => some g
  | _ => none

/-- The generation that is not handed out, or not yet. -/
def Work.aside : Work → Option Nat
  | .preparing _ g => some g
  | .rejecting _ g _ => some g
  | .settled _ g (.error _) => some g
  | _ => none

def Work.before : Work → Option Before
  | .preparing before _ => some before
  | .rejecting before _ _ => some before
  | .settled before _ (.error _) => some before
  | _ => none

def Shutdown.torn : Shutdown → Bool
  | .open | .reloading => false
  | .draining | .retiring | .done => true

structure Manager.Kept (m : Manager) : Prop where
  fresh : ∀ g, m.begun ≤ g → m.generation g = .begin []
  kept : ∀ g, (m.generation g).Kept
  prepared : ∀ g, m.work.making ≠ some g → (m.generation g).Prepared
  running : ∀ g, ¬m.HandedOut g → (m.generation g).operations.running = []
  handed : ∀ g, m.HandedOut g → g < m.begun
  aside : ∀ g, m.work.aside = some g → g < m.begun ∧ ¬m.HandedOut g
  given : ∀ g, ¬m.HandedOut g → m.work.next ≠ some g →
    ∀ client < (m.generation g).opened, client ∈ (m.generation g).closeSettled
  drawn : ∀ g, m.HandedOut g → (m.generation g).Drawn g
  drawing : ∀ g, m.work.making = some g →
    (m.generation g).Drawn g ∨ m.current ≠ none ∧ (m.generation g).failures ≠ []
  tools : ∀ tool ∈ m.tools, inCategory "mcp:" tool = true →
    ∃ g, m.current = some g ∧ tool ∈ (m.generation g).definitions
  before : ∀ before, m.work.before = some before → m.tools = before.tools ∧ m.current = before.current
  torn : m.shutdown.torn = true → (∀ tool ∈ m.tools, inCategory "mcp:" tool = false) ∧ m.work = .idle
  drained : m.shutdown = .retiring ∨ m.shutdown = .done → ∀ g, m.current = some g → (m.generation g).Closed
  retired : m.shutdown = .done → ∀ g ∈ m.retired, (m.generation g).Closed

variable {m : Manager} {g : Nat} {f : Generation → Generation}

theorem Work.aside_of_making {work : Work} (h : work.making = some g) : work.aside = some g ∧ work.next = some g := by
  cases work with
  | preparing before next =>
      cases h
      exact ⟨rfl, rfl⟩
  | idle | rejecting | settled => cases h

theorem forall_modify {P : Nat → Generation → Prop} (h : ∀ g', g' ≠ g → P g' (m.generation g'))
    (hg : P g (f (m.generation g))) (g' : Nat) : P g' ((m.modify g f).generation g') := by
  rw [Manager.modify]
  dsimp only
  rw [Function.update_apply]
  split_ifs with he
  · exact he ▸ hg
  · exact h g' he

theorem Manager.Kept.operate (h : m.Kept) (hsame : (m.generation g).Same (f (m.generation g)))
    (hkept : (f (m.generation g)).Kept) (hfresh : m.begun ≤ g → f (m.generation g) = m.generation g)
    (hrunning : ¬m.HandedOut g → (f (m.generation g)).operations.running = []) : (m.modify g f).Kept where
  fresh := forall_modify (P := fun g' generation => m.begun ≤ g' → generation = .begin [])
    (fun g' _ => h.fresh g') (fun hg => (hfresh hg).trans (h.fresh g hg))
  kept := forall_modify (P := fun _ generation => generation.Kept) (fun g' _ => h.kept g') hkept
  prepared := forall_modify (P := fun g' generation => m.work.making ≠ some g' → generation.Prepared)
    (fun g' _ => h.prepared g') (fun hg => hsame.prepared (h.prepared g hg))
  running := forall_modify (P := fun g' generation => ¬m.HandedOut g' → generation.operations.running = [])
    (fun g' _ => h.running g') hrunning
  handed := h.handed
  aside := h.aside
  given := forall_modify (P := fun g' generation => ¬m.HandedOut g' → m.work.next ≠ some g' →
      ∀ client < generation.opened, client ∈ generation.closeSettled)
    (fun g' _ => h.given g') (fun hg hnext client hc => hsame.settled (h.given g hg hnext client (hsame.opened ▸ hc)))
  drawn := forall_modify (P := fun g' generation => m.HandedOut g' → generation.Drawn g')
    (fun g' _ => h.drawn g') (fun hg => hsame.drawn (h.drawn g hg))
  drawing := forall_modify (P := fun g' generation => m.work.making = some g' →
      generation.Drawn g' ∨ m.current ≠ none ∧ generation.failures ≠ [])
    (fun g' _ => h.drawing g') (fun hg => by
      rw [hsame.failures]
      exact (h.drawing g hg).imp_left hsame.drawn)
  tools tool htool hmcp := by
    obtain ⟨g', hg', hmem⟩ := h.tools tool htool hmcp
    exact ⟨g', hg', forall_modify (P := fun g' generation => tool ∈ (m.generation g').definitions →
      tool ∈ generation.definitions) (fun _ _ hmem => hmem) (fun hmem => hsame.definitions.symm ▸ hmem) g' hmem⟩
  before := h.before
  torn := h.torn
  drained hs := forall_modify (P := fun g' generation => m.current = some g' → generation.Closed)
    (fun g' _ => h.drained hs g') (fun hg => hsame.closed (h.drained hs g hg))
  retired hs := forall_modify (P := fun g' generation => g' ∈ m.retired → generation.Closed)
    (fun g' _ => h.retired hs g') (fun hg => hsame.closed (h.retired hs g hg))

theorem Manager.Kept.prepare (h : m.Kept) {f : Nat → Generation → Generation}
    (hkept : ∀ g, (m.generation g).Kept → (f g (m.generation g)).Kept)
    (hoperations : ∀ g, (f g (m.generation g)).operations = (m.generation g).operations)
    (hdrawing : ∀ g, m.work.making = some g → (m.generation g).Drawn g ∨ m.current ≠ none ∧ (m.generation g).failures ≠ [] →
      (f g (m.generation g)).Drawn g ∨ m.current ≠ none ∧ (f g (m.generation g)).failures ≠ []) :
    (m.prepare f).Kept := by
  rw [Manager.prepare]
  split
  · rename_i before g hwork
    have hmaking : m.work.making = some g := by rw [hwork]; rfl
    obtain ⟨haside, hnext⟩ := Work.aside_of_making hmaking
    obtain ⟨hbegun, hout⟩ := h.aside g haside
    exact
      { fresh := forall_modify (P := fun g' generation => m.begun ≤ g' → generation = .begin [])
          (fun g' _ => h.fresh g') (fun hg => absurd hbegun (Nat.not_lt.mpr hg))
        kept := forall_modify (P := fun _ generation => generation.Kept) (fun g' _ => h.kept g') (hkept g (h.kept g))
        prepared := forall_modify (P := fun g' generation => m.work.making ≠ some g' → generation.Prepared)
          (fun g' _ => h.prepared g') (fun hg => absurd hmaking hg)
        running := forall_modify (P := fun g' generation => ¬m.HandedOut g' → generation.operations.running = [])
          (fun g' _ => h.running g') (fun hg => by rw [hoperations]; exact h.running g hg)
        handed := h.handed
        aside := h.aside
        given := forall_modify (P := fun g' generation => ¬m.HandedOut g' → m.work.next ≠ some g' →
            ∀ client < generation.opened, client ∈ generation.closeSettled)
          (fun g' _ => h.given g') (fun _ hg => absurd hnext hg)
        drawn := forall_modify (P := fun g' generation => m.HandedOut g' → generation.Drawn g')
          (fun g' _ => h.drawn g') (fun hg => absurd hg hout)
        drawing := forall_modify (P := fun g' generation => m.work.making = some g' →
            generation.Drawn g' ∨ m.current ≠ none ∧ generation.failures ≠ [])
          (fun g' _ => h.drawing g') (fun hg => hdrawing g hg (h.drawing g hg))
        tools := fun tool htool hmcp => by
          obtain ⟨g', hg', hmem⟩ := h.tools tool htool hmcp
          exact ⟨g', hg', forall_modify (P := fun g' generation => m.current = some g' →
            tool ∈ (m.generation g').definitions → tool ∈ generation.definitions) (fun _ _ _ hmem => hmem)
            (fun hg _ => absurd (Or.inl hg) hout) g' hg' hmem⟩
        before := h.before
        torn := h.torn
        drained := fun hs => forall_modify (P := fun g' generation => m.current = some g' → generation.Closed)
          (fun g' _ => h.drained hs g') (fun hg => absurd (Or.inl hg) hout)
        retired := fun hs => forall_modify (P := fun g' generation => g' ∈ m.retired → generation.Closed)
          (fun g' _ => h.retired hs g') (fun hg => absurd (Or.inr hg) hout) }
  · exact h

theorem Manager.Kept.rework (h : m.Kept) {work : Work} (hmaking : work.making = none)
    (hprepared : ∀ g, m.work.making = some g → (m.generation g).Prepared)
    (haside : ∀ g, work.aside = some g → m.work.aside = some g)
    (hnext : ∀ g, m.work.next = some g → work.next = some g ∨
      ∀ client < (m.generation g).opened, client ∈ (m.generation g).closeSettled)
    (hbefore : ∀ before, work.before = some before → m.work.before = some before)
    (htorn : m.shutdown.torn = true → work = .idle) : ({ m with work } : Manager).Kept where
  fresh := h.fresh
  kept := h.kept
  prepared g _ := by
    by_cases hg : m.work.making = some g
    · exact hprepared g hg
    · exact h.prepared g hg
  running := h.running
  handed := h.handed
  aside g hg := h.aside g (haside g hg)
  given g hg hwork := by
    by_cases hold : m.work.next = some g
    · exact (hnext g hold).resolve_left hwork
    · exact h.given g hg hold
  drawn := h.drawn
  drawing g hg := by
    rw [hmaking] at hg
    cases hg
  tools := h.tools
  before before hb := h.before before (hbefore before hb)
  torn hs := ⟨(h.torn hs).1, htorn hs⟩
  drained := h.drained
  retired := h.retired

theorem Manager.Kept.closeOperations (h : m.Kept) (hg : g < m.begun) : (m.modify g Generation.close).Kept :=
  h.operate same_close (h.kept g).close (fun hbegun => absurd hg (Nat.not_lt.mpr hbegun)) (fun hout => h.running g hout)

theorem Manager.Kept.reject (h : m.Kept) {before : Before} (hwork : m.work = .preparing before g)
    (hprepared : (m.generation g).Prepared) (error : String) : (m.reject before g error).Kept := by
  have hg : g < m.begun := (h.aside g (by rw [hwork]; rfl)).1
  refine (h.closeOperations hg).rework rfl (fun g' hg' => ?_) (fun g' hg' => ?_) (fun g' hg' => ?_) (fun before' hb => ?_)
    (fun hs => ?_)
  · change m.work.making = some g' at hg'
    rw [hwork] at hg'
    cases hg'
    exact forall_modify (P := fun g' generation => g' = g → generation.Prepared) (fun _ hne he => absurd he hne)
      (fun _ => same_close.prepared hprepared) g rfl
  · change m.work.aside = some g'
    rwa [hwork]
  · change m.work.next = some g' at hg'
    rw [hwork] at hg'
    exact Or.inl hg'
  · change m.work.before = some before'
    rwa [hwork]
  · have htorn := (h.torn hs).2
    rw [hwork] at htorn
    cases htorn

/-- The new generation takes the place of the current one, if there is one. -/
theorem Manager.Kept.install (h : m.Kept) {before : Before} (hwork : m.work = .preparing before g)
    (hprepared : (m.generation g).Prepared) {tools : List ToolDefinition} (hswap : m.swap (m.generation g) = .ok tools)
    (work : Work) (hmaking : work.making = none) (hnext : work.next = none) (haside : work.aside = none)
    (hbefore : work.before = none) :
    ({ m with tools, current := some g, retired := m.retired ++ m.current.toList, work } : Manager).Kept := by
  have hmade : m.work.making = some g := by rw [hwork]; rfl
  have hg := h.aside g (Work.aside_of_making hmade).1
  have hnottorn : m.shutdown.torn = false := by
    cases hs : m.shutdown.torn with
    | false => rfl
    | true =>
        have htorn := (h.torn hs).2
        rw [hwork] at htorn
        cases htorn
  have hout : ∀ g', ({ m with tools, current := some g, retired := m.retired ++ m.current.toList, work } :
      Manager).HandedOut g' ↔ g' = g ∨ m.HandedOut g' := by
    intro g'
    simp only [Manager.HandedOut, Option.some.injEq, List.mem_append, Option.mem_toList]
    constructor
    · rintro (rfl | hretired | hcurrent)
      · exact Or.inl rfl
      · exact Or.inr (Or.inr hretired)
      · exact Or.inr (Or.inl hcurrent)
    · rintro (rfl | hcurrent | hretired)
      · exact Or.inl rfl
      · exact Or.inr (Or.inr hcurrent)
      · exact Or.inr (Or.inl hretired)
  have hdrawn : (m.generation g).Drawn g ∧ replaceCategory "mcp:" (m.generation g).definitions m.tools = .ok tools := by
    rw [Manager.swap] at hswap
    split_ifs at hswap with hfailures hclosed
    refine ⟨(h.drawing g hmade).resolve_right (fun hblocked => hfailures ?_), hswap⟩
    exact ⟨Option.isSome_iff_ne_none.mpr hblocked.1, hblocked.2⟩
  constructor
  · exact h.fresh
  · exact h.kept
  · intro g' _
    by_cases hg' : m.work.making = some g'
    · rw [hmade] at hg'
      cases hg'
      exact hprepared
    · exact h.prepared g' hg'
  · intro g' hg'
    rw [hout, not_or] at hg'
    exact h.running g' hg'.2
  · intro g' hg'
    rcases (hout g').mp hg' with rfl | hold
    · exact hg.1
    · exact h.handed g' hold
  · intro g' hg'
    rw [haside] at hg'
    cases hg'
  · intro g' hg' _
    rw [hout, not_or] at hg'
    refine h.given g' hg'.2 ?_
    rw [hwork]
    exact fun he => hg'.1 (Option.some.inj he).symm
  · intro g' hg'
    rcases (hout g').mp hg' with rfl | hold
    · exact hdrawn.1
    · exact h.drawn g' hold
  · intro g' hg'
    rw [hmaking] at hg'
    cases hg'
  · intro tool htool hmcp
    exact ⟨g, rfl, mem_replaceCategory hdrawn.2 htool hmcp⟩
  · intro before' hb
    rw [hbefore] at hb
    cases hb
  · intro hs
    rw [hnottorn] at hs
    cases hs
  · intro hs
    change m.shutdown = .retiring ∨ m.shutdown = .done at hs
    rcases hs with hs | hs <;> rw [hs] at hnottorn <;> cases hnottorn
  · intro hs
    change m.shutdown = .done at hs
    rw [hs] at hnottorn
    cases hnottorn

theorem Manager.Kept.prepared' (h : m.Kept) : m.prepared.Kept := by
  rw [Manager.prepared]
  split
  · rename_i before g hwork
    split_ifs with hprepared
    · split
      · exact h.reject hwork hprepared _
      · rename_i tools hswap hcurrent
        have hinstall := h.install hwork hprepared hswap .idle rfl rfl rfl rfl
        rw [hcurrent, Option.toList_none, List.append_nil] at hinstall
        exact hinstall
      · rename_i tools previous hswap hcurrent
        have hinstall := h.install hwork hprepared hswap (.settled before g (.ok ())) rfl rfl rfl rfl
        rw [hcurrent, Option.toList_some] at hinstall
        exact hinstall.closeOperations (h.handed previous (Or.inl hcurrent))
    · exact h
  · exact h

theorem Manager.Kept.rejected (h : m.Kept) : m.rejected.Kept := by
  rw [Manager.rejected]
  split
  · rename_i before g error hwork
    have hprepared := h.prepared g (by rw [hwork]; nofun)
    split_ifs with hclosed
    · refine h.rework rfl (fun g' hg' => ?_) (fun g' hg' => by rwa [hwork]) (fun g' hg' => ?_)
        (fun before' hb => by rwa [hwork]) (fun hs => ?_)
      · rw [hwork] at hg'
        cases hg'
      · rw [hwork] at hg'
        cases hg'
        exact Or.inr ((h.kept g).all_settled hprepared hclosed)
      · have htorn := (h.torn hs).2
        rw [hwork] at htorn
        cases htorn
    · exact h
  · exact h

theorem Manager.Kept.forgotten (h : m.Kept) : m.forgotten.Kept := by
  rw [Manager.forgotten]
  split
  · rename_i before g outcome previous hwork hcurrent
    refine h.rework rfl (fun g' hg' => ?_) nofun (fun g' hg' => ?_) nofun (fun _ => rfl)
    · rw [hwork] at hg'
      cases hg'
    · rw [hwork] at hg'
      cases hg'
  · exact h

/-- A generation that has just begun, whether or not its servers are known. -/
theorem Manager.Kept.begun (h : m.Kept) (hidle : m.work = .idle) (hs : m.shutdown.torn = false) (servers : List ServerConfig)
    (work : Work) (hmaking : work.making = some m.begun ∨ work.making = none ∧ servers = [])
    (hnext : ∀ g, work.next = some g → g = m.begun) (haside : ∀ g, work.aside = some g → g = m.begun)
    (hbefore : ∀ before, work.before = some before → before = ⟨m.tools, m.current⟩) :
    ({ m.begin servers with work } : Manager).Kept := by
  have hout : ¬m.HandedOut m.begun := fun hg => absurd (h.handed m.begun hg) (Nat.lt_irrefl _)
  constructor
  · exact forall_modify (f := fun _ => .begin servers) (P := fun g' generation => m.begun + 1 ≤ g' → generation = .begin [])
      (fun g' _ hg' => h.fresh g' (Nat.le_of_succ_le hg')) (fun hg => absurd hg (Nat.not_succ_le_self _))
  · exact forall_modify (f := fun _ => .begin servers) (P := fun _ generation => generation.Kept) (fun g' _ => h.kept g')
      (Generation.kept_begin servers)
  · refine forall_modify (f := fun _ => .begin servers) (P := fun g' generation => work.making ≠ some g' → generation.Prepared)
      (fun g' _ _ => h.prepared g' (by rw [hidle]; nofun)) (fun hg => ?_)
    rcases hmaking with hmaking | ⟨-, rfl⟩
    · exact absurd hmaking hg
    · exact ⟨rfl, rfl⟩
  · exact forall_modify (f := fun _ => .begin servers) (P := fun g' generation => ¬m.HandedOut g' → generation.operations.running = [])
      (fun g' _ => h.running g') (fun _ => rfl)
  · exact fun g' hg' => Nat.lt_succ_of_lt (h.handed g' hg')
  · intro g' hg'
    rw [haside g' hg']
    exact ⟨Nat.lt_succ_self _, hout⟩
  · exact forall_modify (f := fun _ => .begin servers) (P := fun g' generation => ¬m.HandedOut g' → work.next ≠ some g' →
        ∀ client < generation.opened, client ∈ generation.closeSettled)
      (fun g' _ hg' _ => h.given g' hg' (by rw [hidle]; nofun)) (fun _ _ _ hlt => absurd hlt (Nat.not_lt_zero _))
  · exact forall_modify (f := fun _ => .begin servers) (P := fun g' generation => m.HandedOut g' → generation.Drawn g')
      (fun g' _ => h.drawn g') (fun _ _ hnone => by cases hnone)
  · refine forall_modify (f := fun _ => .begin servers) (P := fun g' generation => work.making = some g' →
        generation.Drawn g' ∨ m.current ≠ none ∧ generation.failures ≠ []) (fun g' hne hg' => ?_) (fun _ => Or.inl (fun _ hnone => by cases hnone))
    exact absurd (hnext g' (Work.aside_of_making hg').2) hne
  · intro tool htool hmcp
    obtain ⟨g', hg', hmem⟩ := h.tools tool htool hmcp
    exact ⟨g', hg', forall_modify (f := fun _ => .begin servers) (P := fun g' generation => m.current = some g' →
      tool ∈ (m.generation g').definitions → tool ∈ generation.definitions) (fun _ _ _ hmem => hmem)
      (fun hg _ => absurd (Or.inl hg) hout) g' hg' hmem⟩
  · intro before hb
    rw [hbefore before hb]
    exact ⟨rfl, rfl⟩
  · intro htorn
    exact absurd (hs.symm.trans htorn) Bool.false_ne_true
  · intro hdone
    change m.shutdown = .retiring ∨ m.shutdown = .done at hdone
    rcases hdone with hdone | hdone <;> rw [hdone] at hs <;> cases hs
  · intro hdone
    change m.shutdown = .done at hdone
    rw [hdone] at hs
    cases hs

theorem Manager.Kept.reload (h : m.Kept) (config : Except String (List ServerConfig)) : (m.reload config).Kept := by
  unfold Manager.reload
  split
  · rename_i hidle hopen
    have hs : m.shutdown.torn = false := by rw [hopen]; rfl
    cases config with
    | ok servers =>
        exact h.begun hidle hs servers (.preparing ⟨m.tools, m.current⟩ m.begun) (Or.inl rfl)
          (fun _ hg => (Option.some.inj hg).symm) (fun _ hg => (Option.some.inj hg).symm)
          (fun _ hb => (Option.some.inj hb).symm)
    | error error =>
        exact h.begun hidle hs [] (.settled ⟨m.tools, m.current⟩ m.begun (.error error)) (Or.inr ⟨rfl, rfl⟩)
          nofun (fun _ hg => (Option.some.inj hg).symm) (fun _ hb => (Option.some.inj hb).symm)
  · exact h

theorem Manager.Kept.teardown (h : m.Kept) (hidle : m.work = .idle) : m.teardown.Kept := by
  rw [Manager.teardown]
  split
  · rename_i g tools hcurrent hreplace
    have hkept := h.closeOperations (h.handed g (Or.inl hcurrent))
    have hgone : ∀ tool ∈ tools, inCategory "mcp:" tool = false := by
      intro tool htool
      cases hmcp : inCategory "mcp:" tool with
      | false => rfl
      | true => cases mem_replaceCategory hreplace htool hmcp
    exact
      { fresh := hkept.fresh
        kept := hkept.kept
        prepared := hkept.prepared
        running := hkept.running
        handed := hkept.handed
        aside := hkept.aside
        given := hkept.given
        drawn := hkept.drawn
        drawing := hkept.drawing
        tools := fun tool htool hmcp => absurd (hmcp.symm.trans (hgone tool htool)) (by nofun)
        before := fun before hb => by
          change m.work.before = some before at hb
          rw [hidle] at hb
          cases hb
        torn := fun _ => ⟨hgone, hidle⟩
        drained := fun hdone => by rcases hdone with hdone | hdone <;> cases hdone
        retired := fun hdone => by cases hdone }
  · exact h

theorem Manager.Kept.close (h : m.Kept) : m.close.Kept := by
  rw [Manager.close]
  split
  · rename_i _ _ hidle
    exact h.teardown hidle
  · exact ⟨h.fresh, h.kept, h.prepared, h.running, h.handed, h.aside, h.given, h.drawn, h.drawing, h.tools, h.before,
      nofun, (fun hdone => by rcases hdone with hdone | hdone <;> cases hdone), nofun⟩
  · exact h

theorem Manager.Kept.closing (h : m.Kept) : m.closing.Kept := by
  rw [Manager.closing]
  split
  · rename_i _ hidle
    exact h.teardown hidle
  · rename_i g hdraining hcurrent
    split_ifs with hclosed
    · refine ⟨h.fresh, h.kept, h.prepared, h.running, h.handed, h.aside, h.given, h.drawn, h.drawing, h.tools, h.before,
        fun _ => h.torn (by rw [hdraining]; rfl), fun _ g' hg' => ?_, nofun⟩
      change m.current = some g' at hg'
      rw [hcurrent] at hg'
      cases hg'
      exact hclosed
    · exact h
  · rename_i hretiring
    split_ifs with hclosed
    · exact ⟨h.fresh, h.kept, h.prepared, h.running, h.handed, h.aside, h.given, h.drawn, h.drawing, h.tools, h.before,
        fun _ => h.torn (by rw [hretiring]; rfl), fun _ => h.drained (Or.inl hretiring), fun _ => hclosed⟩
    · exact h
  · exact h

end Kept

section Runs

variable {m : Manager}

/-- A server's list does not break off after a tool of it was registered, or else the
generation is one of a reload and the error is one that it is rejected for. -/
def Act.Whole (m : Manager) : Act → Prop
  | .listed answer => ∀ before g serverId client entries message, m.work = .preparing before g →
      (m.generation g).stage = .connecting serverId client → answer = .ok entries →
      BreaksOff serverId (m.generation g).staging entries message →
      m.current ≠ none ∧ message ≠ "" ∧ message ≠ "disabled"
  | _ => True

theorem Generation.operations_server (generation : Generation) (created : Except String Unit) :
    (generation.server created).operations = generation.operations := by
  rw [Generation.server]
  split
  · dsimp only
    split_ifs
    · rfl
    · cases created <;> rfl
  · rfl

theorem Generation.operations_listed (generation : Generation) (g : Nat) (answer : Except String (List ListedTool)) :
    (generation.listed g answer).operations = generation.operations := by
  rw [Generation.listed]
  split
  · dsimp only
    split <;> rfl
  · rfl

theorem Generation.operations_proceed (generation : Generation) : generation.proceed.operations = generation.operations := by
  rw [Generation.proceed]
  split
  · split_ifs <;> rfl
  · rfl

theorem Manager.Kept.listed (h : m.Kept) {answer : Except String (List ListedTool)} (ha : Act.Whole m (.listed answer)) :
    (m.prepare (fun g => Generation.listed g answer)).Kept := by
  refine h.prepare (fun g hg => hg.listed answer) (fun g => (m.generation g).operations_listed g answer)
    (fun g hmaking hdrawing => ?_)
  rcases hdrawing with hdrawn | ⟨hcurrent, hfailures⟩
  · obtain ⟨before, hwork⟩ : ∃ before, m.work = .preparing before g := by
      cases hwork : m.work with
      | preparing before next =>
          rw [hwork] at hmaking
          cases hmaking
          exact ⟨before, rfl⟩
      | idle | rejecting | settled =>
          rw [hwork] at hmaking
          cases hmaking
    exact hdrawn.listed answer (fun serverId client entries message hanswer hstage hbreaks =>
      ha before g serverId client entries message hwork hstage hanswer hbreaks)
  · exact Or.inr ⟨hcurrent, failures_listed hfailures answer⟩

theorem Manager.Kept.started (h : m.Kept) (g operation : Nat) : (m.started g operation).Kept := by
  rw [Manager.started]
  split_ifs with hout
  · exact h.operate (same_started operation) ((h.kept g).started operation)
      (fun hbegun => absurd (h.handed g hout) (Nat.not_lt.mpr hbegun)) (fun hnot => absurd hout hnot)
  · exact h

theorem Manager.Kept.finished (h : m.Kept) (g operation : Nat) :
    (m.modify g (Generation.finished operation)).Kept := by
  refine h.operate (same_finished operation) ((h.kept g).finished operation) (fun hbegun => ?_) (fun hout => ?_)
  · rw [h.fresh g hbegun]
    rfl
  · refine List.eq_nil_iff_forall_not_mem.mpr (fun op hop => ?_)
    have hbefore := Drain.mem_running_finish hop
    rw [h.running g hout] at hbefore
    cases hbefore

theorem Manager.Kept.released (h : m.Kept) (g : Nat) : (m.modify g Generation.released).Kept := by
  refine h.operate same_released (h.kept g).released (fun hbegun => ?_) (fun hout => ?_)
  · rw [h.fresh g hbegun]
    rfl
  · have hrunning := h.running g hout
    rw [Generation.released]
    split_ifs
    · exact Drain.running_release.trans hrunning
    · exact hrunning

theorem Manager.Kept.closed (h : m.Kept) (g client : Nat) : (m.modify g (Generation.closed client)).Kept := by
  refine h.operate (same_closed client) ((h.kept g).closed client) (fun hbegun => ?_) (fun hout => ?_)
  · rw [h.fresh g hbegun]
    rfl
  · have hrunning := h.running g hout
    rw [Generation.closed]
    split_ifs <;> exact hrunning

theorem Manager.Kept.step (h : m.Kept) {act : Act} (ha : act.Whole m) : (m.step act).Kept := by
  cases act with
  | server created =>
      exact h.prepare (fun g hg => hg.server created) (fun g => (m.generation g).operations_server created)
        (fun g _ hdrawing => hdrawing.imp (fun hdrawn => hdrawn.server created)
          (fun hblocked => ⟨hblocked.1, failures_server hblocked.2 created⟩))
  | listed answer => exact h.listed ha
  | proceed =>
      exact h.prepare (fun g hg => hg.proceed) (fun g => (m.generation g).operations_proceed)
        (fun g _ hdrawing => hdrawing.imp (fun hdrawn => hdrawn.proceed)
          (fun hblocked => ⟨hblocked.1, failures_proceed hblocked.2⟩))
  | prepared => exact h.prepared'
  | rejected => exact h.rejected
  | forgotten => exact h.forgotten
  | reload config => exact h.reload config
  | started g operation => exact h.started g operation
  | finished g operation => exact h.finished g operation
  | released g => exact h.released g
  | closed g client => exact h.closed g client
  | close => exact h.close
  | closing => exact h.closing

theorem kept_start (tools : List ToolDefinition) (servers : List ServerConfig) : (Manager.start tools servers).Kept := by
  have hempty : ({ tools := tools.filter (fun tool => !inCategory "mcp:" tool)
                   generation := fun _ => .begin []
                   begun := 0
                   current := none
                   work := .idle
                   shutdown := .open
                   retired := [] } : Manager).Kept := by
    have hout : ∀ g, ¬((none : Option Nat) = some g ∨ g ∈ ([] : List Nat)) := by simp
    refine ⟨fun _ _ => rfl, fun _ => Generation.kept_begin [], fun _ _ => ⟨rfl, rfl⟩, fun _ _ => rfl,
      fun g hg => absurd hg (hout g), nofun, fun _ _ _ c hc => absurd hc (Nat.not_lt_zero c), fun g hg => absurd hg (hout g),
      nofun, fun tool htool hmcp => ?_, nofun, nofun, nofun, nofun⟩
    have hnot := (List.mem_filter.mp htool).2
    rw [hmcp] at hnot
    cases hnot
  exact hempty.begun rfl rfl servers _ (Or.inl rfl) (fun _ hg => (Option.some.inj hg).symm)
    (fun _ hg => (Option.some.inj hg).symm) (fun _ hb => (Option.some.inj hb).symm)

/-- The clients that operations of a generation can go to. -/
def Generation.Uses (g : Nat) (generation : Generation) (client : Nat) : Prop :=
  client ∈ generation.clients ∨ ∃ definition ∈ generation.definitions, definition.origin = some (g, client)

structure Manager.Sound (m : Manager) : Prop where
  drains : ∀ g, ∀ operation ∈ (m.generation g).operations.running,
    ∀ client, (m.generation g).Uses g client → client ∉ (m.generation g).closeCalled
  tools : ∀ tool ∈ m.tools, inCategory "mcp:" tool = true →
    ∃ g client, m.current = some g ∧ (m.generation g).Prepared ∧ tool ∈ (m.generation g).definitions ∧
      tool.origin = some (g, client) ∧ client ∈ (m.generation g).clients
  unchanged : ∀ before g error, m.work = .settled before g (.error error) →
    m.tools = before.tools ∧ m.current = before.current ∧
      ∀ client < (m.generation g).opened, client ∈ (m.generation g).closeSettled
  finished : m.shutdown = .done → (∀ tool ∈ m.tools, inCategory "mcp:" tool = false) ∧
    ∀ g, ∀ client < (m.generation g).opened, client ∈ (m.generation g).closeSettled

theorem Manager.Kept.uses (h : m.Kept) {g client : Nat} (hout : m.HandedOut g) (huses : (m.generation g).Uses g client) :
    client ∈ (m.generation g).clients := by
  rcases huses with hmem | ⟨definition, hdefinition, horigin⟩
  · exact hmem
  · obtain ⟨c, hc, hdrawn⟩ := h.drawn g hout definition (List.mem_filter.mp hdefinition).1
    rw [horigin] at hdrawn
    cases hdrawn
    exact hc

theorem Manager.Kept.handed_prepared (h : m.Kept) {g : Nat} (hout : m.HandedOut g) : (m.generation g).Prepared :=
  h.prepared g (fun hmaking => (h.aside g (Work.aside_of_making hmaking).1).2 hout)

theorem Manager.Kept.sound (h : m.Kept) : m.Sound where
  drains g operation hoperation client huses hcalled := by
    have hout : m.HandedOut g := by
      by_contra hout
      rw [h.running g hout] at hoperation
      cases hoperation
    have hreleased := ((h.kept g).called client hcalled).2 (h.uses hout huses)
    rw [Drain.not_released hoperation] at hreleased
    cases hreleased
  tools tool htool hmcp := by
    obtain ⟨g, hg, hmem⟩ := h.tools tool htool hmcp
    obtain ⟨client, hclient, horigin⟩ := h.drawn g (Or.inl hg) tool (List.mem_filter.mp hmem).1
    exact ⟨g, client, hg, h.handed_prepared (Or.inl hg), hmem, horigin, hclient⟩
  unchanged before g error hwork := by
    obtain ⟨htools, hcurrent⟩ := h.before before (by rw [hwork]; rfl)
    exact ⟨htools, hcurrent, h.given g (h.aside g (by rw [hwork]; rfl)).2 (by rw [hwork]; nofun)⟩
  finished hdone := by
    obtain ⟨hgone, hidle⟩ := h.torn (by rw [hdone]; rfl)
    refine ⟨hgone, fun g => ?_⟩
    by_cases hout : m.HandedOut g
    · refine (h.kept g).all_settled (h.handed_prepared hout) ?_
      rcases hout with hcurrent | hretired
      · exact h.drained (Or.inr hdone) g hcurrent
      · exact h.retired hdone g hretired
    · exact h.given g hout (by rw [hidle]; nofun)

theorem reloads_sound (tools : List ToolDefinition) (servers : List ServerConfig) (acts : List Act)
    (h : Along Manager.step (fun m act => act.Whole m) (.start tools servers) acts) :
    (after Manager.step (.start tools servers) acts).Sound :=
  (h.keeps (fun _ _ ha hk => hk.step ha) (kept_start tools servers)).sound

theorem whole_listed {entries : List ListedTool} (h : ∀ message, .malformed message ∉ entries) :
    Act.Whole m (.listed (.ok entries)) := by
  intro before g serverId client entries' message _ _ hanswer hbreaks
  cases hanswer
  obtain ⟨first, rest, name, rfl, -⟩ := hbreaks
  exact absurd (List.mem_append_right first List.mem_cons_self) (h message)

/-- A server with one tool is prepared, called, and closed with the call under way. -/
def echoRun : List Act := [.server (.ok ()), .listed (.ok [.tool "echo"]), .prepared, .started 0 0, .close]

theorem reloads_sound_echo : (after Manager.step (.start [] [⟨"remote", false⟩]) echoRun).Sound := by
  refine reloads_sound [] [⟨"remote", false⟩] echoRun ?_
  rw [echoRun]
  simp only [along_cons, along_nil, and_true]
  exact ⟨trivial, whole_listed (by simp), trivial, trivial, trivial⟩

/-- The first server lists a tool and then an entry without a name. -/
def brokenRun : List Act :=
  [.server (.ok ()), .listed (.ok [.tool "echo", .malformed "Cannot read properties of undefined"]), .closed 0 0,
    .proceed, .prepared, .started 0 0]

/-- The tool is in the gateway and is called, on a client that is closed. -/
theorem brokenRun_not_sound : ¬(after Manager.step (.start [] [⟨"remote", false⟩]) brokenRun).Sound := by
  intro h
  refine h.drains 0 0 (by decide) 0 (Or.inr ⟨createMcpToolDefinition "remote" (0, 0) "echo", ?_, rfl⟩)
    (by decide)
  decide

end Runs

end Kross.Mcp

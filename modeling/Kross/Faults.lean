import Kross.Prog

namespace Kross

/-- A step that fails, or at which the process is killed; `left` is what a step that
is only half done leaves behind. -/
structure Fault (Site T : Type) where
  site : Site
  kills : Bool
  left : T

inductive Stop (E : Type)
  | killed
  | error (error : E)
  deriving DecidableEq

structure Faulty (Site T S : Type) where
  state : S
  fault : Option (Fault Site T)

/-- A program on a state whose steps may fail. An error can be caught, the end of the
process cannot. -/
abbrev FaultM (Site T S E α : Type) := Prog (Faulty Site T S) (Stop E) α

namespace FaultM

variable {Site T S E α β : Type} [DecidableEq Site]

def step (site : Site) (failure : E) (torn : T → S → S) (effect : S → Except E (α × S)) : FaultM Site T S E α := do
  let w ← get
  match w.fault.filter (fun fault => fault.site = site) with
  | some fault =>
      set { w with state := torn fault.left w.state }
      throw (if fault.kills then .killed else .error failure)
  | none => match effect w.state with
    | .ok (a, state) =>
        set { w with state }
        pure a
    | .error error => throw (.error error)

/-- A step that is not one of the system, and cannot fail. -/
def update (f : S → S) : FaultM Site T S E Unit := modify (fun w => { w with state := f w.state })

def ask (f : S → α) : FaultM Site T S E α := (fun w => f w.state) <$> get

def attempt (m : FaultM Site T S E α) (handler : E → FaultM Site T S E α) : FaultM Site T S E α :=
  tryCatch m (fun
    | .killed => throw .killed
    | .error error => handler error)

/-- `try` with `finally` -/
def always (m : FaultM Site T S E α) (last : FaultM Site T S E Unit) : FaultM Site T S E α := do
  let result ← attempt (Except.ok <$> m) (fun error => pure (Except.error error))
  last
  match result with
  | .ok a => pure a
  | .error error => throw (.error error)

/-- How a program ends from a state: with a result, with an error, or killed. -/
def Ends (fault : Option (Fault Site T)) (m : FaultM Site T S E α) (s : S) (ok : α → S → Prop) (error : E → S → Prop)
    (killed : S → Prop) : Prop :=
  match Prog.exec m ⟨s, fault⟩ with
  | (.ok a, w) => w.fault = fault ∧ ok a w.state
  | (.error (.error e), w) => w.fault = fault ∧ error e w.state
  | (.error .killed, w) => killed w.state

section Rules

variable {fault : Option (Fault Site T)} {m : FaultM Site T S E α} {s : S} {ok ok' : α → S → Prop}
  {error error' : E → S → Prop} {killed killed' : S → Prop}

omit [DecidableEq Site] in
theorem Ends.mono (h : Ends fault m s ok error killed) (hok : ∀ a s', ok a s' → ok' a s')
    (herror : ∀ e s', error e s' → error' e s') (hkilled : ∀ s', killed s' → killed' s') :
    Ends fault m s ok' error' killed' := by
  rw [Ends] at h ⊢
  generalize Prog.exec m ⟨s, fault⟩ = x at h ⊢
  obtain ⟨(_ | e) | a, w⟩ := x
  · exact hkilled _ h
  · exact ⟨h.1, herror e _ h.2⟩
  · exact ⟨h.1, hok a _ h.2⟩

omit [DecidableEq Site] in
/-- A program ends in one way only. -/
theorem Ends.both (h : Ends fault m s ok error killed) (h' : Ends fault m s ok' error' killed') {p : Prop}
    (hok : ∀ a s', ok a s' → ok' a s' → p) (herror : ∀ e s', error e s' → error' e s' → p)
    (hkilled : ∀ s', killed s' → killed' s' → p) : p := by
  rw [Ends] at h h'
  generalize Prog.exec m ⟨s, fault⟩ = x at h h'
  obtain ⟨(_ | e) | a, w⟩ := x
  · exact hkilled _ h h'
  · exact herror e _ h.2 h'.2
  · exact hok a _ h.2 h'.2

omit [DecidableEq Site] in
theorem ends_pure {a : α} (h : ok a s) : Ends fault (pure a) s ok error killed := ⟨rfl, h⟩

omit [DecidableEq Site] in
theorem ends_throw {e : E} (h : error e s) : Ends fault (throw (.error e) : FaultM Site T S E α) s ok error killed :=
  ⟨rfl, h⟩

omit [DecidableEq Site] in
theorem ends_update {f : S → S} {ok : Unit → S → Prop} (h : ok () (f s)) :
    Ends fault (update f : FaultM Site T S E Unit) s ok error killed := ⟨rfl, h⟩

omit [DecidableEq Site] in
theorem ends_ask {f : S → α} :
    Ends fault (ask f : FaultM Site T S E α) s (fun a s' => s' = s ∧ a = f s) error killed := ⟨rfl, rfl, rfl⟩

omit [DecidableEq Site] in
theorem Ends.bind {f : α → FaultM Site T S E β} {ok' : β → S → Prop} (h : Ends fault m s ok error killed)
    (hf : ∀ a s', ok a s' → Ends fault (f a) s' ok' error killed) : Ends fault (m >>= f) s ok' error killed := by
  rw [Ends] at h
  rw [Ends, Prog.exec_bind]
  generalize Prog.exec m ⟨s, fault⟩ = x at h ⊢
  obtain ⟨(_ | e) | a, w⟩ := x
  · exact h
  · exact h
  · obtain ⟨state, fault'⟩ := w
    obtain ⟨rfl, hok⟩ := h
    exact hf a state hok

omit [DecidableEq Site] in
theorem Ends.attempt {handler : E → FaultM Site T S E α} (h : Ends fault m s ok error killed)
    (hhandler : ∀ e s', error e s' → Ends fault (handler e) s' ok error' killed) :
    Ends fault (FaultM.attempt m handler) s ok error' killed := by
  rw [Ends] at h
  rw [FaultM.attempt, Ends, Prog.exec_tryCatch]
  generalize Prog.exec m ⟨s, fault⟩ = x at h ⊢
  obtain ⟨(_ | e) | a, w⟩ := x
  · exact h
  · obtain ⟨state, fault'⟩ := w
    obtain ⟨rfl, herror⟩ := h
    exact hhandler e state herror
  · exact h

omit [DecidableEq Site] in
theorem Ends.always {last : FaultM Site T S E Unit} {ok₁ : α → S → Prop} {error₁ : E → S → Prop}
    (h : Ends fault m s ok₁ error₁ killed)
    (hok : ∀ a s', ok₁ a s' → Ends fault last s' (fun _ s'' => ok a s'') error killed)
    (herror : ∀ e s', error₁ e s' → Ends fault last s' (fun _ s'' => error e s'') error killed) :
    Ends fault (FaultM.always m last) s ok error killed := by
  have hresult : Ends fault (FaultM.attempt (Except.ok <$> m) (fun e => pure (Except.error e))) s
      (fun result s' => match result with
        | .ok a => ok₁ a s'
        | .error e => error₁ e s') error killed := by
    have hmapped : Ends fault (Except.ok <$> m) s (fun result s' => match result with
        | .ok a => ok₁ a s'
        | .error e => error₁ e s') error₁ killed := by
      rw [map_eq_pure_bind]
      exact (Ends.mono h (fun _ _ h => h) (fun _ _ h => h) (fun _ h => h)).bind (fun a s' ha => ends_pure ha)
    exact hmapped.attempt (fun e s' he => ends_pure he)
  refine hresult.bind (fun result s' hr => ?_)
  cases result with
  | ok a => exact (hok a s' hr).bind (fun _ s'' ha => ends_pure ha)
  | error e => exact (herror e s' hr).bind (fun _ s'' he => ends_throw he)

/-- A step is the faulty one, or it has its effect. -/
theorem ends_step {site : Site} {failure : E} {torn : T → S → S} {effect : S → Except E (α × S)}
    (hfails : ∀ left, fault = some ⟨site, false, left⟩ → error failure (torn left s))
    (hkills : ∀ left, fault = some ⟨site, true, left⟩ → killed (torn left s))
    (hok : (∀ f, fault = some f → f.site ≠ site) → ∀ a s', effect s = .ok (a, s') → ok a s')
    (herror : (∀ f, fault = some f → f.site ≠ site) → ∀ e, effect s = .error e → error e s) :
    Ends fault (step site failure torn effect) s ok error killed := by
  rw [Ends, step, Prog.exec_bind, Prog.exec_get]
  dsimp only
  cases hfilter : fault.filter (fun fault => fault.site = site) with
  | some f =>
      obtain ⟨hf, hsite⟩ := Option.filter_eq_some_iff.mp hfilter
      rw [decide_eq_true_eq] at hsite
      obtain ⟨site', kills, left⟩ := f
      dsimp only at hsite
      subst hsite
      cases kills with
      | false => exact ⟨rfl, hfails left hf⟩
      | true => exact hkills left hf
  | none =>
      have hmiss : ∀ f, fault = some f → f.site ≠ site := by
        intro f hf hsite
        rw [hf] at hfilter
        simp [hsite] at hfilter
      cases heffect : effect s with
      | ok result =>
          obtain ⟨a, s'⟩ := result
          exact ⟨rfl, hok hmiss a s' heffect⟩
      | error e => exact ⟨rfl, herror hmiss e heffect⟩

omit [DecidableEq Site] in
/-- A loop that keeps track of what it has gone through. -/
theorem ends_forM {f : α → FaultM Site T S E PUnit} {items : List α} (track : List α → S → Prop) (h0 : track [] s)
    (h : ∀ done item rest, items = done ++ item :: rest → ∀ s', track done s' →
      Ends fault (f item) s' (fun _ => track (done ++ [item])) error killed) :
    Ends fault (items.forM f) s (fun _ => track items) error killed := by
  have hall : ∀ done rest, items = done ++ rest → ∀ s', track done s' →
      Ends fault (rest.forM f) s' (fun _ => track items) error killed := by
    intro done rest
    induction rest generalizing done with
    | nil =>
        intro hitems s' htrack
        rw [List.append_nil] at hitems
        exact ends_pure (hitems ▸ htrack)
    | cons item rest ih =>
        intro hitems s' htrack
        exact (h done item rest hitems s' htrack).bind (fun _ s'' hs => ih (done ++ [item]) (by simpa using hitems) s'' hs)
  exact hall [] items rfl s h0

end Rules

end FaultM

end Kross

import Mathlib.Tactic.Common

namespace Kross

/-- A program that may throw. What it did to the state before it threw stays
done. -/
abbrev Prog (σ ε α : Type) := ExceptT ε (StateM σ) α

namespace Prog

variable {σ ε α β : Type}

def exec (m : Prog σ ε α) (s : σ) : Except ε α × σ := (StateT.run (ExceptT.run m) s : Id _)

@[simp] theorem exec_pure (a : α) (s : σ) : exec (pure a : Prog σ ε α) s = (.ok a, s) := rfl

@[simp] theorem exec_throw (e : ε) (s : σ) : exec (throw e : Prog σ ε α) s = (.error e, s) := rfl

@[simp] theorem exec_get (s : σ) : exec (get : Prog σ ε σ) s = (.ok s, s) := rfl

@[simp] theorem exec_set (s t : σ) : exec (set t : Prog σ ε PUnit) s = (.ok ⟨⟩, t) := rfl

@[simp] theorem exec_modify (f : σ → σ) (s : σ) :
    exec (modify f : Prog σ ε PUnit) s = (.ok ⟨⟩, f s) := rfl

theorem exec_bind (m : Prog σ ε α) (f : α → Prog σ ε β) (s : σ) :
    exec (m >>= f) s = match exec m s with
      | (.ok a, s') => exec (f a) s'
      | (.error e, s') => (.error e, s') := by
  simp only [exec, ExceptT.run_bind, StateT.run_bind]
  change (match (StateT.run (ExceptT.run m) s : Id _) with
    | (r, t) => (StateT.run (match r with
      | .ok a => ExceptT.run (f a)
      | .error e => pure (.error e)) t : Id _)) = _
  generalize (StateT.run (ExceptT.run m) s : Id _) = x
  obtain ⟨_ | _, _⟩ := x <;> rfl

theorem exec_tryCatch (m : Prog σ ε α) (f : ε → Prog σ ε α) (s : σ) :
    exec (tryCatch m f) s = match exec m s with
      | (.ok a, s') => (.ok a, s')
      | (.error e, s') => exec (f e) s' := by
  change (match (StateT.run (ExceptT.run m) s : Id _) with
    | (r, t) => (StateT.run (match r with
      | Except.ok a => pure (Except.ok a)
      | Except.error e => ExceptT.run (f e)) t : Id _)) = _
  rw [exec]
  generalize (StateT.run (ExceptT.run m) s : Id _) = x
  obtain ⟨_ | _, _⟩ := x <;> rfl

def Runs (m : Prog σ ε α) (s : σ) (a : α) (s' : σ) : Prop := exec m s = (.ok a, s')

theorem runs_pure (a : α) (s : σ) : Runs (pure a : Prog σ ε α) s a s := rfl

theorem Runs.bind {m : Prog σ ε α} {f : α → Prog σ ε β} {s s' s'' : σ} {a : α} {b : β}
    (hm : Runs m s a s') (hf : Runs (f a) s' b s'') : Runs (m >>= f) s b s'' := by
  rw [Runs, exec_bind, hm]
  exact hf

theorem runs_forM_nil (f : α → Prog σ ε PUnit) (s : σ) : Runs ([].forM f) s ⟨⟩ s := rfl

theorem runs_forM_cons {f : α → Prog σ ε PUnit} {a : α} {l : List α} {s s' s'' : σ}
    (ha : Runs (f a) s ⟨⟩ s') (hl : Runs (l.forM f) s' ⟨⟩ s'') :
    Runs ((a :: l).forM f) s ⟨⟩ s'' := ha.bind hl

theorem runs_forM_append {f : α → Prog σ ε PUnit} {l m : List α} {s s' s'' : σ}
    (hl : Runs (l.forM f) s ⟨⟩ s') (hm : Runs (m.forM f) s' ⟨⟩ s'') :
    Runs ((l ++ m).forM f) s ⟨⟩ s'' := by
  induction l generalizing s with
  | nil =>
      cases hl
      exact hm
  | cons a l ih =>
      rw [Runs, List.cons_append]
      change exec (f a >>= fun _ => (l ++ m).forM f) s = _
      change exec (f a >>= fun _ => l.forM f) s = _ at hl
      rw [exec_bind] at hl ⊢
      generalize exec (f a) s = x at hl ⊢
      obtain ⟨e | u, t⟩ := x
      · simp at hl
      · exact ih hl

theorem runs_mapM_nil (f : α → Prog σ ε β) (s : σ) : Runs ([].mapM f) s [] s := by
  rw [List.mapM_nil]
  rfl

theorem runs_mapM_cons {f : α → Prog σ ε β} {a : α} {l : List α} {b : β} {bs : List β} {s s' s'' : σ}
    (ha : Runs (f a) s b s') (hl : Runs (l.mapM f) s' bs s'') :
    Runs ((a :: l).mapM f) s (b :: bs) s'' := by
  rw [List.mapM_cons]
  exact ha.bind (hl.bind (runs_pure _ _))

/-- `m` keeps `I`, whether it returns or throws. -/
def Preserves (I : σ → Prop) (m : Prog σ ε α) : Prop := ∀ s, I s → I (exec m s).2

variable {I : σ → Prop}

theorem preserves_pure (a : α) : Preserves I (pure a : Prog σ ε α) := fun _ h => h

theorem preserves_throw (e : ε) : Preserves I (throw e : Prog σ ε α) := fun _ h => h

theorem preserves_get : Preserves I (get : Prog σ ε σ) := fun _ h => h

theorem preserves_modify {f : σ → σ} (h : ∀ s, I s → I (f s)) :
    Preserves I (modify f : Prog σ ε PUnit) := h

theorem Preserves.bind {m : Prog σ ε α} {f : α → Prog σ ε β} (hm : Preserves I m)
    (hf : ∀ a, Preserves I (f a)) : Preserves I (m >>= f) := by
  intro s hs
  have h := hm s hs
  rw [exec_bind]
  generalize exec m s = x at h
  obtain ⟨e | a, t⟩ := x
  · exact h
  · exact hf a t h

theorem Preserves.tryCatch {m : Prog σ ε α} {f : ε → Prog σ ε α} (hm : Preserves I m)
    (hf : ∀ e, Preserves I (f e)) : Preserves I (tryCatch m f) := by
  intro s hs
  have h := hm s hs
  rw [exec_tryCatch]
  generalize exec m s = x at h
  obtain ⟨e | a, t⟩ := x
  · exact hf e t h
  · exact h

theorem preserves_forM {l : List α} {f : α → Prog σ ε PUnit} (h : ∀ a ∈ l, Preserves I (f a)) :
    Preserves I (l.forM f) := by
  induction l with
  | nil => exact preserves_pure _
  | cons a l ih =>
      exact (h a List.mem_cons_self).bind (fun _ => ih (fun b hb => h b (List.mem_cons_of_mem _ hb)))

theorem preserves_mapM {l : List α} {f : α → Prog σ ε β} (h : ∀ a ∈ l, Preserves I (f a)) :
    Preserves I (l.mapM f) := by
  induction l with
  | nil =>
      rw [List.mapM_nil]
      exact preserves_pure _
  | cons a l ih =>
      rw [List.mapM_cons]
      exact (h a List.mem_cons_self).bind (fun _ =>
        (ih (fun b hb => h b (List.mem_cons_of_mem _ hb))).bind (fun _ => preserves_pure _))

end Prog

end Kross

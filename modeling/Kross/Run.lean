import Mathlib.Tactic.Common

namespace Kross.Run

variable {S A : Type*} (next : S → A → S)

def after (s : S) (steps : List A) : S := steps.foldl next s

/-- Every step of the run meets `P` in the state it is taken in. -/
def Along (P : S → A → Prop) (s : S) (steps : List A) : Prop :=
  ∀ before step rest, steps = before ++ step :: rest → P (after next s before) step

/-- What a state meets at the beginning and after each step of the run. -/
def Throughout (I : S → Prop) (s : S) (steps : List A) : Prop :=
  ∀ before rest, steps = before ++ rest → I (after next s before)

variable {next} {P Q : S → A → Prop} {I : S → Prop} {s : S} {a : A} {steps more : List A}

@[simp] theorem after_nil : after next s [] = s := rfl

theorem after_cons : after next s (a :: steps) = after next (next s a) steps := rfl

theorem after_append : after next s (steps ++ more) = after next (after next s steps) more :=
  List.foldl_append

theorem after_concat : after next s (steps ++ [a]) = next (after next s steps) a := by
  rw [after_append]
  rfl

theorem along_nil : Along next P s [] := by
  intro before step rest h
  cases before <;> cases h

theorem along_cons : Along next P s (a :: steps) ↔ P s a ∧ Along next P (next s a) steps := by
  constructor
  · intro h
    refine ⟨h [] a steps rfl, fun before step rest he => ?_⟩
    exact h (a :: before) step rest (by rw [he, List.cons_append])
  · rintro ⟨ha, h⟩ before step rest he
    cases before with
    | nil =>
        cases he
        exact ha
    | cons b before =>
        cases he
        exact h before step rest rfl

theorem along_append :
    Along next P s (steps ++ more) ↔ Along next P s steps ∧ Along next P (after next s steps) more := by
  induction steps generalizing s with
  | nil => exact ⟨fun h => ⟨along_nil, h⟩, fun h => h.2⟩
  | cons b steps ih => rw [List.cons_append, along_cons, ih, along_cons, and_assoc, after_cons]

theorem along_concat :
    Along next P s (steps ++ [a]) ↔ Along next P s steps ∧ P (after next s steps) a := by
  rw [along_append, along_cons, and_iff_left along_nil]

theorem Along.mono (h : Along next P s steps) (hPQ : ∀ s a, P s a → Q s a) : Along next Q s steps :=
  fun before step rest he => hPQ _ _ (h before step rest he)

theorem Along.and (hP : Along next P s steps) (hQ : Along next Q s steps) :
    Along next (fun s a => P s a ∧ Q s a) s steps :=
  fun before step rest he => ⟨hP before step rest he, hQ before step rest he⟩

/-- What every step keeps holds at the end of a run. -/
theorem Along.keeps (h : Along next P s steps) (hI : ∀ s a, P s a → I s → I (next s a)) (hs : I s) :
    I (after next s steps) := by
  induction steps generalizing s with
  | nil => exact hs
  | cons a steps ih =>
      obtain ⟨ha, h⟩ := along_cons.mp h
      exact ih h (hI s a ha hs)

theorem keeps (hI : ∀ s a, I s → I (next s a)) (hs : I s) (steps : List A) :
    I (after next s steps) :=
  Along.keeps (P := fun _ _ => True) (fun _ _ _ _ => trivial) (fun s a _ => hI s a) hs

/-- What every step keeps holds before each step of a run. -/
theorem Along.keeping (h : Along next P s steps) (hI : ∀ s a, P s a → I s → I (next s a)) (hs : I s) :
    Along next (fun s a => P s a ∧ I s) s steps := by
  intro before step rest he
  subst he
  obtain ⟨hbefore, hrest⟩ := along_append.mp h
  exact ⟨(along_cons.mp hrest).1, hbefore.keeps hI hs⟩

theorem along_of_forall (h : ∀ s a, P s a) : Along next P s steps := fun _ _ _ _ => h _ _

theorem along_of_mem (h : ∀ a ∈ steps, ∀ s, P s a) : Along next P s steps := by
  rintro before step rest rfl
  exact h step (List.mem_append_right _ List.mem_cons_self) _

theorem throughout_cons {J : S → Prop} :
    Throughout next J s (a :: steps) ↔ J s ∧ Throughout next J (next s a) steps := by
  constructor
  · intro h
    exact ⟨h [] _ rfl, fun before rest he => h (a :: before) rest (by rw [he, List.cons_append])⟩
  · rintro ⟨hs, h⟩ before rest he
    cases before with
    | nil => exact hs
    | cons b before =>
        cases he
        exact h before rest rfl

/-- `J` holds all along exactly when each step meets what it takes to keep it. -/
theorem throughout_iff_along {J : S → Prop} (hI : ∀ s a, I s → I (next s a))
    (hJ : ∀ s a, I s → J s → (J (next s a) ↔ P s a)) (hs : I s) (h : J s) :
    Throughout next J s steps ↔ Along next P s steps := by
  induction steps generalizing s with
  | nil =>
      refine iff_of_true (fun before rest he => ?_) along_nil
      rw [(List.append_eq_nil_iff.mp he.symm).1]
      exact h
  | cons a steps ih =>
      rw [throughout_cons, along_cons, and_iff_right h]
      constructor
      · intro hrest
        have ha : J (next s a) := hrest [] steps rfl
        exact ⟨(hJ s a hs h).mp ha, (ih (hI s a hs) ha).mp hrest⟩
      · rintro ⟨ha, hrest⟩
        have hnext := (hJ s a hs h).mpr ha
        exact (ih (hI s a hs) hnext).mpr hrest

end Kross.Run

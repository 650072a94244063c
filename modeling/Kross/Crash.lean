import Mathlib.Tactic.Common

namespace Kross

/-- Something that keeps its state when the process ends. `tear n a d` is what
is there when the process ends after `n` bytes of the action `a`. -/
class Device (A : Type) (D : outParam Type) where
  apply : A → D → D
  tear : Nat → A → D → D

namespace Device

variable {A D : Type} [Device A D]

def perform (actions : List A) (d : D) : D := actions.foldl (fun d a => apply a d) d

/-- The process ends during the action behind the first `done` ones, or after
the last one. -/
def interrupt (done bytes : Nat) (actions : List A) (d : D) : D :=
  match actions.drop done with
  | [] => perform actions d
  | a :: _ => tear bytes a (perform (actions.take done) d)

theorem perform_append (actions more : List A) (d : D) :
    perform (actions ++ more) d = perform more (perform actions d) := List.foldl_append

variable {actions : List A} {d : D}

theorem interrupt_cases (done bytes : Nat) (actions : List A) (d : D) :
    interrupt done bytes actions d = perform actions d ∨
      ∃ before a after, actions = before ++ a :: after ∧
        interrupt done bytes actions d = tear bytes a (perform before d) := by
  rw [interrupt]
  cases h : actions.drop done with
  | nil => exact Or.inl rfl
  | cons a after =>
      right
      exact ⟨actions.take done, a, after, by rw [← h, List.take_append_drop], rfl⟩

theorem interrupt_of_le {done : Nat} (h : actions.length ≤ done) (bytes : Nat) :
    interrupt done bytes actions d = perform actions d := by
  rw [interrupt, List.drop_eq_nil_of_le h]

/-- The process ends before, in or after the last of the actions. -/
theorem interrupt_concat (done bytes : Nat) (actions : List A) (a : A) (d : D) :
    interrupt done bytes (actions ++ [a]) d =
      if actions.length < done then perform (actions ++ [a]) d
      else if done = actions.length then tear bytes a (perform actions d)
      else interrupt done bytes actions d := by
  split_ifs with h1 h2
  · exact interrupt_of_le (by rw [List.length_append]; exact h1) bytes
  · subst h2
    rw [interrupt, List.drop_left, List.take_left]
  · have hlt : done < actions.length := by omega
    have hle := Nat.le_of_lt hlt
    rw [interrupt, interrupt, List.drop_append_of_le_length hle, List.take_append_of_le_length hle,
      List.drop_eq_getElem_cons hlt]
    rfl

variable {I : D → Prop}

theorem perform_keeps (h : ∀ a ∈ actions, ∀ d, I d → I (apply a d)) (hd : I d) :
    I (perform actions d) := by
  induction actions generalizing d with
  | nil => exact hd
  | cons a actions ih =>
      exact ih (fun b hb => h b (List.mem_cons_of_mem _ hb)) (h a List.mem_cons_self d hd)

theorem interrupt_keeps (h : ∀ a ∈ actions, ∀ d, I d → I (apply a d))
    (ht : ∀ a ∈ actions, ∀ n d, I d → I (tear n a d)) (hd : I d) (done bytes : Nat) :
    I (interrupt done bytes actions d) := by
  rcases interrupt_cases done bytes actions d with he | ⟨before, a, after, rfl, he⟩
  · rw [he]
    exact perform_keeps h hd
  · rw [he]
    refine ht a (by simp) bytes _ (perform_keeps (fun b hb => h b ?_) hd)
    exact List.mem_append_left _ hb

end Device

end Kross

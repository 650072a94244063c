import Mathlib.Data.List.Basic
import Mathlib.Tactic.Common

namespace Kross.CommandLine

abbrev Text := List Char

inductive Role
  | option
  | value
  | separator
  | operand
  deriving DecidableEq

/-- An argument is read as an option when it begins with a dash and is more than the dash. -/
def isOption (a : Text) : Bool := a.head? = some '-' && a ≠ ['-']

inductive Expects
  | anything
  | value
  | operands
  deriving DecidableEq

def doubleDash : Text := ['-', '-']

/-- What a program that takes its options anywhere before `--` reads each argument as. -/
def rolesFrom (takesValue : Text → Bool) : Expects → List Text → List Role
  | _, [] => []
  | .operands, _ :: args => .operand :: rolesFrom takesValue .operands args
  | .value, _ :: args => .value :: rolesFrom takesValue .anything args
  | .anything, a :: args =>
      if a = doubleDash then .separator :: rolesFrom takesValue .operands args
      else if isOption a then .option :: rolesFrom takesValue (if takesValue a then .value else .anything) args
      else .operand :: rolesFrom takesValue .anything args

def roles (takesValue : Text → Bool) (args : List Text) : List Role := rolesFrom takesValue .anything args

variable {takesValue : Text → Bool} {a : Text} {args : List Text}

@[simp] theorem rolesFrom_nil {e : Expects} : rolesFrom takesValue e [] = [] := by cases e <;> rfl

theorem rolesFrom_operands : rolesFrom takesValue .operands args = args.map (fun _ => .operand) := by
  induction args with
  | nil => rfl
  | cons a args ih => rw [rolesFrom, ih, List.map_cons]

@[simp] theorem rolesFrom_value : rolesFrom takesValue .value (a :: args) = .value :: rolesFrom takesValue .anything args := rfl

theorem rolesFrom_separator :
    rolesFrom takesValue .anything (doubleDash :: args) = .separator :: args.map (fun _ => .operand) := by
  rw [rolesFrom, if_pos rfl, rolesFrom_operands]

theorem rolesFrom_option (ha : isOption a = true) (hne : a ≠ doubleDash) : rolesFrom takesValue .anything (a :: args) =
    .option :: rolesFrom takesValue (if takesValue a then .value else .anything) args := by
  rw [rolesFrom, if_neg hne, if_pos ha]

theorem rolesFrom_operand (ha : isOption a = false) :
    rolesFrom takesValue .anything (a :: args) = .operand :: rolesFrom takesValue .anything args := by
  have hne : a ≠ doubleDash := by
    rintro rfl
    cases ha
  rw [rolesFrom, if_neg hne, if_neg (by simp [ha])]

/-- Where an argument begins with a dash it is an operand or a value only behind what makes it one. -/
theorem head_rolesFrom (ha : isOption a = true) :
    (rolesFrom takesValue .anything (a :: args)).head? = some .option ∨
      (rolesFrom takesValue .anything (a :: args)).head? = some .separator := by
  by_cases hne : a = doubleDash
  · subst hne
    exact .inr (by rw [rolesFrom_separator, List.head?_cons])
  · exact .inl (by rw [rolesFrom_option ha hne, List.head?_cons])

end Kross.CommandLine

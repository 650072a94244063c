import Mathlib.Data.Rat.Floor
import Mathlib.Tactic.Common

namespace Kross.Parsed

/-- A literal such as `1e999` is read as an infinity. -/
inductive Number
  | finite (value : Rat)
  | infinite (positive : Bool)
  deriving DecidableEq

/-- What `JSON.parse` returns; of an object each member stands once. What is
undefined is the `none` of an `Option Value`. -/
inductive Value
  | null
  | bool (b : Bool)
  | num (x : Number)
  | str (s : String)
  | arr (items : List Value)
  | obj (members : List (String × Value))

namespace Value

/-- Only objects have members of their own, and null has none to ask for. -/
def member (name : String) : Value → Option Value
  | .obj members => members.lookup name
  | _ => none

def isObject : Value → Bool
  | .arr _ | .obj _ => true
  | _ => false

def isNull : Value → Bool
  | .null => true
  | _ => false

def truthy : Value → Bool
  | .null => false
  | .bool b => b
  | .num x => x ≠ .finite 0
  | .str s => s ≠ ""
  | .arr _ | .obj _ => true

/-- `[...value]`; `none` is a TypeError. -/
def spread : Value → Option (List Value)
  | .arr items => some items
  | .str s => some (s.toList.map (fun c => .str (String.singleton c)))
  | _ => none

end Value

def truthy (v : Option Value) : Bool := v.any Value.truthy

/-- `value === s` -/
def isText (s : String) : Option Value → Bool
  | some (.str t) => t = s
  | _ => false

def isString : Option Value → Bool
  | some (.str _) => true
  | _ => false

theorem isText_iff {s : String} {v : Option Value} : isText s v = true ↔ v = some (.str s) := by
  rcases v with _ | v
  · simp [isText]
  cases v <;> simp [isText]

theorem isString_iff {v : Option Value} : isString v = true ↔ ∃ s, v = some (.str s) := by
  rcases v with _ | v
  · simp [isString]
  cases v <;> simp [isString]

end Kross.Parsed

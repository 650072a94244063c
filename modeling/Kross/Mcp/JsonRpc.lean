import Kross.Outstanding
import Kross.Run

namespace Kross.Mcp.Rpc

open Outstanding

/-- What `JSON.parse` returns; of an object each member stands once. -/
inductive Value
  | null
  | bool (b : Bool)
  | num (x : Rat)
  | str (s : String)
  | arr (items : List Value)
  | obj (members : List (String × Value))

namespace Value

def member (name : String) : Value → Option Value
  | .obj members => members.lookup name
  | _ => none

def isObject : Value → Bool
  | .arr _ | .obj _ => true
  | _ => false

def truthy : Value → Bool
  | .null => false
  | .bool b => b
  | .num x => x ≠ 0
  | .str s => s ≠ ""
  | .arr _ | .obj _ => true

def isNumber (n : Nat) : Option Value → Bool
  | some (.num x) => x = n
  | _ => false

/-- `message.id === id` -/
def hasId (id : Nat) (m : Value) : Bool := isNumber id (m.member "id")

def failed (m : Value) : Bool := (m.member "error").any truthy

end Value

inductive Rejection
  | notRunning
  | signalAborted
  | aborted
  | timedOut (method : String)
  | closed
  | exited
  | transport
  | write
  | server (code message : Option Value)
  | sessionExpired
  | invalidSessionId
  | httpStatus (status : Nat)
  | contentType (value : List Char)
  | noBody
  | network
  | malformed
  | invalidResponse
  | invalidVersion
  | idMismatch (received : Option Value)
  | streamEnded

/-- `MCP error ${error.code}: ${error.message}` -/
def Value.serverError (m : Value) : Rejection :=
  .server ((m.member "error").bind (Value.member "code")) ((m.member "error").bind (Value.member "message"))

/-- How the promise of a call was settled, and by which message, if one did it. -/
structure Settlement where
  id : Option Nat
  message : Option Value
  outcome : Except Rejection (Option Value)

/-- A response that carries a result. -/
def Value.Responds (m : Value) (id : Nat) (result : Value) : Prop :=
  m.member "method" = none ∧ m.hasId id = true ∧ m.member "result" = some result

/-- A call resolves with the result of a response to it, and of the messages with its id
none that has a method settles it. -/
structure Settlement.Own (received : List Value) (s : Settlement) : Prop where
  resolved : ∀ result, s.outcome = .ok result →
    ∃ m id r, s.message = some m ∧ s.id = some id ∧ result = some r ∧ m.Responds id r
  message : ∀ m, s.message = some m → m ∈ received ∧ ∀ id, s.id = some id → m.hasId id = true → m.member "method" = none

theorem Settlement.Own.mono {received more : List Value} {s : Settlement} (h : s.Own received) :
    s.Own (received ++ more) :=
  ⟨h.resolved, fun m hm => ⟨List.mem_append_left _ (h.message m hm).1, (h.message m hm).2⟩⟩

/-- A rejection that no message brings about. -/
theorem Settlement.own_error {received : List Value} {id : Option Nat} {error : Rejection} :
    Settlement.Own received ⟨id, none, .error error⟩ := ⟨nofun, nofun⟩

end Kross.Mcp.Rpc

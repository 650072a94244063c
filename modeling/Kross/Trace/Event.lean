import Kross.JsonNumber

namespace Kross.Trace

open Kross.Json

structure TraceEvent where
  id : String
  runId : String
  type : String
  timestamp : String
  parentId : Option String
  payload : Fields

section Values

def asRecord : Option Value → Option Fields
  | some (.obj fields) => some fields
  | _ => none

def asString : Option Value → Option String
  | some (.str s) => if s = "" then none else some s
  | _ => none

def asNumber : Option Value → Option Number
  | some (.num n) => some n
  | _ => none

end Values

namespace TraceEvent

variable (event : TraceEvent)

def toolName : Option String := asString (event.payload.get "toolName")
def callId : Option String := asString (event.payload.get "callId")
def data : Option Fields := asRecord (event.payload.get "data")

end TraceEvent

end Kross.Trace

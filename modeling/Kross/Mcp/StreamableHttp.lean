import Kross.Mcp.JsonRpc
import Mathlib.Data.List.Induction
import Mathlib.Data.List.Nodup

namespace Kross.Mcp.Rpc.Http

open Outstanding

abbrev Text := List Char

/-- `status` and the headers of a response that the client reads. -/
structure Response where
  status : Nat
  contentType : Text
  sessionId : Text
  hasBody : Bool

def Response.ok (r : Response) : Bool := 200 ≤ r.status && r.status ≤ 299

def includes (s pattern : Text) : Bool := s.tails.any (fun t => pattern.isPrefixOf t)

/-- The data of a block is what stands behind `data:`, when that is not empty. -/
inductive Data
  | absent
  | malformed
  | parsed (m : Value)

structure Block where
  data : Data
  id : Option Text
  retryMs : Option Nat

/-- The variables of `readSseResponse` that the reading goes on with. -/
structure Reading where
  reconnects : Nat
  lastEventId : Option Text
  retryMs : Nat

/-- What the function of a request awaits. -/
inductive Phase
  | posting
  | readingJson
  | readingSse (r : Reading)
  | cancelling (m : Value)
  | waitingRetry (r : Reading)
  | resuming (r : Reading)

structure Request where
  id : Nat
  method : String
  aborted : Bool
  timedOut : Bool
  phase : Phase

structure Options where
  maxReconnects : Nat

structure Transport where
  closed : Bool
  nextId : Nat
  sessionId : Option Text
  requests : Ledger Request Settlement

/-- Each event but `request` and `close` is one of the request with its id. `failed` is that
what it awaits is rejected, as it is when its signal is aborted. -/
inductive Event
  | request (method : String) (aborted : Bool)
  | responded (id : Nat) (response : Response)
  | body (id : Nat) (value : Option Value)
  | chunk (id : Nat) (blocks : List Block)
  | ended (id : Nat)
  | cancelled (id : Nat)
  | elapsed (id : Nat)
  | failed (id : Nat)
  | timeout (id : Nat)
  | abort (id : Nat)
  | close

/-- The `catch` of `request` -/
def Request.rejection (r : Request) (error : Rejection) : Rejection :=
  if r.timedOut then .timedOut r.method else if r.aborted then .aborted else error

def Request.rejected (error : Rejection) (r : Request) : Settlement := ⟨some r.id, none, .error (r.rejection error)⟩

def currentVersion (raw : Value) : Bool :=
  match raw.member "jsonrpc" with
  | some (.str version) => version = "2.0"
  | _ => false

def parseJsonRpcResponse (raw : Value) (requestId : Nat) : Except Rejection (Option Value) :=
  match raw with
  | .obj _ =>
      if currentVersion raw = false then .error .invalidVersion
      else if raw.hasId requestId = false then .error (.idMismatch (raw.member "id"))
      else if raw.failed then .error raw.serverError
      else .ok (raw.member "result")
  | _ => .error .invalidResponse

/-- The promise of a request that has read `m` as its response -/
def Request.answered (m : Value) (r : Request) : Settlement :=
  match parseJsonRpcResponse m r.id with
  | .ok result => ⟨some r.id, some m, .ok result⟩
  | .error error => ⟨some r.id, some m, .error (r.rejection error)⟩

inductive Scan
  | open (r : Reading)
  | failed
  | found (m : Value)

def Reading.note (r : Reading) (block : Block) : Reading :=
  { r with lastEventId := block.id <|> r.lastEventId, retryMs := block.retryMs.getD r.retryMs }

/-- The blocks of a chunk up to the first message that has the id of the request. -/
def scan (requestId : Nat) : Reading → List Block → Scan
  | r, [] => .open r
  | r, block :: blocks => match block.data with
    | .absent => scan requestId (r.note block) blocks
    | .malformed => .failed
    | .parsed .null => .failed
    | .parsed m => if m.hasId requestId then .found m else scan requestId (r.note block) blocks

def validSessionId (sessionId : Text) : Bool :=
  sessionId.length ≤ 1024 && sessionId.all (fun c => 0x21 ≤ c.toNat && c.toNat ≤ 0x7e)

/-- What one step makes of the request it is about. -/
inductive Outcome
  | goes (phase : Phase)
  | settles (settlement : Settlement)
  | stays

def Outcome.rejects (error : Rejection) (r : Request) : Outcome := .settles (r.rejected error)

namespace Request

/-- `captureSession` refuses the header of the answer to `initialize`. -/
def refusesSession (response : Response) (r : Request) : Bool :=
  r.method = "initialize" && response.sessionId ≠ [] && !validSessionId response.sessionId

def captureSession (response : Response) (sessionId : Option Text) (r : Request) : Option Text :=
  if r.method = "initialize" ∧ response.sessionId ≠ [] ∧ validSessionId response.sessionId = true then
    some response.sessionId
  else sessionId

def expired (response : Response) (sessionId : Option Text) : Bool := response.status = 404 && sessionId.any (· ≠ [])

/-- The reading of a stream begins. -/
def consumeSse (reading : Reading) (response : Response) (r : Request) : Outcome :=
  if response.hasBody = false then .rejects .noBody r
  else if r.aborted then .rejects .signalAborted r
  else .goes (.readingSse reading)

def posted (sessionId : Option Text) (response : Response) (r : Request) : Outcome :=
  if r.refusesSession response then .rejects .invalidSessionId r
  else if expired response sessionId then .rejects .sessionExpired r
  else if response.ok = false then .rejects (.httpStatus response.status) r
  else if includes response.contentType "application/json".toList then .goes .readingJson
  else if includes response.contentType "text/event-stream".toList then r.consumeSse ⟨0, none, 0⟩ response
  else .rejects (.contentType response.contentType) r

def resumed (reading : Reading) (response : Response) (r : Request) : Outcome :=
  if response.ok = false then .rejects (.httpStatus response.status) r
  else if includes response.contentType "text/event-stream".toList then
    r.consumeSse { reading with reconnects := reading.reconnects + 1 } response
  else .rejects (.contentType response.contentType) r

def body (value : Option Value) (r : Request) : Outcome :=
  match r.phase, value with
  | .readingJson, some m => .settles (r.answered m)
  | .readingJson, none => .rejects .malformed r
  | _, _ => .stays

def chunk (blocks : List Block) (r : Request) : Outcome :=
  match r.phase with
  | .readingSse reading => match scan r.id reading blocks with
    | .found m => .goes (.cancelling m)
    | .failed => .rejects .malformed r
    | .open reading => if r.aborted then .rejects .signalAborted r else .goes (.readingSse reading)
  | _ => .stays

def ended (options : Options) (r : Request) : Outcome :=
  match r.phase with
  | .readingSse reading =>
      if reading.lastEventId.all (· = []) || reading.reconnects = options.maxReconnects then .rejects .streamEnded r
      else if 0 < reading.retryMs then
        if r.aborted then .rejects .signalAborted r else .goes (.waitingRetry reading)
      else .goes (.resuming reading)
  | _ => .stays

def cancelled (r : Request) : Outcome :=
  match r.phase with
  | .cancelling m => .settles (r.answered m)
  | _ => .stays

def elapsed (r : Request) : Outcome :=
  match r.phase with
  | .waitingRetry reading => .goes (.resuming reading)
  | _ => .stays

end Request

namespace Transport

def initial : Transport := ⟨false, 1, none, .start⟩

def find (id : Nat) (t : Transport) : Option Request := t.requests.find (fun r => r.id = id)

def proceed (id : Nat) (outcome : Outcome) (t : Transport) : Transport :=
  match outcome with
  | .goes phase => { t with requests := t.requests.update (fun r => if r.id = id then { r with phase } else r) }
  | .settles settlement => { t with requests := t.requests.settle (fun r => r.id = id) (fun _ => settlement) }
  | .stays => t

def advance (id : Nat) (f : Request → Outcome) (t : Transport) : Transport :=
  match t.find id with
  | some r => t.proceed id (f r)
  | none => t

def request (method : String) (aborted : Bool) (t : Transport) : Transport :=
  if t.closed then { t with requests := t.requests.refuse ⟨none, none, .error .closed⟩ }
  else { t with nextId := t.nextId + 1, requests := t.requests.issue ⟨t.nextId, method, aborted, false, .posting⟩ }

def responded (id : Nat) (response : Response) (t : Transport) : Transport :=
  match t.find id with
  | none => t
  | some r => match r.phase with
    | .posting =>
        let sessionId := r.captureSession response t.sessionId
        let answered := t.proceed id (r.posted sessionId response)
        { answered with
          sessionId := if !r.refusesSession response && Request.expired response sessionId then none else sessionId }
    | .resuming reading => t.proceed id (r.resumed reading response)
    | _ => t

def close (t : Transport) : Transport :=
  { t with closed := true, sessionId := none, requests := t.requests.update (fun r => { r with aborted := true }) }

end Transport

def next (options : Options) (t : Transport) : Event → Transport
  | .request method aborted => t.request method aborted
  | .responded id response => t.responded id response
  | .body id value => t.advance id (Request.body value)
  | .chunk id blocks => t.advance id (Request.chunk blocks)
  | .ended id => t.advance id (Request.ended options)
  | .cancelled id => t.advance id Request.cancelled
  | .elapsed id => t.advance id Request.elapsed
  | .failed id => t.advance id (Outcome.rejects .network)
  | .timeout id => { t with requests := t.requests.update (fun r =>
      if r.id = id then { r with timedOut := true, aborted := true } else r) }
  | .abort id => { t with requests := t.requests.update (fun r => if r.id = id then { r with aborted := true } else r) }
  | .close => t.close

def Data.message : Data → Option Value
  | .parsed m => some m
  | _ => none

def Event.messages : Event → List Value
  | .body _ value => value.toList
  | .chunk _ blocks => blocks.filterMap (fun block => block.data.message)
  | _ => []

/-- A message that is read as the answer to a request is a response, when it has its id. -/
def ProperAnswer (m : Value) (id : Nat) : Prop :=
  m.hasId id = true → m.member "method" = none ∧ ∀ result, parseJsonRpcResponse m id = .ok result → result.isSome = true

def Proper (t : Transport) : Event → Prop
  | .body id (some m) => ∀ r, t.find id = some r → r.phase = .readingJson → ProperAnswer m id
  | .chunk id blocks => ∀ r reading m, t.find id = some r → r.phase = .readingSse reading →
      scan id reading blocks = .found m → ProperAnswer m id
  | _ => True

end Kross.Mcp.Rpc.Http

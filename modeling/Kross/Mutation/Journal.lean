import Kross.JsonPrefix
import Kross.Jsonl
import Kross.Mutation.Map

namespace Kross.Mutation

open Kross.Json

structure UnsupportedDataVersionError where
  format : String
  actualVersion : Option Value
  supportedVersion : Number

/-- Versions are compared as literals: the only one ever written is `1`. -/
def assertSupportedDataVersion (value : Value) (format field : String) (supportedVersion : Number)
    (allowMissing : Bool) : Except UnsupportedDataVersionError Unit :=
  match value with
  | .obj fields => match fields.get field with
    | none => if allowMissing then .ok () else .error ⟨format, none, supportedVersion⟩
    | some (.num n) =>
        if n = supportedVersion then .ok () else .error ⟨format, some (.num n), supportedVersion⟩
    | some v => .error ⟨format, some v, supportedVersion⟩
  | _ => .ok ()

class Transaction (M : Type) where
  transactionId : M → String

export Transaction (transactionId)

inductive MutationEvent (M P : Type)
  | prepared (mutation : M)
  | committed (transactionId : String) (post : P)
  | rolledBack (transactionId : String) (reason : String)
  | undone (transactionId : String) (undoneAt : String)

/-- The maps of a `MutationJournal`, in insertion order. -/
structure Journal (M P : Type) where
  prepared : List (String × M)
  committed : List (String × (M × P))
  inactive : List String
  deriving DecidableEq

variable {M P : Type} [Transaction M]

def Journal.empty : Journal M P := ⟨[], [], []⟩

/-- What one event does to the maps, in `load` as in the append methods. -/
def Journal.apply (j : Journal M P) : MutationEvent M P → Journal M P
  | .prepared mutation => { j with prepared := mapSet (transactionId mutation) mutation j.prepared }
  | .committed id post => match mapGet id j.prepared with
    | some prepared => { j with
        committed := mapSet id (prepared, post) j.committed
        prepared := mapDelete id j.prepared }
    | none => j
  | .rolledBack id _ => { j with
      prepared := mapDelete id j.prepared
      inactive := if id ∈ j.inactive then j.inactive else j.inactive ++ [id] }
  | .undone id _ => { j with
      inactive := if id ∈ j.inactive then j.inactive else j.inactive ++ [id] }

def Journal.replay (events : List (MutationEvent M P)) : Journal M P :=
  events.foldl Journal.apply .empty

def Journal.listIncomplete (j : Journal M P) : List M := j.prepared.map Prod.snd

/-- The committed transactions that neither a rollback nor an undo has taken
back. -/
def Journal.activeIds (j : Journal M P) : List String :=
  (j.committed.map Prod.fst).filter (· ∉ j.inactive)

/-- The keys of `prepared` are the ids of the transactions it holds. -/
def Keyed (j : Journal M P) : Prop := ∀ e ∈ j.prepared, transactionId e.2 = e.1

theorem keyed_apply {j : Journal M P} (h : Keyed j) (e : MutationEvent M P) : Keyed (j.apply e) := by
  cases e with
  | prepared m =>
      intro d hd
      rcases mem_mapSet hd with rfl | hd
      · rfl
      · exact h d hd
  | committed id post =>
      rw [Journal.apply]
      split
      · exact fun d hd => h d (mem_of_mem_mapDelete hd)
      · exact h
  | rolledBack id reason => exact fun d hd => h d (mem_of_mem_mapDelete hd)
  | undone id undoneAt => exact h

theorem keyed_foldl {j : Journal M P} (h : Keyed j) (events : List (MutationEvent M P)) :
    Keyed (events.foldl Journal.apply j) := by
  induction events generalizing j with
  | nil => exact h
  | cons e events ih => exact ih (keyed_apply h e)

theorem inactive_apply {j : Journal M P} {id : String} (h : id ∈ j.inactive)
    (e : MutationEvent M P) : id ∈ (j.apply e).inactive := by
  cases e with
  | prepared m => exact h
  | committed k post =>
      rw [Journal.apply]
      split <;> exact h
  | rolledBack k reason | undone k undoneAt =>
      simp only [Journal.apply]
      split_ifs
      · exact h
      · exact List.mem_append_left _ h

theorem inactive_foldl {j : Journal M P} {id : String} (h : id ∈ j.inactive)
    (events : List (MutationEvent M P)) : id ∈ (events.foldl Journal.apply j).inactive := by
  induction events generalizing j with
  | nil => exact h
  | cons e events ih => exact ih (inactive_apply h e)

theorem inactive_of_undone {j : Journal M P} {id t : String} {events : List (MutationEvent M P)}
    (h : .undone id t ∈ events) : id ∈ (events.foldl Journal.apply j).inactive := by
  obtain ⟨a, b, rfl⟩ := List.append_of_mem h
  rw [List.foldl_append, List.foldl_cons]
  refine inactive_foldl ?_ b
  simp only [Journal.apply]
  split_ifs with hi
  · exact hi
  · exact List.mem_append_right _ (List.mem_singleton.mpr rfl)

theorem notPrepared_apply {j : Journal M P} {id : String} {e : MutationEvent M P}
    (h : id ∉ j.prepared.map Prod.fst) (he : ∀ m, e = .prepared m → transactionId m ≠ id) :
    id ∉ (j.apply e).prepared.map Prod.fst := by
  cases e with
  | prepared m =>
      intro hm
      rcases mem_keys_mapSet.mp hm with rfl | hm
      · exact he m rfl rfl
      · exact h hm
  | committed k post =>
      rw [Journal.apply]
      split
      · exact fun hm => h (mem_keys_mapDelete.mp hm).2
      · exact h
  | rolledBack k reason => exact fun hm => h (mem_keys_mapDelete.mp hm).2
  | undone k undoneAt => exact h

theorem notPrepared_foldl {j : Journal M P} {id : String} {events : List (MutationEvent M P)}
    (h : id ∉ j.prepared.map Prod.fst) (he : ∀ m, .prepared m ∈ events → transactionId m ≠ id) :
    id ∉ (events.foldl Journal.apply j).prepared.map Prod.fst := by
  induction events generalizing j with
  | nil => exact h
  | cons e events ih =>
      refine ih (notPrepared_apply h ?_) (fun m hm => he m (List.mem_cons_of_mem _ hm))
      rintro m rfl
      exact he m List.mem_cons_self

theorem notPrepared_of_committed (j : Journal M P) (id : String) (post : P) :
    id ∉ (j.apply (.committed id post)).prepared.map Prod.fst := by
  rw [Journal.apply]
  split
  · exact fun hm => (mem_keys_mapDelete.mp hm).1 rfl
  · rename_i hn
    exact mapGet_none hn

/-- The events take the transaction `id` back: it is rolled back, or committed
and undone, and not prepared again. -/
def TakenBack (id : String) (events : List (MutationEvent M P)) : Prop :=
  ∃ a e b, events = a ++ e :: b ∧ (∀ m, .prepared m ∈ b → transactionId m ≠ id) ∧
    ((∃ reason, e = .rolledBack id reason) ∨
      ∃ post undoneAt, e = .committed id post ∧ .undone id undoneAt ∈ b)

theorem notRestored_of_takenBack {id : String} {events : List (MutationEvent M P)}
    (h : TakenBack id events) :
    (∀ m ∈ (Journal.replay events).listIncomplete, transactionId m ≠ id) ∧
      id ∉ (Journal.replay events).activeIds := by
  obtain ⟨a, e, b, rfl, hb, he⟩ := h
  have hk : Keyed (Journal.replay (a ++ e :: b)) := keyed_foldl (by simp [Keyed, Journal.empty]) _
  have hsplit : Journal.replay (a ++ e :: b) =
      b.foldl Journal.apply ((Journal.replay a).apply e) := by
    simp [Journal.replay, List.foldl_append]
  have hn : id ∉ ((Journal.replay a).apply e).prepared.map Prod.fst := by
    rcases he with ⟨reason, rfl⟩ | ⟨post, undoneAt, rfl, -⟩
    · exact fun hm => (mem_keys_mapDelete.mp hm).1 rfl
    · exact notPrepared_of_committed _ _ _
  have hi : id ∈ (Journal.replay (a ++ e :: b)).inactive := by
    rw [hsplit]
    rcases he with ⟨reason, rfl⟩ | ⟨post, undoneAt, rfl, hu⟩
    · refine inactive_foldl ?_ b
      simp only [Journal.apply]
      split_ifs with hm
      · exact hm
      · exact List.mem_append_right _ (List.mem_singleton.mpr rfl)
    · exact inactive_of_undone hu
  constructor
  · intro m hm hid
    obtain ⟨d, hd, rfl⟩ := List.mem_map.mp hm
    rw [hk d hd] at hid
    rw [hsplit] at hd
    exact notPrepared_foldl hn hb (hid ▸ List.mem_map_of_mem hd)
  · simp [Journal.activeIds, hi]

/-- The `mutation` object of a prepared event: nothing but its id is checked
when it is read. -/
structure RawMutation where
  fields : Fields
  id : String
  named : fields.get "transactionId" = some (.str id)

instance : Transaction RawMutation := ⟨RawMutation.id⟩

abbrev RawEvent := MutationEvent RawMutation Items

def formatVersion : Number := .one

def RawEvent.toJson (e : RawEvent) : Value :=
  .obj (Fields.ofList (("schemaVersion", .num formatVersion) :: match e with
    | .prepared mutation => [("type", .str "mutation.prepared"), ("mutation", .obj mutation.fields)]
    | .committed id post =>
        [("type", .str "mutation.committed"), ("transactionId", .str id), ("post", .arr post)]
    | .rolledBack id reason =>
        [("type", .str "mutation.rolled_back"), ("transactionId", .str id), ("reason", .str reason)]
    | .undone id undoneAt =>
        [("type", .str "mutation.undone"), ("transactionId", .str id), ("undoneAt", .str undoneAt)]))

def parseMutation (fields : Fields) : Option RawMutation :=
  match h : fields.get "transactionId" with
  | some (.str id) => some ⟨fields, id, h⟩
  | _ => none

def parseMutationEvent : Value → Option RawEvent
  | .obj fields => match fields.get "type" with
    | some (.str "mutation.prepared") => match fields.get "mutation" with
      | some (.obj mutation) => (parseMutation mutation).map .prepared
      | _ => none
    | some (.str "mutation.committed") => match fields.get "transactionId", fields.get "post" with
      | some (.str id), some (.arr post) => some (.committed id post)
      | _, _ => none
    | some (.str "mutation.rolled_back") =>
        match fields.get "transactionId", fields.get "reason" with
        | some (.str id), some (.str reason) => some (.rolledBack id reason)
        | _, _ => none
    | some (.str "mutation.undone") => match fields.get "transactionId", fields.get "undoneAt" with
      | some (.str id), some (.str undoneAt) => some (.undone id undoneAt)
      | _, _ => none
    | _ => none
  | _ => none

/-- The text of a line as `append` writes it, without its newline. -/
def RawEvent.text (e : RawEvent) : List Char := render e.toJson

def RawEvent.line (e : RawEvent) : List Char := e.text ++ ['\n']

def loadLine (j : Journal RawMutation Items) (line : List Char) :
    Except UnsupportedDataVersionError (Journal RawMutation Items) :=
  match parse line with
  | none => .ok j
  | some raw => do
      assertSupportedDataVersion raw "Mutation journal event" "schemaVersion" formatVersion true
      match parseMutationEvent raw with
      | none => pure j
      | some event => pure (j.apply event)

/-- `MutationJournal.load` on the decoded text of the journal file. -/
def load (file : List Char) : Except UnsupportedDataVersionError (Journal RawMutation Items) :=
  (Jsonl.records file).foldlM loadLine .empty

end Kross.Mutation

import Kross.Worker.JournalSequence

namespace Kross.Worker

open Kross.Json Kross.UriComponent Prog JournalM

section Files

/-- `join(root, ...path)`. -/
def join (root path : Path) : Path :=
  path.foldl (fun dir part =>
    if part = ".".toList then dir
    else if part = "..".toList then dir.dropLast
    else dir ++ [part]) root

def Pair.files (p : Pair) : List Path := [p.path, p.requestPath, p.sequencePath]

@[simp] theorem path_mem_files (p : Pair) : p.path ∈ p.files := List.mem_cons_self

@[simp] theorem requestPath_mem_files (p : Pair) : p.requestPath ∈ p.files :=
  List.mem_cons_of_mem _ List.mem_cons_self

@[simp] theorem sequencePath_mem_files (p : Pair) : p.sequencePath ∈ p.files :=
  List.mem_cons_of_mem _ (List.mem_cons_of_mem _ List.mem_cons_self)

/-- No file of one pair is a file of the other or a directory above one. -/
def Apart (root : Path) (p q : Pair) : Prop :=
  ∀ f ∈ p.files, ∀ g ∈ q.files, ¬ join root f <+: join root g ∧ ¬ join root g <+: join root f

instance (root : Path) (p q : Pair) : Decidable (Apart root p q) := by
  unfold Apart
  infer_instance

/-- The workspace is no name that `join` resolves. -/
def Pair.Plain (p : Pair) : Prop := p.workspaceId ≠ "." ∧ p.workspaceId ≠ ".."

theorem join_name {part : List Char} (root rest : Path) (h1 : part ≠ ".".toList)
    (h2 : part ≠ "..".toList) : join root (part :: rest) = join (root ++ [part]) rest := by
  rw [join, List.foldl_cons, if_neg h1, if_neg h2]
  rfl

theorem suffixed_ne_dots (s : List Char) {extension : List Char} (hl : 3 ≤ extension.length) :
    s ++ extension ≠ ".".toList ∧ s ++ extension ≠ "..".toList := by
  constructor <;> intro h <;> have := congrArg List.length h <;> simp at this <;> omega

theorem encode_plain {p : Pair} (h : p.Plain) :
    encodeURIComponent p.workspaceId ≠ ".".toList ∧ encodeURIComponent p.workspaceId ≠ "..".toList := by
  have h1 : encodeURIComponent "." = ".".toList := by decide
  have h2 : encodeURIComponent ".." = "..".toList := by decide
  exact ⟨fun he => h.1 (encodeURIComponent_injective (he.trans h1.symm)),
    fun he => h.2 (encodeURIComponent_injective (he.trans h2.symm))⟩

theorem join_path {p : Pair} (h : p.Plain) (root : Path) : join root p.path = root ++ p.path := by
  obtain ⟨h1, h2⟩ := encode_plain h
  have hl : 3 ≤ ".jsonl".toList.length := by decide
  obtain ⟨h3, h4⟩ := suffixed_ne_dots (encodeURIComponent (sessionName p.sessionId)) hl
  rw [Pair.path, pathFor, join_name _ _ h1 h2, join_name _ _ h3 h4]
  simp [join]

theorem join_within {p : Pair} (h : p.Plain) (root : Path) {folder extension : List Char}
    (hf1 : folder ≠ ".".toList) (hf2 : folder ≠ "..".toList) (hl : 3 ≤ extension.length) :
    join root [encodeURIComponent p.workspaceId, folder,
        encodeURIComponent (sessionName p.sessionId) ++ extension] =
      root ++ [encodeURIComponent p.workspaceId, folder,
        encodeURIComponent (sessionName p.sessionId) ++ extension] := by
  obtain ⟨h1, h2⟩ := encode_plain h
  obtain ⟨h3, h4⟩ := suffixed_ne_dots (encodeURIComponent (sessionName p.sessionId)) hl
  rw [join_name _ _ h1 h2, join_name _ _ hf1 hf2, join_name _ _ h3 h4]
  simp [join]

theorem join_file {p : Pair} (h : p.Plain) (root : Path) {f : Path} (hf : f ∈ p.files) :
    join root f = root ++ f := by
  simp only [Pair.files, List.mem_cons, List.not_mem_nil, or_false] at hf
  rcases hf with rfl | rfl | rfl
  · exact join_path h root
  · exact join_within h root (by decide) (by decide) (by decide)
  · exact join_within h root (by decide) (by decide) (by decide)

theorem sequencePath_of_requestPath {p q : Pair} (h : p.requestPath = q.requestPath) :
    p.sequencePath = q.sequencePath := by
  simp only [Pair.requestPath, requestPathFor, List.cons.injEq, and_true, true_and] at h
  have hw := encodeURIComponent_injective h.1
  have hs := encodeURIComponent_injective (List.append_cancel_right h.2)
  rw [Pair.sequencePath, Pair.sequencePath, sequencePathFor, sequencePathFor, hw, hs]

theorem path_not_prefix (p : Pair) {w folder name : List Char}
    (hf : folder.getLast? ≠ some 'l') : ¬ p.path <+: [w, folder, name] := by
  intro h
  simp only [Pair.path, pathFor, List.cons_prefix_cons, List.nil_prefix, and_true] at h
  apply hf
  rw [← h.2]
  simp

theorem not_prefix_path {p : Pair} {a b c : List Char} : ¬ [a, b, c] <+: p.path := by
  intro h
  have hl := h.length_le
  simp [Pair.path, pathFor] at hl

/-- Pairs with different names share no file and no file lies below another. -/
theorem files_apart_from {p q : Pair} (hne : p.sequencePath ≠ q.sequencePath) {f g : Path}
    (hf : f ∈ p.files) (hg : g ∈ q.files) : ¬ f <+: g := by
  have hpath : p.path ≠ q.path := fun he => hne (Pair.sequencePath_of_path he)
  have hrequest : p.requestPath ≠ q.requestPath := fun he => hne (sequencePath_of_requestPath he)
  simp only [Pair.files, List.mem_cons, List.not_mem_nil, or_false] at hf hg
  rcases hf with rfl | rfl | rfl
  · rcases hg with rfl | rfl | rfl
    · exact fun h => hpath (h.eq_of_length rfl)
    · exact path_not_prefix p (by decide)
    · exact path_not_prefix p (by decide)
  · rcases hg with rfl | rfl | rfl
    · exact not_prefix_path
    · exact fun h => hrequest (h.eq_of_length rfl)
    · intro h
      have he := h.eq_of_length rfl
      exact Pair.requestPath_ne_sequencePath p q he
  · rcases hg with rfl | rfl | rfl
    · exact not_prefix_path
    · intro h
      have he := h.eq_of_length rfl
      exact Pair.requestPath_ne_sequencePath q p he.symm
    · exact fun h => hne (h.eq_of_length rfl)

theorem apart_of_plain {p q : Pair} (hp : p.Plain) (hq : q.Plain) (root : Path)
    (hne : p.sequencePath ≠ q.sequencePath) : Apart root p q := by
  intro f hf g hg
  rw [join_file hp root hf, join_file hq root hg, List.prefix_append_right_inj,
    List.prefix_append_right_inj]
  exact ⟨files_apart_from hne hf hg, files_apart_from (Ne.symm hne) hg hf⟩

end Files

section Seen

variable (schemas : Schemas) (q : Pair)

def seenSequence (s : JournalState) : Except JournalError Nat :=
  (exec (lastSeq schemas q.workspaceId q.sessionId) s).1

def seenReplay (afterSeq : Nat) (s : JournalState) : Except JournalError (List EventEnvelope) :=
  (exec (replay schemas q.workspaceId q.sessionId afterSeq) s).1

def seenRequest (requestId now : String) (s : JournalState) :
    Except JournalError (Option (List EventEnvelope)) :=
  (exec (findCompletedRequest schemas q.workspaceId q.sessionId requestId now) s).1

/-- The sequence number, the replay and the completed requests of `q` are the
same in both states. -/
structure SameSeen (s t : JournalState) : Prop where
  sequence : seenSequence schemas q t = seenSequence schemas q s
  replayed : ∀ afterSeq, seenReplay schemas q afterSeq t = seenReplay schemas q afterSeq s
  request : ∀ requestId now, seenRequest schemas q requestId now t = seenRequest schemas q requestId now s

/-- Nothing of `q` in memory or in its files differs. -/
structure Agrees (s t : JournalState) : Prop where
  last : t.memory.lastSequences q.key = s.memory.lastSequences q.key
  index : t.memory.requestIndexes q.requestPath = s.memory.requestIndexes q.requestPath
  file : t.disk q.path = s.disk q.path
  requestFile : t.disk q.requestPath = s.disk q.requestPath
  sequenceFile : t.disk q.sequencePath = s.disk q.sequencePath

variable {schemas q} {s t : JournalState}

theorem lastSeq_eq (q : Pair) : lastSeq schemas q.workspaceId q.sessionId = (do
    match (← get).memory.lastSequences q.key with
    | some cached => pure cached
    | none => uncachedLastSeq schemas q) := rfl

theorem Agrees.sequence (h : Agrees q s t) : seenSequence schemas q t = seenSequence schemas q s := by
  have he : eventsOn schemas q t.disk = eventsOn schemas q s.disk := by rw [eventsOn, eventsOn, h.file]
  have hr : reservedOn q t.disk = reservedOn q s.disk := by
    rw [reservedOn, reservedOn, h.sequenceFile]
  rw [seenSequence, seenSequence, lastSeq_eq, exec_bind, exec_bind, exec_get, exec_get]
  dsimp only
  rw [h.last]
  cases s.memory.lastSequences q.key with
  | some cached => rfl
  | none =>
      dsimp only
      rw [uncachedLastSeq, exec_bind, exec_bind, exec_read, exec_read, he]
      cases eventsOn schemas q s.disk with
      | error e => rfl
      | ok events =>
          dsimp only [exec_ofExcept_ok]
          rw [exec_bind, exec_bind, exec_readReserved, exec_readReserved, hr]
          cases reservedOn q s.disk <;> rfl

theorem Agrees.replayed (h : Agrees q s t) (afterSeq : Nat) :
    seenReplay schemas q afterSeq t = seenReplay schemas q afterSeq s := by
  have he : eventsOn schemas q t.disk = eventsOn schemas q s.disk := by rw [eventsOn, eventsOn, h.file]
  rw [seenReplay, seenReplay, replay, exec_bind, exec_bind, exec_read, exec_read, he]
  cases eventsOn schemas q s.disk <;> rfl

/-- The requests of `q` that are in memory, else those of its file. -/
def requestsOn (schemas : Schemas) (q : Pair) (now : String) (s : JournalState) :
    Except UnsupportedWorkerDataVersionError (List CompletedRequest) :=
  match s.memory.requestIndexes q.requestPath with
  | some cached => .ok cached
  | none => match s.disk q.requestPath with
    | none => .ok []
    | some text => readRequestIndex schemas now text

theorem exec_requests (schemas : Schemas) (q : Pair) (now : String) (s : JournalState) :
    (exec (requests schemas q.workspaceId q.sessionId now) s).1 =
      (exec (ofExcept (requestsOn schemas q now s)) s).1 := by
  rw [requests, exec_bind, exec_get]
  dsimp only
  rw [requestsOn, Pair.requestPath]
  cases s.memory.requestIndexes (requestPathFor q.workspaceId q.sessionId) with
  | some cached => rfl
  | none =>
      dsimp only
      cases s.disk (requestPathFor q.workspaceId q.sessionId) with
      | none => rfl
      | some text =>
          dsimp only
          cases readRequestIndex schemas now text <;> rfl

theorem seenRequest_eq (requestId now : String) (s : JournalState) :
    seenRequest schemas q requestId now s =
      match requestsOn schemas q now s with
      | .ok entries =>
          .ok ((entries.find? (fun entry => entry.requestId = requestId)).map CompletedRequest.events)
      | .error e => .error (.unsupported e) := by
  have h := exec_requests schemas q now s
  rw [seenRequest, findCompletedRequest, exec_bind]
  generalize exec (requests schemas q.workspaceId q.sessionId now) s = r at h
  obtain ⟨r, s'⟩ := r
  cases hr : requestsOn schemas q now s with
  | ok entries =>
      rw [hr] at h
      cases h
      rfl
  | error e =>
      rw [hr] at h
      cases h
      rfl

theorem Agrees.request (h : Agrees q s t) (requestId now : String) :
    seenRequest schemas q requestId now t = seenRequest schemas q requestId now s := by
  have hr : requestsOn schemas q now t = requestsOn schemas q now s := by
    rw [requestsOn, requestsOn, h.index, h.requestFile]
  rw [seenRequest_eq, seenRequest_eq, hr]

theorem Agrees.sameSeen (h : Agrees q s t) : SameSeen schemas q s t :=
  ⟨h.sequence, h.replayed, h.request⟩

end Seen

section Beside

/-- Nothing of `q` has changed since `s`, and only files of `p` have. -/
structure Beside (p q : Pair) (s t : JournalState) : Prop where
  agrees : Agrees q s t
  actions : ∀ a ∈ t.actions, a.path ∈ p.files

variable {schemas : Schemas} {p q : Pair} {s : JournalState}

theorem beside_begin (p q : Pair) (s : JournalState) : Beside p q s s.begin :=
  ⟨⟨rfl, rfl, rfl, rfl, rfl⟩, fun _ ha => absurd ha List.not_mem_nil⟩

theorem file_ne (h : p.key ≠ q.key) {f g : Path} (hf : f ∈ p.files) (hg : g ∈ q.files) : f ≠ g := by
  rintro rfl
  exact files_apart_from (sequencePath_ne h) hf hg List.prefix_rfl

theorem beside_act (h : p.key ≠ q.key) {a : FileAction} (ha : a.path ∈ p.files) :
    Preserves (Beside p q s) (act a) := by
  refine preserves_modify (fun t ht => ⟨⟨ht.agrees.last, ht.agrees.index,
    (apply_other (file_ne h ha (path_mem_files q)) t.disk).trans ht.agrees.file,
    (apply_other (file_ne h ha (requestPath_mem_files q)) t.disk).trans ht.agrees.requestFile,
    (apply_other (file_ne h ha (sequencePath_mem_files q)) t.disk).trans ht.agrees.sequenceFile⟩, ?_⟩)
  intro b hb
  rcases List.mem_append.mp hb with hb | hb
  · exact ht.actions b hb
  · rwa [List.mem_singleton.mp hb]

theorem beside_onMemory {f : Memory → Memory}
    (h : ∀ m, (f m).lastSequences q.key = m.lastSequences q.key ∧
      (f m).requestIndexes q.requestPath = m.requestIndexes q.requestPath) :
    Preserves (Beside p q s) (onMemory f) :=
  preserves_modify (fun t ht => ⟨⟨(h t.memory).1.trans ht.agrees.last,
    (h t.memory).2.trans ht.agrees.index, ht.agrees.file, ht.agrees.requestFile,
    ht.agrees.sequenceFile⟩, ht.actions⟩)

theorem requestPath_ne (h : p.key ≠ q.key) : q.requestPath ≠ p.requestPath :=
  fun he => h (Pair.key_of_sequencePath (sequencePath_of_requestPath he.symm))

theorem beside_setLast (h : p.key ≠ q.key) (n : Nat) :
    Preserves (Beside p q s) (setLastSequence p.workspaceId p.sessionId n) :=
  beside_onMemory (fun _ => ⟨Function.update_of_ne (Ne.symm h) _ _, rfl⟩)

theorem beside_reserve (h : p.key ≠ q.key) (n : Nat) :
    Preserves (Beside p q s) (reserveSequenceRange p.workspaceId p.sessionId n) :=
  (beside_act (a := .write p.sequencePath _) h (sequencePath_mem_files p)).bind (fun _ =>
    beside_onMemory (fun _ => ⟨rfl, rfl⟩))

theorem beside_setRequestIndex (h : p.key ≠ q.key) (entries : List CompletedRequest) :
    Preserves (Beside p q s) (setRequestIndex p.workspaceId p.sessionId entries) :=
  beside_onMemory (fun _ => ⟨rfl, Function.update_of_ne (requestPath_ne h) _ _⟩)

theorem beside_append (h : p.key ≠ q.key) (event : Fields) (correlationId : Option String)
    (now : String) :
    Preserves (Beside p q s) (append schemas p.workspaceId p.sessionId event correlationId now) := by
  refine preserves_append correlationId now (beside_setLast h) (beside_reserve h)
    (fun envelope => preserves_persist (beside_act h ?_))
  rw [persistAction_path]
  exact path_mem_files p

theorem beside_requests (h : p.key ≠ q.key) (now : String) :
    Preserves (Beside p q s) (requests schemas p.workspaceId p.sessionId now) :=
  preserves_requests now (beside_setRequestIndex h)

theorem beside_completeRequest (h : p.key ≠ q.key) (requestId : String) (events : List EventEnvelope)
    (now : String) : Preserves (Beside p q s)
      (completeRequest schemas p.workspaceId p.sessionId requestId events now) :=
  preserves_completeRequest requestId events now (beside_setRequestIndex h)
    (fun _ => beside_act h (requestPath_mem_files p))

theorem beside_deleteSession {workspaceId sessionId : String}
    (h : Pair.key ⟨workspaceId, some sessionId⟩ ≠ q.key) :
    Preserves (Beside ⟨workspaceId, some sessionId⟩ q s) (deleteSession workspaceId sessionId) := by
  refine (beside_act (a := .remove _) h (path_mem_files _)).bind (fun _ => ?_)
  refine (beside_act (a := .remove _) h (requestPath_mem_files _)).bind (fun _ => ?_)
  refine (beside_onMemory (fun _ => ?_)).bind (fun _ => ?_)
  · exact ⟨Function.update_of_ne (Ne.symm h) _ _, rfl⟩
  refine (beside_act (a := .remove _) h (sequencePath_mem_files _)).bind (fun _ =>
    beside_onMemory (fun _ => ?_))
  exact ⟨rfl, Function.update_of_ne (requestPath_ne h) _ _⟩

/-- An operation on one pair leaves everything of a pair with another key as it
was. -/
theorem op_beside (schemas : Schemas) {op : JournalOp} (h : op.pair.key ≠ q.key) (s : JournalState) :
    Beside op.pair q s (op.result schemas s).2 := by
  have hkeeps : Preserves (Beside op.pair q s) (op.prog schemas) := by
    cases op with
    | append pair event correlationId now =>
        exact preserves_map _ (beside_append h event correlationId now)
    | replay pair afterSeq =>
        exact ((preserves_read pair).bind (fun _ => preserves_pure _)).bind (fun _ => preserves_pure _)
    | lastSeq pair =>
        exact (preserves_lastSeq (beside_setLast h) (beside_reserve h)).bind (fun _ => preserves_pure _)
    | findCompletedRequest pair requestId now =>
        exact ((beside_requests h now).bind (fun _ => preserves_pure _)).bind (fun _ => preserves_pure _)
    | completeRequest pair requestId events now =>
        exact (beside_completeRequest h requestId events now).bind (fun _ => preserves_pure _)
    | deleteSession workspaceId sessionId =>
        exact (beside_deleteSession h).bind (fun _ => preserves_pure _)
  exact hkeeps s.begin (beside_begin op.pair q s)

end Beside

section Isolated

def JournalOp.changes : JournalOp → Bool
  | .append .. | .completeRequest .. | .deleteSession .. => true
  | _ => false

variable (schemas : Schemas) (root : Path) (p q : Pair)

/-- The protocol schema accepts the identifiers. -/
def Pair.Accepted : Prop :=
  identifierSchema (.str p.workspaceId) = some p.workspaceId ∧
    optional identifierSchema (p.sessionId.map .str) = some p.sessionId

instance (p : Pair) : Decidable p.Accepted := inferInstanceAs (Decidable (_ ∧ _))

/-- The operation changes nothing that is seen of `q`, and no place of the file
tree where a file of `q` or a directory above it is. -/
structure Keeps (s : JournalState) (op : JournalOp) : Prop where
  seen : SameSeen schemas q s (op.result schemas s).2
  places : ∀ a ∈ (op.result schemas s).2.actions, ∀ g ∈ q.files,
    ¬ join root a.path <+: join root g ∧ ¬ join root g <+: join root a.path

/-- No operation on `p` changes anything of `q`, in any state. -/
def Isolated : Prop :=
  ∀ steps op, op.changes = true → op.pair = p →
    Keeps schemas root q (stateAfter schemas .fresh steps) op

/-- Some event that is persisted is accepted. -/
def Live : Prop :=
  ∃ now event, schemas.datetime now = true ∧ (schemas.serverEvent event).isSome ∧
    shouldPersist event = true

variable {schemas root p q}

theorem isolated_of_apart (h : p.key ≠ q.key) (ha : Apart root p q) : Isolated schemas root p q := by
  rintro steps op - rfl
  have hb := op_beside schemas h (stateAfter schemas .fresh steps)
  exact ⟨hb.agrees.sameSeen, fun a hm g hg => ha _ (hb.actions a hm) g hg⟩

theorem exec_lastSeq_unnumbered {s : JournalState} {n : Nat}
    (hm : s.memory.lastSequences p.key = none) (hd : s.disk p.path = none)
    (hr : reservedOn p s.disk = .ok n) :
    exec (lastSeq schemas p.workspaceId p.sessionId) s = (.ok n, reserve p n (setLast p n s)) := by
  have he : eventsOn schemas p s.disk = .ok [] := by rw [eventsOn, hd]
  have h0 : max 0 n = n := Nat.zero_max n
  rw [lastSeq_eq, exec_bind, exec_get]
  dsimp only
  rw [hm]
  dsimp only
  rw [uncachedLastSeq, exec_bind, exec_read, he]
  dsimp only [exec_ofExcept_ok]
  rw [exec_bind, exec_readReserved, hr]
  dsimp only [exec_ofExcept_ok, List.getLast?_nil, Option.map_none, Option.getD_none]
  rw [h0]
  rfl

theorem exec_append_unnumbered {s : JournalState} {n : Nat} {event : Fields}
    (hm : s.memory.lastSequences p.key = none) (hd : s.disk p.path = none)
    (hr : reservedOn p s.disk = .ok n) (now : String) :
    exec (append schemas p.workspaceId p.sessionId event none now) s =
      exec (numbered schemas p event none now (n + 1)) (reserve p n (setLast p n s)) := by
  have hlimit : (reserve p n (setLast p n s)).memory.sequenceLimits p.key = some (n + 10000) :=
    Function.update_self ..
  rw [append_eq, exec_bind, exec_lastSeq_unnumbered hm hd hr]
  dsimp only
  rw [exec_appendFrom, ranged, hlimit, if_neg (by simp)]

theorem result_append {event : Fields} (now : String) (s : JournalState) :
    ((JournalOp.append p event none now).result schemas s).2 =
      (exec (append schemas p.workspaceId p.sessionId event none now) s.begin).2 := by
  rw [JournalOp.result, JournalOp.prog, exec_map]
  rfl

/-- An event without a type changes no file, whether it is accepted or not. -/
theorem numbered_untyped (now : String) (n : Nat) (s : JournalState) :
    (exec (numbered schemas p .nil none now n) s).2 = s ∨
      (exec (numbered schemas p .nil none now n) s).2 = setLast p n s := by
  rw [exec_numbered]
  cases eventEnvelopeSchema schemas (.obj (rawEnvelope p .nil none now n).fields) with
  | none => exact Or.inl rfl
  | some envelope => exact Or.inr rfl

theorem result_untyped (schemas : Schemas) {s : JournalState} {n : Nat} (hm : s.memory.lastSequences p.key = none)
    (hd : s.disk p.path = none) (hr : reservedOn p s.disk = .ok n) :
    ((JournalOp.append p .nil none "t").result schemas s).2 = reserve p n (setLast p n s.begin) ∨
      ((JournalOp.append p .nil none "t").result schemas s).2 =
        setLast p (n + 1) (reserve p n (setLast p n s.begin)) := by
  rw [result_append, exec_append_unnumbered (s := s.begin) hm hd hr]
  exact numbered_untyped ..

/-- The files after the first range of `p` has been reserved. -/
def reservedDisk (p : Pair) : Disk :=
  Function.update (fun _ => none) p.sequencePath (some (reservationContent 10000))

theorem stateAfter_untyped :
    stateAfter schemas .fresh [.call (.append p .nil none "t"), .restart] =
      .reopen (reservedDisk p) := by
  change JournalState.reopen ((JournalOp.append p .nil none "t").result schemas .fresh).2.disk = _
  rcases result_untyped schemas (p := p) (s := .fresh) (n := 0) rfl rfl rfl with h | h <;>
    rw [h] <;> rfl

/-- Two pairs with one key: after a restart an append on the first one gives
the second one numbers it never had. -/
theorem not_isolated_of_key (hk : p.key = q.key) (hne : p.sequencePath ≠ q.sequencePath) :
    ¬ Isolated schemas root p q := by
  intro h
  have hkeeps := h [.call (.append p .nil none "t"), .restart] (.append p .nil none "t") rfl rfl
  have hseen := hkeeps.seen.sequence
  rw [stateAfter_untyped] at hseen
  have hbefore : seenSequence schemas q (.reopen (reservedDisk p)) = .ok 0 := by
    have hd : reservedDisk p q.path = none :=
      Function.update_of_ne (Pair.path_ne_sequencePath q p) _ _
    have hr : reservedOn q (reservedDisk p) = .ok 0 := by
      rw [reservedOn, reservedDisk, Function.update_of_ne (Ne.symm hne)]
    rw [seenSequence, exec_lastSeq_unnumbered (s := .reopen (reservedDisk p)) rfl hd hr]
  have hafter : ∃ n, 10000 ≤ n ∧ ((JournalOp.append p .nil none "t").result schemas
      (.reopen (reservedDisk p))).2.memory.lastSequences q.key = some n := by
    have hd : reservedDisk p p.path = none :=
      Function.update_of_ne (Pair.path_ne_sequencePath p p) _ _
    have hr : reservedOn p (reservedDisk p) = .ok 10000 := by
      rw [reservedOn, reservedDisk, Function.update_self]
      exact readSequenceReservation_content (by decide) (by decide)
    rw [← hk]
    rcases result_untyped schemas (s := .reopen (reservedDisk p)) rfl hd hr with hs | hs
    · exact ⟨10000, le_rfl, by rw [hs]; exact Function.update_self ..⟩
    · exact ⟨10001, by decide, by rw [hs]; exact Function.update_self ..⟩
  obtain ⟨n, hn, hafter⟩ := hafter
  rw [hbefore, seenSequence, lastSeq_eq, exec_bind, exec_get] at hseen
  dsimp only at hseen
  rw [hafter] at hseen
  have hn0 : n = 0 := Except.ok.inj hseen
  omega

def someEnvelope : EventEnvelope := ⟨none, "w", none, none, 1, "t", .nil⟩

def someRequest : CompletedRequest := ⟨"r", "t", [someEnvelope]⟩

theorem result_completeRequest :
    ((JournalOp.completeRequest p "r" [someEnvelope] "t").result schemas .fresh).2 =
      { disk := Function.update (fun _ => none) p.requestPath (some (requestIndexContent [someRequest]))
        memory := { Memory.empty with
          requestIndexes := Function.update
            (Function.update (fun _ => none) p.requestPath (some [])) p.requestPath (some [someRequest]) }
        actions := [.write p.requestPath (requestIndexContent [someRequest])] } := rfl

/-- Two names of one workspace's files: the completed requests are shared. -/
theorem not_isolated_of_files (hp : p.requestPath = q.requestPath) : ¬ Isolated schemas root p q := by
  intro h
  have hseen := (h [] (.completeRequest p "r" [someEnvelope] "t") rfl rfl).seen.request "r" "t"
  have hafter : requestsOn schemas q "t"
      ((JournalOp.completeRequest p "r" [someEnvelope] "t").result schemas .fresh).2 =
        .ok [someRequest] := by
    rw [result_completeRequest, requestsOn, ← hp]
    dsimp only
    rw [Function.update_self]
  rw [seenRequest_eq, seenRequest_eq] at hseen
  change (match requestsOn schemas q "t"
    ((JournalOp.completeRequest p "r" [someEnvelope] "t").result schemas .fresh).2 with
    | .ok entries => _
    | .error e => _) = _ at hseen
  rw [hafter] at hseen
  cases hseen

theorem Isolated.key_ne (h : Isolated schemas root p q) : p.key ≠ q.key := by
  intro hk
  by_cases hs : p.sequencePath = q.sequencePath
  · refine not_isolated_of_files ?_ h
    obtain ⟨hw, hn⟩ := Pair.names_of_sequencePath hs
    rw [Pair.requestPath, Pair.requestPath, requestPathFor, requestPathFor, hw, hn]
  · exact not_isolated_of_key hk hs h

theorem action_sequencePath (schemas : Schemas) (p : Pair) : ∃ a ∈ ((JournalOp.append p .nil none "t").result schemas .fresh).2.actions,
    a.path = p.sequencePath := by
  refine ⟨.write p.sequencePath (reservationContent 10000), ?_, rfl⟩
  rcases result_untyped schemas (p := p) (s := .fresh) (n := 0) rfl rfl rfl with h | h <;>
    rw [h] <;> exact List.mem_cons_self

theorem action_requestPath (schemas : Schemas) (p : Pair) :
    ∃ a ∈ ((JournalOp.completeRequest p "r" [someEnvelope] "t").result schemas .fresh).2.actions,
      a.path = p.requestPath :=
  ⟨_, List.mem_cons_self, rfl⟩

theorem envelope_accepted {event : Fields} {now : String} (ha : p.Accepted) (n : Nat)
    (ht : schemas.datetime now = true) (he : (schemas.serverEvent event).isSome) :
    ∃ envelope, eventEnvelopeSchema schemas (.obj (rawEnvelope p event none now n).fields) =
      some envelope := by
  obtain ⟨hw, hs⟩ := ha
  obtain ⟨event', he⟩ := Option.isSome_iff_exists.mp he
  have hc : optional identifierSchema none = some none := rfl
  rw [eventEnvelopeSchema_fields]
  simp [rawEnvelope, hw, hs, hc, datetimeSchema, ht, he]

theorem action_path {event : Fields} {now : String} (ha : p.Accepted)
    (ht : schemas.datetime now = true) (he : (schemas.serverEvent event).isSome)
    (hs : shouldPersist event = true) :
    ∃ a ∈ ((JournalOp.append p event none now).result schemas .fresh).2.actions, a.path = p.path := by
  obtain ⟨envelope, hv⟩ := envelope_accepted ha 1 ht he
  refine ⟨persistAction p event envelope, ?_, persistAction_path p event envelope⟩
  rw [result_append, exec_append_unnumbered (s := JournalState.fresh.begin) (n := 0) rfl rfl rfl,
    exec_numbered, hv]
  dsimp only
  rw [stored, if_pos hs]
  exact List.mem_append_right _ (List.mem_singleton_self _)

theorem Isolated.apart (h : Isolated schemas root p q) (ha : p.Accepted) (hlive : Live schemas) :
    Apart root p q := by
  obtain ⟨now, event, ht, he, hs⟩ := hlive
  intro f hf g hg
  simp only [Pair.files, List.mem_cons, List.not_mem_nil, or_false] at hf
  rcases hf with rfl | rfl | rfl
  · obtain ⟨a, hm, hp⟩ := action_path ha ht he hs
    rw [← hp]
    exact (h [] (.append p event none now) rfl rfl).places a hm g hg
  · obtain ⟨a, hm, hp⟩ := action_requestPath schemas p
    rw [← hp]
    exact (h [] (.completeRequest p "r" [someEnvelope] "t") rfl rfl).places a hm g hg
  · obtain ⟨a, hm, hp⟩ := action_sequencePath schemas p
    rw [← hp]
    exact (h [] (.append p .nil none "t") rfl rfl).places a hm g hg

/-- A pair is isolated from another exactly when their keys differ and their
files lie apart, which they always do when `join` resolves neither workspace. -/
theorem isolated_iff (hp : p.Accepted) (hlive : Live schemas) :
    (Isolated schemas root p q ↔ p.key ≠ q.key ∧ Apart root p q) ∧
      (p.key ≠ q.key → p.Plain → q.Plain → Apart root p q) :=
  ⟨⟨fun h => ⟨h.key_ne, h.apart hp hlive⟩, fun h => isolated_of_apart h.1 h.2⟩,
    fun hk h1 h2 => apart_of_plain h1 h2 root (sequencePath_ne hk)⟩

end Isolated

def otherPair : Pair := ⟨"w", some "other"⟩

def savedEvent : Fields := Fields.ofList [("type", .str "session.updated")]

theorem isolated_otherPair : Isolated anySchemas ["root".toList] onePair otherPair :=
  (isolated_iff (by decide) ⟨"t", savedEvent, rfl, rfl, rfl⟩).1.mpr ⟨by decide, by decide⟩

theorem colonPair_not_isolated :
    colonPair.Accepted ∧ colonRival.Accepted ∧ colonPair ≠ colonRival ∧
      ¬ Isolated anySchemas ["root".toList] colonPair colonRival :=
  ⟨by decide, by decide, by decide, fun h => h.key_ne (by decide)⟩

end Kross.Worker

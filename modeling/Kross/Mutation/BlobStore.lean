import Kross.Mutation.Restore

namespace Kross.Mutation

open Kross.Prog

/-- A call of `writeBlob` that returns, or one in which the process ends when the file
has been made and holds so many bytes. -/
inductive BlobEvent
  | written (content : Bytes)
  | interrupted (content : Bytes) (bytes : Nat)
  deriving DecidableEq

def BlobEvent.content : BlobEvent → Bytes
  | .written content | .interrupted content _ => content

/-- What the event leaves in a blob file that it makes. -/
def BlobEvent.left : BlobEvent → Bytes
  | .written content => content
  | .interrupted content bytes => content.take bytes

variable {D H : Type} [DecidableEq D]

section Store

variable (sha : Sha256 D H)

def tearBlob (blobs : List (D × Bytes)) (content : Bytes) (bytes : Nat) : List (D × Bytes) :=
  if (blobs.lookup (sha.ofBytes content)).isSome then blobs
  else (sha.ofBytes content, content.take bytes) :: blobs

def blobStep (s : MutationState D H) : BlobEvent → MutationState D H
  | .written content => { s with blobs := writeBlob sha s.blobs content }
  | .interrupted content bytes => { s with blobs := tearBlob sha s.blobs content bytes }

/-- The state after a history of calls, over as many processes as there are interrupted
ones and one more. -/
def blobsAfter (s : MutationState D H) (history : List BlobEvent) : MutationState D H := history.foldl (blobStep sha) s

end Store

section Integrity

variable {sha : Sha256 D H} {s : MutationState D H} {history : List BlobEvent} {c : Bytes}

theorem blobs_blobStep (e : BlobEvent) :
    (blobStep sha s e).blobs = if (s.blobs.lookup (sha.ofBytes e.content)).isSome then s.blobs
      else (sha.ofBytes e.content, e.left) :: s.blobs := by
  cases e <;> rfl

/-- The first call for a content decides what its blob holds. -/
theorem lookup_blobsAfter : (blobsAfter sha s history).blobs.lookup (sha.ofBytes c) =
    (s.blobs.lookup (sha.ofBytes c)).or ((history.find? (fun e => e.content = c)).map BlobEvent.left) := by
  induction history generalizing s with
  | nil => simp [blobsAfter]
  | cons e history ih =>
      have hstep := ih (s := blobStep sha s e)
      rw [blobsAfter] at hstep
      rw [blobsAfter, List.foldl_cons, hstep, blobs_blobStep, List.find?_cons]
      by_cases he : e.content = c
      · subst he
        cases hlookup : s.blobs.lookup (sha.ofBytes e.content) with
        | none => simp
        | some content => simp [hlookup]
      · have hne : (sha.ofBytes c == sha.ofBytes e.content) = false := by
          rw [beq_eq_false_iff_ne]
          intro h
          exact he (sha.bytes_injective h).symm
        split_ifs
        · simp [he]
        · simp [he, List.lookup_cons, hne]

theorem runs_readBlob_iff {ref : D} : Runs (readBlob ref) s c s ↔ s.blobs.lookup ref = some c := by
  rw [Runs, readBlob, exec_bind, exec_get]
  cases hlookup : s.blobs.lookup ref with
  | none => simp [hlookup]
  | some content => simp [hlookup]

/-- Every reference that was returned so far reads as what was written. -/
def BlobsIntact (sha : Sha256 D H) (s : MutationState D H) (history : List BlobEvent) : Prop :=
  ∀ now, now <+: history → ∀ c, .written c ∈ now →
    Runs (readBlob (sha.ofBytes c)) (blobsAfter sha s now) c (blobsAfter sha s now)

/-- The first write of some content was cut short, and the content is written again. -/
def TornThenWritten (history : List BlobEvent) : Prop :=
  ∃ before c bytes after, history = before ++ .interrupted c bytes :: after ∧ bytes < c.length ∧
    (∀ e ∈ before, e.content ≠ c) ∧ .written c ∈ after

theorem left_eq_of_not_torn {e : BlobEvent} {before after : List BlobEvent} (h : ¬TornThenWritten history)
    (hnow : before ++ e :: after <+: history) (hfirst : ∀ e' ∈ before, e'.content ≠ e.content)
    (hwritten : .written e.content ∈ before ++ e :: after) : e.left = e.content := by
  cases e with
  | written content => rfl
  | interrupted content bytes =>
      by_contra hshort
      obtain ⟨rest, rfl⟩ := hnow
      refine h ⟨before, content, bytes, after ++ rest, by simp, ?_, hfirst, ?_⟩
      · by_contra hlong
        exact hshort (List.take_of_length_le (by omega))
      · have hafter : .written content ∈ after := by
          rcases List.mem_append.mp hwritten with hbefore | hlater
          · exact absurd rfl (hfirst (.written content) hbefore)
          · rcases List.mem_cons.mp hlater with hsame | hlater
            · cases hsame
            · exact hlater
        exact List.mem_append_left _ hafter

theorem not_intact_of_torn (hs : s.blobs = []) (h : TornThenWritten history) : ¬BlobsIntact sha s history := by
  intro hintact
  obtain ⟨before, c, bytes, after, rfl, hbytes, hbefore, hafter⟩ := h
  have hread := hintact _ List.prefix_rfl c (List.mem_append_right _ (List.mem_cons_of_mem _ hafter))
  have hfind : (before ++ .interrupted c bytes :: after).find? (fun e => e.content = c) = some (.interrupted c bytes) := by
    rw [List.find?_eq_some_iff_append]
    refine ⟨by simp [BlobEvent.content], before, after, rfl, fun e he => ?_⟩
    simpa using hbefore e he
  rw [runs_readBlob_iff, lookup_blobsAfter, hs, hfind] at hread
  have htake : c.take bytes = c := by simpa [BlobEvent.left] using hread
  have hlength := congrArg List.length htake
  rw [List.length_take] at hlength
  omega

theorem blobs_intact_iff (hs : s.blobs = []) : BlobsIntact sha s history ↔ ¬TornThenWritten history := by
  refine ⟨fun h ht => not_intact_of_torn hs ht h, fun h now hnow c hc => ?_⟩
  rw [runs_readBlob_iff, lookup_blobsAfter, hs]
  cases hfind : now.find? (fun e => e.content = c) with
  | none =>
      have hnone := List.find?_eq_none.mp hfind _ hc
      simp [BlobEvent.content] at hnone
  | some e =>
      obtain ⟨he, before, after, rfl, hbefore⟩ := List.find?_eq_some_iff_append.mp hfind
      have hcontent : e.content = c := by simpa using he
      subst hcontent
      have hleft : e.left = e.content :=
        left_eq_of_not_torn h hnow (fun e' he' => by simpa using hbefore e' he') hc
      simp [hleft]

/-- What was written can be restored, whatever calls were interrupted meanwhile. -/
theorem stored_of_intact (h : BlobsIntact sha s history) {node : FileNode} (hnode : ∀ c, node = .file c → .written c ∈ history) :
    Stored sha (blobsAfter sha s history).blobs node :=
  fun c hc => runs_readBlob_iff.mp (h history List.prefix_rfl c (hnode c hc))

end Integrity

def noMutations : MutationState Digest (List (MutationEntrySnapshot Digest)) := ⟨.empty, [], ⟨[], [], []⟩⟩

/-- Of the contents that are cut short, one was whole before and the other is not written
again. -/
theorem blobs_intact_iff_whole :
    BlobsIntact Sha256.verbatim noMutations [.written [1, 2], .interrupted [1, 2] 1, .interrupted [3] 0, .written [1, 2]] :=
  (blobs_intact_iff rfl).mpr (by
    rintro ⟨before, c, bytes, after, h, -, hbefore, hafter⟩
    rcases before with _ | ⟨e₀, _ | ⟨e₁, _ | ⟨e₂, _ | ⟨e₃, before⟩⟩⟩⟩ <;> simp at h
    · obtain ⟨rfl, ⟨rfl, -⟩, -⟩ := h
      exact hbefore _ List.mem_cons_self rfl
    · obtain ⟨-, -, ⟨rfl, -⟩, rfl⟩ := h
      simp at hafter)

/-- The process ends when one of two bytes is written, and the next one captures the same
content. -/
theorem torn_blob_not_intact :
    ¬BlobsIntact Sha256.verbatim noMutations [.interrupted [1, 2] 1, .written [1, 2]] :=
  not_intact_of_torn rfl ⟨[], [1, 2], 1, [.written [1, 2]], rfl, by decide, by simp, by simp⟩

end Kross.Mutation

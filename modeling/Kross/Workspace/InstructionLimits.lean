import Kross.Workspace.ProjectInstructions
import Mathlib.Algebra.GroupWithZero.Nat

namespace Kross.Workspace

open Utf8

def utf8Bytes (text : List Char) : Nat := (encode text).length

/-- What of a text is injected when a file may have so many bytes. -/
inductive Injects (text : List Char) (maxBytes : Nat) : List Char → Prop
  | whole (hfits : utf8Bytes text ≤ maxBytes) : Injects text maxBytes text
  | headAndTail (head middle tail : List Char) (remaining : Nat) (hlong : maxBytes < utf8Bytes text)
      (htext : text = head ++ middle ++ tail)
      (hremaining : utf8Bytes (marker (utf8Bytes text)) + remaining = maxBytes)
      (hhead : utf8Bytes head ≤ (remaining + 1) / 2) (hheadShort : (remaining + 1) / 2 ≤ utf8Bytes head + 3)
      (htail : utf8Bytes tail ≤ remaining - utf8Bytes head)
      (htailShort : remaining - utf8Bytes head ≤ utf8Bytes tail + 3) :
      Injects text maxBytes (head ++ marker (utf8Bytes text) ++ tail)
  | headOnly (head more : List Char) (hlong : maxBytes < utf8Bytes text) (htext : text = head ++ more)
      (hmarker : maxBytes ≤ utf8Bytes (marker (utf8Bytes text))) (hhead : utf8Bytes head ≤ maxBytes)
      (hheadShort : maxBytes ≤ utf8Bytes head + 3) : Injects text maxBytes head

section Truncating

variable {text content : List Char} {bytes slice front : List UInt8} {n maxBytes : Nat}

theorem utf8Bytes_append (xs ys : List Char) : utf8Bytes (xs ++ ys) = utf8Bytes xs + utf8Bytes ys := by
  rw [utf8Bytes, encode_append, List.length_append]
  rfl

theorem decodeUtf8_encode (text : List Char) : decodeUtf8 (encode text) = some (dropByteOrderMark text) := by
  rw [decodeUtf8, decodeFatal_encode]
  rfl

theorem decodeUtf8_isSome : (decodeUtf8 bytes).isSome = true ↔ ∃ text, bytes = encode text := by
  rw [decodeUtf8, Option.isSome_map, Option.isSome_iff_exists]
  exact exists_congr fun text => decodeFatal_eq_some

/-- The loop ends at the last place that is not behind `n` and not inside a character. -/
theorem shrinkPrefix_encode (h : n ≤ utf8Bytes text) :
    ∃ head more, text = head ++ more ∧ shrinkPrefix (encode text) n = encode head ∧ utf8Bytes head ≤ n ∧
      ∀ head' more', text = head' ++ more' → utf8Bytes head' ≤ n → utf8Bytes head' ≤ utf8Bytes head := by
  induction n with
  | zero => exact ⟨[], text, rfl, rfl, Nat.zero_le 0, fun _ _ _ hle => hle⟩
  | succ stop ih =>
      rw [shrinkPrefix]
      split_ifs with hslice
      · obtain ⟨head, hhead⟩ := decodeUtf8_isSome.mp hslice
        have hlength : utf8Bytes head = stop + 1 := by
          rw [utf8Bytes, ← hhead, List.length_take]
          exact Nat.min_eq_left h
        obtain ⟨more, hmore, -⟩ := encode_left (hhead ▸ (List.take_append_drop (stop + 1) (encode text)).symm)
        exact ⟨head, more, hmore, hhead, Nat.le_of_eq hlength, fun _ _ _ hle => hlength.symm ▸ hle⟩
      · obtain ⟨head, more, hmore, hhead, hle, hmax⟩ := ih (Nat.le_of_succ_le h)
        refine ⟨head, more, hmore, hhead, Nat.le_succ_of_le hle, fun head' more' htext hle' => ?_⟩
        have hne : utf8Bytes head' ≠ stop + 1 := by
          intro hlength
          refine hslice (decodeUtf8_isSome.mpr ⟨head', ?_⟩)
          rw [htext, encode_append]
          exact List.take_left' hlength
        exact hmax head' more' htext (by omega)

theorem decodeSafePrefix_encode (h : n ≤ utf8Bytes text) :
    ∃ head more, text = head ++ more ∧ decodeSafePrefix (encode text) n = encode head ∧ utf8Bytes head ≤ n ∧
      n ≤ utf8Bytes head + 3 := by
  obtain ⟨head, more, hmore, hhead, hle, hmax⟩ := shrinkPrefix_encode h
  obtain ⟨head', more', htext, hle', hshort⟩ := boundary_before text h
  refine ⟨head, more, hmore, ?_, hle, Nat.le_trans hshort (Nat.add_le_add_right (hmax head' more' htext hle') 3)⟩
  have hmin : min (encode text).length n = n := Nat.min_eq_right h
  rw [decodeSafePrefix, hmin, hhead]

/-- The loop ends at the first place that is not before the slice and not inside a character. -/
theorem shrinkSuffix_encode (h : encode text = front ++ slice) :
    ∃ before tail, text = before ++ tail ∧ shrinkSuffix slice = encode tail ∧ utf8Bytes tail ≤ slice.length ∧
      ∀ before' tail', text = before' ++ tail' → utf8Bytes tail' ≤ slice.length → utf8Bytes tail' ≤ utf8Bytes tail := by
  induction slice generalizing front with
  | nil => exact ⟨text, [], (List.append_nil text).symm, rfl, Nat.zero_le 0, fun _ _ _ hle => hle⟩
  | cons b slice ih =>
      rw [shrinkSuffix]
      split_ifs with hslice
      · obtain ⟨tail, htail⟩ := decodeUtf8_isSome.mp hslice
        have hlength : utf8Bytes tail = (b :: slice).length := by rw [utf8Bytes, ← htail]
        obtain ⟨before, hbefore, -⟩ := encode_right (htail ▸ h)
        exact ⟨before, tail, hbefore, htail, Nat.le_of_eq hlength, fun _ _ _ hle => hlength.symm ▸ hle⟩
      · have hnext : encode text = (front ++ [b]) ++ slice := by
          rw [h, List.append_assoc]
          rfl
        obtain ⟨before, tail, hbefore, htail, hle, hmax⟩ := ih hnext
        refine ⟨before, tail, hbefore, htail, Nat.le_succ_of_le hle, fun before' tail' htext hle' => ?_⟩
        have hne : utf8Bytes tail' ≠ (b :: slice).length := by
          intro hlength
          refine hslice (decodeUtf8_isSome.mpr ⟨tail', ?_⟩)
          rw [htext, encode_append] at h
          exact (List.append_inj' h hlength).2.symm
        rw [List.length_cons] at hne hle'
        exact hmax before' tail' htext (by omega)

theorem decodeSafeSuffix_encode (h : n ≤ utf8Bytes text) :
    ∃ before tail, text = before ++ tail ∧ decodeSafeSuffix (encode text) n = encode tail ∧ utf8Bytes tail ≤ n ∧
      n ≤ utf8Bytes tail + 3 := by
  have hlength : ((encode text).drop ((encode text).length - n)).length = n := by
    rw [List.length_drop]
    exact Nat.sub_sub_self h
  obtain ⟨before, tail, hbefore, htail, hle, hmax⟩ :=
    shrinkSuffix_encode (List.take_append_drop ((encode text).length - n) (encode text)).symm
  rw [hlength] at hle hmax
  obtain ⟨before', tail', htext, hge, hshort⟩ := boundary_after text (Nat.sub_le (encode text).length n)
  have hbytes : utf8Bytes text = utf8Bytes before' + utf8Bytes tail' := by rw [htext, utf8Bytes_append]
  have hle' := hmax before' tail' htext
  rw [utf8Bytes] at h
  simp only [utf8Bytes] at hbytes hle' ⊢
  exact ⟨before, tail, hbefore, htail, hle, by omega⟩

/-- A prefix and a suffix that take no more bytes than there are do not overlap. -/
theorem exists_middle {head more before tail : List Char} (hhead : text = head ++ more) (htail : text = before ++ tail)
    (hle : utf8Bytes head + utf8Bytes tail ≤ utf8Bytes text) : ∃ middle, text = head ++ middle ++ tail := by
  have hbytes : utf8Bytes text = utf8Bytes before + utf8Bytes tail := by rw [htail, utf8Bytes_append]
  rcases List.prefix_or_prefix_of_prefix ⟨more, hhead.symm⟩ ⟨tail, htail.symm⟩ with hprefix | hprefix
  · obtain ⟨middle, rfl⟩ := hprefix
    exact ⟨middle, htail⟩
  · obtain ⟨middle, rfl⟩ := hprefix
    rw [utf8Bytes_append] at hle
    have hzero : utf8Bytes middle = 0 := by omega
    have hnil : middle = [] := encode_injective (List.eq_nil_of_length_eq_zero hzero)
    exact ⟨[], by rw [htail, hnil, List.append_nil, List.append_nil]⟩

theorem marker_eq (n : Nat) : ∃ more, marker n = '\n' :: more := by
  exact ⟨_, by rw [marker, String.toList_append, String.toList_append]; rfl⟩

theorem Injects.bytes_le (h : Injects text maxBytes content) : utf8Bytes content ≤ maxBytes := by
  cases h with
  | whole hfits => exact hfits
  | headAndTail head middle tail remaining hlong htext hremaining hhead hheadShort htail htailShort =>
      rw [utf8Bytes_append, utf8Bytes_append]
      omega
  | headOnly head more hlong htext hmarker hhead hheadShort => exact hhead

/-- A text that does not begin with a byte order mark is not injected with one. -/
theorem Injects.unmarked (h : Injects text maxBytes content) (hmark : text.head? ≠ some byteOrderMark) :
    content.head? ≠ some byteOrderMark := by
  cases h with
  | whole hfits => exact hmark
  | headAndTail head middle tail remaining hlong htext hremaining hhead hheadShort htail htailShort =>
      cases head with
      | nil =>
          obtain ⟨more, hmore⟩ := marker_eq (utf8Bytes text)
          rw [List.nil_append, hmore]
          nofun
      | cons c head =>
          rw [htext] at hmark
          exact hmark
  | headOnly _ more hlong htext hmarker hhead hheadShort =>
      cases content with
      | nil => nofun
      | cons c content =>
          rw [htext] at hmark
          exact hmark

theorem headAndTail_encode (hlong : maxBytes < utf8Bytes text) :
    ∃ content, Injects text maxBytes content ∧ headAndTail (encode text) maxBytes = encode content := by
  rw [headAndTail]
  split_ifs with hmarker
  · obtain ⟨head, more, htext, hhead, hle, hshort⟩ := decodeSafePrefix_encode (Nat.le_of_lt hlong)
    exact ⟨head, .headOnly head more hlong htext hmarker hle hshort, hhead⟩
  · obtain ⟨remaining, hremaining⟩ := Nat.exists_eq_add_of_le (Nat.le_of_lt (Nat.lt_of_not_le hmarker))
    have hmax : utf8Bytes (marker (utf8Bytes text)) + remaining = maxBytes := hremaining.symm
    have hsub : maxBytes - (encode (marker (encode text).length)).length = remaining := by omega
    have hhalf : (remaining + 1) / 2 ≤ utf8Bytes text := by omega
    obtain ⟨head, more, htext, hhead, hle, hshort⟩ := decodeSafePrefix_encode hhalf
    have hrest : remaining - utf8Bytes head ≤ utf8Bytes text := by omega
    obtain ⟨before, tail, htext', htail, hle', hshort'⟩ := decodeSafeSuffix_encode hrest
    obtain ⟨middle, hmiddle⟩ := exists_middle htext htext' (by omega)
    refine ⟨_, .headAndTail head middle tail remaining hlong hmiddle hmax hle hshort hle' hshort', ?_⟩
    rw [utf8Bytes] at htail
    rw [hsub]
    dsimp only
    rw [hhead, htail, encode_append, encode_append]
    rfl

theorem truncateUtf8HeadTail_encode (text : List Char) (maxBytes : Nat) :
    ∃ content truncated, Injects text maxBytes content ∧ truncateUtf8HeadTail (encode text) maxBytes = some truncated ∧
      truncated.content = dropByteOrderMark content ∧ truncated.bytes = utf8Bytes content := by
  rw [truncateUtf8HeadTail]
  split_ifs with hfits
  · rw [decodeUtf8_encode]
    exact ⟨text, _, .whole hfits, rfl, rfl, rfl⟩
  · obtain ⟨content, hinjects, hcontent⟩ := headAndTail_encode (Nat.lt_of_not_le hfits)
    rw [hcontent, decodeUtf8_encode]
    exact ⟨content, _, hinjects, rfl, rfl, rfl⟩

theorem utf8Bytes_drop (text : List Char) : utf8Bytes (dropByteOrderMark text) ≤ utf8Bytes text := by
  rw [dropByteOrderMark]
  split_ifs
  · cases text with
    | nil => exact Nat.le_refl _
    | cons c text =>
        show utf8Bytes text ≤ utf8Bytes ([c] ++ text)
        rw [utf8Bytes_append]
        exact Nat.le_add_left _ _
  · exact Nat.le_refl _

theorem dropByteOrderMark_unmarked (h : text.head? ≠ some byteOrderMark) : dropByteOrderMark text = text := if_neg h

end Truncating

section Candidates

variable {host : Host} {roots : List ProjectInstructionRoot} {candidate : Candidate}

/-- A candidate has the bytes of a text. -/
def Candidate.IsText (candidate : Candidate) : Prop := ∃ text, candidate.content = encode text

theorem readCandidate_found {make : List UInt8 → Candidate} {refuse : DiagnosticCode → String → Inspection}
    {path : String} (hmake : ∀ content, (make content).content = content)
    (hrefuse : ∀ code message, refuse code message ≠ .found candidate)
    (h : readCandidate host make refuse path = .found candidate) : candidate.IsText := by
  rw [readCandidate] at h
  split at h
  next => exact absurd h (hrefuse _ _)
  next => exact absurd h (hrefuse _ _)
  next =>
    split at h
    next => exact absurd h (hrefuse _ _)
    next content _ =>
      split_ifs at h with hempty hsome
      · exact absurd h (hrefuse _ _)
      · obtain ⟨text, htext⟩ := decodeUtf8_isSome.mp hsome
        cases h
        exact ⟨text, (hmake content).trans htext⟩
      · exact absurd h (hrefuse _ _)

theorem inspectName_found {root : ProjectInstructionRoot} {rootOrder : Nat} {canonicalRoot : String}
    {filename : ProjectInstructionFilename} (h : inspectName host root rootOrder canonicalRoot filename = .found candidate) :
    candidate.IsText := by
  rw [inspectName] at h
  dsimp only at h
  split at h
  next => split_ifs at h
  next =>
    split at h
    next => cases h
    next =>
      split_ifs at h
      refine readCandidate_found (fun _ => rfl) (fun _ _ => ?_) h
      nofun

theorem isText_of_mem (h : candidate ∈ candidates host roots) : candidate.IsText := by
  obtain ⟨inspection, hmem, hcandidate⟩ := List.mem_filterMap.mp h
  obtain ⟨entry, -, hentry⟩ := List.mem_flatMap.mp hmem
  cases inspection with
  | absent => cases hcandidate
  | refused diagnostic => cases hcandidate
  | found found =>
      cases hcandidate
      rw [inspectRoot] at hentry
      split at hentry
      next => cases List.mem_singleton.mp hentry
      next =>
        obtain ⟨filename, -, hname⟩ := List.mem_map.mp hentry
        exact inspectName_found hname

/-- An earlier root, or in the same root a file that is not of a lower precedence. -/
def Outranks (a b : Candidate) : Prop :=
  a.rootOrder < b.rootOrder ∨ a.rootOrder = b.rootOrder ∧ b.filename.precedence ≤ a.filename.precedence

theorem allocatesBefore_iff (a b : Candidate) : allocatesBefore a b = true ↔ Outranks a b := by
  rw [allocatesBefore, Outranks]
  split_ifs with hne
  · rw [decide_eq_true_iff]
    exact ⟨.inl, fun h => h.resolve_right fun h => hne h.1⟩
  · have heq : a.rootOrder = b.rootOrder := not_not.mp hne
    rw [decide_eq_true_iff]
    constructor
    · exact fun h => .inr ⟨heq, h⟩
    · rintro (h | h)
      · omega
      · exact h.2

theorem allocationOrder_pairwise (candidates : List Candidate) : (allocationOrder candidates).Pairwise Outranks := by
  have hsorted : (allocationOrder candidates).Pairwise fun a b => allocatesBefore a b = true := by
    refine List.pairwise_mergeSort (fun a b c hab hbc => ?_) (fun a b => ?_) candidates
    · rw [allocatesBefore_iff, Outranks] at *
      omega
    · rw [Bool.or_eq_true, allocatesBefore_iff, allocatesBefore_iff, Outranks, Outranks]
      omega
  exact hsorted.imp fun {a b} h => (allocatesBefore_iff a b).mp h

theorem allocationOrder_perm (candidates : List Candidate) : (allocationOrder candidates).Perm candidates :=
  List.mergeSort_perm candidates allocatesBefore

end Candidates

section Allocating

variable {limits : Limits} {index : Nat} {a a' : Allocation} {candidate : Candidate} {t : Truncated}
  {before rest : List Candidate}

def injectedBytes (files : List ProjectInstructionFile) : Nat := (files.map ProjectInstructionFile.injectedBytes).sum

theorem injectedBytes_append (xs ys : List ProjectInstructionFile) :
    injectedBytes (xs ++ ys) = injectedBytes xs + injectedBytes ys := by
  rw [injectedBytes, List.map_append, List.sum_append]
  rfl

/-- A candidate is skipped for a limit, or it is selected. -/
theorem allocate_cases (index : Nat) (a : Allocation)
    (ht : truncateUtf8HeadTail candidate.content limits.fileBytes = some t) :
    ∃ a', allocate limits index a candidate = some a' ∧
      (a'.selected = a.selected ∧ a'.totalInjectedBytes = a.totalInjectedBytes ∧
          (limits.files ≤ index ∨ limits.totalBytes < a.totalInjectedBytes + t.bytes) ∨
        a' = a.select candidate t ∧ index < limits.files ∧ a.totalInjectedBytes + t.bytes ≤ limits.totalBytes) := by
  rw [allocate]
  split_ifs with hindex
  · exact ⟨_, rfl, .inl ⟨rfl, rfl, .inl hindex⟩⟩
  · rw [ht, Option.map_some]
    split_ifs with htotal
    · exact ⟨_, rfl, .inl ⟨rfl, rfl, .inr htotal⟩⟩
    · exact ⟨_, rfl, .inr ⟨rfl, Nat.lt_of_not_le hindex, Nat.le_of_not_lt htotal⟩⟩

theorem allocateAll_append :
    allocateAll limits index a (before ++ rest) =
      (allocateAll limits index a before).bind fun a => allocateAll limits (index + before.length) a rest := by
  induction before generalizing index a with
  | nil => rfl
  | cons candidate before ih =>
      rw [List.cons_append, allocateAll, allocateAll, Option.bind_assoc]
      refine Option.bind_congr fun a _ => ?_
      rw [ih, List.length_cons, Nat.add_assoc, Nat.add_comm 1]

/-- Where a file comes from. -/
def IsInjected (limits : Limits) (candidates : List Candidate) (file : ProjectInstructionFile) : Prop :=
  ∃ candidate ∈ candidates, ∃ t, truncateUtf8HeadTail candidate.content limits.fileBytes = some t ∧
    file = injected candidate t

/-- What holds when `index` candidates of those there are have been gone through. -/
structure Kept (limits : Limits) (candidates : List Candidate) (index : Nat) (a : Allocation) : Prop where
  count : a.selected.length ≤ min index limits.files
  total : a.totalInjectedBytes = injectedBytes a.selected
  bounded : a.totalInjectedBytes ≤ limits.totalBytes
  files : ∀ file ∈ a.selected, IsInjected limits candidates file

theorem truncate_isText (h : candidate.IsText) (maxBytes : Nat) :
    ∃ t, truncateUtf8HeadTail candidate.content maxBytes = some t := by
  obtain ⟨text, htext⟩ := h
  obtain ⟨-, t, -, ht, -⟩ := truncateUtf8HeadTail_encode text maxBytes
  exact ⟨t, htext ▸ ht⟩

theorem kept_allocate {all : List Candidate} (hmem : candidate ∈ all) (htext : candidate.IsText)
    (h : Kept limits all index a) :
    ∃ a', allocate limits index a candidate = some a' ∧ a.selected <+: a'.selected ∧ Kept limits all (index + 1) a' := by
  obtain ⟨t, ht⟩ := truncate_isText htext limits.fileBytes
  have hcount := h.count
  obtain ⟨a', ha', ⟨hselected, htotal, -⟩ | ⟨rfl, hindex, hfits⟩⟩ := allocate_cases index a ht
  · refine ⟨a', ha', hselected ▸ List.prefix_refl _, ?_, ?_, ?_, ?_⟩
    · rw [hselected]
      omega
    · rw [hselected, htotal, h.total]
    · rw [htotal]
      exact h.bounded
    · rw [hselected]
      exact h.files
  · refine ⟨_, ha', List.prefix_append _ _, ?_, ?_, hfits, ?_⟩
    · rw [Allocation.select, List.length_append, List.length_singleton]
      omega
    · rw [Allocation.select, injectedBytes_append, ← h.total]
      rfl
    · intro file hfile
      rcases List.mem_append.mp hfile with hfile | hfile
      · exact h.files file hfile
      · exact ⟨candidate, hmem, t, ht, List.mem_singleton.mp hfile⟩

theorem kept_allocateAll {all : List Candidate} (hmem : ∀ candidate ∈ rest, candidate ∈ all ∧ candidate.IsText)
    (h : Kept limits all index a) :
    ∃ a', allocateAll limits index a rest = some a' ∧ a.selected <+: a'.selected ∧
      Kept limits all (index + rest.length) a' := by
  induction rest generalizing index a with
  | nil => exact ⟨a, rfl, List.prefix_refl _, h⟩
  | cons candidate rest ih =>
      obtain ⟨hcandidate, hrest⟩ := List.forall_mem_cons.mp hmem
      obtain ⟨a1, ha1, hprefix1, hkept1⟩ := kept_allocate hcandidate.1 hcandidate.2 h
      obtain ⟨a2, ha2, hprefix2, hkept2⟩ := ih hrest hkept1
      refine ⟨a2, ?_, hprefix1.trans hprefix2, ?_⟩
      · rw [allocateAll, ha1]
        exact ha2
      · rwa [List.length_cons, Nat.add_comm rest.length, ← Nat.add_assoc]

theorem kept_start (limits : Limits) (all : List Candidate) (host : Host) (input : LoadProjectInstructionsInput) :
    Kept limits all 0 (.start host input) :=
  ⟨Nat.zero_le _, rfl, Nat.zero_le _, fun _ hfile => nomatch hfile⟩

end Allocating

section Loading

variable {host : Host} {input : LoadProjectInstructionsInput} {candidate : Candidate} {limits : Limits} {t : Truncated}
  {text : List Char}

/-- The files that are chosen when the loop has gone through some candidates. -/
def chosen (host : Host) (input : LoadProjectInstructionsInput) (candidates : List Candidate) :
    List ProjectInstructionFile :=
  match allocateAll input.limits 0 (.start host input) candidates with
  | some a => a.selected
  | none => []

/-- The candidate may be left out: what is chosen of those before it leaves too little of the total. -/
def Exceeds (host : Host) (input : LoadProjectInstructionsInput) (before : List Candidate) (t : Truncated) : Prop :=
  input.limits.totalBytes < injectedBytes (chosen host input before) + t.bytes

/-- Each file comes from a candidate, and what does not begin with a byte order mark is injected as it should be. -/
def Faithful (host : Host) (input : LoadProjectInstructionsInput) (file : ProjectInstructionFile) : Prop :=
  ∃ candidate ∈ candidates host input.roots, ∃ text, candidate.content = encode text ∧
    file.rootId = candidate.root.id ∧ file.path = candidate.path ∧ file.originalBytes = utf8Bytes text ∧
    (text.head? ≠ some byteOrderMark →
      file.injectedBytes = utf8Bytes file.content ∧ Injects text input.limits.fileBytes file.content)

theorem chosen_eq {part : List Candidate} {a : Allocation}
    (h : allocateAll input.limits 0 (.start host input) part = some a) : chosen host input part = a.selected := by
  rw [chosen, h]

theorem mem_order (h : candidate ∈ allocationOrder (candidates host input.roots)) :
    candidate ∈ candidates host input.roots ∧ candidate.IsText :=
  have hmem := (allocationOrder_perm _).mem_iff.mp h
  ⟨hmem, isText_of_mem hmem⟩

/-- A part of the order is gone through with what holds all along. -/
theorem allocate_part {part : List Candidate} (h : part ⊆ allocationOrder (candidates host input.roots)) :
    ∃ a, allocateAll input.limits 0 (.start host input) part = some a ∧
      Kept input.limits (candidates host input.roots) part.length a := by
  obtain ⟨a, ha, -, hkept⟩ := kept_allocateAll (fun candidate hcandidate => mem_order (h hcandidate))
    (kept_start input.limits (candidates host input.roots) host input)
  exact ⟨a, ha, by rwa [Nat.zero_add] at hkept⟩

theorem injected_bytes (htext : candidate.content = encode text)
    (ht : truncateUtf8HeadTail candidate.content limits.fileBytes = some t) :
    utf8Bytes t.content ≤ t.bytes ∧ t.bytes ≤ limits.fileBytes ∧
      (text.head? ≠ some byteOrderMark → t.bytes = utf8Bytes t.content ∧ Injects text limits.fileBytes t.content) := by
  obtain ⟨content, t', hinjects, ht', hcontent, hbytes⟩ := truncateUtf8HeadTail_encode text limits.fileBytes
  rw [htext, ht'] at ht
  cases ht
  rw [hcontent, hbytes]
  refine ⟨utf8Bytes_drop content, hinjects.bytes_le, fun hmark => ?_⟩
  rw [dropByteOrderMark_unmarked (hinjects.unmarked hmark)]
  exact ⟨rfl, hinjects⟩

theorem faithful_injected (hmem : candidate ∈ candidates host input.roots) (htext : candidate.content = encode text)
    (h : text.head? ≠ some byteOrderMark →
      t.bytes = utf8Bytes t.content ∧ Injects text input.limits.fileBytes t.content) :
    Faithful host input (injected candidate t) := by
  have hbytes : (injected candidate t).originalBytes = utf8Bytes text := congrArg List.length htext
  exact ⟨candidate, hmem, text, htext, rfl, rfl, hbytes, h⟩

theorem injectedBytes_le {files : List ProjectInstructionFile}
    (h : ∀ file ∈ files, utf8Bytes file.content ≤ file.injectedBytes) :
    (files.map fun file => utf8Bytes file.content).sum ≤ injectedBytes files := by
  induction files with
  | nil => exact Nat.le_refl 0
  | cons file files ih =>
      obtain ⟨hfile, hfiles⟩ := List.forall_mem_cons.mp h
      rw [injectedBytes, List.map_cons, List.map_cons, List.sum_cons, List.sum_cons]
      exact Nat.add_le_add hfile (ih hfiles)

theorem leftOut_of_split {before rest : List Candidate}
    (horder : allocationOrder (candidates host input.roots) = before ++ candidate :: rest)
    (hbefore : before.length < input.limits.files) :
    ∃ t, truncateUtf8HeadTail candidate.content input.limits.fileBytes = some t ∧
      (chosen host input before ++ [injected candidate t] <+:
          chosen host input (allocationOrder (candidates host input.roots)) ∨ Exceeds host input before t) := by
  have hmem : ∀ c ∈ before ++ candidate :: rest, c ∈ candidates host input.roots ∧ c.IsText :=
    fun c hc => mem_order (horder ▸ hc)
  obtain ⟨t, ht⟩ := truncate_isText (hmem candidate (List.mem_append_right _ List.mem_cons_self)).2 input.limits.fileBytes
  refine ⟨t, ht, ?_⟩
  obtain ⟨a, ha, hkept⟩ := allocate_part (horder ▸ List.subset_append_left before (candidate :: rest))
  obtain ⟨a1, ha1, ⟨-, -, hlimit⟩ | ⟨rfl, hindex, hfits⟩⟩ := allocate_cases before.length a ht
  · have htotal := hlimit.resolve_left (Nat.not_le_of_lt hbefore)
    rw [Exceeds, chosen_eq ha, ← hkept.total]
    exact .inr htotal
  · have hcandidate := hmem candidate (List.mem_append_right _ List.mem_cons_self)
    obtain ⟨a2, ha2, -, hkept2⟩ := kept_allocate hcandidate.1 hcandidate.2 hkept
    rw [ha1, Option.some_inj] at ha2
    subst ha2
    have hrest : ∀ c ∈ rest, c ∈ candidates host input.roots ∧ c.IsText :=
      fun c hc => hmem c (List.mem_append_right _ (List.mem_cons_of_mem _ hc))
    obtain ⟨a3, ha3, hprefix, -⟩ := kept_allocateAll hrest hkept2
    have horderAll : allocateAll input.limits 0 (.start host input)
        (allocationOrder (candidates host input.roots)) = some a3 := by
      rw [horder, allocateAll_append, ha, Option.bind_some, Nat.zero_add, allocateAll, ha1, Option.bind_some, ha3]
    rw [chosen_eq ha, chosen_eq horderAll]
    exact .inl hprefix

/-- The limits on the instructions: how many files, their bytes, what each of them is, and what is left out. -/
theorem load_within_limits (host : Host) (input : LoadProjectInstructionsInput) :
    ∃ snapshot, loadProjectInstructions host input = some snapshot ∧
      snapshot.files.length ≤ input.limits.files ∧
      (∀ file ∈ snapshot.files, utf8Bytes file.content ≤ input.limits.fileBytes ∧ Faithful host input file) ∧
      (snapshot.files.map fun file => utf8Bytes file.content).sum ≤ input.limits.totalBytes ∧
      snapshot.files.Perm (chosen host input (allocationOrder (candidates host input.roots))) ∧
      (allocationOrder (candidates host input.roots)).Pairwise Outranks ∧
      ∀ before candidate rest, allocationOrder (candidates host input.roots) = before ++ candidate :: rest →
        before.length < input.limits.files →
        ∃ t, truncateUtf8HeadTail candidate.content input.limits.fileBytes = some t ∧
          (chosen host input before ++ [injected candidate t] <+:
              chosen host input (allocationOrder (candidates host input.roots)) ∨ Exceeds host input before t) := by
  obtain ⟨a, ha, hkept⟩ := allocate_part (List.Subset.refl (allocationOrder (candidates host input.roots)))
  have hperm : (a.snapshot host input).files.Perm a.selected := List.mergeSort_perm _ _
  have hfile : ∀ file ∈ a.selected, utf8Bytes file.content ≤ file.injectedBytes ∧
      utf8Bytes file.content ≤ input.limits.fileBytes ∧ Faithful host input file := by
    intro file hfile
    obtain ⟨candidate, hmem, t, ht, rfl⟩ := hkept.files file hfile
    obtain ⟨text, htext⟩ := isText_of_mem hmem
    obtain ⟨hle, hmax, hfaithful⟩ := injected_bytes htext ht
    exact ⟨hle, Nat.le_trans hle hmax, faithful_injected hmem htext hfaithful⟩
  refine ⟨a.snapshot host input, ?_, ?_, fun file hmem => ?_, ?_, ?_, allocationOrder_pairwise _, fun _ _ _ => leftOut_of_split⟩
  · rw [loadProjectInstructions, ha]
    rfl
  · rw [hperm.length_eq]
    exact Nat.le_trans hkept.count (Nat.min_le_right _ _)
  · exact (hfile file (hperm.mem_iff.mp hmem)).2
  · rw [(hperm.map _).sum_nat]
    exact Nat.le_trans (injectedBytes_le fun file hmem => (hfile file hmem).1) (hkept.total ▸ hkept.bounded)
  · rw [chosen_eq ha]
    exact hperm

section Short

/-- A root in which only KROSS.md is there, and has two bytes. -/
def twoBytes : Host where
  resolve path := path
  join _ name := name
  relative _ _ := ""
  isAbsolute _ := false
  realpath path := .ok path
  lstat path := if path = "KROSS.md" then .ok () else .error ⟨some "ENOENT", ""⟩
  isFile _ := .ok true
  readFile _ := .ok (encode ['a', 'b'])
  notUtf8 := ""
  signatureFor _ _ := ""

def oneByte : LoadProjectInstructionsInput := ⟨[⟨"main", "/", true⟩], none, some 1, none⟩

def kross : Candidate := ⟨⟨"main", "/", true⟩, "/", 0, .kross, "KROSS.md", encode ['a', 'b']⟩

theorem candidates_twoBytes : candidates twoBytes oneByte.roots = [kross] := by
  have hroots : orderedRoots oneByte.roots = oneByte.roots := by
    rw [orderedRoots, oneByte, List.zipIdx_singleton, List.mergeSort_singleton]
    rfl
  rw [candidates, inspections, hroots]
  rfl

/-- There is no room for the marker, and a part of the text is injected without it. -/
theorem load_without_marker :
    ¬ ∀ host input text snapshot, (∀ path, host.readFile path = .ok (encode text)) →
      loadProjectInstructions host input = some snapshot → ∀ file ∈ snapshot.files,
        file.content = text ∨ ∃ head middle tail, text = head ++ middle ++ tail ∧
          file.content = head ++ marker (utf8Bytes text) ++ tail := by
  intro h
  have horder : allocationOrder (candidates twoBytes oneByte.roots) = [kross] := by
    rw [candidates_twoBytes]
    exact List.mergeSort_singleton kross
  have htruncated : truncateUtf8HeadTail kross.content oneByte.limits.fileBytes = some ⟨['a'], 1, true⟩ := by
    rfl
  have hload : loadProjectInstructions twoBytes oneByte =
      some (((Allocation.start twoBytes oneByte).select kross ⟨['a'], 1, true⟩).snapshot twoBytes oneByte) := by
    rw [loadProjectInstructions, horder, allocateAll, allocate, htruncated]
    rfl
  have hmem : injected kross ⟨['a'], 1, true⟩ ∈
      (((Allocation.start twoBytes oneByte).select kross ⟨['a'], 1, true⟩).snapshot twoBytes oneByte).files := by
    refine (List.mergeSort_perm _ _).mem_iff.mpr ?_
    exact List.mem_append_right _ List.mem_cons_self
  rcases h twoBytes oneByte ['a', 'b'] _ (fun _ => rfl) hload _ hmem with hwhole | ⟨head, middle, tail, -, hcut⟩
  · cases hwhole
  · have hlength := congrArg List.length hcut
    have hmarker : 2 ≤ (marker (utf8Bytes ['a', 'b'])).length := by decide
    rw [List.length_append, List.length_append] at hlength
    change 1 = _ at hlength
    omega

end Short

end Loading

end Kross.Workspace

import Kross.JsonPrefix
import Kross.Jsonl

namespace Kross.JsonLog

open Kross.Json Kross.Jsonl

variable {file : List Char} (fields : Fields)

/-- The text of a record without its newline. -/
def text : List Char := render (.obj fields)

def line : List Char := text fields ++ ['\n']

/-- What `JSON.parse` makes of the lines that are not blank; a line it rejects
is passed over. -/
def values (file : List Char) : List Value := (records file).filterMap parse

theorem newline_notMem_text : '\n' ∉ text fields := newline_notMem_render _

theorem text_head : ∃ s, text fields = '{' :: s := render_obj_head _

theorem records_text : records (text fields) = [text fields] := by
  obtain ⟨s, hs⟩ := text_head fields
  have hb : blank (text fields) = false := by simp [hs, blank, isTrimmed]
  rw [records_of_notMem (newline_notMem_text fields), hb]
  rfl

theorem records_line : records (line fields) = [text fields] := by
  rw [line, records_split, records_nil, List.append_nil, records_text]

theorem terminated_line : Terminated (line fields) := terminated_concat _

/-- A line cut anywhere before the end of its text is passed over. -/
theorem parse_torn {n : Nat} (h : n < byteLength (text fields)) :
    ∀ s ∈ records (torn n (line fields)), parse s = none := by
  intro s hs
  obtain ⟨p, c, u, hp, ht⟩ := torn_of_lt h
  have hn : '\n' ∉ p := fun hm => newline_notMem_text fields (hp ▸ List.mem_append_left _ hm)
  rw [line, torn_append_of_lt h] at hs
  rcases ht with ht | ht
  · rw [ht, records_of_notMem hn] at hs
    split_ifs at hs with hb
    · simp at hs
    · rw [List.mem_singleton.mp hs]
      exact parse_prefix hp.symm (by simp)
  · rw [ht, records_of_notMem (by simp [hn])] at hs
    split_ifs at hs with hb
    · simp at hs
    · rw [List.mem_singleton.mp hs]
      cases p with
      | nil => decide
      | cons d p =>
          obtain ⟨t, ht⟩ := text_head fields
          have hd : d = '{' := (List.cons.inj (hp.symm.trans ht)).1
          subst hd
          by_contra hne
          obtain ⟨v, hv⟩ := Option.ne_none_iff_exists'.mp hne
          exact absurd (parse_brace_last (by decide) hv) (by decide)

theorem records_torn {n : Nat} (h : byteLength (text fields) ≤ n) :
    records (torn n (line fields)) = [text fields] := by
  rw [line, torn_append_of_le h]
  rcases torn_terminator (n - byteLength (text fields)) with ht | ht
  · rw [ht, List.append_nil, records_text]
  · rw [ht]
    exact records_line fields

theorem values_nil : values [] = [] := by
  rw [values, records_nil]
  rfl

theorem values_append (h : Terminated file) (s : List Char) :
    values (file ++ s) = values file ++ values s := by
  rw [values, records_append h, List.filterMap_append]
  rfl

theorem values_newline (file : List Char) : values (file ++ ['\n']) = values file := by
  rw [values, records_split, records_nil, List.append_nil]
  rfl

theorem values_line : values (line fields) = [.obj fields] := by
  rw [values, records_line, List.filterMap_cons, text, parse_render]
  rfl

/-- A torn line counts if and only if its text is there. -/
theorem values_torn (n : Nat) :
    values (torn n (line fields)) = if byteLength (text fields) ≤ n then [.obj fields] else [] := by
  split_ifs with h
  · rw [values, records_torn fields h, List.filterMap_cons, text, parse_render]
    rfl
  · exact List.filterMap_eq_nil_iff.mpr (parse_torn fields (Nat.lt_of_not_le h))

/-- A line behind a torn one of which only the brace was written. -/
theorem values_doubled : values ('{' :: line fields) = [] := by
  obtain ⟨s, hs⟩ := text_head fields
  have hn : '\n' ∉ '{' :: text fields := by simp [newline_notMem_text]
  have hb : blank ('{' :: text fields) = false := by simp [blank, isTrimmed]
  have hp : parse ('{' :: text fields) = none := by
    rw [hs]
    simp [parse, readValue, readFields, skip, isSpace, expect]
  rw [values, line, ← List.cons_append, records_split, records_nil, List.append_nil,
    records_of_notMem hn, hb]
  simp [hp]

end Kross.JsonLog

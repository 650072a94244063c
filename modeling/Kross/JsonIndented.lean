import Kross.JsonRoundTrip

namespace Kross.Json

/-- What stands before a member, or the closing bracket, at a depth. -/
def indent (depth : Nat) : List Char := '\n' :: List.replicate (2 * depth) ' '

mutual
/-- `JSON.stringify` with an indentation of two. -/
def renderIndented (depth : Nat) : Value → List Char
  | .arr (.cons v vs) => '[' :: indent (depth + 1) ++ renderIndented (depth + 1) v ++ indentedItems depth vs
  | .obj (.cons k v fs) =>
      '{' :: indent (depth + 1) ++ quote k ++ ':' :: ' ' :: renderIndented (depth + 1) v ++ indentedFields depth fs
  | v => render v

def indentedItems (depth : Nat) : Items → List Char
  | .nil => indent depth ++ [']']
  | .cons v vs => ',' :: indent (depth + 1) ++ renderIndented (depth + 1) v ++ indentedItems depth vs

def indentedFields (depth : Nat) : Fields → List Char
  | .nil => indent depth ++ ['}']
  | .cons k v fs =>
      ',' :: indent (depth + 1) ++ quote k ++ ':' :: ' ' :: renderIndented (depth + 1) v ++ indentedFields depth fs
end

section Space

theorem skip_indent (depth : Nat) (s : List Char) : skip (indent depth ++ s) = skip s := by
  have hspaces : ∀ n, skip (List.replicate n ' ' ++ s) = skip s := by
    intro n
    induction n with
    | zero => rfl
    | succ n ih => exact ih
  exact hspaces (2 * depth)

theorem expect_indent (c : Char) (depth : Nat) (s : List Char) : expect c (indent depth ++ s) = expect c s := by
  rw [expect, skip_indent, expect]

theorem readValue_indent (fuel depth : Nat) (s : List Char) :
    readValue fuel (indent depth ++ s) = readValue fuel s := by
  cases fuel with
  | zero => rfl
  | succ fuel => rw [readValue, skip_indent, readValue]

theorem readItems_indent (fuel depth : Nat) (s : List Char) :
    readItems fuel (indent depth ++ s) = readItems fuel s := by
  cases fuel with
  | zero => rfl
  | succ fuel => rw [readItems, readValue_indent, readItems]

theorem readFields_indent (fuel depth : Nat) (s : List Char) :
    readFields fuel (indent depth ++ s) = readFields fuel s := by
  cases fuel with
  | zero => rfl
  | succ fuel => rw [readFields, expect_indent, readFields]

theorem readValue_space (fuel : Nat) (s : List Char) : readValue fuel (' ' :: s) = readValue fuel s := by
  cases fuel with
  | zero => rfl
  | succ fuel =>
      have hskip : skip (' ' :: s) = skip s := rfl
      rw [readValue, hskip, readValue]

end Space

section RoundTrip

theorem indented_head (depth : Nat) (v : Value) :
    ∃ c t, renderIndented depth v = c :: t ∧ isSpace c = false ∧ c ≠ ']' := by
  match v with
  | .arr (.cons v vs) => exact ⟨_, _, rfl, by decide, by decide⟩
  | .obj (.cons k v fs) => exact ⟨_, _, rfl, by decide, by decide⟩
  | .null => exact render_head .null
  | .bool b => exact render_head (.bool b)
  | .num n => exact render_head (.num n)
  | .str s => exact render_head (.str s)
  | .arr .nil => exact render_head (.arr .nil)
  | .obj .nil => exact render_head (.obj .nil)

theorem indentedItems_boundary (depth : Nat) (items : Items) (s : List Char) :
    Boundary (indentedItems depth items ++ s) := by
  cases items <;> exact boundary_cons _ (by decide)

theorem indentedFields_boundary (depth : Nat) (fields : Fields) (s : List Char) :
    Boundary (indentedFields depth fields ++ s) := by
  cases fields <;> exact boundary_cons _ (by decide)

def ReadsIndented (fuel : Nat) : Prop := ∀ depth v s, v.need ≤ fuel → Boundary s →
  readValue fuel (renderIndented depth v ++ s) = some (v, s)

def ReadsIndentedItems (fuel : Nat) : Prop := ∀ depth v vs s, (Items.cons v vs).need ≤ fuel →
  readItems fuel (renderIndented (depth + 1) v ++ (indentedItems depth vs ++ s)) = some (.cons v vs, s)

def ReadsIndentedFields (fuel : Nat) : Prop := ∀ depth k v fs s, (Fields.cons k v fs).need ≤ fuel →
  readFields fuel (quote k ++ ':' :: ' ' :: (renderIndented (depth + 1) v ++ (indentedFields depth fs ++ s))) =
    some (.cons k v fs, s)

theorem readIndented_step {fuel : Nat} (hi : ReadsIndentedItems fuel) (hf : ReadsIndentedFields fuel) :
    ReadsIndented (fuel + 1) := by
  intro depth v s h hs
  match v with
  | .null => exact (reads (fuel + 1)).1 .null s h hs
  | .bool b => exact (reads (fuel + 1)).1 (.bool b) s h hs
  | .num n => exact (reads (fuel + 1)).1 (.num n) s h hs
  | .str t => exact (reads (fuel + 1)).1 (.str t) s h hs
  | .arr .nil => exact (reads (fuel + 1)).1 (.arr .nil) s h hs
  | .obj .nil => exact (reads (fuel + 1)).1 (.obj .nil) s h hs
  | .arr (.cons v vs) =>
      have hi := hi depth v vs s (by simpa [Value.need] using h)
      obtain ⟨c, t, ht, hc, hne⟩ := indented_head (depth + 1) v
      have he : expect ']' (renderIndented (depth + 1) v ++ (indentedItems depth vs ++ s)) = none := by
        rw [ht, List.cons_append]
        exact expect_cons_ne _ hc hne
      simp only [renderIndented, List.cons_append, List.append_assoc, readValue,
        skip_cons _ (show isSpace '[' = false by decide), show ¬('[' = '"') by decide, if_true, if_false,
        expect_indent, readItems_indent, he, hi, Option.map_some, Prod.map, id]
  | .obj (.cons k v fs) =>
      have hf := hf depth k v fs s (by simpa [Value.need] using h)
      have he : expect '}' (quote k ++ ':' :: ' ' :: (renderIndented (depth + 1) v ++ (indentedFields depth fs ++ s))) =
          none := by
        rw [quote, List.cons_append, List.cons_append]
        exact expect_cons_ne _ (by decide) (by decide)
      simp only [renderIndented, List.cons_append, List.append_assoc, readValue,
        skip_cons _ (show isSpace '{' = false by decide), show ¬('{' = '"') by decide, show ¬('{' = '[') by decide,
        if_true, if_false, expect_indent, readFields_indent, he, hf, Option.map_some, Prod.map, id]

theorem readIndentedItems_step {fuel : Nat} (hv : ReadsIndented fuel) (hi : ReadsIndentedItems fuel) :
    ReadsIndentedItems (fuel + 1) := by
  intro depth v vs s h
  simp only [Items.need, Nat.add_le_add_iff_right, Nat.max_le] at h
  rw [readItems, hv (depth + 1) v _ h.1 (indentedItems_boundary depth vs s)]
  cases vs with
  | nil =>
      simp [indentedItems, expect_indent, expect_cons_ne, expect_cons, show isSpace ']' = false by decide]
  | cons w ws =>
      have hi := hi depth w ws s h.2
      simp [indentedItems, expect_cons, readItems_indent, show isSpace ',' = false by decide, hi]

theorem readIndentedFields_step {fuel : Nat} (hv : ReadsIndented fuel) (hf : ReadsIndentedFields fuel) :
    ReadsIndentedFields (fuel + 1) := by
  intro depth k v fs s h
  simp only [Fields.need, Nat.add_le_add_iff_right, Nat.max_le] at h
  have hv := hv (depth + 1) v (indentedFields depth fs ++ s) h.1 (indentedFields_boundary depth fs s)
  have hq := readString_body k.toList (':' :: ' ' :: (renderIndented (depth + 1) v ++ (indentedFields depth fs ++ s)))
  simp only [readFields, quote, List.append_assoc, List.cons_append, List.nil_append,
    expect_cons _ (show isSpace '"' = false by decide), Option.bind_eq_bind, Option.bind_some, hq,
    expect_cons _ (show isSpace ':' = false by decide), readValue_space, hv]
  cases fs with
  | nil =>
      simp [indentedFields, expect_indent, expect_cons_ne, expect_cons, show isSpace '}' = false by decide]
  | cons l w ws =>
      have hf := hf depth l w ws s h.2
      simp [indentedFields, expect_cons, readFields_indent, show isSpace ',' = false by decide, hf]

theorem reads_indented (fuel : Nat) :
    ReadsIndented fuel ∧ ReadsIndentedItems fuel ∧ ReadsIndentedFields fuel := by
  induction fuel with
  | zero =>
      refine ⟨fun depth v s h => ?_, fun depth v vs s h => ?_, fun depth k v fs s h => ?_⟩
      · cases v <;> simp [Value.need] at h
      · simp [Items.need] at h
      · simp [Fields.need] at h
  | succ fuel ih =>
      obtain ⟨hv, hi, hf⟩ := ih
      exact ⟨readIndented_step hi hf, readIndentedItems_step hv hi, readIndentedFields_step hv hf⟩

mutual
theorem render_length_le (depth : Nat) : ∀ v : Value, (render v).length ≤ (renderIndented depth v).length
  | .null | .bool _ | .num _ | .str _ | .arr .nil | .obj .nil => Nat.le_refl _
  | .arr (.cons v vs) => by
      have hv := render_length_le (depth + 1) v
      have hs := renderItems_length_le depth vs
      simp only [render, renderIndented, List.length_append, List.length_cons]
      omega
  | .obj (.cons k v fs) => by
      have hv := render_length_le (depth + 1) v
      have hs := renderFields_length_le depth fs
      simp only [render, renderIndented, List.length_append, List.length_cons]
      omega

theorem renderItems_length_le (depth : Nat) :
    ∀ items : Items, (renderItems items).length ≤ (indentedItems depth items).length
  | .nil => by simp [renderItems, indentedItems]
  | .cons v vs => by
      have hv := render_length_le (depth + 1) v
      have hs := renderItems_length_le depth vs
      simp only [renderItems, indentedItems, List.length_append, List.length_cons]
      omega

theorem renderFields_length_le (depth : Nat) :
    ∀ fields : Fields, (renderFields fields).length ≤ (indentedFields depth fields).length
  | .nil => by simp [renderFields, indentedFields]
  | .cons k v fs => by
      have hv := render_length_le (depth + 1) v
      have hs := renderFields_length_le depth fs
      simp only [renderFields, indentedFields, List.length_append, List.length_cons]
      omega
end

/-- The text may end in a newline, as a file does. -/
theorem parse_indented (v : Value) : parse (renderIndented 0 v ++ ['\n']) = some v := by
  have hneed : v.need ≤ 2 * (renderIndented 0 v ++ ['\n']).length + 2 := by
    have h := value_need_le v
    have hle := render_length_le 0 v
    rw [List.length_append]
    omega
  have h := (reads_indented _).1 0 v ['\n'] hneed (boundary_cons [] (by decide))
  rw [parse, h]
  rfl

end RoundTrip

end Kross.Json

import Kross.Json

namespace Kross.Json

mutual
def Value.need : Value → Nat
  | .null | .bool _ | .num _ | .str _ => 1
  | .arr items => items.need + 1
  | .obj fields => fields.need + 1

def Items.need : Items → Nat
  | .nil => 0
  | .cons v rest => max v.need rest.need + 1

def Fields.need : Fields → Nat
  | .nil => 0
  | .cons _ v rest => max v.need rest.need + 1
end

/-- What may stand behind a number: nothing, or a character that does not
prolong the literal. -/
def Boundary (s : List Char) : Prop := ∀ c t, s = c :: t → numberChar c = false

theorem boundary_cons {c : Char} (s : List Char) (h : numberChar c = false) :
    Boundary (c :: s) := by
  rintro d t ⟨⟩
  exact h

theorem hexValue_hexDigit {n : Nat} (h : n < 16) : hexValue (hexDigit n) = some n := by
  have hall : ∀ n : Fin 16, hexValue (hexDigit n) = some n.val := by decide
  exact hall ⟨n, h⟩

theorem scalar_toNat (c : Char) : scalar c.toNat = c := by
  have hv : c.toNat.isValidChar := c.valid
  rw [scalar, if_pos hv, Char.ofNat_toNat]

theorem readHex_control {c : Char} (h : c.toNat < 32) :
    readHex ['0', '0', hexDigit (c.toNat / 16), hexDigit (c.toNat % 16)] = some c := by
  have hz : hexValue '0' = some 0 := by decide
  have hn : ((0 * 16 + 0) * 16 + c.toNat / 16) * 16 + c.toNat % 16 = c.toNat := by omega
  simp only [readHex, hz, hexValue_hexDigit (show c.toNat / 16 < 16 by omega),
    hexValue_hexDigit (show c.toNat % 16 < 16 by omega), Option.bind_eq_bind, Option.bind_some, hn,
    scalar_toNat, pure]

theorem readString_plain {c : Char} (s : List Char) (h1 : c ≠ '"') (h2 : c ≠ '\\')
    (h3 : ¬ c.toNat < 32) :
    readString (c :: s) = (readString s).map (Prod.map (c :: ·) id) := by
  rw [readString.eq_5 c s (fun h _ => h2 h) (fun _ _ _ _ _ h _ => h2 h) (fun _ _ h _ => h2 h),
    if_neg h1, if_neg h3]

theorem readString_escape (c : Char) (s : List Char) :
    readString (escape c ++ s) = (readString s).map (Prod.map (c :: ·) id) := by
  unfold escape
  split_ifs with h1 h2 h3 h4 h5 h6 h7 h8
  · subst h1; simp [readString, unescape]
  · subst h2; simp [readString, unescape]
  · have hc : c = Char.ofNat 8 := by rw [← Char.ofNat_toNat c, h3]
    subst hc; simp [readString, unescape]
  · have hc : c = Char.ofNat 12 := by rw [← Char.ofNat_toNat c, h4]
    subst hc; simp [readString, unescape]
  · subst h5; simp [readString, unescape]
  · subst h6; simp [readString, unescape]
  · subst h7; simp [readString, unescape]
  · simp only [List.cons_append, List.nil_append, readString, readHex_control h8]
  · exact readString_plain s h1 h2 h8

theorem readString_body (t s : List Char) :
    readString (t.flatMap escape ++ '"' :: s) = some (t, s) := by
  induction t with
  | nil => simp [readString]
  | cons c t ih =>
      rw [List.flatMap_cons, List.append_assoc, readString_escape, ih]
      rfl

theorem skip_cons {c : Char} (s : List Char) (h : isSpace c = false) : skip (c :: s) = c :: s := by
  simp [skip, h]

theorem expect_cons {c : Char} (s : List Char) (h : isSpace c = false) :
    expect c (c :: s) = some s := by
  simp [expect, skip_cons s h]

theorem expect_cons_ne {c d : Char} (s : List Char) (h : isSpace d = false) (hne : d ≠ c) :
    expect c (d :: s) = none := by
  simp [expect, skip_cons s h, hne]

theorem readNumber_append (n : Number) (s : List Char) (hs : Boundary s) :
    readNumber (n.text ++ s) = some (n, s) := by
  have hall : ∀ c ∈ n.text, numberChar c = true := by
    have h := n.valid
    simp only [isNumber, Bool.and_eq_true, List.all_eq_true] at h
    exact h.1
  have htake : (n.text ++ s).takeWhile numberChar = n.text := by
    rw [List.takeWhile_append_of_pos hall]
    cases s with
    | nil => simp
    | cons c t => simp [hs c t rfl]
  have hdrop : (n.text ++ s).dropWhile numberChar = s := by
    rw [List.dropWhile_append_of_pos hall]
    cases s with
    | nil => rfl
    | cons c t => simp [hs c t rfl]
  rw [readNumber]
  simp only [htake, n.valid, hdrop, dif_pos]

theorem number_head (n : Number) :
    ∃ c t, n.text = c :: t ∧ (c = '-' ∨ c.isDigit = true) := by
  obtain ⟨text, hv⟩ := n
  simp only [isNumber, Bool.and_eq_true] at hv
  cases text with
  | nil => simp [integerPart] at hv
  | cons c t =>
      refine ⟨c, t, rfl, ?_⟩
      by_cases hm : c = '-'
      · exact Or.inl hm
      · right
        have hi : integerPart (c :: t) = true := by
          have h := hv.2
          split at h
          · rename_i heq
            simp only [List.cons.injEq] at heq
            exact absurd heq.1 hm
          · exact h
        rw [integerPart.eq_def] at hi
        split at hi
        · rename_i heq
          simp only [List.cons.injEq] at heq
          rw [heq.1]
          decide
        · rename_i heq
          simp only [List.cons.injEq] at heq
          rw [heq.1]
          exact (Bool.and_eq_true_iff.mp hi).1
        · simp at hi

theorem number_head_ne {c : Char} (h : c = '-' ∨ c.isDigit = true) :
    isSpace c = false ∧ c ≠ '"' ∧ c ≠ '[' ∧ c ≠ '{' ∧ c ≠ 'n' ∧ c ≠ 't' ∧ c ≠ 'f' := by
  rcases h with rfl | h
  · decide
  · refine ⟨?_, ?_, ?_, ?_, ?_, ?_, ?_⟩
    · by_contra hs
      simp only [isSpace, Bool.not_eq_false, Bool.or_eq_true, decide_eq_true_eq] at hs
      rcases hs with ((rfl | rfl) | rfl) | rfl <;> revert h <;> decide
    all_goals rintro rfl; revert h; decide

theorem render_head (v : Value) : ∃ c t, render v = c :: t ∧ isSpace c = false ∧ c ≠ ']' := by
  cases v with
  | null => exact ⟨_, _, rfl, by decide, by decide⟩
  | bool b => cases b <;> exact ⟨_, _, rfl, by decide, by decide⟩
  | num n =>
      obtain ⟨c, t, ht, hc⟩ := number_head n
      refine ⟨c, t, ht, (number_head_ne hc).1, ?_⟩
      rintro rfl
      revert hc
      decide
  | str s => exact ⟨_, _, rfl, by decide, by decide⟩
  | arr items => cases items <;> exact ⟨_, _, rfl, by decide, by decide⟩
  | obj fields => cases fields <;> exact ⟨_, _, rfl, by decide, by decide⟩

theorem renderItems_boundary (items : Items) (s : List Char) :
    Boundary (renderItems items ++ s) := by
  cases items <;> exact boundary_cons _ (by decide)

theorem renderFields_boundary (fields : Fields) (s : List Char) :
    Boundary (renderFields fields ++ s) := by
  cases fields <;> exact boundary_cons _ (by decide)

def ReadsValue (fuel : Nat) : Prop := ∀ v s, v.need ≤ fuel → Boundary s →
  readValue fuel (render v ++ s) = some (v, s)

def ReadsItems (fuel : Nat) : Prop := ∀ v vs s, (Items.cons v vs).need ≤ fuel →
  readItems fuel (render v ++ renderItems vs ++ s) = some (.cons v vs, s)

def ReadsFields (fuel : Nat) : Prop := ∀ k v fs s, (Fields.cons k v fs).need ≤ fuel →
  readFields fuel (quote k ++ ':' :: render v ++ renderFields fs ++ s) = some (.cons k v fs, s)

theorem readValue_step {fuel : Nat} (hi : ReadsItems fuel) (hf : ReadsFields fuel) :
    ReadsValue (fuel + 1) := by
  intro v s h hs
  match v with
  | .null => simp [render, readValue, skip, isSpace, readWord]
  | .bool true => simp [render, readValue, skip, isSpace, readWord]
  | .bool false => simp [render, readValue, skip, isSpace, readWord]
  | .num n =>
      obtain ⟨c, t, ht, hc⟩ := number_head n
      obtain ⟨h0, h1, h2, h3, h4, h5, h6⟩ := number_head_ne hc
      have hn := readNumber_append n s hs
      rw [ht, List.cons_append] at hn
      simp only [render, ht, List.cons_append, readValue, skip_cons _ h0, h1, h2, h3, h4, h5, h6,
        if_false, hn, Option.map_some, Prod.map, id]
  | .str t =>
      have hb := readString_body t.toList s
      simp only [render, quote, List.cons_append, List.append_assoc, List.nil_append, readValue,
        skip_cons _ (show isSpace '"' = false by decide), if_true, hb, Option.map_some, Prod.map, id,
        String.ofList_toList]
  | .arr .nil => simp [render, readValue, skip, isSpace, expect]
  | .arr (.cons v vs) =>
      obtain ⟨c, t, ht, hc, hne⟩ := render_head v
      have hi := hi v vs s (by simpa [Value.need] using h)
      have he : expect ']' (render v ++ renderItems vs ++ s) = none := by
        rw [ht, List.append_assoc, List.cons_append]
        exact expect_cons_ne _ hc hne
      simp only [render, List.cons_append, readValue, skip_cons _ (show isSpace '[' = false by decide),
        show ¬ ('[' = '"') by decide, if_true, if_false, he, hi, Option.map_some, Prod.map, id]
  | .obj .nil => simp [render, readValue, skip, isSpace, expect]
  | .obj (.cons k v fs) =>
      have hf := hf k v fs s (by simpa [Value.need] using h)
      have he : expect '}' (quote k ++ ':' :: render v ++ renderFields fs ++ s) = none := by
        rw [quote, List.append_assoc, List.append_assoc, List.append_assoc, List.cons_append]
        exact expect_cons_ne _ (by decide) (by decide)
      simp only [List.append_assoc, List.cons_append] at he hf
      simp only [render, List.cons_append, List.append_assoc, readValue,
        skip_cons _ (show isSpace '{' = false by decide), show ¬ ('{' = '"') by decide,
        show ¬ ('{' = '[') by decide, if_true, if_false, he, hf, Option.map_some, Prod.map, id]

theorem readItems_step {fuel : Nat} (hv : ReadsValue fuel) (hi : ReadsItems fuel) :
    ReadsItems (fuel + 1) := by
  intro v vs s h
  simp only [Items.need, Nat.add_le_add_iff_right, Nat.max_le] at h
  rw [readItems, List.append_assoc, hv v _ h.1 (renderItems_boundary vs s)]
  match vs with
  | .nil => simp [renderItems, expect_cons_ne, expect_cons, show isSpace ']' = false by decide]
  | .cons w ws =>
      have hi := hi w ws s h.2
      rw [List.append_assoc] at hi
      simp [renderItems, expect_cons, show isSpace ',' = false by decide, hi]

theorem readFields_step {fuel : Nat} (hv : ReadsValue fuel) (hf : ReadsFields fuel) :
    ReadsFields (fuel + 1) := by
  intro k v fs s h
  simp only [Fields.need, Nat.add_le_add_iff_right, Nat.max_le] at h
  have hv := hv v (renderFields fs ++ s) h.1 (renderFields_boundary fs s)
  have hq := readString_body k.toList (':' :: (render v ++ (renderFields fs ++ s)))
  simp only [readFields, quote, List.append_assoc, List.cons_append, List.nil_append,
    expect_cons _ (show isSpace '"' = false by decide), Option.bind_eq_bind, Option.bind_some, hq,
    expect_cons _ (show isSpace ':' = false by decide), hv]
  match fs with
  | .nil => simp [renderFields, expect_cons_ne, expect_cons, show isSpace '}' = false by decide]
  | .cons l w ws =>
      have hf := hf l w ws s h.2
      simp only [quote, List.append_assoc, List.cons_append, List.nil_append] at hf
      simp [renderFields, quote, expect_cons, show isSpace ',' = false by decide, hf]

theorem reads (fuel : Nat) : ReadsValue fuel ∧ ReadsItems fuel ∧ ReadsFields fuel := by
  induction fuel with
  | zero =>
      refine ⟨fun v s h => ?_, fun v vs s h => ?_, fun k v fs s h => ?_⟩
      · cases v <;> simp [Value.need] at h
      · simp [Items.need] at h
      · simp [Fields.need] at h
  | succ fuel ih =>
      obtain ⟨hv, hi, hf⟩ := ih
      exact ⟨readValue_step hi hf, readItems_step hv hi, readFields_step hv hf⟩

mutual
theorem value_need_le : ∀ v : Value, v.need ≤ 2 * (render v).length
  | .null | .bool true | .bool false | .str _ | .arr .nil | .obj .nil => by
      simp [Value.need, render, quote, Items.need, Fields.need] <;> omega
  | .num n => by
      obtain ⟨c, t, ht, -⟩ := number_head n
      simp only [Value.need, render, ht, List.length_cons]
      omega
  | .arr (.cons v vs) => by
      have hv := value_need_le v
      have hs := items_need_le vs
      simp only [Value.need, Items.need, render, List.length_append, List.length_cons]
      omega
  | .obj (.cons k v fs) => by
      have hv := value_need_le v
      have hs := fields_need_le fs
      simp only [Value.need, Fields.need, render, List.length_append, List.length_cons]
      omega

theorem items_need_le : ∀ items : Items, items.need ≤ 2 * (renderItems items).length
  | .nil => by simp [Items.need]
  | .cons v vs => by
      have hv := value_need_le v
      have hs := items_need_le vs
      simp only [Items.need, renderItems, List.length_append, List.length_cons]
      omega

theorem fields_need_le : ∀ fields : Fields, fields.need ≤ 2 * (renderFields fields).length
  | .nil => by simp [Fields.need]
  | .cons k v fs => by
      have hv := value_need_le v
      have hs := fields_need_le fs
      simp only [Fields.need, renderFields, List.length_append, List.length_cons]
      omega
end

theorem parse_render (v : Value) : parse (render v) = some v := by
  have h := (reads (2 * (render v).length + 2)).1 v [] (by have := value_need_le v; omega)
    (by rintro c t ⟨⟩)
  rw [List.append_nil] at h
  simp [parse, h, skip]

theorem render_injective : Function.Injective render := by
  intro v w h
  have hv := parse_render v
  rw [h, parse_render] at hv
  exact (Option.some.inj hv).symm

end Kross.Json

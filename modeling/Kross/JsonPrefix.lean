import Mathlib.Data.List.DropRight
import Kross.JsonRoundTrip

namespace Kross.Json

theorem newline_notMem_escape (c : Char) : '\n' ∉ escape c := by
  unfold escape
  split_ifs with h1 h2 h3 h4 h5 h6 h7 h8
  all_goals first | decide | skip
  · have hd : ∀ n : Fin 16, hexDigit n.val ≠ '\n' := by decide
    simp only [List.mem_cons, List.not_mem_nil, or_false, not_or]
    exact ⟨by decide, by decide, by decide, by decide, Ne.symm (hd ⟨c.toNat / 16, by omega⟩),
      Ne.symm (hd ⟨c.toNat % 16, by omega⟩)⟩
  · simpa using Ne.symm h5

theorem newline_notMem_quote (s : String) : '\n' ∉ quote s := by
  simp [quote, newline_notMem_escape]

theorem newline_notMem_number (n : Number) : '\n' ∉ n.text := by
  intro hm
  have h := n.valid
  simp only [isNumber, Bool.and_eq_true, List.all_eq_true] at h
  have hn := h.1 _ hm
  revert hn
  decide

mutual
theorem newline_notMem_render : ∀ v : Value, '\n' ∉ render v
  | .null | .bool true | .bool false | .arr .nil | .obj .nil => by simp [render]
  | .num n => newline_notMem_number n
  | .str s => newline_notMem_quote s
  | .arr (.cons v vs) => by
      simp [render, newline_notMem_render v, newline_notMem_renderItems vs]
  | .obj (.cons k v fs) => by
      simp [render, newline_notMem_quote k, newline_notMem_render v, newline_notMem_renderFields fs]

theorem newline_notMem_renderItems : ∀ items : Items, '\n' ∉ renderItems items
  | .nil => by simp [renderItems]
  | .cons v vs => by
      simp [renderItems, newline_notMem_render v, newline_notMem_renderItems vs]

theorem newline_notMem_renderFields : ∀ fields : Fields, '\n' ∉ renderFields fields
  | .nil => by simp [renderFields]
  | .cons k v fs => by
      simp [renderFields, newline_notMem_quote k, newline_notMem_render v,
        newline_notMem_renderFields fs]
end

theorem skip_append {s : List Char} (h : skip s ≠ []) (u : List Char) :
    skip (s ++ u) = skip s ++ u := by
  induction s with
  | nil => exact absurd rfl h
  | cons c s ih =>
      cases hc : isSpace c with
      | true =>
          have hs : skip (c :: s) = skip s := by simp [skip, hc]
          have hu : skip (c :: s ++ u) = skip (s ++ u) := by simp [skip, hc]
          rw [hs] at h ⊢
          rw [hu, ih h]
      | false => rw [List.cons_append, skip_cons _ hc, skip_cons _ hc, List.cons_append]

theorem skip_suffix (s : List Char) : skip s <:+ s := List.dropWhile_suffix _

theorem expect_append {c : Char} {s t : List Char} (h : expect c s = some t) (u : List Char) :
    expect c (s ++ u) = some (t ++ u) := by
  have hs : skip s ≠ [] := by
    intro he
    simp [expect, he] at h
  rw [expect] at h ⊢
  rw [skip_append hs]
  cases he : skip s with
  | nil => exact absurd he hs
  | cons d r =>
      simp only [he] at h
      split_ifs at h with hd
      cases h
      simp [hd]

theorem expect_none_append {c : Char} {s : List Char} (h : expect c s = none) (hs : skip s ≠ [])
    (u : List Char) : expect c (s ++ u) = none := by
  rw [expect] at h ⊢
  rw [skip_append hs]
  cases he : skip s with
  | nil => exact absurd he hs
  | cons d r =>
      simp only [he] at h
      split_ifs at h with hd
      simp [hd]

theorem expect_suffix {c : Char} {s t : List Char} (h : expect c s = some t) : c :: t <:+ s := by
  rw [expect] at h
  cases he : skip s with
  | nil => simp [he] at h
  | cons d r =>
      simp only [he] at h
      split_ifs at h with hd
      cases h
      rw [← hd, ← he]
      exact skip_suffix s

theorem expect_skip_ne {c : Char} {s t : List Char} (h : expect c s = some t) : skip s ≠ [] := by
  intro he
  simp [expect, he] at h

theorem readString_unescape {c e : Char} (s : List Char) (he : unescape c = some e) :
    readString ('\\' :: c :: s) = (readString s).map (Prod.map (e :: ·) id) := by
  have hu : c ≠ 'u' := by
    rintro rfl
    simp [unescape] at he
  rw [readString.eq_def]
  split
  all_goals simp_all
  · grind

theorem readString_append {s t r : List Char} (h : readString s = some (t, r)) (u : List Char) :
    readString (s ++ u) = some (t, r ++ u) := by
  fun_induction readString s generalizing t r with
  | case1 => simp at h
  | case2 => simp at h
  | case3 a b c d s e he ih =>
      obtain ⟨⟨t, r⟩, hr, hp⟩ := Option.map_eq_some_iff.mp h
      cases hp
      simp [readString, he, ih hr]
  | case4 => simp at h
  | case5 c s hu e he ih => 
      obtain ⟨⟨t, r⟩, hr, hp⟩ := Option.map_eq_some_iff.mp h
      cases hp
      rw [List.cons_append, List.cons_append, readString_unescape _ he, ih hr]
      rfl
  | case6 => simp at h
  | case7 s => 
      cases h
      simp [readString]
  | case8 => simp at h
  | case9 c s h1 h2 h3 hq hc ih => 
      obtain ⟨⟨t, r⟩, hr, hp⟩ := Option.map_eq_some_iff.mp h
      cases hp
      have hb : c ≠ '\\' := by
        rintro rfl
        cases s with
        | nil => exact h1 rfl rfl
        | cons d s => exact h3 d s rfl rfl
      rw [List.cons_append, readString_plain _ hq hb hc, ih hr]
      rfl

theorem readString_suffix {s t r : List Char} (h : readString s = some (t, r)) : r <:+ s := by
  fun_induction readString s generalizing t r with
  | case1 | case2 | case4 | case6 | case8 => simp at h
  | case3 a b c d s e he ih =>
      obtain ⟨⟨t, r⟩, hr, hp⟩ := Option.map_eq_some_iff.mp h
      cases hp
      exact (ih hr).trans ⟨['\\', 'u', a, b, c, d], rfl⟩
  | case5 c s hu e he ih => 
      obtain ⟨⟨t, r⟩, hr, hp⟩ := Option.map_eq_some_iff.mp h
      cases hp
      exact (ih hr).trans ⟨['\\', c], rfl⟩
  | case7 s => 
      cases h
      exact ⟨['"'], rfl⟩
  | case9 c s h1 h2 h3 hq hc ih => 
      obtain ⟨⟨t, r⟩, hr, hp⟩ := Option.map_eq_some_iff.mp h
      cases hp
      exact (ih hr).trans ⟨[c], rfl⟩

theorem readNumber_some {s r : List Char} {n : Number} (h : readNumber s = some (n, r)) :
    n.text = s.takeWhile numberChar ∧ r = s.dropWhile numberChar := by
  unfold readNumber at h
  split_ifs at h
  cases h
  exact ⟨rfl, rfl⟩

theorem readNumber_suffix {c : Char} {s r : List Char} {n : Number}
    (h : readNumber (c :: s) = some (n, r)) : r <:+ s := by
  obtain ⟨ht, hr⟩ := readNumber_some h
  obtain ⟨d, t, hd, -⟩ := number_head n
  cases hc : numberChar c with
  | true => exact hr ▸ by simpa [hc] using List.dropWhile_suffix numberChar
  | false => simp [ht, hc] at hd

theorem readNumber_extend {s r : List Char} {n : Number} (h : readNumber s = some (n, r))
    (hr : r ≠ []) (u : List Char) : readNumber (s ++ u) = some (n, r ++ u) := by
  obtain ⟨ht, hd⟩ := readNumber_some h
  have hs : s = n.text ++ r := by rw [ht, hd, List.takeWhile_append_dropWhile]
  have hb : Boundary (r ++ u) := by
    cases r with
    | nil => exact absurd rfl hr
    | cons c r =>
        refine boundary_cons _ ?_
        have hc := List.head_dropWhile_not numberChar (l := s) (by rw [← hd]; simp)
        simpa [← hd] using hc
  rw [hs, List.append_assoc, readNumber_append n _ hb]

theorem readWord_append {w s r : List Char} {v v' : Value} (h : readWord w v s = some (v', r))
    (u : List Char) : readWord w v (s ++ u) = some (v', r ++ u) := by
  unfold readWord at h ⊢
  split_ifs at h with hp
  cases h
  obtain ⟨t, rfl⟩ := List.isPrefixOf_iff_prefix.mp hp
  simp [List.append_assoc]

theorem readWord_suffix {w s r : List Char} {v v' : Value} (h : readWord w v s = some (v', r)) :
    r <:+ s := by
  unfold readWord at h
  split_ifs at h
  cases h
  exact List.drop_suffix _ _

theorem readValue_skip_ne {fuel : Nat} {s r : List Char} {v : Value}
    (h : readValue fuel s = some (v, r)) : skip s ≠ [] := by
  intro he
  cases fuel <;> simp [readValue, he] at h

theorem readItems_skip_ne {fuel : Nat} {s r : List Char} {items : Items}
    (h : readItems fuel s = some (items, r)) : skip s ≠ [] := by
  cases fuel with
  | zero => simp [readItems] at h
  | succ fuel =>
      rw [readItems] at h
      obtain ⟨⟨v, t⟩, hv, -⟩ := Option.bind_eq_some_iff.mp h
      exact readValue_skip_ne hv

theorem readFields_skip_ne {fuel : Nat} {s r : List Char} {fields : Fields}
    (h : readFields fuel s = some (fields, r)) : skip s ≠ [] := by
  cases fuel with
  | zero => simp [readFields] at h
  | succ fuel =>
      rw [readFields] at h
      obtain ⟨t, ht, -⟩ := Option.bind_eq_some_iff.mp h
      exact expect_skip_ne ht

/-- The members of one round of `readItems` and `readFields`: what stands
before the rest, and whether the list goes on. -/
theorem readItems_cases {fuel : Nat} {s r : List Char} {items : Items}
    (h : readItems (fuel + 1) s = some (items, r)) :
    ∃ v t, readValue fuel s = some (v, t) ∧
      ((∃ t' rest, expect ',' t = some t' ∧ readItems fuel t' = some (rest, r) ∧
          items = .cons v rest) ∨
        (expect ',' t = none ∧ expect ']' t = some r ∧ items = .cons v .nil)) := by
  rw [readItems] at h
  obtain ⟨⟨v, t⟩, hv, h⟩ := Option.bind_eq_some_iff.mp h
  refine ⟨v, t, hv, ?_⟩
  cases he : expect ',' t with
  | some t' =>
      simp only [he] at h
      obtain ⟨⟨rest, r'⟩, hr, hp⟩ := Option.map_eq_some_iff.mp h
      cases hp
      exact Or.inl ⟨t', rest, rfl, hr, rfl⟩
  | none =>
      simp only [he] at h
      obtain ⟨r', hr, hp⟩ := Option.map_eq_some_iff.mp h
      cases hp
      exact Or.inr ⟨rfl, hr, rfl⟩

theorem readFields_cases {fuel : Nat} {s r : List Char} {fields : Fields}
    (h : readFields (fuel + 1) s = some (fields, r)) :
    ∃ a k b c v t, expect '"' s = some a ∧ readString a = some (k, b) ∧ expect ':' b = some c ∧
      readValue fuel c = some (v, t) ∧
      ((∃ t' rest, expect ',' t = some t' ∧ readFields fuel t' = some (rest, r) ∧
          fields = .cons (String.ofList k) v rest) ∨
        (expect ',' t = none ∧ expect '}' t = some r ∧
          fields = .cons (String.ofList k) v .nil)) := by
  rw [readFields] at h
  obtain ⟨a, ha, h⟩ := Option.bind_eq_some_iff.mp h
  obtain ⟨⟨k, b⟩, hb, h⟩ := Option.bind_eq_some_iff.mp h
  obtain ⟨c, hc, h⟩ := Option.bind_eq_some_iff.mp h
  obtain ⟨⟨v, t⟩, hv, h⟩ := Option.bind_eq_some_iff.mp h
  refine ⟨a, k, b, c, v, t, ha, hb, hc, hv, ?_⟩
  cases he : expect ',' t with
  | some t' =>
      simp only [he] at h
      obtain ⟨⟨rest, r'⟩, hr, hp⟩ := Option.map_eq_some_iff.mp h
      cases hp
      exact Or.inl ⟨t', rest, rfl, hr, rfl⟩
  | none =>
      simp only [he] at h
      obtain ⟨r', hr, hp⟩ := Option.map_eq_some_iff.mp h
      cases hp
      exact Or.inr ⟨rfl, hr, rfl⟩

/-- What a text makes of a value does not change when the text goes on, unless
it ends in a number that the rest might prolong. -/
def ExtendsValue (fuel : Nat) : Prop := ∀ s v r, readValue fuel s = some (v, r) →
  (r ≠ [] ∨ ∀ n, v ≠ .num n) → ∀ fuel', fuel ≤ fuel' → ∀ u,
    readValue fuel' (s ++ u) = some (v, r ++ u)

def ExtendsItems (fuel : Nat) : Prop := ∀ s items r, readItems fuel s = some (items, r) →
  ∀ fuel', fuel ≤ fuel' → ∀ u, readItems fuel' (s ++ u) = some (items, r ++ u)

def ExtendsFields (fuel : Nat) : Prop := ∀ s fields r, readFields fuel s = some (fields, r) →
  ∀ fuel', fuel ≤ fuel' → ∀ u, readFields fuel' (s ++ u) = some (fields, r ++ u)

theorem ne_nil_of_expect {c : Char} {s t : List Char} (h : expect c s = some t) : s ≠ [] := by
  rintro rfl
  simp [expect, skip] at h

theorem readItems_extend {fuel : Nat} (hv : ExtendsValue fuel) (hi : ExtendsItems fuel) :
    ExtendsItems (fuel + 1) := by
  intro s items r h fuel' hf u
  obtain ⟨fuel', rfl⟩ : ∃ f, fuel' = f + 1 := ⟨fuel' - 1, by omega⟩
  obtain ⟨v, t, ht, ⟨t', rest, he, hr, rfl⟩ | ⟨he, hr, rfl⟩⟩ := readItems_cases h
  · rw [readItems, hv s v t ht (Or.inl (ne_nil_of_expect he)) fuel' (by omega) u]
    simp [expect_append he u, hi t' rest r hr fuel' (by omega) u]
  · rw [readItems, hv s v t ht (Or.inl (ne_nil_of_expect hr)) fuel' (by omega) u]
    simp [expect_none_append he (expect_skip_ne hr) u, expect_append hr u]

theorem readFields_extend {fuel : Nat} (hv : ExtendsValue fuel) (hf : ExtendsFields fuel) :
    ExtendsFields (fuel + 1) := by
  intro s fields r h fuel' hle u
  obtain ⟨fuel', rfl⟩ : ∃ f, fuel' = f + 1 := ⟨fuel' - 1, by omega⟩
  obtain ⟨a, k, b, c, v, t, ha, hb, hc, ht, ⟨t', rest, he, hr, rfl⟩ | ⟨he, hr, rfl⟩⟩ :=
    readFields_cases h
  · have hv := hv c v t ht (Or.inl (ne_nil_of_expect he)) fuel' (by omega) u
    simp [readFields, expect_append ha u, readString_append hb u, expect_append hc u, hv,
      expect_append he u, hf t' rest r hr fuel' (by omega) u]
  · have hv := hv c v t ht (Or.inl (ne_nil_of_expect hr)) fuel' (by omega) u
    simp [readFields, expect_append ha u, readString_append hb u, expect_append hc u, hv,
      expect_none_append he (expect_skip_ne hr) u, expect_append hr u]

theorem readValue_extend {fuel : Nat} (hi : ExtendsItems fuel) (hf : ExtendsFields fuel) :
    ExtendsValue (fuel + 1) := by
  intro s v r h hn fuel' hle u
  obtain ⟨fuel', rfl⟩ : ∃ f, fuel' = f + 1 := ⟨fuel' - 1, by omega⟩
  have hle : fuel ≤ fuel' := by omega
  have hs := readValue_skip_ne h
  rw [readValue] at h ⊢
  rw [skip_append hs]
  cases he : skip s with
  | nil => exact absurd he hs
  | cons c t =>
      simp only [he, List.cons_append] at h ⊢
      split_ifs at h ⊢ with h1 h2 h3 h4 h5 h6
      · obtain ⟨⟨k, r'⟩, hr, hp⟩ := Option.map_eq_some_iff.mp h
        cases hp
        simp [readString_append hr u]
      · cases hx : expect ']' t with
        | some t' =>
            simp only [hx, Option.some.injEq, Prod.mk.injEq] at h
            obtain ⟨rfl, rfl⟩ := h
            simp [expect_append hx u]
        | none =>
            simp only [hx] at h
            obtain ⟨⟨items, r'⟩, hr, hp⟩ := Option.map_eq_some_iff.mp h
            cases hp
            simp [expect_none_append hx (readItems_skip_ne hr) u, hi t items r' hr fuel' hle u]
      · cases hx : expect '}' t with
        | some t' =>
            simp only [hx, Option.some.injEq, Prod.mk.injEq] at h
            obtain ⟨rfl, rfl⟩ := h
            simp [expect_append hx u]
        | none =>
            simp only [hx] at h
            obtain ⟨⟨fields, r'⟩, hr, hp⟩ := Option.map_eq_some_iff.mp h
            cases hp
            simp [expect_none_append hx (readFields_skip_ne hr) u, hf t fields r' hr fuel' hle u]
      · exact readWord_append h u
      · exact readWord_append h u
      · exact readWord_append h u
      · obtain ⟨⟨n, r'⟩, hr, hp⟩ := Option.map_eq_some_iff.mp h
        cases hp
        have hne : r' ≠ [] := hn.resolve_right (fun hn => hn n rfl)
        have hx := readNumber_extend hr hne u
        rw [List.cons_append] at hx
        simp [hx]

theorem extends_all (fuel : Nat) :
    ExtendsValue fuel ∧ ExtendsItems fuel ∧ ExtendsFields fuel := by
  induction fuel with
  | zero =>
      refine ⟨fun s v r h => ?_, fun s v r h => ?_, fun s v r h => ?_⟩
      · simp [readValue] at h
      · simp [readItems] at h
      · simp [readFields] at h
  | succ fuel ih =>
      obtain ⟨hv, hi, hf⟩ := ih
      exact ⟨readValue_extend hi hf, readItems_extend hv hi, readFields_extend hv hf⟩

def LeavesSuffix (fuel : Nat) : Prop :=
  (∀ s v r, readValue fuel s = some (v, r) → r <:+ s) ∧
  (∀ s items r, readItems fuel s = some (items, r) → r <:+ s) ∧
  (∀ s fields r, readFields fuel s = some (fields, r) → '}' :: r <:+ s)

theorem suffix_of_expect {c : Char} {s t : List Char} (h : expect c s = some t) : t <:+ s :=
  (List.suffix_cons c t).trans (expect_suffix h)

theorem readValue_suffix {fuel : Nat} (hs : LeavesSuffix fuel) {s r : List Char} {v : Value}
    (h : readValue (fuel + 1) s = some (v, r)) : r <:+ s := by
  have hne := readValue_skip_ne h
  rw [readValue] at h
  cases he : skip s with
  | nil => exact absurd he hne
  | cons c t =>
      have hts : t <:+ s := (List.suffix_cons c t).trans (he ▸ skip_suffix s)
      refine List.IsSuffix.trans ?_ hts
      simp only [he] at h
      split_ifs at h with h1 h2 h3 h4 h5 h6
      · obtain ⟨⟨k, r'⟩, hr, hp⟩ := Option.map_eq_some_iff.mp h
        cases hp
        exact readString_suffix hr
      · cases hx : expect ']' t with
        | some t' =>
            simp only [hx, Option.some.injEq, Prod.mk.injEq] at h
            exact h.2 ▸ suffix_of_expect hx
        | none =>
            simp only [hx] at h
            obtain ⟨⟨items, r'⟩, hr, hp⟩ := Option.map_eq_some_iff.mp h
            cases hp
            exact hs.2.1 t items r' hr
      · cases hx : expect '}' t with
        | some t' =>
            simp only [hx, Option.some.injEq, Prod.mk.injEq] at h
            exact h.2 ▸ suffix_of_expect hx
        | none =>
            simp only [hx] at h
            obtain ⟨⟨fields, r'⟩, hr, hp⟩ := Option.map_eq_some_iff.mp h
            cases hp
            exact (List.suffix_cons '}' r').trans (hs.2.2 t fields r' hr)
      · exact readWord_suffix h
      · exact readWord_suffix h
      · exact readWord_suffix h
      · obtain ⟨⟨n, r'⟩, hr, hp⟩ := Option.map_eq_some_iff.mp h
        cases hp
        exact readNumber_suffix hr

theorem leaves_suffix (fuel : Nat) : LeavesSuffix fuel := by
  induction fuel with
  | zero => exact ⟨by simp [readValue], by simp [readItems], by simp [readFields]⟩
  | succ fuel ih =>
      refine ⟨fun s v r h => readValue_suffix ih h, fun s items r h => ?_, fun s fields r h => ?_⟩
      · obtain ⟨v, t, ht, ⟨t', rest, he, hr, rfl⟩ | ⟨he, hr, rfl⟩⟩ := readItems_cases h
        · exact (ih.2.1 _ _ _ hr).trans ((suffix_of_expect he).trans (ih.1 _ _ _ ht))
        · exact (suffix_of_expect hr).trans (ih.1 _ _ _ ht)
      · obtain ⟨a, k, b, c, v, t, ha, hb, hc, ht, hm⟩ := readFields_cases h
        have hts : t <:+ s := (ih.1 _ _ _ ht).trans ((suffix_of_expect hc).trans
          ((readString_suffix hb).trans (suffix_of_expect ha)))
        rcases hm with ⟨t', rest, he, hr, rfl⟩ | ⟨he, hr, rfl⟩
        · exact (ih.2.2 _ _ _ hr).trans ((suffix_of_expect he).trans hts)
        · exact (expect_suffix hr).trans hts

theorem readValue_obj {fuel : Nat} {s r : List Char} {v : Value}
    (h : readValue fuel ('{' :: s) = some (v, r)) : ∃ fields, v = .obj fields ∧ '}' :: r <:+ s := by
  cases fuel with
  | zero => simp [readValue] at h
  | succ fuel =>
      simp only [readValue, skip_cons s (show isSpace '{' = false by decide),
        show ¬ ('{' = '"') by decide, show ¬ ('{' = '[') by decide, if_true, if_false] at h
      cases hx : expect '}' s with
      | some t =>
          simp only [hx, Option.some.injEq, Prod.mk.injEq] at h
          exact ⟨.nil, h.1.symm, h.2 ▸ expect_suffix hx⟩
      | none =>
          simp only [hx] at h
          obtain ⟨⟨fields, r'⟩, hr, hp⟩ := Option.map_eq_some_iff.mp h
          cases hp
          exact ⟨fields, rfl, (leaves_suffix fuel).2.2 s fields r' hr⟩

theorem render_obj_head (fields : Fields) : ∃ s, render (.obj fields) = '{' :: s := by
  cases fields <;> exact ⟨_, rfl⟩

theorem parse_some {s : List Char} {v : Value} (h : parse s = some v) :
    ∃ r, readValue (2 * s.length + 2) s = some (v, r) ∧ skip r = [] := by
  unfold parse at h
  cases hr : readValue (2 * s.length + 2) s with
  | none => simp [hr] at h
  | some p =>
      simp only [hr] at h
      split_ifs at h with hs
      cases h
      exact ⟨p.2, rfl, hs⟩

/-- A proper prefix of a written object is not read as anything. -/
theorem parse_prefix {p u : List Char} {fields : Fields} (h : p ++ u = render (.obj fields))
    (hu : u ≠ []) : parse p = none := by
  by_contra hne
  obtain ⟨v, hv⟩ := Option.ne_none_iff_exists'.mp hne
  obtain ⟨r, hr, -⟩ := parse_some hv
  obtain ⟨s, hs⟩ := render_obj_head fields
  cases p with
  | nil => simp [readValue, skip] at hr
  | cons c p =>
      have hc : c = '{' := by
        rw [hs] at h
        exact (List.cons.inj h).1
      subst hc
      obtain ⟨fs, rfl, -⟩ := readValue_obj hr
      have hx := (extends_all _).1 _ _ _ hr (Or.inr (by simp)) (2 * (render (.obj fields)).length + 2)
        (by rw [← h, List.length_append]; omega) u
      have hw := (reads (2 * (render (.obj fields)).length + 2)).1 (.obj fields) []
        (by have := value_need_le (.obj fields); omega) (by rintro c t ⟨⟩)
      rw [List.append_nil] at hw
      rw [h, hw] at hx
      replace hw := hx.symm
      simp only [Option.some.injEq, Prod.mk.injEq, List.append_eq_nil_iff] at hw
      exact hu hw.2.2

theorem parse_brace_last {s : List Char} {c : Char} {v : Value} (hc : isSpace c = false)
    (h : parse ('{' :: s ++ [c]) = some v) : c = '}' := by
  obtain ⟨r, hr, hs⟩ := parse_some h
  obtain ⟨fs, -, t, ht⟩ := readValue_obj (s := s ++ [c]) hr
  rcases List.eq_nil_or_concat r with rfl | ⟨r, d, rfl⟩
  · exact (List.append_inj_right' ht rfl |> List.cons.inj).1.symm
  · have hd : d = c := by
      have hl := congrArg List.getLast? ht
      rw [List.concat_eq_append, List.getLast?_append, ← List.cons_append,
        List.getLast?_concat] at hl
      simpa using hl
    have hm : isSpace d = true := by
      have := List.dropWhile_eq_nil_iff.mp hs d (by simp)
      simpa using this
    rw [hd, hc] at hm
    exact absurd hm (by decide)

theorem readValue_head {fuel : Nat} {s r : List Char} {fields : Fields}
    (h : readValue fuel s = some (.obj fields, r)) : ∃ t, skip s = '{' :: t := by
  cases fuel with
  | zero => simp [readValue] at h
  | succ fuel =>
      rw [readValue] at h
      cases he : skip s with
      | nil => simp [he] at h
      | cons c t =>
          simp only [he] at h
          split_ifs at h with h1 h2 h3 h4 h5 h6
          · obtain ⟨_, _, hp⟩ := Option.map_eq_some_iff.mp h
            cases hp
          · split at h
            · cases h
            · obtain ⟨_, _, hp⟩ := Option.map_eq_some_iff.mp h
              cases hp
          · exact ⟨t, by rw [h3]⟩
          · unfold readWord at h
            split_ifs at h
            cases h
          · unfold readWord at h
            split_ifs at h
            cases h
          · unfold readWord at h
            split_ifs at h
            cases h
          · obtain ⟨_, _, hp⟩ := Option.map_eq_some_iff.mp h
            cases hp

theorem readValue_skip {fuel : Nat} {s : List Char} : readValue fuel (skip s) = readValue fuel s := by
  cases fuel with
  | zero => rfl
  | succ fuel =>
      have hs : skip (skip s) = skip s := List.dropWhile_idempotent _ s
      rw [readValue, readValue, hs]

/-- Of the text of an object only white space can be left out at its end. -/
theorem parse_of_parse_append {p u : List Char} {v : Value} {fields : Fields}
    (hall : parse (p ++ u) = some (.obj fields)) (hp : parse p = some v) : v = .obj fields := by
  obtain ⟨r, hr, -⟩ := parse_some hp
  obtain ⟨r', hr', -⟩ := parse_some hall
  obtain ⟨t, ht⟩ := readValue_head hr'
  have hs := readValue_skip_ne hr
  rw [skip_append hs] at ht
  obtain ⟨c, t', hc⟩ := List.exists_cons_of_ne_nil hs
  rw [hc, List.cons_append] at ht
  have hobj : ∃ fs, v = .obj fs := by
    rw [← readValue_skip, hc, (List.cons.inj ht).1] at hr
    obtain ⟨fs, hfs, -⟩ := readValue_obj hr
    exact ⟨fs, hfs⟩
  obtain ⟨fs, rfl⟩ := hobj
  have hx := (extends_all _).1 _ _ _ hr (Or.inr (by simp)) (2 * (p ++ u).length + 2)
    (by rw [List.length_append]; omega) u
  rw [hr'] at hx
  cases hx
  rfl

end Kross.Json

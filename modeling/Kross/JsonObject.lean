import Kross.JsonNumber

namespace Kross.Json

section Members

/-- `{ ...fields, key: value }`: a member keeps its place, a new one comes last. -/
def Fields.put (key : String) (value : Value) : Fields → Fields
  | .nil => .cons key value .nil
  | .cons k v rest =>
      if k = key ∧ (rest.get key).isNone then .cons k value rest else .cons k v (Fields.put key value rest)

/-- A member that is undefined is not written. -/
def Fields.putSome (key : String) (value : Option Value) (fields : Fields) : Fields :=
  match value with
  | some v => fields.put key v
  | none => fields

variable {key other : String} {value : Value}

theorem get_put (key : String) (value : Value) (fields : Fields) : (fields.put key value).get key = some value := by
  match fields with
  | .nil => exact if_pos rfl
  | .cons k v rest =>
      have ih := get_put key value rest
      rw [Fields.put]
      split_ifs with h
      · rw [Fields.get, Option.isNone_iff_eq_none.mp h.2]
        exact if_pos h.1
      · rw [Fields.get, ih]

theorem get_put_ne (h : other ≠ key) (value : Value) (fields : Fields) :
    (fields.put key value).get other = fields.get other := by
  match fields with
  | .nil => exact if_neg (Ne.symm h)
  | .cons k v rest =>
      have ih := get_put_ne h value rest
      rw [Fields.put]
      split_ifs with hk
      · rw [Fields.get, Fields.get, if_neg (hk.1 ▸ Ne.symm h), if_neg (hk.1 ▸ Ne.symm h)]
      · rw [Fields.get, ih, Fields.get]

theorem get_putSome_ne (h : other ≠ key) (value : Option Value) (fields : Fields) :
    (fields.putSome key value).get other = fields.get other := by
  cases value with
  | none => rfl
  | some v => exact get_put_ne h v fields

theorem put_get {fields : Fields} (h : fields.get key = some value) : fields.put key value = fields := by
  match fields with
  | .nil => cases h
  | .cons k v rest =>
      rw [Fields.get] at h
      rw [Fields.put]
      cases hrest : rest.get key with
      | some w =>
          rw [hrest] at h
          rw [if_neg (by simp), put_get (hrest.trans h)]
      | none =>
          rw [hrest] at h
          dsimp only at h
          split_ifs at h with hk
          rw [if_pos ⟨hk, rfl⟩, Option.some.inj h]

def Value.member (key : String) : Value → Option Value
  | .obj fields => fields.get key
  | .null | .bool _ | .num _ | .str _ | .arr _ => none

/-- `object?.key` -/
def member (key : String) (value : Option Value) : Option Value := value.bind (Value.member key)

def Items.toList : Items → List Value
  | .nil => []
  | .cons v rest => v :: rest.toList

def Fields.values : Fields → List Value
  | .nil => []
  | .cons _ v rest => v :: rest.values

def indexed (index : Nat) : List Value → Fields
  | [] => .nil
  | v :: values => .cons (toString index) v (indexed (index + 1) values)

/-- `{ ...value }`, what is undefined or no object included. -/
def spread : Option Value → Fields
  | some (.obj fields) => fields
  | some (.arr items) => indexed 0 items.toList
  | some (.str s) => indexed 0 (s.toList.map fun c => .str (String.singleton c))
  | some .null | some (.bool _) | some (.num _) | none => .nil

theorem toList_ofList (values : List Value) : (Items.ofList values).toList = values := by
  induction values with
  | nil => rfl
  | cons v values ih => rw [Items.ofList, Items.toList, ih]

theorem values_indexed (index : Nat) (values : List Value) : (indexed index values).values = values := by
  induction values generalizing index with
  | nil => rfl
  | cons v values ih => rw [indexed, Fields.values, ih]

/-- The key of an index has digits only. -/
theorem toString_ne {c : Char} (hc : c ∈ key.toList) (hdigit : c.isDigit = false) (index : Nat) :
    toString index ≠ key := by
  rintro rfl
  have hmem : c ∈ Nat.toDigits 10 index := by rwa [← Nat.toList_repr]
  rw [Nat.isDigit_of_mem_toDigits (by decide) (by decide) hmem] at hdigit
  cases hdigit

theorem get_indexed (h : ∀ index : Nat, toString index ≠ key) (index : Nat) (values : List Value) :
    (indexed index values).get key = none := by
  induction values generalizing index with
  | nil => rfl
  | cons v values ih =>
      rw [indexed, Fields.get, ih]
      exact if_neg (h index)

theorem get_spread {c : Char} (hc : c ∈ key.toList) (hdigit : c.isDigit = false) (value : Option Value) :
    (spread value).get key = member key value := by
  have hkey := toString_ne hc hdigit
  match value with
  | some (.obj fields) => rfl
  | some (.arr items) => exact get_indexed hkey 0 _
  | some (.str s) => exact get_indexed hkey 0 _
  | some .null | some (.bool _) | some (.num _) | none => rfl

end Members

section Doubles

/-- The digits of a literal without its sign, and the power of ten they are scaled by. -/
def Number.magnitude (n : Number) : Nat × Int :=
  let s := n.text.dropWhile (· = '-')
  let tail := fractionAndExponent (s.dropWhile Char.isDigit)
  (Nat.ofDigitChars 10 (s.takeWhile Char.isDigit ++ tail.1) 0, tail.2 - tail.1.length)

def Number.reaches (n : Number) (bound : Nat) : Bool :=
  bound * 10 ^ (-n.magnitude.2).toNat ≤ n.magnitude.1 * 10 ^ n.magnitude.2.toNat

/-- The literal is rounded to an infinity: it reaches the greatest double and half of its last place. -/
def Number.isInfinite (n : Number) : Bool := n.reaches (2 ^ 1024 - 2 ^ 970)

/-- The literal times the bound is at most one. -/
def Number.vanishes (n : Number) (bound : Nat) : Bool :=
  n.magnitude.1 * 10 ^ n.magnitude.2.toNat * bound ≤ 10 ^ (-n.magnitude.2).toNat

/-- The literal is rounded to zero: it is not above half of the least positive double. -/
def Number.isZero (n : Number) : Bool := n.vanishes (2 ^ 1075)

mutual
/-- `JSON.parse(JSON.stringify(value))`: an infinity is written as `null`. -/
def Value.stored : Value → Value
  | .num n => if n.isInfinite then .null else .num n
  | .arr items => .arr items.stored
  | .obj fields => .obj fields.stored
  | .null => .null
  | .bool b => .bool b
  | .str s => .str s

def Items.stored : Items → Items
  | .nil => .nil
  | .cons v rest => .cons v.stored rest.stored

def Fields.stored : Fields → Fields
  | .nil => .nil
  | .cons k v rest => .cons k v.stored rest.stored
end

mutual
/-- No number in the value is rounded to an infinity. -/
def Value.isFinite : Value → Bool
  | .num n => !n.isInfinite
  | .arr items => items.isFinite
  | .obj fields => fields.isFinite
  | .null | .bool _ | .str _ => true

def Items.isFinite : Items → Bool
  | .nil => true
  | .cons v rest => v.isFinite && rest.isFinite

def Fields.isFinite : Fields → Bool
  | .nil => true
  | .cons _ v rest => v.isFinite && rest.isFinite
end

theorem stored_num {n : Number} (h : (Value.num n).isFinite = true) : (Value.num n).stored = .num n := by
  have hn : n.isInfinite = false := by simpa [Value.isFinite] using h
  rw [Value.stored, hn]
  exact if_neg Bool.false_ne_true

mutual
theorem Value.stored_finite : ∀ v : Value, v.isFinite = true → v.stored = v
  | .num _ => stored_num
  | .arr items => by
      intro h
      rw [Value.stored, Items.stored_finite items h]
  | .obj fields => by
      intro h
      rw [Value.stored, Fields.stored_finite fields h]
  | .null | .bool _ | .str _ => fun _ => rfl

theorem Items.stored_finite : ∀ items : Items, items.isFinite = true → items.stored = items
  | .nil => fun _ => rfl
  | .cons v rest => by
      intro h
      obtain ⟨hv, hrest⟩ := Bool.and_eq_true_iff.mp h
      rw [Items.stored, Value.stored_finite v hv, Items.stored_finite rest hrest]

theorem Fields.stored_finite : ∀ fields : Fields, fields.isFinite = true → fields.stored = fields
  | .nil => fun _ => rfl
  | .cons k v rest => by
      intro h
      obtain ⟨hv, hrest⟩ := Bool.and_eq_true_iff.mp h
      rw [Fields.stored, Value.stored_finite v hv, Fields.stored_finite rest hrest]
end

theorem get_stored (key : String) (fields : Fields) : fields.stored.get key = (fields.get key).map Value.stored := by
  match fields with
  | .nil => rfl
  | .cons k v rest =>
      rw [Fields.stored, Fields.get, Fields.get, get_stored key rest]
      cases rest.get key with
      | some w => rfl
      | none =>
          dsimp only [Option.map_none]
          split_ifs <;> rfl

theorem toList_stored (items : Items) : items.stored.toList = items.toList.map Value.stored := by
  match items with
  | .nil => rfl
  | .cons v rest => rw [Items.stored, Items.toList, Items.toList, toList_stored rest, List.map_cons]

end Doubles

end Kross.Json

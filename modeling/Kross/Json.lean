import Mathlib.Data.List.TakeWhile
import Mathlib.Tactic.Common

namespace Kross.Json

def numberChar (c : Char) : Bool :=
  c.isDigit || c = '-' || c = '+' || c = '.' || c = 'e' || c = 'E'

def digits : List Char → Option (List Char)
  | c :: s => if c.isDigit then some (s.dropWhile Char.isDigit) else none
  | [] => none

def exponentPart : List Char → Bool
  | [] => true
  | c :: s => (c = 'e' || c = 'E') && match s with
    | '+' :: s => digits s == some []
    | '-' :: s => digits s == some []
    | s => digits s == some []

def fractionPart : List Char → Bool
  | '.' :: s => match digits s with
    | some s => exponentPart s
    | none => false
  | s => exponentPart s

def integerPart : List Char → Bool
  | '0' :: s => fractionPart s
  | c :: s => c.isDigit && fractionPart (s.dropWhile Char.isDigit)
  | [] => false

def isNumber (s : List Char) : Bool :=
  s.all numberChar && match s with
    | '-' :: s => integerPart s
    | s => integerPart s

/-- A number is kept as the literal it is written with, so that only literals
of the JSON grammar can be built. -/
structure Number where
  text : List Char
  valid : isNumber text = true
  deriving DecidableEq

def Number.zero : Number := ⟨['0'], by decide⟩
def Number.one : Number := ⟨['1'], by decide⟩

mutual
inductive Value
  | null
  | bool (b : Bool)
  | num (n : Number)
  | str (s : String)
  | arr (items : Items)
  | obj (fields : Fields)

inductive Items
  | nil
  | cons (v : Value) (rest : Items)

inductive Fields
  | nil
  | cons (key : String) (v : Value) (rest : Fields)
end

def Items.ofList : List Value → Items
  | [] => .nil
  | v :: vs => .cons v (ofList vs)

def Fields.ofList : List (String × Value) → Fields
  | [] => .nil
  | (k, v) :: fs => .cons k v (ofList fs)

/-- Of several members with one key the last one counts, as in `JSON.parse`. -/
def Fields.get (key : String) : Fields → Option Value
  | .nil => none
  | .cons k v rest => match rest.get key with
    | some w => some w
    | none => if k = key then some v else none

def hexDigit (n : Nat) : Char := if n < 10 then Char.ofNat (48 + n) else Char.ofNat (87 + n)

def hexValue (c : Char) : Option Nat :=
  let n := c.toNat
  if 48 ≤ n ∧ n ≤ 57 then some (n - 48)
  else if 97 ≤ n ∧ n ≤ 102 then some (n - 87)
  else if 65 ≤ n ∧ n ≤ 70 then some (n - 55)
  else none

def escape (c : Char) : List Char :=
  if c = '"' then ['\\', '"']
  else if c = '\\' then ['\\', '\\']
  else if c.toNat = 8 then ['\\', 'b']
  else if c.toNat = 12 then ['\\', 'f']
  else if c = '\n' then ['\\', 'n']
  else if c = '\r' then ['\\', 'r']
  else if c = '\t' then ['\\', 't']
  else if c.toNat < 32 then ['\\', 'u', '0', '0', hexDigit (c.toNat / 16), hexDigit (c.toNat % 16)]
  else [c]

def quote (s : String) : List Char := '"' :: s.toList.flatMap escape ++ ['"']

mutual
/-- `JSON.stringify` without indentation. -/
def render : Value → List Char
  | .null => ['n', 'u', 'l', 'l']
  | .bool true => ['t', 'r', 'u', 'e']
  | .bool false => ['f', 'a', 'l', 's', 'e']
  | .num n => n.text
  | .str s => quote s
  | .arr .nil => ['[', ']']
  | .arr (.cons v vs) => '[' :: render v ++ renderItems vs
  | .obj .nil => ['{', '}']
  | .obj (.cons k v fs) => '{' :: quote k ++ ':' :: render v ++ renderFields fs

def renderItems : Items → List Char
  | .nil => [']']
  | .cons v vs => ',' :: render v ++ renderItems vs

def renderFields : Fields → List Char
  | .nil => ['}']
  | .cons k v fs => ',' :: quote k ++ ':' :: render v ++ renderFields fs
end

def isSpace (c : Char) : Bool := c = ' ' || c = '\t' || c = '\n' || c = '\r'

def skip (s : List Char) : List Char := s.dropWhile isSpace

/-- A code unit of an escape that no scalar value has (half of a surrogate
pair) is read as the replacement character. -/
def scalar (n : Nat) : Char := if n.isValidChar then Char.ofNat n else Char.ofNat 0xFFFD

def unescape (c : Char) : Option Char :=
  if c = '"' then some '"'
  else if c = '\\' then some '\\'
  else if c = '/' then some '/'
  else if c = 'b' then some (Char.ofNat 8)
  else if c = 'f' then some (Char.ofNat 12)
  else if c = 'n' then some '\n'
  else if c = 'r' then some '\r'
  else if c = 't' then some '\t'
  else none

def readHex : List Char → Option Char
  | [a, b, c, d] => do
      let a ← hexValue a
      let b ← hexValue b
      let c ← hexValue c
      let d ← hexValue d
      pure (scalar (((a * 16 + b) * 16 + c) * 16 + d))
  | _ => none

/-- The body of a string literal up to and including its closing quote. -/
def readString : List Char → Option (List Char × List Char)
  | [] => none
  | ['\\'] => none
  | '\\' :: 'u' :: a :: b :: c :: d :: s => match readHex [a, b, c, d] with
      | some e => (readString s).map (Prod.map (e :: ·) id)
      | none => none
  | '\\' :: c :: s => match unescape c with
      | some e => (readString s).map (Prod.map (e :: ·) id)
      | none => none
  | c :: s =>
      if c = '"' then some ([], s)
      else if c.toNat < 32 then none
      else (readString s).map (Prod.map (c :: ·) id)

def readNumber (s : List Char) : Option (Number × List Char) :=
  if h : isNumber (s.takeWhile numberChar) = true then
    some (⟨s.takeWhile numberChar, h⟩, s.dropWhile numberChar)
  else none

/-- The rest of the text after the character `c` and the space before it. -/
def expect (c : Char) (s : List Char) : Option (List Char) :=
  match skip s with
  | [] => none
  | d :: s => if d = c then some s else none

def readWord (word : List Char) (v : Value) (s : List Char) : Option (Value × List Char) :=
  if word.isPrefixOf s then some (v, s.drop word.length) else none

mutual
def readValue : Nat → List Char → Option (Value × List Char)
  | 0, _ => none
  | fuel + 1, s => match skip s with
    | [] => none
    | c :: s =>
        if c = '"' then (readString s).map (Prod.map (fun t => .str (String.ofList t)) id)
        else if c = '[' then match expect ']' s with
          | some s => some (.arr .nil, s)
          | none => (readItems fuel s).map (Prod.map .arr id)
        else if c = '{' then match expect '}' s with
          | some s => some (.obj .nil, s)
          | none => (readFields fuel s).map (Prod.map .obj id)
        else if c = 'n' then readWord ['u', 'l', 'l'] .null s
        else if c = 't' then readWord ['r', 'u', 'e'] (.bool true) s
        else if c = 'f' then readWord ['a', 'l', 's', 'e'] (.bool false) s
        else (readNumber (c :: s)).map (Prod.map .num id)

def readItems : Nat → List Char → Option (Items × List Char)
  | 0, _ => none
  | fuel + 1, s => do
      let (v, s) ← readValue fuel s
      match expect ',' s with
      | some s => (readItems fuel s).map (Prod.map (.cons v) id)
      | none => (expect ']' s).map (fun s => (.cons v .nil, s))

def readFields : Nat → List Char → Option (Fields × List Char)
  | 0, _ => none
  | fuel + 1, s => do
      let s ← expect '"' s
      let (k, s) ← readString s
      let s ← expect ':' s
      let (v, s) ← readValue fuel s
      match expect ',' s with
      | some s => (readFields fuel s).map (Prod.map (.cons (String.ofList k) v) id)
      | none => (expect '}' s).map (fun s => (.cons (String.ofList k) v .nil, s))
end

/-- `JSON.parse`. The fuel bounds the depth of the recursion; two units for
each character are always enough for a text that `render` wrote. -/
def parse (s : List Char) : Option Value :=
  match readValue (2 * s.length + 2) s with
  | some (v, rest) => if skip rest = [] then some v else none
  | none => none

end Kross.Json

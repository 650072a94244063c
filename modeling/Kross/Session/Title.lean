import Mathlib.Algebra.GroupWithZero.Nat
import Mathlib.Tactic.Common

namespace Kross.Session

/-- Texts are compared by their characters. -/
instance instLawfulBEqText : LawfulBEq (List Char) := inferInstance

/-- What `\s` matches and `trim` removes. -/
def isWhitespace (c : Char) : Bool :=
  (9 ≤ c.toNat && c.toNat ≤ 13) || c.toNat = 0x20 || c.toNat = 0xa0 || c.toNat = 0x1680 ||
    (0x2000 ≤ c.toNat && c.toNat ≤ 0x200a) || c.toNat = 0x2028 || c.toNat = 0x2029 ||
    c.toNat = 0x202f || c.toNat = 0x205f || c.toNat = 0x3000 || c.toNat = 0xfeff

/-- `replace(/\s+/g, ' ')`; `inside` is a run of white space. -/
def collapse (inside : Bool) : List Char → List Char
  | [] => []
  | c :: s =>
      if isWhitespace c then
        if inside then collapse true s else ' ' :: collapse true s
      else c :: collapse false s

def trimEnd (s : List Char) : List Char := (s.reverse.dropWhile isWhitespace).reverse

def trim (s : List Char) : List Char := trimEnd (s.dropWhile isWhitespace)

/-- The UTF-16 code units of a character. -/
def units (c : Char) : Nat := if c.toNat < 0x10000 then 1 else 2

def length (s : List Char) : Nat := (s.map units).sum

/-- `slice(0, n)`. A surrogate pair that it cuts in two leaves one replacement
character. -/
def slice : List Char → Nat → List Char
  | _, 0 => []
  | [], _ => []
  | c :: s, n => if units c ≤ n then c :: slice s (n - units c) else ['\ufffd']

def truncate (s : List Char) (limit : Nat) : List Char :=
  if length s ≤ limit then s else slice s (limit - 1) ++ ['…']

def normalizeTitle (value : String) : String :=
  String.ofList (truncate (trim (collapse false value.toList)) 80)

end Kross.Session

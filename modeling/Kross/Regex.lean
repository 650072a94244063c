import Mathlib.Data.List.Basic
import Mathlib.Tactic.Common

namespace Kross

/-- Where a matcher stands in a text, and what the groups have captured so far,
the latest first. -/
structure Cursor where
  before : Option Char
  ahead : List Char
  groups : List (Nat × List Char)

/-- The regular expressions of JavaScript that are used here; no group stands
under a `star`. -/
inductive Regex
  | empty
  | one (p : Char → Bool)
  | seq (a b : Regex)
  | alt (a b : Regex)
  | star (a : Regex)
  | group (n : Nat) (a : Regex)
  | start
  | stop
  | boundary

/-- What `\w` matches. -/
def isWord (c : Char) : Bool := c.isAlphanum || c = '_'

def Cursor.atBoundary (c : Cursor) : Bool := c.before.any isWord != c.ahead.head?.any isWord

def Cursor.captured (c : Cursor) (n : Nat) : Option (List Char) := c.groups.lookup n

namespace Regex

/-- A greedy repetition; a round that consumes nothing is given up. -/
def rounds (f : Cursor → List Cursor) : Nat → Cursor → List Cursor
  | 0, c => [c]
  | n + 1, c =>
      (f c).flatMap (fun d => if d.ahead.length < c.ahead.length then rounds f n d else []) ++ [c]

/-- The ends of all ways to match from a place, in the order in which a
backtracking matcher finds them. -/
def runs : Regex → Cursor → List Cursor
  | empty, c => [c]
  | one p, c => match c.ahead with
    | [] => []
    | x :: rest => if p x then [⟨some x, rest, c.groups⟩] else []
  | seq a b, c => (a.runs c).flatMap b.runs
  | alt a b, c => a.runs c ++ b.runs c
  | star a, c => rounds a.runs c.ahead.length c
  | group n a, c => (a.runs c).map (fun d =>
      { d with groups := (n, c.ahead.take (c.ahead.length - d.ahead.length)) :: d.groups })
  | start, c => if c.before.isNone then [c] else []
  | stop, c => if c.ahead.isEmpty then [c] else []
  | boundary, c => if c.atBoundary then [c] else []

/-- The first match at or behind a place: the text at its start, and its end. -/
def search (r : Regex) : Option Char → List Char → Option (List Char × Cursor)
  | before, ahead => match r.runs ⟨before, ahead, []⟩ with
    | c :: _ => some (ahead, c)
    | [] => match ahead with
      | [] => none
      | x :: rest => search r (some x) rest

/-- `exec` of a pattern that is not global: the end of the first match. -/
def exec (r : Regex) (s : List Char) : Option Cursor := (r.search none s).map Prod.snd

def test (r : Regex) (s : List Char) : Bool := (r.search none s).isSome

/-- The ends of the matches of a global pattern, each searched for from the end
of the one before it. -/
def matchesFrom (r : Regex) : Nat → Option Char → List Char → List Cursor
  | 0, _, _ => []
  | n + 1, before, ahead => match r.search before ahead with
    | none => []
    | some (begun, c) =>
        c :: if c.ahead.length < begun.length then matchesFrom r n c.before c.ahead
          else match c.ahead with
            | [] => []
            | x :: rest => matchesFrom r n (some x) rest

def matchAll (r : Regex) (s : List Char) : List Cursor := r.matchesFrom (s.length + 1) none s

def literal : List Char → Regex
  | [] => .empty
  | c :: s => .seq (.one (· = c)) (literal s)

/-- The characters of a text, in either case. -/
def word : List Char → Regex
  | [] => .empty
  | c :: s => .seq (.one (fun x => x.toLower = c.toLower)) (word s)

def sequence : List Regex → Regex
  | [] => .empty
  | [a] => a
  | a :: rest => .seq a (sequence rest)

def choice : List Regex → Regex
  | [] => .one (fun _ => false)
  | [a] => a
  | a :: rest => .alt a (choice rest)

def many (p : Char → Bool) : Regex := .star (.one p)

def several (p : Char → Bool) : Regex := .seq (.one p) (many p)

def optional (a : Regex) : Regex := .alt a .empty

end Regex

end Kross

import Kross.Framing
import Kross.Utf8

namespace Kross.EventStream

/-- `\r?\n` -/
def lineEnd : List Char → Option (List Char)
  | '\n' :: text => some text
  | '\r' :: '\n' :: text => some text
  | _ => none

/-- `/\r?\n\r?\n/`: the text in front of the first match, and the text behind it. -/
def splitBlock : List Char → Option (List Char × List Char)
  | [] => none
  | c :: text =>
    match (lineEnd (c :: text)).bind lineEnd with
    | some rest => some ([], rest)
    | none => (splitBlock text).map (fun split => (c :: split.1, split.2))

/-- `split(/\r?\n/)` -/
def lines : List Char → List (List Char)
  | [] => [[]]
  | '\n' :: text => [] :: lines text
  | '\r' :: '\n' :: text => [] :: lines text
  | c :: text => (lines text).modifyHead (c :: ·)

section Blocks

variable {text rest more block : List Char}

theorem lineEnd_append (h : lineEnd text = some rest) (more : List Char) : lineEnd (text ++ more) = some (rest ++ more) := by
  unfold lineEnd at h
  split at h
  · cases h
    rfl
  · cases h
    rfl
  · cases h

theorem lineEnd_length (h : lineEnd text = some rest) : rest.length < text.length := by
  unfold lineEnd at h
  split at h
  · cases h
    exact Nat.lt_succ_self _
  · cases h
    exact Nat.lt_succ_of_lt (Nat.lt_succ_self _)
  · cases h

theorem blank_append (h : (lineEnd text).bind lineEnd = some rest) (more : List Char) :
    (lineEnd (text ++ more)).bind lineEnd = some (rest ++ more) := by
  obtain ⟨line, hline, hrest⟩ := Option.bind_eq_some_iff.mp h
  rw [lineEnd_append hline more]
  exact lineEnd_append hrest more

theorem blank_length (h : (lineEnd text).bind lineEnd = some rest) : rest.length < text.length := by
  obtain ⟨line, hline, hrest⟩ := Option.bind_eq_some_iff.mp h
  exact Nat.lt_trans (lineEnd_length hrest) (lineEnd_length hline)

theorem splitBlock_length (h : splitBlock text = some (block, rest)) : rest.length < text.length := by
  induction text generalizing block with
  | nil => cases h
  | cons c text ih =>
      rw [splitBlock] at h
      split at h
      next behind hblank =>
        cases h
        exact blank_length hblank
      next =>
        obtain ⟨⟨inner, behind⟩, hinner, hsplit⟩ := Option.map_eq_some_iff.mp h
        obtain ⟨-, rfl⟩ := Prod.mk.inj hsplit
        exact Nat.lt_trans (ih hinner) (Nat.lt_succ_self _)

theorem lineEnd_new (h : lineEnd text = none) (hmore : lineEnd (text ++ more) = some rest) :
    text = [] ∨ text = ['\r'] := by
  rcases text with _ | ⟨c, _ | ⟨d, text⟩⟩
  · exact Or.inl rfl
  · right
    by_cases hc : c = '\r'
    · rw [hc]
    · unfold lineEnd at h hmore
      split at hmore
      · simp_all
      · simp_all
      · cases hmore
  · unfold lineEnd at h hmore
    split at hmore
    · simp_all
    · simp_all
    · cases hmore

/-- Where a blank line has been found behind it, a place does not turn out to begin one. -/
theorem blank_none {c : Char} (h : (lineEnd (c :: text)).bind lineEnd = none) (hsplit : splitBlock text = some (block, rest))
    (more : List Char) : (lineEnd (c :: (text ++ more))).bind lineEnd = none := by
  cases hmore : (lineEnd (c :: (text ++ more))).bind lineEnd with
  | none => rfl
  | some behind =>
      obtain ⟨line, hline, hbehind⟩ := Option.bind_eq_some_iff.mp hmore
      cases hfirst : lineEnd (c :: text) with
      | none =>
          rcases lineEnd_new hfirst hline with hnil | hreturn
          · cases hnil
          · obtain ⟨-, rfl⟩ := List.cons_eq_cons.mp hreturn
            cases hsplit
      | some begun =>
          have hbegun := lineEnd_append hfirst more
          rw [List.cons_append, hline] at hbegun
          obtain rfl := Option.some.inj hbegun
          rw [hfirst] at h
          rcases lineEnd_new h hbehind with rfl | rfl
          all_goals
            unfold lineEnd at hfirst
            split at hfirst
            · simp_all [splitBlock, lineEnd]
            · simp_all [splitBlock, lineEnd]
            · cases hfirst

/-- Text that comes later does not change the first block. -/
theorem splitBlock_append (h : splitBlock text = some (block, rest)) (more : List Char) :
    splitBlock (text ++ more) = some (block, rest ++ more) := by
  induction text generalizing block with
  | nil => cases h
  | cons c text ih =>
      rw [List.cons_append, splitBlock]
      rw [splitBlock] at h
      split at h
      next behind hblank =>
        cases h
        rw [← List.cons_append, blank_append hblank more]
      next hblank =>
        obtain ⟨⟨inner, behind⟩, hinner, hsplit⟩ := Option.map_eq_some_iff.mp h
        obtain ⟨rfl, rfl⟩ := Prod.mk.inj hsplit
        rw [blank_none hblank hinner more, ih hinner]
        rfl

end Blocks

def blocks : Framing Char (List Char) :=
  ⟨splitBlock, splitBlock_length, fun more h => splitBlock_append h more⟩

end Kross.EventStream

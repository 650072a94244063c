import Kross.Tools.Edit

namespace Kross.Tools

open Kross.Finding Kross.Occurrence

variable {edit : NormalizedEdit} {content next text x m y : List Char} {fuel : Nat} {r : Regex}

section Counting

theorem pieces_ne_nil (old : List Char) (fuel : Nat) (text : List Char) : pieces old fuel text ≠ [] := by
  cases fuel with
  | zero => simp [pieces]
  | succ fuel =>
      rw [pieces]
      split <;> simp

theorem length_pieces (edit : NormalizedEdit) (h : text.length ≤ fuel) :
    (pieces edit.oldString fuel text).length = 1 ↔ (exactly edit).first text = none := by
  cases fuel with
  | zero =>
      have hnil : text = [] := List.length_eq_zero_iff.mp (Nat.le_zero.mp h)
      subst hnil
      refine ⟨fun _ => ?_, fun _ => rfl⟩
      by_contra hsome
      obtain ⟨⟨x, m, y⟩, hfirst⟩ := Option.ne_none_iff_exists'.mp hsome
      exact absurd (length_behind hfirst) (by simp)
  | succ fuel =>
      rw [pieces]
      change _ ↔ Option.map _ (cut edit.oldString text) = none
      cases cut edit.oldString text with
      | none => simp
      | some found =>
          have hpos := List.length_pos_iff.mpr (pieces_ne_nil edit.oldString fuel found.2)
          simp only [List.length_cons, Option.map_some, reduceCtorEq, iff_false]
          omega

theorem split_once (h : (exactly edit).first content = some (x, m, y)) :
    ¬1 < (split edit.oldString content).length - 1 ↔ (exactly edit).first y = none := by
  have hlength := length_behind h
  obtain ⟨⟨before, after⟩, hcut, he⟩ := Option.map_eq_some_iff.mp h
  cases he
  rw [split]
  obtain ⟨fuel, hfuel⟩ : ∃ fuel, content.length = fuel + 1 := ⟨content.length - 1, by omega⟩
  rw [hfuel, pieces, hcut]
  have hpos := List.length_pos_iff.mpr (pieces_ne_nil edit.oldString fuel y)
  rw [← length_pieces edit (by omega : y.length ≤ fuel), List.length_cons]
  omega

theorem split_none : (split edit.oldString content).length - 1 = 0 ↔ (exactly edit).first content = none := by
  have hpos := List.length_pos_iff.mpr (pieces_ne_nil edit.oldString content.length content)
  rw [← length_pieces edit le_rfl, split]
  omega

theorem allReplaced_pieces (edit : NormalizedEdit) (h : text.length ≤ fuel) :
    AllReplaced (exactly edit) edit.newString text (edit.newString.intercalate (pieces edit.oldString fuel text)) := by
  induction fuel generalizing text with
  | zero =>
      have hnone := (length_pieces edit h).mp rfl
      rw [pieces, List.intercalate_singleton]
      exact .none text hnone
  | succ fuel ih =>
      rw [pieces]
      cases hcut : cut edit.oldString text with
      | none =>
          rw [List.intercalate_singleton]
          exact .none text (by rw [first_exactly, hcut]; rfl)
      | some found =>
          obtain ⟨before, after⟩ := found
          have hfirst : (exactly edit).first text = some (before, edit.oldString, after) := by
            rw [first_exactly, hcut]
            rfl
          have hlength := length_behind hfirst
          have hrest := ih (show after.length ≤ fuel by omega)
          dsimp only
          rw [List.intercalate_cons_of_ne_nil (pieces_ne_nil _ _ _)]
          exact .some text before edit.oldString after _ hfirst hrest

theorem length_matchesOf (h : text.length < fuel) :
    (matchesOf r fuel text).length = 0 ↔ firstMatch r text = none := by
  obtain ⟨fuel, rfl⟩ : ∃ n, fuel = n + 1 := ⟨fuel - 1, by omega⟩
  rw [matchesOf]
  cases firstMatch r text with
  | none => simp
  | some found => simp

theorem matchesOf_once (h : (relaxed edit).first text = some (x, m, y)) :
    ¬1 < (matchesOf (relaxedPattern false edit.oldString) (text.length + 1) text).length ↔ (relaxed edit).first y = none := by
  have hlength := length_behind h
  change firstMatch _ text = _ at h
  rw [matchesOf, h, List.length_cons]
  change _ ↔ firstMatch _ y = none
  rw [← length_matchesOf hlength]
  omega

theorem replacePattern_first {all : Bool} {new : List Char} (h : firstMatch r text = some (x, m, y))
    (hlast : all = true → firstMatch r y = none) :
    replacePattern r all new (fuel + 1) [] text = x ++ substitute m x y new ++ y := by
  rw [replacePattern, h]
  cases all with
  | false => rfl
  | true =>
      have hrest : ∀ done, replacePattern r true new fuel done y = y := by
        intro done
        cases fuel with
        | zero => rfl
        | succ fuel => rw [replacePattern, hlast rfl]
      change x ++ substitute m ([] ++ x) y new ++ replacePattern r true new fuel _ y = _
      rw [hrest, List.nil_append]

end Counting

section Literal

/-- What is found is replaced, and nothing else: all of it, or the only one there is. -/
structure LiteralStep (content : List Char) (edit : NormalizedEdit) (next : List Char) : Prop where
  all : Occurs (exactly edit) content → edit.replaceAll = true → AllReplaced (exactly edit) edit.newString content next
  exact : Occurs (exactly edit) content → edit.replaceAll = false → OnlyReplaced (exactly edit) edit.newString content next
  relaxed : ¬Occurs (exactly edit) content → OnlyReplaced (relaxed edit) edit.newString content next

/-- The new text means itself where it is put. -/
def StandsForItself (f : Finder Char) (content new : List Char) : Prop :=
  ∀ x m y, f.first content = some (x, m, y) → substitute m x y new = new

/-- No two places share a character, the new text has no meaning beyond itself, and a
relaxed match is the only one, for `replace_all` as well. -/
structure PlainStep (content : List Char) (edit : NormalizedEdit) : Prop where
  exact : Occurs (exactly edit) content → edit.replaceAll = false →
    ¬Overlapping (exactly edit) content ∧ StandsForItself (exactly edit) content edit.newString
  relaxed : ¬Occurs (exactly edit) content →
    ¬Overlapping (relaxed edit) content ∧ StandsForItself (relaxed edit) content edit.newString ∧
      (edit.replaceAll = true → ∀ x m y, (relaxed edit).first content = some (x, m, y) → (relaxed edit).first y = none)

theorem literal_iff_of_exact (hfirst : (exactly edit).first content = some (x, m, y)) (h : editStep content edit = .ok next) :
    LiteralStep content edit next ↔ PlainStep content edit := by
  have hoccurs : Occurs (exactly edit) content := occurs_iff.mpr (by simp [hfirst])
  have hcount : ¬(split edit.oldString content).length - 1 = 0 := fun hzero => by
    rw [split_none.mp hzero] at hfirst
    cases hfirst
  rw [editStep] at h
  rw [if_neg hcount] at h
  by_cases hall : edit.replaceAll = true
  · rw [if_neg (by simp [hall]), if_pos hall] at h
    cases h
    have hreplaced : AllReplaced (exactly edit) edit.newString content
        (replaceAllText content edit.oldString edit.newString) := allReplaced_pieces edit le_rfl
    constructor
    · intro _
      exact ⟨fun _ hnot => absurd hall (by simp [hnot]), fun hnot => absurd hoccurs hnot⟩
    · intro _
      exact ⟨fun _ _ => hreplaced, fun _ hnot => absurd hall (by simp [hnot]), fun hnot => absurd hoccurs hnot⟩
  · have hone : edit.replaceAll = false := by simpa using hall
    by_cases hmany : 1 < (split edit.oldString content).length - 1
    · rw [if_pos ⟨hmany, hone⟩] at h
      cases h
    rw [if_neg (fun hboth => hmany hboth.1), if_neg hall] at h
    cases h
    have hlast := (split_once hfirst).mp hmany
    have hnext : replaceText content edit.oldString edit.newString = x ++ substitute m x y edit.newString ++ y := by
      obtain ⟨⟨before, after⟩, hcut, he⟩ := Option.map_eq_some_iff.mp hfirst
      cases he
      rw [replaceText, hcut]
    rw [hnext]
    have hiff : OnlyReplaced (exactly edit) edit.newString content (x ++ substitute m x y edit.newString ++ y) ↔
        ¬Overlapping (exactly edit) content ∧ substitute m x y edit.newString = edit.newString := onlyReplaced_iff hfirst hlast
    constructor
    · intro hliteral
      obtain ⟨hoverlap, hself⟩ := hiff.mp (hliteral.exact hoccurs hone)
      refine ⟨fun _ _ => ⟨hoverlap, fun x' m' y' hfirst' => ?_⟩, fun hnot => absurd hoccurs hnot⟩
      cases hfirst.symm.trans hfirst'
      exact hself
    · intro hplain
      obtain ⟨hoverlap, hself⟩ := hplain.exact hoccurs hone
      exact ⟨fun _ hnot => absurd hnot hall, fun _ _ => hiff.mpr ⟨hoverlap, hself x m y hfirst⟩,
        fun hnot => absurd hoccurs hnot⟩

theorem literal_iff_of_relaxed (hnone : (exactly edit).first content = none) (h : editStep content edit = .ok next) :
    LiteralStep content edit next ↔ PlainStep content edit := by
  have hnot : ¬Occurs (exactly edit) content := fun hoccurs => occurs_iff.mp hoccurs hnone
  rw [editStep] at h
  rw [if_pos (split_none.mpr hnone)] at h
  cases hrelaxed : tryRelaxedReplace content edit with
  | none =>
      rw [hrelaxed] at h
      cases h
  | some replaced =>
      rw [hrelaxed] at h
      cases h
      rw [tryRelaxedReplace] at hrelaxed
      dsimp only at hrelaxed
      split_ifs at hrelaxed with _ hzero hmany hsame
      cases hrelaxed
      have hsome : firstMatch (relaxedPattern false edit.oldString) content ≠ none := fun hfirst =>
        hzero ((length_matchesOf (Nat.lt_succ_self _)).mpr hfirst)
      obtain ⟨⟨x, m, y⟩, hfirst⟩ := Option.ne_none_iff_exists'.mp hsome
      by_cases hlast : (relaxed edit).first y = none
      · rw [replacePattern_first hfirst (fun _ => hlast)]
        have hiff : OnlyReplaced (relaxed edit) edit.newString content (x ++ substitute m x y edit.newString ++ y) ↔
            ¬Overlapping (relaxed edit) content ∧ substitute m x y edit.newString = edit.newString :=
          onlyReplaced_iff hfirst hlast
        constructor
        · intro hliteral
          obtain ⟨hoverlap, hself⟩ := hiff.mp (hliteral.relaxed hnot)
          refine ⟨fun hoccurs => absurd hoccurs hnot, fun _ => ⟨hoverlap, fun x' m' y' hfirst' => ?_, fun _ x' m' y' hfirst' => ?_⟩⟩
          · cases hfirst.symm.trans hfirst'
            exact hself
          · cases hfirst.symm.trans hfirst'
            exact hlast
        · intro hplain
          obtain ⟨hoverlap, hself, -⟩ := hplain.relaxed hnot
          exact ⟨fun hoccurs => absurd hoccurs hnot, fun hoccurs => absurd hoccurs hnot,
            fun _ => hiff.mpr ⟨hoverlap, hself x m y hfirst⟩⟩
      · have hall : edit.replaceAll = true := by
          by_contra hone
          exact hmany ⟨not_not.mp (fun hle => hlast ((matchesOf_once hfirst).mp hle)), by simpa using hone⟩
        constructor
        · intro hliteral
          exact absurd (hliteral.relaxed hnot) (not_onlyReplaced hfirst hlast)
        · intro hplain
          exact absurd ((hplain.relaxed hnot).2.2 hall x m y hfirst) hlast

theorem literal_iff (h : editStep content edit = .ok next) : LiteralStep content edit next ↔ PlainStep content edit := by
  cases hfirst : (exactly edit).first content with
  | none => exact literal_iff_of_relaxed hfirst h
  | some found => exact literal_iff_of_exact hfirst h

end Literal

section Edits

/-- Every edit in turn does what `P` says to the text that the ones before it leave. -/
def EachEdit (P : List Char → NormalizedEdit → List Char → Prop) : List Char → List NormalizedEdit → Prop
  | _, [] => True
  | content, edit :: edits => ∀ next, editStep content edit = .ok next → P content edit next ∧ EachEdit P next edits

variable {original result : List Char} {edits : List NormalizedEdit}

theorem eachEdit_congr {P Q : List Char → NormalizedEdit → List Char → Prop}
    (h : ∀ content edit next, editStep content edit = .ok next → (P content edit next ↔ Q content edit next)) :
    EachEdit P content edits ↔ EachEdit Q content edits := by
  induction edits generalizing content with
  | nil => exact Iff.rfl
  | cons edit edits ih =>
      refine forall_congr' (fun next => forall_congr' (fun hnext => ?_))
      rw [h content edit next hnext, ih]

/-- What `Edit` promises of a text that it writes: it is what the edits make, one after
the other. -/
structure Edited (original : List Char) (edits : List NormalizedEdit) (result : List Char) : Prop where
  applied : edits.foldlM editStep original = .ok result
  literal : EachEdit LiteralStep original edits

theorem edited_iff (h : executeEdit original edits = some result) :
    Edited original edits result ↔ EachEdit (fun content edit _ => PlainStep content edit) original edits := by
  have happlied : edits.foldlM editStep original = .ok result := by
    rw [executeEdit] at h
    split at h
    · cases h
    · rename_i content hcontent
      split_ifs at h
      cases h
      exact hcontent
  rw [← eachEdit_congr (fun content edit next hnext => literal_iff hnext)]
  exact ⟨fun hedited => hedited.literal, fun hliteral => ⟨happlied, hliteral⟩⟩

/-- The text of `old` becomes `new` wherever it stands alone. -/
def swap (old new : String) (old_ne : old.toList ≠ []) : NormalizedEdit := ⟨old.toList, new.toList, false, old_ne⟩

theorem whole_occurrence (edit : NormalizedEdit) (h : edit.oldString = x ++ m ++ y) (hm : (exactly edit).Kind m) : x = [] ∧ m = edit.oldString := by
  have hm : m = edit.oldString := hm
  have hlength := congrArg List.length h
  rw [hm] at hlength
  simp only [List.length_append] at hlength
  exact ⟨List.length_eq_zero_iff.mp (by omega), hm⟩

/-- A text that is replaced as a whole. -/
theorem edited_iff_whole : Edited "old".toList [swap "old" "new" (by decide)] "new".toList :=
  (edited_iff (show executeEdit "old".toList [swap "old" "new" (by decide)] = some "new".toList by decide)).mpr (by
    intro next _
    refine ⟨⟨fun _ _ => ⟨?_, fun x m y _ => rfl⟩, fun hnot => absurd ⟨[], "old".toList, [], rfl, rfl⟩ hnot⟩, trivial⟩
    rintro ⟨x, m, y, x', m', y', ⟨h, hm⟩, ⟨h', hm'⟩, hne, -⟩
    obtain ⟨rfl, rfl⟩ := whole_occurrence _ h hm
    obtain ⟨rfl, rfl⟩ := whole_occurrence _ h' hm'
    exact hne rfl)

/-- One of the two dollar signs is lost. -/
theorem dollar_not_edited : executeEdit "cost".toList [swap "cost" "$$5" (by decide)] = some "$5".toList ∧
    ¬Edited "cost".toList [swap "cost" "$$5" (by decide)] "$5".toList := by
  refine ⟨by decide, fun h => ?_⟩
  have hnext : editStep "cost".toList (swap "cost" "$$5" (by decide)) = .ok "$5".toList := by decide
  obtain ⟨x, m, y, ⟨htext, hm⟩, hresult, -⟩ := (h.literal _ hnext).1.exact ⟨[], "cost".toList, [], rfl, rfl⟩ rfl
  obtain ⟨rfl, rfl⟩ := whole_occurrence _ htext hm
  exact absurd (congrArg List.length hresult) (by simp [swap])

end Edits

end Kross.Tools

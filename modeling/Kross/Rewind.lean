import Mathlib.Data.Set.Basic
import Mathlib.Data.List.Induction

namespace Kross.Rewind

variable {K V : Type}

/-- A recorded change: the keys it is about, and what stood there before and
after it. -/
structure Change (K V : Type) where
  touched : Set K
  before : K → V
  after : K → V

open Classical in
/-- The state the changes were made on, as far as they know it: a key shows
what the first change that touched it found. -/
noncomputable def rewind : List (Change K V) → (K → V) → K → V
  | [], v => v
  | c :: cs, v => fun k => if k ∈ c.touched then c.before k else rewind cs v k

open Classical in
/-- The state the changes leave: a key shows what the last change that touched
it left. -/
noncomputable def replay (cs : List (Change K V)) (v : K → V) : K → V :=
  cs.foldl (fun v c k => if k ∈ c.touched then c.after k else v k) v

def TouchedBy (cs : List (Change K V)) (k : K) : Prop := ∃ c ∈ cs, k ∈ c.touched

variable {c : Change K V} {cs ds : List (Change K V)} {v : K → V} {k : K}

@[simp] theorem rewind_nil : rewind [] v = v := rfl

theorem rewind_of_mem (h : k ∈ c.touched) : rewind (c :: cs) v k = c.before k := by
  simp [rewind, h]

theorem rewind_of_notMem (h : k ∉ c.touched) : rewind (c :: cs) v k = rewind cs v k := by
  simp [rewind, h]

theorem touchedBy_cons : TouchedBy (c :: cs) k ↔ k ∈ c.touched ∨ TouchedBy cs k := by
  simp [TouchedBy]

theorem touchedBy_append : TouchedBy (cs ++ ds) k ↔ TouchedBy cs k ∨ TouchedBy ds k := by
  simp [TouchedBy, or_and_right, exists_or]

theorem rewind_untouched (h : ¬ TouchedBy cs k) : rewind cs v k = v k := by
  induction cs with
  | nil => rfl
  | cons c cs ih =>
      rw [touchedBy_cons, not_or] at h
      rw [rewind_of_notMem h.1, ih h.2]

theorem rewind_touched (h : TouchedBy cs k) (v w : K → V) : rewind cs v k = rewind cs w k := by
  induction cs with
  | nil => simp [TouchedBy] at h
  | cons c cs ih =>
      by_cases hc : k ∈ c.touched
      · rw [rewind_of_mem hc, rewind_of_mem hc]
      · rw [rewind_of_notMem hc, rewind_of_notMem hc]
        exact ih ((touchedBy_cons.mp h).resolve_left hc)

theorem rewind_first (hc : k ∈ c.touched) (h : ¬ TouchedBy cs k) :
    rewind (cs ++ c :: ds) v k = c.before k := by
  induction cs with
  | nil => exact rewind_of_mem hc
  | cons d cs ih =>
      rw [touchedBy_cons, not_or] at h
      rw [List.cons_append, rewind_of_notMem h.1, ih h.2]

@[simp] theorem replay_nil : replay [] v = v := rfl

theorem replay_concat_of_mem (h : k ∈ c.touched) : replay (cs ++ [c]) v k = c.after k := by
  simp [replay, List.foldl_append, h]

theorem replay_concat_of_notMem (h : k ∉ c.touched) : replay (cs ++ [c]) v k = replay cs v k := by
  simp [replay, List.foldl_append, h]

theorem replay_untouched (h : ¬ TouchedBy cs k) : replay cs v k = v k := by
  induction cs using List.reverseRecOn with
  | nil => rfl
  | append_singleton cs c ih =>
      rw [touchedBy_append, not_or] at h
      have hc : k ∉ c.touched := fun hc => h.2 ⟨c, List.mem_singleton.mpr rfl, hc⟩
      rw [replay_concat_of_notMem hc, ih h.1]

theorem replay_cons_untouched (h : ¬ TouchedBy cs k) (hc : k ∈ c.touched) :
    replay (c :: cs) v k = c.after k := by
  change replay cs _ k = _
  rw [replay_untouched h]
  exact if_pos hc

/-- One step of a history: a recorded change, or anything else that happens to
the state. -/
inductive Event (K V : Type)
  | change (c : Change K V)
  | drift (before after : K → V)

namespace Event

def touched : Event K V → Set K
  | .change c => c.touched
  | .drift _ _ => ∅

def before : Event K V → K → V
  | .change c => c.before
  | .drift u _ => u

def after : Event K V → K → V
  | .change c => c.after
  | .drift _ u => u

end Event

def changes (es : List (Event K V)) : List (Change K V) :=
  es.filterMap (fun e => match e with
    | .change c => some c
    | .drift _ _ => none)

theorem touchedBy_changes {es : List (Event K V)} :
    TouchedBy (changes es) k ↔ ∃ e ∈ es, k ∈ e.touched := by
  simp only [TouchedBy, changes, List.mem_filterMap]
  constructor
  · rintro ⟨c, ⟨e, he, hc⟩, hk⟩
    cases e with
    | change d =>
        cases hc
        exact ⟨_, he, hk⟩
    | drift u w => simp at hc
  · rintro ⟨e, he, hk⟩
    cases e with
    | change c => exact ⟨c, ⟨_, he, rfl⟩, hk⟩
    | drift u w => simp [Event.touched] at hk

/-- The states of a history follow one another, and what a step does at `k`
when it is not about it only grows. -/
inductive Chain (le : V → V → Prop) (k : K) : (K → V) → List (Event K V) → (K → V) → Prop
  | nil (s : K → V) : Chain le k s [] s
  | cons (e : Event K V) (es : List (Event K V)) (t : K → V)
      (hle : k ∉ e.touched → le (e.before k) (e.after k)) (hes : Chain le k e.after es t) :
      Chain le k e.before (e :: es) t

variable {le : V → V → Prop} {es : List (Event K V)} {s t : K → V}

theorem Chain.concat {e : Event K V} (h : Chain le k s es e.before)
    (hle : k ∉ e.touched → le (e.before k) (e.after k)) : Chain le k s (es ++ [e]) e.after := by
  generalize ht : e.before = t at h
  induction h with
  | nil s =>
      subst ht
      exact .cons e [] e.after hle (.nil _)
  | cons d ds t hd hds ih => exact .cons d (ds ++ [e]) _ hd (ih ht)

theorem changes_cons (e : Event K V) (es : List (Event K V)) :
    changes (e :: es) = changes [e] ++ changes es := by
  cases e <;> simp [changes]

theorem rewind_changes_cons (e : Event K V) (es : List (Event K V)) (v : K → V) (k : K) :
    (k ∈ e.touched → rewind (changes (e :: es)) v k = e.before k) ∧
      (k ∉ e.touched → rewind (changes (e :: es)) v k = rewind (changes es) v k) := by
  cases e with
  | change c => exact ⟨fun h => rewind_of_mem h, fun h => rewind_of_notMem h⟩
  | drift u w => exact ⟨fun h => absurd h (Set.notMem_empty k), fun _ => rfl⟩

/-- Rewinding a history from its end leads to a state grown from its start. -/
theorem Chain.le_rewind (hrefl : ∀ x, le x x) (htrans : ∀ x y z, le x y → le y z → le x z)
    (h : Chain le k s es t) : le (s k) (rewind (changes es) t k) := by
  induction h with
  | nil s => exact hrefl _
  | cons e es t hle hes ih =>
      by_cases hk : k ∈ e.touched
      · rw [(rewind_changes_cons e es t k).1 hk]
        exact hrefl _
      · rw [(rewind_changes_cons e es t k).2 hk]
        exact htrans _ _ _ (hle hk) ih

/-- Nothing changes `k` before the first change that touches it. -/
def SettledBefore (es : List (Event K V)) (k : K) : Prop :=
  ∀ a e b, es = a ++ e :: b → (∀ d ∈ a, k ∉ d.touched) → k ∉ e.touched → e.before k = e.after k

/-- Nothing changes `k` after the last change that touches it. -/
def SettledAfter (es : List (Event K V)) (k : K) : Prop :=
  ∀ a e b, es = a ++ e :: b → (∀ d ∈ b, k ∉ d.touched) → k ∉ e.touched → e.before k = e.after k

theorem SettledBefore.tail {e : Event K V} (h : SettledBefore (e :: es) k) (he : k ∉ e.touched) :
    SettledBefore es k := by
  intro a d b hes ha
  refine h (e :: a) d b (by rw [hes, List.cons_append]) (fun f hf => ?_)
  rcases List.mem_cons.mp hf with rfl | hf
  · exact he
  · exact ha f hf

theorem SettledAfter.tail {e : Event K V} (h : SettledAfter (e :: es) k) : SettledAfter es k :=
  fun a d b hes => h (e :: a) d b (by rw [hes, List.cons_append])

theorem Chain.rewind_eq (h : Chain le k s es t) (hd : SettledBefore es k)
    (ht : TouchedBy (changes es) k) : rewind (changes es) t k = s k := by
  induction h with
  | nil s => simp [TouchedBy, changes] at ht
  | cons e es t hle hes ih =>
      by_cases hk : k ∈ e.touched
      · exact (rewind_changes_cons e es t k).1 hk
      · have ht' : TouchedBy (changes es) k := by
          obtain ⟨d, hd', hkd⟩ := touchedBy_changes.mp ht
          rcases List.mem_cons.mp hd' with rfl | hd'
          · exact absurd hkd hk
          · exact touchedBy_changes.mpr ⟨d, hd', hkd⟩
        rw [(rewind_changes_cons e es t k).2 hk, ih (hd.tail hk) ht']
        exact (hd [] e es rfl (by simp) hk).symm

theorem Chain.end_eq (h : Chain le k s es t) (hd : SettledAfter es k)
    (ht : ¬ TouchedBy (changes es) k) : t k = s k := by
  have hno : ∀ d ∈ es, k ∉ d.touched := fun d hd hk => ht (touchedBy_changes.mpr ⟨d, hd, hk⟩)
  induction h with
  | nil s => rfl
  | cons e es t hle hes ih =>
      have hno' : ∀ d ∈ es, k ∉ d.touched := fun d hd => hno d (List.mem_cons_of_mem _ hd)
      rw [ih hd.tail (fun h => by
        obtain ⟨d, hd', hk⟩ := touchedBy_changes.mp h
        exact hno' d hd' hk) hno']
      exact (hd [] e es rfl hno' (hno e List.mem_cons_self)).symm

theorem Chain.replay_eq (h : Chain le k s es t) (hd : SettledAfter es k)
    (ht : TouchedBy (changes es) k) (v : K → V) : replay (changes es) v k = t k := by
  induction h generalizing v with
  | nil s => simp [TouchedBy, changes] at ht
  | cons e es t hle hes ih =>
      by_cases hk : TouchedBy (changes es) k
      · cases e with
        | change c => exact ih hd.tail hk _
        | drift u w => exact ih hd.tail hk v
      · rw [hes.end_eq hd.tail hk]
        obtain ⟨d, hd', hkd⟩ := touchedBy_changes.mp ht
        rcases List.mem_cons.mp hd' with rfl | hd'
        · cases d with
          | change c => exact replay_cons_untouched hk hkd
          | drift u w => exact absurd hkd (Set.notMem_empty k)
        · exact absurd (touchedBy_changes.mpr ⟨d, hd', hkd⟩) hk

theorem Chain.split {a b : List (Event K V)} {e : Event K V} (h : Chain le k s (a ++ e :: b) t) :
    Chain le k s a e.before ∧ (k ∉ e.touched → le (e.before k) (e.after k)) ∧
      Chain le k e.after b t := by
  induction a generalizing s with
  | nil =>
      cases h with
      | cons _ _ _ hle hes => exact ⟨.nil _, hle, hes⟩
  | cons d a ih =>
      cases h with
      | cons _ _ _ hle hes =>
          obtain ⟨h1, h2, h3⟩ := ih hes
          exact ⟨.cons d a _ hle h1, h2, h3⟩

theorem changes_append (a b : List (Event K V)) : changes (a ++ b) = changes a ++ changes b :=
  List.filterMap_append

theorem changes_eq_append {ds₁ ds₂ : List (Change K V)} (h : changes es = ds₁ ++ c :: ds₂) :
    ∃ a b, es = a ++ .change c :: b ∧ changes a = ds₁ ∧ changes b = ds₂ := by
  induction es generalizing ds₁ with
  | nil => simp [changes] at h
  | cons e es ih =>
      rw [changes_cons] at h
      cases e with
      | drift u w =>
          obtain ⟨a, b, rfl, ha, hb⟩ := ih h
          exact ⟨.drift u w :: a, b, rfl, by rw [changes_cons, ha]; rfl, hb⟩
      | change d =>
          cases ds₁ with
          | nil =>
              obtain ⟨rfl, hes⟩ := List.cons.inj h
              exact ⟨[], es, rfl, rfl, hes⟩
          | cons d' ds₁ =>
              obtain ⟨rfl, hes⟩ := List.cons.inj h
              obtain ⟨a, b, rfl, ha, hb⟩ := ih hes
              exact ⟨.change d :: a, b, rfl, by rw [changes_cons, ha]; rfl, hb⟩

theorem not_touchedBy_changes (h : ∀ e ∈ es, k ∉ e.touched) : ¬ TouchedBy (changes es) k := by
  intro ht
  obtain ⟨e, he, hk⟩ := touchedBy_changes.mp ht
  exact h e he hk

theorem rewind_append_untouched (h : ¬ TouchedBy cs k) : rewind (cs ++ ds) v k = rewind ds v k := by
  induction cs with
  | nil => rfl
  | cons c cs ih =>
      rw [touchedBy_cons, not_or] at h
      rw [List.cons_append, rewind_of_notMem h.1, ih h.2]

theorem replay_append_untouched (h : ¬ TouchedBy ds k) : replay (cs ++ ds) v k = replay cs v k := by
  have hsplit : replay (cs ++ ds) v = replay ds (replay cs v) := by
    rw [replay, List.foldl_append]
    rfl
  rw [hsplit, replay_untouched h]

/-- Only a key that is settled is rewound to what it was. -/
theorem Chain.settledBefore (hrefl : ∀ x, le x x) (htrans : ∀ x y z, le x y → le y z → le x z)
    (hanti : ∀ x y, le x y → le y x → x = y) (h : Chain le k s es t)
    (hk : rewind (changes es) t k = s k) : SettledBefore es k := by
  rintro a e b rfl ha he
  obtain ⟨h1, h2, h3⟩ := h.split
  have hno := not_touchedBy_changes ha
  have hle1 := h1.le_rewind hrefl htrans
  rw [rewind_untouched hno] at hle1
  have hle3 := h3.le_rewind hrefl htrans
  rw [changes_append, rewind_append_untouched hno, (rewind_changes_cons e b t k).2 he] at hk
  rw [hk] at hle3
  exact hanti _ _ (h2 he) (htrans _ _ _ hle3 hle1)

theorem Chain.le_end (hrefl : ∀ x, le x x) (htrans : ∀ x y z, le x y → le y z → le x z)
    (h : Chain le k s es t) (ht : ¬ TouchedBy (changes es) k) : le (s k) (t k) := by
  have hle := h.le_rewind hrefl htrans
  rwa [rewind_untouched ht] at hle

/-- What the last change that touched a key left there has only grown. -/
theorem Chain.replay_le (hrefl : ∀ x, le x x) (htrans : ∀ x y z, le x y → le y z → le x z)
    (h : Chain le k s es t) (ht : TouchedBy (changes es) k) (v : K → V) :
    le (replay (changes es) v k) (t k) := by
  induction h generalizing v with
  | nil s => simp [TouchedBy, changes] at ht
  | cons e es t hle hes ih =>
      by_cases hk : TouchedBy (changes es) k
      · cases e with
        | change c => exact ih hk _
        | drift u w => exact ih hk v
      · obtain ⟨d, hd', hkd⟩ := touchedBy_changes.mp ht
        rcases List.mem_cons.mp hd' with rfl | hd'
        · cases d with
          | drift u w => exact absurd hkd (Set.notMem_empty k)
          | change c =>
              have hle' := hes.le_end hrefl htrans hk
              rwa [show replay (changes (.change c :: es)) v k = c.after k from
                replay_cons_untouched hk hkd]
        · exact absurd (touchedBy_changes.mpr ⟨d, hd', hkd⟩) hk

/-- Only a key that is settled still shows what the last change left. -/
theorem Chain.settledAfter (hrefl : ∀ x, le x x) (htrans : ∀ x y z, le x y → le y z → le x z)
    (hanti : ∀ x y, le x y → le y x → x = y) (h : Chain le k s es t) {v : K → V}
    (ht : TouchedBy (changes es) k) (hk : replay (changes es) v k = t k) : SettledAfter es k := by
  rintro a e b rfl hb he
  obtain ⟨h1, h2, h3⟩ := h.split
  have hno : ¬ TouchedBy (changes (e :: b)) k := not_touchedBy_changes (fun d hd => by
    rcases List.mem_cons.mp hd with rfl | hd
    · exact he
    · exact hb d hd)
  rw [changes_append, replay_append_untouched hno] at hk
  have hta : TouchedBy (changes a) k := by
    rw [changes_append, touchedBy_append] at ht
    exact ht.resolve_right hno
  have hle1 := h1.replay_le hrefl htrans hta v
  rw [hk] at hle1
  exact hanti _ _ (h2 he) (htrans _ _ _ (h3.le_end hrefl htrans (not_touchedBy_changes hb)) hle1)

end Kross.Rewind

import Kross.Run
import Mathlib.Data.List.Nodup

namespace Kross

/-- A queue whose head is sent while the queue may change. `posted` holds what
was sent so far, oldest first. -/
structure Outbox (α : Type*) where
  queue : List α
  inFlight : Option α
  posted : List α

namespace Outbox

variable {α : Type*}

inductive Move (α : Type*)
  | push (a : α)
  | prepend (a : α)
  | clear
  | post
  | settle
  | abandon

def Move.adds : Move α → Option α
  | .push a | .prepend a => some a
  | _ => none

def post (o : Outbox α) : Outbox α :=
  match o.queue with
  | [] => o
  | a :: _ => { o with inFlight := some a, posted := o.posted ++ [a] }

def next (o : Outbox α) : Move α → Outbox α
  | .push a => { o with queue := o.queue ++ [a] }
  | .prepend a => { o with queue := a :: o.queue }
  | .clear => { o with queue := [] }
  | .post => o.post
  | .settle => { o with queue := o.queue.tail, inFlight := none }
  | .abandon => { o with inFlight := none }

/-- What is taken off the queue is what was in flight. -/
def Settles (o : Outbox α) : Prop := o.queue = [] ∨ o.queue.head? = o.inFlight

structure Sound (o : Outbox α) (m : Move α) : Prop where
  fresh : ∀ a, m.adds = some a → a ∉ o.queue
  settles : m = .settle → o.Settles

structure Tidy (o : Outbox α) : Prop where
  nodup : o.queue.Nodup
  flown : ∀ a, o.inFlight = some a → a ∈ o.posted

variable {o : Outbox α} {m : Move α} {a b : α}

theorem post_queue (o : Outbox α) : o.post.queue = o.queue := by
  rw [post]
  split <;> rfl

theorem post_cases (o : Outbox α) :
    o.post = o ∨ ∃ a t, o.queue = a :: t ∧
      o.post = { o with inFlight := some a, posted := o.posted ++ [a] } := by
  rw [post]
  split
  · exact Or.inl rfl
  · exact Or.inr ⟨_, _, by assumption, rfl⟩

theorem posted_next (o : Outbox α) (m : Move α) (h : a ∈ o.posted) : a ∈ (o.next m).posted := by
  cases m with
  | post =>
      rcases o.post_cases with he | ⟨c, t, -, he⟩ <;> rw [next, he]
      · exact h
      · exact List.mem_append_left _ h
  | push | prepend | clear | settle | abandon => exact h

theorem nodup_next (hn : o.queue.Nodup) (hf : ∀ a, m.adds = some a → a ∉ o.queue) :
    (o.next m).queue.Nodup := by
  cases m with
  | push a =>
      have h := List.Nodup.concat (hf a rfl) hn
      rwa [List.concat_eq_append] at h
  | prepend a => exact List.nodup_cons.mpr ⟨hf a rfl, hn⟩
  | clear => exact List.nodup_nil
  | post => rwa [next, post_queue]
  | settle => exact hn.tail
  | abandon => exact hn

theorem flown_next (h : ∀ a, o.inFlight = some a → a ∈ o.posted) :
    ∀ a, (o.next m).inFlight = some a → a ∈ (o.next m).posted := by
  intro a ha
  cases m with
  | post =>
      rcases o.post_cases with he | ⟨c, t, -, he⟩ <;> rw [next, he] at ha ⊢
      · exact h a ha
      · cases ha
        exact List.mem_append_right _ (List.mem_singleton_self _)
  | settle | abandon => cases ha
  | push | prepend | clear => exact h a ha

theorem Tidy.next (h : o.Tidy) (hf : ∀ a, m.adds = some a → a ∉ o.queue) : (o.next m).Tidy :=
  ⟨nodup_next h.nodup hf, flown_next h.flown⟩

/-- Only a sound settling or `clear` takes something off the queue. -/
theorem kept_next (ha : a ∈ o.queue) (hs : m = .settle → o.Settles) (hc : m ≠ .clear)
    (hown : m = .settle → o.inFlight ≠ some a) : a ∈ (o.next m).queue := by
  cases m with
  | push b => exact List.mem_append_left _ ha
  | prepend b => exact List.mem_cons_of_mem _ ha
  | clear => exact absurd rfl hc
  | post => rwa [Outbox.next, post_queue]
  | abandon => exact ha
  | settle =>
      rcases hs rfl with he | he
      · rw [he] at ha
        cases ha
      · rcases List.exists_cons_of_ne_nil (List.ne_nil_of_mem ha) with ⟨c, t, hq⟩
        rw [hq] at ha he
        rcases List.mem_cons.mp ha with rfl | ht
        · exact absurd he.symm (hown rfl)
        · rwa [Outbox.next, hq]

/-- An unsound settling loses the head, which was not in flight. -/
theorem lost_of_not_settles (hn : o.queue.Nodup) (h : ¬ o.Settles) :
    ∃ a ∈ o.queue, o.inFlight ≠ some a ∧ a ∉ o.queue.tail := by
  rw [Settles, not_or] at h
  obtain ⟨a, t, hq⟩ := List.exists_cons_of_ne_nil h.1
  rw [hq] at h hn ⊢
  exact ⟨a, List.mem_cons_self, fun he => h.2 he.symm, (List.nodup_cons.mp hn).1⟩

/-- `b` is sent for the first time after `a`. -/
def First (a b : α) (posted : List α) : Prop :=
  ∀ earlier later, posted = earlier ++ b :: later → a ∈ earlier

theorem first_of_notMem {posted : List α} (h : b ∉ posted) : First a b posted := by
  rintro earlier later rfl
  exact absurd (by simp) h

theorem First.concat {posted : List α} {c : α} (h : First a b posted) (hc : c = b → a ∈ posted) :
    First a b (posted ++ [c]) := by
  intro earlier later he
  rcases List.append_eq_append_iff.mp he with ⟨t, rfl, ht⟩ | ⟨t, rfl, ht⟩
  · cases t with
    | nil =>
        cases ht
        rw [List.append_nil]
        exact hc rfl
    | cons d t =>
        obtain ⟨-, ht⟩ := List.cons.inj ht
        simp at ht
  · cases t with
    | nil =>
        cases ht
        have := hc rfl
        rwa [List.append_nil] at this
    | cons d t =>
        obtain ⟨rfl, -⟩ := List.cons.inj ht
        exact h earlier t rfl

/-- `a` was sent, or stands before `b`, or `b` is no longer there. -/
structure Ahead (a b : α) (o : Outbox α) : Prop where
  place : a ∈ o.posted ∨ [a, b].Sublist o.queue ∨ b ∉ o.queue
  first : First a b o.posted

theorem sublist_pair_cons {c : α} {t : List α} (h : [a, b].Sublist (c :: t)) :
    a = c ∨ [a, b].Sublist t := by
  cases h with
  | cons _ h => exact Or.inr h
  | cons_cons _ _ => exact Or.inl rfl

theorem not_before_head {t : List α} (hb : b ∉ t) : ¬ [a, b].Sublist (b :: t) := by
  intro h
  cases h with
  | cons _ h => exact hb (h.subset (by simp))
  | cons_cons _ h => exact hb (h.subset (by simp))

theorem Ahead.next (h : Ahead a b o) (ho : o.Tidy) (hm : Sound o m) (hb : m.adds ≠ some b) :
    Ahead a b (o.next m) := by
  have hp := fun ha : a ∈ o.posted => posted_next o m ha
  cases m with
  | push c =>
      refine ⟨h.place.imp_right (Or.imp (fun hs => hs.trans (List.sublist_append_left _ _)) ?_), h.first⟩
      intro hq hm
      rcases List.mem_append.mp hm with hm | hm
      · exact hq hm
      · exact hb (congrArg some (List.mem_singleton.mp hm).symm)
  | prepend c =>
      refine ⟨h.place.imp_right (Or.imp (fun hs => hs.cons c) ?_), h.first⟩
      intro hq hm
      rcases List.mem_cons.mp hm with rfl | hm
      · exact hb rfl
      · exact hq hm
  | clear => exact ⟨Or.inr (Or.inr List.not_mem_nil), h.first⟩
  | abandon => exact ⟨h.place, h.first⟩
  | settle =>
      refine ⟨?_, h.first⟩
      rcases h.place with ha | hs | hq
      · exact Or.inl ha
      · rcases hm.settles rfl with he | he
        · rw [he] at hs
          cases hs
        · cases hq : o.queue with
          | nil =>
              rw [hq] at hs
              cases hs
          | cons c t =>
              rw [hq] at hs he
              rcases sublist_pair_cons hs with rfl | hs
              · exact Or.inl (ho.flown a he.symm)
              · refine Or.inr (Or.inl ?_)
                rwa [Outbox.next, hq]
      · exact Or.inr (Or.inr (fun hm => hq (List.mem_of_mem_tail hm)))
  | post =>
      rcases o.post_cases with he | ⟨c, t, hq, he⟩ <;> rw [Outbox.next, he]
      · exact h
      · refine ⟨h.place.imp_left (List.mem_append_left _), h.first.concat ?_⟩
        rintro rfl
        rcases h.place with ha | hs | hn
        · exact ha
        · have hn := ho.nodup
          rw [hq] at hs hn
          exact absurd hs (not_before_head (List.nodup_cons.mp hn).1)
        · rw [hq] at hn
          exact absurd List.mem_cons_self hn

end Outbox

end Kross

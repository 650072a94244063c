import Kross.Run
import Kross.Web.CloudState

namespace Kross.Web.UseCloud

open Run

/-- What the user has sent since the last snapshot. -/
def optimistic (messages : List UiMessage) : List UiMessage :=
  messages.filter fun message => message.transient && message.from' = .user

def sentTexts (messages : List UiMessage) : List String := (optimistic messages).map UiMessage.text

def userTexts (persisted : List StoredMessage) : List String :=
  (persisted.filter fun message => message.from' = .user).map StoredMessage.text

section Sending

variable {s : CloudState} {toText : Json.Value → String}

theorem optimistic_append (messages more : List UiMessage) :
    optimistic (messages ++ more) = optimistic messages ++ optimistic more := by
  rw [optimistic, List.filter_append]
  rfl

theorem optimistic_hydrated (persisted : List StoredMessage) : optimistic (hydrateSnapshotMessages persisted) = [] := by
  rw [optimistic, List.filter_eq_nil_iff]
  intro message hmem
  obtain ⟨stored, -, rfl⟩ := List.mem_map.mp hmem
  exact Bool.false_ne_true

theorem sentTexts_optimisticUser (text : String) :
    sentTexts (reducer toText s (.optimisticUser text)).messages = sentTexts s.messages ++ [text] := by
  rw [sentTexts, reducer, optimistic_append, List.map_append]
  rfl

/-- Inputs that are sent one after the other are kept in this order. -/
theorem sentTexts_sends (texts : List String) :
    sentTexts (after (reducer toText) s (texts.map .optimisticUser)).messages = sentTexts s.messages ++ texts := by
  induction texts generalizing s with
  | nil => rw [List.append_nil]; rfl
  | cons text texts ih =>
      rw [List.map_cons, after_cons, ih, sentTexts_optimisticUser, List.append_assoc]
      rfl

end Sending

section Reconcile

variable {current : List UiMessage} {persisted history rest : List StoredMessage} {k : Nat}

theorem saidByUser_hydrated (text : String) :
    saidByUser (hydrateSnapshotMessages persisted) text = true ↔ text ∈ userTexts persisted := by
  rw [saidByUser, hydrateSnapshotMessages, List.any_map, List.any_eq_true, userTexts, List.mem_map]
  constructor
  · rintro ⟨message, hmem, hsaid⟩
    obtain ⟨huser, htext⟩ := Bool.and_eq_true_iff.mp hsaid
    exact ⟨message, List.mem_filter.mpr ⟨hmem, huser⟩, of_decide_eq_true htext⟩
  · rintro ⟨message, hmem, rfl⟩
    obtain ⟨hmem, huser⟩ := List.mem_filter.mp hmem
    exact ⟨message, hmem, Bool.and_eq_true_iff.mpr ⟨huser, decide_eq_true rfl⟩⟩

theorem reconcile_eq :
    reconcileSnapshotMessages current persisted =
      hydrateSnapshotMessages persisted ++ (optimistic current).filter fun message =>
        !saidByUser (hydrateSnapshotMessages persisted) message.text := by
  rw [reconcileSnapshotMessages, optimistic, List.filter_filter]
  congr 1
  refine List.filter_congr fun message _ => ?_
  exact Bool.and_comm _ _

/-- What a snapshot leaves of the inputs is all that a later one finds. -/
theorem optimistic_reconciled :
    optimistic (reconcileSnapshotMessages current persisted) =
      (optimistic current).filter fun message => !saidByUser (hydrateSnapshotMessages persisted) message.text := by
  rw [reconcile_eq, optimistic_append, optimistic_hydrated, List.nil_append]
  exact List.filter_eq_self.mpr fun message hmem => (List.mem_filter.mp (List.mem_filter.mp hmem).1).2

theorem filter_eq_drop_iff {α : Type*} {p : α → Bool} {l : List α} (h : ∀ x ∈ l.take k, p x = false) :
    l.filter p = l.drop k ↔ ∀ x ∈ l.drop k, p x = true := by
  have hsplit : l.filter p = (l.drop k).filter p := by
    conv_lhs => rw [← List.take_append_drop k l]
    have hnil : (l.take k).filter p = [] :=
      List.filter_eq_nil_iff.mpr fun x hx => by rw [h x hx]; exact Bool.false_ne_true
    rw [List.filter_append, hnil, List.nil_append]
  rw [hsplit]
  exact List.filter_eq_self

theorem userTexts_append : userTexts (history ++ rest) = userTexts history ++ userTexts rest := by
  rw [userTexts, List.filter_append, List.map_append]
  rfl

end Reconcile

end Kross.Web.UseCloud

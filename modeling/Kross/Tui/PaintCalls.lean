import Kross.Run
import Kross.Tui.MessagePaint

namespace Kross.Tui

/-- One call of `paintMessage`. -/
structure PaintCall where
  message : ChatMessage
  columns : Nat
  streaming : Bool
  nowMs : Int

section Calls

variable (env : Env) (p : Painter) (call : PaintCall)

def paint : Painter × List PaintItem := paintMessage env p call.message call.columns call.streaming call.nowMs

def afterPaint : Painter := (paint env p call).1

/-- What the cache has for a call. -/
def cached : Option CacheEntry :=
  if call.streaming then none
  else (p.cache.at (max 20 call.columns)).hit call.message.id (paintFingerprint env call.message call.streaming)
    (max 20 call.columns)

/-- The call without the cache. -/
def uncached : Markdown × List PaintItem :=
  paintMessageUncached env p.markdown call.message (max 20 call.columns) call.streaming call.nowMs

/-- What the cache keeps of a call. -/
def kept : CacheEntry :=
  ⟨paintFingerprint env call.message call.streaming, max 20 call.columns, (uncached env p call).2,
    ((uncached env p call).2.map PaintItem.height).sum⟩

end Calls

section Caching

variable {env : Env} {p : Painter} {call : PaintCall} {entry : CacheEntry}

theorem paint_hit (h : cached env p call = some entry) :
    paint env p call = (⟨p.markdown, p.cache.at (max 20 call.columns)⟩, entry.items) := by
  rw [cached] at h
  rw [paint, paintMessage]
  dsimp only
  rw [h]

theorem paint_miss (h : cached env p call = none) :
    paint env p call = (⟨(uncached env p call).1, (p.cache.at (max 20 call.columns)).store call.message.id (kept env p call)⟩,
      (uncached env p call).2) := by
  rw [cached] at h
  rw [paint, paintMessage]
  dsimp only
  rw [h]
  rfl

theorem mem_at {cache : MessagePaintCache} {id width : Nat} (h : entry ∈ (cache.at width).entries id) :
    entry ∈ cache.entries id := by
  rw [MessagePaintCache.at] at h
  split_ifs at h
  · cases h
  · exact h

theorem mem_store {cache : MessagePaintCache} {id other : Nat} {new : CacheEntry}
    (h : entry ∈ (cache.store id new).entries other) : other = id ∧ entry = new ∨ entry ∈ cache.entries other := by
  rw [MessagePaintCache.store] at h
  dsimp only at h
  split_ifs at h with hid
  · exact .inl ⟨hid, (Option.some.inj h).symm⟩
  · exact .inr h

/-- What the cache has for a call was kept for its message, fingerprint and width. -/
theorem cached_spec (h : cached env p call = some entry) :
    entry ∈ p.cache.entries call.message.id ∧ entry.fingerprint = paintFingerprint env call.message call.streaming ∧
      entry.columns = max 20 call.columns := by
  rw [cached] at h
  split_ifs at h
  obtain ⟨hentry, hsame⟩ := Option.filter_eq_some_iff.mp h
  rw [Bool.and_eq_true, decide_eq_true_iff, decide_eq_true_iff] at hsame
  exact ⟨mem_at hentry, hsame⟩

/-- What is kept of each message. -/
def Painter.Keeps (Q : Nat → CacheEntry → Prop) (p : Painter) : Prop := ∀ id, ∀ entry ∈ p.cache.entries id, Q id entry

variable {Q : Nat → CacheEntry → Prop}

theorem keeps_start : Painter.start.Keeps Q := fun _ _ hentry => nomatch hentry

/-- A call keeps what there was, or what it has painted anew. -/
theorem paint_keeps (h : p.Keeps Q) (hkept : cached env p call = none → Q call.message.id (kept env p call)) :
    (afterPaint env p call).Keeps Q := by
  intro id entry hentry
  cases hcached : cached env p call with
  | some hit =>
      rw [afterPaint, paint_hit hcached] at hentry
      exact h id entry (mem_at hentry)
  | none =>
      rw [afterPaint, paint_miss hcached] at hentry
      rcases mem_store hentry with ⟨rfl, rfl⟩ | hentry
      · exact hkept hcached
      · exact h id entry (mem_at hentry)

end Caching

end Kross.Tui

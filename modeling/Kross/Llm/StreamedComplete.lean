import Kross.Llm.AnthropicStream
import Kross.Llm.OpenAiStream

namespace Kross.Llm

section HalfReceived

open OpenAi

def oneCall : WrittenMessage where
  content := none
  thinkingMember := .reasoning
  thinking := []
  calls :=
    [{ id := ['c'], name := ['f'], arguments := ['{', '}'], input := .nil
       id_ne := List.cons_ne_nil _ _, name_ne := List.cons_ne_nil _ _, parses := rfl }]
  distinct := List.nodup_singleton _

def pieceOf (fragment : Fragment) : Option Delta :=
  some { content := none, reasoningContent := none, reasoning := none, toolCalls := some [fragment] }

def twoPieces : List (Option Delta) :=
  [pieceOf { index := some 0, id := some ['c'], name := some ['f'], arguments := some ['{'] },
   pieceOf { index := some 0, id := none, name := none, arguments := some ['}'] }]

theorem twoPieces_fragmented : Fragmented oneCall twoPieces where
  content := rfl
  thinking := rfl
  oneMember := by
    intro delta h
    rcases List.mem_pair.mp h with h | h
    · cases h
      rfl
    · cases h
      rfl
  indexed := by
    intro fragment h
    rcases List.mem_pair.mp h with rfl | rfl
    · exact ⟨0, Nat.one_pos, rfl⟩
    · exact ⟨0, Nat.one_pos, rfl⟩
  calls := by
    intro i c hc
    cases i with
    | zero =>
        cases hc
        refine { begins := ⟨_, _, rfl, rfl, rfl⟩, repeats := ?_, arguments := rfl }
        intro fragment h
        rcases List.mem_pair.mp h with rfl | rfl
        · exact ⟨.inr (.inr rfl), .inr (.inr rfl)⟩
        · exact ⟨.inl rfl, .inl rfl⟩
    | succ i => cases hc

end HalfReceived

end Kross.Llm

import Sigil2.CommEdges
import Sigil2.Routing

/-! `onRead`'s byte loop, and what loads leave in a context's address sets. -/
namespace STGen

open STShadowMemory

section Bytes

end Bytes

section Loop

end Loop

section Ranges

open AddrSet STCommEvent

theorem canonical_empty : Canonical (⟨[]⟩ : AddrSet) := ⟨fun _ h => (nomatch h), .nil⟩

theorem belowMax_empty : BelowMax (⟨[]⟩ : AddrSet) := fun _ h => nomatch h

/-- The address sets of a context as `insert` needs them: the read ranges canonical and
below the top address, and the edges faithful to the bytes added to them. -/
structure Coalesced (tc : ThreadContext) : Prop where
  canonical : Canonical tc.stComp.uniqueReadAddrs
  belowMax : BelowMax tc.stComp.uniqueReadAddrs
  edges : ∃ adds, Faithful adds tc.stComm.comms

/-- What a flush does to the address sets: it keeps each one or empties it. -/
def Flushed (tc tc' : ThreadContext) : Prop :=
  (tc'.stComp.uniqueReadAddrs = tc.stComp.uniqueReadAddrs ∨ tc'.stComp.uniqueReadAddrs = ⟨[]⟩) ∧
    (tc'.stComm.comms = tc.stComm.comms ∨ tc'.stComm.comms = [])

variable {tc tc₁ tc' : ThreadContext} {sm sm' : STShadowMemory} {recs pre : List Record}

theorem Flushed.refl (tc : ThreadContext) : Flushed tc tc := ⟨.inl rfl, .inl rfl⟩

theorem Flushed.trans (first : Flushed tc tc₁) (second : Flushed tc₁ tc') : Flushed tc tc' := by
  obtain ⟨r₁, c₁⟩ := first
  obtain ⟨r₂, c₂⟩ := second
  refine ⟨?_, ?_⟩
  · rcases r₂ with r₂ | r₂ <;> rw [r₂]
    · exact r₁
    · exact .inr rfl
  · rcases c₂ with c₂ | c₂ <;> rw [c₂]
    · exact c₁
    · exact .inr rfl

theorem Coalesced.flushed (coalesced : Coalesced tc) (flushed : Flushed tc tc') : Coalesced tc' := by
  obtain ⟨reads, comms⟩ := flushed
  obtain ⟨hcan, hmax, adds, hadds⟩ := coalesced
  refine ⟨?_, ?_, ?_⟩
  · rcases reads with h | h <;> rw [h]
    · exact hcan
    · exact canonical_empty
  · rcases reads with h | h <;> rw [h]
    · exact hmax
    · exact belowMax_empty
  · rcases comms with h | h <;> rw [h]
    · exact ⟨adds, hadds⟩
    · exact ⟨[], Faithful.nil⟩

namespace ThreadContext

end ThreadContext

end Ranges

end STGen

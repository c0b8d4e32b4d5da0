import Mathlib

/-! A register that keeps the message with the highest stamp.

    Messages arrive in any order and any number of times. `Highest stamp l top` says that `top` is
    what such a register holds after the messages `l`: nothing while none has come, then one of them
    that no other is above. One more message either is above all and takes over, or changes
    nothing. -/

namespace Fallow.Lib

variable {α β : Type*} [LinearOrder β] {stamp : α → β} {l : List α}

/-- The register after the messages `l`. -/
def Highest (stamp : α → β) (l : List α) : Option α → Prop
  | none => l = []
  | some t => t ∈ l ∧ ∀ m ∈ l, stamp m ≤ stamp t

/-- Above everything so far: the message takes the register. -/
theorem Highest.above (hx : ∀ m ∈ l, stamp m < stamp x) : Highest stamp (l ++ [x]) (some x) := by
  refine ⟨by simp, fun m hm => ?_⟩
  rcases List.mem_append.1 hm with hm | hm
  · exact le_of_lt (hx m hm)
  · rw [List.mem_singleton.1 hm]

/-- Not above what is held: the register stays. -/
theorem Highest.below (h : Highest stamp l (some t)) (hx : stamp x ≤ stamp t) :
    Highest stamp (l ++ [x]) (some t) := by
  refine ⟨List.mem_append_left _ h.1, fun m hm => ?_⟩
  rcases List.mem_append.1 hm with hm | hm
  · exact h.2 m hm
  · rwa [List.mem_singleton.1 hm]

/-- A message is above all so far exactly when it is above what is held. -/
theorem Highest.forall_lt_iff (h : Highest stamp l (some t)) :
    (∀ m ∈ l, stamp m < stamp x) ↔ stamp t < stamp x :=
  ⟨fun hx => hx t h.1, fun hx m hm => lt_of_le_of_lt (h.2 m hm) hx⟩

end Fallow.Lib

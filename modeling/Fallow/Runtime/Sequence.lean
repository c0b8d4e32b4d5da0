import Fallow.Lib.Run

/-! The sequence numbers of a Site Mode agent (`runtime/sequence.go`).

    Numbers are handed out below a ceiling that is written to the identity file first. A process that
    starts resumes at the ceiling of the one before it.

        start ─▶ save cursor + 16 ─▶ cursor, cursor + 1, … up to the ceiling ─▶ save again
                                                              └ save fails: the ceiling itself

    The life of one identity is a run of calls and crashes; every save may fail. -/

namespace Fallow.Runtime
open Lib List

def seqReserveBlock : ℤ := 16

structure PersistentSeq where
  cursor : ℤ
  reserved : ℤ
  deriving DecidableEq, Repr

/-- The durable `Seq`, the running process, and what `next` returned so far: the value, and whether
    the call's save failed. -/
structure Identity where
  seq : ℤ
  proc : Option PersistentSeq := none
  returned : List (ℤ × Bool) := []
  deriving DecidableEq, Repr

inductive Call where
  | newPersistentSeq (saved : Bool)
  | next (saved : Bool)
  | crash
  deriving DecidableEq, Repr

namespace Identity

/-- `reserve`: the ceiling goes to disk before it is moved in memory. -/
def reserve (id : Identity) (cursor : ℤ) : Identity :=
  { id with
    seq := cursor + seqReserveBlock
    proc := some ⟨cursor, cursor + seqReserveBlock⟩ }

def handOut (id : Identity) (s : PersistentSeq) : Identity :=
  { id with
    proc := some { s with cursor := s.cursor + 1 }
    returned := id.returned ++ [(s.cursor, false)] }

def step (id : Identity) : Call → Identity
  | .newPersistentSeq saved =>
    if id.proc = none ∧ saved = true then id.reserve id.seq else id
  | .next saved => match id.proc with
    | none => id
    | some s =>
      if s.cursor < s.reserved then id.handOut s
      else if saved then (id.reserve s.cursor).handOut ⟨s.cursor, s.cursor + seqReserveBlock⟩
      else { id with returned := id.returned ++ [(s.reserved, true)] }
  | .crash => { id with proc := none }

/-- Where the next value comes from: the process, or the one that will be started. -/
def cursor (id : Identity) : ℤ := (id.proc.map (·.cursor)).getD id.seq

/-- INVARIANT: the values lie in order below the cursor, and the cursor at or below what is durable.
    A value is met again only where its first call could not save. -/
structure Sound (id : Identity) : Prop where
  ordered : id.returned.Pairwise fun x y => x.1 ≤ y.1 ∧ (x.1 = y.1 → x.2 = true)
  below : ∀ x ∈ id.returned, x.1 ≤ id.cursor ∧ (x.1 = id.cursor → x.2 = true)
  durable : id.cursor ≤ id.seq
  ceiling : ∀ s, id.proc = some s → s.reserved = id.seq

variable {id : Identity}

/-- One more value, at the cursor, which may move on. -/
theorem Sound.append (h : Sound id) (failed : Bool)
    (hret : id'.returned = id.returned ++ [(id.cursor, failed)]) (hle : id.cursor ≤ id'.cursor)
    (hfail : id'.cursor = id.cursor → failed = true) (hdur : id'.cursor ≤ id'.seq)
    (hceil : ∀ s, id'.proc = some s → s.reserved = id'.seq) : Sound id' := by
  refine ⟨?_, ?_, hdur, hceil⟩
  · rw [hret, pairwise_append]
    refine ⟨h.ordered, pairwise_singleton .., fun x hx y hy => ?_⟩
    rw [mem_singleton.mp hy]
    exact h.below x hx
  · intro x hx
    rw [hret, mem_append, mem_singleton] at hx
    rcases hx with hx | rfl
    · obtain ⟨hlow, heq⟩ := h.below x hx
      exact ⟨Int.le_trans hlow hle, fun he => heq (by omega)⟩
    · exact ⟨hle, fun he => hfail he.symm⟩

theorem Sound.step (h : Sound id) (call : Call) : Sound (id.step call) := by
  cases call with
  | newPersistentSeq saved =>
    simp only [Identity.step]
    split
    · rename_i hstart
      have hcur : id.cursor = id.seq := by simp [cursor, hstart.1]
      refine ⟨h.ordered, fun x hx => ?_, ?_, ?_⟩
      · simpa [reserve, cursor, hcur] using hcur ▸ h.below x hx
      · simp only [reserve, cursor, seqReserveBlock, Option.map_some, Option.getD_some]
        omega
      · simp [reserve]
    · exact h
  | next saved =>
    simp only [Identity.step]
    split
    · exact h
    rename_i s hs
    have hceil := h.ceiling s hs
    have hdur := h.durable
    split
    · refine h.append false ?_ ?_ ?_ ?_ ?_ <;> simp_all [handOut, cursor] <;> omega
    · split
      · refine h.append false ?_ ?_ ?_ ?_ ?_ <;>
          simp_all [handOut, reserve, cursor, seqReserveBlock] <;> omega
      · refine h.append true ?_ ?_ ?_ ?_ ?_ <;> simp_all [cursor] <;> omega
  | crash =>
    refine ⟨h.ordered, fun x hx => ?_, Int.le_refl _, nofun⟩
    obtain ⟨hlow, heq⟩ := h.below x hx
    have hdur := h.durable
    exact ⟨Int.le_trans hlow hdur, fun he => heq (Int.le_antisymm hlow (he ▸ hdur))⟩

end Identity
end Fallow.Runtime

import Mathlib

/-! Directories of files named by the hash of their content.

    A file is written unless one of its name is there. Nothing is ever overwritten, so what a name
    stands for is settled by the first write; `hashed` collects the strings that were ever hashed,
    and as long as no two of them collide a name stands for its string. -/

namespace Fallow.Lib.Content
open Function List

variable {κ β : Type} [DecidableEq κ]

abbrev Dir (κ β : Type) := κ → Option β

/-- Write `b` under its hash unless that name is taken. -/
def put (hash : β → κ) (d : Dir κ β) (b : β) : Dir κ β :=
  if (d (hash b)).isSome then d else update d (hash b) (some b)

/-- Every file has the hash of its content for a name, and was hashed. -/
def Addressed (hash : β → κ) (hashed : List β) (d : Dir κ β) : Prop :=
  ∀ k b, d k = some b → k = hash b ∧ b ∈ hashed

/-- No two different strings that were hashed have the same hash. -/
def Collisionless (hash : β → κ) (hashed : List β) : Prop :=
  ∀ a ∈ hashed, ∀ b ∈ hashed, hash a = hash b → a = b

/-- FRAME: every file of `d` is in `d'`, unchanged. -/
def Extends (d d' : Dir κ β) : Prop := ∀ k b, d k = some b → d' k = some b

variable {hash : β → κ} {hashed hashed' : List β} {d d' d'' : Dir κ β} {b : β}

omit [DecidableEq κ] in
theorem Extends.refl (d : Dir κ β) : Extends d d := fun _ _ h => h

omit [DecidableEq κ] in
theorem Extends.trans (h : Extends d d') (h' : Extends d' d'') : Extends d d'' :=
  fun k b hb => h' k b (h k b hb)

omit [DecidableEq κ] in
omit [DecidableEq κ] in
theorem Addressed.mono (h : Addressed hash hashed d) (hs : hashed ⊆ hashed') :
    Addressed hash hashed' d := fun k b hb => ⟨(h k b hb).1, hs (h k b hb).2⟩

omit [DecidableEq κ] in
/-- A name that is taken stands for the string it is the hash of. -/
theorem Addressed.get (h : Addressed hash hashed d) (hc : Collisionless hash hashed)
    (hb : b ∈ hashed) (hd : (d (hash b)).isSome) : d (hash b) = some b := by
  obtain ⟨a, ha⟩ := Option.isSome_iff_exists.1 hd
  obtain ⟨hk, hin⟩ := h _ a ha
  rw [ha, hc b hb a hin hk]

theorem extends_put : Extends d (put hash d b) := by
  intro k a ha
  rw [put]
  split
  · exact ha
  next hn =>
  by_cases hk : k = hash b
  · subst hk
    rw [ha] at hn
    exact absurd rfl hn
  · rw [update_of_ne hk]
    exact ha

theorem isSome_put (hash : β → κ) : (put hash d b (hash b)).isSome := by
  rw [put]
  split
  · next h => exact h
  · rw [update_self]
    rfl

theorem Addressed.put (h : Addressed hash hashed d) (hb : b ∈ hashed) :
    Addressed hash hashed (put hash d b) := by
  intro k a ha
  rw [Content.put] at ha
  split at ha
  · exact h k a ha
  by_cases hk : k = hash b
  · subst hk
    rw [update_self] at ha
    cases ha
    exact ⟨rfl, hb⟩
  · rw [update_of_ne hk] at ha
    exact h k a ha

/-! ### Several writes -/

theorem extends_puts : ∀ (bs : List β) (d : Dir κ β), Extends d (bs.foldl (Content.put hash) d)
  | [], d => .refl d
  | _ :: bs, _ => extends_put.trans (extends_puts bs _)

theorem isSome_puts : ∀ (bs : List β) (d : Dir κ β), ∀ b ∈ bs,
    (bs.foldl (Content.put hash) d (hash b)).isSome
  | c :: bs, d, b, hb => by
    rw [foldl_cons]
    rcases mem_cons.1 hb with rfl | hb
    · obtain ⟨a, ha⟩ := Option.isSome_iff_exists.1 (isSome_put hash)
      rw [extends_puts bs _ _ a ha]
      rfl
    · exact isSome_puts bs _ b hb

theorem Addressed.puts : ∀ (bs : List β) {d : Dir κ β}, Addressed hash hashed d →
    (∀ b ∈ bs, b ∈ hashed) → Addressed hash hashed (bs.foldl (Content.put hash) d)
  | [], _, h, _ => h
  | b :: bs, _, h, hb => Addressed.puts bs (h.put (hb b mem_cons_self))
      fun c hc => hb c (mem_cons_of_mem _ hc)

end Fallow.Lib.Content

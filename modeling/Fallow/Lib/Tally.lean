import Mathlib

/-! Totals over a list of parties, and what one party's move does to them. -/

namespace Fallow.Lib
open List

variable {α : Type*} {x : α}

/-- One entry replaced: the total changes by that entry alone. -/
theorem sum_map_set (f : α → ℕ) (y : α) : ∀ {l : List α} {i : ℕ}, l[i]? = some x →
    ((l.set i y).map f).sum + f x = (l.map f).sum + f y
  | [], _, h => by simp at h
  | z :: l, 0, h => by
    obtain rfl : z = x := by simpa using h
    simp only [set_cons_zero, map_cons, sum_cons]
    omega
  | z :: l, i + 1, h => by
    have ih := sum_map_set f y (l := l) (i := i) (by simpa using h)
    simp only [set_cons_succ, map_cons, sum_cons]
    omega

/-- No entry is above the total. -/
theorem le_sum_map (f : α → ℕ) {l : List α} (h : x ∈ l) : f x ≤ (l.map f).sum :=
  single_le_sum (fun _ _ => Nat.zero_le _) _ (mem_map_of_mem h)

/-- A total of zeros and ones is a count. -/
theorem sum_map_eq_countP :
    ∀ {l : List α}, (∀ x ∈ l, f x = if p x then 1 else 0) → (l.map f).sum = l.countP p
  | [], _ => rfl
  | x :: l, h => by
    have hx := h x mem_cons_self
    have ih := sum_map_eq_countP fun y hy => h y (mem_cons_of_mem _ hy)
    rw [map_cons, sum_cons, countP_cons, ih, hx, Nat.add_comm]

/-- One entry replaced: what all entries meet changes by that entry alone. -/
theorem forall_mem_set_iff {P : α → Prop} (hy : P y ↔ P x ∧ q) :
    ∀ {l : List α} {i : ℕ}, l[i]? = some x → ((∀ z ∈ l.set i y, P z) ↔ (∀ z ∈ l, P z) ∧ q)
  | [], _, h => by simp at h
  | z :: l, 0, h => by
    obtain rfl : z = x := by simpa using h
    rw [set_cons_zero, forall_mem_cons, forall_mem_cons, hy]
    tauto
  | z :: l, i + 1, h => by
    have ih := forall_mem_set_iff hy (l := l) (i := i) (by simpa using h)
    rw [set_cons_succ, forall_mem_cons, forall_mem_cons, ih, and_assoc]

/-- A rising list within a range is no longer than the range. -/
theorem length_le_of_rising : ∀ {l : List ℕ} {a : ℕ}, l.Pairwise (· < ·) →
    (∀ x ∈ l, a < x ∧ x ≤ m) → l.length ≤ m - a
  | [], _, _, _ => Nat.zero_le _
  | x :: l, a, hp, h => by
    obtain ⟨hx, hp⟩ := pairwise_cons.1 hp
    have ih := length_le_of_rising hp fun y hy => ⟨hx y hy, (h y (mem_cons_of_mem _ hy)).2⟩
    have hax := h x mem_cons_self
    rw [length_cons]
    omega

end Fallow.Lib

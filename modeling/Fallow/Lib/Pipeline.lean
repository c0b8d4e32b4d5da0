import Mathlib

/-! Updates of one value that take effect one by one, in the order they are listed in.

    Operations are listed in the order in which they began, each with what it does to the value. While
    they are under way some still have the update ahead of them; `value` applies the others. An
    operation may be past the value while an earlier one is not only if it leaves the value alone:
    that is `Pipelined`, and under it the value is at all times the serial one of a first part of the
    list.

        began:   u₁   u₂   u₃   u₄
        ahead:                ×    ×         value = u₂ (u₁ v)      -/

namespace Fallow.Lib.Pipeline
open List

variable {V : Type*}

/-- Everything in the list, one after another. -/
def serial (us : List (ℕ × (V → V))) (v : V) : V := us.foldl (fun v u => u.2 v) v

open Classical in
/-- Everything that is no longer ahead. -/
noncomputable def value (ahead : ℕ → Prop) (us : List (ℕ × (V → V))) (v : V) : V :=
  us.foldl (fun v u => if ahead u.1 then v else u.2 v) v

/-- What is behind an update still ahead is ahead too, or leaves the value alone. -/
def Pipelined (ahead : ℕ → Prop) (us : List (ℕ × (V → V))) : Prop :=
  us.Pairwise fun u w => ahead u.1 → ahead w.1 ∨ w.2 = id

variable {ahead ahead' : ℕ → Prop} {us pre post : List (ℕ × (V → V))} {i : ℕ} {f : V → V} {v : V}

theorem serial_append : serial (us ++ post) v = serial post (serial us v) := foldl_append

theorem value_append : value ahead (us ++ post) v = value ahead post (value ahead us v) :=
  foldl_append

theorem value_cons_pos (hi : ahead i) : value ahead ((i, f) :: us) v = value ahead us v := by
  simp only [value, foldl_cons, if_pos hi]

theorem value_cons_neg (hi : ¬ ahead i) : value ahead ((i, f) :: us) v = value ahead us (f v) := by
  simp only [value, foldl_cons, if_neg hi]

/-- Only the updates that do something count. -/
theorem value_congr (h : ∀ u ∈ us, u.2 = id ∨ (ahead u.1 ↔ ahead' u.1)) :
    value ahead us v = value ahead' us v := by
  induction us generalizing v with
  | nil => rfl
  | cons u us ih =>
    have hrest := fun v => ih (v := v) fun w hw => h w (mem_cons_of_mem _ hw)
    by_cases hu : ahead u.1 <;> by_cases hu' : ahead' u.1
    · rw [value_cons_pos hu, value_cons_pos hu', hrest]
    · have hid := (h u mem_cons_self).resolve_right fun hiff => hu' (hiff.mp hu)
      rw [value_cons_pos hu, value_cons_neg hu', hrest, hid]; rfl
    · have hid := (h u mem_cons_self).resolve_right fun hiff => hu (hiff.mpr hu')
      rw [value_cons_neg hu, value_cons_pos hu', hrest, hid]; rfl
    · rw [value_cons_neg hu, value_cons_neg hu', hrest]

/-- Nothing of it has been applied. -/
theorem value_ahead (h : ∀ u ∈ us, ahead u.1 ∨ u.2 = id) : value ahead us v = v := by
  induction us generalizing v with
  | nil => rfl
  | cons u us ih =>
    have hrest := fun v => ih (v := v) fun w hw => h w (mem_cons_of_mem _ hw)
    by_cases hu : ahead u.1
    · rw [value_cons_pos hu, hrest]
    · have hid := (h u mem_cons_self).resolve_left hu
      rw [value_cons_neg hu, hrest, hid]; rfl

/-- All of it has. -/
theorem value_serial (h : ∀ u ∈ us, ¬ ahead u.1) : value ahead us v = serial us v := by
  induction us generalizing v with
  | nil => rfl
  | cons u us ih =>
    rw [value_cons_neg (h u mem_cons_self), ih fun w hw => h w (mem_cons_of_mem _ hw)]
    rfl

/-- Updates may stop being ahead where they leave the value alone. -/
theorem Pipelined.congr (hp : Pipelined ahead us)
    (h : ∀ u ∈ us, (ahead u.1 ↔ ahead' u.1) ∨ (u.2 = id ∧ (ahead' u.1 → ahead u.1))) :
    Pipelined ahead' us := by
  refine hp.imp_of_mem fun {u w} hu hw hb ha' => ?_
  have ha : ahead u.1 := by
    rcases h u hu with h | h
    · exact h.mpr ha'
    · exact h.2 ha'
  rcases hb ha with hw' | hid
  · rcases h w hw with h | h
    · exact .inl (h.mp hw')
    · exact .inr h.1
  · exact .inr hid

section
variable (hn : ((pre ++ (i, f) :: post).map Prod.fst).Nodup)
  (hp : Pipelined ahead (pre ++ (i, f) :: post))
  (hpre : ∀ u ∈ pre, ¬ ahead u.1)
include hn

theorem fst_ne_of_nodup : ∀ w ∈ post, w.1 ≠ i := by
  intro w hw he
  have hm : w.1 ∈ post.map Prod.fst := mem_map_of_mem hw
  rw [map_append, map_cons] at hn
  rw [he] at hm
  exact (nodup_cons.mp (nodup_append.mp hn).2.1).1 hm

/-- An update that leaves the value alone may be passed at any time. -/
theorem inert_of_nodup (hf : f = id) :
    ∀ u ∈ pre ++ (i, f) :: post, u.2 = id ∨ (ahead u.1 ↔ ahead u.1 ∧ u.1 ≠ i) := by
  intro u hu
  by_cases hi : u.1 = i
  · have he : u = (i, f) := inj_on_of_nodup_map hn hu (by simp) hi
    exact .inl (by rw [he]; exact hf)
  · exact .inr ⟨fun h => ⟨h, hi⟩, fun h => h.1⟩

theorem value_skip (hf : f = id) : value (fun j => ahead j ∧ j ≠ i) (pre ++ (i, f) :: post) v
      = value ahead (pre ++ (i, f) :: post) v :=
  (value_congr (inert_of_nodup hn hf)).symm

include hp

theorem Pipelined.skip (hf : f = id) :
    Pipelined (fun j => ahead j ∧ j ≠ i) (pre ++ (i, f) :: post) :=
  hp.congr fun u hu => (inert_of_nodup hn hf u hu).elim (fun h => .inr ⟨h, fun h => h.1⟩) .inl

include hpre

/-- The update takes effect: the value moves on by it. -/
theorem Pipelined.value_reach (hi : ahead i) :
    value (fun j => ahead j ∧ j ≠ i) (pre ++ (i, f) :: post) v = f (serial pre v) := by
  have hpost : ∀ w ∈ post, (ahead w.1 ∧ w.1 ≠ i) ∨ w.2 = id := by
    intro w hw
    rcases (pairwise_cons.mp (pairwise_append.mp hp).2.1).1 w hw hi with ha | hid
    · exact .inl ⟨ha, fst_ne_of_nodup hn w hw⟩
    · exact .inr hid
  rw [value_append, value_cons_neg (fun h => h.2 rfl), value_ahead hpost,
    value_serial fun u hu h => hpre u hu h.1]

theorem Pipelined.reach : Pipelined (fun j => ahead j ∧ j ≠ i) (pre ++ (i, f) :: post) := by
  have hne := fst_ne_of_nodup hn
  obtain ⟨h₁, h₂, h₃⟩ := pairwise_append.mp hp
  obtain ⟨-, h₄⟩ := pairwise_cons.mp h₂
  refine pairwise_append.mpr ⟨?_, pairwise_cons.mpr ⟨fun w _ h => absurd rfl h.2, ?_⟩, ?_⟩
  · exact h₁.imp_of_mem fun hu _ _ ha => absurd ha.1 (hpre _ hu)
  · exact h₄.imp_of_mem fun {u w} _ hw h ha => (h ha.1).imp_left fun hw' => ⟨hw', hne w hw⟩
  · exact fun u hu w _ ha => absurd ha.1 (hpre u hu)

omit hn in
/-- An update that is ahead with nothing before it ahead: the value is the serial one up to it. -/
theorem Pipelined.value_before (hi : ahead i) :
    value ahead (pre ++ (i, f) :: post) v = serial pre v := by
  have hpost : ∀ w ∈ post, ahead w.1 ∨ w.2 = id := fun w hw =>
    (pairwise_cons.mp (pairwise_append.mp hp).2.1).1 w hw hi
  rw [value_append, value_cons_pos hi, value_ahead hpost, value_serial hpre]

end

/-- A new operation starts behind all others. -/
theorem Pipelined.snoc (hp : Pipelined ahead us)
    (h : ahead i ∨ f = id ∨ ∀ u ∈ us, ¬ ahead u.1) : Pipelined ahead (us ++ [(i, f)]) := by
  refine pairwise_append.mpr ⟨hp, pairwise_singleton .., ?_⟩
  intro u hu w hw ha
  obtain rfl := mem_singleton.mp hw
  rcases h with h | h | h
  · exact .inl h
  · exact .inr h
  · exact absurd ha (h u hu)

theorem Pipelined.filter (hp : Pipelined ahead us) (q : ℕ × (V → V) → Bool) :
    Pipelined ahead (us.filter q) := List.Pairwise.sublist filter_sublist hp

/-- An operation that is still ahead can be taken out. -/
theorem value_filter (hi : ahead i) :
    value ahead (us.filter fun u => u.1 ≠ i) v = value ahead us v := by
  induction us generalizing v with
  | nil => rfl
  | cons u us ih =>
    by_cases hu : u.1 = i
    · rw [filter_cons_of_neg (by simp [hu]), ih, value_cons_pos (by rw [hu]; exact hi)]
    rw [filter_cons_of_pos (by simp [hu])]
    by_cases ha : ahead u.1
    · rw [value_cons_pos ha, value_cons_pos ha, ih]
    · rw [value_cons_neg ha, value_cons_neg ha, ih]

end Fallow.Lib.Pipeline

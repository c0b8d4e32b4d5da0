import Mathlib

/-! Keyed tables as lists of rows.

    A table is a list of rows, a primary key a function of the row. The operations are the shapes a
    hand-written SQL statement takes: read by key, `UPDATE … WHERE`, `INSERT … ON CONFLICT`. Reads
    by key after a write are the interface: proofs about a table never look inside the list. -/

namespace Fallow.Lib.Table
open List Function

variable {ρ κ : Type*}

/-- The primary-key constraint. -/
def Keyed (key : ρ → κ) (t : List ρ) : Prop := (t.map key).Nodup

/-- `UPDATE … SET f WHERE p`. -/
def update (p : ρ → Bool) (f : ρ → ρ) (t : List ρ) : List ρ := t.map fun r => if p r then f r else r

section
variable {key : ρ → κ} {t : List ρ} {r : ρ} {p : ρ → Bool} {f : ρ → ρ}

theorem mem_update : r ∈ update p f t ↔ ∃ r' ∈ t, (if p r' then f r' else r') = r := by
  simp [update]

theorem keyed_update (hf : ∀ r, p r → key (f r) = key r) (hk : Keyed key t) :
    Keyed key (update p f t) := by
  have : (update p f t).map key = t.map key := by
    simp only [update, map_map]
    refine map_congr_left fun r _ => ?_
    simp only [comp]
    split
    · exact hf r ‹_›
    · rfl
  rw [Keyed, this]; exact hk

theorem update_none (h : ∀ r ∈ t, p r = false) : update p f t = t := by
  have hmap : update p f t = t.map id := map_congr_left fun r hr => by simp [h r hr]
  rw [hmap, map_id]

/-- A filter on columns the update leaves alone commutes with it. -/
theorem filter_update (hq : ∀ r, p r → q (f r) = q r) :
    (update p f t).filter q = update p f (t.filter q) := by
  simp only [update, filter_map]
  congr 1
  refine filter_congr fun r _ => ?_
  simp only [comp]
  split
  · rw [hq r ‹_›]
  · rfl

theorem keyed_filter (q : ρ → Bool) (hk : Keyed key t) : Keyed key (t.filter q) :=
  hk.sublist (filter_sublist.map key)

end

variable [DecidableEq κ]

instance (key : ρ → κ) (t : List ρ) : Decidable (Keyed key t) :=
  inferInstanceAs (Decidable (t.map key).Nodup)

/-- `SELECT … WHERE key = k` against a primary key: at most one row. -/
def get (key : ρ → κ) (t : List ρ) (k : κ) : Option ρ := t.find? (fun r => key r = k)

/-- `INSERT … ON CONFLICT(key) DO UPDATE SET merge`. -/
def upsert (key : ρ → κ) (r : ρ) (merge : ρ → ρ) (t : List ρ) : List ρ :=
  if (get key t (key r)).isSome then update (fun x => key x = key r) merge t else t ++ [r]

/-- `INSERT … ON CONFLICT(key) DO NOTHING`. -/
def insertIgnore (key : ρ → κ) (r : ρ) (t : List ρ) : List ρ :=
  if (get key t (key r)).isSome then t else t ++ [r]

variable {key : ρ → κ} {t : List ρ} {k : κ} {r : ρ} {p : ρ → Bool} {f merge : ρ → ρ}

theorem mem_of_get (h : get key t k = some r) : r ∈ t := mem_of_find?_eq_some h

theorem key_of_get (h : get key t k = some r) : key r = k := by
  have := find?_some h
  simpa using this

theorem get_eq_none : get key t k = none ↔ ∀ r ∈ t, key r ≠ k := by
  simp [get]

section
variable (hk : Keyed key t)
include hk

/-- With unique keys, reading by key and membership say the same. -/
theorem get_eq_some : get key t k = some r ↔ r ∈ t ∧ key r = k := by
  constructor
  · intro h; exact ⟨mem_of_get h, key_of_get h⟩
  rintro ⟨hm, rfl⟩
  cases hg : get key t (key r) with
  | none => exact absurd rfl (get_eq_none.mp hg r hm)
  | some r' =>
    have hinj := inj_on_of_nodup_map hk (mem_of_get hg) hm (key_of_get hg)
    rw [hinj]

theorem get_of_mem (hm : r ∈ t) : get key t (key r) = some r :=
  (get_eq_some hk).mpr ⟨hm, rfl⟩

/-- A key that is there is there once. -/
theorem countP_key (h : get key t k = some r) : t.countP (fun r => key r = k) = 1 := by
  have hcount : t.countP (fun r => key r = k) = (t.map key).count k := by
    rw [count, countP_map]
    exact countP_congr fun x _ => by simp
  rw [hcount]
  exact count_eq_one_of_mem hk (mem_map.mpr ⟨r, mem_of_get h, key_of_get h⟩)

theorem filter_key (h : get key t k = some r) : t.filter (fun r => key r = k) = [r] := by
  have hone := countP_key hk h
  rw [countP_eq_length_filter] at hone
  obtain ⟨x, hx⟩ := length_eq_one_iff.1 hone
  have hmem : r ∈ t.filter (fun r => key r = k) :=
    mem_filter.2 ⟨mem_of_get h, decide_eq_true (key_of_get h)⟩
  rw [hx] at hmem ⊢
  rw [mem_singleton.1 hmem]

/-! ### Reads after a write -/

omit hk in
theorem get_update (hf : ∀ r, p r → key (f r) = key r) (k : κ) :
    get key (update p f t) k = (get key t k).map fun r => if p r then f r else r := by
  have hp : ((fun r => decide (key r = k)) ∘ fun r => if p r then f r else r)
      = fun r => decide (key r = k) := by
    funext r
    simp only [comp]
    split
    · rw [hf r ‹_›]
    · rfl
  simp only [get, update]
  rw [find?_map, hp]

theorem keyed_append (h : get key t (key r) = none) : Keyed key (t ++ [r]) := by
  rw [get_eq_none] at h
  simp only [Keyed, map_append, map_cons, map_nil]
  refine nodup_append.mpr ⟨hk, by simp, ?_⟩
  intro a ha b hb
  obtain ⟨x, hx, rfl⟩ := mem_map.mp ha
  rw [mem_singleton] at hb
  rw [hb]; exact h x hx

end

theorem get_append (t : List ρ) (r : ρ) (k : κ) :
    get key (t ++ [r]) k = (get key t k).or (if key r = k then some r else none) := by
  simp only [get, find?_append, find?_cons, find?_nil]
  by_cases h : key r = k <;> simp [h]

theorem get_upsert (hm : ∀ x, key x = key r → key (merge x) = key x) (k : κ) :
    get key (upsert key r merge t) k =
      if k = key r then some (((get key t k).map merge).getD r) else get key t k := by
  unfold upsert
  cases hg : get key t (key r) with
  | none =>
    rw [if_neg (by simp), get_append]
    by_cases h : k = key r
    · subst h; simp [hg]
    · rw [if_neg h, if_neg (fun h' => h h'.symm), Option.or_none]
  | some x =>
    rw [if_pos (by simp), get_update (by simpa using hm)]
    by_cases h : k = key r
    · subst h; simp [hg, key_of_get hg]
    rw [if_neg h]
    cases hgk : get key t k with
    | none => rfl
    | some y => simp [key_of_get hgk, h]

theorem keyed_upsert (hm : ∀ x, key x = key r → key (merge x) = key x)
    (hk : Keyed key t) : Keyed key (upsert key r merge t) := by
  unfold upsert
  cases hg : get key t (key r) with
  | none => rw [if_neg (by simp)]; exact keyed_append hk hg
  | some x => rw [if_pos (by simp)]; exact keyed_update (by simpa using hm) hk

theorem get_insertIgnore (k : κ) :
    get key (insertIgnore key r t) k = (get key t k).or (if key r = k then some r else none) := by
  unfold insertIgnore
  split
  · rename_i h
    by_cases hk : key r = k
    · subst hk; obtain ⟨x, hx⟩ := Option.isSome_iff_exists.mp h; simp [hx]
    · rw [if_neg hk, Option.or_none]
  · exact get_append t r k

theorem keyed_insertIgnore (hk : Keyed key t) : Keyed key (insertIgnore key r t) := by
  unfold insertIgnore
  split
  · exact hk
  · rename_i h; exact keyed_append hk (Option.not_isSome_iff_eq_none.mp h)

/-- Deleting by key removes exactly that key. -/
theorem get_filter_ne (k' : κ) (k : κ) :
    get key (t.filter fun r => key r ≠ k') k = if k = k' then none else get key t k := by
  split
  · rename_i h; subst h
    rw [get_eq_none]
    intro r hr
    simpa using (mem_filter.mp hr).2
  · rename_i h
    simp only [get, find?_filter]
    congr 1
    funext r
    by_cases hr : key r = k
    · simp [hr, h]
    · simp [hr]

end Fallow.Lib.Table

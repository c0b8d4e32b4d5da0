import Mathlib

/-! Bounded records of recent keys: the newest last, the oldest evicted.

    `push` moves a key to the end and cuts the list to its last `cap` entries. What becomes of a key
    depends on nothing that came before it: its `fate`, the part of the list from the key on, is all
    that later operations read of the list as far as that key goes. -/

namespace Fallow.Lib.Recent
open List

variable {κ : Type*} {cap : ℕ} {k d : κ} {l : List κ}

/-! ### The last entries of a list -/

variable {n : ℕ} {α : Type*}

theorem rtake_of_length_le (h : l.length ≤ n) : l.rtake n = l := by
  rw [rtake, Nat.sub_eq_zero_of_le h, drop_zero]

/-- Cutting to the last `n` early or late is the same. -/
theorem rtake_rtake_append : (l.rtake n ++ m).rtake n = (l ++ m).rtake n := by
  have hle : l.length - n ≤ l.length := Nat.sub_le ..
  rw [rtake, rtake, rtake, ← drop_append_of_le_length hle, drop_drop]
  congr 1
  simp only [length_drop, length_append]
  omega

theorem rtake_append : (l ++ m).rtake n = l.rtake (n - m.length) ++ m.rtake n := by
  rw [rtake, rtake, rtake, drop_append, length_append]
  congr 1
  · by_cases hm : m.length ≤ n
    · congr 1; omega
    · rw [drop_eq_nil_of_le (by omega), drop_eq_nil_of_le (by omega)]
  · congr 1; omega

theorem length_rtake_le : (l.rtake n).length ≤ n := by
  rw [rtake, length_drop]
  omega

theorem mem_rtake_concat (h : 0 < n) : x ∈ (l ++ [x]).rtake n := by
  have hone : [x].length ≤ n := h
  rw [rtake_append, rtake_of_length_le hone]
  exact mem_append_right _ mem_cons_self

/-! ### Pushing -/

section
variable [DecidableEq κ] {older : List κ}

/-- Move a key to the end and evict the oldest beyond `cap`. -/
def push (cap : ℕ) (k : κ) (l : List κ) : List κ := (l.filter (· ≠ k) ++ [k]).rtake cap

theorem nodup_push (h : l.Nodup) : (push cap k l).Nodup := by
  refine List.Nodup.sublist (drop_sublist ..) (nodup_append.mpr ⟨h.filter _, by simp, ?_⟩)
  intro x hx y hy hxy
  rw [mem_singleton.mp hy] at hxy
  exact of_decide_eq_true (mem_filter.mp hx).2 hxy

theorem length_push_le : (push cap k l).length ≤ cap := length_rtake_le

theorem mem_of_mem_push (h : d ∈ push cap k l) : d = k ∨ d ∈ l := by
  rcases mem_append.mp (mem_of_mem_drop h) with h | h
  · exact .inr (mem_filter.mp h).1
  · exact .inl (mem_singleton.mp h)

theorem push_fresh (h : k ∉ l) : push cap k l = (l ++ [k]).rtake cap := by
  have hfilter : l.filter (· ≠ k) = l :=
    filter_eq_self.mpr fun x hx => decide_eq_true fun hxk => h (hxk ▸ hx)
  rw [push, hfilter]

/-- A key that is there moves to the end, and nothing is evicted. -/
theorem push_split (h : (older ++ k :: newer).Nodup) (hcap : (older ++ k :: newer).length ≤ cap) :
    push cap k (older ++ k :: newer) = older ++ newer ++ [k] := by
  obtain ⟨-, hnewer, hdisj⟩ := nodup_append.mp h
  have hold : older.filter (· ≠ k) = older := filter_eq_self.mpr fun x hx =>
    decide_eq_true (hdisj x hx k mem_cons_self)
  have hnew : newer.filter (· ≠ k) = newer := filter_eq_self.mpr fun x hx =>
    decide_eq_true fun hxk => (nodup_cons.mp hnewer).1 (hxk ▸ hx)
  rw [push, filter_append, filter_cons_of_neg (by simp), hold, hnew]
  refine rtake_of_length_le ?_
  simp only [length_append, length_cons, length_nil] at hcap ⊢
  omega

/-- The newest key is left where it is. -/
theorem push_last (h : l.Nodup) (hcap : l.length ≤ cap) (hlast : l.getLast? = some k) :
    push cap k l = l := by
  obtain ⟨older, rfl⟩ := getLast?_eq_some_iff.mp hlast
  rw [push_split h hcap, append_nil]

/-! ### Fates -/

/-- The list from a key on; empty when the key is not there. -/
def fate (d : κ) (l : List κ) : List κ := l.dropWhile (· ≠ d)

theorem fate_split (d : κ) (l : List κ) : ∃ older, d ∉ older ∧ l = older ++ fate d l := by
  refine ⟨l.takeWhile (· ≠ d), fun hd => ?_, takeWhile_append_dropWhile.symm⟩
  have := mem_takeWhile_imp hd
  simp at this

theorem fate_append (h : d ∉ older) (l : List κ) : fate d (older ++ l) = fate d l :=
  dropWhile_append_of_pos fun _ hx => decide_eq_true fun hxd => h (hxd ▸ hx)

theorem fate_of_not_mem (h : d ∉ l) : fate d l = [] := by
  have := fate_append h []
  rwa [append_nil] at this

theorem mem_iff_fate : d ∈ l ↔ d ∈ fate d l := by
  obtain ⟨older, hold, hl⟩ := fate_split d l
  constructor
  · intro hd
    rw [hl] at hd
    exact (mem_append.mp hd).resolve_left hold
  · exact fun hd => (dropWhile_sublist _).mem hd

/-- FRAME: what a push does to a key, it does to the key's fate. -/
theorem fate_push (cap : ℕ) (k d : κ) (l : List κ) :
    fate d (push cap k l) = fate d (push cap k (fate d l)) := by
  obtain ⟨older, hold, hl⟩ := fate_split d l
  have hpush : push cap k (older ++ fate d l)
      = (older.filter (· ≠ k)).rtake (cap - ((fate d l).filter (· ≠ k) ++ [k]).length)
        ++ push cap k (fate d l) := by
    rw [push, filter_append, append_assoc, rtake_append]
    rfl
  have hd : d ∉ (older.filter (· ≠ k)).rtake (cap - ((fate d l).filter (· ≠ k) ++ [k]).length) :=
    fun hd => hold (mem_filter.mp (mem_of_mem_drop hd)).1
  conv_lhs => rw [hl]
  rw [hpush, fate_append hd]

theorem fate_filter (p : κ → Bool) (d : κ) (l : List κ) :
    fate d (l.filter p) = fate d ((fate d l).filter p) := by
  obtain ⟨older, hold, hl⟩ := fate_split d l
  conv_lhs => rw [hl, filter_append]
  exact fate_append (fun hd => hold (mem_filter.mp hd).1) _

/-! ### Eviction -/

/-- Push keys one after another. -/
def pushes (cap : ℕ) (ks l : List κ) : List κ := ks.foldl (fun l k => push cap k l) l

theorem pushes_cons :
    pushes cap (k :: ks) l = pushes cap ks (push cap k l) := foldl_cons ..

/-- New keys go to the end one by one. -/
theorem pushes_fresh : ∀ (ks : List κ) (l : List κ), ks.Nodup → (∀ k ∈ ks, k ∉ l) →
    l.length ≤ cap → pushes cap ks l = (l ++ ks).rtake cap
  | [], l, _, _, hl => by rw [append_nil, rtake_of_length_le hl]; rfl
  | k :: ks, l, hks, hnew, hl => by
    obtain ⟨hk, hks⟩ := nodup_cons.mp hks
    have hnew' : ∀ k' ∈ ks, k' ∉ push cap k l := by
      intro k' hk' hmem
      rcases mem_of_mem_push hmem with rfl | hmem
      · exact hk hk'
      · exact hnew k' (mem_cons_of_mem _ hk') hmem
    rw [pushes_cons, pushes_fresh ks _ hks hnew' length_push_le, push_fresh (hnew k mem_cons_self),
      rtake_rtake_append, append_assoc, singleton_append]

/-- A key is evicted by as many new keys as fit behind it; renewed before, it outlives them. -/
theorem exists_evicting [Infinite α] [DecidableEq α] (hf : Function.Injective f)
    (hnodup : l.Nodup) (hcap : l.length ≤ cap) (hk : k ∈ l) (hlast : l.getLast? ≠ some k) :
    ∃ xs : List α, k ∉ pushes cap (xs.map f) l ∧ k ∈ pushes cap (xs.map f) (push cap k l) := by
  obtain ⟨older, newer, rfl⟩ := append_of_mem hk
  have hpos : 0 < newer.length := by
    refine length_pos_iff.mpr ?_
    rintro rfl
    exact hlast getLast?_concat
  have hlen : newer.length < cap := by
    simp only [length_append, length_cons] at hcap
    omega
  -- as many new keys as there is room behind the key
  obtain ⟨used, hused⟩ : ∃ used, used = (older ++ k :: newer).toFinset.preimage f hf.injOn := ⟨_, rfl⟩
  obtain ⟨more, hsub, hcard⟩ :=
    Infinite.exists_superset_card_eq used (used.card + (cap - newer.length)) (Nat.le_add_right ..)
  obtain ⟨ks, hks⟩ : ∃ ks, ks = (more \ used).toList.map f := ⟨_, rfl⟩
  have hnew : ∀ x ∈ ks, x ∉ older ++ k :: newer := by
    intro x hx
    rw [hks, mem_map] at hx
    obtain ⟨a, ha, rfl⟩ := hx
    rw [Finset.mem_toList, Finset.mem_sdiff, hused, Finset.mem_preimage, mem_toFinset] at ha
    exact ha.2
  have hkslen : ks.length = cap - newer.length := by
    rw [hks, length_map, Finset.length_toList, Finset.card_sdiff_of_subset hsub, hcard]
    omega
  have hksnodup : ks.Nodup := by rw [hks]; exact (Finset.nodup_toList _).map hf
  refine ⟨(more \ used).toList, ?_, ?_⟩
  · have hsplit : older ++ k :: newer ++ ks = (older ++ [k]) ++ (newer ++ ks) := by simp
    have hfull : (newer ++ ks).length = cap := by rw [length_append, hkslen]; omega
    rw [← hks, pushes_fresh ks _ hksnodup hnew hcap, hsplit, rtake_append, hfull, Nat.sub_self,
      rtake_zero, nil_append, rtake_of_length_le hfull.le, mem_append, not_or]
    refine ⟨fun hin => ?_, fun hin => hnew k hin hk⟩
    exact (nodup_cons.mp (nodup_append.mp hnodup).2.1).1 hin
  · have hnew' : ∀ x ∈ ks, x ∉ push cap k (older ++ k :: newer) := by
      intro x hx hin
      rcases mem_of_mem_push hin with rfl | hin
      · exact hnew x hx hk
      · exact hnew x hx hin
    have hroom : (k :: ks).length ≤ cap := by rw [length_cons, hkslen]; omega
    rw [← hks, pushes_fresh ks _ hksnodup hnew' length_push_le, push_split hnodup hcap,
      append_assoc, singleton_append, rtake_append, rtake_of_length_le hroom]
    exact mem_append_right _ mem_cons_self

end

end Fallow.Lib.Recent

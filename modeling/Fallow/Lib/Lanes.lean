import Fallow.Lib.Table

/-! A dictionary of queues: named lanes, each first in first out.

    A lane is made when the first one enters and goes when the last one leaves, so in a tidy dictionary
    every lane has someone in it:

        enter k a    lanes[k] ++ [a]
        leave k a    lanes[k] without a, and no lanes[k] if that is empty -/

namespace Fallow.Lib.Lanes
open List Option Table

structure Lane (κ α : Type) where
  name : κ
  queue : List α
  deriving DecidableEq

section
variable {κ α : Type} [DecidableEq κ]

def queueOf (ls : List (Lane κ α)) (k : κ) : List α :=
  ((Table.get Lane.name ls k).map (·.queue)).getD []

/-- Everyone, lane by lane. -/
def everyone (ls : List (Lane κ α)) : List α := ls.flatMap (·.queue)

/-- `d.setdefault(k, deque()).append(a)`. -/
def enter (k : κ) (a : α) (ls : List (Lane κ α)) : List (Lane κ α) :=
  Table.update (·.name = k) (fun q => { q with queue := q.queue ++ [a] })
    (Table.insertIgnore Lane.name ⟨k, []⟩ ls)

/-- `d[k].remove(a)`, then `del d[k]` if that leaves it empty; `none` when `a` is not in the lane. -/
def leave [DecidableEq α] (k : κ) (a : α) (ls : List (Lane κ α)) : Option (List (Lane κ α)) :=
  match Table.get Lane.name ls k with
  | none => none
  | some q =>
    if a ∈ q.queue then
      some (if q.queue.erase a = [] then ls.filter (·.name ≠ k)
        else Table.update (·.name = k) (fun q => { q with queue := q.queue.erase a }) ls)
    else none

structure Tidy (ls : List (Lane κ α)) : Prop where
  keyed : Table.Keyed Lane.name ls
  nonempty : ∀ q ∈ ls, q.queue ≠ []

omit [DecidableEq κ] in
theorem tidy_nil : Tidy ([] : List (Lane κ α)) := ⟨nodup_nil, nofun⟩

variable {ls : List (Lane κ α)} {k : κ}

variable {q : Lane κ α}

/-- One lane between the others. -/
theorem exists_split (hk : Table.Keyed Lane.name ls) (h : Table.get Lane.name ls k = some q) :
    q.name = k ∧ ∃ l r, ls = l ++ q :: r ∧ ∀ x ∈ l ++ r, x.name ≠ k := by
  have hname : q.name = k := key_of_get h
  obtain ⟨l, r, rfl⟩ := append_of_mem (mem_of_get h)
  refine ⟨hname, l, r, rfl, fun x hx hxk => ?_⟩
  rw [Table.Keyed, map_append, map_cons, nodup_middle, nodup_cons] at hk
  refine hk.1 ?_
  rw [← map_append, hname, ← hxk]
  exact mem_map_of_mem hx

theorem update_split (hq : q.name = k) (hothers : ∀ x ∈ l ++ r, x.name ≠ k) :
    Table.update (·.name = k) f (l ++ q :: r) = l ++ f q :: r := by
  have hsame : ∀ xs : List (Lane κ α), (∀ x ∈ xs, x.name ≠ k) →
      Table.update (·.name = k) f xs = xs := fun xs hxs =>
    update_none fun x hx => decide_eq_false (hxs x hx)
  have hl := hsame l fun x hx => hothers x (mem_append_left _ hx)
  have hr := hsame r fun x hx => hothers x (mem_append_right _ hx)
  rw [Table.update] at hl hr ⊢
  rw [map_append, map_cons, hl, hr, if_pos (decide_eq_true hq)]

theorem filter_split (hq : q.name = k)
    (hothers : ∀ x ∈ l ++ r, x.name ≠ k) : (l ++ q :: r).filter (·.name ≠ k) = l ++ r := by
  rw [filter_append, filter_cons_of_neg (by simpa using hq), ← filter_append]
  exact filter_eq_self.2 fun x hx => decide_eq_true (hothers x hx)

/-! ### Entering -/

theorem get_enter : Table.get Lane.name (enter k a ls) k' =
      if k' = k then some ⟨k, queueOf ls k ++ [a]⟩ else Table.get Lane.name ls k' := by
  rw [enter, get_update (by intro _ _; rfl), get_insertIgnore]
  by_cases h : k' = k
  · subst h
    rw [if_pos rfl, if_pos rfl, queueOf]
    cases hg : Table.get Lane.name ls k' with
    | none => simp
    | some q =>
      have hq : q.name = k' := key_of_get hg
      simp [hq]
  · rw [if_neg h, if_neg (fun he => h he.symm), or_none]
    cases hg : Table.get Lane.name ls k' with
    | none => rfl
    | some q =>
      have hq : q.name = k' := key_of_get hg
      simp [hq, h]

theorem queueOf_enter (ls : List (Lane κ α)) (k : κ) (a : α) (k' : κ) :
    queueOf (enter k a ls) k' = if k' = k then queueOf ls k ++ [a] else queueOf ls k' := by
  rw [queueOf, get_enter]
  split
  · rfl
  · rfl

theorem Tidy.enter (h : Tidy ls) (k : κ) (a : α) : Tidy (enter k a ls) := by
  refine ⟨keyed_update (by intro _ _; rfl) (keyed_insertIgnore h.keyed), fun q hq => ?_⟩
  obtain ⟨q', hq', rfl⟩ := mem_update.1 hq
  split
  · simp
  next hname =>
  have hin : q' ∈ ls := by
    rw [Table.insertIgnore] at hq'
    split at hq'
    · exact hq'
    rcases mem_append.1 hq' with hq' | hq'
    · exact hq'
    · rw [mem_singleton.1 hq'] at hname
      exact absurd rfl (of_decide_eq_false (Bool.eq_false_iff.2 hname))
  exact h.nonempty q' hin

theorem everyone_enter (h : Tidy ls) (k : κ) (a : α) :
    (everyone (enter k a ls)).Perm (a :: everyone ls) := by
  rw [enter, Table.insertIgnore]
  cases hg : Table.get Lane.name ls k with
  | none =>
    have hothers : ∀ x ∈ ls ++ [], x.name ≠ k := by
      rw [append_nil]
      exact get_eq_none.1 hg
    rw [if_neg (by simp), update_split (show (⟨k, []⟩ : Lane κ α).name = k from rfl) hothers]
    simp [everyone]
  | some q =>
    obtain ⟨hq, l, r, rfl, hothers⟩ := exists_split h.keyed hg
    rw [if_pos (by simp), update_split hq hothers]
    simp only [everyone, flatMap_append, flatMap_cons, append_assoc, singleton_append]
    exact (perm_middle.append_left _).trans perm_middle

/-! ### Leaving -/

variable [DecidableEq α]

variable {a : α}

theorem leave_eq_none : leave k a ls = none ↔ a ∉ queueOf ls k := by
  rw [leave, queueOf]
  cases Table.get Lane.name ls k with
  | none => simp
  | some q => simp

variable {ls' : List (Lane κ α)}

/-- The lane that is left, between the others. -/
theorem leave_split (hk : Table.Keyed Lane.name ls) (h : leave k a ls = some ls') :
    ∃ q l r, q.name = k ∧ a ∈ q.queue ∧ ls = l ++ q :: r ∧ (∀ x ∈ l ++ r, x.name ≠ k) ∧
      ls' = if q.queue.erase a = [] then l ++ r else l ++ ⟨q.name, q.queue.erase a⟩ :: r := by
  rw [leave] at h
  cases hg : Table.get Lane.name ls k with
  | none =>
    rw [hg] at h
    cases h
  | some q =>
    rw [hg] at h
    dsimp only at h
    split at h
    · next hin =>
      obtain ⟨hq, l, r, rfl, hothers⟩ := exists_split hk hg
      refine ⟨q, l, r, hq, hin, rfl, hothers, (some.inj h).symm.trans ?_⟩
      rw [filter_split hq hothers, update_split hq hothers]
    · cases h

theorem Tidy.leave (ht : Tidy ls) (h : leave k a ls = some ls') : Tidy ls' := by
  obtain ⟨q, l, r, hq, hin, rfl, hothers, rfl⟩ := leave_split ht.keyed h
  have hkeys := ht.keyed
  rw [Table.Keyed, map_append, map_cons] at hkeys
  have hrest : ∀ x ∈ l ++ r, x.queue ≠ [] := fun x hx => ht.nonempty x (by
    rw [mem_append, mem_cons]
    rw [mem_append] at hx
    exact hx.imp_right .inr)
  split
  · refine ⟨?_, hrest⟩
    rw [Table.Keyed, map_append]
    exact (nodup_cons.1 (nodup_middle.1 hkeys)).2
  · next hne =>
    refine ⟨?_, fun x hx => ?_⟩
    · rw [Table.Keyed, map_append, map_cons]
      exact hkeys
    · rw [mem_append, mem_cons] at hx
      rcases hx with hx | rfl | hx
      · exact hrest x (mem_append_left _ hx)
      · exact hne
      · exact hrest x (mem_append_right _ hx)

theorem everyone_leave (ht : Tidy ls)
    (h : leave k a ls = some ls') : (everyone ls).Perm (a :: everyone ls') := by
  obtain ⟨q, l, r, hq, hin, rfl, hothers, rfl⟩ := leave_split ht.keyed h
  have hperm : (everyone (l ++ q :: r)).Perm
      (a :: (everyone l ++ (q.queue.erase a ++ everyone r))) := by
    simp only [everyone, flatMap_append, flatMap_cons]
    exact (((perm_cons_erase hin).append_right _).append_left _).trans perm_middle
  refine hperm.trans (.of_eq ?_)
  split
  · next hnil => simp [everyone, hnil]
  · simp [everyone]

theorem queueOf_leave (h : leave k a ls = some ls') (k' : κ) :
    queueOf ls' k' = if k' = k then (queueOf ls k).erase a else queueOf ls k' := by
  rw [leave] at h
  cases hg : Table.get Lane.name ls k with
  | none =>
    rw [hg] at h
    cases h
  | some q =>
    rw [hg] at h
    dsimp only at h
    split at h
    · have hq : queueOf ls k = q.queue := by
        rw [queueOf, hg]
        rfl
      rw [hq, ← some.inj h]
      split
      · next hnil =>
        rw [queueOf, get_filter_ne]
        split
        · rw [hnil]
          rfl
        · rfl
      · rw [queueOf, get_update (by intro _ _; rfl)]
        by_cases hk : k' = k
        · subst hk
          have hname : q.name = k' := key_of_get hg
          simp [hg, hname]
        · rw [if_neg hk, queueOf]
          cases hg' : Table.get Lane.name ls k' with
          | none => rfl
          | some q' =>
            have hname : q'.name = k' := key_of_get hg'
            simp [hname, hk]
    · cases h

omit [DecidableEq α] in
theorem mem_everyone (ht : Tidy ls) : a ∈ everyone ls ↔ ∃ k, a ∈ queueOf ls k := by
  rw [everyone, mem_flatMap]
  constructor
  · rintro ⟨q, hq, ha⟩
    refine ⟨q.name, ?_⟩
    rw [queueOf, get_of_mem ht.keyed hq]
    exact ha
  · rintro ⟨k, ha⟩
    rw [queueOf] at ha
    cases hg : Table.get Lane.name ls k with
    | none =>
      rw [hg] at ha
      cases ha
    | some q =>
      rw [hg] at ha
      exact ⟨q, mem_of_get hg, ha⟩

end

end Fallow.Lib.Lanes

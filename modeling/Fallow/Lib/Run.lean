import Mathlib

/-! Runs of a system given by a step function, and the one induction every safety result uses.

    A run is a list of actions folded over a state. `Reach step ok s₀ s` says that `s` is reached
    from `s₀` by actions each of which meets `ok` in the state it is taken in; with `ok` always
    true this is plain reachability. An invariant is proved once per step and lifted to whole runs
    by `Reach.invariant`, or by `runs_invariant` where every action is admitted. -/

namespace Fallow.Lib
open List

variable {S A : Type*}

/-- Fold a list of actions over a state. -/
def runs (step : S → A → S) (s : S) (acts : List A) : S := acts.foldl step s

variable {s : S} {acts : List A} {step : S → A → S} {a : A}

theorem runs_cons : runs step s (a :: acts) = runs step (step s a) acts := foldl_cons ..

theorem runs_append :
    runs step s (acts ++ acts') = runs step (runs step s acts) acts' := foldl_append ..

/-- States reached from `s₀` by actions that meet `ok` in the state they are taken in. -/
inductive Reach (step : S → A → S) (ok : S → A → Prop) (s₀ : S) : S → Prop where
  | start : Reach step ok s₀ s₀
  | next {s : S} {a : A} : Reach step ok s₀ s → ok s a → Reach step ok s₀ (step s a)

variable {step : S → A → S} {ok : S → A → Prop}

variable {s₀ s' : S} {l : List A} {x : A}

theorem Reach.to
    (h : Reach step ok s₀ s) (hstep : step s a = s') (hok : ok s a) : Reach step ok s₀ s' :=
  hstep ▸ h.next hok

/-- One run after another, the second under a condition that implies that of the first. -/
theorem Reach.after
    (h : Reach step ok s s') (h₀ : Reach step ok' s₀ s) (himp : ∀ s a, ok s a → ok' s a) :
    Reach step ok' s₀ s' := by
  induction h with
  | start => exact h₀
  | next _ hok ih => exact ih.next (himp _ _ hok)

/-- INVARIANT: true at the start and kept by every admissible step, so true in every state. -/
theorem Reach.invariant (Inv : S → Prop)
    (h₀ : Inv s₀) (hstep : ∀ s a, Inv s → ok s a → Inv (step s a))
    (h : Reach step ok s₀ s) : Inv s := by
  induction h with
  | start => exact h₀
  | next _ hok ih => exact hstep _ _ ih hok

/-- Every action of the list meets `ok` in the state it is taken in. -/
def Admitted (step : S → A → S) (ok : S → A → Prop) : S → List A → Prop
  | _, [] => True
  | s, a :: acts => ok s a ∧ Admitted step ok (step s a) acts

instance (step : S → A → S) (ok : S → A → Prop) [∀ s a, Decidable (ok s a)] :
    ∀ (s : S) (acts : List A), Decidable (Admitted step ok s acts)
  | _, [] => isTrue trivial
  | s, a :: acts =>
    have := instDecidableAdmitted step ok (step s a) acts
    inferInstanceAs (Decidable (_ ∧ _))

theorem admitted_append :
    ∀ (acts acts' : List A) (s : S), Admitted step ok s (acts ++ acts') ↔
      Admitted step ok s acts ∧ Admitted step ok (runs step s acts) acts'
  | [], _, _ => (and_iff_right trivial).symm
  | a :: acts, acts', s => by
    have ih := (admitted_append acts acts' (step s a) : _ ↔ Admitted step ok _ _ ∧ _)
    rw [cons_append, Admitted, Admitted, runs_cons, ih, and_assoc]

/-- A list of admitted actions is a run. -/
theorem Admitted.reach : ∀ (acts : List A) {s : S}, Reach step ok s₀ s → Admitted step ok s acts →
      Reach step ok s₀ (runs step s acts)
  | [], _, hs, _ => hs
  | _ :: acts, _, hs, h => Admitted.reach acts (hs.next h.1) h.2

/-- Actions that are fine in any state are admitted in every order. -/
theorem Admitted.of_forall {ok : A → Prop} :
    ∀ (acts : List A) (s : S), (∀ a ∈ acts, ok a) → Admitted step (fun _ => ok) s acts
  | [], _, _ => trivial
  | a :: acts, s, h =>
    ⟨h a mem_cons_self,
      Admitted.of_forall acts (step s a) fun a' ha' => h a' (mem_cons_of_mem _ ha')⟩

/-- INVARIANT: what every step keeps, every run keeps. -/
theorem runs_invariant (Inv : S → Prop) (hinv : ∀ s a, Inv s → Inv (step s a)) :
    ∀ (acts : List A) (s : S), Inv s → Inv (runs step s acts)
  | [], _, h => h
  | a :: acts, s, h => runs_invariant Inv hinv acts (step s a) (hinv s a h)

/-- A property that one step keeps exactly when it is admitted holds at the end of exactly the runs
    of admitted steps. -/
theorem runs_iff_admitted (Inv P : S → Prop) (hinv : ∀ s a, Inv s → Inv (step s a))
    (hP : ∀ s a, Inv s → (P (step s a) ↔ P s ∧ ok s a)) :
    ∀ (acts : List A) (s : S), Inv s → (P (runs step s acts) ↔ P s ∧ Admitted step ok s acts)
  | [], _, _ => (and_iff_left trivial).symm
  | a :: acts, s, h => by
    rw [runs_cons, runs_iff_admitted Inv P hinv hP acts (step s a) (hinv s a h), hP s a h, and_assoc]
    exact Iff.rfl

/-- FRAME: a property one step keeps from any state satisfying `Inv` is kept by every run. -/
theorem runs_preserve (Inv P : S → Prop)
    (hinv : ∀ s a, Inv s → Inv (step s a)) (hP : ∀ s a, Inv s → P s → P (step s a))
    (hi : Inv s) (h : P s) : P (runs step s acts) :=
  (runs_invariant (fun s => Inv s ∧ P s)
    (fun s a hs => ⟨hinv s a hs.1, hP s a hs.1 hs.2⟩) acts s ⟨hi, h⟩).2

/-- A history that grows at its end: the old places, and one more. -/
theorem split_concat (h : es ++ [e] = pre ++ x :: post) :
    (∃ post', post = post' ++ [e] ∧ es = pre ++ x :: post') ∨ (pre = es ∧ e = x ∧ post = []) := by
  rcases eq_nil_or_concat post with rfl | ⟨post', e', rfl⟩
  · obtain ⟨rfl, he⟩ := append_inj' h rfl
    exact .inr ⟨rfl, (List.cons.inj he).1, rfl⟩
  · rw [concat_eq_append, ← cons_append, ← append_assoc] at h
    obtain ⟨rfl, he⟩ := append_inj' h rfl
    exact .inl ⟨post', by rw [concat_eq_append, ← (List.cons.inj he).1], rfl⟩

theorem mem_concat : x ∈ l ++ [a] ↔ x ∈ l ∨ x = a := by
  rw [mem_append, mem_singleton]

theorem forall_mem_concat {P : A → Prop} : (∀ x ∈ l ++ [a], P x) ↔ (∀ x ∈ l, P x) ∧ P a := by
  rw [forall_mem_append, forall_mem_singleton]

/-- Its entries by number. -/
theorem getElem?_concat_iff :
    (xs ++ [x])[i]? = some z ↔ xs[i]? = some z ∨ (i = xs.length ∧ z = x) := by
  grind

/-- A table in which one entry was put. -/
theorem update_eq_some {K : Type*} [DecidableEq K] {f : K → Option A} {i j : K} :
    Function.update f i (some x) j = some y ↔ (j = i ∧ x = y) ∨ (j ≠ i ∧ f j = some y) := by
  by_cases h : j = i
  · simp [h]
  · simp [h]

end Fallow.Lib

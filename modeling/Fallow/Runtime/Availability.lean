import Fallow.Lib.Run

/-! `availability.go`: the view the claim runner reads, and the fence of `runClaim`.

        ready ──(user, reclaim, no replica)──▶ away ──(all clear)──▶ ready
           gen + 1, Changed closed                 Changed closed

    A claim is admitted under one snapshot and served if a second one is ready and has the same
    generation. The generation moves on one of the two edges only, the channel on both. As it is a
    `uint64`, the fence sees every interruption unless 2⁶⁴ of them fall between the two reads. -/

namespace Fallow.Runtime
open Lib List

inductive FailureCode where
  | reclaimed
  | becameActive
  | cancelled
  deriving DecidableEq, Repr

/-- The view; channels are numbered in the order they are made. -/
structure Availability where
  active : Bool := false
  reclaimed : Bool := false
  hasReady : Bool := false
  ready : Bool := false
  gen : UInt64 := 0
  code : Option FailureCode := none
  changed : ℕ := 0
  closed : List ℕ := []

structure Snapshot where
  ready : Bool
  generation : UInt64
  changed : ℕ
  unavailableCode : Option FailureCode

namespace Availability

def snapshot (a : Availability) : Snapshot := ⟨a.ready, a.gen, a.changed, a.code⟩

/-- Reclaim wins over an active user. -/
def unavailableReason (a : Availability) : FailureCode :=
  if a.reclaimed then .reclaimed else if a.active then .becameActive else .cancelled

def recompute (a : Availability) : Availability :=
  let next := !a.active && !a.reclaimed && a.hasReady
  if next = a.ready then a
  else { a with
    gen := if a.ready then a.gen + 1 else a.gen
    code := if a.ready then some a.unavailableReason else none
    ready := next
    closed := a.changed :: a.closed
    changed := a.changed + 1 }

/-- The setters, each under the mutex. -/
inductive Call where
  | setActive (active : Bool)
  | setReclaimed (reclaimed : Bool)
  | setReplicaReady (hasReady : Bool)
  deriving DecidableEq, Repr

def Call.set (a : Availability) : Call → Availability
  | .setActive active => { a with active := active }
  | .setReclaimed reclaimed => { a with reclaimed := reclaimed }
  | .setReplicaReady hasReady => { a with hasReady := hasReady }

def step (a : Availability) (c : Call) : Availability := (c.set a).recompute

/-- The gate of `runClaim`. -/
def passes (a : Availability) (admitting : Snapshot) : Bool :=
  a.snapshot.ready && a.snapshot.generation == admitting.generation

/-- `cancelOnChange`: whether the claim's context is cancelled once its goroutine has looked. -/
def cancelOnChange (a : Availability) (changed : ℕ) : Bool := changed ∈ a.closed

/-- The changes away from ready. -/
def aways : Availability → List Call → ℕ
  | _, [] => 0
  | a, c :: cs => (if a.ready && !(a.step c).ready then 1 else 0) + aways (a.step c) cs

/-! ### One call -/

variable {a : Availability} {c : Call} {cs : List Call}

/-- A call leaves what the runner sees, or flips it and closes the channel. -/
theorem step_cases (a : Availability) (c : Call) :
    (a.step c).snapshot = a.snapshot ∧ (a.step c).closed = a.closed ∨ (a.step c).ready = !a.ready ∧
      (a.step c).gen = (if a.ready then a.gen + 1 else a.gen) ∧
      (a.step c).closed = a.changed :: a.closed := by
  by_cases h : (!(c.set a).active && !(c.set a).reclaimed && (c.set a).hasReady) = (c.set a).ready
  · rw [step, recompute, if_pos h]
    cases c <;> exact .inl ⟨rfl, rfl⟩
  · rw [step, recompute, if_neg h]
    cases c <;> exact .inr ⟨Bool.eq_not_of_ne h, rfl, rfl⟩

/-! ### Every run -/

/-- INVARIANT: the generation counts the changes away, modulo 2⁶⁴. -/
theorem gen_runs (a : Availability) (cs : List Call) :
    (runs step a cs).gen = a.gen + UInt64.ofNat (aways a cs) := by
  induction cs generalizing a with
  | nil => simp [aways, runs]
  | cons c cs ih =>
    rw [runs_cons, ih, aways, UInt64.ofNat_add, ← add_assoc]
    congr 1
    rcases step_cases a c with ⟨h, -⟩ | ⟨hr, hg, -⟩
    · have hr : (a.step c).ready = a.ready := congrArg Snapshot.ready h
      simp [hr, show (a.step c).gen = a.gen from congrArg Snapshot.generation h]
    · cases ha : a.ready <;> simp [hr, hg, ha]

/-- Without a change away, a view that is ready stays as it was. -/
theorem steady (hr : a.ready = true) (h : aways a cs = 0) :
    (runs step a cs).snapshot = a.snapshot := by
  induction cs generalizing a with
  | nil => rfl
  | cons c cs ih =>
    rw [aways, Nat.add_eq_zero_iff] at h
    rcases step_cases a c with ⟨hs, -⟩ | ⟨hn, -⟩
    · exact (ih ((congrArg Snapshot.ready hs).trans hr) h.2).trans hs
    · simp [hn, hr] at h

/-- INVARIANT: a closed channel stays closed. -/
theorem closed_runs (h : n ∈ a.closed) : n ∈ (runs step a cs).closed := by
  refine runs_invariant (fun b => n ∈ b.closed) (fun b c hb => ?_) cs a h
  rcases step_cases b c with ⟨-, hc⟩ | ⟨-, -, hc⟩
  · rw [hc]; exact hb
  · rw [hc]; exact mem_cons_of_mem _ hb

/-- A run from ready to away has closed the channel it began with. -/
theorem closed_of_away (hr : a.ready = true) (h : (runs step a cs).ready = false) :
    a.changed ∈ (runs step a cs).closed := by
  induction cs generalizing a with
  | nil => exact absurd (hr.symm.trans h) nofun
  | cons c cs ih =>
    rcases step_cases a c with ⟨hs, -⟩ | ⟨-, -, hc⟩
    · rw [← show (a.step c).changed = a.changed from congrArg Snapshot.changed hs]
      exact ih ((congrArg Snapshot.ready hs).trans hr) h
    · rw [runs_cons]
      exact closed_runs (by rw [hc]; exact mem_cons_self)

theorem aways_append (a : Availability) (pre post : List Call) :
    aways a (pre ++ post) = aways a pre + aways (runs step a pre) post := by
  induction pre generalizing a with
  | nil => simp [aways, runs]
  | cons c pre ih => rw [cons_append, aways, ih, aways, runs_cons, Nat.add_assoc]

/-- For every interleaving: a claim that passes the gate saw a ready view throughout, if fewer than
    2⁶⁴ changes away lie between its two reads, and any later one cancels it. -/
theorem served_claim_uninterrupted (a : Availability) (between : List Call) (hr : a.ready = true)
    (hgate : (runs step a between).passes a.snapshot = true) (hfew : aways a between < 2 ^ 64) :
    (∀ pre post, between = pre ++ post → (runs step a pre).ready = true) ∧
      ∀ later rest, (runs step a (between ++ later)).ready = false →
        (runs step a (between ++ later ++ rest)).cancelOnChange a.snapshot.changed = true := by
  obtain ⟨-, hgen⟩ : _ ∧ (runs step a between).gen = a.gen := by
    simpa [passes, snapshot] using hgate
  rw [gen_runs, add_eq_left] at hgen
  have hzero : aways a between = 0 := by
    rw [← UInt64.toNat_ofNat_of_lt' hfew, hgen]
    rfl
  refine ⟨?_, fun later rest h => ?_⟩
  · rintro pre post rfl
    rw [aways_append, Nat.add_eq_zero_iff] at hzero
    exact (congrArg Snapshot.ready (steady hr hzero.1)).trans hr
  · rw [runs_append]
    exact decide_eq_true (closed_runs (closed_of_away hr h))

/-- A view with a replica and nobody at the machine. -/
def free (gen : UInt64) (changed : ℕ) (closed : List ℕ) : Availability :=
  { hasReady := true, ready := true, gen := gen, changed := changed, closed := closed }

theorem served_claim_uninterrupted_free : (∀ pre post, [Call.setReclaimed false] = pre ++ post →
      (runs step (free 0 1 [0]) pre).ready = true) ∧
    (runs step (free 0 1 [0]) [.setReclaimed false, .setActive true]).cancelOnChange 1 = true := by
  have h := served_claim_uninterrupted (free 0 1 [0]) [.setReclaimed false] rfl (by decide) (by decide)
  exact ⟨h.1, h.2 [.setActive true] [] (by decide)⟩

/-- The user comes and goes, so many times. -/
def visits (n : ℕ) : List Call := (replicate n [.setActive true, .setActive false]).flatten

theorem runs_visits (n : ℕ) (gen : UInt64) (changed : ℕ) (closed : List ℕ) :
    ∃ changed' closed', runs step (free gen changed closed) (visits n)
      = free (gen + UInt64.ofNat n) changed' closed' := by
  induction n generalizing gen changed closed with
  | zero => exact ⟨changed, closed, by simp [visits, runs]⟩
  | succ n ih =>
    obtain ⟨changed', closed', h⟩ := ih (gen + 1) (changed + 2) ((changed + 1) :: changed :: closed)
    refine ⟨changed', closed', h.trans ?_⟩
    rw [UInt64.ofNat_add, add_assoc, add_comm 1]
    rfl

/-- After 2⁶⁴ visits the claim is served. -/
theorem visits_pass_unseen : runs step {} [.setReplicaReady true] = free 0 1 [0] ∧
    (runs step (free 0 1 [0]) (visits (2 ^ 64))).passes (free 0 1 [0]).snapshot = true ∧
    ∃ pre post, visits (2 ^ 64) = pre ++ post ∧ (runs step (free 0 1 [0]) pre).ready = false := by
  obtain ⟨changed, closed, h⟩ := runs_visits (2 ^ 64) 0 1 [0]
  refine ⟨rfl, by rw [h]; rfl, [.setActive true], .setActive false :: visits (2 ^ 64 - 1), ?_,
    by decide⟩
  exact congrArg flatten (replicate_succ (n := 2 ^ 64 - 1))

end Availability
end Fallow.Runtime

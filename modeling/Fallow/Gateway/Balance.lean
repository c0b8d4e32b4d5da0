import Fallow.Gateway.Lifecycle
import Fallow.Lib.Tally

/-! Slots balance, except where an exception goes past them.

    INVARIANT: the tracker's count at an address is the number of slots taken there and not given
    back. A request with an attempt or a stream under way owes exactly its newest slot.

        count k  =  Σ over requests of the slots at k they owe
                 =  unfinished attempts and streams at k  +  slots of ended requests

    The second summand is what an answer that leaks adds to, once and for good: nothing ever runs
    again for a request that has ended. -/

namespace Fallow.Gateway.Lifecycle
open Registry Lib List Request

namespace Request

variable {cfg : Config} {r : Request} {t : Tracker} {a : Answer} {e : Effect}

/-- Slots at `k` the request took and did not give back. -/
def owed (r : Request) (k : String × ℕ) : ℕ :=
  r.holds.countP fun h => h.key = k ∧ h.releases = 0

/-- INVARIANT: a request under way owes its newest slot and no other. -/
structure Shaped (r : Request) : Prop where
  idle : r.phase = .admitting → r.holds = []
  busy : ∀ k, r.phase.occupied = some k →
    ∃ hs, r.holds = ⟨k, 0⟩ :: hs ∧ ∀ h ∈ hs, h.releases = 1

/-- Every slot of an ended request was given back exactly once. -/
def Clean (r : Request) : Prop := r.phase = .ended → ∀ h ∈ r.holds, h.releases = 1

theorem Clean.of_forall (h : ∀ x ∈ r.holds, x.releases = 1) : r.Clean := fun _ => h

variable {k : String × ℕ}

theorem Clean.of_busy (hk : r.phase.occupied = some k) : r.Clean :=
  fun he => absurd he (Phase.ne_ended_of_occupied hk)

theorem Clean.of_admitting (ha : r.phase = .admitting) : r.Clean :=
  fun he => absurd (ha.symm.trans he) nofun

variable {hs : List InflightHold}

theorem release_eq (h : r.holds = ⟨k, 0⟩ :: hs) : r.release t = ({ r with holds := ⟨k, 1⟩ :: hs }, t.release k) := by
  rw [release, h]
  rfl

theorem owed_of_released (h : ∀ x ∈ hs, x.releases = 1) :
    hs.countP (fun h => h.key = k ∧ h.releases = 0) = 0 := by
  rw [countP_eq_zero]
  intro x hx
  simp [h x hx]

theorem Shaped.of_busy (hp : r.phase.occupied = some k)
    (hh : r.holds = ⟨k, 0⟩ :: hs) (hall : ∀ h ∈ hs, h.releases = 1) : r.Shaped where
  idle ha := by
    rw [ha] at hp
    cases hp
  busy k' hk' := by
    obtain rfl : k = k' := Option.mem_unique hp hk'
    exact ⟨hs, hh, hall⟩

theorem Shaped.of_ended (hp : r.phase = .ended) : r.Shaped where
  idle ha := by
    rw [hp] at ha
    cases ha
  busy k hk := by
    rw [hp] at hk
    cases hk

theorem Shaped.owed_of_busy (h : r.Shaped) (hk : r.phase.occupied = some k)
    (k' : String × ℕ) : r.owed k' = if k' = k then 1 else 0 := by
  obtain ⟨hs, hh, hall⟩ := h.busy k hk
  rw [owed, hh, countP_cons, owed_of_released hall]
  simp [eq_comm]

end Request

namespace Move

variable {r : Request} {t : Tracker} {e : Effect}

/-- The move keeps the shape of the request. -/
theorem shaped (hs : r.Shaped) (h : Move r t e) : e.request.Shaped := by
  cases h with
  | idle => exact hs
  | goes hk hp =>
    obtain ⟨hs', hold, hall⟩ := hs.busy _ hk
    exact .of_busy hp hold hall
  | admits ha hh hp => exact .of_busy hp (hs.idle ha ▸ hh) (by simp)
  | refuses ha => exact .of_ended rfl
  | repicks hk hh hp =>
    obtain ⟨hs', hold, hall⟩ := hs.busy _ hk
    rw [release_eq hold] at hh
    exact .of_busy hp hh (by simpa using hall)
  | settles hk hh hp => exact .of_ended hp

/-- The tracker moves by what the request owes. -/
theorem owes (hs : r.Shaped) (hle : ∀ k, r.owed k ≤ t k) (h : Move r t e) (k : String × ℕ) :
    e.tracker k + r.owed k = t k + e.request.owed k := by
  cases h with
  | idle | goes hk hp | refuses ha => rfl
  | @admits r' k₁ ha hh hp =>
    have hr : r.owed k = 0 := by rw [owed, hs.idle ha, countP_nil]
    have hr' : r'.owed k = if k = k₁ then 1 else 0 := by
      rw [owed, hh, hs.idle ha]
      simp [countP_cons, eq_comm]
    simp only [Tracker.hold, hr, hr']
    split <;> omega
  | @repicks r' k₀ k₁ hk hh hp =>
    obtain ⟨hs', hold, hall⟩ := hs.busy _ hk
    have hr := hs.owed_of_busy hk k
    have hle' := hle k
    rw [release_eq hold] at hh ⊢
    have hr' : r'.owed k = if k = k₁ then 1 else 0 := by
      rw [owed, hh, countP_cons, countP_cons, owed_of_released hall]
      simp [eq_comm]
    simp only [Tracker.hold, Tracker.release]
    split_ifs at hr hr' ⊢ <;> omega
  | @settles r' k₀ entry hk hh hp =>
    obtain ⟨hs', hold, hall⟩ := hs.busy _ hk
    have hr := hs.owed_of_busy hk k
    have hle' := hle k
    rw [release_eq hold] at hh ⊢
    have hr' : r'.owed k = 0 := by
      rw [owed, hh, countP_cons, owed_of_released hall]
      simp
    simp only [Tracker.release]
    split_ifs at hr ⊢ <;> omega

/-- A request that had ended stays as it is, and one that ends now ends clean. -/
theorem clean_iff (hs : r.Shaped) (h : Move r t e) : e.request.Clean ↔ r.Clean := by
  cases h with
  | idle => rfl
  | goes hk hp | repicks hk hh hp => exact iff_of_true (.of_busy hp) (.of_busy hk)
  | admits ha hh hp => exact iff_of_true (.of_busy hp) (.of_admitting ha)
  | refuses ha =>
    refine iff_of_true (.of_forall fun h hh => ?_) (.of_admitting ha)
    have hm : h ∈ r.holds := hh
    rw [hs.idle ha] at hm
    cases hm
  | settles hk hh hp =>
    obtain ⟨hs', hold, hall⟩ := hs.busy _ hk
    rw [release_eq hold] at hh
    refine iff_of_true (.of_forall fun h hm => ?_) (.of_busy hk)
    rw [hh] at hm
    rcases mem_cons.1 hm with rfl | hm
    · rfl
    · exact hall h hm

end Move

/-! ### One step, whatever the answer -/

namespace Request

variable {cfg : Config} {r : Request} {t : Tracker} {a : Answer} {pick : Option ReplicaEndpoint}

/-- An exception that leaves the request, or a move. -/
theorem resume_raised_or_move :
    r.resume cfg t a pick = r.raised t ∨ Move r t (r.resume cfg t a pick) := by
  cases hl : r.leaks a with
  | true => exact .inl (resume_of_leaks hl)
  | false =>
    cases hf : r.lost cfg a with
    | true => exact .inl (resume_of_lost hf)
    | false => exact .inr (resume_cases hl hf)

theorem resume_shaped (hs : r.Shaped) : (r.resume cfg t a pick).request.Shaped := by
  obtain h | h := resume_raised_or_move
  · rw [h]
    exact .of_ended rfl
  · exact h.shaped hs

theorem resume_owes (cfg : Config) (a : Answer) (pick : Option ReplicaEndpoint) (hs : r.Shaped)
    (hle : ∀ k, r.owed k ≤ t k) (k : String × ℕ) : (r.resume cfg t a pick).tracker k + r.owed k
      = t k + (r.resume cfg t a pick).request.owed k := by
  obtain h | h := resume_raised_or_move
  · rw [h]
    rfl
  · exact h.owes hs hle k

/-- A request stays clean exactly under the answers that do not leak. -/
theorem resume_clean_iff (hs : r.Shaped) :
    (r.resume cfg t a pick).request.Clean ↔ r.Clean ∧ r.leaks a = false := by
  cases hl : r.leaks a with
  | true =>
    obtain ⟨k, hk⟩ := occupied_of_leaks hl
    obtain ⟨hs', hold, -⟩ := hs.busy k hk
    rw [resume_of_leaks hl]
    refine iff_of_false (fun hc => ?_) (fun h => by cases h.2)
    have h0 : (⟨k, 0⟩ : InflightHold) ∈ r.holds := hold ▸ mem_cons_self
    exact absurd (hc rfl _ h0) (by simp)
  | false =>
    rw [and_iff_left rfl]
    cases hf : r.lost cfg a with
    | true =>
      have ha := admitting_of_lost hf
      rw [resume_of_lost hf]
      refine iff_of_true (.of_forall fun h hh => ?_) (.of_admitting ha)
      have hm : h ∈ r.holds := hh
      rw [hs.idle ha] at hm
      cases hm
    | false => exact (resume_cases hl hf).clean_iff hs

end Request

/-! ### The gateway's count -/

/-- Unfinished attempts and streams at an address. -/
def State.unfinished (s : State) (k : String × ℕ) : ℕ :=
  s.requests.countP fun r => r.phase.occupied = some k

/-- Every slot of an ended request was released once; the count is what is under way. -/
structure Balanced (s : State) : Prop where
  released : ∀ r ∈ s.requests, r.phase = .ended → ∀ h ∈ r.holds, h.releases = 1
  counted : ∀ k, s.tracker k = s.unfinished k

/-- The answer ends its request past the slot it holds. -/
def Leaks (s : State) : Act → Bool
  | .arrive _ => false
  | .resume i a _ => s.requests[i]?.any (·.leaks a)

/-- INVARIANT: the count at an address is what the requests owe there. -/
structure Sound (s : State) : Prop where
  shaped : ∀ r ∈ s.requests, r.Shaped
  total : ∀ k, s.tracker k = (s.requests.map (·.owed k)).sum

theorem Sound.start : Sound {} := ⟨by simp, fun _ => rfl⟩

variable {s : State}

theorem Sound.step (h : Sound s) (cfg : Config) (a : Act) : Sound (step cfg s a) := by
  cases a with
  | arrive mode =>
    refine ⟨forall_mem_concat.2 ⟨h.shaped, fun _ => rfl, nofun⟩, fun k => ?_⟩
    simp only [Lifecycle.step, map_append, sum_append, h.total k]
    rfl
  | resume i a pick =>
    cases hr : s.requests[i]? with
    | none => simpa only [Lifecycle.step, hr] using h
    | some r =>
      have hm : r ∈ s.requests := mem_of_getElem? hr
      have hle : ∀ k, r.owed k ≤ s.tracker k := fun k => by
        rw [h.total k]
        exact le_sum_map (·.owed k) hm
      simp only [Lifecycle.step, hr]
      refine ⟨fun x hx => ?_, fun k => ?_⟩
      · rcases mem_or_eq_of_mem_set hx with hx | rfl
        · exact h.shaped x hx
        · exact resume_shaped (h.shaped r hm)
      · have hsum := sum_map_set (·.owed k) (r.resume cfg s.tracker a pick).request hr
        have howe := resume_owes cfg a pick (h.shaped r hm) hle k
        have htot := h.total k
        simp only [State.apply] at hsum ⊢
        omega

/-- Clean requests owe what they have under way. -/
theorem Sound.balanced_iff (h : Sound s) : Balanced s ↔ ∀ r ∈ s.requests, r.Clean := by
  refine ⟨Balanced.released, fun hc => ⟨hc, fun k => ?_⟩⟩
  rw [h.total k]
  refine sum_map_eq_countP fun r hr => ?_
  cases hp : r.phase.occupied with
  | some k' =>
    rw [(h.shaped r hr).owed_of_busy hp k]
    simp [eq_comm]
  | none =>
    have hall : ∀ x ∈ r.holds, x.releases = 1 := by
      cases hph : r.phase with
      | admitting => simp [(h.shaped r hr).idle hph]
      | ended => exact hc r hr hph
      | attempting e stage | streaming e via stage => rw [hph] at hp; cases hp
    rw [show r.owed k = 0 from owed_of_released hall]
    simp

theorem clean_step_iff (h : Sound s) :
    (∀ r ∈ (step cfg s a).requests, r.Clean) ↔ (∀ r ∈ s.requests, r.Clean) ∧ Leaks s a = false := by
  cases a with
  | arrive mode =>
    rw [and_iff_left (show Leaks s (.arrive mode) = false from rfl)]
    simp only [step, forall_mem_append, forall_mem_singleton]
    exact and_iff_left (.of_admitting rfl)
  | resume i a pick =>
    cases hr : s.requests[i]? with
    | none => simp [step, Leaks, hr]
    | some r =>
      have hl : Leaks s (.resume i a pick) = r.leaks a := by simp [Leaks, hr]
      simp only [step, hr, hl, State.apply]
      exact forall_mem_set_iff (resume_clean_iff (h.shaped r (mem_of_getElem? hr))) hr

/-- INVARIANT: leaks or not, the slots taken at an address are owed by requests. -/
theorem slots_owed (acts : List Act) : Sound (runs (step cfg) {} acts) :=
  runs_invariant Sound (fun _ a h => h.step cfg a) acts {} .start

/-- CORRECT: a run leaves the slots balanced exactly when no answer in it leaks. -/
theorem holds_balance_iff (cfg : Config) (acts : List Act) : Balanced (runs (step cfg) {} acts) ↔
      Admitted (step cfg) (fun s a => Leaks s a = false) {} acts := by
  have hsound : Sound (runs (step cfg) {} acts) :=
    runs_invariant Sound (fun s a h => h.step cfg a) acts {} .start
  rw [hsound.balanced_iff,
    runs_iff_admitted Sound (fun s => ∀ r ∈ s.requests, r.Clean) (fun s a h => h.step cfg a)
      (fun s a h => clean_step_iff h) acts {} .start]
  exact and_iff_right (by simp)
/-- A replica of a lab machine, by its port. -/
def lab (port : ℕ) : ReplicaEndpoint :=
  { agentId := "lab", host := "10.0.0.1", port := port, modelId := "m" }

/-- A 5xx, a repick, a stream read to its end, and a second request cut in the waiting room. -/
theorem holds_balance_stream : Balanced (runs (step {}) {}
    [.arrive .stream, .resume 0 (.admitted (lab 1) [lab 1, lab 2]) none,
     .resume 0 (.status 503) none, .resume 0 .done none, .arrive .buffered,
     .resume 0 .done (some (lab 2)), .resume 0 (.status 200) none, .resume 0 .done none,
     .resume 0 .done none, .resume 1 .cancelled none, .resume 0 (.error .readError) none,
     .resume 0 .done none]) :=
  (holds_balance_iff {} _).2 ⟨rfl, rfl, rfl, rfl, rfl, rfl, rfl, rfl, rfl, rfl, rfl, rfl, trivial⟩

/-- The replica resets the connection under a buffered request: not one of the retryable errors. -/
def resetRun : List Act :=
  [.arrive .buffered, .resume 0 (.admitted (lab 1) [lab 1, lab 2]) none,
   .resume 0 (.error .readError) none]

/-- A client gone before the first chunk: the body's generator never starts. -/
def unreadRun : List Act :=
  [.arrive .stream, .resume 0 (.admitted (lab 1) [lab 1]) none, .resume 0 (.status 200) none,
   .resume 0 .done none, .resume 0 .dropped none]

/-- Both requests have ended, and the count at the replica stays at one. -/
theorem reset_and_unread_leak :
    ¬ Balanced (runs (step {}) {} resetRun) ∧ ¬ Balanced (runs (step {}) {} unreadRun) := by
  refine ⟨fun h => ?_, fun h => ?_⟩
  · exact absurd (h.counted (address (lab 1))) (by decide)
  · exact absurd (h.counted (address (lab 1))) (by decide)

end Fallow.Gateway.Lifecycle

import Fallow.Mesh.Manifest
import Fallow.Lib.Run

/-! `bandwidth.py` of the model mesh: transfers paced by a token bucket.

        allowance ──▶ refill at the rate in force, at most one second of it ──▶ spend, or sleep

    Bytes accounted and bytes still allowed grow together no faster than the rate: over calls at one
    rate their sum stays below one second of it and what the time since the first call adds. -/

namespace Fallow.Mesh
open Lib List

structure Limiter where
  activeRate : ℚ
  idleRate : ℚ
  active_pos : 0 < activeRate
  idle_pos : 0 < idleRate
  allowance : ℚ
  last : ℚ

/-- A call of `throttle`, with what its surroundings answer. -/
structure Transfer where
  nBytes : ℤ
  isActive : Bool
  now : ℚ
  /-- the clock after the sleep, if there is one -/
  woke : ℚ

namespace Limiter

def new (activeRateBps idleRateBps clock : ℚ) : Except Exn Limiter :=
  if h : activeRateBps ≤ 0 ∨ idleRateBps ≤ 0 then .error .value
  else .ok {
    activeRate := activeRateBps
    idleRate := idleRateBps
    active_pos := not_le.1 fun ha => h (.inl ha)
    idle_pos := not_le.1 fun hi => h (.inr hi)
    allowance := max activeRateBps idleRateBps
    last := clock }

def rateNow (l : Limiter) (isActive : Bool) : ℚ := if isActive then l.activeRate else l.idleRate

def refill (l : Limiter) (c : Transfer) : ℚ :=
  min (l.rateNow c.isActive) (l.allowance + (c.now - l.last) * l.rateNow c.isActive)

/-- The seconds slept, and the limiter after the call. -/
def throttle (l : Limiter) (c : Transfer) : ℚ × Limiter :=
  if c.nBytes ≤ l.refill c then (0, { l with allowance := l.refill c - c.nBytes, last := c.now })
  else ((c.nBytes - l.refill c) / l.rateNow c.isActive, { l with allowance := 0, last := c.woke })

def step (l : Limiter) (c : Transfer) : Limiter := (l.throttle c).2

/-- The clock does not go back, and a sleep lasts at least as long as asked. -/
def Timely (l : Limiter) (c : Transfer) : Prop :=
  l.last ≤ c.now ∧ c.now + (l.throttle c).1 ≤ c.woke
  deriving Decidable

variable {l : Limiter} {c : Transfer} {r : ℚ}

theorem rateNow_pos (l : Limiter) (isActive : Bool) : 0 < l.rateNow isActive := by
  cases isActive with
  | true => exact l.active_pos
  | false => exact l.idle_pos

theorem rateNow_step : (l.step c).rateNow = l.rateNow := by
  rw [step, throttle]
  split
  · rfl
  · rfl

theorem allowance_nonneg_step : 0 ≤ (l.step c).allowance := by
  rw [step, throttle]
  split
  · next hfits => exact sub_nonneg.2 hfits
  · exact le_rfl

/-- One call spends what was refilled, and what refills while it sleeps. -/
theorem spent_step (ht : l.Timely c) (hr : l.rateNow c.isActive = r) :
    c.nBytes + (l.step c).allowance ≤ l.refill c + r * ((l.step c).last - c.now) := by
  have hpos := l.rateNow_pos c.isActive
  obtain ⟨-, hwoke⟩ := ht
  rw [step]
  rw [throttle] at hwoke ⊢
  split at hwoke
  · next hfits =>
    rw [if_pos hfits]
    linarith [mul_zero r, sub_self c.now]
  · next hfits =>
    rw [if_neg hfits]
    have hslept : (c.nBytes - l.refill c) / l.rateNow c.isActive ≤ c.woke - c.now := by linarith
    rw [div_le_iff₀ hpos, hr] at hslept
    linarith

/-- INVARIANT: bytes accounted since `start` and the allowance left. -/
def Paced (r start total : ℚ) (l : Limiter) : Prop :=
  total + l.allowance ≤ r * (1 + (l.last - start))

theorem Paced.step (h : Paced r start total l) (ht : l.Timely c)
    (hr : l.rateNow c.isActive = r) : Paced r start (total + c.nBytes) (l.step c) := by
  have hspent := spent_step ht hr
  have hrefill : l.refill c ≤ l.allowance + (c.now - l.last) * r := hr ▸ min_le_right ..
  rw [Paced] at h ⊢
  linarith

theorem Paced.runs : ∀ (calls : List Transfer) {l : Limiter} {total : ℚ},
    Paced r start total l → Admitted Limiter.step Timely l calls →
    (∀ c ∈ calls, l.rateNow c.isActive = r) →
    Paced r start (total + (calls.map (·.nBytes)).sum) (runs Limiter.step l calls)
  | [], l, total, h, _, _ => by
    rw [map_nil, sum_nil, Int.cast_zero, add_zero]
    exact h
  | c :: calls, l, total, h, hq, hr => by
    have hrest : ∀ c' ∈ calls, (l.step c).rateNow c'.isActive = r := fun c' hc' =>
      (congrFun rateNow_step _).trans (hr c' (mem_cons_of_mem _ hc'))
    have hruns := Paced.runs calls (h.step hq.1 (hr c mem_cons_self)) hq.2 hrest
    rw [runs_cons, map_cons, sum_cons, Int.cast_add, ← add_assoc]
    exact hruns

theorem rateNow_runs (calls : List Transfer) :
    (Lib.runs Limiter.step l calls).rateNow = l.rateNow :=
  runs_invariant (·.rateNow = l.rateNow) (fun _ _ h => rateNow_step.trans h) calls l rfl

/-- CORRECT: over any calls made at the rate `r`, whatever came before them, the bytes accounted are
    at most one second of the rate and what the time since the first of them allows. -/
theorem rate_kept (l : Limiter) (before : List Transfer) (first : Transfer) (more : List Transfer)
    (hq : Admitted step Timely l (before ++ first :: more))
    (hr : ∀ c ∈ first :: more, l.rateNow c.isActive = r) : ((first :: more).map (·.nBytes)).sum ≤
      r * (1 + ((Lib.runs step l (before ++ first :: more)).last - first.now)) := by
  rw [admitted_append] at hq
  rw [runs_append, runs_cons]
  rw [← rateNow_runs before] at hr
  generalize Lib.runs step l before = l at hq hr
  have hfirst : Paced r first.now first.nBytes (l.step first) := by
    have hspent := spent_step hq.2.1 (hr first mem_cons_self)
    have hrefill : l.refill first ≤ r := hr first mem_cons_self ▸ min_le_left ..
    rw [Paced]
    linarith
  have hrest : ∀ c ∈ more, (l.step first).rateNow c.isActive = r := fun c hc =>
    (congrFun rateNow_step _).trans (hr c (mem_cons_of_mem _ hc))
  have hpaced := hfirst.runs more hq.2.2 hrest
  have hleft : 0 ≤ (Lib.runs step (l.step first) more).allowance :=
    runs_invariant (fun l : Limiter => 0 ≤ l.allowance) (fun _ _ _ => allowance_nonneg_step) more _
      allowance_nonneg_step
  rw [Paced] at hpaced
  rw [map_cons, sum_cons, Int.cast_add]
  linarith

def desk : Limiter := ⟨10, 1000, by norm_num, by norm_num, 1000, 0⟩

/-- A full allowance from idle hours, then the user is back: of 100 bytes one second of the active
    rate goes at once, the rest is slept for. -/
theorem rate_kept_desk : new 10 1000 0 = .ok desk ∧
    ([⟨100, true, 7200, 7209⟩].map Transfer.nBytes).sum ≤ (10 : ℚ) *
      (1 + ((Lib.runs step desk [⟨900, false, 0, 0⟩, ⟨100, true, 7200, 7209⟩]).last - 7200)) :=
  ⟨by norm_num [new, desk], rate_kept desk [⟨900, false, 0, 0⟩] ⟨100, true, 7200, 7209⟩ []
    (by decide +kernel) (by decide +kernel)⟩

end Limiter

end Fallow.Mesh

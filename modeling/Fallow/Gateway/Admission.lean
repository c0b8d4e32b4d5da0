import Fallow.Lib.Lanes
import Fallow.Lib.Round
import Fallow.Lib.Run

/-! `AdmissionQueue` of `gateway/admission.py`: the waiting room of interactive requests.

    A waiter takes a ticket in its lane, asks for a replica while it is the head, and sleeps in
    between. The queue's lock is never held across an `await`, so it is free whenever it is asked for:
    what happens between two awaits (of the probe, of the sleep, of the cleanup) is one step, and
    waiters interleave at those awaits only.

        wait ──▶ running ──▶ probing ──▶ ended            cancelled while probing or sleeping:
                   ▲  │ not head   │ no replica              cleaning ──▶ cleaned ──▶ ended
                   │  ▼            │
                 sleeping ◀────────┘

    With `timeout_s = 0` nobody queues: each caller asks once. -/

namespace Fallow.Gateway.Admission
open Lib Lib.Lanes List Option Prod

/-- Constructor arguments, with the bounds the constructor enforces. -/
structure Config where
  capacity : ℕ
  capacity_pos : 0 < capacity
  timeoutS : ℚ
  timeoutS_nonneg : 0 ≤ timeoutS
  pollIntervalS : ℚ
  pollIntervalS_pos : 0 < pollIntervalS

inductive AdmissionStatus where | admitted | overflow | timeout
  deriving DecidableEq, Repr

structure AdmissionResult (T : Type) where
  status : AdmissionStatus
  value : Option T
  waitedMs : ℤ
  deriving DecidableEq

/-- How a call of `wait` ends: with a result, with an exception that passes through, or with
    `AdmissionCancelled`. -/
inductive Ending (T : Type) where
  | returned (result : AdmissionResult T)
  | raised
  | cancelled (waitedMs : ℤ)
  deriving DecidableEq

/-- Where a call is between steps; `direct` is the probe of a caller that does not queue. -/
inductive Phase (T : Type) where
  | direct
  | running
  | probing
  | sleeping (duration : ℚ)
  | cleaning
  | cleaned
  | ended (ending : Ending T)
  deriving DecidableEq

/-- The local variables of a call; its ticket is its number. -/
structure Waiter (L T : Type) where
  lane : L
  started : ℚ
  probesOverCapacity : Bool
  firstProbe : Bool
  phase : Phase T
  deriving DecidableEq

/-- An admission, with the reading of the clock when the probe had answered. -/
structure Grant where
  ticket : ℕ
  answeredAt : ℚ
  deriving DecidableEq, Repr

structure State (L T : Type) where
  lanes : List (Lane L ℕ) := []
  waiting : ℤ := 0
  /-- the calls made so far, in order -/
  waiters : List (Waiter L T) := []
  /-- the admissions so far, in order; no code reads it -/
  admitted : List Grant := []

def elapsedMs (seconds : ℚ) : ℤ := roundHalfEven (seconds * 1000)

section
variable {L T : Type} [DecidableEq L] (cfg : Config)

/-! ### Steps -/

def isHead (s : State L T) (lane : L) (ticket : ℕ) : Bool :=
  (queueOf s.lanes lane).head? = some ticket

/-- `_remove`. -/
def remove (s : State L T) (lane : L) (ticket : ℕ) : State L T :=
  match leave lane ticket s.lanes with
  | none => s
  | some lanes => { s with lanes := lanes, waiting := s.waiting - 1 }

def put (s : State L T) (ticket : ℕ) (x : Waiter L T) : State L T :=
  { s with waiters := s.waiters.set ticket x }

/-- Give the ticket back and end. -/
def finish (s : State L T) (ticket : ℕ) (x : Waiter L T) (ending : Ending T) : State L T :=
  put (remove s x.lane ticket) ticket { x with phase := .ended ending }

/-- The end of the loop's body, when this turn admitted nobody. -/
def pause (s : State L T) (ticket : ℕ) (x : Waiter L T) (elapsed : ℚ) : State L T :=
  let remaining := cfg.timeoutS - elapsed
  if x.firstProbe ∧ x.probesOverCapacity then
    finish s ticket x (.returned ⟨.overflow, none, 0⟩)
  else if remaining ≤ 0 then
    finish s ticket x (.returned ⟨.timeout, none, elapsedMs (max elapsed 0)⟩)
  else
    put s ticket
      { x with firstProbe := false, phase := .sleeping (min cfg.pollIntervalS remaining) }

/-- The start of the loop's body, with the clock's reading. -/
def turn (s : State L T) (ticket : ℕ) (x : Waiter L T) (now : ℚ) : State L T :=
  let elapsed := now - x.started
  let remaining := cfg.timeoutS - elapsed
  if (x.firstProbe ∨ 0 < remaining) ∧ isHead s x.lane ticket then
    put s ticket { x with phase := .probing }
  else pause cfg s ticket x elapsed

inductive Act (L T : Type) where
  /-- a call, with the clock's readings at its start and in its first turn -/
  | wait (lane : L) (started now : ℚ)
  /-- a probe returns; the second reading is the one of the result -/
  | probeAnswers (ticket : ℕ) (value : Option T) (now later : ℚ)
  | probeRaises (ticket : ℕ)
  | wake (ticket : ℕ) (now : ℚ)
  | sleepRaises (ticket : ℕ)
  | cancel (ticket : ℕ)
  /-- the cleanup task of a cancelled waiter runs -/
  | cleanup (ticket : ℕ)
  | resume (ticket : ℕ) (now : ℚ)

def wait (s : State L T) (lane : L) (started now : ℚ) : State L T :=
  let ticket := s.waiters.length
  if cfg.timeoutS = 0 then
    { s with waiters := s.waiters ++ [⟨lane, started, false, true, .direct⟩] }
  else
    let full : Bool := cfg.capacity ≤ s.waiting
    if queueOf s.lanes lane ≠ [] ∧ full then
      { s with waiters := s.waiters
                 ++ [⟨lane, started, true, true, .ended (.returned ⟨.overflow, none, 0⟩)⟩] }
    else
      let x : Waiter L T := ⟨lane, started, full, true, .running⟩
      turn cfg { s with lanes := enter lane ticket s.lanes
                        waiting := s.waiting + 1
                        waiters := s.waiters ++ [x] } ticket x now

def probeAnswers (s : State L T) (ticket : ℕ) (x : Waiter L T) (value : Option T) (now later : ℚ) :
    State L T :=
  let elapsed := now - x.started
  match x.phase with
  | .direct =>
    let status := if value.isSome then .admitted else .timeout
    let s := put s ticket
      { x with phase := .ended (.returned ⟨status, value, elapsedMs elapsed⟩) }
    if value.isSome then { s with admitted := s.admitted ++ [⟨ticket, now⟩] } else s
  | .probing =>
    if cfg.timeoutS - elapsed ≤ 0 then
      finish s ticket x (.returned ⟨.timeout, none, elapsedMs (max elapsed 0)⟩)
    else match value with
      | some v =>
        let s := finish s ticket x (.returned ⟨.admitted, some v, elapsedMs (later - x.started)⟩)
        { s with admitted := s.admitted ++ [⟨ticket, now⟩] }
      | none => pause cfg s ticket x elapsed
  | _ => s

/-- A step of one call; one that is not where the step starts from does not move. -/
def move (s : State L T) (ticket : ℕ) (x : Waiter L T) : Act L T → State L T
  | .probeAnswers _ value now later => probeAnswers cfg s ticket x value now later
  | .probeRaises _ => match x.phase with
    | .direct => put s ticket { x with phase := .ended .raised }
    | .probing => finish s ticket x .raised
    | _ => s
  | .wake _ now => match x.phase with
    | .sleeping _ => turn cfg s ticket x now
    | _ => s
  | .sleepRaises _ => match x.phase with
    | .sleeping _ => finish s ticket x .raised
    | _ => s
  | .cancel _ => match x.phase with
    | .direct => put s ticket { x with phase := .ended .raised }
    | .probing => put s ticket { x with phase := .cleaning }
    | .sleeping _ => put s ticket { x with phase := .cleaning }
    | _ => s
  | .cleanup _ => match x.phase with
    | .cleaning => put (remove s x.lane ticket) ticket { x with phase := .cleaned }
    | _ => s
  | .resume _ now => match x.phase with
    | .cleaned =>
      put s ticket { x with phase := .ended (.cancelled (elapsedMs (max (now - x.started) 0))) }
    | _ => s
  | .wait _ _ _ => s

def Act.ticket : Act L T → Option ℕ
  | .wait _ _ _ => none
  | .probeAnswers t _ _ _ | .probeRaises t | .wake t _ | .sleepRaises t | .cancel t | .cleanup t
  | .resume t _ => some t

def step (s : State L T) (act : Act L T) : State L T :=
  match act, act.ticket with
  | .wait lane started now, _ => wait cfg s lane started now
  | act, some ticket => match s.waiters[ticket]? with
    | some x => move cfg s ticket x act
    | none => s
  | _, none => s

/-! ### The invariant -/

/-- A call that has a ticket in its lane. -/
def Phase.queued : Phase T → Bool
  | .running | .probing | .sleeping _ | .cleaning => true
  | _ => false

def Phase.asleep : Phase T → Bool
  | .sleeping _ => true
  | _ => false

/-- What of a call never changes. -/
def Waiter.fixed (x : Waiter L T) : L × ℚ × Bool := (x.lane, x.started, x.probesOverCapacity)

def laneOf (s : State L T) (ticket : ℕ) : Option L := s.waiters[ticket]?.map (·.lane)

/-- A ticket taken while there was room. -/
def seated (s : State L T) (ticket : ℕ) : Bool := s.waiters[ticket]?.any (!·.probesOverCapacity)

/-- INVARIANT: of the queue, and of the calls in it. -/
structure Inv (s : State L T) : Prop where
  tidy : Tidy s.lanes
  count : s.waiting = (everyone s.lanes).length
  sorted : ∀ k, (queueOf s.lanes k).Pairwise (· < ·)
  tickets : ∀ k, ∀ w ∈ queueOf s.lanes k,
    ∃ x, s.waiters[w]? = some x ∧ x.lane = k ∧ x.phase.queued = true
  queued : ∀ (w : ℕ) (x : Waiter L T), s.waiters[w]? = some x → x.phase.queued = true →
    w ∈ queueOf s.lanes x.lane
  head : ∀ (w : ℕ) (x : Waiter L T), s.waiters[w]? = some x → x.phase = .probing →
    (queueOf s.lanes x.lane).head? = some w
  seats : (everyone s.lanes).countP (seated s) ≤ cfg.capacity
  awake : ∀ (w : ℕ) (x : Waiter L T), s.waiters[w]? = some x → x.probesOverCapacity = true →
    x.firstProbe = true ∧ x.phase.asleep = false
  direct : ∀ (w : ℕ) (x : Waiter L T), s.waiters[w]? = some x → x.phase = .direct →
    cfg.timeoutS = 0
  bypassed : cfg.timeoutS = 0 → s.lanes = []

/-- INVARIANT: of the admissions, when there is a queue at all. -/
structure Orderly (s : State L T) : Prop where
  logged : ∀ e ∈ s.admitted, ∃ x, s.waiters[e.ticket]? = some x ∧
    e.answeredAt - x.started < cfg.timeoutS
  passed : ∀ e ∈ s.admitted, ∀ k, laneOf s e.ticket = some k →
    ∀ w ∈ queueOf s.lanes k, e.ticket < w
  order : ∀ k, ((s.admitted.filter (laneOf s ·.ticket = some k)).map (·.ticket)).Pairwise (· < ·)

theorem inv_start : Inv cfg ({} : State L T) := by
  refine ⟨tidy_nil, rfl, fun _ => .nil, nofun, ?_, ?_, Nat.zero_le _, ?_, ?_, fun _ => rfl⟩
  all_goals
    intro w x h
    cases h

theorem orderly_start : Orderly cfg ({} : State L T) := ⟨nofun, nofun, fun _ => .nil⟩

variable {cfg} {p : Phase T}

/-! ### What a step does -/

/-- A phase in which the call has left the queue for good. -/
def Phase.out : Phase T → Bool
  | .cleaned | .ended _ => true
  | _ => false

/-- The moves that steps are made of. -/
inductive Moved (cfg : Config) (s : State L T) : State L T → Prop where
  | stay : Moved cfg s s
  /-- a call keeps its place, in the queue or outside -/
  | put {w : ℕ} {x y : Waiter L T} (call : s.waiters[w]? = some x) (fixed : y.fixed = x.fixed)
      (queued : y.phase.queued = x.phase.queued)
      (head : y.phase = .probing → (queueOf s.lanes x.lane).head? = some w)
      (awake : y.probesOverCapacity = true → y.firstProbe = true ∧ y.phase.asleep = false)
      (direct : y.phase ≠ .direct) : Moved cfg s (put s w y)
  /-- a call leaves the queue -/
  | depart {w : ℕ} {x : Waiter L T} {p : Phase T} (call : s.waiters[w]? = some x)
      (queued : x.phase.queued = true) (out : p.out = true) :
      Moved cfg s (put (remove s x.lane w) w { x with phase := p })
  /-- the head leaves with a value, in time -/
  | enter {w : ℕ} {x : Waiter L T} {p : Phase T} {now : ℚ} (call : s.waiters[w]? = some x)
      (probing : x.phase = .probing) (out : p.out = true) (inTime : now - x.started < cfg.timeoutS) :
      Moved cfg s { Admission.put (remove s x.lane w) w { x with phase := p } with
        admitted := s.admitted ++ [⟨w, now⟩] }
  /-- a caller that does not queue gets a value -/
  | serve {w : ℕ} {x : Waiter L T} {p : Phase T} {now : ℚ} (call : s.waiters[w]? = some x)
      (direct : x.phase = .direct) (out : p.out = true) :
      Moved cfg s { Admission.put s w { x with phase := p } with
        admitted := s.admitted ++ [⟨w, now⟩] }
  /-- a caller that does not queue, or is turned away -/
  | append {x : Waiter L T} (queued : x.phase.queued = false) (first : x.firstProbe = true)
      (direct : x.phase = .direct → cfg.timeoutS = 0) :
      Moved cfg s { s with waiters := s.waiters ++ [x] }
  | join {x : Waiter L T} (running : x.phase = .running) (first : x.firstProbe = true)
      (room : x.probesOverCapacity = false → s.waiting < cfg.capacity)
      (queues : cfg.timeoutS ≠ 0) :
      Moved cfg s { s with
        lanes := enter x.lane s.waiters.length s.lanes
        waiting := s.waiting + 1
        waiters := s.waiters ++ [x] }

theorem out_spec (h : p.out = true) :
    p.queued = false ∧ p.asleep = false ∧ p ≠ .direct ∧ p ≠ .probing := by
  cases p with
  | cleaned | ended e => exact ⟨rfl, rfl, nofun, nofun⟩
  | direct | running | probing | sleeping d | cleaning => cases h

variable {s : State L T} {w : ℕ} {x y : Waiter L T} {act : Act L T}

theorem finish_moved (hx : s.waiters[w]? = some x)
    (hq : x.phase.queued = true) : Moved cfg s (finish s w x e) :=
  .depart hx hq rfl

section
variable (h : Inv cfg s)
include h

section
variable (hx : s.waiters[w]? = some x)
include hx

theorem pause_moved (hq : x.phase.queued = true) : Moved cfg s (pause cfg s w x elapsed) := by
  rw [pause]
  split
  · exact finish_moved hx hq
  next hover =>
  split
  · exact finish_moved hx hq
  · refine .put hx rfl hq.symm nofun (fun ho => ?_) nofun
    exact absurd ⟨(h.awake w x hx ho).1, ho⟩ hover

theorem turn_moved (hq : x.phase.queued = true) (now : ℚ) : Moved cfg s (turn cfg s w x now) := by
  rw [turn]
  split
  · next hhead =>
    refine .put hx rfl hq.symm (fun _ => of_decide_eq_true hhead.2) (fun ho => ?_) nofun
    exact ⟨(h.awake w x hx ho).1, rfl⟩
  · exact pause_moved h hx hq

theorem probeAnswers_moved : Moved cfg s (probeAnswers cfg s w x value now later) := by
  dsimp only [probeAnswers]
  split
  · next hd =>
    split
    · exact .serve hx hd rfl
    · refine .put hx rfl (by rw [hd]; rfl) nofun (fun ho => ?_) nofun
      exact ⟨(h.awake w x hx ho).1, rfl⟩
  · next hp =>
    have hq : x.phase.queued = true := by rw [hp]; rfl
    split
    · exact finish_moved hx hq
    next hlate =>
    split
    · next v =>
      have hadm : (finish s w x
          (.returned ⟨.admitted, some v, elapsedMs (later - x.started)⟩)).admitted
            = s.admitted := by
        rw [finish, put, remove]
        split
        · rfl
        · rfl
      rw [hadm]
      exact .enter hx hp rfl (by linarith)
    · exact pause_moved h hx hq
  · exact .stay

theorem move_moved : Moved cfg s (move cfg s w x act) := by
  have hover := fun ho => (h.awake w x hx ho).1
  cases act with
  | wait lane started now => exact .stay
  | probeAnswers t value now later => exact probeAnswers_moved h hx
  | probeRaises t =>
    rw [move]
    split
    · next hd => exact .put hx rfl (by rw [hd]; rfl) nofun (fun ho => ⟨hover ho, rfl⟩) nofun
    · next hp => exact finish_moved hx (by rw [hp]; rfl)
    · exact .stay
  | wake t now =>
    rw [move]
    split
    · next d hd => exact turn_moved h hx (by rw [hd]; rfl) now
    · exact .stay
  | sleepRaises t =>
    rw [move]
    split
    · next d hd => exact finish_moved hx (by rw [hd]; rfl)
    · exact .stay
  | cancel t =>
    rw [move]
    split
    · next hd => exact .put hx rfl (by rw [hd]; rfl) nofun (fun ho => ⟨hover ho, rfl⟩) nofun
    · next hp => exact .put hx rfl (by rw [hp]; rfl) nofun (fun ho => ⟨hover ho, rfl⟩) nofun
    · next d hs => exact .put hx rfl (by rw [hs]; rfl) nofun (fun ho => ⟨hover ho, rfl⟩) nofun
    · exact .stay
  | cleanup t =>
    rw [move]
    split
    · next hc => exact .depart hx (by rw [hc]; rfl) rfl
    · exact .stay
  | resume t now =>
    rw [move]
    split
    · next hc => exact .put hx rfl (by rw [hc]; rfl) nofun (fun ho => ⟨hover ho, rfl⟩) nofun
    · exact .stay

end

end

/-! ### What stays of a call -/

/-- No call goes away, and what never changes of it has not. -/
def Keeps (s s' : State L T) : Prop :=
  ∀ (w : ℕ) (x : Waiter L T), s.waiters[w]? = some x →
    ∃ y, s'.waiters[w]? = some y ∧ y.fixed = x.fixed

omit [DecidableEq L] in
theorem getElem?_put (hx : s.waiters[w]? = some x) (y : Waiter L T) (v : ℕ) :
    (put s w y).waiters[v]? = if v = w then some y else s.waiters[v]? := by
  have hlt : w < s.waiters.length := (List.getElem?_eq_some_iff.1 hx).1
  rw [put, getElem?_set]
  by_cases hv : w = v
  · subst hv
    rw [if_pos rfl, if_pos hlt, if_pos rfl]
  · rw [if_neg hv, if_neg (fun he => hv he.symm)]

omit [DecidableEq L] in
theorem keeps_put (hx : s.waiters[w]? = some x) (hf : y.fixed = x.fixed) : Keeps s (put s w y) := by
  intro v z hz
  rw [getElem?_put hx]
  split
  · next hv =>
    subst hv
    obtain rfl : x = z := mem_unique hx hz
    exact ⟨y, rfl, hf⟩
  · exact ⟨z, hz, rfl⟩

omit [DecidableEq L] in
theorem keeps_append (s : State L T) (x : Waiter L T) (lanes : List (Lane L ℕ)) (waiting : ℤ) :
    Keeps s { s with waiters := s.waiters ++ [x], lanes := lanes, waiting := waiting } := by
  intro w y hy
  exact ⟨y, getElem?_concat_iff.2 (.inl hy), rfl⟩

variable {s' s'' : State L T}

omit [DecidableEq L] in
theorem Keeps.trans (h : Keeps s s') (h' : Keeps s' s'') : Keeps s s'' := by
  intro w x hx
  obtain ⟨y, hy, hf⟩ := h w x hx
  obtain ⟨z, hz, hf'⟩ := h' w y hy
  exact ⟨z, hz, hf'.trans hf⟩

omit [DecidableEq L] in
theorem Keeps.lane (h : Keeps s s') (hx : s.waiters[w]? = some x) : laneOf s' w = laneOf s w := by
  obtain ⟨y, hy, hf⟩ := h w x hx
  rw [laneOf, laneOf, hx, hy]
  exact congrArg (fun f => some f.1) hf

omit [DecidableEq L] in
theorem Keeps.seated (h : Keeps s s') (hx : s.waiters[w]? = some x) : seated s' w = seated s w := by
  obtain ⟨y, hy, hf⟩ := h w x hx
  rw [Admission.seated, Admission.seated, hx, hy]
  exact congrArg (fun f => !f.2.2) hf

section
variable (h : Inv cfg s)
include h

theorem Inv.call (hw : w ∈ everyone s.lanes) : ∃ x, s.waiters[w]? = some x := by
  obtain ⟨k, hk⟩ := (mem_everyone h.tidy).1 hw
  obtain ⟨x, hx, -⟩ := h.tickets k w hk
  exact ⟨x, hx⟩

/-- The seats taken, by tickets that were there before. -/
theorem Inv.countP_seated (hk : Keeps s s')
    (hws : ws ⊆ everyone s.lanes) : ws.countP (seated s') = ws.countP (seated s) := by
  refine countP_congr fun w hw => ?_
  obtain ⟨x, hx⟩ := h.call (hws hw)
  rw [hk.seated hx]

/-! ### Every move keeps the invariant -/

section
variable (hx : s.waiters[w]? = some x)
include hx

theorem Inv.put (hf : y.fixed = x.fixed) (hq : y.phase.queued = x.phase.queued)
    (hhead : y.phase = .probing → (queueOf s.lanes x.lane).head? = some w)
    (hawake : y.probesOverCapacity = true → y.firstProbe = true ∧ y.phase.asleep = false)
    (hdirect : y.phase ≠ .direct) : Inv cfg (put s w y) := by
  have hlane : y.lane = x.lane := congrArg fst hf
  have hget := getElem?_put hx y
  refine { tidy := h.tidy, count := h.count, sorted := h.sorted, tickets := fun k v hv => ?_,
           queued := fun v z hz hzq => ?_, head := fun v z hz hzp => ?_, seats := ?_,
           awake := fun v z hz hzo => ?_, direct := fun v z hz hzd => ?_, bypassed := h.bypassed }
  · obtain ⟨z, hz, hzk, hzq⟩ := h.tickets k v hv
    rw [hget]
    split
    · next hvw =>
      subst hvw
      obtain rfl : x = z := mem_unique hx hz
      exact ⟨y, rfl, hlane.trans hzk, hq.trans hzq⟩
    · exact ⟨z, hz, hzk, hzq⟩
  · rw [hget] at hz
    split at hz
    · next hvw =>
      cases hz
      rw [hvw, hlane]
      exact h.queued w x hx (hq.symm.trans hzq)
    · exact h.queued v z hz hzq
  · rw [hget] at hz
    split at hz
    · next hvw =>
      cases hz
      rw [hvw, hlane]
      exact hhead hzp
    · exact h.head v z hz hzp
  · exact (h.countP_seated (keeps_put hx hf) (List.Subset.refl _)).trans_le h.seats
  · rw [hget] at hz
    split at hz
    · cases hz
      exact hawake hzo
    · exact h.awake v z hz hzo
  · rw [hget] at hz
    split at hz
    · cases hz
      exact absurd hzd hdirect
    · exact h.direct v z hz hzd

section
variable (hq : x.phase.queued = true)
include hq

/-- A call in the queue can leave it. -/
theorem Inv.leave :
    ∃ lanes, leave x.lane w s.lanes = some lanes ∧
      remove s x.lane w = { s with lanes := lanes, waiting := s.waiting - 1 } := by
  cases hl : Lanes.leave x.lane w s.lanes with
  | none => exact absurd (h.queued w x hx hq) (leave_eq_none.1 hl)
  | some lanes =>
    refine ⟨lanes, rfl, ?_⟩
    rw [remove, hl]

/-- Leaving the queue changes nothing that is fixed. -/
theorem Inv.keeps_depart (p : Phase T) :
    Keeps s (Admission.put (remove s x.lane w) w { x with phase := p }) := by
  obtain ⟨lanes, -, hr⟩ := h.leave hx hq
  rw [hr]
  exact keeps_put (s := { s with lanes := lanes, waiting := s.waiting - 1 })
    (y := { x with phase := p }) hx rfl

theorem Inv.depart (hout : p.out = true) :
    Inv cfg (Admission.put (remove s x.lane w) w { x with phase := p }) := by
  obtain ⟨hpq, hpa, hpd, hpp⟩ := out_spec hout
  obtain ⟨lanes, hl, hr⟩ := h.leave hx hq
  have hkeeps := h.keeps_depart hx hq p
  rw [hr] at hkeeps ⊢
  have hget := getElem?_put (s := { s with lanes := lanes, waiting := s.waiting - 1 }) hx
    { x with phase := p }
  have hqueue := queueOf_leave hl
  have hperm := everyone_leave h.tidy hl
  -- the ticket is in one lane only, and there once
  have hnodup : (queueOf s.lanes x.lane).Nodup := (h.sorted x.lane).imp fun hlt => Nat.ne_of_lt hlt
  have hstill : ∀ k v, v ∈ queueOf lanes k → v ∈ queueOf s.lanes k ∧ v ≠ w := by
    intro k v hv
    rw [hqueue] at hv
    split at hv
    · next hk =>
      subst hk
      exact ⟨mem_of_mem_erase hv, fun he => hnodup.not_mem_erase (he ▸ hv)⟩
    · next hk =>
      refine ⟨hv, ?_⟩
      rintro rfl
      obtain ⟨z, hz, hzk, -⟩ := h.tickets k v hv
      obtain rfl : x = z := mem_unique hx hz
      exact hk hzk.symm
  have hothers : ∀ k v, v ∈ queueOf s.lanes k → v ≠ w → v ∈ queueOf lanes k := by
    intro k v hv hne
    rw [hqueue]
    split
    · next hk => exact (mem_erase_of_ne hne).2 (hk ▸ hv)
    · exact hv
  refine { tidy := h.tidy.leave hl, count := ?_, sorted := fun k => ?_, tickets := fun k v hv => ?_,
           queued := fun v z hz hzq => ?_, head := fun v z hz hzp => ?_, seats := ?_,
           awake := fun v z hz hzo => ?_, direct := fun v z hz hzd => ?_,
           bypassed := fun hzero => ?_ }
  · have hlen := hperm.length_eq
    rw [length_cons] at hlen
    have hcount := h.count
    change s.waiting - 1 = ((everyone lanes).length : ℤ)
    omega
  · change (queueOf lanes k).Pairwise _
    rw [hqueue]
    split
    · exact (h.sorted x.lane).sublist (erase_sublist ..)
    · exact h.sorted k
  · obtain ⟨hv, hne⟩ := hstill k v hv
    obtain ⟨z, hz, hzk, hzq⟩ := h.tickets k v hv
    exact ⟨z, by rw [hget, if_neg hne]; exact hz, hzk, hzq⟩
  · rw [hget] at hz
    split at hz
    · cases hz
      rw [hpq] at hzq
      cases hzq
    · next hne => exact hothers _ v (h.queued v z hz hzq) hne
  · rw [hget] at hz
    split at hz
    · cases hz
      exact absurd hzp hpp
    · next hne =>
      change (queueOf lanes z.lane).head? = some v
      have hv := h.head v z hz hzp
      rw [hqueue]
      split
      · next hk =>
        obtain ⟨tail, htail⟩ := head?_eq_some_iff.1 (hk ▸ hv)
        rw [htail, erase_cons_tail (by simpa using hne)]
        rfl
      · exact hv
  · have hcount : (everyone lanes).countP (seated s) ≤ (everyone s.lanes).countP (seated s) := by
      rw [hperm.countP_eq, countP_cons]
      exact Nat.le_add_right ..
    have hsub : everyone lanes ⊆ everyone s.lanes := fun v hv =>
      hperm.mem_iff.2 (mem_cons_of_mem _ hv)
    exact (h.countP_seated hkeeps hsub).trans_le (hcount.trans h.seats)
  · rw [hget] at hz
    split at hz
    · cases hz
      exact ⟨(h.awake w x hx hzo).1, hpa⟩
    · exact h.awake v z hz hzo
  · rw [hget] at hz
    split at hz
    · cases hz
      exact absurd hzd hpd
    · exact h.direct v z hz hzd
  · have hw := h.queued w x hx hq
    rw [h.bypassed hzero] at hw
    cases hw

end

end

end

theorem Inv.append (h : Inv cfg s) (hq : x.phase.queued = false)
    (hfirst : x.firstProbe = true) (hdirect : x.phase = .direct → cfg.timeoutS = 0) :
    Inv cfg { s with waiters := s.waiters ++ [x] } := by
  have hkeeps := keeps_append s x s.lanes s.waiting
  refine { tidy := h.tidy, count := h.count, sorted := h.sorted, tickets := fun k v hv => ?_,
           queued := fun v z hz hzq => ?_, head := fun v z hz hzp => ?_, seats := ?_,
           awake := fun v z hz hzo => ?_, direct := fun v z hz hzd => ?_, bypassed := h.bypassed }
  · obtain ⟨z, hz, hzk, hzq⟩ := h.tickets k v hv
    exact ⟨z, getElem?_concat_iff.2 (.inl hz), hzk, hzq⟩
  · rcases getElem?_concat_iff.1 hz with hz | ⟨-, rfl⟩
    · exact h.queued v z hz hzq
    · rw [hq] at hzq
      cases hzq
  · rcases getElem?_concat_iff.1 hz with hz | ⟨-, rfl⟩
    · exact h.head v z hz hzp
    · rw [hzp] at hq
      cases hq
  · exact (h.countP_seated hkeeps (List.Subset.refl _)).trans_le h.seats
  · rcases getElem?_concat_iff.1 hz with hz | ⟨-, rfl⟩
    · exact h.awake v z hz hzo
    · refine ⟨hfirst, ?_⟩
      cases hp : z.phase with
      | sleeping d =>
        rw [hp] at hq
        cases hq
      | _ => rfl
  · rcases getElem?_concat_iff.1 hz with hz | ⟨-, rfl⟩
    · exact h.direct v z hz hzd
    · exact hdirect hzd

theorem Inv.join (h : Inv cfg s) (hrun : x.phase = .running)
    (hfirst : x.firstProbe = true) (hover : x.probesOverCapacity = false → s.waiting < cfg.capacity)
    (hqueues : cfg.timeoutS ≠ 0) :
    Inv cfg { s with
      lanes := enter x.lane s.waiters.length s.lanes
      waiting := s.waiting + 1
      waiters := s.waiters ++ [x] } := by
  have hkeeps := keeps_append s x (enter x.lane s.waiters.length s.lanes) (s.waiting + 1)
  have hqueue := queueOf_enter s.lanes x.lane s.waiters.length
  have hperm := everyone_enter h.tidy x.lane s.waiters.length
  refine { tidy := h.tidy.enter .., count := ?_, sorted := fun k => ?_, tickets := fun k v hv => ?_,
           queued := fun v z hz hzq => ?_, head := fun v z hz hzp => ?_, seats := ?_,
           awake := fun v z hz hzo => ?_, direct := fun v z hz hzd => ?_,
           bypassed := fun hzero => absurd hzero hqueues }
  · have hcount := h.count
    rw [hperm.length_eq, length_cons]
    push_cast
    omega
  · rw [hqueue]
    split
    · refine pairwise_append.2 ⟨h.sorted x.lane, pairwise_singleton .., fun a ha b hb => ?_⟩
      rw [mem_singleton.1 hb]
      obtain ⟨z, hz, -⟩ := h.tickets x.lane a ha
      exact (List.getElem?_eq_some_iff.1 hz).1
    · exact h.sorted k
  · rw [hqueue] at hv
    have hcases : v ∈ queueOf s.lanes k ∨ (v = s.waiters.length ∧ x.lane = k) := by
      split at hv
      · next hk =>
        rcases mem_concat.1 hv with hv | hv
        · exact .inl (hk ▸ hv)
        · exact .inr ⟨hv, hk.symm⟩
      · exact .inl hv
    rcases hcases with hv | ⟨rfl, hk⟩
    · obtain ⟨z, hz, hzk, hzq⟩ := h.tickets k v hv
      exact ⟨z, getElem?_concat_iff.2 (.inl hz), hzk, hzq⟩
    · exact ⟨x, getElem?_concat_length, hk, by rw [hrun]; rfl⟩
  · rw [hqueue]
    rcases getElem?_concat_iff.1 hz with hz | ⟨rfl, rfl⟩
    · have hv := h.queued v z hz hzq
      split
      · next hk => exact mem_append_left _ (hk ▸ hv)
      · exact hv
    · rw [if_pos rfl]
      exact mem_append_right _ (mem_singleton.2 rfl)
  · rw [hqueue]
    rcases getElem?_concat_iff.1 hz with hz | ⟨rfl, rfl⟩
    · have hv := h.head v z hz hzp
      split
      · next hk =>
        rw [← hk, head?_append, hv]
        rfl
      · exact hv
    · rw [hrun] at hzp
      cases hzp
  · have hnew : seated { s with
        lanes := enter x.lane s.waiters.length s.lanes
        waiting := s.waiting + 1
        waiters := s.waiters ++ [x] } s.waiters.length = !x.probesOverCapacity := by
      rw [seated, getElem?_concat_length]
      rfl
    rw [hperm.countP_eq, countP_cons, hnew,
      h.countP_seated hkeeps (List.Subset.refl _)]
    have hseats := h.seats
    have hall := countP_le_length (p := seated s) (l := everyone s.lanes)
    have hcount := h.count
    cases ho : x.probesOverCapacity with
    | true => simpa using hseats
    | false =>
      have hroom := hover ho
      simp only [Bool.not_false, if_true]
      omega
  · rcases getElem?_concat_iff.1 hz with hz | ⟨-, rfl⟩
    · exact h.awake v z hz hzo
    · exact ⟨hfirst, by rw [hrun]; rfl⟩
  · rcases getElem?_concat_iff.1 hz with hz | ⟨-, rfl⟩
    · exact h.direct v z hz hzd
    · rw [hrun] at hzd
      cases hzd

/-- What the log holds does not matter to the queue. -/
theorem Inv.log (h : Inv cfg s) (admitted : List Grant) :
    Inv cfg { s with admitted := admitted } :=
  { h with }

theorem Inv.moved (h : Inv cfg s) (hm : Moved cfg s s') : Inv cfg s' := by
  cases hm with
  | stay => exact h
  | put call fixed queued head awake direct => exact h.put call fixed queued head awake direct
  | depart call queued out => exact h.depart call queued out
  | enter call probing out _ => exact (h.depart call (by rw [probing]; rfl) out).log _
  | @serve w x p now call direct out =>
    obtain ⟨hpq, hpa, hpd, hpp⟩ := out_spec out
    have hput := h.put (y := { x with phase := p }) call rfl (by rw [direct]; exact hpq)
      (fun hp => absurd hp hpp) (fun ho => ⟨(h.awake w x call ho).1, hpa⟩) hpd
    exact hput.log _
  | append queued first direct => exact h.append queued first direct
  | join running first room queues => exact h.join running first room queues

/-! ### Admissions -/

/-- Calls are kept, and what is new in a lane has a new ticket. -/
theorem Orderly.keeps (h : Orderly cfg s) (hk : Keeps s s')
    (hnew : ∀ k, ∀ w ∈ queueOf s'.lanes k, w ∈ queueOf s.lanes k ∨ s.waiters.length ≤ w)
    (hadm : s'.admitted = s.admitted) : Orderly cfg s' := by
  have hlane : ∀ e ∈ s.admitted, laneOf s' e.ticket = laneOf s e.ticket := by
    intro e he
    obtain ⟨x, hx, -⟩ := h.logged e he
    exact hk.lane hx
  refine ⟨fun e he => ?_, fun e he k hlk w hw => ?_, fun k => ?_⟩
  · rw [hadm] at he
    obtain ⟨x, hx, htime⟩ := h.logged e he
    obtain ⟨y, hy, hf⟩ := hk e.ticket x hx
    have hstarted : y.started = x.started := congrArg (fun f => f.2.1) hf
    exact ⟨y, hy, by rw [hstarted]; exact htime⟩
  · rw [hadm] at he
    rw [hlane e he] at hlk
    rcases hnew k w hw with hw | hw
    · exact h.passed e he k hlk w hw
    · obtain ⟨x, hx, -⟩ := h.logged e he
      exact Nat.lt_of_lt_of_le (List.getElem?_eq_some_iff.1 hx).1 hw
  · have hfilter : s'.admitted.filter (laneOf s' ·.ticket = some k)
        = s.admitted.filter (laneOf s ·.ticket = some k) := by
      rw [hadm]
      exact filter_congr fun e he => by rw [hlane e he]
    rw [hfilter]
    exact h.order k

/-- One more admission, of a ticket between those before and those that wait. -/
theorem Orderly.grant (h : Orderly cfg s)
    (hx : s.waiters[w]? = some x) (htime : now - x.started < cfg.timeoutS)
    (hbefore : ∀ e ∈ s.admitted, laneOf s e.ticket = some x.lane → e.ticket < w)
    (hafter : ∀ v ∈ queueOf s.lanes x.lane, w < v) :
    Orderly cfg { s with admitted := s.admitted ++ [⟨w, now⟩] } := by
  have hlane : laneOf s w = some x.lane := by rw [laneOf, hx]; rfl
  refine ⟨forall_mem_concat.2 ⟨h.logged, x, hx, htime⟩,
    forall_mem_concat.2 ⟨h.passed, fun k hlk => ?_⟩, fun k => ?_⟩
  · obtain rfl : x.lane = k := mem_unique hlane hlk
    exact hafter
  · rw [filter_append, map_append, pairwise_append]
    refine ⟨h.order k, (pairwise_singleton ..).sublist ((filter_sublist ..).map _), ?_⟩
    intro a ha b hb
    obtain ⟨e, he, rfl⟩ := mem_map.1 ha
    obtain ⟨e', he', rfl⟩ := mem_map.1 hb
    obtain ⟨hmem, hk⟩ := mem_filter.1 he
    obtain ⟨hnew, hk'⟩ := mem_filter.1 he'
    rw [mem_singleton.1 hnew] at hk' ⊢
    obtain rfl : x.lane = k := mem_unique hlane (of_decide_eq_true hk')
    exact hbefore e hmem (of_decide_eq_true hk)

theorem Orderly.depart (h : Orderly cfg s) (hi : Inv cfg s)
    (hx : s.waiters[w]? = some x) (hq : x.phase.queued = true) (p : Phase T) :
    Orderly cfg (put (remove s x.lane w) w { x with phase := p }) := by
  obtain ⟨lanes, hl, hr⟩ := hi.leave hx hq
  have hkeeps := hi.keeps_depart hx hq p
  rw [hr] at hkeeps ⊢
  refine h.keeps hkeeps (fun k v hv => .inl ?_) rfl
  change v ∈ queueOf lanes k at hv
  rw [queueOf_leave hl] at hv
  split at hv
  · next hk => exact hk ▸ mem_of_mem_erase hv
  · exact hv

theorem Orderly.moved (hpos : 0 < cfg.timeoutS) (h : Orderly cfg s)
    (hi : Inv cfg s) (hm : Moved cfg s s') : Orderly cfg s' := by
  cases hm with
  | stay => exact h
  | put call fixed _ _ _ _ => exact h.keeps (keeps_put call fixed) (fun _ _ hw => .inl hw) rfl
  | depart call queued _ => exact h.depart hi call queued _
  | @enter w x p now call probing out inTime =>
    have hq : x.phase.queued = true := by rw [probing]; rfl
    obtain ⟨lanes, hl, hr⟩ := hi.leave call hq
    have hhead := hi.head w x call probing
    have hdep := h.depart hi call hq p
    have hkeeps := hi.keeps_depart call hq p
    rw [hr] at hdep hkeeps ⊢
    have hmem : w ∈ queueOf s.lanes x.lane := hi.queued w x call hq
    refine hdep.grant (x := { x with phase := p }) ?_ inTime ?_ ?_
    · rw [getElem?_put (s := { s with lanes := lanes, waiting := s.waiting - 1 }) call, if_pos rfl]
    · intro e he hlk
      obtain ⟨y, hy, -⟩ := h.logged e he
      exact h.passed e he x.lane ((hkeeps.lane hy).symm.trans hlk) w hmem
    · intro v hv
      change v ∈ queueOf lanes x.lane at hv
      obtain ⟨tail, htail⟩ := head?_eq_some_iff.1 hhead
      rw [queueOf_leave hl, if_pos rfl, htail, erase_cons_head] at hv
      have hsorted := hi.sorted x.lane
      rw [htail] at hsorted
      exact rel_of_pairwise_cons hsorted hv
  | serve call direct _ => exact absurd (hi.direct _ _ call direct) hpos.ne'
  | append _ _ _ => exact h.keeps (keeps_append s _ s.lanes s.waiting) (fun _ _ hw => .inl hw) rfl
  | @join x _ _ _ _ =>
    refine h.keeps (keeps_append s x _ _) (fun k w hw => ?_) rfl
    rw [queueOf_enter] at hw
    split at hw
    · next hk =>
      rcases mem_concat.1 hw with hw | hw
      · exact .inl (hk ▸ hw)
      · exact .inr (Nat.le_of_eq hw.symm)
    · exact .inl hw

/-! ### Steps and runs -/

/-- How a call of `wait` joins. -/
theorem join_moved (hqueues : cfg.timeoutS ≠ 0) (lane : L) (started : ℚ) :
    Moved cfg s { s with
      lanes := enter lane s.waiters.length s.lanes
      waiting := s.waiting + 1
      waiters := s.waiters
        ++ [⟨lane, started, decide (cfg.capacity ≤ s.waiting), true, .running⟩] } := by
  refine Moved.join (x := ⟨lane, started, decide (cfg.capacity ≤ s.waiting), true, .running⟩)
    rfl rfl (fun hover => ?_) hqueues
  exact Int.not_le.1 (of_decide_eq_false hover)

section
variable (h : Inv cfg s) {acts : List (Act L T)}
include h

/-- A step is one move, or two: a caller joins and takes its first turn. -/
theorem step_moved : ∃ s₁, Moved cfg s s₁ ∧ Moved cfg s₁ (step cfg s act) := by
  have hone : ∀ {s' : State L T}, Moved cfg s s' → ∃ s₁, Moved cfg s s₁ ∧ Moved cfg s₁ s' :=
    fun hm => ⟨s, .stay, hm⟩
  have hmove : ∀ (w : ℕ), Moved cfg s (match s.waiters[w]? with
      | some x => move cfg s w x act
      | none => s) := by
    intro w
    split
    · next x hx => exact move_moved h hx
    · exact .stay
  cases act with
  | wait lane started now =>
    rw [step, wait]
    dsimp only
    split
    · next hzero => exact hone (.append rfl rfl fun _ => hzero)
    split
    · exact hone (.append rfl rfl (by rintro ⟨⟩))
    · have hjoin := join_moved (s := s) ‹_› lane started
      exact ⟨_, hjoin, turn_moved (h.moved hjoin) getElem?_concat_length rfl now⟩
  | probeAnswers w value now later | probeRaises w | wake w now | sleepRaises w | cancel w
  | cleanup w | resume w now => exact hone (hmove w)

theorem Inv.step (act : Act L T) : Inv cfg (step cfg s act) := by
  obtain ⟨s₁, h₁, h₂⟩ := step_moved h
  exact (h.moved h₁).moved h₂

/-- FRAME: calls are kept. -/
theorem Moved.keeps (hm : Moved cfg s s') : Keeps s s' := by
  cases hm with
  | stay => exact fun w x hx => ⟨x, hx, rfl⟩
  | put call fixed _ _ _ _ => exact keeps_put call fixed
  | depart call queued _ => exact h.keeps_depart call queued _
  | enter call probing _ _ => exact h.keeps_depart call (by rw [probing]; rfl) _
  | serve call _ _ => exact keeps_put call rfl
  | append _ _ _ => exact keeps_append s _ s.lanes s.waiting
  | join _ _ _ _ => exact keeps_append s _ _ _

omit h in
theorem Orderly.step (hpos : 0 < cfg.timeoutS) (h : Orderly cfg s) (hi : Inv cfg s)
    (act : Act L T) : Orderly cfg (step cfg s act) := by
  obtain ⟨s₁, h₁, h₂⟩ := step_moved hi
  exact (h.moved hpos hi h₁).moved hpos (hi.moved h₁) h₂

theorem Inv.step_keeps (act : Act L T) : Keeps s (Admission.step cfg s act) := by
  obtain ⟨s₁, h₁, h₂⟩ := step_moved h
  exact (h₁.keeps h).trans (h₂.keeps (h.moved h₁))

omit h in
/-- The invariant in every state of every run. -/
theorem inv_runs : Inv cfg (runs (step cfg) {} acts) :=
  runs_invariant (Inv cfg) (fun _ act h => h.step act) acts {} (inv_start cfg)

omit h in
theorem orderly_runs (hpos : 0 < cfg.timeoutS) : Orderly cfg (runs (step cfg) {} acts) :=
  (runs_invariant (fun s => Inv cfg s ∧ Orderly cfg s)
    (fun _ act h => ⟨h.1.step act, h.2.step hpos h.1 act⟩) acts {}
    ⟨inv_start cfg, orderly_start cfg⟩).2

theorem Inv.runs_keeps (acts : List (Act L T)) :
    Inv cfg (runs (Admission.step cfg) s acts) ∧ Keeps s (runs (Admission.step cfg) s acts) := by
  induction acts generalizing s with
  | nil => exact ⟨h, fun w x hx => ⟨x, hx, rfl⟩⟩
  | cons act acts ih =>
    obtain ⟨hi, hk⟩ := ih (h.step act)
    exact ⟨hi, (h.step_keeps act).trans hk⟩

/-! ### Who sleeps -/

/-- A waiter that sleeps has a seat in its lane. -/
theorem Inv.asleep_seated (hx : s.waiters[w]? = some x) (ha : x.phase.asleep = true) :
    w ∈ (everyone s.lanes).filter (seated s) := by
  have hq : x.phase.queued = true := by
    cases hp : x.phase with
    | sleeping d => rfl
    | _ =>
      rw [hp] at ha
      cases ha
  have hseat : seated s w = true := by
    rw [seated, hx]
    cases ho : x.probesOverCapacity with
    | false => simp [ho]
    | true =>
      rw [(h.awake w x hx ho).2] at ha
      cases ha
  exact mem_filter.2 ⟨(mem_everyone h.tidy).2 ⟨x.lane, h.queued w x hx hq⟩, hseat⟩

/-- Sleeping calls have different tickets, each of them with a seat. -/
theorem Inv.countP_asleep : s.waiters.countP (·.phase.asleep) ≤ cfg.capacity := by
  set sleepers := (s.waiters.zipIdx.filter (·.1.phase.asleep)).map snd with hdef
  have hnodup : sleepers.Nodup := by
    refine List.Nodup.sublist (List.Sublist.map snd filter_sublist) ?_
    rw [zipIdx_map_snd]
    exact nodup_range'
  have hsub : sleepers ⊆ (everyone s.lanes).filter (seated s) := by
    intro w hw
    obtain ⟨⟨x, v⟩, hmem, rfl⟩ := mem_map.1 hw
    obtain ⟨hmem, ha⟩ := mem_filter.1 hmem
    exact h.asleep_seated (mk_mem_zipIdx_iff_getElem?.1 hmem) ha
  calc s.waiters.countP (·.phase.asleep)
      = (s.waiters.zipIdx.map fst).countP (·.phase.asleep) := by rw [zipIdx_map_fst]
    _ = sleepers.length := by
        rw [countP_map, countP_eq_length_filter, hdef, length_map]
        rfl
    _ ≤ ((everyone s.lanes).filter (seated s)).length :=
        (subperm_of_subset hnodup hsub).length_le
    _ = (everyone s.lanes).countP (seated s) := countP_eq_length_filter.symm
    _ ≤ cfg.capacity := h.seats

end

omit [DecidableEq L] in
/-- What is fixed of the caller that joined last. -/
theorem fixed_of_last (hk : Keeps s' s'') {n : ℕ}
    (hx : s'.waiters[n]? = some x) (hy : s''.waiters[n]? = some y) : y.fixed = x.fixed := by
  obtain ⟨z, hz, hf⟩ := hk n x hx
  obtain rfl : z = y := mem_unique hz hy
  exact hf

/-- A caller that finds the queue full is marked so. -/
theorem Inv.wait_full (h : Inv cfg s) (hfull : cfg.capacity ≤ s.waiting)
    (lane : L) (started now : ℚ) :
    ∃ x, (wait cfg s lane started now).waiters[s.waiters.length]? = some x ∧
      x.probesOverCapacity = true := by
  rw [wait]
  dsimp only
  split
  · next hzero =>
    have hcount := h.count
    rw [h.bypassed hzero] at hcount
    have hpos := cfg.capacity_pos
    change s.waiting = ((0 : ℕ) : ℤ) at hcount
    omega
  · next hqueues =>
    split
    · exact ⟨_, getElem?_concat_length, rfl⟩
    have hjoin := join_moved (s := s) hqueues lane started
    have hturn := (turn_moved (h.moved hjoin) getElem?_concat_length rfl now).keeps (h.moved hjoin)
    obtain ⟨y, hy, hf⟩ := hturn s.waiters.length _ getElem?_concat_length
    exact ⟨y, hy, (congrArg (fun f => f.2.2) hf).trans (decide_eq_true hfull)⟩

/-- In every state of every run over any lanes: the count is the number of tickets, no lane is
    empty, every ticket belongs to a call that has not ended, at most `capacity` calls sleep and one
    that found the queue full is never among them. When callers queue at all, each lane admits in
    order of arrival, and only calls whose probe answered in time. -/
theorem admission_bookkeeping (cfg : Config) (acts : List (Act L T)) :
    let s := runs (step cfg) {} acts
    s.waiting = ((s.lanes.map (·.queue.length)).sum : ℕ) ∧
    (∀ q ∈ s.lanes, q.queue ≠ []) ∧
    (∀ q ∈ s.lanes, ∀ w ∈ q.queue, ∃ x, s.waiters[w]? = some x ∧ ∀ e, x.phase ≠ .ended e) ∧
    s.waiters.countP (·.phase.asleep) ≤ cfg.capacity ∧
    (cfg.capacity ≤ s.waiting → ∀ lane started now acts',
      ∀ x, (runs (step cfg) s (.wait lane started now :: acts')).waiters[s.waiters.length]?
        = some x → x.phase.asleep = false) ∧
    (0 < cfg.timeoutS →
      (∀ k, ((s.admitted.filter (laneOf s ·.ticket = some k)).map (·.ticket)).Pairwise (· < ·)) ∧
      ∀ e ∈ s.admitted, ∃ x, s.waiters[e.ticket]? = some x ∧
        e.answeredAt - x.started < cfg.timeoutS) := by
  intro s
  have h : Inv cfg s := inv_runs
  refine ⟨?_, h.tidy.nonempty, fun q hq w hw => ?_, h.countP_asleep, ?_, fun hpos => ?_⟩
  · rw [h.count, everyone, length_flatMap]
  · have hall : w ∈ everyone s.lanes := mem_flatMap.2 ⟨q, hq, hw⟩
    obtain ⟨k, hk⟩ := (mem_everyone h.tidy).1 hall
    obtain ⟨x, hx, -, hqueued⟩ := h.tickets k w hk
    refine ⟨x, hx, fun e he => ?_⟩
    rw [he] at hqueued
    cases hqueued
  · intro hfull lane started now acts' x hx
    obtain ⟨y, hy, hover⟩ := h.wait_full hfull lane started now
    obtain ⟨hend, hkeeps⟩ := (h.step (.wait lane started now)).runs_keeps acts'
    have hfixed := fixed_of_last hkeeps hy hx
    exact (hend.awake _ _ hx ((congrArg (fun f => f.2.2) hfixed).trans hover)).2
  · have ho : Orderly cfg s := orderly_runs hpos
    exact ⟨ho.order, ho.logged⟩

end

/-! ### Runs -/

/-- Two seats, ten seconds. -/
def twoSeats : Config := ⟨2, by decide, 10, by decide, 1, by decide⟩

/-- Two calls for one lane: the first finds no replica, the second sleeps behind it, and both are
    served when replicas come free. -/
def servedInTurn : List (Act ℕ Unit) :=
  [.wait 0 0 0, .probeAnswers 0 none 1 1, .wait 0 1 1, .wake 0 2, .probeAnswers 0 (some ()) 3 3,
    .wake 1 4, .probeAnswers 1 (some ()) 5 5]

theorem admission_bookkeeping_served :
    (runs (step twoSeats) {} servedInTurn).admitted = [⟨0, 3⟩, ⟨1, 5⟩] ∧ 0 < twoSeats.timeoutS ∧
    ∀ e ∈ (runs (step twoSeats) {} servedInTurn).admitted,
      ∃ x, (runs (step twoSeats) {} servedInTurn).waiters[e.ticket]? = some x ∧
        e.answeredAt - x.started < twoSeats.timeoutS :=
  ⟨by decide +kernel, by decide +kernel,
    ((admission_bookkeeping twoSeats servedInTurn).2.2.2.2.2 (by decide +kernel)).2⟩

/-- Nobody queues: each caller asks for a replica at once. -/
def shedding : Config := ⟨1, by decide, 0, by decide, 1, by decide⟩

/-- Without a queue, of two calls for one lane the later one is admitted first, and both are after
    a timeout of no time at all. -/
theorem admission_unordered_when_shedding :
    let s := runs (step shedding) ({} : State ℕ Unit)
      [.wait 0 0 0, .wait 0 1 1, .probeAnswers 1 (some ()) 2 2, .probeAnswers 0 (some ()) 3 3]
    (s.admitted.filter (laneOf s ·.ticket = some 0)).map (·.ticket) = [1, 0] ∧
    s.waiters[1]?.map (·.started) = some 1 ∧ s.admitted.head? = some ⟨1, 2⟩ ∧
    ¬ ((2 : ℚ) - 1 < shedding.timeoutS) := by
  decide +kernel

end Fallow.Gateway.Admission

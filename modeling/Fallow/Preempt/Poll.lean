import Fallow.Lib.Run
import Fallow.Supervisor.Machine

/-! The poll thread of an agent: the reclaim controller, then the preemption controller, once per
    tick (`preempt/controller.*`, `preempt/reclaim.*`, `poll_loop.py`, `runtime/loops.go`).

    Both controllers call the supervisor while they hold their own lock, so nobody reads their state
    in the middle of a transition: the change of state is made together with the commit of the
    signal before it. Times are in the smallest unit of the clock.

        tick ─▶ flag appeared: SuspendAll ─▶ reclaimed (and a background stop)
             └▶ not reclaimed: sample ─▶ idle, fresh input:  SuspendAll ─▶ active
                                      ├▶ active, long idle:  ResumeAll  ─▶ idle
                                      └▶ active, held:       stop the suspended GPU replicas -/

namespace Fallow.Preempt

open Fallow.Supervisor Option

inductive AgentState where | idle | active | draining
  deriving DecidableEq, Repr

structure AgentConfig where
  pollInterval : ℤ
  idleThreshold : ℤ
  vramEvictAfter : ℤ
  deriving DecidableEq, Repr

structure Controller where
  state : AgentState := .idle
  prevIdle : Option ℤ := none
  activeSince : Option ℤ := none
  escalated : Bool := false
  deriving DecidableEq, Repr

def Controller.isFreshInput (c : Controller) (cfg : AgentConfig) (idle : ℤ) : Bool :=
  idle < cfg.pollInterval || match c.prevIdle with
    | some prev => idle < prev
    | none => false

/-- The tests `maybeEscalate` makes before it stops anything. -/
def Controller.shouldEscalate (c : Controller) (cfg : AgentConfig) (now : ℤ) : Bool :=
  !c.escalated && match c.activeSince with
    | some since => ¬ now - since < cfg.vramEvictAfter
    | none => false

/-- What an escalation stops: the suspended replicas that hold VRAM. -/
def evictable (statuses : List ReplicaStatus) : List String :=
  (statuses.filter fun st => st.state = .suspended && st.gpu).map (·.modelId)

/-- Where the poll thread stands in a tick. In `reclaiming`, `entering` and `leaving` it is inside
    `SuspendAll` or `ResumeAll`. -/
inductive Tick where
  | idle
  | reclaiming
  | sampling
  | entering (idle now : ℤ)
  | leaving (idle : ℤ)
  | escalating (idle : ℤ) (todo : List String)
  deriving DecidableEq, Repr

/-- The agent without its reconciler. A job of a reclaim's background stop has not read the
    statuses yet, or has models left to stop. `primed` is set by every finished tick. -/
structure Poll where
  sup : State := .initial
  controller : Controller := {}
  reclaimed : Bool := false
  tick : Tick := .idle
  jobs : List (Option (List String)) := []
  primed : Bool := false

inductive Event where
  | tick (flag : Bool) (order : List ℕ)
  | sample (idle : Option ℤ) (now : ℤ) (order : List ℕ)
  | signal (result : SignalResult)
  | commit
  | escalate
  | job (k : ℕ)
  | drain
  | background (a : Act)
  deriving DecidableEq, Repr

namespace Poll

/-- `Controller.mu` is free. -/
def controllerFree (p : Poll) : Bool :=
  match p.tick with
  | .entering .. | .leaving _ | .escalating .. => false
  | _ => true

/-- `ReclaimController.mu` is free. -/
def reclaimFree (p : Poll) : Bool := p.tick ≠ .reclaiming

def finish (p : Poll) : Poll := { p with tick := .idle, primed := true }

/-- A tick of the controller that only remembers the reading. -/
def remember (p : Poll) (idle : ℤ) : Poll :=
  { p with controller := { p.controller with prevIdle := some idle } }.finish

/-- `SuspendAll` or `ResumeAll` up to its snapshot. -/
def beginSignal (p : Poll) (suspend : Bool) (order : List ℕ) (tick : Tick) : Poll :=
  if p.sup.signal = .idle ∧ p.sup.stops .poll = none ∧
      order.Perm p.sup.tables.children.values then
    { p with sup := p.sup.snapshot suspend order, tick := tick }
  else p

/-- `ReclaimController.OnPoll` with the flag as `stat` found it. -/
def beginTick (p : Poll) (flag : Bool) (order : List ℕ) : Poll :=
  if p.tick = .idle then
    if flag then
      if p.reclaimed then p.finish else p.beginSignal true order .reclaiming
    else { p with reclaimed := false, tick := .sampling }
  else p

/-- `Controller.OnPoll`. A reading that cannot be had ends the tick. -/
def sample (cfg : AgentConfig) (p : Poll) (idle : Option ℤ) (now : ℤ) (order : List ℕ) : Poll :=
  if p.tick = .sampling then
    match idle with
    | none => p.finish
    | some idle =>
      match p.controller.state with
      | .draining => p.finish
      | .idle =>
        if p.controller.isFreshInput cfg idle then p.beginSignal true order (.entering idle now)
        else p.remember idle
      | .active =>
        if cfg.idleThreshold ≤ idle then p.beginSignal false order (.leaving idle)
        else if p.controller.shouldEscalate cfg now then
          { p with tick := .escalating idle (evictable p.sup.tables.statuses) }
        else p.remember idle
  else p

/-- One signal. If the call is left by an exception (Python), the tick is over. -/
def signal (ag : Agent) (p : Poll) (result : SignalResult) : Poll :=
  let sup := p.sup.sendSignal ag result
  match p.tick with
  | .reclaiming | .entering .. | .leaving _ =>
    { p with sup := sup, tick := if sup.signal = .idle then .idle else p.tick }
  | _ => p

/-- The end of `SuspendAll` or `ResumeAll`, and what the controller does after it. -/
def commit (p : Poll) : Poll :=
  match p.sup.signal with
  | .sending _ _ [] _ =>
    match p.tick with
    | .reclaiming =>
      { p with sup := p.sup.commit, reclaimed := true, jobs := p.jobs ++ [none] }.finish
    | .entering idle now =>
      { p with
        sup := p.sup.commit
        controller := { state := .active, prevIdle := some idle, activeSince := some now,
                        escalated := false } }.finish
    | .leaving idle =>
      { p with
        sup := p.sup.commit
        controller := { state := .idle, prevIdle := some idle, activeSince := none,
                        escalated := false } }.finish
    | _ => p
  | _ => p

def escalate (p : Poll) : Poll :=
  match p.tick with
  | .escalating idle (m :: rest) =>
    if p.sup.free .poll then
      { p with sup := p.sup.stopReplica .poll m, tick := .escalating idle rest }
    else p
  | .escalating idle [] =>
    if p.sup.free .poll then
      { p with controller := { p.controller with escalated := true } }.remember idle
    else p
  | _ => p

/-- The next step of a background stop: read the statuses, then stop one model after another. -/
def job (p : Poll) (k : ℕ) : Poll :=
  match p.jobs[k]? with
  | some none =>
    { p with jobs := p.jobs.set k (some (p.sup.tables.statuses.map (·.modelId))) }
  | some (some (m :: rest)) =>
    if p.sup.free (.reclaim k) then
      { p with
        sup := p.sup.stopReplica (.reclaim k) m
        jobs := p.jobs.set k (some rest) }
    else p
  | _ => p

def drain (p : Poll) : Poll :=
  if p.controllerFree then { p with controller := { p.controller with state := .draining } } else p

end Poll

/-- Steps the supervisor and its processes take by themselves. -/
def isBackground : Act → Bool
  | .stopStep _ | .graceOver _ | .stopKill _ _ | .health _ | .probe _ _ | .clock _ _
  | .healthKill _ _ | .slots _ _ | .exit _ => true
  | _ => false

def Poll.step (cfg : AgentConfig) (ag : Agent) (p : Poll) : Event → Poll
  | .tick flag order => p.beginTick flag order
  | .sample idle now order => p.sample cfg idle now order
  | .signal result => p.signal ag result
  | .commit => p.commit
  | .escalate => p.escalate
  | .job k => p.job k
  | .drain => p.drain
  | .background a => if isBackground a then { p with sup := p.sup.step ag a } else p

/-! ### The controller by itself

    `OnPoll` seen from outside, its supervisor calls having returned: what `sample` and the step that
    ends its tick do to the controller together. -/

namespace Controller

def onPoll (cfg : AgentConfig) (c : Controller) (idle now : ℤ) : Controller :=
  match c.state with
  | .draining => c
  | .idle =>
    if c.isFreshInput cfg idle then
      { state := .active, prevIdle := some idle, activeSince := some now, escalated := false }
    else { c with prevIdle := some idle }
  | .active =>
    if cfg.idleThreshold ≤ idle then
      { state := .idle, prevIdle := some idle, activeSince := none, escalated := false }
    else { c with escalated := c.escalated || c.shouldEscalate cfg now, prevIdle := some idle }

/-- A new controller after some polls, each a reading and the time it was taken at. -/
def polled (cfg : AgentConfig) (polls : List (ℤ × ℤ)) : Controller :=
  Lib.runs (fun c poll => c.onPoll cfg poll.1 poll.2) {} polls

/-- INVARIANT: hysteresis. While IDLE, the last reading was long enough. -/
structure Rested (cfg : AgentConfig) (c : Controller) : Prop where
  working : c.state ≠ .draining
  rested : c.state = .idle → ∃ prev, c.prevIdle = some prev ∧ cfg.idleThreshold ≤ prev

variable {cfg : AgentConfig} {c : Controller} {idle now : ℤ}

theorem prevIdle_onPoll (h : c.state ≠ .draining) :
    (c.onPoll cfg idle now).prevIdle = some idle := by
  unfold onPoll
  split
  · contradiction
  · split <;> rfl
  · split <;> rfl

/-- A reading at or above the previous one is no fresh input: IDLE goes on under it. -/
theorem Rested.onPoll (h : Rested cfg c) (idle now : ℤ) : Rested cfg (c.onPoll cfg idle now) := by
  unfold Controller.onPoll
  split
  · exact h
  · rename_i hst
    obtain ⟨prev, hprev, hle⟩ := h.rested hst
    split
    · exact ⟨by simp, by simp⟩
    rename_i hfresh
    refine ⟨h.working, fun _ => ⟨idle, rfl, ?_⟩⟩
    simp only [isFreshInput, hprev, Bool.or_eq_true, decide_eq_true_eq, not_or] at hfresh
    omega
  · rename_i hst
    split
    · rename_i hlong; exact ⟨by simp, fun _ => ⟨idle, rfl, hlong⟩⟩
    · exact ⟨h.working, fun hs => absurd (hst.symm.trans hs) (by simp)⟩

/-- The first poll has no reading before it: only input within the poll interval is fresh. -/
theorem rested_first (cfg : AgentConfig) (idle now : ℤ) :
    Rested cfg (onPoll cfg {} idle now) ↔ idle < cfg.pollInterval ∨ cfg.idleThreshold ≤ idle := by
  by_cases hin : idle < cfg.pollInterval
  · refine iff_of_true ?_ (.inl hin)
    constructor <;> simp [onPoll, isFreshInput, hin]
  · rw [or_iff_right hin]
    constructor
    · intro h
      obtain ⟨prev, hprev, hle⟩ := h.rested (by simp [onPoll, isFreshInput, hin])
      rw [prevIdle_onPoll (by simp)] at hprev
      exact some.inj hprev ▸ hle
    · intro hlong
      exact ⟨by simp [onPoll, isFreshInput, hin], fun _ => ⟨idle, prevIdle_onPoll (by simp), hlong⟩⟩

end Controller

/-! A tick of the poll thread is `onPoll`: at once where no supervisor call is made, and with the
    step that ends the call or the escalation otherwise. -/

section
variable {cfg : AgentConfig} {p : Poll} {idle now : ℤ} {order : List ℕ}

/-- REFINES: what a tick leaves to be done once its supervisor call has returned. -/
def Poll.leaves (p : Poll) : Controller :=
  match p.tick with
  | .entering idle now => ⟨.active, some idle, some now, false⟩
  | .leaving idle => ⟨.idle, some idle, none, false⟩
  | .escalating idle _ => { p.controller with escalated := true, prevIdle := some idle }
  | _ => p.controller

theorem leaves_sample (ht : p.tick = .sampling)
    (hs : (p.sample cfg (some idle) now order).tick ≠ .sampling) :
    (p.sample cfg (some idle) now order).leaves = p.controller.onPoll cfg idle now := by
  unfold Poll.sample at hs ⊢
  rw [if_pos ht] at hs ⊢
  unfold Controller.onPoll
  dsimp only at hs ⊢
  split at hs
  · rfl
  · split at hs
    · unfold Poll.beginSignal at hs ⊢
      split at hs
      · simp_all [Poll.leaves]
      · exact absurd ht hs
    · simp_all [Poll.leaves, Poll.remember, Poll.finish]
  · split at hs
    · unfold Poll.beginSignal at hs ⊢
      split at hs
      · simp_all [Poll.leaves]
      · exact absurd ht hs
    · rename_i hshort
      simp only [if_neg hshort]
      split at hs
      · simp_all [Poll.leaves]
      · simp_all [Poll.leaves, Poll.remember, Poll.finish]

theorem leaves_commit : p.commit.leaves = p.leaves := by
  unfold Poll.commit
  split
  · split <;> simp_all [Poll.leaves, Poll.finish]
  · rfl

theorem leaves_escalate : p.escalate.leaves = p.leaves := by
  unfold Poll.escalate
  split
  · split <;> simp_all [Poll.leaves]
  · split <;> simp_all [Poll.leaves, Poll.remember, Poll.finish]
  · rfl

end

end Fallow.Preempt

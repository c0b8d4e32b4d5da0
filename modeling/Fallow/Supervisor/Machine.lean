import Fallow.Supervisor.Tables

/-! The supervisor as a system of threads over its tables and its processes.

    One step is one section under the lock, or one event outside it: a spawn, an exit, a signal, a
    probe, a reading of the clock. The threads are the caller that starts and stops replicas (the
    reconcile loop), the poll thread with `SuspendAll`, `ResumeAll` and its own `StopReplica`, the
    background stops of a reclaim, and one health loop per child. What a thread holds between two
    steps (the child it spawned, the snapshot it took, the child it is stopping) is in its program
    counter. An action that is not enabled does nothing.

    A process is alive until its handle reads as exited. A wait that ends by a timer may end at any
    time. -/

namespace Fallow.Supervisor

open Function

/-- The two agents. They differ in how a failed signal is read and in the slot probe. -/
inductive Agent where | go | python
  deriving DecidableEq, Repr

structure Proc where
  modelId : String := ""
  port : ℕ := 0
  gpu : Bool := false
  /-- the psutil handle was found at registration (always so in Go) -/
  handle : Bool := true
  alive : Bool := true
  shutdown : Bool := false
  /-- the last of suspend and resume that was delivered was a suspend -/
  suspended : Bool := false
  /-- a kill was delivered -/
  killed : Bool := false
  deriving DecidableEq, Repr

inductive Thread where
  | reconcile
  | poll
  | reclaim (job : ℕ)
  deriving DecidableEq, Repr

/-- Where the caller stands in `StartReplica`. -/
inductive StartPc where
  | idle
  | checked (modelId : String) (port : ℕ) (gpu : Bool)
  | spawned (child : ℕ)
  | registered (child : ℕ)
  deriving DecidableEq, Repr

inductive StopPhase where | terminate | grace | kill | reap | join
  deriving DecidableEq, Repr

/-- A `StopReplica` past its lock, with the child and the channel it took out of the tables. -/
structure StopCall where
  child : ℕ
  done : Option ℕ
  phase : StopPhase := .terminate
  deriving DecidableEq, Repr

/-- Where the poll thread stands in `applySignal`. -/
inductive SignalPc where
  | idle
  | sending (suspend : Bool) (snapshot todo : List ℕ) (vanished : List String)
  deriving DecidableEq, Repr

/-- The two loops of a health loop: `awaitReady` and `watchUntilExit`. -/
inductive Phase where | startup | serving
  deriving DecidableEq, Repr

inductive HealthPc where
  | unstarted
  | top (phase : Phase)
  | look (phase : Phase)
  | probe
  | ready
  | clock
  | kill
  | reap
  | crashed
  | isReady
  | slots
  | counted (count : ℕ)
  | done
  deriving DecidableEq, Repr

inductive SignalResult where | ok | noSuchProcess | error
  deriving DecidableEq, Repr

structure State where
  tables : Tables := {}
  procs : ℕ → Proc := fun _ => {}
  count : ℕ := 0
  health : ℕ → HealthPc := fun _ => .unstarted
  start : StartPc := .idle
  signal : SignalPc := .idle
  stops : Thread → Option StopCall := fun _ => none

def State.initial : State := {}

inductive Act where
  | startReplica (modelId : String) (port : ℕ) (gpu : Bool)
  | spawn (ok : Bool)
  | register (handle : Bool)
  | launch
  | stopReplica (t : Thread) (modelId : String)
  | stopStep (t : Thread)
  | graceOver (t : Thread)
  | stopKill (t : Thread) (delivered : Bool)
  | snapshot (suspend : Bool) (order : List ℕ)
  | signal (result : SignalResult)
  | commit
  | health (child : ℕ)
  | probe (child : ℕ) (ok : Bool)
  | clock (child : ℕ) (late : Bool)
  | healthKill (child : ℕ) (delivered : Bool)
  | slots (child : ℕ) (count : Option ℕ)
  | exit (child : ℕ)
  deriving DecidableEq, Repr

namespace State

def child? (s : State) (modelId : String) : Option ℕ := s.tables.children.get modelId

def modelOf (s : State) (c : ℕ) : String := (s.procs c).modelId

@[simps]
def setProc (s : State) (c : ℕ) (p : Proc) : State := { s with procs := update s.procs c p }

@[simps]
def setHealth (s : State) (c : ℕ) (pc : HealthPc) : State :=
  { s with health := update s.health c pc }

@[simps]
def setStop (s : State) (t : Thread) (call : Option StopCall) : State :=
  { s with stops := update s.stops t call }

@[simps]
def setTables (s : State) (t : Tables) : State := { s with tables := t }

/-- `Process.Kill`; its error is dropped. -/
def killProc (s : State) (c : ℕ) (delivered : Bool) : State :=
  s.setProc c { s.procs c with killed := (s.procs c).killed || delivered }

/-! ### StartReplica -/

def startReplica (s : State) (modelId : String) (port : ℕ) (gpu : Bool) : State :=
  if s.start = .idle ∧ s.stops .reconcile = none then
    if (s.child? modelId).isSome then s else { s with start := .checked modelId port gpu }
  else s

def spawn (s : State) (ok : Bool) : State :=
  match s.start with
  | .checked modelId port gpu =>
    if ok then
      { s.setProc s.count { modelId := modelId, port := port, gpu := gpu } with
        count := s.count + 1
        start := .spawned s.count }
    else { s with start := .idle }
  | _ => s

def register (s : State) (handle : Bool) : State :=
  match s.start with
  | .spawned c =>
    { s.setProc c { s.procs c with handle := handle } with
      tables := s.tables.registerChild (s.modelOf c) (s.procs c).port (s.procs c).gpu c
      start := .registered c }
  | _ => s

/-- The second lock of `StartReplica`, and the start of the health loop. -/
def launch (s : State) : State :=
  match s.start with
  | .registered c =>
    { s.setHealth c (.top .startup) with
      tables := { s.tables with healthDone := s.tables.healthDone.insert (s.modelOf c) c }
      start := .idle }
  | _ => s

/-! ### StopReplica -/

/-- The caller and the poll thread call it only when they are in no other call. -/
def free (s : State) (t : Thread) : Prop :=
  s.stops t = none ∧ (t = .reconcile → s.start = .idle) ∧ (t = .poll → s.signal = .idle)

instance (s : State) (t : Thread) : Decidable (s.free t) := inferInstanceAs (Decidable (_ ∧ _ ∧ _))

def stopReplica (s : State) (t : Thread) (modelId : String) : State :=
  if s.free t then
    let s' := s.setTables (s.tables.stopReplica modelId)
    match s.child? modelId with
    | some c => s'.setStop t (some { child := c, done := s.tables.healthDone.get modelId })
    | none => s'
  else s

/-- The steps of a stop that need nothing from outside: the shutdown signal with SIGTERM, a wait
    that sees the exit, a wait given up, the join. -/
def stopStep (s : State) (t : Thread) : State :=
  match s.stops t with
  | none => s
  | some call =>
    match call.phase with
    | .terminate =>
      (s.setProc call.child { s.procs call.child with shutdown := true }).setStop t
        (some { call with phase := .grace })
    | .grace =>
      if (s.procs call.child).alive then s else s.setStop t (some { call with phase := .join })
    | .kill => s
    | .reap => s.setStop t (some { call with phase := .join })
    | .join => s.setStop t none

/-- The grace period ends with the process still there. -/
def graceOver (s : State) (t : Thread) : State :=
  match s.stops t with
  | some call =>
    if call.phase = .grace then s.setStop t (some { call with phase := .kill }) else s
  | none => s

def stopKill (s : State) (t : Thread) (delivered : Bool) : State :=
  match s.stops t with
  | some call =>
    if call.phase = .kill then
      (s.killProc call.child delivered).setStop t (some { call with phase := .reap })
    else s
  | none => s

/-! ### SuspendAll and ResumeAll -/

/-- The snapshot has every tracked child, in whatever order the map gives. -/
def snapshot (s : State) (suspend : Bool) (order : List ℕ) : State :=
  if s.signal = .idle ∧ s.stops .poll = none ∧ order.Perm s.tables.children.values then
    { s with signal := .sending suspend order order [] }
  else s

/-- Whether the signal counts as "process vanished". In Go every error does; in Python only
    `NoSuchProcess`, or a handle that was never found. -/
def vanishes (ag : Agent) (p : Proc) (result : SignalResult) : Bool :=
  match ag with
  | .go => result ≠ .ok
  | .python => ¬ p.handle ∨ result = .noSuchProcess

/-- Signal the next process of the snapshot. Another error leaves the Python call by exception:
    nothing is committed. -/
def sendSignal (ag : Agent) (s : State) (result : SignalResult) : State :=
  match s.signal with
  | .sending suspend snapshot (c :: todo) vanished =>
    if ¬ (s.procs c).alive ∨ vanishes ag (s.procs c) result then
      { s with signal := .sending suspend snapshot todo (vanished ++ [s.modelOf c]) }
    else if result = .ok then
      { s.setProc c { s.procs c with suspended := suspend } with
        signal := .sending suspend snapshot todo vanished }
    else { s with signal := .idle }
  | _ => s

/-- `signalShutdown` for every vanished child of the snapshot. -/
def shutdownVanished (s : State) (snapshot : List ℕ) (vanished : List String) : ℕ → Proc := fun c =>
  if c ∈ snapshot ∧ s.modelOf c ∈ vanished then { s.procs c with shutdown := true } else s.procs c

def commit (s : State) : State :=
  match s.signal with
  | .sending suspend snapshot [] vanished =>
    { s with
      tables := s.tables.commitSignal (snapshot.map s.modelOf) vanished suspend
      procs := s.shutdownVanished snapshot vanished
      signal := .idle }
  | _ => s

/-! ### Health loops -/

/-- The steps of a health loop that need nothing from outside. -/
def healthStep (ag : Agent) (s : State) (c : ℕ) : State :=
  match s.health c with
  | .top phase => s.setHealth c (if (s.procs c).shutdown then .done else .look phase)
  | .look .startup => s.setHealth c (if (s.procs c).alive then .probe else .crashed)
  | .look .serving =>
    s.setHealth c (if ¬ (s.procs c).alive then .crashed
      else if ag = .python then .isReady else .top .serving)
  | .ready => (s.setTables (s.tables.markReady (s.modelOf c))).setHealth c (.top .serving)
  | .reap => s.setHealth c .crashed
  | .crashed => (s.setTables (s.tables.markCrashed (s.modelOf c))).setHealth c .done
  | .isReady =>
    s.setHealth c (if s.child? (s.modelOf c) = some c ∧
      s.tables.states.get (s.modelOf c) = some .ready then .slots else .top .serving)
  | .counted count =>
    (s.setTables (s.tables.recordSlots (s.modelOf c) c count)).setHealth c (.top .serving)
  | _ => s

def probe (s : State) (c : ℕ) (ok : Bool) : State :=
  if s.health c = .probe then s.setHealth c (if ok then .ready else .clock) else s

def clock (s : State) (c : ℕ) (late : Bool) : State :=
  if s.health c = .clock then s.setHealth c (if late then .kill else .top .startup) else s

def healthKill (s : State) (c : ℕ) (delivered : Bool) : State :=
  if s.health c = .kill then (s.killProc c delivered).setHealth c .reap else s

def slots (s : State) (c : ℕ) (count : Option ℕ) : State :=
  if s.health c = .slots then
    s.setHealth c (match count with | some n => .counted n | none => .top .serving)
  else s

def exit (s : State) (c : ℕ) : State :=
  if c < s.count then s.setProc c { s.procs c with alive := false } else s

def step (ag : Agent) (s : State) : Act → State
  | .startReplica modelId port gpu => s.startReplica modelId port gpu
  | .spawn ok => s.spawn ok
  | .register handle => s.register handle
  | .launch => s.launch
  | .stopReplica t modelId => s.stopReplica t modelId
  | .stopStep t => s.stopStep t
  | .graceOver t => s.graceOver t
  | .stopKill t delivered => s.stopKill t delivered
  | .snapshot suspend order => s.snapshot suspend order
  | .signal result => s.sendSignal ag result
  | .commit => s.commit
  | .health c => s.healthStep ag c
  | .probe c ok => s.probe c ok
  | .clock c late => s.clock c late
  | .healthKill c delivered => s.healthKill c delivered
  | .slots c count => s.slots c count
  | .exit c => s.exit c

/-! ### Steps that leave the tables alone -/

section
variable (s : State) {ok delivered : Bool} {t : Thread}

@[simp] theorem tables_startReplica : (s.startReplica m port gpu).tables = s.tables := by
  unfold startReplica
  split
  · split <;> rfl
  · rfl

@[simp] theorem tables_spawn : (s.spawn ok).tables = s.tables := by
  unfold spawn
  split
  · split <;> rfl
  · rfl

@[simp] theorem tables_stopStep : (s.stopStep t).tables = s.tables := by
  unfold stopStep
  split
  · rfl
  split
  · rfl
  · split <;> rfl
  · rfl
  · rfl
  · rfl

@[simp] theorem tables_graceOver : (s.graceOver t).tables = s.tables := by
  unfold graceOver
  split
  · split <;> rfl
  · rfl

@[simp] theorem tables_stopKill : (s.stopKill t delivered).tables = s.tables := by
  unfold stopKill
  split
  · split <;> rfl
  · rfl

@[simp] theorem tables_snapshot : (s.snapshot suspend order).tables = s.tables := by
  unfold snapshot; split <;> rfl

@[simp] theorem tables_sendSignal : (s.sendSignal ag result).tables = s.tables := by
  unfold sendSignal
  split
  · split
    · rfl
    · split <;> rfl
  · rfl

variable {c : ℕ}

@[simp] theorem tables_probe : (s.probe c ok).tables = s.tables := by
  unfold probe; split <;> rfl

@[simp] theorem tables_clock : (s.clock c late).tables = s.tables := by
  unfold clock; split <;> rfl

@[simp] theorem tables_healthKill : (s.healthKill c delivered).tables = s.tables := by
  unfold healthKill; split <;> rfl

@[simp] theorem tables_slots {count : Option ℕ} : (s.slots c count).tables = s.tables := by
  unfold slots; split <;> rfl

@[simp] theorem tables_exit : (s.exit c).tables = s.tables := by
  unfold exit; split <;> rfl

end

end State
end Fallow.Supervisor

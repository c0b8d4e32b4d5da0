import Fallow.Lib.Exec
import Fallow.Lib.PyText
import Fallow.Gateway.SiteRoute
import Fallow.Queue.Store
import Fallow.Registry.Calls
import Fallow.Relay.ClaimCodec
import Fallow.Scheduler.Poll

/-! The coordinator's runtime state, and the agent events that touch it besides the stores.

    `CoordinatorState` is the container the route handlers close over. What they draw from outside,
    clock readings, SQLite's order among equals, digests, comes from `World`: the n-th draw of a kind
    is its n-th value, so a handler is a function of the state and every behaviour of the outside is
    some `World`. -/

namespace Fallow.App
open Lib Registry

/-! ### Events -/

inductive EventKind where
  | userReturned | userIdle | replicaReady | replicaSuspended | replicaResumed | replicaStopped
  | agentStarting | agentStopping
  deriving DecidableEq, Repr

/-- An event as its body says it; the agent it names is the sender's choice. -/
structure AgentEvent where
  agentId : String
  kind : EventKind
  at_ : ℤ := 0
  detail : List (String × String) := []
  deriving DecidableEq, Repr

/-- The event-driven overlay over the agents' stored states. -/
structure EventStateOverrides where
  states : String → Option AgentState := fun _ => none

def EventStateOverrides.apply (o : EventStateOverrides) (event : AgentEvent) : EventStateOverrides :=
  if event.kind = .userReturned then
    { o with states := Function.update o.states event.agentId (some .active) }
  else if event.kind = .userIdle then
    { o with states := Function.update o.states event.agentId (some .idle) }
  else o

def EventStateOverrides.stateFor (o : EventStateOverrides) (agentId : String) : Option AgentState :=
  o.states agentId

/-! ### State -/

structure CoordinatorConfig where
  queue : Queue.Config := Queue.defaultConfig
  longPollMaxS : ℚ := 25
  churnEstUnitDurationS : ℚ := 60
  speculativeBackupEnabled : Bool := false
  speculativeTailMaxUnits : ℕ := 2
  speculativeSurvivalThreshold : ℚ := 1 / 2
  maxResultPayloadBytes : ℕ := 64 * 1024 * 1024

/-- The outside: wall and monotonic clocks in microseconds, the order of equal rows, sha256, the
    claim ids drawn by the broker and the files under `unit_input_dir`. -/
structure World where
  now : ℕ → ℤ := fun _ => 0
  monotonic : ℕ → ℤ := fun _ => 0
  tie : ℕ → ℕ := fun _ => 0
  sha256 : Relay.Bytes → String := fun _ => ""
  claimId : ℕ → Relay.ClaimId := fun _ => .zero
  unitInput : String → Option Relay.Bytes := fun _ => none

structure CoordinatorState where
  config : CoordinatorConfig := {}
  world : World := {}
  /-- draws made so far -/
  draws : ℕ := 0
  registry : SqliteRegistry
  queue : Queue.Store := {}
  events : List AgentEvent := []
  results : List (String × Relay.Bytes) := []
  overrides : EventStateOverrides := {}
  churn : Option Scheduler.ChurnModel := none
  /-- present under Site Mode only -/
  relay : Option Relay.Broker := none
  relayFlags : List (ℕ × Unit) := []

def relayFlagsMax : ℕ := 4096

/-- `RelayFailureFlags.mark`. -/
def CoordinatorState.markNonretryable (s : CoordinatorState) (claim : ℕ) : CoordinatorState :=
  { s with relayFlags := Relay.recordLast relayFlagsMax claim () s.relayFlags }

/-! ### Handlers -/

/-- `HTTPException`, and 500 for an exception nobody catches. -/
structure HttpError where
  status : ℕ
  detail : String
  deriving DecidableEq, Repr

abbrev Handler := Exec CoordinatorState HttpError

def internalServerError : HttpError := ⟨500, "Internal Server Error"⟩

/-- One draw from the outside. -/
def draw {α : Type} (f : World → ℕ → α) : Handler α := do
  let s ← get
  modify fun s => { s with draws := s.draws + 1 }
  return f s.world s.draws

def callRegistry (op : Registry.Op) : Handler (Option Ret) := do
  let s ← get
  modify fun s => { s with registry := (s.registry.call op).1 }
  return (s.registry.call op).2

/-- A queue call; a failing statement ends the request. -/
def callQueue {α : Type} (f : Queue.Store → Queue.Store × Except Queue.QueueError α) : Handler α := do
  let s ← get
  modify fun s => { s with queue := (f s.queue).1 }
  match (f s.queue).2 with
  | .ok a => return a
  | .error _ => throw internalServerError

/-- A broker call; without Site Mode the routes behind it do not exist. -/
def callRelay {α : Type} (f : Relay.Broker → Relay.Broker × α) : Handler α := do
  let s ← get
  match s.relay with
  | none => throw ⟨404, "Not Found"⟩
  | some b =>
    modify fun s => { s with relay := some (f b).1 }
    return (f b).2

end Fallow.App

import Fallow.Lib.Round
import Fallow.Lib.Table

/-! Queue schema: the rows of `queue/schema.sql`, the wire values they are built from, and the pure
    helpers of `_jobstate.py` and `_serialization.py`.

    Timestamps are integers, in microseconds since the epoch: the stored ISO text is fixed width, so
    its lexicographic order is the order of instants. `params_json` is kept as the sorted item list
    that `dump_params` writes out, which determines the text and is determined by it. -/

namespace Fallow.Queue

inductive WorkerKind where | chat | embed | transcribe
  deriving DecidableEq, Repr

inductive JobState where | pending | running | done | cancelled
  deriving DecidableEq, Repr

inductive WorkUnitState where | pending | leased | done | dead
  deriving DecidableEq, Repr

inductive WorkResultStatus where | succeeded | failed
  deriving DecidableEq, Repr

/-! ### Wire values -/

structure JobSubmit where
  kind : WorkerKind
  modelId : String
  payloadRef : String
  params : List (String × String)
  priority : ℤ
  deriving DecidableEq, Repr

structure WorkUnitSpec where
  workUnitId : String
  idx : ℕ
  inputRef : String
  estDurationS : Option ℚ
  deriving DecidableEq, Repr

structure WorkUnitLease where
  workUnitId : String
  jobId : String
  kind : WorkerKind
  modelId : String
  inputUrl : String
  leaseExpires : ℤ
  attempt : ℕ
  estDurationS : Option ℚ
  deriving DecidableEq, Repr

/-- `metrics` is the JSON text `dump_metrics` stores. -/
structure WorkResult where
  workUnitId : String
  status : WorkResultStatus
  resultRef : Option String
  error : Option String
  metrics : Option String
  deriving DecidableEq, Repr

structure UnitTransition where
  workUnitId : String
  jobId : String
  agentId : String
  attempt : ℕ
  state : WorkUnitState
  at_ : ℤ
  deriving DecidableEq, Repr

/-! ### Tables -/

structure JobRow where
  jobId : String
  kind : WorkerKind
  modelId : String
  payloadRef : String
  paramsJson : List (String × String)
  priority : ℤ
  state : JobState
  createdAt : ℤ
  deriving DecidableEq, Repr

structure UnitRow where
  workUnitId : String
  jobId : String
  idx : ℕ
  inputRef : String
  estDurationS : Option ℚ
  state : WorkUnitState
  attempts : ℕ
  leaseAgent : Option String
  leaseExpires : Option ℤ
  createdAt : ℤ
  deriving DecidableEq, Repr

structure ResultRow where
  workUnitId : String
  status : WorkResultStatus
  resultRef : Option String
  error : Option String
  metricsJson : Option String
  agentId : String
  completedAt : ℤ
  deriving DecidableEq, Repr

structure BindingRow where
  workUnitId : String
  agentId : String
  attempt : ℕ
  digest : String
  resultRef : String
  acceptedAt : ℤ
  deriving DecidableEq, Repr

structure MembershipRow where
  jobId : String
  workUnitId : String
  idx : ℕ
  inputRef : String
  terminalState : Option WorkUnitState
  resultStatus : Option WorkResultStatus
  resultRef : Option String
  deriving DecidableEq, Repr

structure BackupRow where
  workUnitId : String
  jobId : String
  agentId : String
  attempt : ℕ
  leaseExpires : ℤ
  createdAt : ℤ
  deriving DecidableEq, Repr

structure FinalizationRow where
  jobId : String
  indexedItems : ℕ
  deriving DecidableEq, Repr

/-- One logical database: the seven tables of the schema. -/
structure Db where
  jobs : List JobRow := []
  workUnits : List UnitRow := []
  unitResults : List ResultRow := []
  resultPayloadBindings : List BindingRow := []
  jobUnitMemberships : List MembershipRow := []
  jobFinalizations : List FinalizationRow := []
  backupLeases : List BackupRow := []
  deriving DecidableEq, Repr

/-! ### Primary keys -/

def BindingRow.key (b : BindingRow) : String × ℕ := (b.workUnitId, b.attempt)

def MembershipRow.key (m : MembershipRow) : String × String := (m.jobId, m.workUnitId)

def Db.job (db : Db) (j : String) : Option JobRow := Lib.Table.get JobRow.jobId db.jobs j

def Db.workUnit (db : Db) (u : String) : Option UnitRow :=
  Lib.Table.get UnitRow.workUnitId db.workUnits u

def Db.result (db : Db) (u : String) : Option ResultRow :=
  Lib.Table.get ResultRow.workUnitId db.unitResults u

/-! ### `_jobstate.py` -/

structure UnitCounts where
  total : ℕ
  pending : ℕ
  leased : ℕ
  done : ℕ
  dead : ℕ
  deriving DecidableEq, Repr

/-- Terminal once no unit can still run; running once any unit has moved off pending. -/
def nextJobState (counts : UnitCounts) : JobState :=
  if counts.total = 0 ∨ (counts.pending = 0 ∧ counts.leased = 0) then .done
  else if counts.done + counts.dead + counts.leased > 0 then .running
  else .pending

/-! ### `_serialization.py` -/

def leaseEstMultiplier : ℚ := 2

/-- Lease duration: the larger of a multiple of the estimate and the configured floor. -/
def leaseWindowS (estDurationS : Option ℚ) (defaultLeaseS : ℚ) : ℚ :=
  max (estDurationS.getD 0 * leaseEstMultiplier) defaultLeaseS

/-- Absolute expiry; `timedelta(seconds=…)` rounds to the microsecond. -/
def leaseExpiry (now : ℤ) (estDurationS : Option ℚ) (defaultLeaseS : ℚ) : ℤ :=
  now + Lib.roundHalfEven (leaseWindowS estDurationS defaultLeaseS * 1000000)

/-- `json.dumps(params, sort_keys=True)`, kept as its item list. -/
def dumpParams (params : List (String × String)) : List (String × String) :=
  params.mergeSort fun a b => decide (a.1 ≤ b.1)

def resultRowParams (result : WorkResult) (agentId : String) (completedAt : ℤ) : ResultRow where
  workUnitId := result.workUnitId
  status := result.status
  resultRef := result.resultRef
  error := result.error
  metricsJson := result.metrics
  agentId := agentId
  completedAt := completedAt

end Fallow.Queue

import Fallow.Lib.Table

/-! Registry schema: the rows of `registry/schema.sql` and the protocol values stored in them.

    Tokens enter as their sha256 hex digest, which is all the store ever sees. Timestamps are
    integers, in microseconds since the epoch. The JSON columns no modelled query looks into
    (`caps_json`, `gpus_json`, `manifest_json`) stay texts; `replicas_json` is kept as the list it
    encodes. -/

namespace Fallow.Registry

inductive AgentState where | idle | active | draining
  deriving DecidableEq, Repr

inductive ReplicaState where | loading | ready | suspended | stopped
  deriving DecidableEq, Repr

inductive EnrollmentMode where | legacy | site
  deriving DecidableEq, Repr

inductive Transport where | direct | siteRelay
  deriving DecidableEq, Repr

/-- The kinds `apply_presence_event` accepts. -/
inductive PresenceKind where | userReturned | userIdle | reclaim
  deriving DecidableEq, Repr

def transportForMode : EnrollmentMode → Transport
  | .site => .siteRelay
  | .legacy => .direct

structure ReplicaStatus where
  modelId : String
  port : ℕ
  state : ReplicaState
  inflight : ℕ := 0
  gpu : Bool := false
  deriving DecidableEq, Repr

/-- The heartbeat fields the registry stores. -/
structure Heartbeat where
  seq : ℕ
  state : AgentState
  userIdleS : ℚ := 0
  memAvailableMb : ℕ := 0
  gpusJson : String := "[]"
  replicas : List ReplicaStatus := []
  servingPaused : Bool := false
  predictedIdleRemainingS : Option ℚ := none
  predictedIdleConfidence : Option ℚ := none
  deriving DecidableEq, Repr

/-! ### Tables -/

structure AgentRow where
  agentId : String
  hostname : String
  host : String
  capsJson : String
  deviceTokenHash : String
  state : AgentState
  lastSeen : ℤ
  userIdleS : ℚ := 0
  memAvailableMb : ℕ := 0
  gpusJson : String := "[]"
  replicas : List ReplicaStatus := []
  servingPaused : Bool := false
  predictedIdleRemainingS : Option ℚ := none
  predictedIdleConfidence : Option ℚ := none
  enrollmentMode : EnrollmentMode := .legacy
  transport : Transport := .direct
  presenceSequence : ℤ := -1
  presenceGeneration : ℕ := 0
  revokedAt : Option ℤ := none
  registeredAt : ℤ
  deriving DecidableEq, Repr

structure TokenRow where
  tokenHash : String
  createdAt : ℤ
  usedAt : Option ℤ := none
  mode : EnrollmentMode := .legacy
  revokedAt : Option ℤ := none
  deriving DecidableEq, Repr

structure ApiKeyRow where
  keyHash : String
  name : String
  modelAllowlist : Option (List String)
  rpmLimit : Option ℕ
  dailyLimit : Option ℕ
  createdAt : ℤ
  revokedAt : Option ℤ := none
  deriving DecidableEq, Repr

structure QuotaRow where
  keyHash : String
  bucketTokens : ℚ
  bucketUpdatedAt : ℤ
  day : String
  dailyCount : ℕ
  snapshottedAt : ℤ
  deriving DecidableEq, Repr

structure ModelRow where
  modelId : String
  manifestJson : String
  blobPath : String
  enabled : Bool
  createdAt : ℤ
  deriving DecidableEq, Repr

structure AssignmentRow where
  modelId : String
  agentId : String
  deriving DecidableEq, Repr

structure Db where
  agents : List AgentRow := []
  enrollmentTokens : List TokenRow := []
  apiKeys : List ApiKeyRow := []
  quotaSnapshots : List QuotaRow := []
  models : List ModelRow := []
  assignments : List AssignmentRow := []
  deriving DecidableEq, Repr

def Db.agent (db : Db) (a : String) : Option AgentRow := Lib.Table.get AgentRow.agentId db.agents a

def Db.token (db : Db) (h : String) : Option TokenRow :=
  Lib.Table.get TokenRow.tokenHash db.enrollmentTokens h

def Db.apiKey (db : Db) (h : String) : Option ApiKeyRow :=
  Lib.Table.get ApiKeyRow.keyHash db.apiKeys h

def AssignmentRow.key (r : AssignmentRow) : String × String := (r.modelId, r.agentId)

end Fallow.Registry

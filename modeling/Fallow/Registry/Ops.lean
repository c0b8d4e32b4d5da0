import Fallow.Lib.Txn
import Fallow.Registry.Sql

/-! The writing coroutines of `SqliteRegistry`, cut at their await points.

    Each is the body of the method of the same name: statements, commits and rollbacks in the source's
    order, `acquire`/`release` where it enters and leaves `_write_lock`. Only `register_agent` rolls
    back; only the four methods marked by `Op.locked` take the lock. -/

namespace Fallow.Registry
open Lib Lib.Txn

/-- What a method returns. -/
inductive Ret where
  | unit
  | bool (b : Bool)
  | generation (n : ℕ)
  | registered (agentId deviceTokenHash : String) (assigned : List String)
  deriving DecidableEq, Repr

abbrev RProg := Prog Db Write Ret

/-- Go on with the row count, or raise with the statement. -/
def orRaise (k : ℕ → RProg) : Option ℕ → RProg
  | none => .raise
  | some n => k n

def protocolVersion : ℕ := 1

def tokenIdChars : ℕ := 12

/-! ### Token issuance -/

def createEnrollmentToken (tokenHash : String) (mode : EnrollmentMode) (now : ℤ) : RProg :=
  .exec (.insertToken tokenHash now mode) (orRaise fun _ => .commit (.ret .unit))

/-- The outstanding tokens an id names, two at most. -/
def tokensNamed (tokenId : String) (db : Db) : List TokenRow :=
  (db.enrollmentTokens.filter fun r =>
    r.tokenHash.toList.take tokenIdChars = tokenId.toList ∧ r.usedAt = none).take 2

/-- `tokenId` is the answer of `normalize_token_id`, `none` when that raises. -/
def revokeEnrollmentToken (tokenId : Option String) (now : ℤ) : RProg :=
  match tokenId with
  | none => .raise
  | some tokenId => .acquire <| .read fun db => match tokensNamed tokenId db with
    | [] => .release (.ret (.bool false))
    | [r] => .exec (.voidToken r.tokenHash now) fun
      | none => .release .raise
      | some n => .commit (.release (.ret (.bool (n > 0))))
    | _ => .release .raise

def revokeAgent (agentId : String) (now : ℤ) : RProg :=
  .acquire <| .exec (.revokeAgent agentId now) fun
    | none => .release .raise
    | some n => .commit (.release (if n ≠ 1 then .raise else .ret .unit))

/-- A limit must be a positive integer when it is given. -/
def quotaLimitValid (limit : Option ℤ) : Bool := limit.all (0 < ·)

def createApiKey (keyHash name : String) (modelAllowlist : Option (List String))
    (rpmLimit dailyLimit : Option ℤ) (now : ℤ) : RProg :=
  if quotaLimitValid rpmLimit && quotaLimitValid dailyLimit then
    .exec (.insertApiKey { keyHash := keyHash, name := name, modelAllowlist := modelAllowlist,
                           rpmLimit := rpmLimit.map Int.toNat, dailyLimit := dailyLimit.map Int.toNat,
                           createdAt := now })
      (orRaise fun _ => .commit (.ret .unit))
  else .raise

/-! ### Registration and heartbeats -/

/-- `agentId` and `deviceTokenHash` are the fresh identifiers the method draws. -/
structure RegisterRequest where
  protocolVersion : ℕ
  enrollmentTokenHash : String
  hostname : String
  host : String
  capsJson : String
  agentId : String
  deviceTokenHash : String
  deriving DecidableEq, Repr

/-- The call inside the `try` that raises, if one does. -/
inductive Fault where | insert | commit
  deriving DecidableEq, Repr

def desiredModels (agentId : String) (db : Db) : List String :=
  ((db.assignments.filter (·.agentId = agentId)).map (·.modelId)).mergeSort fun a b => decide (a ≤ b)

/-- The row of a freshly enrolled agent; an unknown token's mode reads as legacy. -/
def enrolledRow (req : RegisterRequest) (token : Option TokenRow) (usedAt : ℤ) : AgentRow where
  agentId := req.agentId
  hostname := req.hostname
  host := req.host
  capsJson := req.capsJson
  deviceTokenHash := req.deviceTokenHash
  state := .active
  lastSeen := usedAt
  registeredAt := usedAt
  enrollmentMode := (token.map (·.mode)).getD .legacy
  transport := transportForMode ((token.map (·.mode)).getD .legacy)

def registerAgent (req : RegisterRequest) (fault : Option Fault) (usedAt : ℤ) : RProg :=
  if req.protocolVersion ≠ protocolVersion then .raise
  else .acquire <| .read fun db =>
    let token := (db.token req.enrollmentTokenHash).filter (·.usedAt = none)
    .exec (.spendToken req.enrollmentTokenHash usedAt) fun
      | some 1 =>
        if fault = some .insert then .rollback (.release .raise)
        else .exec (.insertAgent (enrolledRow req token usedAt)) fun
          | none => .rollback (.release .raise)
          | some _ =>
            if fault = some .commit then .rollback (.release .raise)
            else .commit <| .release <| .read fun db' =>
              .ret (.registered req.agentId req.deviceTokenHash (desiredModels req.agentId db'))
      | _ => .rollback (.release .raise)

def recordHeartbeat (agentId : String) (hb : Heartbeat) (now : ℤ) : RProg :=
  .exec (.recordHeartbeat agentId hb now)
    (orRaise fun n => .commit (if n ≠ 1 then .raise else .ret .unit))

def setAgentState (agentId : String) (state : AgentState) (now : ℤ) : RProg :=
  .exec (.setAgentState agentId state now)
    (orRaise fun n => .commit (if n ≠ 1 then .raise else .ret .unit))

/-- `SELECT presence_generation`, raising when the row is gone. -/
def selectGeneration (agentId : String) : RProg :=
  .read fun db => match db.agent agentId with
    | none => .raise
    | some r => .ret (.generation r.presenceGeneration)

/-- A stale sequence matches no row and returns the generation as it stands. -/
def applyPresenceEvent (agentId : String) (kind : PresenceKind) (sequence now : ℤ) : RProg :=
  if sequence < 0 then .raise
  else .exec (.presenceEvent agentId kind sequence now)
    (orRaise fun _ => .commit (selectGeneration agentId))

def bumpPresenceGeneration (agentId : String) : RProg :=
  .exec (.bumpGeneration agentId)
    (orRaise fun n => .commit (if n ≠ 1 then .raise else selectGeneration agentId))

/-! ### Catalogue, quotas and assignments -/

def putModel (row : ModelRow) : RProg :=
  .exec (.upsertModel row) (orRaise fun _ => .commit (.ret .unit))

def saveQuotaSnapshots (rows : List QuotaRow) : RProg :=
  .exec (.upsertQuotas rows) (orRaise fun _ => .commit (.ret .unit))

def setAssignments (agentId : String) (modelIds : List String) : RProg :=
  .acquire <| .exec (.deleteAssignments agentId) fun
    | none => .release .raise
    | some _ => .exec (.insertAssignments agentId modelIds) fun
      | none => .release .raise
      | some _ => .commit (.release (.ret .unit))

/-! ### The calls -/

inductive Op where
  | registerAgent (req : RegisterRequest) (fault : Option Fault) (now : ℤ)
  | createEnrollmentToken (tokenHash : String) (mode : EnrollmentMode) (now : ℤ)
  | createApiKey (keyHash name : String) (modelAllowlist : Option (List String))
      (rpmLimit dailyLimit : Option ℤ) (now : ℤ)
  | recordHeartbeat (agentId : String) (hb : Heartbeat) (now : ℤ)
  | setAgentState (agentId : String) (state : AgentState) (now : ℤ)
  | applyPresenceEvent (agentId : String) (kind : PresenceKind) (sequence now : ℤ)
  | bumpPresenceGeneration (agentId : String)
  | putModel (row : ModelRow)
  | saveQuotaSnapshots (rows : List QuotaRow)
  | revokeAgent (agentId : String) (now : ℤ)
  | revokeEnrollmentToken (tokenId : Option String) (now : ℤ)
  | setAssignments (agentId : String) (modelIds : List String)
  deriving DecidableEq, Repr

def Op.body : Op → RProg
  | .registerAgent req fault now => Registry.registerAgent req fault now
  | .createEnrollmentToken h mode now => Registry.createEnrollmentToken h mode now
  | .createApiKey h name allow rpm daily now => Registry.createApiKey h name allow rpm daily now
  | .recordHeartbeat a hb now => Registry.recordHeartbeat a hb now
  | .setAgentState a state now => Registry.setAgentState a state now
  | .applyPresenceEvent a kind sequence now => Registry.applyPresenceEvent a kind sequence now
  | .bumpPresenceGeneration a => Registry.bumpPresenceGeneration a
  | .putModel row => Registry.putModel row
  | .saveQuotaSnapshots rows => Registry.saveQuotaSnapshots rows
  | .revokeAgent a now => Registry.revokeAgent a now
  | .revokeEnrollmentToken id now => Registry.revokeEnrollmentToken id now
  | .setAssignments a ms => Registry.setAssignments a ms

/-- The calls that hold `_write_lock` around their transaction. -/
def Op.locked : Op → Bool
  | .registerAgent .. | .revokeAgent .. | .revokeEnrollmentToken .. | .setAssignments .. => true
  | _ => false

end Fallow.Registry

import Fallow.Queue.Schema

/-! The statements of `queue/_sql.py`, one definition each, as functions of the database.

    A write returns the new database; a statement that can violate a primary key returns `Except`.
    `WHERE` clauses are Boolean tests on the row, `NULL = x` is false, and `x IS y` is equality of
    options. An `IN` list carries one bound variable per element; the callers check the limit. -/

namespace Fallow.Queue
open Lib

/-- What a statement can raise. -/
inductive SqlError where
  | tooManyVariables
  | uniqueConstraint (table : String)
  | foreignKey (table : String)
  deriving DecidableEq, Repr

namespace Sql

/-! ### Submission -/

def insertJob (row : JobRow) (db : Db) : Except SqlError Db :=
  if (db.job row.jobId).isSome then .error (.uniqueConstraint "jobs")
  else .ok { db with jobs := db.jobs ++ [row] }

/-- A re-submitted unit is reattached to the new job and its bookkeeping is reset. -/
def upsertWorkUnit (row : UnitRow) (db : Db) : Db :=
  { db with workUnits := Table.upsert UnitRow.workUnitId row (fun _ => row) db.workUnits }

def deleteIncompleteResultBindings (u : String) (db : Db) : Db :=
  { db with resultPayloadBindings := db.resultPayloadBindings.filter (·.workUnitId ≠ u) }

def deleteStaleResult (u : String) (db : Db) : Db :=
  { db with unitResults := db.unitResults.filter (·.workUnitId ≠ u) }

/-- Is there a binding of the same unit, agent and reference as this result row? -/
def hasBinding (db : Db) (r : ResultRow) : Bool :=
  db.resultPayloadBindings.any fun b =>
    b.workUnitId = r.workUnitId ∧ b.agentId = r.agentId ∧ some b.resultRef = r.resultRef

/-- The succeeded, bound results of the listed units, as the dict `unit id ↦ reference`. -/
def selectSucceededResults (ids : List String) (db : Db) : List (String × String) :=
  (db.unitResults.filter fun r => r.status = .succeeded ∧ r.workUnitId ∈ ids ∧ hasBinding db r)
    |>.filterMap fun r => r.resultRef.map (r.workUnitId, ·)

/-- The outcome columns recorded for the job that owns `w`: status and reference of a done unit. -/
def terminalOutcome (db : Db) (w : UnitRow) : Option WorkResultStatus × Option String :=
  let r := db.result w.workUnitId
  let status := if w.state = .done then r.map (·.status) else none
  let ref := match r with
    | some r => if w.state = .done ∧ r.status = .succeeded ∧ hasBinding db r then r.resultRef else none
    | none => none
  (status, ref)

def ownerMembership (db : Db) (w : UnitRow) (terminal : Option WorkUnitState) : MembershipRow where
  jobId := w.jobId
  workUnitId := w.workUnitId
  idx := w.idx
  inputRef := w.inputRef
  terminalState := terminal
  resultStatus := (terminalOutcome db w).1
  resultRef := (terminalOutcome db w).2

/-- Done and dead are terminal. -/
def isTerminal (s : WorkUnitState) : Bool := s = .done ∨ s = .dead

def backfillJobUnitMemberships (db : Db) : Db :=
  let row w := ownerMembership db w (if isTerminal w.state then some w.state else none)
  { db with
    jobUnitMemberships :=
      db.workUnits.foldl (fun ms w => Table.insertIgnore MembershipRow.key (row w) ms)
        db.jobUnitMemberships }

/-- The conflict clause of the snapshot: only a row without an outcome takes the new one. -/
def recordOutcome (row m : MembershipRow) : MembershipRow :=
  if m.terminalState = none then
    { m with terminalState := row.terminalState, resultStatus := row.resultStatus,
             resultRef := row.resultRef }
  else m

/-- Before a terminal unit changes hands, its outcome is recorded with the job that owned it. -/
def snapshotTerminalOwner (u : String) (db : Db) : Db :=
  match db.workUnit u with
  | some w =>
    if isTerminal w.state then
      let row := ownerMembership db w (some w.state)
      { db with
        jobUnitMemberships :=
          Table.upsert MembershipRow.key row (recordOutcome row) db.jobUnitMemberships }
    else db
  | none => db

def insertJobUnitMembership (row : MembershipRow) (db : Db) : Except SqlError Db :=
  if (Table.get MembershipRow.key db.jobUnitMemberships row.key).isSome then
    .error (.uniqueConstraint "job_unit_memberships")
  else .ok { db with jobUnitMemberships := db.jobUnitMemberships ++ [row] }

/-- The jobs owning an unfinished unit among `ids`, without repetition. -/
def selectActiveJobsForUnits (ids : List String) (db : Db) : List JobRow :=
  ((db.workUnits.filter fun w => w.workUnitId ∈ ids ∧ (w.state = .pending ∨ w.state = .leased))
    |>.filterMap fun w => db.job w.jobId).dedup

/-! ### Leasing -/

/-- `ORDER BY priority DESC, created_at ASC, idx ASC`: does `a` come no later than `b`? -/
def candidateLe (a b : UnitRow × JobRow) : Bool :=
  b.2.priority < a.2.priority ∨ (b.2.priority = a.2.priority ∧
    (a.1.createdAt < b.1.createdAt ∨ (a.1.createdAt = b.1.createdAt ∧ a.1.idx ≤ b.1.idx)))

def joinJob (db : Db) (w : UnitRow) : Option (UnitRow × JobRow) :=
  (db.job w.jobId).map (w, ·)

/-- SQL leaves the order of equal keys open: `tie` picks among the first ones. -/
def selectLeaseCandidate (modelIds : List String) (tie : ℕ) (db : Db) : Option (UnitRow × JobRow) :=
  let rows := (db.workUnits.filter (·.state = .pending)).filterMap (joinJob db)
    |>.filter (·.2.modelId ∈ modelIds)
  let first := rows.filter fun a => rows.all (candidateLe a)
  first[tie % first.length]?

def claimUnit (agentId : String) (leaseExpires : ℤ) (u : String) (db : Db) : Db :=
  { db with
    workUnits := Table.update (fun w => w.workUnitId = u ∧ w.state = .pending)
      (fun w => { w with state := .leased, attempts := w.attempts + 1,
                         leaseAgent := some agentId, leaseExpires := some leaseExpires })
      db.workUnits }

/-- `RETURNING attempts`: `none` when no pending row of that id is left. -/
def claimedAttempts (u : String) (db : Db) : Option ℕ :=
  ((db.workUnit u).filter (·.state = .pending)).map (·.attempts + 1)

def extendLeases (leaseExpires : ℤ) (agentId : String) (ids : List String) (db : Db) : Db :=
  { db with
    workUnits :=
      Table.update (fun w => w.state = .leased ∧ w.leaseAgent = some agentId ∧ w.workUnitId ∈ ids)
        (fun w => { w with leaseExpires := some leaseExpires }) db.workUnits }

/-! ### Results and their payload bindings -/

def selectResultUploadAttempt (agentId u : String) (db : Db) : Option ℕ :=
  ((db.workUnit u).filter fun w => w.state = .leased ∧ w.leaseAgent = some agentId).map (·.attempts)

/-- Insert unless the `(unit, attempt)` slot is taken; `true` when a row was returned. -/
def insertBinding (row : BindingRow) (db : Db) : Db × Bool :=
  if (Table.get BindingRow.key db.resultPayloadBindings row.key).isSome then (db, false)
  else ({ db with resultPayloadBindings := db.resultPayloadBindings ++ [row] }, true)

/-- Does `agentId` hold the primary lease of the unit at this attempt? -/
def holdsPrimary (db : Db) (agentId u : String) (attempt : ℕ) : Bool :=
  (db.workUnit u).any fun w =>
    w.state = .leased ∧ w.leaseAgent = some agentId ∧ w.attempts = attempt

/-- `SELECT_BACKUP_LEASE_HOLDER`. -/
def selectBackupLeaseHolder (u agentId : String) (attempt : ℕ) (db : Db) : Bool :=
  db.backupLeases.any fun b => b.workUnitId = u ∧ b.agentId = agentId ∧ b.attempt = attempt

/-- `SELECT_RESULT_EXISTS`. -/
def selectResultExists (u : String) (db : Db) : Bool := (db.result u).isSome

def bindResultPayload (row : BindingRow) (db : Db) : Db × Bool :=
  if holdsPrimary db row.agentId row.workUnitId row.attempt then insertBinding row db
  else (db, false)

/-- A stored binding equal to `row` in every column but the time. -/
def hasEqualBinding (db : Db) (row : BindingRow) : Bool :=
  db.resultPayloadBindings.any fun b =>
    b.workUnitId = row.workUnitId ∧ b.agentId = row.agentId ∧ b.attempt = row.attempt ∧
      b.digest = row.digest ∧ b.resultRef = row.resultRef

def selectMatchingResultBinding (row : BindingRow) (db : Db) : Bool :=
  hasEqualBinding db row && holdsPrimary db row.agentId row.workUnitId row.attempt

def bindResultPayloadBackup (row : BindingRow) (db : Db) : Db × Bool :=
  if selectBackupLeaseHolder row.workUnitId row.agentId row.attempt db
      ∧ selectResultExists row.workUnitId db = false then insertBinding row db
  else (db, false)

def selectMatchingBackupBinding (row : BindingRow) (db : Db) : Bool :=
  hasEqualBinding db row && selectBackupLeaseHolder row.workUnitId row.agentId row.attempt db

/-- `result_ref` is bound from an optional value: `NULL` matches no row. -/
def selectResultBindingForCompletion (u agentId : String) (attempt : ℕ) (ref : Option String)
    (db : Db) : Bool :=
  db.resultPayloadBindings.any fun b =>
    b.workUnitId = u ∧ b.agentId = agentId ∧ b.attempt = attempt ∧ some b.resultRef = ref

def selectBackupBindingForCompletion (u agentId : String) (attempt : ℕ) (ref : Option String)
    (db : Db) : Bool :=
  selectResultBindingForCompletion u agentId attempt ref db
    && selectBackupLeaseHolder u agentId attempt db

def selectCompletedResultRef (u : String) (db : Db) : Option String :=
  match db.result u with
  | some r => if r.status = .succeeded ∧ hasBinding db r then r.resultRef else none
  | none => none

def selectMatchingCompletion (row : ResultRow) (attempt : ℕ) (db : Db) : Bool :=
  (db.result row.workUnitId).any (fun r =>
    r.status = row.status ∧ r.resultRef = row.resultRef ∧ r.error = row.error ∧
      r.metricsJson = row.metricsJson ∧ r.agentId = row.agentId)
  && (db.workUnit row.workUnitId).any (fun w =>
    w.leaseAgent = some row.agentId ∧ w.attempts = attempt)

def insertResult (row : ResultRow) (db : Db) : Db :=
  { db with unitResults := Table.insertIgnore ResultRow.workUnitId row db.unitResults }

def markUnitDone (u : String) (db : Db) : Db :=
  { db with
    workUnits := Table.update (·.workUnitId = u) (fun w => { w with state := .done })
      db.workUnits }

def markJobUnitTerminal (j u : String) (terminal : WorkUnitState)
    (status : Option WorkResultStatus) (ref : Option String) (db : Db) : Db :=
  { db with
    jobUnitMemberships := Table.update (fun m => m.jobId = j ∧ m.workUnitId = u)
      (fun m => { m with terminalState := some terminal, resultStatus := status, resultRef := ref })
      db.jobUnitMemberships }

/-! ### Requeue -/

def selectorExpired (now : ℤ) (w : UnitRow) : Bool :=
  w.state = .leased ∧ w.leaseExpires.any (· < now)

def selectorByAgent (agentId : String) (w : UnitRow) : Bool :=
  w.state = .leased ∧ w.leaseAgent = some agentId

/-- One requeue branch: move the selected rows to `target` and return them as they were. -/
def requeueTo (target : WorkUnitState) (sel : UnitRow → Bool) (db : Db) : Db × List UnitRow :=
  ({ db with workUnits := Table.update sel (fun w => { w with state := target }) db.workUnits },
   db.workUnits.filter sel)

def requeueToPending (selector : UnitRow → Bool) (maxAttempts : ℕ) (db : Db) : Db × List UnitRow :=
  requeueTo .pending (fun w => selector w ∧ w.attempts < maxAttempts) db

def requeueToDead (selector : UnitRow → Bool) (maxAttempts : ℕ) (db : Db) : Db × List UnitRow :=
  requeueTo .dead (fun w => selector w ∧ w.attempts ≥ maxAttempts) db

/-! ### Job views -/

/-- `COALESCE(m.terminal_state, u.state)` over the unit row still owned by the member's job. -/
def resolvedState (db : Db) (m : MembershipRow) : Option WorkUnitState :=
  m.terminalState.or (((db.workUnit m.workUnitId).filter (·.jobId = m.jobId)).map (·.state))

def jobMembers (db : Db) (j : String) : List MembershipRow :=
  db.jobUnitMemberships.filter (·.jobId = j)

/-- `SUM(x = c)` skips the rows where `x` is `NULL`; `COUNT(*)` does not. -/
def countJobUnits (j : String) (db : Db) : UnitCounts :=
  let states := (jobMembers db j).map (resolvedState db)
  { total := states.length
    pending := states.count (some .pending)
    leased := states.count (some .leased)
    done := states.count (some .done)
    dead := states.count (some .dead) }

def setJobState (state : JobState) (j : String) (db : Db) : Db :=
  { db with jobs := Table.update (·.jobId = j) (fun r => { r with state := state }) db.jobs }

/-- `ORDER BY m.idx, m.work_unit_id`. -/
def memberLe (a b : MembershipRow) : Bool :=
  a.idx < b.idx ∨ (a.idx = b.idx ∧ a.workUnitId ≤ b.workUnitId)

/-- Rows of the outcome view, each with its resolved state (`none` is SQL `NULL`). -/
def selectJobUnitOutcomes (j : String) (db : Db) : List (MembershipRow × Option WorkUnitState) :=
  ((jobMembers db j).mergeSort memberLe).map fun m => (m, resolvedState db m)

def insertJobFinalization (row : FinalizationRow) (db : Db) : Except SqlError Db :=
  if (db.job row.jobId).isNone then .error (.foreignKey "job_finalizations")
  else .ok { db with
    jobFinalizations := Table.insertIgnore FinalizationRow.jobId row db.jobFinalizations }

def selectJobFinalization (j : String) (db : Db) : Option ℕ :=
  (Table.get FinalizationRow.jobId db.jobFinalizations j).map (·.indexedItems)

/-! ### Speculative backup -/

/-- A unit is a backup target only while another agent holds it. -/
def selectBackupLeaseTarget (u agentId : String) (db : Db) : Option (UnitRow × JobRow) :=
  ((db.workUnit u).filter fun w =>
    w.state = .leased ∧ w.leaseAgent.any (· ≠ agentId)).bind (joinJob db)

/-- One backup per unit: `false` when the slot is taken. -/
def insertBackupLease (row : BackupRow) (db : Db) : Db × Bool :=
  if (Table.get BackupRow.workUnitId db.backupLeases row.workUnitId).isSome then (db, false)
  else ({ db with backupLeases := db.backupLeases ++ [row] }, true)

def deleteBackupLease (u : String) (db : Db) : Db :=
  { db with backupLeases := db.backupLeases.filter (·.workUnitId ≠ u) }

def hasBackupLease (db : Db) (u : String) : Bool := db.backupLeases.any (·.workUnitId = u)

/-- The owning job's unfinished units, counted as `COUNT_JOB_UNITS` resolves them. -/
def remainingUnits (db : Db) (j : String) : ℕ :=
  ((jobMembers db j).map (resolvedState db)).countP fun s => s = some .pending ∨ s = some .leased

def selectBackupCandidates (modelIds : List String) (agentId : String) (tailMaxRemaining : ℕ)
    (db : Db) : List (UnitRow × JobRow) :=
  ((db.workUnits.filter (·.state = .leased)).filterMap (joinJob db)
    |>.filter fun p => p.2.modelId ∈ modelIds ∧ p.1.leaseAgent.any (· ≠ agentId)
        ∧ hasBackupLease db p.1.workUnitId = false ∧ selectResultExists p.1.workUnitId db = false
        ∧ remainingUnits db p.1.jobId ≤ tailMaxRemaining)
    |>.mergeSort fun a b => decide (a.1.workUnitId ≤ b.1.workUnitId)

/-- The backup holder's attempt, only while the unit has no result. -/
def selectBackupUploadAttempt (agentId u : String) (db : Db) : Option ℕ :=
  if selectResultExists u db then none
  else (db.backupLeases.find? fun b => b.workUnitId = u ∧ b.agentId = agentId).map (·.attempt)

end Sql
end Fallow.Queue

import Fallow.Lib.Run
import Fallow.Queue.Sql

/-! `SqliteQueueStore`: the operations of `queue/store.py` over one connection.

    Every mutator runs under the store's lock, so operations are sequential and each is one function
    of the store. The connection carries one implicit transaction: `working` is what statements read
    and write, `committed` what a restart finds. Nothing rolls back, so a call that raises halfway
    leaves its statements in `working`, and the next `commit` publishes them.

        submit_job      SELECT (reuse) ─▶ INSERT job ─▶ SELECT results ─▶ units … ─▶ recount ─▶ COMMIT
                           │ raises          │ raises        │ raises
                           ▼                 ▼               ▼
                        unchanged        unchanged     job row stays uncommitted -/

namespace Fallow.Queue
open Lib

/-- Constructor arguments, with the bounds the constructor enforces. -/
structure Config where
  maxAttempts : ℕ
  maxAttempts_pos : 1 ≤ maxAttempts
  defaultLeaseS : ℚ
  defaultLeaseS_pos : 0 < defaultLeaseS
  /-- SQLite's limit on the variables bound by one statement. -/
  maxVariables : ℕ

/-- The constructor's defaults, with SQLite's default variable limit. -/
def defaultConfig : Config where
  maxAttempts := 4
  maxAttempts_pos := by decide
  defaultLeaseS := 120
  defaultLeaseS_pos := by norm_num
  maxVariables := 32766

/-- The shared connection: uncommitted view and last commit. -/
structure Store where
  working : Db := {}
  committed : Db := {}
  deriving DecidableEq

def Store.commit (_ : Store) (db : Db) : Store := ⟨db, db⟩

inductive QueueError where
  | sql (e : SqlError)
  | activeWorkUnitConflict
  | invalidArgument
  deriving DecidableEq, Repr

/-! ### Statement sequences -/

abbrev Stmt := Db → Except SqlError Db

/-- Run statements until one raises; what ran before it stays written. -/
def execAll : List Stmt → Db → Db × Option SqlError
  | [], db => (db, none)
  | s :: ss, db => match s db with
    | .ok db' => execAll ss db'
    | .error e => (db, some e)

def recomputeJobState (j : String) (db : Db) : Db :=
  Sql.setJobState (nextJobState (Sql.countJobUnits j db)) j db

/-! ### Submission -/

/-- The first unit of each id, in order. -/
def uniqueUnits : List WorkUnitSpec → List WorkUnitSpec → List WorkUnitSpec
  | acc, [] => acc
  | acc, u :: us =>
    if u.workUnitId ∈ acc.map (·.workUnitId) then uniqueUnits acc us else uniqueUnits (acc ++ [u]) us

def sameSubmission (job : JobSubmit) (paramsJson : List (String × String)) (row : JobRow) : Bool :=
  row.kind = job.kind ∧ row.modelId = job.modelId ∧ row.payloadRef = job.payloadRef ∧
    row.paramsJson = paramsJson ∧ row.priority = job.priority

def matchingActiveJob (cfg : Config) (job : JobSubmit) (units : List WorkUnitSpec)
    (paramsJson : List (String × String)) (db : Db) : Except QueueError (Option String) :=
  if units = [] then .ok none
  else if cfg.maxVariables < units.length then .error (.sql .tooManyVariables)
  else
    let rows := Sql.selectActiveJobsForUnits (units.map (·.workUnitId)) db
    if rows = [] then .ok none
    else match rows, rows.filter (sameSubmission job paramsJson) with
      | [_], [m] => .ok (some m.jobId)
      | _, _ => .error .activeWorkUnitConflict

def succeededUnitResults (cfg : Config) (ids : List String) (db : Db) :
    Except QueueError (List (String × String)) :=
  if ids = [] then .ok []
  else if cfg.maxVariables < ids.length then .error (.sql .tooManyVariables)
  else .ok (Sql.selectSucceededResults ids db)

/-- The unit row a submission writes: attempts and lease reset, done only when deduplicated. -/
def submittedUnit (jobId : String) (now : ℤ) (isDone : Bool) (u : WorkUnitSpec) : UnitRow where
  workUnitId := u.workUnitId
  jobId := jobId
  idx := u.idx
  inputRef := u.inputRef
  estDurationS := u.estDurationS
  state := if isDone then .done else .pending
  attempts := 0
  leaseAgent := none
  leaseExpires := none
  createdAt := now

def submittedMembership (jobId : String) (deduped : Option String) (u : WorkUnitSpec) :
    MembershipRow where
  jobId := jobId
  workUnitId := u.workUnitId
  idx := u.idx
  inputRef := u.inputRef
  terminalState := if deduped.isSome then some .done else none
  resultStatus := if deduped.isSome then some .succeeded else none
  resultRef := deduped

/-- A unit without a reusable result starts afresh: old bindings, result and backup lease go. -/
def resetUnit (u : String) (db : Db) : Db :=
  Sql.deleteBackupLease u (Sql.deleteStaleResult u (Sql.deleteIncompleteResultBindings u db))

/-- The loop body of `submit_job`, statement by statement. -/
def submitUnitStmts (jobId : String) (now : ℤ) (deduped : List (String × String))
    (u : WorkUnitSpec) : List Stmt :=
  let ref := deduped.lookup u.workUnitId
  [fun db => .ok (Sql.snapshotTerminalOwner u.workUnitId db)]
  ++ (if ref.isSome then []
      else [fun db => .ok (Sql.deleteIncompleteResultBindings u.workUnitId db),
            fun db => .ok (Sql.deleteStaleResult u.workUnitId db),
            fun db => .ok (Sql.deleteBackupLease u.workUnitId db)])
  ++ [fun db => .ok (Sql.upsertWorkUnit (submittedUnit jobId now ref.isSome u) db),
      Sql.insertJobUnitMembership (submittedMembership jobId ref u)]

def submittedJob (jobId : String) (job : JobSubmit) (now : ℤ) : JobRow where
  jobId := jobId
  kind := job.kind
  modelId := job.modelId
  payloadRef := job.payloadRef
  paramsJson := dumpParams job.params
  priority := job.priority
  state := .pending
  createdAt := now

/-- `jobId` is the fresh `uuid4().hex`; a collision raises on the primary key. -/
def submitJob (cfg : Config) (s : Store) (jobId : String) (job : JobSubmit)
    (specs : List WorkUnitSpec) (reuseActive : Bool) (now : ℤ) : Store × Except QueueError String :=
  let units := uniqueUnits [] specs
  match (if reuseActive then matchingActiveJob cfg job units (dumpParams job.params) s.working
         else .ok none) with
  | .error e => (s, .error e)
  | .ok (some active) => (s, .ok active)
  | .ok none =>
    match Sql.insertJob (submittedJob jobId job now) s.working with
    | .error e => (s, .error (.sql e))
    | .ok db₁ =>
      -- from here on a raise leaves the job row in the open transaction
      match succeededUnitResults cfg (units.map (·.workUnitId)) db₁ with
      | .error e => ({ s with working := db₁ }, .error e)
      | .ok deduped =>
        match execAll (units.flatMap (submitUnitStmts jobId now deduped)) db₁ with
        | (db₂, some e) => ({ s with working := db₂ }, .error (.sql e))
        | (db₂, none) => (s.commit (recomputeJobState jobId db₂), .ok jobId)

/-! ### Leasing -/

def leaseNext (cfg : Config) (s : Store) (agentId : String) (modelIds : List String) (now : ℤ)
    (tie : ℕ) : Store × Except QueueError (Option (WorkUnitLease × UnitTransition)) :=
  if modelIds = [] then (s, .ok none)
  else if cfg.maxVariables < modelIds.length then (s, .error (.sql .tooManyVariables))
  else match Sql.selectLeaseCandidate modelIds tie s.working with
    | none => (s, .ok none)
    | some (w, j) =>
      let expiry := leaseExpiry now w.estDurationS cfg.defaultLeaseS
      match Sql.claimedAttempts w.workUnitId s.working with
      | none => (s, .ok none)
      | some attempts =>
        let db₁ := Sql.claimUnit agentId expiry w.workUnitId s.working
        (s.commit (recomputeJobState w.jobId db₁),
         .ok (some ({ workUnitId := w.workUnitId, jobId := w.jobId, kind := j.kind,
                      modelId := j.modelId, inputUrl := w.inputRef, leaseExpires := expiry,
                      attempt := attempts, estDurationS := w.estDurationS },
                    { workUnitId := w.workUnitId, jobId := w.jobId, agentId := agentId,
                      attempt := attempts, state := .leased, at_ := now })))

def extendLeases (cfg : Config) (s : Store) (agentId : String) (unitIds : List String) (now : ℤ) :
    Store × Except QueueError Unit :=
  if unitIds = [] then (s, .ok ())
  else if cfg.maxVariables < unitIds.length + 2 then (s, .error (.sql .tooManyVariables))
  else (s.commit (Sql.extendLeases (leaseExpiry now none cfg.defaultLeaseS) agentId unitIds s.working),
        .ok ())

/-! ### Speculative backup dispatch -/

/-- One past the retry budget, so a backup's binding never collides with a primary one. -/
def Config.backupAttempt (cfg : Config) : ℕ := cfg.maxAttempts + 1

structure BackupCandidate where
  workUnitId : String
  jobId : String
  modelId : String
  holderAgentId : String
  estDurationS : Option ℚ
  deriving DecidableEq, Repr

def backupCandidates (cfg : Config) (s : Store) (agentId : String) (modelIds : List String)
    (tailMaxRemaining : ℕ) : Except QueueError (List BackupCandidate) :=
  if modelIds = [] then .ok []
  else if cfg.maxVariables < modelIds.length + 2 then .error (.sql .tooManyVariables)
  else .ok ((Sql.selectBackupCandidates modelIds agentId tailMaxRemaining s.working).map fun p =>
    { workUnitId := p.1.workUnitId, jobId := p.1.jobId, modelId := p.2.modelId,
      holderAgentId := p.1.leaseAgent.getD "None", estDurationS := p.1.estDurationS })

def leaseBackup (cfg : Config) (s : Store) (agentId workUnitId : String) (now : ℤ) :
    Store × Option WorkUnitLease :=
  match Sql.selectBackupLeaseTarget workUnitId agentId s.working with
  | none => (s, none)
  | some (w, j) =>
    let expiry := leaseExpiry now w.estDurationS cfg.defaultLeaseS
    let row : BackupRow :=
      { workUnitId := workUnitId, jobId := w.jobId, agentId := agentId,
        attempt := cfg.backupAttempt, leaseExpires := expiry, createdAt := now }
    match Sql.insertBackupLease row s.working with
    | (_, false) => (s, none)
    | (db₁, true) =>
      (s.commit db₁,
       some { workUnitId := workUnitId, jobId := w.jobId, kind := j.kind, modelId := j.modelId,
              inputUrl := w.inputRef, leaseExpires := expiry, attempt := cfg.backupAttempt,
              estDurationS := w.estDurationS })

/-! ### Completion -/

def resultUploadAttempt (s : Store) (agentId workUnitId : String) : Option ℕ :=
  (Sql.selectResultUploadAttempt agentId workUnitId s.working).or
    (Sql.selectBackupUploadAttempt agentId workUnitId s.working)

/-- Try the primary lane, then an equal primary binding, then the backup lane, then its equal. -/
def bindResultPayload (s : Store) (agentId workUnitId : String) (attempt : ℕ)
    (digest resultRef : String) (now : ℤ) : Store × Bool :=
  let row : BindingRow :=
    { workUnitId := workUnitId, agentId := agentId, attempt := attempt, digest := digest,
      resultRef := resultRef, acceptedAt := now }
  let (db₁, accepted₁) := Sql.bindResultPayload row s.working
  if accepted₁ then (s.commit db₁, true)
  else if Sql.selectMatchingResultBinding row db₁ then (s.commit db₁, true)
  else
    let (db₂, accepted₂) := Sql.bindResultPayloadBackup row db₁
    (s.commit db₂, accepted₂ || Sql.selectMatchingBackupBinding row db₂)

/-- Accept completion only from the current lease attempt and holder. -/
def completionAccepted (agentId : String) (attempt : ℕ) (unit : UnitRow) : Bool :=
  unit.state = .leased ∧ unit.leaseAgent = some agentId ∧ unit.attempts = attempt

/-- A backup may finalize a leased unit, or one requeued to pending; a dead unit stays dead. -/
def backupRole (agentId : String) (attempt : ℕ) (unit : UnitRow) (db : Db) : Bool :=
  (unit.state = .leased ∨ unit.state = .pending)
    && Sql.selectBackupLeaseHolder unit.workUnitId agentId attempt db

/-- A success needs its payload bound in the lane the completion comes through. -/
def payloadBound (isPrimary : Bool) (agentId : String) (attempt : ℕ) (result : WorkResult)
    (db : Db) : Bool :=
  match result.status with
  | .failed => true
  | .succeeded =>
    if isPrimary then
      Sql.selectResultBindingForCompletion result.workUnitId agentId attempt result.resultRef db
    else Sql.selectBackupBindingForCompletion result.workUnitId agentId attempt result.resultRef db

/-- The writes of an accepted completion. -/
def finalizeUnit (agentId : String) (now : ℤ) (unit : UnitRow) (result : WorkResult) (db : Db) : Db :=
  let ref := match result.status with
    | .succeeded => result.resultRef
    | .failed => none
  recomputeJobState unit.jobId
    (Sql.markJobUnitTerminal unit.jobId result.workUnitId .done (some result.status) ref
      (Sql.markUnitDone result.workUnitId
        (Sql.insertResult (resultRowParams result agentId now) db)))

def completeUnit (s : Store) (agentId : String) (attempt : ℕ) (result : WorkResult) (now : ℤ) :
    Store × Bool × List UnitTransition :=
  match s.working.workUnit result.workUnitId with
  | none => (s, false, [])
  | some unit =>
    if Sql.selectResultExists result.workUnitId s.working then
      let row := resultRowParams result agentId now
      (s, Sql.selectMatchingCompletion row attempt s.working
            || Sql.selectBackupLeaseHolder result.workUnitId agentId attempt s.working, [])
    else
      let isPrimary := completionAccepted agentId attempt unit
      if (isPrimary || backupRole agentId attempt unit s.working)
          && payloadBound isPrimary agentId attempt result s.working then
        (s.commit (finalizeUnit agentId now unit result s.working), true,
         [{ workUnitId := result.workUnitId, jobId := unit.jobId, agentId := agentId,
            attempt := unit.attempts, state := .done, at_ := now }])
      else (s, false, [])

def completedResultRef (s : Store) (workUnitId : String) : Option String :=
  Sql.selectCompletedResultRef workUnitId s.working

/-! ### Requeue -/

def requeueTransition (state : WorkUnitState) (now : ℤ) (w : UnitRow) : UnitTransition where
  workUnitId := w.workUnitId
  jobId := w.jobId
  agentId := w.leaseAgent.getD "None"
  attempt := w.attempts
  state := state
  at_ := now

def markDead (db : Db) (w : UnitRow) : Db :=
  Sql.markJobUnitTerminal w.jobId w.workUnitId .dead none none db

def requeue (cfg : Config) (selector : UnitRow → Bool) (now : ℤ) (db : Db) :
    Db × List UnitTransition :=
  let (db₁, pending) := Sql.requeueToPending selector cfg.maxAttempts db
  let (db₂, dead) := Sql.requeueToDead selector cfg.maxAttempts db₁
  let transitions := (pending.map (requeueTransition .pending now)
    ++ dead.map (requeueTransition .dead now)).mergeSort
      fun a b => decide (a.workUnitId ≤ b.workUnitId)
  let db₃ := dead.foldl markDead db₂
  ((transitions.map (·.jobId)).dedup.foldl (fun db j => recomputeJobState j db) db₃, transitions)

def requeueExpired (cfg : Config) (s : Store) (now : ℤ) : Store × List UnitTransition :=
  let (db, transitions) := requeue cfg (Sql.selectorExpired now) now s.working
  (s.commit db, transitions)

def requeueAgent (cfg : Config) (s : Store) (agentId : String) (now : ℤ) :
    Store × List UnitTransition :=
  let (db, transitions) := requeue cfg (Sql.selectorByAgent agentId) now s.working
  (s.commit db, transitions)

/-! ### Status -/

structure JobStatus where
  jobId : String
  state : JobState
  totalUnits : ℕ
  doneUnits : ℕ
  deadUnits : ℕ
  deriving DecidableEq, Repr

def jobStatus (s : Store) (j : String) : Option JobStatus :=
  (s.working.job j).map fun row =>
    let counts := Sql.countJobUnits j s.working
    { jobId := j, state := row.state, totalUnits := counts.total, doneUnits := counts.done,
      deadUnits := counts.dead }

structure JobUnitOutcome where
  workUnitId : String
  idx : ℕ
  inputRef : String
  state : WorkUnitState
  resultStatus : Option WorkResultStatus
  resultRef : Option String
  deriving DecidableEq, Repr

structure JobDetails where
  modelId : String
  params : List (String × String)
  units : List JobUnitOutcome
  deriving DecidableEq, Repr

/-- `WorkUnitState(str(row["state"]))`: a `NULL` state decodes to no enum value. -/
def decodeOutcome : MembershipRow × Option WorkUnitState → Except String JobUnitOutcome
  | (_, none) => .error "'None' is not a valid WorkUnitState"
  | (m, some state) => .ok
      { workUnitId := m.workUnitId, idx := m.idx, inputRef := m.inputRef, state := state,
        resultStatus := m.resultStatus, resultRef := m.resultRef }

def jobDetails (s : Store) (j : String) : Except String (Option JobDetails) :=
  match s.working.job j with
  | none => .ok none
  | some row =>
    ((Sql.selectJobUnitOutcomes j s.working).mapM decodeOutcome).map fun units =>
      some { modelId := row.modelId, params := row.paramsJson, units := units }

def jobFinalization (s : Store) (j : String) : Option ℕ := Sql.selectJobFinalization j s.working

def markJobFinalized (s : Store) (j : String) (indexedItems : ℤ) :
    Store × Except QueueError (Option ℕ) :=
  if indexedItems < 0 then (s, .error .invalidArgument)
  else match Sql.insertJobFinalization ⟨j, indexedItems.toNat⟩ s.working with
    | .error e => (s, .error (.sql e))
    | .ok db => (s.commit db, .ok (Sql.selectJobFinalization j db))

/-- A crash or `close`, then `init` on the same file: the open transaction is gone. -/
def reopen (s : Store) : Store := s.commit (Sql.backfillJobUnitMemberships s.committed)

/-! ### Runs -/

/-- The mutating calls, with the clock reading each takes. -/
inductive Op where
  | submitJob (jobId : String) (job : JobSubmit) (specs : List WorkUnitSpec) (reuseActive : Bool)
      (now : ℤ)
  | leaseNext (agentId : String) (modelIds : List String) (now : ℤ) (tie : ℕ)
  | extendLeases (agentId : String) (unitIds : List String) (now : ℤ)
  | leaseBackup (agentId workUnitId : String) (now : ℤ)
  | bindResultPayload (agentId workUnitId : String) (attempt : ℕ) (digest resultRef : String)
      (now : ℤ)
  | completeUnit (agentId : String) (attempt : ℕ) (result : WorkResult) (now : ℤ)
  | requeueExpired (now : ℤ)
  | requeueAgent (agentId : String) (now : ℤ)
  | markJobFinalized (jobId : String) (indexedItems : ℤ)
  | reopen

def step (cfg : Config) (s : Store) : Op → Store
  | .submitJob jobId job specs reuseActive now => (submitJob cfg s jobId job specs reuseActive now).1
  | .leaseNext agentId modelIds now tie => (leaseNext cfg s agentId modelIds now tie).1
  | .extendLeases agentId unitIds now => (extendLeases cfg s agentId unitIds now).1
  | .leaseBackup agentId workUnitId now => (leaseBackup cfg s agentId workUnitId now).1
  | .bindResultPayload agentId workUnitId attempt digest resultRef now =>
    (bindResultPayload s agentId workUnitId attempt digest resultRef now).1
  | .completeUnit agentId attempt result now => (completeUnit s agentId attempt result now).1
  | .requeueExpired now => (requeueExpired cfg s now).1
  | .requeueAgent agentId now => (requeueAgent cfg s agentId now).1
  | .markJobFinalized jobId indexedItems => (markJobFinalized s jobId indexedItems).1
  | .reopen => reopen s

end Fallow.Queue

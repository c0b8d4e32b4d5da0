import Fallow.Registry.Ops
import Fallow.Scheduler.Fit

/-! Model assignment: `PUT /v1/admin/assignments`, `POST /v1/admin/assignments/fit` and the placement
    after an enrolment, as coroutines cut at their await points.

    All three are loops of one shape: read what an agent is assigned, compute what it should be, write
    the whole set with `set_assignments` (DELETE, INSERT and COMMIT under `_write_lock`; the read is
    outside it). Heartbeats and enrolments change the agents' rows in between.

        PUT    manifest ─▶ snapshots ─▶ check each target ─▶ snapshots ─▶ list_offline ─▶ loop
        fit    manifest ─▶ snapshots ─▶ loop ─▶ list_revoked ─▶ list_offline
        auto   desired_models ─▶ list_models ─▶ set_assignments -/

namespace Fallow.App.Assign
open Lib Registry Scheduler Function

/-- The registry's thresholds, and what its JSON columns decode to. -/
structure Env where
  cfg : RegistryConfig := {}
  manifestOf : String → ModelManifest
  gpusOf : String → List GpuStatus
  capsOf : String → DeviceCaps

/-- An iteration order over sets. -/
structure SetOrder where
  iter : List String → List String
  nodup : ∀ l, (iter l).Nodup
  mem : ∀ l a, a ∈ iter l ↔ a ∈ l

/-- A PUT: its body, the clock readings of its check and of its replacement, and the order in which
    it walks the agents. -/
structure Put where
  modelId : String
  agentIds : List String
  checkNow : ℤ
  now : ℤ
  order : SetOrder

inductive Op where
  | put (p : Put)
  | fit (modelId : String) (now : ℤ)
  | autoAssign (agentId : String) (caps : DeviceCaps)

/-! ### What the routes read -/

def Env.capacity (env : Env) (agent : AgentSnapshot) : Capacity where
  memAvailableMb := agent.memAvailableMb
  gpus := env.gpusOf agent.gpusJson
  caps := env.capsOf agent.capsJson

def getManifest (env : Env) (db : Db) (modelId : String) : Option ModelManifest :=
  (Table.get ModelRow.modelId db.models modelId).map (env.manifestOf ·.manifestJson)

def listModels (env : Env) (db : Db) : List ModelManifest :=
  (db.models.mergeSort fun a b =>
    decide (a.createdAt < b.createdAt ∨ a.createdAt = b.createdAt ∧ a.modelId ≤ b.modelId)).map
      (env.manifestOf ·.manifestJson)

def listOffline (cfg : RegistryConfig) (db : Db) (now : ℤ) : List String :=
  (db.agents.filter (offline cfg now)).map (·.agentId)

def listRevokedAgents (db : Db) : List String :=
  (db.agents.filter (·.revokedAt.isSome)).map (·.agentId)

def sorted (l : List String) : List String := l.mergeSort fun a b => decide (a ≤ b)

/-- The targets the check looks at: those with a live snapshot. -/
def checkList (env : Env) (db : Db) (p : Put) : List AgentSnapshot :=
  (sorted p.agentIds.dedup).filterMap fun a =>
    (snapshots env.cfg db p.checkNow).find? (·.agentId = a)

/-- The agents a sweep walks. -/
def sweepList (env : Env) (db : Db) (now : ℤ) : List AgentSnapshot :=
  (snapshots env.cfg db now).mergeSort fun a b => decide (a.agentId ≤ b.agentId)

/-- A target gains the model, any other agent loses it. -/
def Put.updated (p : Put) (agentId : String) (current : List String) : List String :=
  if agentId ∈ p.agentIds then
    if p.modelId ∈ current then current else current ++ [p.modelId]
  else current.filter (· ≠ p.modelId)

/-! ### Coroutines -/

inductive RouteError where
  | unknownModel (modelId : String)
  | unfit (modelId agentId : String) (report : FitReport)
  deriving DecidableEq, Repr

inductive SkipReason where
  | alreadyAssigned (models : List String)
  | unfit (report : FitReport)
  | revoked
  deriving DecidableEq, Repr

structure FitSkip where
  agentId : String
  reason : SkipReason
  deriving DecidableEq, Repr

structure FitAssignmentResponse where
  modelId : String
  assigned : List String
  kept : List String
  skipped : List FitSkip
  offline : List String
  deriving DecidableEq, Repr

/-- A sweep under way. -/
structure Sweep where
  modelId : String
  manifest : ModelManifest
  now : ℤ
  assigned : List String := []
  kept : List String := []
  skipped : List FitSkip := []
  deriving DecidableEq, Repr

/-- Where a `set_assignments` call stands: what it does next. -/
inductive SetPc where | acquire | delete | insert | commit | release
  deriving DecidableEq, Repr

/-- What a coroutine does next. -/
inductive Pc where
  | putManifest (p : Put)
  | putSnapshots (p : Put) (m : ModelManifest)
  | putCheck (p : Put) (m : ModelManifest) (left : List AgentSnapshot)
  | putOnline (p : Put)
  | putOffline (p : Put) (online : List String)
  | putLoop (p : Put) (todo : List String)
  | fitManifest (modelId : String) (now : ℤ)
  | fitSnapshots (modelId : String) (m : ModelManifest) (now : ℤ)
  | fitLoop (f : Sweep) (todo : List AgentSnapshot)
  | fitReread (f : Sweep) (agentId : String) (todo : List AgentSnapshot)
  | fitOffline (f : Sweep) (revoked : List String)
  | autoDesired (agentId : String) (caps : DeviceCaps)
  | autoModels (agentId : String) (caps : DeviceCaps)
  | setting (agentId : String) (modelIds : List String) (stage : SetPc) (next : Pc)
  | returned (resp : Option FitAssignmentResponse)
  | raised (e : RouteError)

def Op.start : Op → Pc
  | .put p => .putManifest p
  | .fit modelId now => .fitManifest modelId now
  | .autoAssign a caps => .autoDesired a caps

/-- What the history records: an operation when it begins, a heartbeat, an enrolment. -/
inductive Entry where
  | op (i : ℕ) (op : Op)
  | beat (agentId : String) (hb : Heartbeat) (now : ℤ)
  | enroll (row : AgentRow)

def Entry.id : Entry → Option ℕ
  | .op i _ => some i
  | _ => none

/-- The connection, `_write_lock` and the coroutines; below them the history. An operation begins
    with the first read its effect depends on, and a rejected one leaves the history. -/
structure State where
  working : Db
  committed : Db
  lock : Option ℕ := none
  procs : ℕ → Option Pc := fun _ => none
  ops : ℕ → Option Op := fun _ => none
  order : List Entry := []

def State.start (db : Db) : State := { working := db, committed := db }

inductive Act where
  | spawn (i : ℕ) (op : Op)
  | run (i : ℕ)
  | beat (agentId : String) (hb : Heartbeat) (now : ℤ)
  | enroll (row : AgentRow)
  /-- the COMMIT of another call -/
  | commit

namespace State

@[simps]
def goto (s : State) (i : ℕ) (pc : Pc) : State :=
  { s with procs := update s.procs i (some pc) }

@[simps]
def begin (s : State) (e : Entry) : State := { s with order := s.order ++ [e] }

@[simps]
def abort (s : State) (i : ℕ) (e : RouteError) : State :=
  { s with
    procs := update s.procs i (some (.raised e))
    order := s.order.filter fun e => e.id ≠ some i }

/-- One await of `set_assignments`; a held lock blocks. -/
def set (s : State) (i : ℕ) (a : String) (ms : List String) (next : Pc) : SetPc → State
  | .acquire => if s.lock.isSome then s
      else { s.goto i (.setting a ms .delete next) with lock := some i }
  | .delete => { s.goto i (.setting a ms .insert next) with
      working := ((Write.deleteAssignments a).run s.working).1 }
  | .insert => { s.goto i (.setting a ms .commit next) with
      working := ((Write.insertAssignments a ms).run s.working).1 }
  | .commit => { s.goto i (.setting a ms .release next) with committed := s.working }
  | .release => { s.goto i next with lock := none }

/-- One await of a coroutine. The end of a loop without an await of its own is a step that reads
    nothing. -/
def resume (env : Env) (s : State) (i : ℕ) : Pc → State
  | .putManifest p => match getManifest env s.working p.modelId with
    | some m =>
      if p.agentIds = [] then (s.begin (.op i (.put p))).goto i (.putOnline p)
      else s.goto i (.putSnapshots p m)
    | none => (s.begin (.op i (.put p))).goto i (.putOnline p)
  | .putSnapshots p m =>
    (s.begin (.op i (.put p))).goto i (.putCheck p m (checkList env s.working p))
  | .putCheck p _ [] => s.goto i (.putOnline p)
  | .putCheck p m (x :: left) =>
    if p.modelId ∈ desiredModels x.agentId s.working then s.goto i (.putCheck p m left)
    else
      let report := modelFit m (env.capacity x)
      if report.fits then s.goto i (.putCheck p m left)
      else s.abort i (.unfit p.modelId x.agentId report)
  | .putOnline p =>
    s.goto i (.putOffline p ((snapshots env.cfg s.working p.now).map (·.agentId)))
  | .putOffline p online =>
    s.goto i (.putLoop p
      (p.order.iter (online ++ listOffline env.cfg s.working p.now ++ p.agentIds)))
  | .putLoop _ [] => s.goto i (.returned none)
  | .putLoop p (a :: todo) =>
    let current := desiredModels a s.working
    let updated := p.updated a current
    if updated = current then s.goto i (.putLoop p todo)
    else s.goto i (.setting a (sorted updated) .acquire (.putLoop p todo))
  | .fitManifest modelId now => match getManifest env s.working modelId with
    | none => s.abort i (.unknownModel modelId)
    | some m => s.goto i (.fitSnapshots modelId m now)
  | .fitSnapshots modelId m now =>
    (s.begin (.op i (.fit modelId now))).goto i
      (.fitLoop { modelId := modelId, manifest := m, now := now } (sweepList env s.working now))
  | .fitLoop f [] => s.goto i (.fitOffline f (listRevokedAgents s.working))
  | .fitLoop f (x :: todo) =>
    let desired := desiredModels x.agentId s.working
    let report := modelFit f.manifest (env.capacity x)
    if f.modelId ∈ desired then
      s.goto i (.fitLoop { f with kept := f.kept ++ [x.agentId] } todo)
    else if desired ≠ [] then
      s.goto i (.fitLoop { f with
        skipped := f.skipped ++ [⟨x.agentId, .alreadyAssigned desired⟩] } todo)
    else if ¬ report.fits then
      s.goto i (.fitLoop { f with skipped := f.skipped ++ [⟨x.agentId, .unfit report⟩] } todo)
    else s.goto i (.setting x.agentId [f.modelId] .acquire (.fitReread f x.agentId todo))
  | .fitReread f a todo =>
    if f.modelId ∈ desiredModels a s.working then
      s.goto i (.fitLoop { f with assigned := f.assigned ++ [a] } todo)
    else s.goto i (.fitLoop { f with skipped := f.skipped ++ [⟨a, .revoked⟩] } todo)
  | .fitOffline f revoked =>
    s.goto i (.returned (some
      { modelId := f.modelId, assigned := f.assigned, kept := f.kept, skipped := f.skipped,
        offline := sorted ((listOffline env.cfg s.working f.now).filter (· ∉ revoked)).dedup }))
  | .autoDesired a caps =>
    if desiredModels a s.working ≠ [] then
      (s.begin (.op i (.autoAssign a caps))).goto i (.returned none)
    else (s.begin (.op i (.autoAssign a caps))).goto i (.autoModels a caps)
  | .autoModels a caps =>
    match selectModelForAgent (capacitySnapshot caps) (listModels env s.working) with
    | none => s.goto i (.returned none)
    | some chosen => s.goto i (.setting a [chosen.modelId] .acquire (.returned none))
  | .setting a ms stage next => s.set i a ms next stage
  | .returned _ => s
  | .raised _ => s

/-- The row an enrolment inserts is not revoked. -/
def enrolled (row : AgentRow) : AgentRow := { row with revokedAt := none }

/-- One scheduler step. An enrolment draws an agent id that is free. -/
def step (env : Env) (s : State) : Act → State
  | .spawn i op => match s.procs i with
    | some _ => s
    | none => { s.goto i op.start with ops := update s.ops i (some op) }
  | .run i => match s.procs i with
    | some pc => s.resume env i pc
    | none => s
  | .beat a hb now =>
    { s.begin (.beat a hb now) with working := ((Write.recordHeartbeat a hb now).run s.working).1 }
  | .enroll row => if (s.working.agent row.agentId).isSome then s
    else { s.begin (.enroll row) with
      working := { s.working with agents := s.working.agents ++ [enrolled row] } }
  | .commit => { s with committed := s.working }

end State

/-! ### Serial runs -/

/-- The entries one after another: every operation from its start to its return before the next. -/
inductive SerialRun (env : Env) : State → List Entry → State → Prop where
  | nil (s : State) : SerialRun env s [] s
  | beat {s s' : State} {es : List Entry} (a : String) (hb : Heartbeat) (now : ℤ)
      (rest : SerialRun env (s.step env (.beat a hb now)) es s') :
      SerialRun env s (.beat a hb now :: es) s'
  | enroll {s s' : State} {es : List Entry} (row : AgentRow)
      (rest : SerialRun env (s.step env (.enroll row)) es s') :
      SerialRun env s (.enroll row :: es) s'
  | op {s s' s'' : State} {es : List Entry} {resp : Option FitAssignmentResponse} (i : ℕ) (op : Op)
      (n : ℕ) (run : s' = runs (State.step env) s (.spawn i op :: List.replicate n (.run i)))
      (ret : s'.procs i = some (.returned resp)) (rest : SerialRun env s' es s'') :
      SerialRun env s (.op i op :: es) s''

end Fallow.App.Assign

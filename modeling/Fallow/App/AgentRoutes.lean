import Fallow.App.State

/-! The agent-facing routes of `app/agent_routes.py`.

    A handler runs to its end before the next one starts, with two exceptions, both of the relay: a
    claim that waits and an upload that streams go on inside the broker, step by step, after the
    handler's first section.

        request ─▶ _authorize_self ─▶ handler ─▶ response
                        │ 401, 403                  ┊ claim waits, upload streams: broker steps

    A path names an agent and the caller's token must belong to it. Bodies name agents too; of those
    only the one in an event is looked at. -/

namespace Fallow.App
open Lib Registry

inductive Body where
  | empty
  | heartbeat (desiredModels : List String)
  | lease (lease : Queue.WorkUnitLease)
  | resultRef (digest : String)
  | bytes (content : Relay.Bytes)
  | claim (payload : List Json.Member)
  /-- the broker's claim call this request waits on -/
  | waiting (k : ℕ)
  /-- the claim whose response is being uploaded -/
  | uploading (claim : ℕ)
  deriving DecidableEq, Repr

structure Response where
  status : ℕ
  body : Body := .empty
  deriving DecidableEq, Repr

/-! ### Identity -/

/-- Resolve a device token; `bearer` is its digest, `none` without a bearer header. -/
def authenticateAgent (bearer : Option String) : Handler String := do
  let s ← get
  match bearer with
  | none => throw ⟨401, "missing bearer token"⟩
  | some h => match Registry.authenticateAgent s.registry.db h with
    | .error _ => throw ⟨401, "device token revoked"⟩
    | .ok none => throw ⟨401, "invalid device token"⟩
    | .ok (some agentId) => return agentId

def authorizeSelf (agentId : String) (bearer : Option String) : Handler Unit := do
  let caller ← authenticateAgent bearer
  if caller ≠ agentId then throw ⟨403, "device token does not match agent id"⟩

/-! ### The gating snapshot -/

/-- The agent's snapshot at a time, with any event-state override applied. -/
def snapshotAt (s : CoordinatorState) (now : ℤ) (agentId : String) : Option AgentSnapshot :=
  match (s.registry.snapshots now).find? (·.agentId = agentId) with
  | none => none
  | some snapshot => match s.overrides.stateFor agentId with
    | none => some snapshot
    | some override =>
      if override ≠ snapshot.state then some { snapshot with state := override } else some snapshot

def agentSnapshot (agentId : String) : Handler (Option AgentSnapshot) := do
  let now ← draw World.now
  let s ← get
  return snapshotAt s now agentId

/-! ### Work -/

def leaseNext (agentId : String) (modelIds : List String) : Handler (Option Queue.WorkUnitLease) := do
  let s ← get
  let now ← draw World.now
  let tie ← draw World.tie
  let leased ← callQueue fun q => Queue.leaseNext s.config.queue q agentId modelIds now tie
  return leased.map (·.1)

/-- `datetime.hour` of a time in microseconds. -/
def hourOf (now : ℤ) : ℕ := (now / 3600000000 % 24).toNat

def tryBackupLease (agentId : String) (leasable : List String) :
    Handler (Option Queue.WorkUnitLease) := do
  let s ← get
  match s.churn with
  | none => return none
  | some churn =>
    if ¬ s.config.speculativeBackupEnabled then return none
    else
      let candidates ← callQueue fun q =>
        (q, Queue.backupCandidates s.config.queue q agentId leasable s.config.speculativeTailMaxUnits)
      if candidates = [] then return none
      else
        let now ← draw World.now
        let holders := s.registry.snapshots now
        let later ← draw World.now
        let units := candidates.map fun c => ⟨c.workUnitId, c.holderAgentId, c.estDurationS⟩
        match Scheduler.chooseBackupUnit units holders churn (hourOf later)
            s.config.speculativeSurvivalThreshold s.config.churnEstUnitDurationS with
        | none => return none
        | some unitId =>
          let now ← draw World.now
          callQueue fun q =>
            let (q, lease) := Queue.leaseBackup s.config.queue q agentId unitId now
            (q, .ok lease)

/-- One lease attempt: build the snapshot, gate it, and try the queue. -/
def tryLease (agentId : String) : Handler (Option Queue.WorkUnitLease) := do
  match ← agentSnapshot agentId with
  | none => return none
  | some snapshot =>
    let modelIds := (snapshot.replicas.filter (·.state = .ready)).map (·.modelId)
    let leasable := Scheduler.selectForPoll snapshot modelIds
    if leasable = [] then return none
    else match ← leaseNext agentId leasable with
      | some lease => return some lease
      | none => tryBackupLease agentId leasable

/-- The poll's loop; a client of no more patience hangs up. -/
def pollUntil (agentId : String) (deadline : ℤ) : (patience : ℕ) → Handler Response
  | 0 => throw ⟨499, "client closed request"⟩
  | patience + 1 => do
    match ← tryLease agentId with
    | some lease => return ⟨200, .lease lease⟩
    | none =>
      let now ← draw World.now
      if deadline ≤ now then return ⟨204, .empty⟩
      else pollUntil agentId deadline patience

def longPoll (agentId : String) (timeout : ℚ) (patience : ℕ) : Handler Response := do
  let s ← get
  let budget := min (max timeout 0) s.config.longPollMaxS
  let now ← draw World.now
  pollUntil agentId (now + roundHalfEven (budget * 1000000)) patience

/-! ### Site fences -/

/-- Advance the site presence fence and drop relay work; true if site-handled. -/
def fenceSitePresence (agentId : String) (event : AgentEvent) : Handler Bool := do
  let s ← get
  if s.relay.isNone then return false
  else match Gateway.resolveSiteRoute s.registry.db agentId with
    | none => return false
    | some _ => match event.detail.lookup "sequence" with
      | none => return false
      | some raw => match pyInt raw with
        | none => return false
        | some sequence =>
          let kind : PresenceKind := if event.kind = .userReturned then .userReturned else .userIdle
          let now ← draw World.now
          match ← callRegistry (.applyPresenceEvent agentId kind sequence now) with
          | some (.generation generation) =>
            callRelay fun b => (b.invalidateAgent agentId generation
              (if event.kind = .userReturned then "user_returned" else "user_idle"), ())
            return true
          | _ => throw internalServerError

/-- Invalidate a site agent's relay work when a heartbeat leaves it ineligible. -/
def fenceSiteHeartbeat (agentId : String) : Handler Unit := do
  let s ← get
  if s.relay.isNone then return ()
  else match Gateway.resolveSiteRoute s.registry.db agentId with
    | none => return ()
    | some _ => match ← agentSnapshot agentId with
      | none => return ()
      | some snapshot =>
        if snapshot.state = .idle ∧ ¬ snapshot.servingPaused then return ()
        else
          let pending ← callRelay fun b => (b, b.hasPending agentId)
          if ¬ pending then return ()
          else match ← callRegistry (.bumpPresenceGeneration agentId) with
            | some (.generation generation) =>
              callRelay fun b => (b.invalidateAgent agentId generation "heartbeat_paused", ())
            | _ => throw internalServerError

/-! ### Presence routes -/

/-- A heartbeat as its body says it; the agent it names is not looked at. -/
structure HeartbeatMessage extends Heartbeat where
  agentId : String
  deriving DecidableEq, Repr

def heartbeat (agentId : String) (hb : HeartbeatMessage) (bearer : Option String) :
    Handler Response := do
  authorizeSelf agentId bearer
  let now ← draw World.now
  match ← callRegistry (.recordHeartbeat agentId hb.toHeartbeat now) with
  | none => throw ⟨404, agentId⟩
  | some _ =>
    fenceSiteHeartbeat agentId
    let s ← get
    return ⟨200, .heartbeat (desiredModels agentId s.registry.db)⟩

def isPresence (event : AgentEvent) : Bool :=
  event.kind = .userReturned ∨ event.kind = .userIdle

/-- Push a presence event's state into the registry: through the site fence, or plainly. -/
def pushPresence (agentId : String) (event : AgentEvent) : Handler Unit := do
  let handled ← fenceSitePresence agentId event
  if ¬ handled then
    let target : AgentState := if event.kind = .userReturned then .active else .idle
    let now ← draw World.now
    match ← callRegistry (.setAgentState agentId target now) with
    | none => throw internalServerError
    | some _ => return ()
  else return ()

/-- The overlay follows the body's agent, the registry the path's. -/
def events (agentId : String) (event : AgentEvent) (bearer : Option String) : Handler Response := do
  authorizeSelf agentId bearer
  modify fun s => { s with events := s.events ++ [event] }
  modify fun s => { s with overrides := s.overrides.apply event }
  if isPresence event then
    pushPresence agentId event
    return ⟨202, .empty⟩
  else return ⟨202, .empty⟩

/-! ### Work routes -/

def work (agentId : String) (timeout : ℚ) (patience : ℕ) (bearer : Option String) :
    Handler Response := do
  authorizeSelf agentId bearer
  longPoll agentId timeout patience

/-- Header numbers below their bound never reach a handler. -/
def validateHeader (ok : Bool) : Handler Unit :=
  if ok then return () else throw ⟨422, "Unprocessable Content"⟩

def result (agentId unitId : String) (res : Queue.WorkResult) (leaseAttempt : ℕ)
    (bearer : Option String) : Handler Response := do
  validateHeader (1 ≤ leaseAttempt)
  authorizeSelf agentId bearer
  if unitId ≠ res.workUnitId then throw ⟨409, "result unit does not match request path"⟩
  else
    let now ← draw World.now
    let accepted ← callQueue fun q =>
      let (q, accepted, _) := Queue.completeUnit q agentId leaseAttempt res now
      (q, .ok accepted)
    if ¬ accepted then throw ⟨409, "work-unit result was not accepted"⟩
    else return ⟨200, .empty⟩

def resultChunkSize : ℕ := 1024 * 1024

/-- The sizes in which a received chunk of `n` bytes is written. -/
def pieceSizes (n : ℕ) : List ℕ :=
  List.replicate (n / resultChunkSize) resultChunkSize ++
    (if n % resultChunkSize = 0 then [] else [n % resultChunkSize])

/-- The count at which a stream crosses the limit, if it does. -/
def crossing (maxBytes : ℕ) : (received : ℕ) → List ℕ → Option ℕ
  | _, [] => none
  | received, n :: ns =>
    if maxBytes < received + n then some (received + n) else crossing maxBytes (received + n) ns

/-- `ResultBlobStore.put`: keep the payload under its digest. -/
def putResult (chunks : List Relay.Bytes) : Handler String := do
  let s ← get
  let maxBytes := s.config.maxResultPayloadBytes
  match crossing maxBytes 0 (chunks.flatMap fun c => pieceSizes c.length) with
  | some received =>
    throw ⟨413, s!"result payload exceeded {maxBytes} bytes after receiving {received} bytes"⟩
  | none =>
    let digest := s.world.sha256 chunks.flatten
    if (s.results.lookup digest).isNone then
      modify fun s => { s with results := s.results ++ [(digest, chunks.flatten)] }
    return digest

def payload (agentId unitId : String) (chunks : List Relay.Bytes) (leaseAttempt : ℕ)
    (bearer : Option String) : Handler Response := do
  validateHeader (1 ≤ leaseAttempt)
  authorizeSelf agentId bearer
  let s ← get
  if Queue.resultUploadAttempt s.queue agentId unitId ≠ some leaseAttempt then
    throw ⟨409, "work-unit lease changed"⟩
  else
    let digest ← putResult chunks
    let now ← draw World.now
    let accepted ← callQueue fun q =>
      let (q, accepted) := Queue.bindResultPayload q agentId unitId leaseAttempt digest digest now
      (q, .ok accepted)
    if ¬ accepted then throw ⟨409, "work-unit lease changed during upload"⟩
    else return ⟨200, .resultRef digest⟩

def unitInput (unitId : String) (bearer : Option String) : Handler Response := do
  let _ ← authenticateAgent bearer
  let s ← get
  match s.world.unitInput unitId with
  | none => throw ⟨404, "unknown work-unit input"⟩
  | some content => return ⟨200, .bytes content⟩

/-! ### Relay routes -/

def relayErrorStatus : Relay.RelayError → ℕ
  | .state _ (some .gone) => 410
  | .state _ (some .unknown) => 404
  | _ => 409

/-- The relay routes exist under Site Mode only. -/
def relayMounted : Handler Unit := do
  let s ← get
  if s.relay.isNone then throw ⟨404, "Not Found"⟩

/-- The first section of a claim; its wait ends in a broker step. -/
def inferenceClaim (agentId : String) (bearer : Option String) : Handler Response := do
  relayMounted
  authorizeSelf agentId bearer
  let s ← get
  match Gateway.resolveSiteRoute s.registry.db agentId with
  | none => throw ⟨404, "agent is not a site relay agent"⟩
  | some route =>
    match ← callRelay fun b => b.claim agentId route.presenceGeneration with
    | .error _ => return ⟨204, .empty⟩
    | .ok k => return ⟨200, .waiting k⟩

/-- The answer to a claim call once the broker has returned from it. -/
def claimAnswer (k : ℕ) : Handler Response := do
  let monotonic ← draw World.monotonic
  let s ← get
  let b := s.relay.getD {}
  match b.claims[k]? with
  | some { phase := .returned (some c), presenceGeneration := generation, .. } =>
    match b.heap[c]? with
    | some w => return ⟨200, .claim (Relay.claimPayload (monotonic / 1000000)
        { claimId := s.world.claimId c, presenceGeneration := generation.toNat,
          replicaPort := w.replicaPort, request := w.request, deadline := w.deadline / 1000000 })⟩
    | none => throw internalServerError
  | _ => return ⟨204, .empty⟩

/-- The first section of an upload; its chunks and its end are broker steps. -/
def inferenceResponse (agentId : String) (claim generation upstreamStatus : ℕ) (contentType : String)
    (bearer : Option String) : Handler Response := do
  relayMounted
  validateHeader (100 ≤ upstreamStatus ∧ upstreamStatus ≤ 599)
  authorizeSelf agentId bearer
  let monotonic ← draw World.monotonic
  match ← callRelay fun b =>
      b.startResponse agentId claim generation upstreamStatus contentType monotonic with
  | .error e => return ⟨relayErrorStatus e, .empty⟩
  | .ok () => return ⟨202, .uploading claim⟩

/-- A failure that must not be retried is flagged before the broker hears of it. -/
def inferenceFailure (agentId : String) (claim generation : ℕ) (code : String) (retryable : Bool)
    (bearer : Option String) : Handler Response := do
  relayMounted
  authorizeSelf agentId bearer
  if ¬ retryable then modify (·.markNonretryable claim)
  let monotonic ← draw World.monotonic
  match ← callRelay fun b => b.fail agentId claim generation code monotonic with
  | .error e => return ⟨relayErrorStatus e, .empty⟩
  | .ok () => return ⟨202, .empty⟩

/-! ### Requests and steps -/

inductive Call where
  | heartbeat (agentId : String) (hb : HeartbeatMessage)
  | events (agentId : String) (event : AgentEvent)
  | work (agentId : String) (timeout : ℚ) (patience : ℕ)
  | result (agentId unitId : String) (res : Queue.WorkResult) (leaseAttempt : ℕ)
  | payload (agentId unitId : String) (chunks : List Relay.Bytes) (leaseAttempt : ℕ)
  | unitInput (unitId : String)
  | inferenceClaim (agentId : String)
  | inferenceResponse (agentId : String) (claim generation upstreamStatus : ℕ) (contentType : String)
  | inferenceFailure (agentId : String) (claim generation : ℕ) (code : String) (retryable : Bool)

/-- A call with the digest of its device token. -/
structure Request where
  bearer : Option String
  call : Call

def handle (req : Request) : Handler Response :=
  match req.call with
  | .heartbeat a hb => heartbeat a hb req.bearer
  | .events a event => events a event req.bearer
  | .work a timeout patience => work a timeout patience req.bearer
  | .result a u res attempt => result a u res attempt req.bearer
  | .payload a u chunks attempt => payload a u chunks attempt req.bearer
  | .unitInput u => unitInput u req.bearer
  | .inferenceClaim a => inferenceClaim a req.bearer
  | .inferenceResponse a c g status contentType => inferenceResponse a c g status contentType req.bearer
  | .inferenceFailure a c g code retryable => inferenceFailure a c g code retryable req.bearer

/-- A request, a claim's answer, or what goes on inside the broker meanwhile. -/
inductive Act where
  | request (req : Request)
  | claimAnswer (k : ℕ)
  | relay (act : Relay.Act)

def step (s : CoordinatorState) : Act → CoordinatorState
  | .request req => ((handle req).exec s).2
  | .claimAnswer k => ((claimAnswer k).exec s).2
  | .relay act => { s with relay := s.relay.map (Relay.step · act) }

end Fallow.App

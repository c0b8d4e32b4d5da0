import Fallow.App.AgentRoutes
import Fallow.App.Assign
import Fallow.Lib.Task
import Fallow.Registry.Durable
import Fallow.Relay.Fence

/-! The routes that move the presence fence, cut at their await points.

    `App.AgentRoutes` runs a handler to its end; here every statement, commit and rollback on the
    shared connection is a step of its own, and so is every section of the broker. The generation a
    route hands to the broker it read from the registry:

        claim        site_route ─────────────────────────────────▶ broker.claim
        presence     UPDATE ─▶ COMMIT ─▶ SELECT ─────────────────▶ broker.invalidate_agent
        heartbeat    … has_pending ─▶ UPDATE ─▶ COMMIT ─▶ SELECT ─▶ broker.invalidate_agent

    and likewise the offline sweep and a revocation. Those reads are the tagged ones. All other calls
    of the registry, registrations among them, run beside the routes, and so does everything else that
    happens inside the broker. -/

namespace Fallow.App.Presence
open Lib Lib.Task Registry

inductive Lock where | write | liveness
  deriving DecidableEq, Repr

/-- What the routes keep beside the registry. -/
structure Memory where
  broker : Relay.Broker := {}
  overrides : EventStateOverrides := {}
  events : List AgentEvent := []

inductive Answer where
  | response (r : Response)
  | error (e : HttpError)
  | swept
  | called
  deriving DecidableEq, Repr

abbrev RouteProg := Task.Prog Db Write String Lock Memory Answer

def respond (status : ℕ) (body : Body := .empty) : RouteProg := .ret (.response ⟨status, body⟩)

def httpError (status : ℕ) (detail : String) : RouteProg := .ret (.error ⟨status, detail⟩)

def serverError : RouteProg := .ret (.error internalServerError)

/-- Call a registry method; `about` names the agent whose generation goes on to the broker. -/
def method (about : Option String) (p : RProg) (k : Ret → RouteProg) (raised : RouteProg) : RouteProg :=
  .call .write about k raised p

/-- A method that returns a generation. -/
def generationOf (agentId : String) (p : RProg) (k : ℕ → RouteProg) (raised : RouteProg) : RouteProg :=
  method (some agentId) p (fun
    | .generation g => k g
    | _ => raised) raised

def invalidateAgent (agentId : String) (newer : ℕ) (reason : String) (k : RouteProg) : RouteProg :=
  .atomic (fun m => { m with broker := m.broker.invalidateAgent agentId newer reason }) fun _ => k

def authorizeSelf (agentId : String) (bearer : Option String) (k : RouteProg) : RouteProg :=
  match bearer with
  | none => httpError 401 "missing bearer token"
  | some h => .read none fun db => match Registry.authenticateAgent db h with
    | .error _ => httpError 401 "device token revoked"
    | .ok none => httpError 401 "invalid device token"
    | .ok (some caller) =>
      if caller ≠ agentId then httpError 403 "device token does not match agent id" else k

/-- Go on if the agent is a site relay agent; the generation that comes with the route is dropped. -/
def whenRouted (agentId : String) (routed otherwise : RouteProg) : RouteProg :=
  .read none fun db => match Gateway.resolveSiteRoute db agentId with
    | none => otherwise
    | some _ => routed

/-! ### Claims -/

def inferenceClaim (agentId : String) (bearer : Option String) : RouteProg :=
  authorizeSelf agentId bearer <| .read (some agentId) fun db =>
    match Gateway.resolveSiteRoute db agentId with
    | none => httpError 404 "agent is not a site relay agent"
    | some route =>
      .atomic (fun m => { m with broker := (m.broker.claim agentId route.presenceGeneration).1 }) fun m =>
        match (m.broker.claim agentId route.presenceGeneration).2 with
        | .error _ => respond 204
        | .ok k => respond 200 (.waiting k)

/-! ### Heartbeats -/

/-- The snapshot with any event-state override applied. -/
def overridden (overrides : EventStateOverrides) (snapshot : AgentSnapshot) : AgentSnapshot :=
  match overrides.stateFor snapshot.agentId with
  | none => snapshot
  | some override =>
    if override ≠ snapshot.state then { snapshot with state := override } else snapshot

/-- Bump the durable generation and drop the relay work below it, if there is any. -/
def bumpIfPending (agentId reason : String) (k raised : RouteProg) : RouteProg :=
  .atomic id fun m =>
    if ¬ m.broker.hasPending agentId then k
    else generationOf agentId (bumpPresenceGeneration agentId)
      (fun generation => invalidateAgent agentId generation reason k) raised

def fenceSiteHeartbeat (cfg : RegistryConfig) (now : ℤ) (agentId : String) (k : RouteProg) : RouteProg :=
  whenRouted agentId (.read none fun db =>
    match (snapshots cfg db now).find? (·.agentId = agentId) with
    | none => k
    | some snapshot => .atomic id fun m =>
      let snapshot := overridden m.overrides snapshot
      if snapshot.state = .idle ∧ ¬ snapshot.servingPaused then k
      else bumpIfPending agentId "heartbeat_paused" k serverError) k

def heartbeat (cfg : RegistryConfig) (agentId : String) (hb : HeartbeatMessage)
    (bearer : Option String) (recordedAt seenAt : ℤ) : RouteProg :=
  authorizeSelf agentId bearer <| .acquire .liveness <|
    method none (recordHeartbeat agentId hb.toHeartbeat recordedAt)
      (fun _ => .release .liveness <| fenceSiteHeartbeat cfg seenAt agentId <|
        .read none fun db => respond 200 (.heartbeat (desiredModels agentId db)))
      (.release .liveness (httpError 404 agentId))

/-! ### Events -/

/-- Advance the site presence fence and drop relay work; goes on with true if site-handled. -/
def fenceSitePresence (agentId : String) (event : AgentEvent) (now : ℤ) (k : Bool → RouteProg) :
    RouteProg :=
  whenRouted agentId (match (event.detail.lookup "sequence").bind pyInt with
    | none => k false
    | some sequence => .acquire .liveness <|
      generationOf agentId
        (applyPresenceEvent agentId (if event.kind = .userReturned then .userReturned else .userIdle)
          sequence now)
        (fun generation => .release .liveness <|
          invalidateAgent agentId generation
            (if event.kind = .userReturned then "user_returned" else "user_idle") (k true))
        (.release .liveness serverError)) (k false)

def setState (agentId : String) (event : AgentEvent) (now : ℤ) : RouteProg :=
  .acquire .liveness <|
    method none (setAgentState agentId (if event.kind = .userReturned then .active else .idle) now)
      (fun _ => .release .liveness (respond 202)) (.release .liveness serverError)

def events (agentId : String) (event : AgentEvent) (bearer : Option String) (now : ℤ) : RouteProg :=
  authorizeSelf agentId bearer <|
    .atomic (fun m => { m with events := m.events ++ [event] }) fun _ =>
    .atomic (fun m => { m with overrides := m.overrides.apply event }) fun _ =>
      if isPresence event then
        fenceSitePresence agentId event now fun handled =>
          if handled then respond 202 else setState agentId event now
      else respond 202

/-! ### The offline sweep -/

def invalidateOfflineRelay (agentId : String) (k raised : RouteProg) : RouteProg :=
  whenRouted agentId (bumpIfPending agentId "offline" k raised) k

/-- `requeues` says whose `requeue_agent` returns; an exception ends the sweep. -/
def evictEach (requeues : String → Bool) : List String → RouteProg
  | [] => .release .liveness (.ret .swept)
  | a :: rest =>
    if requeues a then
      invalidateOfflineRelay a (evictEach requeues rest) (.release .liveness (.ret .swept))
    else .release .liveness (.ret .swept)

/-- One iteration of `offline_eviction_loop`. -/
def offlineEviction (cfg : RegistryConfig) (now : ℤ) (requeues : String → Bool) : RouteProg :=
  .acquire .liveness <| .read none fun db => evictEach requeues (Assign.listOffline cfg db now)

/-! ### Revocation -/

def evictFromRelay (agentId : String) : RouteProg :=
  generationOf agentId (bumpPresenceGeneration agentId)
    (fun generation => invalidateAgent agentId generation "revoked" (respond 204)) serverError

/-- The route of an authenticated operator. -/
def revokeAgent (agentId : String) (now : ℤ) : RouteProg :=
  .read none fun db =>
    method none (Registry.revokeAgent agentId now)
      (fun _ => method none (setAssignments agentId [])
        (fun _ => if transportOf db agentId = some .siteRelay then evictFromRelay agentId
          else respond 204)
        serverError)
      (httpError 404 s!"unknown agent: {agentId}")

/-! ### The system -/

inductive Route where
  | inferenceClaim (agentId : String) (bearer : Option String)
  | heartbeat (agentId : String) (hb : HeartbeatMessage) (bearer : Option String)
      (recordedAt seenAt : ℤ)
  | events (agentId : String) (event : AgentEvent) (bearer : Option String) (now : ℤ)
  | offlineEviction (now : ℤ) (requeues : String → Bool)
  | revokeAgent (agentId : String) (now : ℤ)
  /-- any other use of the registry, a registration in particular -/
  | registry (op : Registry.Op)

def Route.body (cfg : RegistryConfig) : Route → RouteProg
  | .inferenceClaim a bearer => Presence.inferenceClaim a bearer
  | .heartbeat a hb bearer recordedAt seenAt => Presence.heartbeat cfg a hb bearer recordedAt seenAt
  | .events a event bearer now => Presence.events a event bearer now
  | .offlineEviction now requeues => Presence.offlineEviction cfg now requeues
  | .revokeAgent a now => Presence.revokeAgent a now
  | .registry op => method none op.body (fun _ => .ret .called) (.ret .called)

/-- Steps of the broker that no route above takes. -/
def elsewhere : Relay.Act → Bool
  | .claim .. | .invalidateAgent .. => false
  | _ => true

abbrev RelayAct := { act : Relay.Act // elsewhere act = true }

def relay (act : RelayAct) (m : Memory) : Memory := { m with broker := Relay.step m.broker act.1 }

abbrev State := Task.Sys Db Write String Lock Memory Answer

/-- The coordinator as it starts on a database, with a fresh broker. -/
def started (db : Db) (maxBuffer : ℕ) : State :=
  { working := db, committed := db, memory := { broker := { maxBuffer := maxBuffer } } }

def step (cfg : RegistryConfig) : State → Task.Act Route RelayAct → State :=
  Task.step Write.run (Route.body cfg) relay

end Fallow.App.Presence

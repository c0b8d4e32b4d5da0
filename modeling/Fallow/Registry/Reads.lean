import Fallow.Registry.Sql

/-! The registry's reads behind routing: one row's site route, the live endpoints of a model, the
    agents' snapshots and the owner of a device token.

    All leave revoked agents out. For endpoints and snapshots that is all there is to say; `site_route`
    answers the same `none` for an unknown agent and for a revoked one, whatever its transport was. -/

namespace Fallow.Registry

/-- Ages a heartbeat may have, in microseconds. -/
structure RegistryConfig where
  suspectAfter : ℤ := 15000000
  offlineAfter : ℤ := 45000000
  deriving DecidableEq, Repr

/-- A routable replica. -/
structure ReplicaEndpoint where
  agentId : String
  host : String
  port : ℕ
  modelId : String
  inflight : ℕ := 0
  deriving DecidableEq, Repr

/-- The transport and the presence generation of a live agent. -/
def siteRoute (db : Db) (agentId : String) : Option (Transport × ℕ) :=
  ((db.agent agentId).filter (·.revokedAt = none)).map fun r => (r.transport, r.presenceGeneration)

def readyEndpointsForRow (row : AgentRow) (modelId : String) : List ReplicaEndpoint :=
  (row.replicas.filter fun r => r.modelId = modelId ∧ r.state = .ready).map fun r =>
    { agentId := row.agentId, host := row.host, port := r.port, modelId := modelId,
      inflight := r.inflight }

/-- The rows `replica_endpoints` looks into: fresh, not paused, idle. -/
def servesInteractive (cfg : RegistryConfig) (now : ℤ) (row : AgentRow) : Bool :=
  ¬ (cfg.suspectAfter < now - row.lastSeen) ∧ ¬ row.servingPaused ∧ row.state = .idle

def replicaEndpoints (cfg : RegistryConfig) (db : Db) (modelId : String) (now : ℤ) :
    List ReplicaEndpoint :=
  ((db.agents.filter (·.revokedAt = none)).filter (servesInteractive cfg now)).flatMap
    (readyEndpointsForRow · modelId)

/-! ### Snapshots -/

/-- The coordinator's view of one agent. -/
structure AgentSnapshot where
  agentId : String
  host : String
  state : AgentState
  suspect : Bool
  capsJson : String
  memAvailableMb : ℕ
  gpusJson : String
  replicas : List ReplicaStatus
  userIdleS : ℚ
  servingPaused : Bool
  predictedIdleRemainingS : Option ℚ
  predictedIdleConfidence : Option ℚ
  deriving DecidableEq, Repr

def snapshotFromRow (row : AgentRow) (suspect : Bool) : AgentSnapshot where
  agentId := row.agentId
  host := row.host
  state := row.state
  suspect := suspect
  capsJson := row.capsJson
  memAvailableMb := row.memAvailableMb
  gpusJson := row.gpusJson
  replicas := row.replicas
  userIdleS := row.userIdleS
  servingPaused := row.servingPaused
  predictedIdleRemainingS := row.predictedIdleRemainingS
  predictedIdleConfidence := row.predictedIdleConfidence

def offline (cfg : RegistryConfig) (now : ℤ) (row : AgentRow) : Bool :=
  cfg.offlineAfter < now - row.lastSeen

def rowSnapshot (cfg : RegistryConfig) (now : ℤ) (row : AgentRow) : AgentSnapshot :=
  snapshotFromRow row (cfg.suspectAfter < now - row.lastSeen)

/-- Every agent that is neither revoked nor offline, in the order of registration. -/
def snapshots (cfg : RegistryConfig) (db : Db) (now : ℤ) : List AgentSnapshot :=
  (((db.agents.filter (·.revokedAt = none)).mergeSort
      fun a b => decide (a.registeredAt ≤ b.registeredAt)).filter
    fun r => ¬ offline cfg now r).map (rowSnapshot cfg now)

/-- An agent that has a snapshot. -/
def live (cfg : RegistryConfig) (now : ℤ) (row : AgentRow) : Bool :=
  row.revokedAt = none ∧ ¬ offline cfg now row

variable {cfg : RegistryConfig} {db : Db}

/-- CORRECT: looking an agent up among the snapshots is reading its own row. -/
theorem find_snapshots (hk : Lib.Table.Keyed AgentRow.agentId db.agents) (now : ℤ) (a : String) :
    (snapshots cfg db now).find? (·.agentId = a) =
      ((db.agent a).filter (live cfg now)).map (rowSnapshot cfg now) := by
  have hmem : ∀ r, r ∈ (((db.agents.filter (·.revokedAt = none)).mergeSort
      fun a b => decide (a.registeredAt ≤ b.registeredAt)).filter fun r => ¬ offline cfg now r) ↔
      r ∈ db.agents ∧ live cfg now r = true := by
    intro r
    simp [live, List.mem_mergeSort, and_assoc]
  rw [snapshots, List.find?_map]
  congr 1
  have hkey : ∀ {r r' : AgentRow}, r ∈ db.agents → r' ∈ db.agents → r.agentId = r'.agentId → r = r' :=
    fun h h' he => List.inj_on_of_nodup_map hk h h' he
  cases hr : (db.agent a).filter (live cfg now) with
  | none =>
    rw [List.find?_eq_none]
    intro r hrm hra
    obtain ⟨hin, hlive⟩ := (hmem r).mp hrm
    have hget : db.agent a = some r := (Lib.Table.get_eq_some hk).mpr ⟨hin, of_decide_eq_true hra⟩
    rw [hget, Option.filter_some, if_pos hlive] at hr
    cases hr
  | some r =>
    obtain ⟨hget, hlive⟩ := Option.filter_eq_some_iff.mp hr
    obtain ⟨hin, hid⟩ := (Lib.Table.get_eq_some hk).mp hget
    cases hf : List.find? _ _ with
    | none =>
      exact absurd (decide_eq_true hid) (List.find?_eq_none.mp hf r ((hmem r).mpr ⟨hin, hlive⟩))
    | some r' =>
      have hin' := ((hmem r').mp (List.mem_of_find?_eq_some hf)).1
      have hfound := List.find?_some hf
      have hid' : r'.agentId = a := of_decide_eq_true hfound
      rw [hkey hin' hin (hid'.trans hid.symm)]

/-! ### Device tokens -/

/-- Who a device token belongs to; the error names a revoked owner. -/
def authenticateAgent (db : Db) (tokenHash : String) : Except String (Option String) :=
  match db.agents.find? (·.deviceTokenHash = tokenHash) with
  | none => .ok none
  | some row => if row.revokedAt.isSome then .error row.agentId else .ok (some row.agentId)

/-! ### Transports never change -/

/-- The transport an agent was enrolled with. -/
def transportOf (db : Db) (a : String) : Option Transport := (db.agent a).map (·.transport)

/-- An endpoint names an agent that has a row. -/
theorem transportOf_of_mem_replicaEndpoints (h : e ∈ replicaEndpoints cfg db m now) :
    (transportOf db e.agentId).isSome := by
  simp only [replicaEndpoints, List.mem_flatMap, List.mem_filter] at h
  obtain ⟨row, ⟨⟨hrow, -⟩, -⟩, he⟩ := h
  simp only [readyEndpointsForRow, List.mem_map] at he
  obtain ⟨_, -, rfl⟩ := he
  cases hr : db.agent row.agentId with
  | none => exact absurd rfl (Lib.Table.get_eq_none.mp hr row hrow)
  | some r => rw [transportOf, hr]; rfl

/-- FRAME: no statement changes the transport of an agent that has a row. -/
theorem transportOf_run (w : Write)
    (h : transportOf db a = some t) : transportOf (w.run db).1 a = some t := by
  obtain ⟨r, hr, rfl⟩ := Option.map_eq_some_iff.mp h
  rw [transportOf, agent_run w hr, Option.map_some, onAgent_transport]

end Fallow.Registry

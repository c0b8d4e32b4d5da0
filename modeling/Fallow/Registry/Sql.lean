import Fallow.Registry.Schema

/-! The statements of `registry/sqlite_registry.py`.

    `Write` lists the statements that change rows, each with the values bound to it; `Write.run` is
    what one does to the database, with its row count, `none` when it raises. A multi-row
    `executemany` is one call on the connection's worker thread and so one statement here; when a row
    of it violates a constraint, the rows before stay written. -/

namespace Fallow.Registry
open Lib Table

inductive Write where
  | insertToken (tokenHash : String) (createdAt : ℤ) (mode : EnrollmentMode)
  | spendToken (tokenHash : String) (usedAt : ℤ)
  | voidToken (tokenHash : String) (now : ℤ)
  | insertAgent (row : AgentRow)
  | revokeAgent (agentId : String) (now : ℤ)
  | insertApiKey (row : ApiKeyRow)
  | recordHeartbeat (agentId : String) (hb : Heartbeat) (now : ℤ)
  | setAgentState (agentId : String) (state : AgentState) (now : ℤ)
  | presenceEvent (agentId : String) (kind : PresenceKind) (sequence now : ℤ)
  | bumpGeneration (agentId : String)
  | upsertModel (row : ModelRow)
  | upsertQuotas (rows : List QuotaRow)
  | deleteAssignments (agentId : String)
  | insertAssignments (agentId : String) (modelIds : List String)
  deriving DecidableEq, Repr

namespace Sql

/-- `UPDATE registry_agents SET f WHERE p`, with its row count. -/
def updateAgents (p : AgentRow → Bool) (f : AgentRow → AgentRow) (db : Db) : Db × Option ℕ :=
  ({ db with agents := Table.update p f db.agents }, some (db.agents.countP p))

def updateTokens (p : TokenRow → Bool) (f : TokenRow → TokenRow) (db : Db) : Db × Option ℕ :=
  ({ db with enrollmentTokens := Table.update p f db.enrollmentTokens },
   some (db.enrollmentTokens.countP p))

/-- A site agent's heartbeat moves its state only with a sequence that is not behind the fence. -/
def heartbeatCurrent (hb : Heartbeat) (r : AgentRow) : Bool :=
  r.transport = .direct ∨ r.presenceSequence ≤ hb.seq

def heartbeatRow (hb : Heartbeat) (now : ℤ) (r : AgentRow) : AgentRow :=
  { r with
    lastSeen := now
    state := if heartbeatCurrent hb r then hb.state else r.state
    userIdleS := hb.userIdleS
    memAvailableMb := hb.memAvailableMb
    gpusJson := hb.gpusJson
    replicas := hb.replicas
    servingPaused := if heartbeatCurrent hb r then hb.servingPaused else r.servingPaused
    predictedIdleRemainingS := hb.predictedIdleRemainingS
    predictedIdleConfidence := hb.predictedIdleConfidence
    presenceSequence := max r.presenceSequence hb.seq }

/-- The state a presence event stands for. -/
def presenceState : PresenceKind → AgentState
  | .userReturned => .active
  | .reclaim => .active
  | .userIdle => .idle

def presenceRow (kind : PresenceKind) (sequence now : ℤ) (r : AgentRow) : AgentRow :=
  { r with
    state := presenceState kind
    servingPaused := decide (kind = .reclaim)
    presenceSequence := sequence
    presenceGeneration := r.presenceGeneration + 1
    lastSeen := now }

/-- Rows in order until one names a key that does not exist. -/
def upsertQuotas : List QuotaRow → Db → Db × Option ℕ
  | [], db => (db, some 0)
  | q :: qs, db =>
    if (db.apiKey q.keyHash).isNone then (db, none)
    else
      let (db', n) := upsertQuotas qs
        { db with quotaSnapshots := Table.upsert QuotaRow.keyHash q (fun _ => q) db.quotaSnapshots }
      (db', n.map (· + 1))

/-- `INSERT OR IGNORE`, and nothing at all for a revoked agent. -/
def insertAssignments (agentId : String) (modelIds : List String) (db : Db) : Db :=
  if db.agents.any fun r => r.agentId = agentId ∧ r.revokedAt.isSome then db
  else { db with
    assignments := modelIds.foldl
      (fun rows m => Table.insertIgnore AssignmentRow.key ⟨m, agentId⟩ rows) db.assignments }

end Sql

/-- What a statement does, and its row count. -/
def Write.run : Write → Db → Db × Option ℕ
  | .insertToken h createdAt mode, db =>
    if (db.token h).isSome then (db, none)
    else ({ db with
            enrollmentTokens := db.enrollmentTokens
              ++ [{ tokenHash := h, createdAt := createdAt, mode := mode }] }, some 1)
  | .spendToken h usedAt, db =>
    Sql.updateTokens (fun r => r.tokenHash = h ∧ r.usedAt = none)
      (fun r => { r with usedAt := some usedAt }) db
  | .voidToken h now, db =>
    Sql.updateTokens (fun r => r.tokenHash = h ∧ r.usedAt = none)
      (fun r => { r with usedAt := some now, revokedAt := some now }) db
  | .insertAgent row, db =>
    if (db.agent row.agentId).isSome then (db, none)
    else ({ db with agents := db.agents ++ [row] }, some 1)
  | .revokeAgent a now, db =>
    Sql.updateAgents (·.agentId = a) (fun r => { r with revokedAt := r.revokedAt.or (some now) }) db
  | .insertApiKey row, db =>
    if (db.apiKey row.keyHash).isSome then (db, none)
    else ({ db with apiKeys := db.apiKeys ++ [row] }, some 1)
  | .recordHeartbeat a hb now, db =>
    Sql.updateAgents (·.agentId = a) (Sql.heartbeatRow hb now) db
  | .setAgentState a state now, db =>
    Sql.updateAgents (·.agentId = a) (fun r => { r with state := state, lastSeen := now }) db
  | .presenceEvent a kind sequence now, db =>
    Sql.updateAgents (fun r => r.agentId = a ∧ r.presenceSequence < sequence)
      (Sql.presenceRow kind sequence now) db
  | .bumpGeneration a, db =>
    Sql.updateAgents (·.agentId = a)
      (fun r => { r with presenceGeneration := r.presenceGeneration + 1 }) db
  | .upsertModel row, db =>
    ({ db with
       models := Table.upsert ModelRow.modelId row
         (fun r => { row with createdAt := r.createdAt }) db.models }, some 1)
  | .upsertQuotas rows, db => Sql.upsertQuotas rows db
  | .deleteAssignments a, db =>
    ({ db with assignments := db.assignments.filter (·.agentId ≠ a) },
     some (db.assignments.countP (·.agentId = a)))
  | .insertAssignments a ms, db => (Sql.insertAssignments a ms db, some ms.length)

/-! ### What a statement does to one agent's row -/

def Write.onAgent : Write → AgentRow → AgentRow
  | .revokeAgent a now, r =>
    if r.agentId = a then { r with revokedAt := r.revokedAt.or (some now) } else r
  | .recordHeartbeat a hb now, r => if r.agentId = a then Sql.heartbeatRow hb now r else r
  | .setAgentState a state now, r =>
    if r.agentId = a then { r with state := state, lastSeen := now } else r
  | .presenceEvent a kind sequence now, r =>
    if r.agentId = a ∧ r.presenceSequence < sequence then Sql.presenceRow kind sequence now r else r
  | .bumpGeneration a, r =>
    if r.agentId = a then { r with presenceGeneration := r.presenceGeneration + 1 } else r
  | _, r => r

variable {db : Db} {a : String} {w : Write} {r : AgentRow}

theorem agent_updateAgents (hid : ∀ r, (f r).agentId = r.agentId) :
    (Sql.updateAgents p f db).1.agent a = (db.agent a).map fun r => if p r then f r else r := by
  simp only [Sql.updateAgents, Db.agent]
  rw [get_update fun r _ => hid r]

/-- FRAME: quota snapshots and assignments are tables of their own. -/
theorem upsertQuotas_frame : ∀ (rows : List QuotaRow) (db : Db),
    (Sql.upsertQuotas rows db).1.agents = db.agents ∧
      (Sql.upsertQuotas rows db).1.enrollmentTokens = db.enrollmentTokens
  | [], _ => ⟨rfl, rfl⟩
  | q :: qs, db => by
    unfold Sql.upsertQuotas
    split
    · exact ⟨rfl, rfl⟩
    · exact upsertQuotas_frame qs _

theorem insertAssignments_frame : (Sql.insertAssignments a ms db).agents = db.agents ∧
      (Sql.insertAssignments a ms db).enrollmentTokens = db.enrollmentTokens := by
  unfold Sql.insertAssignments; split <;> exact ⟨rfl, rfl⟩

/-- CORRECT: a statement that inserts no agent takes every row to its `onAgent`. -/
theorem agent_run_map (hw : ∀ row, w ≠ .insertAgent row) (db : Db) (a : String) :
    (w.run db).1.agent a = (db.agent a).map w.onAgent := by
  -- most statements leave the agents alone and have the identity for `onAgent`
  have hagents : ∀ {db' : Db}, db'.agents = db.agents → db'.agent a = (db.agent a).map id := by
    intro db' he; rw [Db.agent, he, Option.map_id]; rfl
  have hupdate : ∀ {p : AgentRow → Bool} {f : AgentRow → AgentRow}, (∀ r, (f r).agentId = r.agentId) →
      (∀ r, w.onAgent r = if p r then f r else r) →
      (Sql.updateAgents p f db).1.agent a = (db.agent a).map w.onAgent := by
    intro p f hid hon
    rw [agent_updateAgents hid, funext hon]
  cases w with
  | insertToken | insertApiKey => simp only [Write.run]; split <;> exact hagents rfl
  | spendToken | voidToken | upsertModel | deleteAssignments => exact hagents rfl
  | upsertQuotas rows => exact hagents (upsertQuotas_frame rows db).1
  | insertAssignments b ms => exact hagents insertAssignments_frame.1
  | insertAgent row => exact absurd rfl (hw row)
  | revokeAgent | recordHeartbeat | setAgentState | presenceEvent | bumpGeneration =>
    exact hupdate (by intro _; rfl) (by intro _; simp [Write.onAgent])

/-- A row that is there stays, changed by `onAgent`. -/
theorem agent_run (w : Write) (h : db.agent a = some r) :
    (w.run db).1.agent a = some (w.onAgent r) := by
  by_cases hw : ∀ row, w ≠ .insertAgent row
  · rw [agent_run_map hw, h, Option.map_some]
  obtain ⟨row, rfl⟩ := not_forall_not.mp hw
  simp only [Write.run]
  split
  · exact h
  · simp only [Db.agent]
    rw [get_append, show Table.get _ db.agents a = some r from h]; rfl

/-- INVARIANT: statements keep the agents' primary key. -/
theorem keyed_run (w : Write) (h : Table.Keyed AgentRow.agentId db.agents) :
    Table.Keyed AgentRow.agentId (w.run db).1.agents := by
  cases w with
  | insertToken | insertApiKey => simp only [Write.run]; split <;> exact h
  | spendToken | voidToken | upsertModel | deleteAssignments => exact h
  | upsertQuotas rows => rw [Write.run, (upsertQuotas_frame rows db).1]; exact h
  | insertAssignments b ms => rw [Write.run, insertAssignments_frame.1]; exact h
  | insertAgent row =>
    simp only [Write.run]
    split
    · exact h
    · rename_i hfree
      exact keyed_append h (Option.not_isSome_iff_eq_none.mp hfree)
  | revokeAgent | recordHeartbeat | setAgentState | presenceEvent | bumpGeneration =>
    exact keyed_update (by intro _ _; rfl) h

/-- No statement changes who a row is about or how the agent is reached. -/
theorem onAgent_transport : (w.onAgent r).transport = r.transport := by
  cases w <;> simp only [Write.onAgent] <;> split <;> rfl

/-! ### What a statement does to one token's row -/

def Write.onToken : Write → TokenRow → TokenRow
  | .spendToken h usedAt, t =>
    if t.tokenHash = h ∧ t.usedAt = none then { t with usedAt := some usedAt } else t
  | .voidToken h now, t =>
    if t.tokenHash = h ∧ t.usedAt = none then { t with usedAt := some now, revokedAt := some now }
    else t
  | _, t => t

/-- CORRECT: a statement adds one fresh token or takes every row to its `onToken`. -/
theorem tokens_run (w : Write) (db : Db) :
    (w.run db).1.enrollmentTokens = db.enrollmentTokens.map w.onToken ∨
      ∃ h createdAt mode, w = .insertToken h createdAt mode ∧ db.token h = none ∧
        (w.run db).1.enrollmentTokens
          = db.enrollmentTokens ++ [{ tokenHash := h, createdAt := createdAt, mode := mode }] := by
  have hsame : ∀ {ts : List TokenRow}, ts = db.enrollmentTokens → ts = db.enrollmentTokens.map id := by
    intro ts he; rw [he, List.map_id]
  cases w with
  | insertToken h createdAt mode =>
    simp only [Write.run]
    split
    · exact .inl (hsame rfl)
    · rename_i hfree
      exact .inr ⟨h, createdAt, mode, rfl, Option.not_isSome_iff_eq_none.mp hfree, rfl⟩
  | insertAgent | insertApiKey => refine .inl ?_; simp only [Write.run]; split <;> exact hsame rfl
  | spendToken | voidToken =>
    exact .inl (List.map_congr_left fun t _ => by simp only [Write.onToken, decide_eq_true_eq])
  | upsertQuotas rows => exact .inl (hsame (upsertQuotas_frame rows db).2)
  | insertAssignments b ms => exact .inl (hsame insertAssignments_frame.2)
  | _ => exact .inl (hsame rfl)

theorem onToken_hash (w : Write) (t : TokenRow) : (w.onToken t).tokenHash = t.tokenHash := by
  cases w <;> simp only [Write.onToken] <;> split <;> rfl

end Fallow.Registry

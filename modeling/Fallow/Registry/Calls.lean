import Fallow.Registry.Ops
import Fallow.Registry.Reads

/-! The registry as its callers see it: one call after another.

    `call` runs a method to its end with nobody in between; what it returns is `none` when it raises.
    The four calls the agent routes make write one statement each, about one agent, so a row after a
    call is that statement's `onAgent` of the row before. -/

namespace Fallow.Registry
open Lib Lib.Txn Prog

/-- An opened registry; `agent_id` is the agents' primary key. -/
structure SqliteRegistry where
  config : RegistryConfig := {}
  db : Db := {}
  keyed : Table.Keyed AgentRow.agentId db.agents

namespace SqliteRegistry

def call (r : SqliteRegistry) (op : Op) : SqliteRegistry × Option Ret :=
  ({ r with
     db := (op.body.alone Write.run r.db r.db).1
     keyed := alone_invariant (fun db => Table.Keyed AgentRow.agentId db.agents)
       (fun w _ => keyed_run w) op.body r.keyed r.keyed },
   (op.body.alone Write.run r.db r.db).2)

def snapshots (r : SqliteRegistry) (now : ℤ) : List AgentSnapshot :=
  Registry.snapshots r.config r.db now

/-- The statement of a call that writes exactly one, about one agent. -/
def writeOf : Op → Option Write
  | .recordHeartbeat a hb now => some (.recordHeartbeat a hb now)
  | .setAgentState a state now => some (.setAgentState a state now)
  | .applyPresenceEvent a kind sequence now =>
    if sequence < 0 then none else some (.presenceEvent a kind sequence now)
  | .bumpPresenceGeneration a => some (.bumpGeneration a)
  | _ => none

variable {op : Op} {w : Write}

/-- The database after such a call is the statement's, whether or not a row matched. -/
theorem call_db (h : writeOf op = some w) (r : SqliteRegistry) :
    (r.call op).1.db = (w.run r.db).1 := by
  have hselect : ∀ a db, ((selectGeneration a).alone Write.run db db).1 = db := by
    intro a db
    simp only [selectGeneration, alone]; split <;> rfl
  -- a statement and its commit, before what writes nothing more
  have hwrite : ∀ w (k : ℕ → RProg), (∀ n db, ((k n).alone Write.run db db).1 = db) →
      (alone Write.run (.exec w (orRaise fun n => .commit (k n))) r.db r.db).1
        = (w.run r.db).1 := by
    intro w k hk
    simp only [alone]
    cases (w.run r.db).2 with
    | none => rfl
    | some n => exact hk n _
  cases op with
  | recordHeartbeat a hb now | setAgentState a state now =>
    cases h
    exact hwrite _ _ fun n db => by split <;> rfl
  | applyPresenceEvent a kind sequence now =>
    simp only [writeOf] at h
    split at h
    · cases h
    rename_i hs
    cases h
    simp only [call, Op.body, applyPresenceEvent, if_neg hs]
    exact hwrite _ _ fun n db => hselect a db
  | bumpPresenceGeneration a =>
    cases h
    refine hwrite _ _ fun n db => ?_
    split
    · rfl
    · exact hselect a db
  | _ => cases h

/-- CORRECT: a row after such a call is the statement's row of the row before. -/
theorem call_agent (h : writeOf op = some w) (r : SqliteRegistry) (b : String) :
    (r.call op).1.db.agent b = (r.db.agent b).map w.onAgent := by
  rw [call_db h]
  refine agent_run_map ?_ r.db b
  rintro row rfl
  cases op with
  | applyPresenceEvent => simp only [writeOf] at h; split at h <;> cases h
  | _ => cases h

/-- The agent such a call is about. -/
def agentOf : Op → Option String
  | .recordHeartbeat a .. | .setAgentState a .. | .applyPresenceEvent a .. | .bumpPresenceGeneration a =>
    some a
  | _ => none

/-- What such a call returns for an agent that has a row: nothing, or the new row's generation. -/
def returnOf (row : AgentRow) : Op → Option Ret
  | .recordHeartbeat .. | .setAgentState .. => some .unit
  | .applyPresenceEvent _ kind sequence now =>
    if sequence < 0 then none
    else some (.generation
      ((Write.presenceEvent row.agentId kind sequence now).onAgent row).presenceGeneration)
  | .bumpPresenceGeneration _ => some (.generation (row.presenceGeneration + 1))
  | _ => none

/-- CORRECT: for an agent that has a row none of the four raises, but for a negative sequence. -/
theorem call_return {r : SqliteRegistry}
    (ha : agentOf op = some a) (hrow : r.db.agent a = some row) :
    (r.call op).2 = returnOf row op := by
  have hone : r.db.agents.countP (fun x => x.agentId = a) = 1 := Table.countP_key r.keyed hrow
  have hid : row.agentId = a := Table.key_of_get hrow
  cases op with
  | recordHeartbeat a' hb now =>
    cases ha
    simp [call, Op.body, recordHeartbeat, alone, Write.run, Sql.updateAgents, orRaise, hone,
      returnOf]
  | setAgentState a' state now =>
    cases ha
    simp [call, Op.body, setAgentState, alone, Write.run, Sql.updateAgents, orRaise, hone, returnOf]
  | applyPresenceEvent a' kind sequence now =>
    obtain rfl := Option.some.inj ha
    by_cases hs : sequence < 0
    · simp only [call, Op.body, applyPresenceEvent, if_pos hs, alone, returnOf]
    have hafter := agent_run (.presenceEvent a' kind sequence now) hrow
    simp only [call, Op.body, applyPresenceEvent, if_neg hs, alone, returnOf]
    rw [show (Write.run (.presenceEvent a' kind sequence now) r.db).2 = some _ from rfl]
    simp only [orRaise, alone, selectGeneration, hafter, hid]
  | bumpPresenceGeneration a' =>
    obtain rfl := Option.some.inj ha
    have hafter := agent_run (.bumpGeneration a') hrow
    have hcount : (Write.run (.bumpGeneration a') r.db).2 = some 1 := by
      simp [Write.run, Sql.updateAgents, hone]
    simp only [call, Op.body, bumpPresenceGeneration, alone, returnOf, hcount, orRaise, ne_eq,
      not_true_eq_false, if_false, selectGeneration, hafter, Write.onAgent, hid, if_true]
  | _ => cases ha

/-- FRAME: the rows of other agents stay, also when the call raises. -/
theorem call_frame (h : agentOf op = some a) (hne : a ≠ b)
    (r : SqliteRegistry) : (r.call op).1.db.agent b = r.db.agent b := by
  have hsame : ∀ w, writeOf op = some w → (∀ x : AgentRow, x.agentId = b → w.onAgent x = x) →
      (r.call op).1.db.agent b = r.db.agent b := by
    intro w hw hx
    rw [call_agent hw]
    cases hr : r.db.agent b with
    | none => rfl
    | some x => rw [Option.map_some, hx x (Table.key_of_get hr)]
  cases op with
  | recordHeartbeat a' hb now | setAgentState a' state now | bumpPresenceGeneration a' =>
    cases h
    exact hsame _ rfl fun x hx => if_neg fun he => hne (he.symm.trans hx)
  | applyPresenceEvent a' kind sequence now =>
    cases h
    by_cases hs : sequence < 0
    · simp only [call, Op.body, applyPresenceEvent, if_pos hs, alone]
    · exact hsame _ (if_neg hs) fun x hx => if_neg fun he => hne (he.1.symm.trans hx)
  | _ => cases h

end SqliteRegistry

end Fallow.Registry

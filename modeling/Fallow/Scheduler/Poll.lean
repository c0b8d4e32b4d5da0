import Fallow.Registry.Reads

/-! Who may lease: the poll gate of `scheduler/poll.py` and the backup choice of
    `scheduler/speculative.py`.

    Fitness is one test on the snapshot. A backup is worth its compute when the holder's modelled
    survival over the unit's runtime is below a threshold; the most endangered unit wins. -/

namespace Fallow.Scheduler
open Registry

def agentIsFit (agent : AgentSnapshot) : Bool :=
  agent.state = .idle ∧ ¬ agent.suspect ∧ ¬ agent.servingPaused

/-- The models of a fit agent, none of an unfit one. -/
def selectForPoll (agent : AgentSnapshot) (modelIds : List String) : List String :=
  if ¬ agentIsFit agent then [] else modelIds

/-! ### Idle survival -/

def minBucketSamples : ℕ := 5

/-- Idle session lengths, ascending, by agent and hour and by agent alone. -/
structure ChurnModel where
  byBucket : String × ℕ → List ℚ
  byAgent : String → List ℚ
  optimisticPrior : ℚ := 9 / 10

/-- How many of an ascending list reach a threshold. -/
def countGe (sortedSamples : List ℚ) (threshold : ℚ) : ℕ :=
  sortedSamples.length - (sortedSamples.takeWhile (· < threshold)).length

/-- The bucket if it is dense enough, else the agent's all-hours pool. -/
def ChurnModel.samplesFor (m : ChurnModel) (agentId : String) (hour : ℕ) : List ℚ :=
  let bucket := m.byBucket (agentId, hour)
  if minBucketSamples ≤ bucket.length then bucket else m.byAgent agentId

def ChurnModel.survival (m : ChurnModel) (agentId : String) (hour : ℕ) (idleAgeS horizonS : ℚ) : ℚ :=
  if horizonS ≤ 0 then 1
  else
    let samples := m.samplesFor agentId hour
    if samples = [] then m.optimisticPrior
    else
      let reachedAge := countGe samples idleAgeS
      if reachedAge = 0 then m.optimisticPrior
      else (countGe samples (idleAgeS + horizonS) : ℚ) / reachedAge

/-! ### The backup choice -/

structure TailUnit where
  workUnitId : String
  holderAgentId : String
  estDurationS : Option ℚ
  deriving DecidableEq, Repr

/-- One turn of the loop of `choose_backup_unit`; ties go to the smaller unit id. -/
def betterBackup (holders : List AgentSnapshot) (churn : ChurnModel) (hour : ℕ)
    (survivalThreshold estUnitDurationS : ℚ) (best : Option (ℚ × String)) (unit : TailUnit) :
    Option (ℚ × String) :=
  match holders.find? (·.agentId = unit.holderAgentId) with
  | none => best
  | some holder =>
    let survival := churn.survival holder.agentId hour holder.userIdleS
      (unit.estDurationS.getD estUnitDurationS)
    if survivalThreshold ≤ survival then best
    else match best with
      | none => some (survival, unit.workUnitId)
      | some (s, u) =>
        if survival < s ∨ survival = s ∧ unit.workUnitId < u then some (survival, unit.workUnitId)
        else best

def chooseBackupUnit (units : List TailUnit) (holders : List AgentSnapshot) (churn : ChurnModel)
    (hour : ℕ) (survivalThreshold estUnitDurationS : ℚ) : Option String :=
  (units.foldl (betterBackup holders churn hour survivalThreshold estUnitDurationS) none).map (·.2)

/-! ### Gate -/

/-- An agent that is not idle leases nothing. -/
theorem selectForPoll_of_not_idle (h : agent.state ≠ .idle)
    (modelIds : List String) : selectForPoll agent modelIds = [] := by
  simp [selectForPoll, agentIsFit, h]

end Fallow.Scheduler

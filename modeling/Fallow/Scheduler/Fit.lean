import Fallow.Registry.Reads

/-! Which models a machine can hold: `scheduler/_eligibility.py` and `scheduler/selection.py`.

    A model fits when its declared minimums are within the free RAM and the roomiest GPU's free VRAM.
    At enrolment nothing has been reported yet, and the declared capacity stands in for both. Of the
    models that fit, a machine with a GPU takes one that uses it, then the largest. -/

namespace Fallow.Scheduler
open Registry List

/-- The manifest fields the fit reads. -/
structure ModelManifest where
  modelId : String
  sizeBytes : ℕ
  minRamMb : ℤ := 0
  minVramMb : ℤ := 0
  deriving DecidableEq, Repr

structure GpuStatus where
  vramFreeMb : ℤ
  deriving DecidableEq, Repr

structure GpuInfo where
  vramMb : ℤ
  deriving DecidableEq, Repr

structure DeviceCaps where
  ramMb : ℕ
  gpus : List GpuInfo := []
  deriving DecidableEq, Repr

/-- The part of an agent's snapshot the fit reads. -/
structure Capacity where
  memAvailableMb : ℕ
  gpus : List GpuStatus
  caps : DeviceCaps
  deriving DecidableEq, Repr

structure FitReport where
  fits : Bool
  requiredVramMb : ℤ
  requiredRamMb : ℤ
  availableVramMb : ℤ
  availableRamMb : ℤ
  deriving DecidableEq, Repr

def agentHasGpu (agent : Capacity) : Bool := 0 < agent.caps.gpus.length

def agentAvailableVramMb (agent : Capacity) : ℤ := (agent.gpus.map (·.vramFreeMb)).max?.getD 0

def modelFit (model : ModelManifest) (agent : Capacity) : FitReport where
  fits := model.minRamMb ≤ agent.memAvailableMb ∧ model.minVramMb ≤ agentAvailableVramMb agent
  requiredVramMb := model.minVramMb
  requiredRamMb := model.minRamMb
  availableVramMb := agentAvailableVramMb agent
  availableRamMb := agent.memAvailableMb

/-- The machine at its declared capacity. -/
def capacitySnapshot (caps : DeviceCaps) : Capacity where
  memAvailableMb := caps.ramMb
  gpus := caps.gpus.map fun g => ⟨g.vramMb⟩
  caps := caps

/-- The order of `_rank`: a GPU model first on a GPU agent, then the larger, then the id. -/
def rankLt (preferGpu : Bool) (a b : ModelManifest) : Bool :=
  let last := fun m : ModelManifest => !(preferGpu && decide (0 < m.minVramMb))
  if last a ≠ last b then last b
  else if a.sizeBytes ≠ b.sizeBytes then b.sizeBytes < a.sizeBytes
  else a.modelId < b.modelId

/-- The first of the least, as `min` picks it. -/
def leastRank (preferGpu : Bool) (best : Option ModelManifest) (m : ModelManifest) :
    Option ModelManifest :=
  match best with
  | none => some m
  | some b => if rankLt preferGpu m b then some m else some b

def selectModelForAgent (agent : Capacity) (models : List ModelManifest) : Option ModelManifest :=
  (models.filter fun m => (modelFit m agent).fits).foldl (leastRank (agentHasGpu agent)) none

variable {c : ModelManifest}

theorem mem_of_foldl_leastRank :
    ∀ {ms : List ModelManifest} {best : Option ModelManifest},
      ms.foldl (leastRank g) best = some c → c ∈ ms ∨ best = some c
  | [], _, h => .inr h
  | m :: ms, best, h => by
    rw [foldl_cons] at h
    rcases mem_of_foldl_leastRank h with hm | hb
    · exact .inl (mem_cons_of_mem _ hm)
    unfold leastRank at hb
    split at hb
    · rw [Option.some.inj hb]; exact .inl mem_cons_self
    · split at hb
      · rw [Option.some.inj hb]; exact .inl mem_cons_self
      · exact .inr hb

/-- CORRECT: a choice is a registered model that fits. -/
theorem selectModelForAgent_fits
    (h : selectModelForAgent agent models = some c) : c ∈ models ∧ (modelFit c agent).fits = true := by
  rcases mem_of_foldl_leastRank h with hm | hb
  · exact mem_filter.mp hm
  · cases hb

end Fallow.Scheduler

import Mathlib

/-! The tables of the replica supervisor and the sections that change them under its lock:
    `go-agent/supervisor/supervisor.go` and its twin `fallow_agent/supervisor/supervisor.py`.

    Children are numbered in the order they are spawned; the tables map a model id to a number. No
    section looks at the number it finds: they all act by model id.

        register ─▶ loading ─▶ ready ─▶ (suspended ⇄ resumed) ─▶ stopped
                                 markCrashed, prune, stopReplica ──┘ -/

namespace Fallow.Supervisor

/-- A Go map or a Python dict with text keys. -/
abbrev Dict (ν : Type) := AList fun _ : String => ν

namespace Dict

variable {ν : Type} {d : Dict ν} {v : ν}

def get (d : Dict ν) (k : String) : Option ν := d.lookup k

def values (d : Dict ν) : List ν := d.entries.map (·.2)

theorem mem_values : v ∈ d.values ↔ ∃ k, d.get k = some v := by
  simp only [Dict.values, List.mem_map]
  constructor
  · rintro ⟨⟨k, w⟩, hm, rfl⟩
    exact ⟨k, AList.mem_lookup_iff.mpr hm⟩
  · rintro ⟨k, hk⟩
    exact ⟨⟨k, v⟩, AList.mem_lookup_iff.mp hk, rfl⟩

theorem get_insert_ne (h : k' ≠ k) : Dict.get (d.insert k v) k' = d.get k' :=
  AList.lookup_insert_ne h

theorem get_insert : Dict.get (d.insert k v) k' = if k' = k then some v else d.get k' := by
  split
  · rename_i h; subst h; exact AList.lookup_insert d
  · rename_i h; exact get_insert_ne h

theorem get_erase : Dict.get (d.erase k) k' = if k' = k then none else d.get k' := by
  split
  · rename_i h; subst h; exact AList.lookup_erase k' d
  · rename_i h; exact AList.lookup_erase_ne h

end Dict

inductive ReplicaState where | loading | ready | suspended | stopped
  deriving DecidableEq, Repr

structure ReplicaStatus where
  modelId : String
  port : ℕ
  state : ReplicaState
  inflight : ℕ
  gpu : Bool
  deriving DecidableEq, Repr

/-- Everything the supervisor's lock guards. `healthDone` is the Go name of the Python table
    `_threads`; only the Python agent ever writes a count other than 0 into `inflight`. -/
structure Tables where
  children : Dict ℕ := ∅
  healthDone : Dict ℕ := ∅
  states : Dict ReplicaState := ∅
  ports : Dict ℕ := ∅
  gpu : Dict Bool := ∅
  inflight : Dict ℕ := ∅
  preSuspend : Dict ReplicaState := ∅
  cached : List ReplicaStatus := []
  deriving DecidableEq

namespace Tables

def status (t : Tables) (modelId : String) (state : ReplicaState) : ReplicaStatus where
  modelId := modelId
  port := (t.ports.get modelId).getD 0
  state := state
  inflight := (t.inflight.get modelId).getD 0
  gpu := (t.gpu.get modelId).getD false

/-- The statuses as the tables have them now. -/
def liveStatuses (t : Tables) : List ReplicaStatus :=
  t.states.entries.map fun e => t.status e.1 e.2

def rebuildCache (t : Tables) : Tables := { t with cached := t.liveStatuses }

/-- Readers get the cached slice. -/
def statuses (t : Tables) : List ReplicaStatus := t.cached

/-- A STOPPED state for a replica that was never registered (no port) is not recorded. -/
def setState (t : Tables) (modelId : String) (state : ReplicaState) : Tables :=
  if t.ports.get modelId = none ∧ state = .stopped then t
  else
    rebuildCache { t with
      states := t.states.insert modelId state
      inflight := if state = .stopped then t.inflight.insert modelId 0 else t.inflight }

def registerChild (t : Tables) (modelId : String) (port : ℕ) (gpu : Bool) (child : ℕ) : Tables :=
  setState { t with
    children := t.children.insert modelId child
    ports := t.ports.insert modelId port
    gpu := t.gpu.insert modelId gpu
    inflight := t.inflight.insert modelId 0 } modelId .loading

/-- The locked part of `StopReplica`; the child and the channel it found are read before. -/
def stopReplica (t : Tables) (modelId : String) : Tables :=
  setState { t with
    children := t.children.erase modelId
    healthDone := t.healthDone.erase modelId
    preSuspend := t.preSuspend.erase modelId } modelId .stopped

def markReady (t : Tables) (modelId : String) : Tables :=
  if t.states.get modelId = some .loading then t.setState modelId .ready else t

/-- The locked part of `markCrashed`; it is given a child and uses its model id only. -/
def markCrashed (t : Tables) (modelId : String) : Tables :=
  let t := { t with
    children := t.children.erase modelId
    preSuspend := t.preSuspend.erase modelId }
  if (t.states.get modelId).isSome then t.setState modelId .stopped else t

/-- The second locked part of `_poll_slots`: the count is kept only for the tracked, ready child. -/
def recordSlots (t : Tables) (modelId : String) (child count : ℕ) : Tables :=
  if t.children.get modelId = some child ∧ t.states.get modelId = some .ready then
    rebuildCache { t with inflight := t.inflight.insert modelId count }
  else t

/-! ### Suspend and resume -/

def transitionSignal (t : Tables) (modelId : String) (current : ReplicaState) (suspend : Bool) :
    Tables :=
  if suspend then
    { t with
      preSuspend :=
        if current = .suspended then t.preSuspend else t.preSuspend.insert modelId current
      states := t.states.insert modelId .suspended }
  else
    { t with
      states := t.states.insert modelId ((t.preSuspend.get modelId).getD current)
      preSuspend := t.preSuspend.erase modelId }

def prune (t : Tables) (modelId : String) : Tables :=
  let t := { t with
    children := t.children.erase modelId
    healthDone := t.healthDone.erase modelId
    preSuspend := t.preSuspend.erase modelId }
  if (t.states.get modelId).isSome then
    { t with
      states := t.states.insert modelId .stopped
      inflight := t.inflight.insert modelId 0 }
  else t

/-- One round of the loop in `commitSignal`. -/
def commitOne (suspend : Bool) (vanished : List String) (t : Tables) (modelId : String) : Tables :=
  if modelId ∈ vanished then t.prune modelId
  else
    match t.states.get modelId with
    | some current => t.transitionSignal modelId current suspend
    | none => t

def commitSignal (t : Tables) (snapshot vanished : List String) (suspend : Bool) : Tables :=
  rebuildCache (snapshot.foldl (commitOne suspend vanished) t)

/-! ### What each section does to the tracked children

    Only `registerChild` adds an entry, and only at the model id it is given. -/

variable {st : ReplicaState} {port c n : ℕ} {gpu suspend : Bool} {van snapshot : List String}

section
variable (t : Tables)
include t

@[simp] theorem children_rebuildCache : t.rebuildCache.children = t.children := rfl

@[simp] theorem states_rebuildCache : t.rebuildCache.states = t.states := rfl

variable {m : String}

@[simp] theorem children_setState : (t.setState m st).children = t.children := by
  unfold setState; split <;> rfl

@[simp] theorem children_registerChild :
    (t.registerChild m port gpu c).children = t.children.insert m c := by
  simp [registerChild]

@[simp] theorem children_stopReplica : (t.stopReplica m).children = t.children.erase m := by
  simp [stopReplica]

@[simp] theorem children_markReady : (t.markReady m).children = t.children := by
  unfold markReady; split <;> simp

@[simp] theorem children_markCrashed : (t.markCrashed m).children = t.children.erase m := by
  simp only [markCrashed]; split <;> simp

@[simp] theorem children_recordSlots : (t.recordSlots m c n).children = t.children := by
  unfold recordSlots; split <;> rfl

theorem children_commitOne : (commitOne suspend van t m).children.get m' =
      if m' = m ∧ m ∈ van then none else t.children.get m' := by
  have hprune : (t.prune m).children = t.children.erase m := by
    simp only [prune]; split <;> rfl
  unfold commitOne
  split
  · rename_i hm
    rw [hprune, Dict.get_erase]
    simp [hm]
  · rename_i hm
    rw [if_neg (fun h => hm h.2)]
    split
    · unfold transitionSignal; split <;> rfl
    · rfl

/-- A commit drops the vanished models of its snapshot, whatever child is tracked for them. -/
theorem children_commitSignal : (t.commitSignal snapshot van suspend).children.get m =
      if m ∈ snapshot ∧ m ∈ van then none else t.children.get m := by
  simp only [commitSignal, children_rebuildCache]
  induction snapshot generalizing t with
  | nil => simp
  | cons m₀ rest ih =>
    rw [List.foldl_cons, ih, children_commitOne]
    by_cases hvan : m ∈ van
    · by_cases heq : m = m₀
      · subst heq; simp [hvan]
      · simp [heq, hvan]
    · have hne : ¬ (m = m₀ ∧ m₀ ∈ van) := by rintro ⟨rfl, h⟩; exact hvan h
      rw [if_neg (fun h => hvan h.2), if_neg hne, if_neg (fun h => hvan h.2)]

end

/-! ### Frames

    No section touches the recorded state of another model. -/

variable {t : Tables} {m m' : String}

section
variable (h : m' ≠ m)
include h

theorem states_setState_ne : (t.setState m st).states.get m' = t.states.get m' := by
  unfold setState
  split
  · rfl
  · exact Dict.get_insert_ne h

theorem states_registerChild_ne : (t.registerChild m port gpu c).states.get m' = t.states.get m' :=
  states_setState_ne h

theorem states_stopReplica_ne : (t.stopReplica m).states.get m' = t.states.get m' :=
  states_setState_ne h

theorem states_markReady_ne : (t.markReady m).states.get m' = t.states.get m' := by
  unfold markReady
  split
  · exact states_setState_ne h
  · rfl

theorem states_markCrashed_ne : (t.markCrashed m).states.get m' = t.states.get m' := by
  simp only [markCrashed]
  split
  · exact states_setState_ne h
  · rfl

omit h in
@[simp] theorem states_recordSlots : (t.recordSlots m c n).states = t.states := by
  unfold recordSlots; split <;> rfl

theorem states_commitOne_ne : (commitOne suspend van t m).states.get m' = t.states.get m' := by
  unfold commitOne
  split
  · simp only [prune]
    split
    · exact Dict.get_insert_ne h
    · rfl
  · split
    · unfold transitionSignal; split <;> exact Dict.get_insert_ne h
    · rfl

end

theorem states_commitSignal_of_notMem (h : m ∉ snapshot) :
    (t.commitSignal snapshot van suspend).states.get m = t.states.get m := by
  simp only [commitSignal, states_rebuildCache]
  induction snapshot generalizing t with
  | nil => rfl
  | cons m₀ rest ih =>
    rw [List.mem_cons, not_or] at h
    rw [List.foldl_cons, ih h.2, states_commitOne_ne h.1]

end Tables
end Fallow.Supervisor

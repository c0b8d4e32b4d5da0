import Fallow.Registry.Reads

/-! Who serves a request: the scheduler policies, live inflight counts and session affinity.

    A policy answers one of the replicas it is handed; that is the one thing routing relies on, so it
    is a field of `Policy`. Around it the app merges live counts into the replicas, which changes an
    endpoint's `inflight` and nothing else. -/

namespace Fallow.Gateway
open Registry List

/-- What the retry loop and the tracker know a replica by. -/
def address (e : ReplicaEndpoint) : String × ℕ := (e.host, e.port)

abbrev EndpointKey := String × String × ℕ × String

def endpointKey (e : ReplicaEndpoint) : EndpointKey := (e.agentId, e.host, e.port, e.modelId)

/-! ### Policies -/

/-- A replica chooser with a state of its own, such as a cursor. -/
structure Policy (σ : Type) where
  pickReplica : σ → String → List ReplicaEndpoint → Option ReplicaEndpoint × σ
  pick_mem : ∀ {c m es e}, (pickReplica c m es).1 = some e → e ∈ es

/-- Least inflight first, ties broken on `host:port`. -/
def endpointSortKey (e : ReplicaEndpoint) : ℕ ×ₗ String :=
  toLex (e.inflight, e.host ++ ":" ++ toString e.port)

def replicasFor (modelId : String) (es : List ReplicaEndpoint) : List ReplicaEndpoint :=
  es.filter (·.modelId = modelId)

/-- `CapabilityScheduler.pick_replica`, which the churn-aware arm shares. -/
def capability : Policy Unit where
  pickReplica _ modelId es := ((replicasFor modelId es).argmin endpointSortKey, ())
  pick_mem h := (mem_filter.mp (argmin_mem (Option.mem_def.mpr h))).1

/-- `RoundRobinScheduler.pick_replica` with its cursor. -/
def roundRobin : Policy ℕ where
  pickReplica cursor modelId es :=
    let candidates := (replicasFor modelId es).mergeSort
      fun a b => decide (endpointSortKey a ≤ endpointSortKey b)
    if candidates.isEmpty then (none, cursor)
    else (candidates[cursor % candidates.length]?, cursor + 1)
  pick_mem := by
    intro c m es e h
    dsimp only at h
    split at h
    · cases h
    · have hmem := mem_of_getElem? h
      rw [mem_mergeSort] at hmem
      exact (mem_filter.mp hmem).1

/-! ### Live counts -/

abbrev Tracker := String × ℕ → ℕ

def Tracker.hold (t : Tracker) (k : String × ℕ) : Tracker := fun k' => if k' = k then t k' + 1 else t k'

def Tracker.release (t : Tracker) (k : String × ℕ) : Tracker := fun k' => if k' = k then t k' - 1 else t k'

def enrich (t : Tracker) (es : List ReplicaEndpoint) : List ReplicaEndpoint :=
  es.map fun e => { e with inflight := max e.inflight (t (address e)) }

/-- The same replicas, counts apart. -/
def Among (e : ReplicaEndpoint) (es : List ReplicaEndpoint) : Prop :=
  ∃ e' ∈ es, endpointKey e = endpointKey e'

variable {e : ReplicaEndpoint} {es : List ReplicaEndpoint} {t : Tracker} {σ : Type} {c : σ}

theorem Among.of_mem (h : e ∈ es) : Among e es :=
  ⟨e, h, rfl⟩

theorem Among.enrich (h : Among e (enrich t es)) : Among e es := by
  obtain ⟨e', he', hk⟩ := h
  obtain ⟨e'', he'', rfl⟩ := mem_map.mp he'
  exact ⟨e'', he'', hk⟩

theorem Among.filter (h : Among e (es.filter p)) : Among e es := by
  obtain ⟨e', he', hk⟩ := h
  exact ⟨e', (mem_filter.mp he').1, hk⟩

/-- The app's pick: live counts first, then the policy. -/
def enrichedPick {σ : Type} (policy : Policy σ) (c : σ) (t : Tracker) (modelId : String)
    (es : List ReplicaEndpoint) : Option ReplicaEndpoint × σ :=
  policy.pickReplica c modelId (enrich t es)

theorem enrichedPick_among

    (h : (enrichedPick policy c t m es).1 = some e) : Among e es :=
  (Among.of_mem (policy.pick_mem h)).enrich

/-! ### Affinity and repick -/

/-- `AffinityMap.resolve` for a session whose entry is `entry`: a healthy mapping is reused, an empty
    pool keeps the mapping and picks nothing, anything else is picked anew. -/
def affinityResolve {σ : Type} (entry : Option EndpointKey) (es : List ReplicaEndpoint) (c : σ)
    (pick : List ReplicaEndpoint → Option ReplicaEndpoint × σ) : Option ReplicaEndpoint × σ :=
  match entry with
  | none => pick es
  | some k => match es.find? (endpointKey · = k) with
    | some e => (some e, c)
    | none => if es.isEmpty then (none, c) else pick es

theorem affinityResolve_among (hpick : ∀ e, (pick es).1 = some e → Among e es)
    (h : (affinityResolve entry es c pick).1 = some e) : Among e es := by
  unfold affinityResolve at h
  split at h
  · exact hpick e h
  split at h
  · rename_i hfind
    cases h
    exact .of_mem (mem_of_find?_eq_some hfind)
  · split at h
    · cases h
    · exact hpick e h

/-- The candidates at addresses no attempt has failed on. -/
def remaining (es : List ReplicaEndpoint) (tried : List (String × ℕ)) : List ReplicaEndpoint :=
  es.filter (address · ∉ tried)

/-! ### Rotation -/

/-- The model's replicas in the order `RoundRobinScheduler` indexes. -/
def rotation (modelId : String) (es : List ReplicaEndpoint) : List EndpointKey :=
  ((replicasFor modelId es).mergeSort
    fun a b => decide (endpointSortKey a ≤ endpointSortKey b)).map endpointKey

/-- What consecutive calls pick; each is handed the replicas with the counts of its moment. -/
def picks (modelId : String) : ℕ → List (List ReplicaEndpoint) → List (Option EndpointKey)
  | _, [] => []
  | cursor, es :: calls =>
    let r := roundRobin.pickReplica cursor modelId es
    r.1.map endpointKey :: picks modelId r.2 calls

variable {modelId : String} {order : List EndpointKey}

/-- One call picks the slot under the cursor and moves it on. -/
theorem pick_rotation (h : rotation modelId es = order) (hne : order ≠ []) :
    ((roundRobin.pickReplica cursor modelId es).1.map endpointKey,
      (roundRobin.pickReplica cursor modelId es).2) = (order[cursor % order.length]?, cursor + 1) := by
  subst h
  rw [rotation, Ne, map_eq_nil_iff] at hne
  simp [rotation, roundRobin, hne]

theorem getElem?_picks (hne : order ≠ []) : ∀ {calls : List (List ReplicaEndpoint)} {cursor i : ℕ},
    (∀ es ∈ calls, rotation modelId es = order) → i < calls.length →
    (picks modelId cursor calls)[i]? = some order[(cursor + i) % order.length]?
  | es :: calls, cursor, i, h, hi => by
    obtain ⟨hpick, hnext⟩ := Prod.mk.inj (pick_rotation (h es mem_cons_self) hne)
    rw [picks, hpick, hnext]
    cases i with
    | zero => rfl
    | succ i =>
      rw [getElem?_cons_succ, getElem?_picks hne (fun es hes => h es (mem_cons_of_mem _ hes))
        (Nat.lt_of_succ_lt_succ hi), Nat.add_right_comm, Nat.add_assoc]

/-- Where every call sees the replicas in one order, any `n` consecutive picks are that order, turned
    to the cursor: each of the `n` replicas once. -/
theorem rotates_in_one_order (order : List EndpointKey) (cursor : ℕ) {calls : List (List ReplicaEndpoint)}
    (h : ∀ es ∈ calls, rotation modelId es = order) (i : ℕ) (hi : i + order.length ≤ calls.length) :
    (((picks modelId cursor calls).drop i).take order.length).Perm (order.map some) := by
  have hturn : ((picks modelId cursor calls).drop i).take order.length =
      (order.map some).rotate (cursor + i) := by
    ext j : 1
    by_cases hj : j < order.length
    · have hne : order ≠ [] := ne_nil_of_length_pos (by omega)
      have hlt : (cursor + (i + j)) % order.length < order.length :=
        Nat.mod_lt _ (length_pos_of_ne_nil hne)
      rw [getElem?_take_of_lt hj, getElem?_drop, getElem?_picks hne h (by omega),
        getElem?_rotate (by simpa using hj), length_map, getElem?_map,
        show j + (cursor + i) = cursor + (i + j) by omega, getElem?_eq_getElem hlt]
      rfl
    · simp [Nat.not_lt.1 hj]
  rw [hturn]
  exact rotate_perm ..

def deskA (inflight : ℕ) : ReplicaEndpoint := ⟨"a", "10.0.0.1", 8001, "qwen", inflight⟩

def deskB (inflight : ℕ) : ReplicaEndpoint := ⟨"b", "10.0.0.2", 8001, "qwen", inflight⟩

theorem rotates_in_one_order_two :
    (((picks "qwen" 1 [[deskA 0, deskB 1], [deskA 1, deskB 2]]).drop 0).take 2).Perm
      (([deskA 0, deskB 0].map endpointKey).map some) := by
  refine rotates_in_one_order ([deskA 0, deskB 0].map endpointKey) 1 ?_ 0 (by decide)
  simp [rotation, replicasFor, deskA, deskB, mergeSort, MergeSort.Internal.splitInTwo,
    endpointSortKey, Prod.Lex.toLex_le_toLex, endpointKey]

/-- The first pick goes to the one desk, its request puts the other in front, and the cursor, now at
    the second place, is at the first desk again. -/
theorem busy_desk_picked_again : picks "qwen" 0 [[deskA 0, deskB 1], [deskA 1, deskB 0]] =
      [some (endpointKey (deskA 0)), some (endpointKey (deskA 0))] := by
  simp [picks, roundRobin, replicasFor, deskA, deskB, mergeSort, MergeSort.Internal.splitInTwo,
    endpointSortKey, Prod.Lex.toLex_le_toLex, endpointKey]

end Fallow.Gateway

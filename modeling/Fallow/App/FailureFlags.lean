import Fallow.App.Gating
import Fallow.Gateway.RelayTransport
import Fallow.Lib.Recent

/-! Failure reports and the one request that reads them.

    A `Site` is the broker, the flags of claims that failed for good, and one gateway request. All
    others, agents, timers and further requests, act on the broker and the flags from outside. A
    report flags its claim first and asks the broker second:

        POST …/failure ──▶ mark (unless retryable) ──▶ broker.fail ──▶ the owner's check

    Claim ids are drawn at random: a path names a claim that has been offered, or no claim at all. -/

namespace Fallow.App.Failure
open Lib Relay Gateway.Transport List Exec Recent

/-- A claim id as a path names it: the id of an offered work, or any other text. -/
inductive ClaimRef where
  | issued (claim : ℕ)
  | other (text : String)
  deriving DecidableEq, Repr

def ClaimRef.Known (b : Broker) : ClaimRef → Prop
  | .issued c => c < b.heap.length
  | .other _ => True

instance (b : Broker) : (ref : ClaimRef) → Decidable (ref.Known b)
  | .issued c => inferInstanceAs (Decidable (c < b.heap.length))
  | .other _ => isTrue trivial

variable {ref : ClaimRef}

theorem ClaimRef.Known.mono (h : ref.Known b)
    (hle : b.heap.length ≤ b'.heap.length) : ref.Known b' := by
  cases ref with
  | issued c => exact Nat.lt_of_lt_of_le h hle
  | other text => trivial

/-! ### Flags -/

/-- Claims that failed with `retryable: false`, newest last. -/
structure RelayFailureFlags where
  ids : List ClaimRef
  nodup : ids.Nodup
  bounded : ids.length ≤ relayFlagsMax

variable {f : RelayFailureFlags} {ref' : ClaimRef}

namespace RelayFailureFlags

def empty : RelayFailureFlags := ⟨[], nodup_nil, Nat.zero_le _⟩

def mark (f : RelayFailureFlags) (ref : ClaimRef) : RelayFailureFlags where
  ids := push relayFlagsMax ref f.ids
  nodup := nodup_push f.nodup
  bounded := length_push_le

def take (f : RelayFailureFlags) (ref : ClaimRef) : Bool × RelayFailureFlags :=
  (ref ∈ f.ids,
    { ids := f.ids.filter (· ≠ ref)
      nodup := f.nodup.filter _
      bounded := (length_filter_le ..).trans f.bounded })

theorem ids_mark : (f.mark ref).ids = push relayFlagsMax ref f.ids := by dsimp only [mark]

theorem mem_mark (h : ref' ∈ (f.mark ref).ids) : ref' = ref ∨ ref' ∈ f.ids := by
  rw [ids_mark] at h
  exact mem_of_mem_push h

end RelayFailureFlags

/-! ### The site -/

/-- The agent's failure report before the first byte. -/
structure RelayFailureBody where
  presenceGeneration : ℕ
  code : String
  retryable : Bool := false
  deriving DecidableEq, Repr

structure Site where
  broker : Broker
  flags : RelayFailureFlags
  request : Gateway.Transport.Request
  /-- no flag is of a claim that has not been offered yet -/
  known : ∀ ref ∈ flags.ids, ref.Known broker

variable {body : RelayFailureBody} {s : Site} {c : ℕ}

namespace Site

/-- `broker.fail`; the check refuses an id that is no claim's. -/
def failAt (b : Broker) (agent : String) (ref : ClaimRef) (body : RelayFailureBody) (now : ℤ) : Broker :=
  match ref with
  | .issued c => (b.fail agent c body.presenceGeneration body.code now).1
  | .other _ => b

theorem stepped_failAt (b : Broker) (agent : String) (ref : ClaimRef) (body : RelayFailureBody)
    (now : ℤ) : Stepped b (failAt b agent ref body now) := by
  cases ref with
  | issued c => exact .step b (.fail agent c body.presenceGeneration body.code now)
  | other text => exact .refl b

def flagged (body : RelayFailureBody) (ref : ClaimRef) (f : RelayFailureFlags) : RelayFailureFlags :=
  if body.retryable then f else f.mark ref

theorem mem_flagged (h : ref' ∈ (flagged body ref f).ids) : ref' = ref ∨ ref' ∈ f.ids := by
  unfold flagged at h
  split at h
  · exact .inr h
  · exact RelayFailureFlags.mem_mark h

/-- `inference_failure` of an authenticated agent. -/
def failure (s : Site) (agent : String) (ref : ClaimRef) (body : RelayFailureBody) (now : ℤ) : Site :=
  if hk : ref.Known s.broker then
    { s with
      broker := failAt s.broker agent ref body now
      flags := flagged body ref s.flags
      known := by
        have hle := (stepped_failAt s.broker agent ref body now).heap_le
        intro ref' hmem
        rcases mem_flagged hmem with rfl | hmem
        · exact hk.mono hle
        · exact (s.known ref' hmem).mono hle }
  else s

/-- Another request takes the flag of its own claim. -/
def take (s : Site) (ref : ClaimRef) : Site :=
  { s with
    flags := (s.flags.take ref).2
    known := fun ref' hmem => s.known ref' (mem_filter.mp hmem).1 }

/-- The request's claim is flagged. -/
def isFlagged (s : Site) : Bool := s.request.exchange.any (.issued · ∈ s.flags.ids)

/-- The flags once the request has, or has not, taken that of its claim. -/
def taken (s : Site) (took : Bool) : RelayFailureFlags :=
  match s.request.exchange with
  | some c => if took then (s.flags.take (.issued c)).2 else s.flags
  | none => s.flags

theorem mem_of_mem_taken (h : ref ∈ (s.taken took).ids) : ref ∈ s.flags.ids := by
  unfold taken at h
  split at h
  · split at h
    · exact (mem_filter.mp h).1
    · exact h
  · exact h

/-- The request is resumed. -/
def own (s : Site) (input : Input) : Site :=
  { broker := (advance s.broker s.isFlagged s.request input).broker
    request := (advance s.broker s.isFlagged s.request input).request
    flags := s.taken (advance s.broker s.isFlagged s.request input).took
    known := fun ref hmem => (s.known ref (mem_of_mem_taken hmem)).mono
      stepped_advance.heap_le }

/-- Agents, timers and further requests act on the broker. -/
def relay (s : Site) (act : Relay.Act) : Site :=
  { s with
    broker := Relay.step s.broker act
    known := fun ref hmem => (s.known ref hmem).mono heap_le_step }

end Site

inductive Act where
  | relay (act : Relay.Act)
  | failure (agent : String) (ref : ClaimRef) (body : RelayFailureBody) (now : ℤ)
  | take (ref : ClaimRef)
  | own (input : Input)
  deriving DecidableEq, Repr

def step (s : Site) : Act → Site
  | .relay act => s.relay act
  | .failure agent ref body now => s.failure agent ref body now
  | .take ref => s.take ref
  | .own input => s.own input

/-! ### Refinements -/

/-- The flags as the coordinator's state keeps them. -/
def ofState (flags : List (ℕ × Unit)) : List ClaimRef := flags.map fun e => .issued e.1

/-- A flag set in the coordinator's state is the flag set here. -/
theorem ofState_recordLast {flags : List (ℕ × Unit)} : ofState (recordLast relayFlagsMax c () flags)
      = push relayFlagsMax (.issued c) (ofState flags) := by
  have hfilter : (ofState flags).filter (· ≠ .issued c)
      = (flags.filter (·.1 ≠ c)).map fun e => .issued e.1 := by
    rw [ofState, filter_map]
    congr 1
    refine filter_congr fun e _ => ?_
    simp
  rw [push, hfilter, ofState, recordLast, List.rtake]
  simp only [map_drop, map_append, map_cons, map_nil, length_append,
    length_map, length_cons, length_nil]

theorem exec_relayMounted {s : CoordinatorState} (h : s.relay.isSome) :
    relayMounted.exec s = (.ok (), s) := by
  rw [relayMounted, exec_bind_ok exec_get, if_neg (by simp [Option.isSome_iff_ne_none.mp h])]
  rfl

/-- REFINES: the coordinator's route does to its broker and its flags what a report does here. -/
theorem inferenceFailure_refines {s : CoordinatorState} {t : Site}
    (hauth : AuthenticatedAs a s req) (hb : s.relay = some t.broker)
    (hflags : t.flags.ids = ofState s.relayFlags) (hc : c < t.broker.heap.length) {s' : CoordinatorState}
    (hs' : s' = ((inferenceFailure a c body.presenceGeneration body.code body.retryable
      req.bearer).exec s).2) :
    s'.relay = some (t.failure a (.issued c) body (s.world.monotonic s.draws)).broker ∧
      (t.failure a (.issued c) body (s.world.monotonic s.draws)).flags.ids
        = ofState s'.relayFlags := by
  have hmounted : relayMounted.exec s = (.ok (), s) := exec_relayMounted (by rw [hb]; rfl)
  have hknown : (ClaimRef.issued c).Known t.broker := hc
  rw [inferenceFailure, exec_bind_ok hmounted, exec_authorizeSelf hauth, if_pos rfl] at hs'
  rw [Site.failure, dif_pos hknown]
  dsimp only [Site.failAt, Site.flagged]
  cases hr : body.retryable with
  | true =>
    have hb' : { s with draws := s.draws + 1 }.relay = some t.broker := hb
    rw [hr, if_neg (by simp), exec_bind_ok exec_draw, exec_bind_ok (exec_callRelay hb' _)] at hs'
    split at hs'
    · subst hs'; exact ⟨rfl, hflags⟩
    · subst hs'; exact ⟨rfl, hflags⟩
  | false =>
    have hmark : (t.flags.mark (.issued c)).ids
        = ofState (recordLast relayFlagsMax c () s.relayFlags) := by
      rw [RelayFailureFlags.ids_mark, hflags, ofState_recordLast]
    rw [hr, if_pos (by simp), exec_bind_ok exec_modify] at hs'
    unfold CoordinatorState.markNonretryable at hs'
    generalize recordLast relayFlagsMax c () s.relayFlags = flags at hs' hmark
    have hb' : { s with relayFlags := flags, draws := s.draws + 1 }.relay = some t.broker := hb
    rw [exec_bind_ok exec_draw, exec_bind_ok (exec_callRelay hb' _)] at hs'
    rw [if_neg Bool.false_ne_true, hmark]
    split at hs'
    · subst hs'; exact ⟨rfl, rfl⟩
    · subst hs'; exact ⟨rfl, rfl⟩

end Fallow.App.Failure

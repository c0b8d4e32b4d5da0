import Fallow.Gateway.Policy
import Fallow.Registry.Ops

/-! Direct dial or relay: the gateway's attempts, cut at their await points.

    A call reads its candidates once, picks, and then, per attempt, asks `site_route` for the picked
    agent and sends on the path the answer names. Registry calls fall anywhere in between.

        begin ─▶ attempt ─▶ resolve ─▶ send ─▶ reply ─▶ done
                    ▲                            │
                    └──────── repick ◀───────────┘          (once)

    `site_route` hides revoked agents, and the gateway reads "no site route" as "direct". So a relayed
    agent revoked between its pick and its resolve is dialed on its registered address. While no
    resolve meets such an agent, none is ever dialed. -/

namespace Fallow.Gateway
open Lib Registry Option

/-- The three places that choose between the two paths. -/
inductive CallSite where | buffered | stream | embed
  deriving DecidableEq, Repr

inductive Via where | direct | relay
  deriving DecidableEq, Repr

/-- The current relay routing facts of a site agent. -/
structure SiteRoute where
  presenceGeneration : ℕ
  deriving DecidableEq, Repr

/-- `_build_site_route_resolver`. -/
def resolveSiteRoute (db : Db) (agentId : String) : Option SiteRoute :=
  match siteRoute db agentId with
  | none => none
  | some (transport, generation) => if transport ≠ .siteRelay then none else some ⟨generation⟩

/-- The answer of one attempt: a status, nothing before the first byte, a relayed failure the agent
    marked final, or an exception that leaves the loop. -/
inductive Reply where
  | status (code : ℕ)
  | unreachable
  | nonretryable
  | raised
  deriving DecidableEq, Repr

inductive Result where
  | acquired (endpoint : ReplicaEndpoint) (status : ℕ) (retried : Bool)
  | noUpstream (retried : Bool)
  | embedded (endpoint : ReplicaEndpoint)
  | retrievalFailed
  | raised
  deriving DecidableEq, Repr

inductive Phase where
  | chosen (endpoint : ReplicaEndpoint)
  | held (endpoint : ReplicaEndpoint)
  | routed (endpoint : ReplicaEndpoint) (route : Option SiteRoute)
  | sent (endpoint : ReplicaEndpoint) (via : Via)
  | streaming (endpoint : ReplicaEndpoint) (status : ℕ)
  | done (result : Result)
  deriving DecidableEq, Repr

/-- One request, with what its loop carries. -/
structure Call where
  site : CallSite
  model : String
  candidates : List ReplicaEndpoint
  tried : List (String × ℕ) := []
  attempts : ℕ := 0
  last5xx : Option (ReplicaEndpoint × ℕ) := none
  phase : Phase
  deriving DecidableEq, Repr

/-- A request on the wire or an offer to the broker. -/
structure Send where
  endpoint : ReplicaEndpoint
  via : Via
  deriving DecidableEq, Repr

/-- The gateway and the registry behind it. -/
structure State (σ : Type) where
  db : Db
  cursor : σ
  tracker : Tracker := fun _ => 0
  calls : ℕ → Option Call := fun _ => none
  sends : List Send := []

inductive Act where
  | registry (op : Registry.Op)
  | begin (i : ℕ) (site : CallSite) (model : String) (entry : Option EndpointKey) (now : ℤ)
  | attempt (i : ℕ)
  | resolve (i : ℕ)
  | send (i : ℕ)
  | reply (i : ℕ) (r : Reply)
  | drain (i : ℕ)
  deriving DecidableEq, Repr

def maxAttempts : ℕ := 2

def maxEmbedAttempts : ℕ := 2

def serverError : ℕ := 500

section
variable {σ : Type} (policy : Policy σ) (cfg : RegistryConfig)

def State.put (s : State σ) (i : ℕ) (call : Call) : State σ :=
  { s with calls := Function.update s.calls i (some call) }

def State.emit (s : State σ) (d : Send) : State σ := { s with sends := s.sends ++ [d] }

/-- Read the candidates and pick; a call without an endpoint is not begun. -/
def beginCall (s : State σ) (i : ℕ) (site : CallSite) (model : String) (entry : Option EndpointKey)
    (now : ℤ) : State σ :=
  let endpoints := replicaEndpoints cfg s.db model now
  match site with
  | .embed => match enrichedPick policy s.cursor s.tracker model endpoints with
    | (none, c) => { s with cursor := c }
    | (some e, c) => { s with cursor := c }.put i
        { site := site, model := model, candidates := endpoints, tried := [address e], attempts := 1,
          phase := .held e }
  | _ =>
    let enriched := enrich s.tracker endpoints
    match affinityResolve entry enriched s.cursor (enrichedPick policy s.cursor s.tracker model) with
    | (none, c) => { s with cursor := c }
    | (some e, c) => { s with cursor := c }.put i
        { site := site, model := model, candidates := enriched, phase := .chosen e }

/-- The loop's exit once the attempts are spent. -/
def exhausted (call : Call) : Result :=
  match call.last5xx with
  | some (e, status) => .acquired e status (1 < call.attempts)
  | none => .noUpstream (1 < call.attempts)

/-- `_run_attempts` after a failed attempt: release, note a 5xx, repick once. -/
def retryAttempt (s : State σ) (i : ℕ) (call : Call) (e : ReplicaEndpoint) (passthrough : Option ℕ) :
    State σ :=
  let call := { call with
    last5xx := match passthrough with
      | some status => some (e, status)
      | none => call.last5xx
    tried := call.tried ++ [address e] }
  let s := { s with tracker := s.tracker.release (address e) }
  if call.attempts < maxAttempts then
    match enrichedPick policy s.cursor s.tracker call.model (remaining call.candidates call.tried) with
    | (none, c) => { s with cursor := c }.put i { call with phase := .done (exhausted call) }
    | (some e', c) =>
      { s with cursor := c, tracker := s.tracker.hold (address e') }.put i
        { call with attempts := call.attempts + 1, phase := .held e' }
  else s.put i { call with phase := .done (exhausted call) }

/-- `embed_query` after a failed attempt. -/
def retryEmbed (s : State σ) (i : ℕ) (call : Call) : State σ :=
  if call.attempts < maxEmbedAttempts then
    match enrichedPick policy s.cursor s.tracker call.model (remaining call.candidates call.tried) with
    | (none, c) => { s with cursor := c }.put i { call with phase := .done .retrievalFailed }
    | (some e', c) =>
      { s with cursor := c }.put i
        { call with tried := call.tried ++ [address e'], attempts := call.attempts + 1,
                    phase := .held e' }
  else s.put i { call with phase := .done .retrievalFailed }

/-- A gateway attempt that committed to its answer; a stream keeps its slot until it drains. -/
def succeed (s : State σ) (i : ℕ) (call : Call) (e : ReplicaEndpoint) (status : ℕ) : State σ :=
  match call.site with
  | .stream => s.put i { call with phase := .streaming e status }
  | _ => { s with tracker := s.tracker.release (address e) }.put i
      { call with phase := .done (.acquired e status (1 < call.attempts)) }

def receive (s : State σ) (i : ℕ) (call : Call) (e : ReplicaEndpoint) (via : Via) :
    Reply → State σ
  | .raised => s.put i { call with phase := .done .raised }
  | .unreachable => match call.site with
    | .embed => retryEmbed policy s i call
    | _ => retryAttempt policy s i call e none
  | .status code => match call.site with
    | .embed =>
      if code = 200 then s.put i { call with phase := .done (.embedded e) }
      else retryEmbed policy s i call
    | _ =>
      if serverError ≤ code then retryAttempt policy s i call e (some code)
      else succeed s i call e code
  -- only the relay reports it, and only the gateway asks for it
  | .nonretryable => match via, call.site with
    | .direct, _ => s
    | .relay, .embed => retryEmbed policy s i call
    | .relay, _ => { s with tracker := s.tracker.release (address e) }.put i
        { call with phase := .done (.acquired e serverError (1 < call.attempts)) }

def State.onCall (s : State σ) (i : ℕ) (f : Call → State σ) : State σ :=
  match s.calls i with
  | some call => f call
  | none => s

def step (s : State σ) : Act → State σ
  | .registry op => { s with db := (op.body.alone Write.run s.db s.db).1 }
  | .begin i site model entry now => match s.calls i with
    | some _ => s
    | none => beginCall policy cfg s i site model entry now
  | .attempt i => s.onCall i fun call => match call.phase with
    | .chosen e =>
      { s with tracker := s.tracker.hold (address e) }.put i
        { call with attempts := 1, phase := .held e }
    | _ => s
  | .resolve i => s.onCall i fun call => match call.phase with
    | .held e => s.put i { call with phase := .routed e (resolveSiteRoute s.db e.agentId) }
    | _ => s
  | .send i => s.onCall i fun call => match call.phase with
    | .routed e route =>
      let via := if route.isSome then Via.relay else .direct
      (s.emit ⟨e, via⟩).put i { call with phase := .sent e via }
    | _ => s
  | .reply i r => s.onCall i fun call => match call.phase with
    | .sent e via => receive policy s i call e via r
    | _ => s
  | .drain i => s.onCall i fun call => match call.phase with
    | .streaming e status =>
      { s with tracker := s.tracker.release (address e) }.put i
        { call with phase := .done (.acquired e status (1 < call.attempts)) }
    | _ => s

end

/-! ### Transports under registry calls -/

/-- A registry that has grown: no agent lost, no transport changed. -/
def Grows (db db' : Db) : Prop := ∀ a t, transportOf db a = some t → transportOf db' a = some t

variable {db db' : Db} {e : ReplicaEndpoint}

/-- FRAME: a registry call keeps the transport of every agent that has a row. -/
theorem grows_op {op : Registry.Op} : Grows db (op.body.alone Write.run db db).1 :=
  fun a t h => Txn.Prog.alone_invariant (fun db => transportOf db a = some t)
    (fun w _ => transportOf_run w) op.body h h

/-! ### What is known of a call -/

def Known (db : Db) (e : ReplicaEndpoint) : Prop := (transportOf db e.agentId).isSome

theorem Known.grows (h : Known db e) (hg : Grows db db') : Known db' e := by
  obtain ⟨t, ht⟩ := isSome_iff_exists.mp h
  exact isSome_iff_exists.mpr ⟨t, hg _ _ ht⟩

theorem Known.among (h : Among e es) (hes : ∀ e ∈ es, Known db e) : Known db e := by
  obtain ⟨e', he', hk⟩ := h
  have ha : e.agentId = e'.agentId := congrArg (·.1) hk
  unfold Known
  rw [ha]; exact hes e' he'

/-- What has been learned about the endpoint a call is at. -/
def PhaseOk (db : Db) : Phase → Prop
  | .chosen e | .held e => Known db e
  | .routed e route => route = none → transportOf db e.agentId = some .direct
  | _ => True

structure CallOk (db : Db) (call : Call) : Prop where
  candidates : ∀ e ∈ call.candidates, Known db e
  phase : PhaseOk db call.phase

theorem CallOk.grows (h : CallOk db call) (hg : Grows db db') : CallOk db' call := by
  refine ⟨fun e he => (h.candidates e he).grows hg, ?_⟩
  have hp := h.phase
  cases hc : call.phase with
  | chosen e | held e => rw [hc] at hp; exact .grows hp hg
  | routed e route => rw [hc] at hp; exact fun hr => hg _ _ (hp hr)
  | _ => trivial

/-- INVARIANT: calls know their endpoints, and whatever was dialed is direct. -/
structure Inv {σ : Type} (s : State σ) : Prop where
  calls : ∀ i call, s.calls i = some call → CallOk s.db call
  dialed : ∀ d ∈ s.sends, d.via = .direct → transportOf s.db d.endpoint.agentId = some .direct

section
variable {σ : Type} {policy : Policy σ} {cfg : RegistryConfig} {s : State σ} {i : ℕ}

variable {call : Call}

section
variable (h : Inv s)
include h

theorem Inv.put (hok : CallOk s.db call) : Inv (s.put i call) := by
  refine ⟨fun j c hj => ?_, h.dialed⟩
  rcases update_eq_some.1 hj with ⟨-, rfl⟩ | ⟨-, hj⟩
  · exact hok
  · exact h.calls j c hj

/-- Neither the policy's state nor the live counts matter. -/
theorem Inv.counts (c : σ) (t : Tracker) : Inv { s with cursor := c, tracker := t } :=
  { h with }

omit h in
theorem known_repick (h : CallOk db call)
    (hpick : (enrichedPick policy c t call.model (remaining call.candidates tried)).1 = some e) :
    Known db e :=
  .among (enrichedPick_among hpick).filter h.candidates

section
variable (hok : CallOk s.db call)
include hok

theorem Inv.retryAttempt (e : ReplicaEndpoint)
    (passthrough : Option ℕ) : Inv (Gateway.retryAttempt policy s i call e passthrough) := by
  simp only [Gateway.retryAttempt]
  split
  · split
    · exact (h.counts _ _).put ⟨hok.candidates, trivial⟩
    · rename_i e' c hpick
      refine (h.counts _ _).put ⟨hok.candidates, ?_⟩
      exact known_repick hok (congrArg (·.1) hpick)
  · exact (h.counts _ _).put ⟨hok.candidates, trivial⟩

theorem Inv.retryEmbed : Inv (Gateway.retryEmbed policy s i call) := by
  simp only [Gateway.retryEmbed]
  split
  · split
    · exact (h.counts _ _).put ⟨hok.candidates, trivial⟩
    · rename_i e' c hpick
      refine (h.counts _ _).put ⟨hok.candidates, ?_⟩
      exact known_repick hok (congrArg (·.1) hpick)
  · exact (h.counts _ _).put ⟨hok.candidates, trivial⟩

theorem Inv.receive (e : ReplicaEndpoint)
    (via : Via) (r : Reply) : Inv (Gateway.receive policy s i call e via r) := by
  have hdone : ∀ r, CallOk s.db { call with phase := .done r } := fun _ => ⟨hok.candidates, trivial⟩
  cases r with
  | raised => exact (h.counts _ _).put (hdone _)
  | unreachable =>
    simp only [Gateway.receive]
    split
    · exact h.retryEmbed hok
    · exact h.retryAttempt hok e none
  | status code =>
    simp only [Gateway.receive]
    split
    · split
      · exact (h.counts _ _).put (hdone _)
      · exact h.retryEmbed hok
    · split
      · exact h.retryAttempt hok e _
      · simp only [Gateway.succeed]
        split
        · exact (h.counts _ _).put ⟨hok.candidates, trivial⟩
        · exact (h.counts _ _).put (hdone _)
  | nonretryable =>
    simp only [Gateway.receive]
    split
    · exact h
    · exact h.retryEmbed hok
    · exact (h.counts _ _).put (hdone _)

end

theorem Inv.begin (site : CallSite) (model : String) (entry : Option EndpointKey)
    (now : ℤ) : Inv (beginCall policy cfg s i site model entry now) := by
  have hknown : ∀ e ∈ replicaEndpoints cfg s.db model now, Known s.db e :=
    fun e he => transportOf_of_mem_replicaEndpoints he
  simp only [beginCall]
  split
  · split
    · exact h.counts _ _
    · rename_i e c hpick
      exact (h.counts _ _).put
        ⟨hknown, Known.among (enrichedPick_among (congrArg (·.1) hpick)) hknown⟩
  · split
    · exact h.counts _ _
    · rename_i e c hpick
      have henriched : ∀ e ∈ enrich s.tracker (replicaEndpoints cfg s.db model now), Known s.db e :=
        fun e he => Known.among (Among.of_mem he).enrich hknown
      exact (h.counts _ _).put ⟨henriched, Known.among
        (affinityResolve_among (fun _ => enrichedPick_among) (congrArg (·.1) hpick)) henriched⟩

theorem Inv.registry (op : Registry.Op) :
    Inv { s with db := (op.body.alone Write.run s.db s.db).1 } :=
  ⟨fun j call hj => (h.calls j call hj).grows grows_op,
   fun d hd hv => grows_op _ _ (h.dialed d hd hv)⟩

end

/-- A live agent without a site route is a direct one. -/
theorem transportOf_of_resolve (hk : Known db e)
    (hlive : ∀ r, db.agent e.agentId = some r → ¬ (r.transport = .siteRelay ∧ r.revokedAt.isSome))
    (hnone : resolveSiteRoute db e.agentId = none) : transportOf db e.agentId = some .direct := by
  obtain ⟨t, ht⟩ := isSome_iff_exists.mp hk
  obtain ⟨r, hr, rfl⟩ := map_eq_some_iff.mp ht
  rw [ht]
  cases htr : r.transport with
  | direct => rfl
  | siteRelay =>
    have hrev : r.revokedAt = none := by
      cases hrev : r.revokedAt with
      | none => rfl
      | some t => exact absurd ⟨htr, by rw [hrev]; rfl⟩ (hlive r hr)
    have hroute : siteRoute db e.agentId = some (r.transport, r.presenceGeneration) := by
      simp [siteRoute, hr, hrev]
    rw [resolveSiteRoute, hroute] at hnone
    simp [htr] at hnone

/-- A resolve does not meet a relayed agent that was revoked since its pick. -/
def ResolvesLive (s : State σ) : Act → Prop
  | .resolve i => ∀ call e r, s.calls i = some call → call.phase = .held e →
      s.db.agent e.agentId = some r → ¬ (r.transport = .siteRelay ∧ r.revokedAt.isSome)
  | _ => True

theorem Inv.step (h : Inv s) (act : Act) (hok : ResolvesLive s act) :
    Inv (Gateway.step policy cfg s act) := by
  have hcall : ∀ j (f : Call → State σ),
      (∀ call, s.calls j = some call → CallOk s.db call → Inv (f call)) → Inv (s.onCall j f) := by
    intro j f hf
    unfold State.onCall
    split
    · rename_i call hj
      exact hf call hj (h.calls j call hj)
    · exact h
  cases act with
  | registry op => exact h.registry op
  | begin j site model entry now =>
    simp only [Gateway.step]
    split
    · exact h
    · exact h.begin site model entry now
  | attempt j =>
    refine hcall j _ fun call _ hc => ?_
    split
    · rename_i e he
      refine (h.counts _ _).put ⟨hc.candidates, ?_⟩
      have := hc.phase
      rw [he] at this; exact this
    · exact h
  | resolve j =>
    refine hcall j _ fun call hj hc => ?_
    split
    · rename_i e he
      refine h.put ⟨hc.candidates, transportOf_of_resolve ?_ fun r => hok call e r hj he⟩
      have := hc.phase
      rw [he] at this; exact this
    · exact h
  | send j =>
    refine hcall j _ fun call _ hc => ?_
    split
    · rename_i e route he
      refine .put (s := s.emit _) ⟨h.calls, forall_mem_concat.2 ⟨h.dialed, fun hv => ?_⟩⟩
        ⟨hc.candidates, trivial⟩
      have hphase := hc.phase
      rw [he] at hphase
      cases route with
      | none => exact hphase rfl
      | some r => exact absurd hv (by simp)
    · exact h
  | reply j r =>
    refine hcall j _ fun call _ hc => ?_
    split
    · exact h.receive hc _ _ r
    · exact h
  | drain j =>
    refine hcall j _ fun call _ hc => ?_
    split
    · exact (h.counts _ _).put ⟨hc.candidates, trivial⟩
    · exact h

end

/-! ### Runs -/

/-- A gateway with no requests yet. -/
def opened {σ : Type} (db : Db) (cursor : σ) : State σ := { db := db, cursor := cursor }

/-- No direct request went to an agent enrolled for the relay: every attempt on one was offered to
    the broker. -/
def NeverDialed {σ : Type} (s : State σ) : Prop :=
  ∀ d ∈ s.sends, ∀ r, s.db.agent d.endpoint.agentId = some r → r.transport = .siteRelay → d.via = .relay

/-- CORRECT: whatever the policy, in every interleaving whose resolves meet no relayed agent revoked
    since its pick, no relayed agent is dialed. -/
theorem site_agents_never_dialed {σ : Type} (policy : Policy σ) (cfg : RegistryConfig) (db : Db)
    (cursor : σ) {s : State σ}
    (h : Reach (step policy cfg) ResolvesLive (opened db cursor) s) : NeverDialed s := by
  have hinv := h.invariant Inv
    ⟨fun _ _ hc => absurd hc (by simp [opened]), fun _ hd => absurd hd (by simp [opened])⟩
    (fun s act hs hok => hs.step act hok)
  intro d hd r hr hrelay
  cases hv : d.via with
  | relay => rfl
  | direct =>
    have := hinv.dialed d hd hv
    rw [transportOf, hr, map_some, hrelay] at this
    cases this

/-! ### A revocation between pick and resolve -/

def deskRequest : RegisterRequest :=
  { protocolVersion := 1, enrollmentTokenHash := "t0", hostname := "desk-3", host := "10.0.0.3",
    capsJson := "", agentId := "desk", deviceTokenHash := "d0" }

def deskBeat : Heartbeat :=
  { seq := 1, state := .idle, replicas := [{ modelId := "qwen", port := 8001, state := .ready }] }

/-- A site agent enrolls and reports a ready replica. -/
def deskUp : List Act :=
  [.registry (.createEnrollmentToken "t0" .site 0), .registry (.registerAgent deskRequest none 0),
   .registry (.recordHeartbeat "desk" deskBeat 1)]

def deskReplica : ReplicaEndpoint :=
  { agentId := "desk", host := "10.0.0.3", port := 8001, modelId := "qwen" }

/-- The request is picked, the agent revoked, and only then its route resolved. -/
def revokedMidway (site : CallSite) : List Act :=
  deskUp ++ [.begin 0 site "qwen" none 2, .registry (.revokeAgent "desk" 3), .attempt 0, .resolve 0,
    .send 0]

def servedByRelay (site : CallSite) : List Act :=
  deskUp ++ [.begin 0 site "qwen" none 2, .attempt 0, .resolve 0, .send 0]

theorem site_agents_never_dialed_relayed :
    (runs (step capability {}) (opened {} ()) (servedByRelay .buffered)).sends
        = [{ endpoint := deskReplica, via := .relay }] ∧
      NeverDialed (runs (step capability {}) (opened {} ()) (servedByRelay .buffered)) := by
  refine ⟨rfl, site_agents_never_dialed capability {} {} () (Admitted.reach _ .start ?_)⟩
  refine ⟨trivial, trivial, trivial, trivial, trivial, ?_, trivial, trivial⟩
  rintro call e r ⟨⟩ ⟨⟩ ⟨⟩ ⟨_, hrev⟩
  cases hrev

theorem revoked_site_agent_dialed :
    (runs (step capability {}) (opened {} ()) (revokedMidway .buffered)).sends
        = [{ endpoint := deskReplica, via := .direct }] ∧
      (runs (step capability {}) (opened {} ()) (revokedMidway .stream)).sends
        = [{ endpoint := deskReplica, via := .direct }] ∧
      (runs (step capability {}) (opened {} ()) (revokedMidway .embed)).sends
        = [{ endpoint := deskReplica, via := .direct }] ∧
      transportOf (runs (step capability {}) (opened {} ()) (revokedMidway .buffered)).db "desk"
        = some .siteRelay :=
  ⟨rfl, rfl, rfl, rfl⟩

end Fallow.Gateway

import Fallow.App.AgentRoutes

/-! One agent's requests and another agent's routing state.

    What gates an agent, its batch leases and its relay fence, is read from two places: its registry
    row and the event overlay. Handlers write the row of the agent in the path, which is the caller;
    the overlay they write for the agent an event's body names, which is whomever the caller likes.

        path agent  ══ caller ═▶ registry row
        body agent  ─────────▶  overlay          not checked

    So an agent can move another agent's gating state, and by nothing but such an event. -/

namespace Fallow.App
open Lib Registry Exec SqliteRegistry

/-- What an agent's gating depends on. -/
def standing (b : String) (s : CoordinatorState) :
    Option AgentRow × RegistryConfig × Option AgentState :=
  (s.registry.db.agent b, s.registry.config, s.overrides.stateFor b)

/-- The snapshot is a function of the agent's standing. -/
theorem snapshotAt_eq : snapshotAt s now b =
      ((s.registry.db.agent b).filter (live s.registry.config now)).map fun r =>
        { rowSnapshot s.registry.config now r with
          state := (s.overrides.stateFor b).getD r.state } := by
  rw [snapshotAt, SqliteRegistry.snapshots, find_snapshots s.registry.keyed]
  cases (s.registry.db.agent b).filter (live s.registry.config now) with
  | none => rfl
  | some r =>
    simp only [Option.map_some]
    cases s.overrides.stateFor b with
    | none => rfl
    | some st =>
      dsimp only
      split
      · rfl
      · rename_i h
        rw [not_not.mp h]; rfl

variable {s : CoordinatorState} {b : String}

theorem snapshotAt_congr (h : standing b s' = standing b s)
    (now : ℤ) : snapshotAt s' now b = snapshotAt s now b := by
  simp only [standing, Prod.mk.injEq] at h
  obtain ⟨hrow, hcfg, hover⟩ := h
  rw [snapshotAt_eq, snapshotAt_eq, hrow, hcfg, hover]

/-! ### What leaves everyone's standing alone -/

section
variable {b a u contentType code : String} {bearer : Option String} {modelIds leasable : List String}
  {timeout : ℚ} {patience attempt c g status : ℕ} {chunks : List Relay.Bytes}
  {res : Queue.WorkResult} {ok retryable : Bool} {α : Type}

theorem frames_draw : Frames (standing b) (draw f) := fun _ => rfl

theorem frames_callQueue : Frames (standing b) (callQueue f) := by
  refine .bind .get fun s => .bind (.modify fun _ => rfl) fun _ => ?_
  cases (f s.queue).2 with
  | ok a => exact .pure a
  | error e => exact .throw _

theorem frames_callRelay : Frames (standing b) (callRelay f) := by
  refine .bind .get fun s => ?_
  cases s.relay with
  | none => exact .throw _
  | some r => exact .bind (.modify fun _ => rfl) fun _ => .pure _

/-- A registry call about another agent. -/
theorem frames_callRegistry (ha : agentOf op = some a) (hne : a ≠ b) :
    Frames (standing b) (callRegistry op) := by
  intro s
  change standing b { s with registry := (s.registry.call op).1 } = standing b s
  simp only [standing, call_frame ha hne]
  rfl

theorem frames_agentSnapshot : Frames (standing b) (agentSnapshot a) :=
  .bind frames_draw fun _ => .bind .get fun _ => .pure _

theorem frames_authenticateAgent : Frames (standing b) (authenticateAgent bearer) := by
  refine .bind .get fun s => ?_
  rcases bearer with _ | h
  · exact .throw _
  dsimp only
  rcases Registry.authenticateAgent s.registry.db h with _ | _ | a
  · exact .throw _
  · exact .throw _
  · exact .pure a

theorem frames_authorizeSelf : Frames (standing b) (authorizeSelf a bearer) := by
  refine .bind frames_authenticateAgent fun caller => ?_
  split
  · exact .throw _
  · exact .pure _

theorem frames_validateHeader : Frames (standing b) (validateHeader ok) := by
  rw [validateHeader]
  split
  · exact .pure _
  · exact .throw _

theorem frames_relayMounted : Frames (standing b) relayMounted := by
  refine .bind .get fun s => ?_
  split
  · exact .throw _
  · exact .pure _

theorem frames_leaseNext : Frames (standing b) (leaseNext a modelIds) :=
  .bind .get fun _ => .bind frames_draw fun _ =>
    .bind frames_draw fun _ => .bind frames_callQueue fun _ => .pure _

theorem frames_tryBackupLease : Frames (standing b) (tryBackupLease a leasable) := by
  refine .bind .get fun s => ?_
  split
  · exact .pure _
  split
  · exact .pure _
  refine .bind frames_callQueue fun candidates => ?_
  split
  · exact .pure _
  refine .bind frames_draw fun _ => .bind frames_draw fun _ => ?_
  dsimp only
  split
  · exact .pure _
  · exact .bind frames_draw fun _ => frames_callQueue

theorem frames_tryLease : Frames (standing b) (tryLease a) := by
  refine .bind frames_agentSnapshot fun snapshot => ?_
  cases snapshot with
  | none => exact .pure _
  | some snapshot =>
    dsimp only
    split
    · exact .pure _
    refine .bind frames_leaseNext fun lease => ?_
    cases lease with
    | none => exact frames_tryBackupLease
    | some lease => exact .pure _

theorem frames_pollUntil :
    ∀ patience : ℕ, Frames (standing b) (pollUntil a deadline patience)
  | 0 => Frames.throw _
  | patience + 1 => by
    refine Frames.bind frames_tryLease fun lease => ?_
    cases lease with
    | some lease => exact Frames.pure _
    | none =>
      refine Frames.bind frames_draw fun now => ?_
      split
      · exact Frames.pure _
      · exact frames_pollUntil patience

theorem frames_longPoll : Frames (standing b) (longPoll a timeout patience) :=
  .bind .get fun _ => .bind frames_draw fun _ => frames_pollUntil patience

theorem frames_putResult : Frames (standing b) (putResult chunks) := by
  refine .bind .get fun s => ?_
  dsimp only
  split
  · exact .throw _
  · split
    · exact .bind (.modify fun _ => rfl) fun _ => .pure _
    · exact .pure _

theorem frames_work : Frames (standing b) (work a timeout patience bearer) :=
  .bind frames_authorizeSelf fun _ => frames_longPoll

theorem frames_result : Frames (standing b) (result a u res attempt bearer) := by
  refine .bind frames_validateHeader fun _ =>
    .bind frames_authorizeSelf fun _ => ?_
  split
  · exact .throw _
  refine .bind frames_draw fun _ => .bind frames_callQueue fun accepted => ?_
  split
  · exact .throw _
  · exact .pure _

theorem frames_payload : Frames (standing b) (payload a u chunks attempt bearer) := by
  refine .bind frames_validateHeader fun _ =>
    .bind frames_authorizeSelf fun _ => .bind .get fun s => ?_
  split
  · exact .throw _
  refine .bind frames_putResult fun digest => .bind frames_draw fun _ =>
    .bind frames_callQueue fun accepted => ?_
  split
  · exact .throw _
  · exact .pure _

theorem frames_unitInput : Frames (standing b) (unitInput u bearer) := by
  refine .bind frames_authenticateAgent fun _ => .bind .get fun s => ?_
  split
  · exact .throw _
  · exact .pure _

theorem frames_inferenceClaim : Frames (standing b) (inferenceClaim a bearer) := by
  refine .bind frames_relayMounted fun _ => .bind frames_authorizeSelf fun _ =>
    .bind .get fun s => ?_
  split
  · exact .throw _
  · refine .bind frames_callRelay fun claimed => ?_
    cases claimed <;> exact .pure _

theorem frames_inferenceResponse :
    Frames (standing b) (inferenceResponse a c g status contentType bearer) := by
  refine .bind frames_relayMounted fun _ => .bind frames_validateHeader fun _ =>
    .bind frames_authorizeSelf fun _ => .bind frames_draw fun _ =>
    .bind frames_callRelay fun started => ?_
  cases started <;> exact .pure _

theorem standing_relayFlags (flags : List (ℕ × Unit)) :
    standing b { s with relayFlags := flags } = standing b s := rfl

theorem frames_inferenceFailure :
    Frames (standing b) (inferenceFailure a c g code retryable bearer) := by
  refine Frames.bind frames_relayMounted fun _ => Frames.bind frames_authorizeSelf fun _ => ?_
  have hfail {k : Except _ Unit → Handler Response} (hk : ∀ r, Frames (standing b) (k r)) :
      Frames (standing b)
        (draw World.monotonic >>= fun m => callRelay (·.fail a c g code m) >>= k) :=
    Frames.bind frames_draw fun _ => Frames.bind frames_callRelay hk
  split
  · refine Frames.bind (Frames.modify fun s => standing_relayFlags _) fun _ => hfail fun r => ?_
    cases r <;> exact Frames.pure _
  · refine hfail fun r => ?_
    cases r <;> exact Frames.pure _

/-- FRAME: apart from heartbeats and events no route touches anyone's standing. -/
theorem frames_handle (hheartbeat : ∀ a hb, req.call ≠ .heartbeat a hb)
    (hevents : ∀ a event, req.call ≠ .events a event) : Frames (standing b) (handle req) := by
  rcases req with ⟨bearer, call⟩
  cases call with
  | heartbeat a hb => exact absurd rfl (hheartbeat a hb)
  | events a event => exact absurd rfl (hevents a event)
  | work a timeout patience => exact frames_work
  | result a u res attempt => exact frames_result
  | payload a u chunks attempt => exact frames_payload
  | unitInput u => exact frames_unitInput
  | inferenceClaim a => exact frames_inferenceClaim
  | inferenceResponse a c g status contentType =>
    exact frames_inferenceResponse
  | inferenceFailure a c g code retryable =>
    exact frames_inferenceFailure

end

/-! ### Heartbeats and events -/

theorem stateFor_apply {o : EventStateOverrides}
    (h : event.agentId = b → isPresence event = false) : (o.apply event).stateFor b = o.stateFor b := by
  by_cases hb : event.agentId = b
  · have hp := of_decide_eq_false (h hb)
    rw [EventStateOverrides.apply, if_neg fun he => hp (.inl he), if_neg fun he => hp (.inr he)]
  · unfold EventStateOverrides.apply EventStateOverrides.stateFor
    split
    · exact Function.update_of_ne (Ne.symm hb) ..
    · split
      · exact Function.update_of_ne (Ne.symm hb) ..
      · rfl

variable {a : String} {event : AgentEvent} {bearer : Option String}

theorem frames_fenceSiteHeartbeat (hne : a ≠ b) : Frames (standing b) (fenceSiteHeartbeat a) := by
  refine .bind .get fun s => ?_
  split
  · exact .pure _
  split
  · exact .pure _
  refine .bind frames_agentSnapshot fun snapshot => ?_
  cases snapshot with
  | none => exact .pure _
  | some snapshot =>
    dsimp only
    split
    · exact .pure _
    refine .bind frames_callRelay fun pending => ?_
    split
    · exact .pure _
    refine .bind (frames_callRegistry rfl hne) fun bumped => ?_
    split
    · exact frames_callRelay
    · exact .throw _

theorem frames_fenceSitePresence (hne : a ≠ b) : Frames (standing b) (fenceSitePresence a event) := by
  refine .bind .get fun s => ?_
  split
  · exact .pure _
  split
  · exact .pure _
  split
  · exact .pure _
  split
  · exact .pure _
  refine .bind frames_draw fun now =>
    .bind (frames_callRegistry rfl hne) fun applied => ?_
  split
  · exact .bind frames_callRelay fun _ => .pure _
  · exact .throw _

theorem frames_pushPresence (hne : a ≠ b) : Frames (standing b) (pushPresence a event) := by
  refine .bind (frames_fenceSitePresence hne) fun handled => ?_
  split
  · refine .bind frames_draw fun now =>
      .bind (frames_callRegistry rfl hne) fun set => ?_
    cases set with
    | none => exact .throw _
    | some _ => exact .pure _
  · exact .pure _

/-- FRAME: a heartbeat on another agent's path. -/
theorem frames_heartbeat (hne : a ≠ b) : Frames (standing b) (heartbeat a hb bearer) := by
  refine .bind frames_authorizeSelf fun _ => .bind frames_draw fun now =>
    .bind (frames_callRegistry rfl hne) fun recorded => ?_
  cases recorded with
  | none => exact .throw _
  | some _ =>
    exact .bind (frames_fenceSiteHeartbeat hne) fun _ =>
      .bind .get fun _ => .pure _

/-- FRAME: an event that is no presence event of this agent, neither by its path nor by its body. -/
theorem frames_events (hne : isPresence event = true → a ≠ b)
    (hspares : event.agentId = b → isPresence event = false) :
    Frames (standing b) (events a event bearer) := by
  have hlog : ∀ s : CoordinatorState,
      standing b { s with events := s.events ++ [event] } = standing b s := fun _ => rfl
  have hover : ∀ s : CoordinatorState,
      standing b { s with overrides := s.overrides.apply event } = standing b s := by
    intro s
    simp only [standing, stateFor_apply hspares]
  refine .bind frames_authorizeSelf fun _ => .bind (.modify hlog) fun _ =>
    .bind (.modify hover) fun _ => ?_
  split
  · rename_i hp
    exact .bind (frames_pushPresence (hne hp)) fun _ => .pure _
  · exact .pure _

/-! ### One request -/

/-- The request carries a device token that belongs to this agent. -/
def AuthenticatedAs (a : String) (s : CoordinatorState) (req : Request) : Prop :=
  ∃ h, req.bearer = some h ∧ Registry.authenticateAgent s.registry.db h = .ok (some a)

variable {req : Request} {α : Type}

/-- A caller gets past `_authorize_self` on its own path and on no other. -/
theorem exec_authorizeSelf
    (hauth : AuthenticatedAs caller s req) (a : String) (k : Unit → Handler α) :
    (authorizeSelf a req.bearer >>= k).exec s = if caller = a then (k ()).exec s
      else (.error ⟨403, "device token does not match agent id"⟩, s) := by
  obtain ⟨h, hb, ha⟩ := hauth
  have hcaller : (authenticateAgent req.bearer).exec s = (.ok caller, s) := by
    rw [authenticateAgent, exec_bind_ok exec_get]
    simp only [hb, ha]
    rfl
  have hself : (authorizeSelf a req.bearer).exec s =
      if caller = a then (.ok (), s)
      else (.error ⟨403, "device token does not match agent id"⟩, s) := by
    rw [authorizeSelf, exec_bind_ok hcaller]
    by_cases he : caller = a
    · rw [if_neg (not_not.mpr he), if_pos he]; rfl
    · rw [if_pos he, if_neg he]; rfl
  by_cases he : caller = a
  · rw [if_pos he] at hself ⊢
    exact exec_bind_ok hself
  · rw [if_neg he] at hself ⊢
    exact exec_bind_error hself

/-- Whoever is not this agent does not get past `_authorize_self` on its path. -/
theorem exec_authorizeSelf_refused (hauth : ¬ AuthenticatedAs a s req) (k : Unit → Handler α) :
    ∃ e, (authorizeSelf a req.bearer >>= k).exec s = (.error e, s) := by
  have hcaller : (∃ e, (authenticateAgent req.bearer).exec s = (.error e, s)) ∨
      ∃ c, AuthenticatedAs c s req := by
    rw [authenticateAgent, exec_bind_ok exec_get]
    cases hb : req.bearer with
    | none => exact .inl ⟨_, rfl⟩
    | some h =>
      rcases ha : Registry.authenticateAgent s.registry.db h with _ | _ | c
      · exact .inl ⟨_, by simp only [ha]; rfl⟩
      · exact .inl ⟨_, by simp only [ha]; rfl⟩
      · exact .inr ⟨c, h, hb, ha⟩
  rcases hcaller with ⟨e, he⟩ | ⟨c, hc⟩
  · exact ⟨e, exec_bind_error (exec_bind_error he)⟩
  · have hne : c ≠ a := by
      rintro rfl; exact hauth hc
    exact ⟨_, by rw [exec_authorizeSelf hc, if_neg hne]⟩

/-- No presence event whose body names `b`. -/
def SparesOverlay (b : String) (req : Request) : Prop :=
  ∀ a event, req.call = .events a event → event.agentId = b → isPresence event = false

/-- FRAME: an agent's request leaves another agent's standing alone, unless it is a presence event
    that names it. -/
theorem standing_request (hne : a ≠ b)
    (hauth : AuthenticatedAs a s req) (hspares : SparesOverlay b req) :
    standing b ((handle req).exec s).2 = standing b s := by
  -- on the other agent's own path the caller is refused, on any other path nothing is written for it
  have hrefused : ∀ {α : Type} (k : Unit → Handler α),
      standing b ((authorizeSelf b req.bearer >>= k).exec s).2 = standing b s := by
    intro α k
    rw [exec_authorizeSelf hauth, if_neg hne]
  by_cases hh : ∃ a' hb, req.call = .heartbeat a' hb
  · obtain ⟨a', hb, hcall⟩ := hh
    simp only [handle, hcall]
    by_cases hb' : a' = b
    · rw [hb']; exact hrefused _
    · exact frames_heartbeat hb' s
  · by_cases he : ∃ a' event, req.call = .events a' event
    · obtain ⟨a', event, hcall⟩ := he
      simp only [handle, hcall]
      by_cases hb' : a' = b
      · rw [hb']; exact hrefused _
      · exact frames_events (fun _ => hb') (hspares a' event hcall) s
    · exact frames_handle (fun a' hb h => hh ⟨a', hb, h⟩) (fun a' event h => he ⟨a', event, h⟩) s

/-! ### Runs -/

/-- Every request of the run is authenticated with a device token of this agent. -/
def By (a : String) (s : CoordinatorState) : Act → Prop
  | .request req => AuthenticatedAs a s req
  | _ => True

def Spares (b : String) : Act → Prop
  | .request req => SparesOverlay b req
  | _ => True

theorem standing_relay :
    standing b { s with relay := relay } = standing b s := rfl

theorem frames_claimAnswer : Frames (standing b) (claimAnswer k) := by
  refine .bind frames_draw fun _ => .bind .get fun s => ?_
  dsimp only
  split
  · split
    · exact .pure _
    · exact .throw _
  · exact .pure _

theorem standing_step (hne : a ≠ b)
    (hby : By a s act) (hspares : Spares b act) : standing b (step s act) = standing b s := by
  cases act with
  | request req => exact standing_request hne hby hspares
  | claimAnswer k => exact frames_claimAnswer s
  | relay act => exact standing_relay

/-- FRAME: whatever one agent requests, another agent's row and snapshot stay, as long as no presence
    event of the run names that other agent. -/
theorem routing_state_isolated {a b : String} (hne : a ≠ b) {s₀ s : CoordinatorState}
    (h : Reach step (fun s act => By a s act ∧ Spares b act) s₀ s) :
    s.registry.db.agent b = s₀.registry.db.agent b ∧
    ∀ now, snapshotAt s now b = snapshotAt s₀ now b := by
  have hsame : standing b s = standing b s₀ := by
    refine h.invariant (fun s => standing b s = standing b s₀) rfl ?_
    rintro s act hs ⟨hby, hspares⟩
    exact (standing_step hne hby hspares).trans hs
  exact ⟨congrArg Prod.fst hsame, snapshotAt_congr hsame⟩

/-! ### Two agents -/

/-- An idle agent seen at time 0, with its token's digest. -/
def idleAgent (agentId deviceTokenHash : String) : AgentRow where
  agentId := agentId
  hostname := agentId
  host := "10.0.0.1"
  capsJson := ""
  deviceTokenHash := deviceTokenHash
  state := .idle
  lastSeen := 0
  registeredAt := 0

def twoAgents : CoordinatorState where
  registry :=
    { db := { agents := [idleAgent "a" "token-a", idleAgent "b" "token-b"] }, keyed := by decide }

/-- An event on one agent's path that says another agent's user has returned. -/
def strangersReturn : Request where
  bearer := some "token-a"
  call := .events "a" { agentId := "b", kind := .userReturned }

/-- The event is accepted and the other agent no longer counts as idle. -/
theorem stranger_moves_gating_state : AuthenticatedAs "a" twoAgents strangersReturn ∧
    (snapshotAt twoAgents 0 "b").map (·.state) = some .idle ∧
    (snapshotAt (step twoAgents (.request strangersReturn)) 0 "b").map (·.state) = some .active := by
  refine ⟨⟨_, rfl, rfl⟩, ?_, ?_⟩
  · rw [snapshotAt_eq]; decide
  · rw [snapshotAt_eq]; rfl

/-- A heartbeat and an event of the agent's own. -/
def ownRequests : List Act :=
  [.request ⟨some "token-a", .heartbeat "a" { agentId := "b", seq := 1, state := .active }⟩,
   .request ⟨some "token-a", .events "a" { agentId := "a", kind := .userIdle }⟩]

/-- They leave the other agent idle, also when the heartbeat's body names it. -/
theorem routing_state_isolated_own :
    (snapshotAt (runs step twoAgents ownRequests) 0 "b").map (·.state) = some .idle := by
  have hreach : Reach step (fun s act => By "a" s act ∧ Spares "b" act) twoAgents
      (runs step twoAgents ownRequests) := by
    refine Admitted.reach ownRequests .start ⟨⟨⟨_, rfl, rfl⟩, ?_⟩, ⟨⟨_, rfl, rfl⟩, ?_⟩, trivial⟩
    · rintro _ _ ⟨⟩
    · rintro _ _ ⟨⟩ h
      exact absurd h (by decide)
  rw [(routing_state_isolated (by decide) hreach).2, snapshotAt_eq]
  decide

end Fallow.App

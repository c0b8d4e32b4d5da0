import Fallow.App.Isolation

/-! The gating state against the newest message an agent got accepted.

    An agent reports its state in two ways, by heartbeats and by presence events. A direct agent's
    messages count in the order they are accepted; a site agent's carry a number, and the highest
    counts. The registry row keeps to that. The overlay does not: an event writes it even when the
    event is stale, and no heartbeat ever does.

        heartbeat ──▶ row             number ≥ fence
        event     ──▶ row             number > fence
             └──────▶ overlay         always

    The gating state is the overlay's where there is one. So it is the newest message's state as long
    as no heartbeat contradicts the overlay and no stale event contradicts the row. -/

namespace Fallow.App
open Lib Registry List Exec SqliteRegistry

/-! ### Messages -/

/-- An accepted report, with its place in a site agent's sequence if it has one. -/
structure Message where
  number : Option ℤ
  state : AgentState
  event : Bool
  deriving DecidableEq, Repr

/-- A message without a number is newer than all before it. A heartbeat may repeat the highest number,
    an event must exceed it. -/
def Message.supersedes (top : ℤ) (m : Message) : Bool :=
  match m.number with
  | none => true
  | some n => if m.event then top < n else top ≤ n

/-- The highest number so far and the newest message. -/
structure Newest where
  top : ℤ := -1
  message : Option Message := none
  deriving DecidableEq, Repr

def Newest.next (x : Newest) (m : Message) : Newest where
  top := max x.top (m.number.getD x.top)
  message := if m.supersedes x.top then some m else x.message

def newest (log : List Message) : Newest := log.foldl Newest.next {}

variable {m : Message}

theorem newest_append : newest (log ++ [m]) = (newest log).next m := by
  rw [newest, foldl_append]; rfl

variable {log : List Message} {α : Type}

/-- Without numbers the newest message is the last. -/
theorem newest_unnumbered (h : ∀ m ∈ log, m.number = none) :
    (newest log).message = log.getLast? := by
  induction log using reverseRecOn with
  | nil => rfl
  | append_singleton log m _ =>
    have hm : m.number = none := h m (by simp)
    rw [newest_append, getLast?_concat]
    simp only [Newest.next, Message.supersedes, hm, if_true]

theorem number_le_top : ∀ m ∈ log, ∀ n, m.number = some n → n ≤ (newest log).top := by
  induction log using reverseRecOn with
  | nil => intro m hm; cases hm
  | append_singleton log m ih =>
    intro m' hm' n hn
    rw [newest_append]
    simp only [Newest.next]
    rcases mem_append.mp hm' with hm' | hm'
    · exact le_max_of_le_left (ih m' hm' n hn)
    · rw [mem_singleton.mp hm'] at hn
      rw [hn]
      exact le_max_right ..

/-- With numbers it carries the highest. -/
theorem newest_numbered (h : ∀ m ∈ log, ∃ n, m.number = some n ∧ 0 ≤ n) (hne : log ≠ []) :
    ∃ m ∈ log, (newest log).message = some m ∧ m.number = some (newest log).top := by
  induction log using reverseRecOn with
  | nil => exact absurd rfl hne
  | append_singleton log m ih =>
    obtain ⟨n, hn, hpos⟩ := h m (by simp)
    rw [newest_append]
    simp only [Newest.next, hn, Option.getD_some]
    by_cases hs : m.supersedes (newest log).top = true
    · -- the new message takes over, so its number is the maximum
      refine ⟨m, by simp, by rw [if_pos hs], ?_⟩
      simp only [Message.supersedes, hn] at hs
      rw [hn, max_eq_right]
      split at hs
      · exact (of_decide_eq_true hs).le
      · exact of_decide_eq_true hs
    · have hlog : log ≠ [] := by
        -- the first number is above the fence a fresh agent has
        rintro rfl
        apply hs
        simp only [Message.supersedes, hn, newest, foldl_nil]
        split <;> exact decide_eq_true (by omega)
      obtain ⟨m', hm', hmsg, hnum⟩ := ih (fun m' hm' => h m' (by simp [hm'])) hlog
      refine ⟨m', by simp [hm'], by rw [if_neg hs, hmsg], ?_⟩
      simp only [Message.supersedes, hn] at hs
      rw [hnum, max_eq_left]
      split at hs
      · exact not_lt.mp fun hlt => hs (decide_eq_true hlt)
      · exact (not_le.mp fun hle => hs (decide_eq_true hle)).le

/-! ### Running the presence handlers -/

theorem exec_draw :
    (draw f).exec s = (.ok (f s.world s.draws), { s with draws := s.draws + 1 }) := rfl

theorem exec_callRegistry (op : Registry.Op) (s : CoordinatorState) : (callRegistry op).exec s =
      (.ok (s.registry.call op).2, { s with registry := (s.registry.call op).1 }) := rfl

variable {s : CoordinatorState} {b : Relay.Broker}

theorem exec_callRelay (h : s.relay = some b) (f : Relay.Broker → Relay.Broker × α) :
    (callRelay f).exec s = (.ok (f b).2, { s with relay := some (f b).1 }) := by
  rw [callRelay, exec_bind_ok exec_get]
  simp only [h]
  rfl

theorem exec_agentSnapshot : (agentSnapshot a).exec s =
      (.ok (snapshotAt s (s.world.now s.draws) a), { s with draws := s.draws + 1 }) := rfl

/-- What the gating state depends on in a row. -/
structure RowGate where
  state : AgentState
  sequence : ℤ
  transport : Transport
  deriving DecidableEq, Repr

def rowGate (r : AgentRow) : RowGate := ⟨r.state, r.presenceSequence, r.transport⟩

/-- The row's part and the overlay's. -/
def gate (a : String) (s : CoordinatorState) : Option RowGate × Option AgentState :=
  ((s.registry.db.agent a).map rowGate, s.overrides.stateFor a)

variable {a : String} {r : AgentRow} {req : Request} {n : ℤ} {bearer : Option String}

section
variable (hrow : s.registry.db.agent a = some r)
include hrow

/-- FRAME: the heartbeat fence ends well and moves at most the generation. -/
theorem exec_fenceSiteHeartbeat :
    ∃ s', (fenceSiteHeartbeat a).exec s = (.ok (), s') ∧ gate a s' = gate a s := by
  rw [fenceSiteHeartbeat, exec_bind_ok exec_get]
  cases hb : s.relay with
  | none => exact ⟨s, rfl, rfl⟩
  | some b =>
    simp only [Option.isNone_some, Bool.false_eq_true, if_false]
    cases Gateway.resolveSiteRoute s.registry.db a with
    | none => exact ⟨s, rfl, rfl⟩
    | some route =>
      rw [exec_bind_ok exec_agentSnapshot]
      cases snapshotAt s (s.world.now s.draws) a with
      | none => exact ⟨_, rfl, rfl⟩
      | some snapshot =>
        dsimp only
        split
        · exact ⟨_, rfl, rfl⟩
        rw [exec_bind_ok (exec_callRelay (s := { s with draws := s.draws + 1 }) hb _)]
        split
        · exact ⟨_, rfl, rfl⟩
        rw [exec_bind_ok (exec_callRegistry _ _)]
        rw [call_return (r := s.registry) rfl hrow]
        refine ⟨_, exec_callRelay rfl _, ?_⟩
        have hw : writeOf (.bumpPresenceGeneration a) = some (.bumpGeneration a) := rfl
        simp only [gate, call_agent hw, hrow, Option.map_some, Write.onAgent]
        split <;> rfl

/-- A heartbeat's effect on the row. -/
def heartbeatGate (hb : Heartbeat) (g : RowGate) : RowGate :=
  { g with
    state := if g.transport = .direct ∨ g.sequence ≤ hb.seq then hb.state else g.state
    sequence := max g.sequence hb.seq }

/-- The state after the registry has the heartbeat and before the fence looks at it. -/
def heartbeatRecorded (a : String) (hb : Heartbeat) (s : CoordinatorState) : CoordinatorState :=
  { s with
    draws := s.draws + 1
    registry := (s.registry.call (.recordHeartbeat a hb (s.world.now s.draws))).1 }

theorem agent_heartbeatRecorded (hb : Heartbeat) :
    (heartbeatRecorded a hb s).registry.db.agent a =
      some (Sql.heartbeatRow hb (s.world.now s.draws) r) := by
  have hw : writeOf (.recordHeartbeat a hb (s.world.now s.draws)) =
    some (.recordHeartbeat a hb (s.world.now s.draws)) := rfl
  rw [heartbeatRecorded, call_agent hw, hrow, Option.map_some, Write.onAgent,
    if_pos (Table.key_of_get hrow)]

omit hrow in
theorem rowGate_heartbeatRow (hb : Heartbeat) :
    rowGate (Sql.heartbeatRow hb now r) = heartbeatGate hb (rowGate r) := by
  by_cases h : r.transport = .direct ∨ r.presenceSequence ≤ hb.seq <;>
    simp [rowGate, Sql.heartbeatRow, heartbeatGate, Sql.heartbeatCurrent, h]

/-- A heartbeat of the agent itself goes through the registry, then the fence. -/
theorem exec_heartbeat (hauth : AuthenticatedAs a s req) (hb : HeartbeatMessage)
    (hfence : (fenceSiteHeartbeat a).exec (heartbeatRecorded a hb.toHeartbeat s) = (.ok (), s')) :
    (heartbeat a hb req.bearer).exec s =
      (.ok ⟨200, .heartbeat (desiredModels a s'.registry.db)⟩, s') := by
  rw [heartbeat, exec_authorizeSelf hauth, if_pos rfl, exec_bind_ok exec_draw,
    exec_bind_ok (exec_callRegistry _ _)]
  rw [call_return (r := s.registry) rfl hrow]
  exact exec_bind_ok hfence

/-! ### Events -/

/-- The state a presence event stands for. -/
def eventState (event : AgentEvent) : AgentState :=
  if event.kind = .userReturned then .active else .idle

/-- The number under which the site fence takes an event, if it does. -/
def eventNumber (s : CoordinatorState) (a : String) (event : AgentEvent) : Option ℤ :=
  if s.relay.isSome ∧ (Gateway.resolveSiteRoute s.registry.db a).isSome then
    (event.detail.lookup "sequence").bind pyInt
  else none

/-- An event's effect on the row. -/
def eventGate (number : Option ℤ) (target : AgentState) (g : RowGate) : RowGate :=
  match number with
  | none => { g with state := target }
  | some n => if 0 ≤ n ∧ g.sequence < n then { g with state := target, sequence := n } else g

omit hrow in
theorem exec_fenceSitePresence_unnumbered
    (h : eventNumber s a event = none) : (fenceSitePresence a event).exec s = (.ok false, s) := by
  rw [fenceSitePresence, exec_bind_ok exec_get]
  cases hb : s.relay with
  | none => rfl
  | some b =>
    cases hr : Gateway.resolveSiteRoute s.registry.db a with
    | none => rfl
    | some route =>
      simp only [eventNumber, hb, hr, Option.isSome_some, and_self, if_true] at h
      cases hl : event.detail.lookup "sequence" with
      | none => rfl
      | some raw =>
        rw [hl, Option.bind_some] at h
        simp only [h]
        rfl

/-- A numbered event reaches the registry, and the broker unless the number is negative. -/
theorem exec_fenceSitePresence_numbered (h : eventNumber s a event = some n) :
    ∃ res s', (fenceSitePresence a event).exec s = (res, s') ∧
      res = (if 0 ≤ n then .ok true else .error internalServerError) ∧
      gate a s' = (some (eventGate (some n) (eventState event) (rowGate r)), s.overrides.stateFor a) := by
  have hon : s.relay.isSome ∧ (Gateway.resolveSiteRoute s.registry.db a).isSome := by
    by_contra hoff
    rw [eventNumber, if_neg hoff] at h; cases h
  rw [eventNumber, if_pos hon] at h
  obtain ⟨raw, hraw, hn⟩ := Option.bind_eq_some_iff.mp h
  obtain ⟨b, hb⟩ := Option.isSome_iff_exists.mp hon.1
  obtain ⟨route, hroute⟩ := Option.isSome_iff_exists.mp hon.2
  rw [fenceSitePresence, exec_bind_ok exec_get]
  simp only [hb, hroute, hraw, hn, Option.isNone_some, Bool.false_eq_true, if_false]
  rw [exec_bind_ok exec_draw, exec_bind_ok (exec_callRegistry _ _)]
  rw [call_return (r := s.registry) rfl hrow]
  have hkind : Sql.presenceState (if event.kind = .userReturned then .userReturned else .userIdle) =
      eventState event := by
    rw [eventState]; split <;> rfl
  by_cases hpos : 0 ≤ n
  · simp only [returnOf, if_neg (not_lt.mpr hpos), if_pos hpos]
    refine ⟨_, _, exec_bind_ok (exec_callRelay (by exact hb) _), rfl, ?_⟩
    have hw : ∀ kind now, writeOf (.applyPresenceEvent a kind n now) =
      some (.presenceEvent a kind n now) := fun _ _ => if_neg (not_lt.mpr hpos)
    simp only [gate, call_agent (hw _ _), hrow, Option.map_some,
      Write.onAgent, Table.key_of_get hrow, true_and, eventGate, rowGate, hpos]
    by_cases hlt : r.presenceSequence < n
    · simp only [if_pos hlt, Sql.presenceRow, hkind]
    · simp only [if_neg hlt]
  · simp only [returnOf, if_pos (not_le.mp hpos), if_neg hpos]
    refine ⟨_, _, rfl, rfl, ?_⟩
    have hsame : ∀ kind now, (s.registry.call (.applyPresenceEvent a kind n now)).1.db = s.registry.db := by
      intro kind now
      simp only [call, Op.body, applyPresenceEvent, if_pos (not_le.mp hpos), Txn.Prog.alone]
    simp only [gate, hsame, hrow, Option.map_some, eventGate, hpos, false_and, if_false]

/-- CORRECT: the row goes where `eventGate` says; a negative number is the only way to fail. -/
theorem exec_pushPresence (event : AgentEvent) :
    ∃ res s', (pushPresence a event).exec s = (res, s') ∧
      res = (if (eventNumber s a event).all (0 ≤ ·) then .ok () else .error internalServerError) ∧
      gate a s' = (some (eventGate (eventNumber s a event) (eventState event) (rowGate r)),
                   s.overrides.stateFor a) := by
  cases hn : eventNumber s a event with
  | none =>
    rw [pushPresence, exec_bind_ok (exec_fenceSitePresence_unnumbered hn)]
    simp only [Bool.false_eq_true, not_false_eq_true, if_true]
    rw [exec_bind_ok exec_draw, exec_bind_ok (exec_callRegistry _ _)]
    rw [call_return (r := s.registry) rfl hrow]
    refine ⟨_, _, rfl, rfl, ?_⟩
    have hw : ∀ st now, writeOf (.setAgentState a st now) =
      some (.setAgentState a st now) := fun _ _ => rfl
    simp only [gate, call_agent (hw _ _), hrow, Option.map_some, Write.onAgent,
      if_pos (Table.key_of_get hrow), eventGate, rowGate, eventState]
  | some n =>
    obtain ⟨res, s', hexec, hres, hgate⟩ := exec_fenceSitePresence_numbered hrow hn
    by_cases hpos : 0 ≤ n
    · rw [if_pos hpos] at hres
      subst hres
      refine ⟨_, s', exec_bind_ok hexec, ?_, hgate⟩
      simp only [Option.all_some, hpos, decide_true, if_true]
    · rw [if_neg hpos] at hres
      subst hres
      refine ⟨_, s', exec_bind_error hexec, ?_, hgate⟩
      simp [hpos]

omit hrow in
theorem stateFor_apply_self (hp : isPresence event = true) (o : EventStateOverrides) :
    (o.apply event).stateFor event.agentId = some (eventState event) := by
  simp only [isPresence, decide_eq_true_eq] at hp
  rcases hp with h | h
  · simp [EventStateOverrides.apply, EventStateOverrides.stateFor, eventState, h]
  · simp [EventStateOverrides.apply, EventStateOverrides.stateFor, eventState, h]

/-- A presence event of the agent itself, about itself: the overlay follows it in any case. -/
theorem exec_events (hauth : AuthenticatedAs a s req) (hp : isPresence event = true)
    (hname : event.agentId = a) :
    ∃ res s', (events a event req.bearer).exec s = (res, s') ∧
      res = (if (eventNumber s a event).all (0 ≤ ·) then .ok ⟨202, .empty⟩
             else .error internalServerError) ∧
      gate a s' = (some (eventGate (eventNumber s a event) (eventState event) (rowGate r)),
                   some (eventState event)) := by
  let applied : CoordinatorState :=
    { s with events := s.events ++ [event], overrides := s.overrides.apply event }
  have hover : applied.overrides.stateFor a = some (eventState event) := by
    rw [← hname]; exact stateFor_apply_self hp s.overrides
  obtain ⟨res, s', hexec, hres, hgate⟩ := exec_pushPresence (s := applied) hrow event
  rw [hover] at hgate
  have hstart : (events a event req.bearer).exec s =
      (pushPresence a event >>= fun _ => return ⟨202, .empty⟩).exec applied := by
    rw [events, exec_authorizeSelf hauth, if_pos rfl, exec_bind_ok exec_modify,
      exec_bind_ok exec_modify, if_pos hp]
  rw [hstart]
  have hnumber : eventNumber applied a event = eventNumber s a event := rfl
  rw [hnumber] at hres hgate
  by_cases hok : (eventNumber s a event).all (0 ≤ ·) = true
  · rw [if_pos hok] at hres
    subst hres
    exact ⟨_, s', exec_bind_ok hexec, by rw [if_pos hok], hgate⟩
  · rw [if_neg hok] at hres
    subst hres
    exact ⟨_, s', exec_bind_error hexec, by rw [if_neg hok], hgate⟩

theorem transport_of_eventNumber (h : eventNumber s a event = some n) :
    r.transport = .siteRelay := by
  by_contra ht
  have hnone : Gateway.resolveSiteRoute s.registry.db a = none := by
    simp only [Gateway.resolveSiteRoute, siteRoute, hrow, Option.filter_some]
    by_cases hrev : r.revokedAt = none
    · simp [hrev, ht]
    · simp [hrev]
  rw [eventNumber, hnone, if_neg (by simp)] at h
  cases h

end

/-! ### The log of accepted messages -/

/-- What a call reports about an agent, numbered where the agent's numbers count. -/
def messageOf (a : String) (s : CoordinatorState) : Call → Option Message
  | .heartbeat a' hb =>
    if a' = a then some
      { number := if transportOf s.registry.db a = some .siteRelay then some hb.seq else none
        state := hb.state, event := false }
    else none
  | .events a' event =>
    if a' = a ∧ isPresence event = true then some
      { number := eventNumber s a event, state := eventState event, event := true }
    else none
  | _ => none

/-- The coordinator with the messages it has accepted from one agent. -/
structure Track where
  state : CoordinatorState
  log : List Message := []

/-- A message is accepted when its request is answered without an error. -/
def Track.step (a : String) (t : Track) : Act → Track
  | .request req => match (handle req).exec t.state with
    | (.ok _, s) => ⟨s, t.log ++ (messageOf a t.state req.call).toList⟩
    | (.error _, s) => ⟨s, t.log⟩
  | act => ⟨App.step t.state act, t.log⟩

/-- The state the overlay and the row make together. -/
def gatingState (s : CoordinatorState) (a : String) : Option AgentState :=
  (s.registry.db.agent a).map fun r => (s.overrides.stateFor a).getD r.state

/-- A heartbeat that takes effect says what the overlay says, if that says anything. A presence event
    names the agent on whose path it comes, and one that is too late for the fence says what the
    agent's state already is. -/
def Agrees (a : String) (s : CoordinatorState) : Act → Prop
  | .request ⟨_, .heartbeat a' hb⟩ => a' = a → ∀ r st, s.registry.db.agent a = some r →
      Sql.heartbeatCurrent hb.toHeartbeat r = true → s.overrides.stateFor a = some st → st = hb.state
  | .request ⟨_, .events a' event⟩ => isPresence event = true → (event.agentId = a ↔ a' = a) ∧
      (a' = a → ∀ r n, s.registry.db.agent a = some r → eventNumber s a event = some n →
        ¬ (0 ≤ n ∧ r.presenceSequence < n) → gatingState s a = some (eventState event))
  | _ => True

/-! ### The invariant -/

/-- What links the row, the overlay and the log. -/
structure Tracks (g : RowGate) (overlay : Option AgentState) (log : List Message) : Prop where
  /-- a site agent's fence is the highest number seen -/
  fence : g.transport = .siteRelay → g.sequence = (newest log).top
  row : ∀ m, (newest log).message = some m → g.state = m.state
  overlay : ∀ st, overlay = some st → st = g.state
  /-- a direct agent's messages are not numbered -/
  direct : g.transport = .direct → ∀ m ∈ log, m.number = none
  numbers : ∀ m ∈ log, ∀ n, m.number = some n → 0 ≤ n

section
variable {g : RowGate} {overlay : Option AgentState} {log : List Message}

section
variable (h : Tracks g overlay log) {target : AgentState}
include h

/-- INVARIANT: a heartbeat that agrees with the overlay, or is behind the fence. -/
theorem Tracks.heartbeat (hb : Heartbeat)
    (hagrees : g.transport = .direct ∨ g.sequence ≤ hb.seq → ∀ st, overlay = some st → st = hb.state) :
    Tracks (heartbeatGate hb g) overlay
      (log ++ [⟨if g.transport = .siteRelay then some hb.seq else none, hb.state, false⟩]) := by
  have hcurrent : Message.supersedes (newest log).top
      ⟨if g.transport = .siteRelay then some hb.seq else none, hb.state, false⟩ =
      decide (g.transport = .direct ∨ g.sequence ≤ hb.seq) := by
    cases ht : g.transport with
    | direct => simp [Message.supersedes]
    | siteRelay => simp [Message.supersedes, h.fence ht]
  refine ⟨?_, ?_, ?_, ?_, ?_⟩
  · intro ht
    have ht' : g.transport = .siteRelay := ht
    rw [newest_append]
    simp only [heartbeatGate, Newest.next, ht', if_true, Option.getD_some, h.fence ht']
  · intro m hm
    rw [newest_append, Newest.next, hcurrent] at hm
    simp only [decide_eq_true_eq] at hm
    simp only [heartbeatGate]
    split at hm
    · rename_i hc
      rw [if_pos hc, ← Option.some.inj hm]
    · rename_i hc
      rw [if_neg hc]
      exact h.row m hm
  · intro st hst
    simp only [heartbeatGate]
    split
    · rename_i hc
      exact hagrees hc st hst
    · exact h.overlay st hst
  · intro ht
    have ht' : g.transport = .direct := ht
    exact forall_mem_concat.2 ⟨h.direct ht', by rw [ht']; rfl⟩
  · refine forall_mem_concat.2 ⟨h.numbers, fun n hn => ?_⟩
    split at hn
    · rw [← Option.some.inj hn]; exact Int.natCast_nonneg _
    · cases hn

/-- The overlay adds nothing to the row. -/
theorem Tracks.gating : overlay.getD g.state = g.state := by
  cases ho : overlay with
  | none => rfl
  | some st => exact h.overlay st ho

/-- INVARIANT: a presence event that moves the fence or has no number, or says what is known. -/
theorem Tracks.event (hsite : ∀ n, number = some n → g.transport = .siteRelay)
    (hpos : ∀ n, number = some n → 0 ≤ n)
    (hlate : ∀ n, number = some n → ¬ (0 ≤ n ∧ g.sequence < n) → overlay.getD g.state = target) :
    Tracks (eventGate number target g) (some target) (log ++ [⟨number, target, true⟩]) := by
  have hlog : ∀ m ∈ log ++ [⟨number, target, true⟩], ∀ n, m.number = some n → 0 ≤ n :=
    forall_mem_concat.2 ⟨h.numbers, hpos⟩
  have hdirect : g.transport = .direct →
      ∀ m ∈ log ++ [⟨number, target, true⟩], m.number = none := by
    intro ht
    refine forall_mem_concat.2 ⟨h.direct ht, ?_⟩
    cases hn : number with
    | none => rfl
    | some n => rw [hsite n hn] at ht; cases ht
  cases hn : number with
  | none =>
    subst hn
    refine ⟨?_, ?_, ?_, hdirect, hlog⟩
    · intro ht
      rw [newest_append]
      simp only [Newest.next, Option.getD_none, max_self]
      exact h.fence ht
    · intro m hm
      rw [newest_append] at hm
      rw [← Option.some.inj hm]; rfl
    · intro st hst
      exact (Option.some.inj hst).symm
  | some n =>
    subst hn
    have hfence := h.fence (hsite n rfl)
    have hn0 := hpos n rfl
    by_cases hlt : g.sequence < n
    · -- the event moves the fence: row, overlay and newest message are the event's
      have hg : eventGate (some n) target g = { g with state := target, sequence := n } :=
        if_pos ⟨hn0, hlt⟩
      rw [hg]
      refine ⟨?_, ?_, ?_, hdirect, hlog⟩
      · intro _
        rw [newest_append]
        simp only [Newest.next, Option.getD_some, ← hfence]
        omega
      · intro m hm
        rw [newest_append] at hm
        simp only [Newest.next, Message.supersedes, if_true, ← hfence, hlt, decide_true] at hm
        rw [← Option.some.inj hm]
      · intro st hst
        exact (Option.some.inj hst).symm
    · -- the event is late: nothing moves, and it says what the row says
      have hg : eventGate (some n) target g = g := if_neg fun hc => hlt hc.2
      have htarget : g.state = target := by
        rw [← h.gating]; exact hlate n rfl fun hc => hlt hc.2
      rw [hg]
      refine ⟨?_, ?_, ?_, hdirect, hlog⟩
      · intro _
        rw [newest_append]
        simp only [Newest.next, Option.getD_some, ← hfence]
        omega
      · intro m hm
        rw [newest_append] at hm
        simp only [Newest.next, Message.supersedes, if_true, ← hfence, hlt, decide_false,
          Bool.false_eq_true, if_false] at hm
        exact h.row m hm
      · intro st hst
        rw [htarget]; exact (Option.some.inj hst).symm

/-- A refused event that says what is known. -/
theorem Tracks.overwrite (hknown : overlay.getD g.state = target) : Tracks g (some target) log := by
  refine ⟨h.fence, h.row, ?_, h.direct, h.numbers⟩
  intro st hst
  rw [← h.gating, hknown]; exact (Option.some.inj hst).symm

end

end

/-! ### Steps -/

def Tracked (a : String) (t : Track) : Prop :=
  ∃ r, t.state.registry.db.agent a = some r ∧
    Tracks (rowGate r) (t.state.overrides.stateFor a) t.log

section
variable {a : String} {t : Track} {s : CoordinatorState}

theorem tracked_of_gate
    (hgate : gate a s = (some g, overlay)) (h : Tracks g overlay log) : Tracked a ⟨s, log⟩ := by
  simp only [gate, Prod.mk.injEq, Option.map_eq_some_iff] at hgate
  obtain ⟨⟨r, hr, rfl⟩, rfl⟩ := hgate
  exact ⟨r, hr, h⟩

theorem Tracked.of_standing (h : Tracked a t) (hs : standing a s = standing a t.state) :
    Tracked a ⟨s, t.log⟩ := by
  obtain ⟨r, hr, htracks⟩ := h
  simp only [standing, Prod.mk.injEq] at hs
  refine ⟨r, hs.1.trans hr, ?_⟩
  rw [hs.2.2]
  exact htracks

variable {req : Request}

theorem step_ok (h : (handle req).exec t.state = (.ok response, s)) :
    t.step a (.request req) = ⟨s, t.log ++ (messageOf a t.state req.call).toList⟩ := by
  simp only [Track.step, h]

theorem step_error (h : (handle req).exec t.state = (.error e, s)) :
    t.step a (.request req) = ⟨s, t.log⟩ := by
  simp only [Track.step, h]

/-- A request that reports nothing and leaves the agent's standing alone. -/
theorem Tracked.unaffected (h : Tracked a t)
    (hframe : standing a ((handle req).exec t.state).2 = standing a t.state)
    (hmsg : messageOf a t.state req.call = none) : Tracked a (t.step a (.request req)) := by
  rcases hx : (handle req).exec t.state with ⟨_ | response, s⟩ <;> rw [hx] at hframe
  · rw [step_error hx]; exact h.of_standing hframe
  · rw [step_ok hx, hmsg, Option.toList_none, append_nil]; exact h.of_standing hframe

theorem Tracked.heartbeat (h : Tracked a t) (bearer : Option String) (a' : String)
    (hb : HeartbeatMessage) (hagrees : Agrees a t.state (.request ⟨bearer, .heartbeat a' hb⟩)) :
    Tracked a (t.step a (.request ⟨bearer, .heartbeat a' hb⟩)) := by
  by_cases ha : a' = a
  · subst ha
    by_cases hauth : AuthenticatedAs a' t.state ⟨bearer, .heartbeat a' hb⟩
    · obtain ⟨r, hr, htracks⟩ := h
      obtain ⟨s', hfence, hgate⟩ :=
        exec_fenceSiteHeartbeat (agent_heartbeatRecorded hr hb.toHeartbeat)
      have hsite : (transportOf t.state.registry.db a' = some .siteRelay) =
          ((rowGate r).transport = .siteRelay) := by
        simp [transportOf, hr, rowGate]
      have hexec : (handle ⟨bearer, .heartbeat a' hb⟩).exec t.state = _ :=
        exec_heartbeat hr hauth hb hfence
      rw [step_ok hexec]
      have hgate' : gate a' s' =
          (some (heartbeatGate hb.toHeartbeat (rowGate r)), t.state.overrides.stateFor a') := by
        rw [hgate, gate, agent_heartbeatRecorded hr, Option.map_some, rowGate_heartbeatRow]
        rfl
      refine tracked_of_gate hgate' ?_
      simp only [messageOf, if_true, hsite, Option.toList_some]
      refine htracks.heartbeat hb.toHeartbeat fun hcurrent st hst => ?_
      exact hagrees rfl r st hr (decide_eq_true hcurrent) hst
    · obtain ⟨e, he⟩ := exec_authorizeSelf_refused hauth _
      rw [step_error he]
      exact h
  · refine h.unaffected (frames_heartbeat ha t.state) ?_
    simp only [messageOf, ha, if_false]

theorem Tracked.events (h : Tracked a t) (bearer : Option String) (a' : String) (event : AgentEvent)
    (hagrees : Agrees a t.state (.request ⟨bearer, .events a' event⟩)) :
    Tracked a (t.step a (.request ⟨bearer, .events a' event⟩)) := by
  cases hp : isPresence event with
  | false =>
    refine h.unaffected (frames_events (by simp [hp]) (fun _ => hp) t.state) ?_
    simp [messageOf, hp]
  | true =>
    obtain ⟨hname, hlate⟩ := hagrees hp
    by_cases ha : a' = a
    · subst ha
      by_cases hauth : AuthenticatedAs a' t.state ⟨bearer, .events a' event⟩
      · obtain ⟨r, hr, htracks⟩ := h
        obtain ⟨res, s', hexec', hres, hgate⟩ := exec_events hr hauth hp (hname.mpr rfl)
        have hexec : (handle ⟨bearer, .events a' event⟩).exec t.state = (res, s') := hexec'
        have hknown : ∀ n, eventNumber t.state a' event = some n →
            ¬ (0 ≤ n ∧ (rowGate r).sequence < n) →
            (t.state.overrides.stateFor a').getD (rowGate r).state = eventState event := by
          intro n hn hc
          have := hlate rfl r n hr hn hc
          rw [gatingState, hr, Option.map_some] at this
          exact Option.some.inj this
        by_cases hok : (eventNumber t.state a' event).all (0 ≤ ·) = true
        · rw [if_pos hok] at hres
          subst hres
          rw [step_ok hexec]
          refine tracked_of_gate hgate ?_
          simp only [messageOf, hp, and_self, if_true, Option.toList_some]
          refine htracks.event (fun n hn => transport_of_eventNumber hr hn) ?_ hknown
          intro n hn
          rw [hn, Option.all_some, decide_eq_true_eq] at hok
          exact hok
        · rw [if_neg hok] at hres
          subst hres
          rw [step_error hexec]
          -- a negative number: the row stays, the overlay is written all the same
          obtain ⟨n, hn, hneg⟩ : ∃ n, eventNumber t.state a' event = some n ∧ ¬ 0 ≤ n := by
            cases hn : eventNumber t.state a' event with
            | none => rw [hn] at hok; exact absurd rfl hok
            | some n => exact ⟨n, rfl, fun h0 => hok (by rw [hn, Option.all_some, decide_eq_true h0])⟩
          have hsame : eventGate (some n) (eventState event) (rowGate r) = rowGate r :=
            if_neg fun hc => hneg hc.1
          rw [hn, hsame] at hgate
          exact tracked_of_gate hgate (htracks.overwrite (hknown n hn fun hc => hneg hc.1))
      · obtain ⟨e, he⟩ := exec_authorizeSelf_refused hauth _
        rw [step_error he]
        exact h
    · refine h.unaffected (frames_events (fun _ => ha) (fun he => absurd (hname.mp he) ha)
        t.state) ?_
      simp [messageOf, ha]

/-- INVARIANT: every step that agrees keeps row, overlay and log together. -/
theorem Tracked.step (h : Tracked a t) (hagrees : Agrees a t.state act) :
    Tracked a (t.step a act) := by
  cases act with
  | claimAnswer k => exact h.of_standing (frames_claimAnswer t.state)
  | relay act => exact h.of_standing standing_relay
  | request req =>
    rcases req with ⟨bearer, call⟩
    cases call with
    | heartbeat a' hb => exact h.heartbeat bearer a' hb hagrees
    | events a' event => exact h.events bearer a' event hagrees
    | _ => exact h.unaffected (frames_handle (by rintro _ _ ⟨⟩) (by rintro _ _ ⟨⟩) t.state) rfl

end

/-! ### What the gate decides -/

/-- The agent is not idle at any time it has a snapshot. -/
def NeverIdle (a : String) (s : CoordinatorState) : Prop :=
  ∀ now snapshot, snapshotAt s now a = some snapshot → snapshot.state ≠ .idle

theorem exec_tryLease (h : NeverIdle a s) :
    (tryLease a).exec s = (.ok none, { s with draws := s.draws + 1 }) := by
  rw [tryLease, exec_bind_ok exec_agentSnapshot]
  cases hs : snapshotAt s (s.world.now s.draws) a with
  | none => rfl
  | some snapshot =>
    simp only [Scheduler.selectForPoll_of_not_idle (h _ snapshot hs), if_true]
    rfl

/-- The loop grants nothing, however long the client waits. -/
theorem exec_pollUntil : ∀ (patience : ℕ) {s : CoordinatorState},
    NeverIdle a s → (∀ lease, ((pollUntil a deadline patience).exec s).1 ≠ .ok ⟨200, .lease lease⟩) ∧
      ((pollUntil a deadline patience).exec s).2.queue = s.queue
  | 0, s, _ => ⟨fun _ => nofun, rfl⟩
  | patience + 1, s, h => by
    rw [pollUntil, exec_bind_ok (exec_tryLease h), exec_bind_ok exec_draw]
    split
    · exact ⟨fun _ => nofun, rfl⟩
    · have hnext : NeverIdle a { s with draws := s.draws + 1 + 1 } := h
      exact exec_pollUntil patience hnext

/-- CORRECT: while an agent is not idle, its work poll grants no lease and leaves the queue alone. -/
theorem work_of_neverIdle (h : NeverIdle a s) :
    (∀ lease, ((work a timeout patience bearer).exec s).1 ≠ .ok ⟨200, .lease lease⟩) ∧
      ((work a timeout patience bearer).exec s).2.queue = s.queue := by
  by_cases hauth : AuthenticatedAs a s ⟨bearer, .work a timeout patience⟩
  · have hself := exec_authorizeSelf hauth a fun _ => longPoll a timeout patience
    rw [if_pos rfl] at hself
    rw [work, hself, longPoll, exec_bind_ok exec_get, exec_bind_ok exec_draw]
    exact exec_pollUntil patience (s := { s with draws := s.draws + 1 }) h
  · obtain ⟨e, he⟩ := exec_authorizeSelf_refused hauth fun _ => longPoll a timeout patience
    rw [work, he]
    exact ⟨fun _ => nofun, rfl⟩

/-- CORRECT: an ineligible site agent with pending relay work is fenced one generation up. -/
theorem exec_fenceSiteHeartbeat_ineligible (hrow : s.registry.db.agent a = some r)
    (hsite : r.transport = .siteRelay) (hlive : r.revokedAt = none) (hb : s.relay = some b)
    (hsnap : snapshotAt s (s.world.now s.draws) a = some snapshot) (hstate : snapshot.state ≠ .idle)
    (hpending : b.hasPending a = true) : ∃ s', (fenceSiteHeartbeat a).exec s = (.ok (), s') ∧
      s'.relay = some (b.invalidateAgent a (r.presenceGeneration + 1) "heartbeat_paused") := by
  have hroute : Gateway.resolveSiteRoute s.registry.db a = some ⟨r.presenceGeneration⟩ := by
    simp [Gateway.resolveSiteRoute, siteRoute, hrow, Option.filter_some, hlive, hsite]
  rw [fenceSiteHeartbeat, exec_bind_ok exec_get]
  simp only [hb, hroute, Option.isNone_some, Bool.false_eq_true, if_false]
  rw [exec_bind_ok exec_agentSnapshot]
  simp only [hsnap, hstate, false_and, if_false]
  rw [exec_bind_ok (exec_callRelay (s := { s with draws := s.draws + 1 }) hb _)]
  simp only [hpending, not_true_eq_false, if_false]
  rw [exec_bind_ok (exec_callRegistry _ _)]
  rw [call_return (r := s.registry) rfl hrow]
  exact ⟨_, exec_callRelay rfl _, rfl⟩

/-! ### Runs -/

/-- An agent nothing has been heard of yet. -/
def Enrolled (a : String) (s : CoordinatorState) : Prop :=
  (∃ r, s.registry.db.agent a = some r ∧ r.presenceSequence = -1) ∧ s.overrides.stateFor a = none

/-- The gating state is that of the newest accepted message, and what follows from it. -/
structure GatedByNewest (a : String) (t : Track) : Prop where
  /-- whenever the agent is neither revoked nor offline -/
  state : ∀ m, (newest t.log).message = some m → ∀ now,
    (snapshotAt t.state now a).map (·.state) =
      ((t.state.registry.db.agent a).filter (live t.state.registry.config now)).map fun _ => m.state
  last : transportOf t.state.registry.db a = some .direct →
    (newest t.log).message = t.log.getLast?
  highest : (∀ m ∈ t.log, m.number.isSome) → t.log ≠ [] →
    ∃ m ∈ t.log, (newest t.log).message = some m ∧
      ∀ m' ∈ t.log, ∀ n, m'.number = some n → ∃ top, m.number = some top ∧ n ≤ top
  noLease : ∀ m, (newest t.log).message = some m → m.state ≠ .idle → ∀ timeout patience bearer,
    (∀ lease, ((work a timeout patience bearer).exec t.state).1 ≠ .ok ⟨200, .lease lease⟩) ∧
      ((work a timeout patience bearer).exec t.state).2.queue = t.state.queue
  /-- the next heartbeat, if it reports an active user, is not behind the fence and agrees -/
  fenced : ∀ bearer hb r b, t.state.registry.db.agent a = some r → r.transport = .siteRelay →
    AuthenticatedAs a t.state ⟨bearer, .heartbeat a hb⟩ →
    Agrees a t.state (.request ⟨bearer, .heartbeat a hb⟩) →
    hb.state = .active → r.presenceSequence ≤ hb.seq → r.revokedAt = none →
    t.state.world.now (t.state.draws + 1) - t.state.world.now t.state.draws ≤
      t.state.registry.config.offlineAfter →
    t.state.relay = some b → b.hasPending a = true →
    ((heartbeat a hb bearer).exec t.state).2.relay =
      some (b.invalidateAgent a (r.presenceGeneration + 1) "heartbeat_paused")

section
variable {a : String} {t : Track}

theorem tracked_enrolled (h : Enrolled a s) : Tracked a ⟨s, []⟩ := by
  obtain ⟨⟨r, hr, hseq⟩, hover⟩ := h
  refine ⟨r, hr, ?_, ?_, ?_, ?_, ?_⟩
  · intro _; exact hseq
  · rintro m ⟨⟩
  · intro st hst; rw [hover] at hst; cases hst
  · rintro _ m ⟨⟩
  · rintro m ⟨⟩

/-- The row and the overlay together say what the newest message says. -/
theorem Tracked.snapshot (h : Tracked a t) (hm : (newest t.log).message = some m)
    (now : ℤ) : (snapshotAt t.state now a).map (·.state) =
      ((t.state.registry.db.agent a).filter (live t.state.registry.config now)).map
        fun _ => m.state := by
  obtain ⟨r, hr, htracks⟩ := h
  have hstate : (t.state.overrides.stateFor a).getD r.state = m.state :=
    htracks.gating.trans (htracks.row m hm)
  rw [snapshotAt_eq, hr, Option.map_map, Option.filter_some]
  split
  · simp only [Option.map_some, Function.comp, hstate]
  · rfl

theorem Tracked.neverIdle (h : Tracked a t) (hm : (newest t.log).message = some m)
    (hidle : m.state ≠ .idle) : NeverIdle a t.state := by
  intro now snapshot hs
  have hstate := h.snapshot hm now
  rw [hs, Option.map_some] at hstate
  obtain ⟨_, -, hst⟩ := Option.map_eq_some_iff.mp hstate.symm
  rw [← hst]; exact hidle

theorem Tracked.highest (h : Tracked a t) (hnum : ∀ m ∈ t.log, m.number.isSome) (hne : t.log ≠ []) :
    ∃ m ∈ t.log, (newest t.log).message = some m ∧
      ∀ m' ∈ t.log, ∀ n, m'.number = some n → ∃ top, m.number = some top ∧ n ≤ top := by
  obtain ⟨r, -, htracks⟩ := h
  have hpos : ∀ m ∈ t.log, ∃ n, m.number = some n ∧ 0 ≤ n := by
    intro m hm
    obtain ⟨n, hn⟩ := Option.isSome_iff_exists.mp (hnum m hm)
    exact ⟨n, hn, htracks.numbers m hm n hn⟩
  obtain ⟨m, hmem, hmsg, htop⟩ := newest_numbered hpos hne
  exact ⟨m, hmem, hmsg, fun m' hm' n hn => ⟨_, htop, number_le_top m' hm' n hn⟩⟩

theorem fenced_of_agrees (hr : s.registry.db.agent a = some r)
    (hsite : r.transport = .siteRelay) (hauth : AuthenticatedAs a s ⟨bearer, .heartbeat a hb⟩)
    (hagrees : Agrees a s (.request ⟨bearer, .heartbeat a hb⟩)) (hactive : hb.state = .active)
    (hseq : r.presenceSequence ≤ hb.seq) (hlive : r.revokedAt = none)
    (hclock : s.world.now (s.draws + 1) - s.world.now s.draws ≤ s.registry.config.offlineAfter)
    (hb' : s.relay = some b) (hpending : b.hasPending a = true) :
    ((heartbeat a hb bearer).exec s).2.relay =
      some (b.invalidateAgent a (r.presenceGeneration + 1) "heartbeat_paused") := by
  have hcurrent : Sql.heartbeatCurrent hb.toHeartbeat r = true := decide_eq_true (.inr hseq)
  have hrow := agent_heartbeatRecorded hr hb.toHeartbeat
  -- the snapshot the fence reads: the row says active, and so does the overlay if it says anything
  have hsnap : ∃ snapshot, snapshotAt (heartbeatRecorded a hb.toHeartbeat s)
      (s.world.now (s.draws + 1)) a = some snapshot ∧ snapshot.state ≠ .idle := by
    have hlive' : live s.registry.config (s.world.now (s.draws + 1))
        (Sql.heartbeatRow hb.toHeartbeat (s.world.now s.draws) r) = true := by
      simp only [live, offline, Sql.heartbeatRow, hlive, decide_eq_true_eq, true_and]
      omega
    have hstate : (s.overrides.stateFor a).getD
        (Sql.heartbeatRow hb.toHeartbeat (s.world.now s.draws) r).state = .active := by
      cases ho : s.overrides.stateFor a with
      | none => simp only [Option.getD_none, Sql.heartbeatRow, hcurrent, if_true, hactive]
      | some st => rw [Option.getD_some, hagrees rfl r st hr hcurrent ho, hactive]
    have hcfg : (heartbeatRecorded a hb.toHeartbeat s).registry.config = s.registry.config := rfl
    have hover : (heartbeatRecorded a hb.toHeartbeat s).overrides = s.overrides := rfl
    rw [snapshotAt_eq, hrow, hcfg, hover, Option.filter_some, if_pos hlive', Option.map_some, hstate]
    exact ⟨_, rfl, by rintro ⟨⟩⟩
  obtain ⟨snapshot, hs, hidle⟩ := hsnap
  obtain ⟨s', hfence, hrelay⟩ := exec_fenceSiteHeartbeat_ineligible hrow hsite hlive hb' hs hidle hpending
  have hexec : (heartbeat a hb bearer).exec s = _ := exec_heartbeat hr hauth hb hfence
  rw [hexec]
  exact hrelay

/-- CORRECT: in every run of agreeing steps since an agent's enrollment, its gating state is that of
    its newest accepted message. -/
theorem gating_state_newest {s₀ : CoordinatorState} (henrolled : Enrolled a s₀)
    (h : Reach (Track.step a) (fun t act => Agrees a t.state act) ⟨s₀, []⟩ t) : GatedByNewest a t := by
  have htracked : Tracked a t :=
    h.invariant (Tracked a) (tracked_enrolled henrolled) fun _ _ ht hok => ht.step hok
  refine ⟨fun m hm => htracked.snapshot hm, ?_, htracked.highest, ?_, ?_⟩
  · intro hdirect
    obtain ⟨r, hr, htracks⟩ := htracked
    rw [transportOf, hr] at hdirect
    exact newest_unnumbered (htracks.direct (Option.some.inj hdirect))
  · intro m hm hidle timeout patience bearer
    exact work_of_neverIdle (htracked.neverIdle hm hidle)
  · intro bearer hb r b hr hsite hauth hagrees hactive hseq hlive hclock hrelay hpending
    exact fenced_of_agrees hr hsite hauth hagrees hactive hseq hlive hclock hrelay hpending

end

/-! ### A heartbeat the overlay hides -/

/-- The user goes idle, then is back, and only a heartbeat tells. -/
def quietReturn : List Act :=
  [.request ⟨some "token-a", .events "a" { agentId := "a", kind := .userIdle }⟩,
   .request ⟨some "token-a", .heartbeat "a" { agentId := "a", seq := 1, state := .active }⟩]

/-- The newest accepted message says active and the agent still gates as idle. -/
theorem overlay_hides_heartbeat : Enrolled "a" twoAgents ∧
    (newest (runs (Track.step "a") ⟨twoAgents, []⟩ quietReturn).log).message =
      some ⟨none, .active, false⟩ ∧
    (snapshotAt (runs (Track.step "a") ⟨twoAgents, []⟩ quietReturn).state 0 "a").map (·.state) =
      some .idle := by
  refine ⟨⟨⟨_, rfl, rfl⟩, rfl⟩, rfl, ?_⟩
  rw [snapshotAt_eq]; rfl

/-- The user comes back, heartbeat and event agreeing. -/
def announcedReturn : List Act :=
  [.request ⟨some "token-a", .heartbeat "a" { agentId := "a", seq := 1, state := .active }⟩,
   .request ⟨some "token-a", .events "a" { agentId := "a", kind := .userReturned }⟩]

/-- The agent gates as active, and its poll gets nothing. -/
theorem gating_state_newest_announced :
    (snapshotAt (runs (Track.step "a") ⟨twoAgents, []⟩ announcedReturn).state 0 "a").map (·.state) =
      some .active ∧ ∀ lease, ((work "a" 5 3 (some "token-a")).exec
      (runs (Track.step "a") ⟨twoAgents, []⟩ announcedReturn).state).1 ≠ .ok ⟨200, .lease lease⟩ := by
  have hreach : Reach (Track.step "a") (fun t act => Agrees "a" t.state act) ⟨twoAgents, []⟩
      (runs (Track.step "a") ⟨twoAgents, []⟩ announcedReturn) := by
    refine Admitted.reach announcedReturn .start ⟨?_, ?_, trivial⟩
    · rintro - r st - - ⟨⟩
    · exact fun _ => ⟨Iff.rfl, by rintro - r n - ⟨⟩⟩
  have hgated := gating_state_newest ⟨⟨_, rfl, rfl⟩, rfl⟩ hreach
  have hm : (newest (runs (Track.step "a") ⟨twoAgents, []⟩ announcedReturn).log).message =
    some ⟨none, .active, true⟩ := rfl
  refine ⟨?_, (hgated.noLease _ hm (by decide) 5 3 _).1⟩
  rw [hgated.state _ hm]
  rfl

end Fallow.App

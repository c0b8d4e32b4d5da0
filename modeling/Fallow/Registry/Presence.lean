import Fallow.Lib.Register
import Fallow.Registry.Calls

/-! Presence converges to the newest message.

    Heartbeats and presence events of a site agent update one row under two comparisons:

        heartbeat  seq ≥ presence_sequence   state, serving_paused; the sequence to the maximum
        event      seq > presence_sequence   state, serving_paused, sequence; one more generation

    REFINES: while no two messages share a sequence, the row is a register that keeps the message
    with the highest sequence. The comparisons then differ on repeats only, and a repeated heartbeat
    writes what is already there. -/

namespace Fallow.Registry
open Lib Lib.Txn List Option SqliteRegistry

/-- What an agent sends about its user. -/
inductive PresenceMessage where
  | heartbeat (hb : Heartbeat)
  | event (kind : PresenceKind) (sequence : ℕ)
  deriving DecidableEq, Repr

namespace PresenceMessage

def sequence : PresenceMessage → ℕ
  | .heartbeat hb => hb.seq
  | .event _ n => n

def state : PresenceMessage → AgentState
  | .heartbeat hb => hb.state
  | .event kind _ => Sql.presenceState kind

def servingPaused : PresenceMessage → Bool
  | .heartbeat hb => hb.servingPaused
  | .event kind _ => decide (kind = .reclaim)

def isEvent : PresenceMessage → Bool
  | .heartbeat _ => false
  | .event .. => true

/-- The registry call a message becomes. -/
def op (a : String) (now : ℤ) : PresenceMessage → Op
  | .heartbeat hb => .recordHeartbeat a hb now
  | .event kind n => .applyPresenceEvent a kind n now

/-- What the call's statement does to the agent's row. -/
def apply (now : ℤ) (r : AgentRow) : PresenceMessage → AgentRow
  | .heartbeat hb => Sql.heartbeatRow hb now r
  | .event kind n => if r.presenceSequence < n then Sql.presenceRow kind n now r else r

end PresenceMessage

/-- A message reaches the registry at some time. -/
def deliver (a : String) (r : SqliteRegistry) (d : PresenceMessage × ℤ) : SqliteRegistry :=
  (r.call (d.1.op a d.2)).1

variable {r : SqliteRegistry} {row : AgentRow} {a : String}

theorem agent_deliver (hrow : r.db.agent a = some row) :
    (deliver a r d).db.agent a = some (d.1.apply d.2 row) := by
  obtain ⟨m, now⟩ := d
  have hid : row.agentId = a := Table.key_of_get hrow
  cases m with
  | heartbeat hb =>
    have hw : writeOf (.recordHeartbeat a hb now) = some (.recordHeartbeat a hb now) :=
      rfl
    rw [deliver, PresenceMessage.op, call_agent hw, hrow, map_some, Write.onAgent, if_pos hid]
    rfl
  | event kind n =>
    have hw : writeOf (.applyPresenceEvent a kind n now) = some (.presenceEvent a kind n now) := by
      rw [writeOf, if_neg (by omega)]
    rw [deliver, PresenceMessage.op, call_agent hw, hrow, map_some, Write.onAgent]
    simp only [hid, true_and, PresenceMessage.apply]

/-! ### The row as a register -/

/-- The row of a site agent shows what the register holds. -/
structure Shows (row : AgentRow) (top : Option PresenceMessage) : Prop where
  transport : row.transport = .siteRelay
  sequence : row.presenceSequence = (top.map fun m => (m.sequence : ℤ)).getD (-1)
  message : ∀ m, top = some m → row.state = m.state ∧ row.servingPaused = m.servingPaused

section
variable {row : AgentRow} {l : List PresenceMessage} {top : Option PresenceMessage}
  {m : PresenceMessage}

/-- A message above all so far takes the row. -/
theorem Shows.above (h : Shows row top) (hl : Highest PresenceMessage.sequence l top) (now : ℤ)
    (hm : ∀ x ∈ l, x.sequence < m.sequence) : Shows (m.apply now row) (some m) := by
  have hlt : row.presenceSequence < m.sequence := by
    rw [h.sequence]
    cases top with
    | none => simp only [map_none, getD_none]; omega
    | some t =>
      have := hm t hl.1
      simp only [map_some, getD_some]; omega
  cases m with
  | heartbeat hb =>
    have hcur : Sql.heartbeatCurrent hb row = true := by
      simp only [Sql.heartbeatCurrent, decide_eq_true_eq]
      exact .inr (le_of_lt hlt)
    refine ⟨h.transport, ?_, ?_⟩
    · exact max_eq_right (le_of_lt hlt)
    · rintro m' ⟨⟩
      simp only [PresenceMessage.apply, Sql.heartbeatRow, hcur, if_true]
      exact ⟨rfl, rfl⟩
  | event kind n =>
    have hn : row.presenceSequence < (n : ℤ) := hlt
    simp only [PresenceMessage.apply, if_pos hn]
    refine ⟨h.transport, rfl, ?_⟩
    rintro m' ⟨⟩
    exact ⟨rfl, rfl⟩

/-- A message below what is held, or a repeat of it, leaves the row as it shows. -/
theorem Shows.below (h : Shows row (some t)) (now : ℤ)
    (hm : m.sequence ≤ t.sequence) (hsame : m.sequence = t.sequence → m = t) :
    Shows (m.apply now row) (some t) := by
  have hseq : row.presenceSequence = t.sequence := h.sequence
  cases m with
  | heartbeat hb =>
    have hle : hb.seq ≤ t.sequence := hm
    have hmax : max row.presenceSequence (hb.seq : ℤ) = t.sequence := by
      rw [hseq]
      exact max_eq_left (by omega)
    refine ⟨h.transport, hmax, ?_⟩
    rintro m' ⟨⟩
    obtain ⟨hst, hpa⟩ := h.message t rfl
    by_cases he : hb.seq = t.sequence
    · -- a repeat of the heartbeat that is held
      obtain rfl := hsame he
      simp only [PresenceMessage.apply, Sql.heartbeatRow]
      split
      · exact ⟨rfl, rfl⟩
      · exact ⟨hst, hpa⟩
    · have hcur : Sql.heartbeatCurrent hb row = false := by
        simp only [Sql.heartbeatCurrent, h.transport, hseq, decide_eq_false_iff_not]
        rintro (hc | hc)
        · cases hc
        · omega
      simp only [PresenceMessage.apply, Sql.heartbeatRow, hcur]
      exact ⟨hst, hpa⟩
  | event kind n =>
    have hn : ¬ row.presenceSequence < (n : ℤ) := by
      have hle : n ≤ t.sequence := hm
      omega
    simpa only [PresenceMessage.apply, if_neg hn] using h

/-- Only an event above all so far advances the generation, and by one. -/
theorem Shows.generation (h : Shows row top) (hl : Highest PresenceMessage.sequence l top) (now : ℤ) :
    (m.apply now row).presenceGeneration = row.presenceGeneration +
      if m.isEvent ∧ ∀ x ∈ l, x.sequence < m.sequence then 1 else 0 := by
  cases m with
  | heartbeat hb => rfl
  | event kind n =>
    have hiff : row.presenceSequence < (n : ℤ) ↔ ∀ x ∈ l, x.sequence < n := by
      cases top with
      | none =>
        obtain rfl : l = [] := hl
        rw [h.sequence]
        simp only [map_none, getD_none, not_mem_nil, false_implies, implies_true, iff_true]
        omega
      | some t =>
        have hseq : row.presenceSequence = t.sequence := h.sequence
        rw [hseq, Int.ofNat_lt]
        exact (hl.forall_lt_iff (x := .event kind n)).symm
    by_cases hn : row.presenceSequence < (n : ℤ)
    · rw [if_pos ⟨rfl, hiff.1 hn⟩, PresenceMessage.apply, if_pos hn]
      rfl
    · rw [if_neg fun hc => hn (hiff.2 hc.2), PresenceMessage.apply, if_neg hn]
      rfl

end

/-! ### Enrolment -/

/-- An insert that counts a row has written it. -/
theorem agent_insertAgent {db : Db} (h : ((Write.insertAgent row).run db).2 = some n) :
    ((Write.insertAgent row).run db).1.agent row.agentId = some row := by
  simp only [Write.run] at h ⊢
  by_cases hold : (db.agent row.agentId).isSome
  · rw [if_pos hold] at h
    cases h
  · rw [if_neg hold, Db.agent, Table.get_append]
    rw [Db.agent] at hold
    rw [not_isSome_iff_eq_none.1 hold, none_or, if_pos rfl]

/-- A registration that returns has written the agent's row, and it is the enrolled one. -/
theorem agent_registered (h : (r.call (.registerAgent req fault usedAt)).2 = some ret) :
    ∃ token, (r.call (.registerAgent req fault usedAt)).1.db.agent req.agentId
      = some (enrolledRow req token usedAt) := by
  simp only [call, Op.body, registerAgent] at h ⊢
  split at h
  · cases h
  next hv =>
  rw [if_neg hv]
  simp only [Prog.alone] at h ⊢
  split at h
  · split at h
    · cases h
    next hi =>
    rw [if_neg hi]
    simp only [Prog.alone] at h ⊢
    split at h
    · cases h
    next hs =>
    split at h
    · cases h
    next hc =>
    rw [if_neg hc]
    exact ⟨_, agent_insertAgent hs⟩
  · cases h

/-! ### Any order, any number of times -/

/-- No two messages share a sequence. -/
def Distinct (l : List PresenceMessage) : Prop :=
  ∀ m ∈ l, ∀ m' ∈ l, m.sequence = m'.sequence → m = m'

instance : DecidablePred Distinct := fun l =>
  inferInstanceAs (Decidable (∀ m ∈ l, ∀ m' ∈ l, m.sequence = m'.sequence → m = m'))

/-- REFINES: after any deliveries the row shows the register of the messages delivered. -/
theorem shows_runs (hrow : r.db.agent a = some row)
    (h : Shows row none) (hd : Distinct (ds.map (·.1))) :
    ∃ row' top, (runs (deliver a) r ds).db.agent a = some row' ∧ Shows row' top ∧
      Highest PresenceMessage.sequence (ds.map (·.1)) top := by
  induction ds using List.reverseRecOn with
  | nil => exact ⟨row, none, hrow, h, rfl⟩
  | append_singleton ds d ih =>
    rw [map_append, map_singleton] at hd ⊢
    obtain ⟨row', top, hrow', hshow, htop⟩ :=
      ih fun m hm m' hm' => hd m (mem_append_left _ hm) m' (mem_append_left _ hm')
    have hnext : (runs (deliver a) r (ds ++ [d])).db.agent a = some (d.1.apply d.2 row') := by
      rw [runs_append]
      exact agent_deliver hrow'
    by_cases hab : ∀ x ∈ ds.map (·.1), x.sequence < d.1.sequence
    · exact ⟨_, some d.1, hnext, hshow.above htop d.2 hab, .above hab⟩
    cases top with
    | none =>
      rw [show ds.map (·.1) = [] from htop] at hab
      exact absurd nofun hab
    | some t =>
      have hle : d.1.sequence ≤ t.sequence := by
        rw [htop.forall_lt_iff] at hab
        exact not_lt.1 hab
      refine ⟨_, some t, hnext, hshow.below d.2 hle fun he => ?_, htop.below hle⟩
      exact hd _ (mem_append_right _ (mem_singleton_self _)) _ (mem_append_left _ htop.1) he

/-- A registry with one site token, and the request that spends it. -/
def siteOffice : SqliteRegistry where
  db := { enrollmentTokens := [{ tokenHash := "token", createdAt := 0, mode := .site }] }
  keyed := nodup_nil

def deskRequest : RegisterRequest where
  protocolVersion := protocolVersion
  enrollmentTokenHash := "token"
  hostname := "desk"
  host := "10.0.0.9"
  capsJson := "\x7b\x7d"
  agentId := "desk"
  deviceTokenHash := "device"

/-- The user returns at 2, is idle at 5, and a heartbeat of 3 comes late and twice. -/
def lateHeartbeat : List (PresenceMessage × ℤ) :=
  [(.event .userIdle 5, 1), (.heartbeat { seq := 3, state := .active }, 2),
   (.event .userReturned 2, 3), (.heartbeat { seq := 3, state := .active }, 4),
   (.event .userIdle 5, 5)]

end Fallow.Registry

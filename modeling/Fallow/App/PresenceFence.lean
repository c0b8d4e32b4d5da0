import Fallow.App.PresenceRoutes

/-! The durable presence generation and the broker's fence.

    The fence is a copy: claims and invalidations raise it to generations that were read from the
    registry. Statements never lower a generation and committed rows stay, so a copy of a committed
    generation is safe for good. A copy of an uncommitted one is not:

        presence event   UPDATE g+1 ──────────────────────────────── COMMIT (nothing left)
        claim                       site_route g+1 ──────▶ fence g+1
        registration                               ROLLBACK                (durable g) -/

namespace Fallow.App.Presence
open Lib Lib.Task Registry Function Option

/-- Durable generations only grow, the broker's fence lies at or below them. -/
def copies : Copies Db String Memory where
  le d d' := ∀ a n, generation d a = some n → ∃ n', generation d' a = some n' ∧ n ≤ n'
  fine d m := ∀ a g, m.broker.generation a = some g → ∃ n, generation d a = some n ∧ g ≤ (n : ℤ)
  clean a d d' := generation d a = generation d' a

theorem copies_lawful : copies.Lawful Write.run where
  refl _ a n h := ⟨n, h, Nat.le_refl n⟩
  trans h h' a n hn := by
    obtain ⟨n₁, hn₁, hle⟩ := h a n hn
    obtain ⟨n₂, hn₂, hle'⟩ := h' a n₁ hn₁
    exact ⟨n₂, hn₂, Nat.le_trans hle hle'⟩
  exec w d a n h := generation_mono h
  mono h hfine a g hg := by
    obtain ⟨n, hn, hle⟩ := hfine a g hg
    obtain ⟨n', hn', hle'⟩ := h a n hn
    exact ⟨n', hn', by omega⟩

/-! ### The fence under the broker's steps -/

variable {reason : String} {now : ℤ}

section
variable {b : Relay.Broker} {a : String}

theorem generation_offer : (b.offer a port request deadline).1.generation = b.generation := by
  unfold Relay.Broker.offer
  split
  · rfl
  split
  · rfl
  split
  · rfl
  · dsimp only
    split <;> rfl

/-- FRAME: only claims and invalidations move the fence. -/
theorem generation_elsewhere (h : elsewhere act = true) :
    (Relay.step b act).generation = b.generation := by
  cases act with
  | offer => exact generation_offer
  | claim => cases h
  | invalidateAgent => cases h
  | resume k => exact Relay.calm_resume.generation
  | giveUp k => exact Relay.calm_giveUp.generation
  | abandonWaiter k => exact Relay.calm_abandonWaiter.generation
  | startResponse => exact Relay.calm_startResponse.generation
  | write => exact Relay.calm_write.generation
  | finish => exact Relay.calm_finish.generation
  | fail => exact Relay.calm_fail.generation
  | disconnect c => exact Relay.calm_disconnect.generation
  | read c => exact Relay.calm_read.generation
  | runTask n now => exact Relay.calm_runTask.generation

/-- A claim raises the fence to its generation, or leaves it. -/
theorem generation_claim (g : ℤ) : (b.claim a g).1.generation = b.generation ∨
    (b.claim a g).1.generation
      = update b.generation a (some (max ((b.generation a).getD 0) g)) := by
  unfold Relay.Broker.claim
  dsimp only
  split
  · exact .inl rfl
  · exact .inr rfl

theorem generation_cancelAll : ∀ (ks : List ℕ) (b : Relay.Broker),
    (Relay.Broker.cancelAll ks b).generation = b.generation
  | [], _ => rfl
  | k :: ks, b => generation_cancelAll ks (b.modifyFut k Relay.Fut.cancel)

theorem generation_settle : (b.settle cs reason fence).generation = b.generation := by
  unfold Relay.Broker.settle; split <;> rfl

/-- An invalidation raises the fence to its generation. -/
theorem generation_invalidateAgent : (b.invalidateAgent a newer reason).generation
      = update b.generation a (some (max ((b.generation a).getD 0) newer)) := by
  unfold Relay.Broker.invalidateAgent
  rw [generation_settle, generation_cancelAll]
  exact (Relay.calm_terminateAll reason _ _).generation

/-- A fence raised to a generation the database has reached lies below it. -/
theorem fine_raise (h : copies.fine d m)
    (hn : generation d a = some n) (hg : g ≤ (n : ℤ)) (hm : m'.broker.generation
      = update m.broker.generation a (some (max ((m.broker.generation a).getD 0) g))) :
    copies.fine d m' := by
  intro x g' hg'
  rw [hm] at hg'
  by_cases hx : x = a
  · rw [hx, update_self] at hg'
    have hmax : max ((m.broker.generation a).getD 0) g = g' := some.inj hg'
    refine ⟨n, by rw [hx]; exact hn, ?_⟩
    cases hb : m.broker.generation a with
    | none =>
      rw [hb, getD_none] at hmax
      omega
    | some f =>
      obtain ⟨n', hn', hle⟩ := h a f hb
      rw [hn] at hn'
      cases hn'
      rw [hb, getD_some] at hmax
      omega
  · rw [update_of_ne hx] at hg'
    exact h x g' hg'

end

/-! ### The routes vouch for what they hand over -/

section
variable {c : Db} {a : String} {k raised : RouteProg}

/-- Going on is safe from every durable state on. -/
abbrev Safe (p : RouteProg) : Prop := ∀ c, Vouched copies p c

theorem vouched_atomic_frame {k : Memory → RouteProg}
    (hf : ∀ m, (f m).broker.generation = m.broker.generation) (hk : ∀ m, Vouched copies (k m) c) :
    Vouched copies (.atomic f k) c := by
  refine ⟨fun c' m _ hm a g hg => ?_, hk⟩
  rw [hf] at hg
  exact hm a g hg

theorem vouched_invalidateAgent (hn : generation c a = some n) (hg : g ≤ n) (hk : Vouched copies k c) :
    Vouched copies (invalidateAgent a g reason k) c := by
  refine ⟨fun c' m hle hm => ?_, fun _ => hk⟩
  obtain ⟨n', hn', hle'⟩ := hle a n hn
  exact fine_raise hm hn' (by omega) generation_invalidateAgent

theorem vouched_authorizeSelf (hk : Safe k) : Safe (authorizeSelf a bearer k) := by
  intro c
  cases bearer with
  | none => trivial
  | some h =>
    intro db
    dsimp only
    split
    · trivial
    · trivial
    · split
      · trivial
      · exact hk c

theorem vouched_whenRouted (hr : Safe routed) (hk : Safe k) : Safe (whenRouted a routed k) := by
  intro c db
  dsimp only
  split
  · exact hk c
  · exact hr c

section
variable {k : ℕ → RouteProg} (hk : ∀ c n, generation c a = some n → Vouched copies (k n) c)
  (hr : Safe raised)
include hk hr

/-- The closing `SELECT`: a clean read hands on a generation the database has reached. -/
theorem vouched_selectGeneration :
    Vouched copies (generationOf a (selectGeneration a) k raised) c := by
  intro db c' _ hclean
  dsimp only
  cases hrow : db.agent a with
  | none => exact hr c'
  | some r =>
    refine hk c' _ ?_
    rw [← show generation db a = generation c' a from hclean, generation, hrow]
    rfl

/-- `bump_presence_generation` returns a generation the database has reached. -/
theorem vouched_bump : Safe (generationOf a (bumpPresenceGeneration a) k raised) := by
  intro c n
  cases n with
  | none => exact hr c
  | some n =>
    simp only [orRaise]
    by_cases hn : n ≠ 1
    · rw [if_pos hn]; exact hr c
    · rw [if_neg hn]; exact vouched_selectGeneration hk hr

theorem vouched_applyPresenceEvent {sequence : ℤ} :
    Safe (generationOf a (applyPresenceEvent a kind sequence now) k raised) := by
  intro c
  unfold applyPresenceEvent
  by_cases hs : sequence < 0
  · rw [if_pos hs]; exact hr c
  rw [if_neg hs]
  intro n
  cases n with
  | none => exact hr c
  | some n => exact vouched_selectGeneration hk hr

end

theorem vouched_bumpIfPending (hk : Safe k) (hr : Safe raised) :
    Safe (bumpIfPending a reason k raised) := by
  intro c
  refine vouched_atomic_frame (by intro _; rfl) fun m => ?_
  split
  · exact hk c
  · exact vouched_bump (fun c' n hn => vouched_invalidateAgent hn (Nat.le_refl n) (hk c')) hr c

end

variable {a : String} {bearer : Option String} {cfg : RegistryConfig}

theorem vouched_inferenceClaim : Safe (inferenceClaim a bearer) := by
  refine vouched_authorizeSelf fun c db c' _ hclean => ?_
  dsimp only
  cases hroute : Gateway.resolveSiteRoute db a with
  | none => trivial
  | some route =>
    -- the route's generation is the row's
    have hgen : generation db a = some route.presenceGeneration := by
      unfold Gateway.resolveSiteRoute siteRoute at hroute
      cases hrow : db.agent a with
      | none => rw [hrow] at hroute; cases hroute
      | some r =>
        rw [hrow, filter_some] at hroute
        split at hroute
        · cases hroute
        rename_i transport g he
        split at hroute
        · cases hroute
        rw [← some.inj hroute, generation, hrow]
        split at he
        · cases he; rfl
        · cases he
    rw [show generation db a = generation c' a from hclean] at hgen
    refine ⟨fun c'' m hle hm => ?_, fun m => ?_⟩
    · obtain ⟨n, hn, hle'⟩ := hle a _ hgen
      rcases generation_claim (b := m.broker) (a := a) (route.presenceGeneration : ℤ) with he | he
      · intro x g hg
        rw [show ({ m with broker := (m.broker.claim a route.presenceGeneration).1 } : Memory).broker.generation
          = _ from he] at hg
        exact hm x g hg
      · exact fine_raise hm hn (by omega) he
    · dsimp only
      split <;> trivial

theorem vouched_heartbeat (hb : HeartbeatMessage) {recordedAt seenAt : ℤ} :
    Safe (heartbeat cfg a hb bearer recordedAt seenAt) := by
  refine vouched_authorizeSelf fun c => ?_
  refine vouched_call (fun _ => ?_) (by trivial)
  have hend : Safe (.read none fun db => respond 200 (.heartbeat (desiredModels a db))) :=
    fun _ _ => by trivial
  refine vouched_whenRouted ?_ hend c
  intro c db
  dsimp only
  split
  · exact hend c
  refine vouched_atomic_frame (by intro _; rfl) fun m => ?_
  split
  · exact hend c
  · exact vouched_bumpIfPending hend (fun _ => by trivial) c

theorem vouched_events {event : AgentEvent} : Safe (events a event bearer now) := by
  have hset : Safe (setState a event now) := fun c => vouched_call (fun _ => by trivial) (by trivial)
  refine vouched_authorizeSelf fun c => ?_
  refine vouched_atomic_frame (by intro _; rfl) fun _ => ?_
  refine vouched_atomic_frame (by intro _; rfl) fun _ => ?_
  split
  · refine vouched_whenRouted ?_ hset c
    intro c
    split
    · exact hset c
    · refine vouched_applyPresenceEvent (fun c' n hn => ?_) (fun _ => by trivial) c
      exact vouched_invalidateAgent hn (Nat.le_refl n) (by trivial)
  · trivial

theorem vouched_evictEach : ∀ agents, Safe (evictEach requeues agents)
  | [] => fun _ => by trivial
  | a :: rest => by
    intro c
    unfold evictEach
    split
    · exact vouched_whenRouted (vouched_bumpIfPending (vouched_evictEach rest) fun _ => by trivial)
        (vouched_evictEach rest) c
    · trivial

theorem vouched_revokeAgent : Safe (revokeAgent a now) := by
  intro c db
  refine vouched_call (fun _ => ?_) (by trivial)
  refine vouched_call (fun _ => ?_) (by trivial)
  split
  · exact vouched_bump (fun c' n hn => vouched_invalidateAgent hn (Nat.le_refl n) (by trivial))
      (fun _ => by trivial) c
  · trivial

theorem vouched_body {route : Route} : Safe (route.body cfg) := by
  cases route with
  | inferenceClaim a bearer => exact vouched_inferenceClaim
  | heartbeat a hb bearer recordedAt seenAt => exact vouched_heartbeat hb
  | events a event bearer now => exact vouched_events
  | offlineEviction now requeues => exact fun c db => vouched_evictEach _ c
  | revokeAgent a now => exact vouched_revokeAgent
  | registry op => exact fun c => vouched_call (fun _ => by trivial) (by trivial)

/-! ### Whole runs -/

/-- A read whose generation goes on to the broker finds the agent with no uncommitted change of it. -/
def ReadsCommitted (s : State) (act : Task.Act Route RelayAct) : Prop := CleanReads copies s act

/-- The broker's fence is nowhere ahead of the durable generation. -/
def NeverLags (s : State) : Prop :=
  ∀ a g, s.memory.broker.generation a = some g → ∃ n, generation s.committed a = some n ∧ g ≤ (n : ℤ)

/-- CORRECT: while those reads find committed generations, the durable one never lags the fence. -/
theorem durable_generation_never_lags (cfg : RegistryConfig) (db : Db) (maxBuffer : ℕ) {s : State}
    (h : Reach (step cfg) ReadsCommitted (started db maxBuffer) s) : NeverLags s := by
  refine fine_of_cleanReads copies_lawful (fun route c => vouched_body c) ?_ ?_ h
  · intro act c m hm a g hg
    rw [relay, generation_elsewhere act.2] at hg
    exact hm a g hg
  · intro a g hg
    cases hg

/-- A site agent at generation 3. -/
def siteDesk : AgentRow :=
  { agentId := "desk", hostname := "desk", host := "10.0.0.7", capsJson := "",
    deviceTokenHash := "tok", state := .idle, lastSeen := 0, registeredAt := 0,
    transport := .siteRelay, enrollmentMode := .site, presenceGeneration := 3 }

def deskClaim : List (Task.Act Route RelayAct) :=
  [.spawn 0 (.inferenceClaim "desk" (some "tok")), .run 0, .run 0, .run 0]

theorem durable_generation_never_lags_claim :
    NeverLags (runs (step {}) (started { agents := [siteDesk] } 1024) deskClaim) ∧
      (runs (step {}) (started { agents := [siteDesk] } 1024) deskClaim).memory.broker.generation "desk"
        = some 3 := by
  refine ⟨durable_generation_never_lags {} { agents := [siteDesk] } 1024
    (Admitted.reach _ .start ⟨trivial, ?_, ?_, ?_, trivial⟩), rfl⟩
  · rintro a k ⟨⟩
  · rintro a k ⟨⟩; rfl
  · rintro a k ⟨⟩

/-- The user comes back; the desk claims before the event is committed, and the rollback of a
    registration with an unknown token takes the event away. -/
def dirtyClaim : List (Task.Act Route RelayAct) :=
  [.spawn 0 (.registry (.registerAgent strangerRequest none 100)), .run 0, .run 0, .run 0,
   .spawn 1 (.events "desk"
     { agentId := "desk", kind := .userReturned, detail := [("sequence", "5")] } (some "tok") 101),
   .run 1, .run 1, .run 1, .run 1, .run 1, .run 1,
   .spawn 2 (.inferenceClaim "desk" (some "tok")), .run 2, .run 2,
   .run 0, .run 0, .run 1, .run 1, .run 1, .run 1, .run 2]

/-- All three are over, the fence stands at 4 and the durable generation at 3. -/
theorem fence_ahead_of_durable_generation :
    ¬ NeverLags (runs (step {}) (started { agents := [siteDesk] } 1024) dirtyClaim) ∧
      (∀ i ∈ [0, 1, 2], ∃ r,
        (runs (step {}) (started { agents := [siteDesk] } 1024) dirtyClaim).procs i = some (.ret r)) ∧
      (runs (step {}) (started { agents := [siteDesk] } 1024) dirtyClaim).memory.broker.generation "desk"
        = some 4 ∧
      generation (runs (step {}) (started { agents := [siteDesk] } 1024) dirtyClaim).committed "desk"
        = some 3 := by
  have hfence : (runs (step {}) (started { agents := [siteDesk] } 1024)
      dirtyClaim).memory.broker.generation "desk" = some 4 := by decide +kernel
  have hgen : generation (runs (step {}) (started { agents := [siteDesk] } 1024)
      dirtyClaim).committed "desk" = some 3 := by decide +kernel
  refine ⟨fun h => ?_, ?_, hfence, hgen⟩
  swap
  · simp only [List.forall_mem_cons]
    exact ⟨⟨_, rfl⟩, ⟨_, rfl⟩, ⟨_, rfl⟩, nofun⟩
  obtain ⟨n, hn, hle⟩ := h "desk" 4 hfence
  cases hn
  exact absurd hle (by decide)

end Fallow.App.Presence

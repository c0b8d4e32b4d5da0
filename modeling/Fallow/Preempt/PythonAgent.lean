import Fallow.Preempt.Yield

/-! The Python agent: the poll thread beside `ReconcileLoop` (`main/reconcile.py`).

    A pass reads the reclaim flag and the controller's state once, at its start. Then it waits for a
    manifest and for a download, once per missing model, and calls `start_replica` after each pair.
    The user may return at any of these points.

        begin ─▶ gate ─▶ compare ─▶ (fetch ─▶ ensure ─▶ call ─▶ spawn ─▶ register ─▶ launch)* ─▶ stops
                                      ╎ await    ╎ await -/

namespace Fallow.Preempt.Python

open Fallow.Lib Fallow.Supervisor Poll

/-- Where a pass stands with the first model of its list. -/
inductive Stage where
  | fetching
  | ensuring (gpu : Bool)
  | calling (gpu : Bool)
  | inCall
  deriving DecidableEq, Repr

inductive Pass where
  | idle
  | gated
  | comparing
  | starting (models stops : List String) (stage : Stage)
  | stopping (stops : List String)
  deriving DecidableEq, Repr

structure Host where
  poll : Poll := {}
  pass : Pass := .idle

inductive Action where
  | poll (e : Event)
  | begin
  | gate
  | compare (desired : List String)
  | fetched (gpu : Option Bool)
  | ensured (ok : Bool)
  | call (port : Option ℕ)
  | spawn (ok : Bool)
  | register (handle : Bool)
  | launch
  | next
  | stop
  | cancel
  deriving DecidableEq, Repr

/-- The models whose replica is not STOPPED. -/
def liveModels (statuses : List ReplicaStatus) : List String :=
  (statuses.filter fun st => st.state ≠ .stopped).map (·.modelId)

def startNext (models stops : List String) : Pass :=
  match models with
  | [] => .stopping stops
  | m :: rest => .starting (m :: rest) stops .fetching

namespace Host

def setSup (h : Host) (sup : State) : Host := { h with poll := { h.poll with sup := sup } }

/-- `self._reclaimed()`. -/
def begin (h : Host) : Host :=
  if h.pass = .idle ∧ h.poll.reclaimFree ∧ h.poll.reclaimed = false then { h with pass := .gated }
  else h

/-- `self._preemptor.state is not AgentState.IDLE`. -/
def gate (h : Host) : Host :=
  if h.pass = .gated ∧ h.poll.controllerFree then
    { h with pass := if h.poll.controller.state = .idle then .comparing else .idle }
  else h

/-- The set differences; `desired` comes in the order the set gives. -/
def compare (h : Host) (desired : List String) : Host :=
  if h.pass = .comparing then
    let live := liveModels h.poll.sup.tables.statuses
    { h with pass := startNext (desired.eraseDups.filter (· ∉ live)) (live.filter (· ∉ desired)) }
  else h

/-- The manifest arrives, or the model is skipped. -/
def fetched (h : Host) (gpu : Option Bool) : Host :=
  match h.pass with
  | .starting (m :: rest) stops .fetching =>
    match gpu with
    | some gpu => { h with pass := .starting (m :: rest) stops (.ensuring gpu) }
    | none => { h with pass := startNext rest stops }
  | _ => h

def ensured (h : Host) (ok : Bool) : Host :=
  match h.pass with
  | .starting (m :: rest) stops (.ensuring gpu) =>
    if ok then { h with pass := .starting (m :: rest) stops (.calling gpu) }
    else { h with pass := startNext rest stops }
  | _ => h

/-- A port is reserved and `start_replica` is called; without a port the model is skipped. -/
def call (h : Host) (port : Option ℕ) : Host :=
  match h.pass with
  | .starting (m :: rest) stops (.calling gpu) =>
    match port with
    | some port =>
      { (h.setSup (h.poll.sup.startReplica m port gpu)) with
        pass := .starting (m :: rest) stops .inCall }
    | none => { h with pass := startNext rest stops }
  | _ => h

/-- The call has returned or raised. -/
def next (h : Host) : Host :=
  match h.pass with
  | .starting (_ :: rest) stops .inCall =>
    if h.poll.sup.start = .idle then { h with pass := startNext rest stops } else h
  | _ => h

def stop (h : Host) : Host :=
  match h.pass with
  | .stopping (m :: rest) =>
    if h.poll.sup.free .reconcile then
      { (h.setSup (h.poll.sup.stopReplica .reconcile m)) with pass := .stopping rest }
    else h
  | .stopping [] => if h.poll.sup.free .reconcile then { h with pass := .idle } else h
  | _ => h

/-- The loop's task is cancelled at an await. -/
def cancel (h : Host) : Host :=
  match h.pass with
  | .starting _ _ .fetching | .starting _ _ (.ensuring _) => { h with pass := .idle }
  | _ => h

def step (cfg : AgentConfig) (h : Host) : Action → Host
  | .poll e => { h with poll := h.poll.step cfg .python e }
  | .begin => h.begin
  | .gate => h.gate
  | .compare desired => h.compare desired
  | .fetched gpu => h.fetched gpu
  | .ensured ok => h.ensured ok
  | .call port => h.call port
  | .spawn ok => h.setSup (h.poll.sup.spawn ok)
  | .register handle => h.setSup (h.poll.sup.register handle)
  | .launch => h.setSup h.poll.sup.launch
  | .next => h.next
  | .stop => h.stop
  | .cancel => h.cancel

/-- The action is a call of `supervisor.start_replica`. -/
def CallsStart (h : Host) (a : Action) : Prop :=
  ∃ port m rest stops gpu, a = .call (some port) ∧
    h.pass = .starting (m :: rest) stops (.calling gpu)

/-- No return of the user and no reclaim (nor a drain) falls into a pass, and when the poll thread
    calls `suspend_all` every live process is tracked; signals reach live processes. -/
def Undisturbed (cfg : AgentConfig) (h : Host) : Action → Prop
  | .poll e => (Poll.Yields cfg h.poll e → h.pass = .idle ∧ Settled h.poll.sup) ∧
      (e = .drain → h.pass = .idle) ∧ Poll.Delivers .python h.poll e
  | _ => True

/-! ### The invariant -/

/-- The pass is past both of its gates. -/
def Running (h : Host) : Prop := h.pass ≠ .idle ∧ h.pass ≠ .gated

structure Inv (h : Host) : Prop where
  yielded : h.poll.Yielded
  starting : Starting h.poll.sup → ∃ models stops, h.pass = .starting models stops .inCall
  gated : h.pass = .gated → h.poll.Unreclaimed
  running : h.Running → h.poll.Away ∧ h.poll.controller.state = .idle

theorem inv_initial : Inv {} where
  yielded := yielded_initial
  starting h := absurd h (not_starting (.inl rfl))
  gated := nofun
  running h := absurd rfl h.1

variable {h : Host} {cfg : AgentConfig}

section
variable (hi : Inv h) {pass : Pass}
include hi

theorem Inv.poll (hu : Undisturbed cfg h (.poll e)) : Inv (h.step cfg (.poll e)) := by
  obtain ⟨hy, hdrain, hd⟩ := hu
  have hnot : h.pass ≠ .idle → ¬ Poll.Yields cfg h.poll e := fun hne hyes => hne (hy hyes).1
  refine ⟨hi.yielded.step (fun hyes => ⟨fun hst => ?_, (hy hyes).2⟩) hd, ?_, ?_, ?_⟩
  · obtain ⟨models, stops, hp⟩ := hi.starting hst
    exact absurd (hy hyes).1 (by simp [hp])
  · exact fun hst => hi.starting (hst.of_start sup_start_step)
  · intro hg
    have hg : h.pass = .gated := hg
    exact (hi.gated hg).step (hnot (by simp [hg]))
  · intro hrun
    obtain ⟨haway, hidle⟩ := hi.running hrun
    have hn := hnot hrun.1
    refine ⟨Poll.Away.of_halves (haway.unreclaimed.step hn) (haway.inactive.step hn), ?_⟩
    exact haway.inactive.idle_step hn hidle fun he => hrun.1 (hdrain he)

/-- FRAME: a step of the pass that leaves the agent alone. -/
theorem Inv.setPass (hst : ¬ Starting h.poll.sup) (hgated : pass = .gated → h.poll.Unreclaimed)
    (hrun : pass ≠ .idle → pass ≠ .gated →
      h.poll.Away ∧ h.poll.controller.state = .idle) : Inv { h with pass := pass } where
  yielded := hi.yielded
  starting hs := absurd hs hst
  gated := hgated
  running hr := hrun hr.1 hr.2

omit hi in
theorem startNext_ne_gated : startNext models stops ≠ .gated := by
  cases models <;> simp [startNext]

/-- A pass that goes on from one model to the next. -/
theorem Inv.advance (hrun : h.Running)
    (hout : ∀ models stops, h.pass = .starting models stops .inCall → h.poll.sup.start = .idle)
    (hpass : pass ≠ .gated) : Inv { h with pass := pass } := by
  refine hi.setPass (fun hst => ?_) (fun hg => absurd hg hpass) (fun _ _ => hi.running hrun)
  obtain ⟨models, stops, hp⟩ := hi.starting hst
  exact not_starting (.inl (hout models stops hp)) hst

theorem Inv.begin : Inv h.begin := by
  unfold Host.begin
  split
  · rename_i hb
    refine hi.setPass (fun hst => ?_) (fun _ => ⟨hb.2.2, ?_⟩) (fun _ hg => absurd rfl hg)
    · obtain ⟨models, stops, hp⟩ := hi.starting hst
      exact absurd hb.1 (by simp [hp])
    · have hfree := hb.2.1
      simpa [reclaimFree] using hfree
  · exact hi

/-- The second gate: both halves were read without the poll thread in between. -/
theorem Inv.gate : Inv h.gate := by
  unfold Host.gate
  split
  · rename_i hg
    have hst : ¬ Starting h.poll.sup := by
      intro hst
      obtain ⟨models, stops, hp⟩ := hi.starting hst
      exact absurd hg.1 (by simp [hp])
    split
    · rename_i hidle
      refine hi.setPass hst (by simp) fun _ _ => ⟨?_, hidle⟩
      refine Poll.Away.of_halves (hi.gated hg.1) ⟨by simp [hidle], ?_⟩
      intro idle now ht
      have hfree := hg.2
      simp [controllerFree, ht] at hfree
    · exact hi.setPass hst (by simp) fun hne _ => absurd rfl hne
  · exact hi

theorem Inv.compare (desired : List String) : Inv (h.compare desired) := by
  unfold Host.compare
  split
  · rename_i hc
    exact hi.advance ⟨by simp [hc], by simp [hc]⟩ (by simp [hc]) startNext_ne_gated
  · exact hi

theorem Inv.fetched (gpu : Option Bool) : Inv (h.fetched gpu) := by
  unfold Host.fetched
  split
  · rename_i m rest stops hp
    have hrun : h.Running := ⟨by simp [hp], by simp [hp]⟩
    cases gpu with
    | some gpu => exact hi.advance hrun (by simp [hp]) (by simp)
    | none => exact hi.advance hrun (by simp [hp]) startNext_ne_gated
  · exact hi

theorem Inv.ensured (ok : Bool) : Inv (h.ensured ok) := by
  unfold Host.ensured
  split
  · rename_i m rest stops gpu hp
    have hrun : h.Running := ⟨by simp [hp], by simp [hp]⟩
    split
    · exact hi.advance hrun (by simp [hp]) (by simp)
    · exact hi.advance hrun (by simp [hp]) startNext_ne_gated
  · exact hi

theorem Inv.call (port : Option ℕ) : Inv (h.call port) := by
  unfold Host.call
  split
  · rename_i m rest stops gpu hp
    have hrun : h.Running := ⟨by simp [hp], by simp [hp]⟩
    obtain ⟨haway, hidle⟩ := hi.running hrun
    cases port with
    | none => exact hi.advance hrun (by simp [hp]) startNext_ne_gated
    | some port =>
      refine ⟨hi.yielded.startReplica haway m port gpu, fun _ => ⟨_, _, rfl⟩, by simp, ?_⟩
      exact fun _ => ⟨{ haway with }, hidle⟩
  · exact hi

/-- FRAME: a step of the call itself. -/
theorem Inv.setSup {sup : State} (hy : Poll.Yielded { h.poll with sup := sup })
    (hst : Starting sup → Starting h.poll.sup) : Inv (h.setSup sup) where
  yielded := hy
  starting hs := hi.starting (hst hs)
  gated hg := have hu := hi.gated hg; ⟨hu.reclaimed, hu.reclaiming⟩
  running hr := by
    obtain ⟨ha, hidle⟩ := hi.running hr
    exact ⟨{ ha with }, hidle⟩

theorem Inv.next : Inv h.next := by
  unfold Host.next
  split
  · rename_i m rest stops hp
    split
    · rename_i hidle
      exact hi.advance ⟨by simp [hp], by simp [hp]⟩ (fun _ _ _ => hidle) startNext_ne_gated
    · exact hi
  · exact hi

theorem Inv.stop : Inv h.stop := by
  unfold Host.stop
  split
  · rename_i m rest hp
    split
    · have hcalm := calm_stopReplica h.poll.sup .reconcile m
      have hsup : Inv (h.setSup (h.poll.sup.stopReplica .reconcile m)) :=
        hi.setSup (hi.yielded.calm hcalm) fun hst => hst.of_start hcalm.start
      have hpass : (h.setSup (h.poll.sup.stopReplica .reconcile m)).pass = .stopping (m :: rest) := hp
      exact hsup.advance ⟨by simp [hpass], by simp [hpass]⟩ (by simp [hpass]) (by simp)
    · exact hi
  · rename_i hp
    split
    · exact hi.advance ⟨by simp [hp], by simp [hp]⟩ (by simp [hp]) (by simp)
    · exact hi
  · exact hi

theorem Inv.cancel : Inv h.cancel := by
  unfold Host.cancel
  split
  · rename_i hp
    exact hi.advance ⟨by simp [hp], by simp [hp]⟩ (by simp [hp]) (by simp)
  · rename_i hp
    exact hi.advance ⟨by simp [hp], by simp [hp]⟩ (by simp [hp]) (by simp)
  · exact hi

/-- INVARIANT: every undisturbed step keeps it. -/
theorem Inv.step (hu : Undisturbed cfg h a) : Inv (h.step cfg a) := by
  cases a with
  | poll e => exact hi.poll hu
  | begin => exact hi.begin
  | gate => exact hi.gate
  | compare desired => exact hi.compare desired
  | fetched gpu => exact hi.fetched gpu
  | ensured ok => exact hi.ensured ok
  | call port => exact hi.call port
  | spawn ok => exact hi.setSup (hi.yielded.spawn ok) starting_spawn
  | register handle => exact hi.setSup (hi.yielded.register handle) starting_register
  | launch => exact hi.setSup hi.yielded.launch starting_launch
  | next => exact hi.next
  | stop => exact hi.stop
  | cancel => exact hi.cancel

end

theorem Inv.reach (hr : Reach (Host.step cfg) (Undisturbed cfg) {} h) : Inv h :=
  hr.invariant Inv inv_initial fun _ _ hi hu => hi.step hu

/-- CORRECT: in undisturbed runs `start_replica` is called only while the controller is IDLE and the
    machine not reclaimed, and while the controller is ACTIVE (and not resuming) every live process
    is suspended. -/
theorem starts_only_when_idle {cfg : AgentConfig} {h : Host}
    (hr : Reach (Host.step cfg) (Undisturbed cfg) {} h) :
    (∀ a, h.CallsStart a → h.poll.controller.state = .idle ∧ h.poll.reclaimed = false) ∧
      (h.poll.controller.state = .active → (∀ idle, h.poll.tick ≠ .leaving idle) →
        AllSuspended h.poll.sup) := by
  have hi := Inv.reach hr
  refine ⟨?_, fun hact hl => hi.yielded.quiet (.inl ⟨hact, hl⟩)⟩
  rintro _ ⟨port, m, rest, stops, gpu, rfl, hp⟩
  obtain ⟨haway, hidle⟩ := hi.running ⟨by simp [hp], by simp [hp]⟩
  exact ⟨hidle, haway.reclaimed⟩

def desktop : AgentConfig := { pollInterval := 1, idleThreshold := 300, vramEvictAfter := 600 }

/-- A pass starts a replica and ends; then the user returns. -/
def quietPass : List Action :=
  [.begin, .gate, .compare ["qwen"], .fetched (some false), .ensured true, .call (some 9000),
    .spawn true, .register true, .launch, .next, .stop, .poll (.tick false []),
    .poll (.sample (some 0) 5 [0]), .poll (.signal .ok), .poll .commit]

theorem starts_only_when_idle_quietPass :
    (runs (Host.step desktop) {} quietPass).poll.controller.state = .active ∧
      AllSuspended (runs (Host.step desktop) {} quietPass).poll.sup := by
  have hreach : Reach (Host.step desktop) (Undisturbed desktop) {}
      (runs (Host.step desktop) {} quietPass) := by
    refine Admitted.reach quietPass .start ⟨trivial, trivial, trivial, trivial, trivial, trivial,
      trivial, trivial, trivial, trivial, trivial, ⟨?_, by simp, trivial⟩, ⟨?_, by simp, trivial⟩,
      ⟨nofun, by simp, ?_⟩, ⟨nofun, by simp, trivial⟩, trivial⟩
    · rintro ⟨-, h, -⟩; cases h
    · refine fun _ => ⟨by decide +kernel, fun c hc _ => ?_⟩
      obtain rfl : c = 0 := Nat.lt_one_iff.mp hc
      exact .inl (by decide +kernel)
    · rintro _ _ _ _ _ ⟨⟩ _
      exact ⟨rfl, rfl⟩
  have hact : (runs (Host.step desktop) {} quietPass).poll.controller.state = .active := by
    decide +kernel
  have htick : (runs (Host.step desktop) {} quietPass).poll.tick = .idle := by decide +kernel
  exact ⟨hact, (starts_only_when_idle hreach).2 hact (by simp [htick])⟩

/-- The user returns while the pass waits for a manifest. -/
def returnDuringFetch : List Action :=
  [.begin, .gate, .compare ["qwen"], .poll (.tick false []), .poll (.sample (some 0) 5 []),
    .poll .commit, .fetched (some false), .ensured true]

/-- The pass goes on: it calls `start_replica` while the controller is ACTIVE, and the new process
    runs beside the user. -/
theorem start_under_present_user :
    ((runs (Host.step desktop) {} returnDuringFetch).poll.controller.state = .active ∧
      (runs (Host.step desktop) {} returnDuringFetch).CallsStart (.call (some 9000))) ∧
    ((runs (Host.step desktop) {} (returnDuringFetch ++
        [.call (some 9000), .spawn true, .register true])).poll.controller.state = .active ∧
      ¬ AllSuspended (runs (Host.step desktop) {} (returnDuringFetch ++
        [.call (some 9000), .spawn true, .register true])).poll.sup) := by
  refine ⟨⟨by decide +kernel, ?_⟩, by decide +kernel, ?_⟩
  · exact ⟨9000, "qwen", [], [], false, rfl, by decide +kernel⟩
  intro hall
  have hsus := hall 0 (by decide +kernel) (by decide +kernel)
  revert hsus
  decide +kernel

end Host
end Fallow.Preempt.Python

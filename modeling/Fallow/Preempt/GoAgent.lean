import Fallow.Preempt.Yield

/-! The Go agent in Site Mode: the poll thread beside the reconcile worker (`runtime/site.go`,
    `reconcile/reconcile.go`).

    The worker asks `servingEligible` before it applies a desired set, and `guardedSupervisor` asks
    again right before every start. The answer is two reads under two locks; the spawn and the
    registration come after it, under neither.

        begin ─▶ eligible ─▶ compare ─▶ stops ─▶
            (fetch ─▶ ensure ─▶ port ─▶ guard: state ─▶ guard: reclaimed ─▶ call ─▶ spawn ─▶ register)* -/

namespace Fallow.Preempt.Go

open Fallow.Lib Fallow.Supervisor Poll

/-- Where `Apply` stands with the first model of its list. -/
inductive Stage where
  | fetching
  | ensuring (gpu : Bool)
  | cached (gpu : Bool)
  | guarding (gpu : Bool) (port : ℕ)
  | stateRead (gpu : Bool) (port : ℕ)
  | calling (gpu : Bool) (port : ℕ)
  | inCall
  deriving DecidableEq, Repr

inductive Worker where
  | idle
  | stateRead
  | comparing
  | stopping (stops models : List String)
  | starting (models : List String) (stage : Stage)
  deriving DecidableEq, Repr

structure Host where
  poll : Poll := {}
  worker : Worker := .idle

inductive Action where
  | poll (e : Event)
  | begin
  | eligible
  | compare (desired : List String)
  | stop
  | fetched (gpu : Option Bool)
  | ensured (ok : Bool)
  | port (port : Option ℕ)
  | guardState
  | guardReclaimed
  | call
  | spawn (ok : Bool)
  | register
  | launch
  | next
  | cancel
  deriving DecidableEq, Repr

/-- The models whose replica is not STOPPED. -/
def runningModels (statuses : List ReplicaStatus) : List String :=
  (statuses.filter fun st => st.state ≠ .stopped).map (·.modelId)

def startNext (models : List String) : Worker :=
  match models with
  | [] => .idle
  | m :: rest => .starting (m :: rest) .fetching

namespace Host

def setSup (h : Host) (sup : State) : Host := { h with poll := { h.poll with sup := sup } }

/-- The first two conjuncts of `servingEligible`; `primed` never falls back. -/
def stateEligible (h : Host) : Bool := h.poll.primed && h.poll.controller.state = .idle

def begin (h : Host) : Host :=
  if h.worker = .idle ∧ h.poll.controllerFree ∧ h.stateEligible then
    { h with worker := .stateRead }
  else h

/-- `!r.reclaim.IsReclaimed()`, for the worker's own check. -/
def eligible (h : Host) : Host :=
  if h.worker = .stateRead ∧ h.poll.reclaimFree then
    { h with worker := if h.poll.reclaimed then .idle else .comparing }
  else h

/-- The empty id is dropped from the desired ones. Replicas that are not wanted are stopped first.
    The code sorts the ids; here they may come in any order. -/
def compare (h : Host) (desired : List String) : Host :=
  if h.worker = .comparing then
    let running := runningModels h.poll.sup.tables.statuses
    let want := desired.filter (· ≠ "")
    let missing := want.eraseDups.filter (· ∉ running)
    { h with worker := .stopping (running.filter (· ∉ want)) missing }
  else h

def stop (h : Host) : Host :=
  match h.worker with
  | .stopping (m :: rest) models =>
    if h.poll.sup.free .reconcile then
      { (h.setSup (h.poll.sup.stopReplica .reconcile m)) with worker := .stopping rest models }
    else h
  | .stopping [] models =>
    if h.poll.sup.free .reconcile then { h with worker := startNext models } else h
  | _ => h

def fetched (h : Host) (gpu : Option Bool) : Host :=
  match h.worker with
  | .starting (m :: rest) .fetching =>
    match gpu with
    | some gpu => { h with worker := .starting (m :: rest) (.ensuring gpu) }
    | none => { h with worker := startNext rest }
  | _ => h

def ensured (h : Host) (ok : Bool) : Host :=
  match h.worker with
  | .starting (m :: rest) (.ensuring gpu) =>
    if ok then { h with worker := .starting (m :: rest) (.cached gpu) }
    else { h with worker := startNext rest }
  | _ => h

/-- `nextPort`. -/
def port (h : Host) (port : Option ℕ) : Host :=
  match h.worker with
  | .starting (m :: rest) (.cached gpu) =>
    match port with
    | some port => { h with worker := .starting (m :: rest) (.guarding gpu port) }
    | none => { h with worker := startNext rest }
  | _ => h

/-- The guard reads the controller. -/
def guardState (h : Host) : Host :=
  match h.worker with
  | .starting (m :: rest) (.guarding gpu port) =>
    if h.poll.controllerFree then
      if h.stateEligible then { h with worker := .starting (m :: rest) (.stateRead gpu port) }
      else { h with worker := startNext rest }
    else h
  | _ => h

/-- The guard reads the reclaim controller. -/
def guardReclaimed (h : Host) : Host :=
  match h.worker with
  | .starting (m :: rest) (.stateRead gpu port) =>
    if h.poll.reclaimFree then
      if h.poll.reclaimed then { h with worker := startNext rest }
      else { h with worker := .starting (m :: rest) (.calling gpu port) }
    else h
  | _ => h

/-- `Supervisor.StartReplica` up to its first lock. -/
def call (h : Host) : Host :=
  match h.worker with
  | .starting (m :: rest) (.calling gpu port) =>
    { (h.setSup (h.poll.sup.startReplica m port gpu)) with
      worker := .starting (m :: rest) .inCall }
  | _ => h

def next (h : Host) : Host :=
  match h.worker with
  | .starting (_ :: rest) .inCall =>
    if h.poll.sup.start = .idle then { h with worker := startNext rest } else h
  | _ => h

/-- The context is cancelled. -/
def cancel (h : Host) : Host :=
  match h.worker with
  | .starting _ .fetching | .starting _ (.ensuring _) => { h with worker := .idle }
  | _ => h

def step (cfg : AgentConfig) (h : Host) : Action → Host
  | .poll e => { h with poll := h.poll.step cfg .go e }
  | .begin => h.begin
  | .eligible => h.eligible
  | .compare desired => h.compare desired
  | .stop => h.stop
  | .fetched gpu => h.fetched gpu
  | .ensured ok => h.ensured ok
  | .port port => h.port port
  | .guardState => h.guardState
  | .guardReclaimed => h.guardReclaimed
  | .call => h.call
  | .spawn ok => h.setSup (h.poll.sup.spawn ok)
  | .register => h.setSup (h.poll.sup.register true)
  | .launch => h.setSup h.poll.sup.launch
  | .next => h.next
  | .cancel => h.cancel

/-- A guarded start has read the controller and has not registered its child yet. -/
def InWindow (h : Host) : Prop :=
  (∃ models gpu port, h.worker = .starting models (.stateRead gpu port)) ∨
    (∃ models gpu port, h.worker = .starting models (.calling gpu port)) ∨ Starting h.poll.sup

/-- No `SuspendAll` takes its snapshot while a guarded start stands between its guard and its
    registration, or while a live process is not tracked; signals reach live processes. -/
def Clear (cfg : AgentConfig) (h : Host) : Action → Prop
  | .poll e => (Poll.Yields cfg h.poll e → ¬ h.InWindow ∧ Settled h.poll.sup) ∧
      Poll.Delivers .go h.poll e
  | _ => True

/-! ### The invariant -/

structure Inv (h : Host) : Prop where
  yielded : h.poll.Yielded
  starting : Starting h.poll.sup → ∃ models, h.worker = .starting models .inCall
  stateRead : ∀ models gpu port, h.worker = .starting models (.stateRead gpu port) →
    h.poll.Inactive
  calling : ∀ models gpu port, h.worker = .starting models (.calling gpu port) → h.poll.Away

theorem inv_initial : Inv {} where
  yielded := yielded_initial
  starting h := absurd h (not_starting (.inl rfl))
  stateRead := by rintro _ _ _ ⟨⟩
  calling := by rintro _ _ _ ⟨⟩

variable {h : Host} {cfg : AgentConfig}

section
variable (hi : Inv h) {worker : Worker}
include hi

theorem Inv.poll (hc : Clear cfg h (.poll e)) : Inv (h.step cfg (.poll e)) := by
  obtain ⟨hy, hd⟩ := hc
  have hnot : h.InWindow → ¬ Poll.Yields cfg h.poll e := fun hw hyes => (hy hyes).1 hw
  refine ⟨hi.yielded.step (fun hyes => ⟨fun hst => ?_, (hy hyes).2⟩) hd, ?_, ?_, ?_⟩
  · exact (hy hyes).1 (.inr (.inr hst))
  · exact fun hst => hi.starting (hst.of_start sup_start_step)
  · intro models gpu port hw
    exact (hi.stateRead models gpu port hw).step (hnot (.inl ⟨models, gpu, port, hw⟩))
  · intro models gpu port hw
    have ha := hi.calling models gpu port hw
    have hn := hnot (.inr (.inl ⟨models, gpu, port, hw⟩))
    exact Poll.Away.of_halves (ha.unreclaimed.step hn) (ha.inactive.step hn)

/-- FRAME: a step of the worker outside a start. -/
theorem Inv.setWorker (hst : ¬ Starting h.poll.sup)
    (hread : ∀ models gpu port, worker = .starting models (.stateRead gpu port) → h.poll.Inactive)
    (hcall : ∀ models gpu port, worker = .starting models (.calling gpu port) → h.poll.Away) :
    Inv { h with worker := worker } where
  yielded := hi.yielded
  starting hs := absurd hs hst
  stateRead := hread
  calling := hcall

section
variable (hw : ∀ models, h.worker = .starting models .inCall → h.poll.sup.start = .idle)
include hw

/-- A start is under way only inside the call. -/
theorem Inv.not_starting : ¬ Starting h.poll.sup := by
  intro hst
  obtain ⟨models, hp⟩ := hi.starting hst
  exact Preempt.not_starting (.inl (hw models hp)) hst

/-- The worker goes on to something that is no guarded start. -/
theorem Inv.leave (hread : ∀ models gpu port, worker ≠ .starting models (.stateRead gpu port))
    (hcall : ∀ models gpu port, worker ≠ .starting models (.calling gpu port)) :
    Inv { h with worker := worker } :=
  hi.setWorker (hi.not_starting hw) (fun _ _ _ h => absurd h (hread _ _ _))
    fun _ _ _ h => absurd h (hcall _ _ _)

theorem Inv.startNext : Inv { h with worker := startNext models } := by
  refine hi.leave hw ?_ ?_ <;> cases models <;> simp [Go.startNext]

end

theorem Inv.begin : Inv h.begin := by
  unfold Host.begin
  split
  · rename_i hb
    exact hi.leave (by simp [hb.1]) (by simp) (by simp)
  · exact hi

theorem Inv.eligible : Inv h.eligible := by
  unfold Host.eligible
  split
  · rename_i hw
    split
    · exact hi.leave (by simp [hw.1]) (by simp) (by simp)
    · exact hi.leave (by simp [hw.1]) (by simp) (by simp)
  · exact hi

theorem Inv.compare (desired : List String) : Inv (h.compare desired) := by
  unfold Host.compare
  split
  · rename_i hw
    exact hi.leave (by simp [hw]) (by simp) (by simp)
  · exact hi

/-- FRAME: a step of the call itself. -/
theorem Inv.setSup {sup : State} (hy : Poll.Yielded { h.poll with sup := sup })
    (hst : Starting sup → Starting h.poll.sup) : Inv (h.setSup sup) where
  yielded := hy
  starting hs := hi.starting (hst hs)
  stateRead models gpu port hw :=
    have hin := hi.stateRead models gpu port hw
    ⟨hin.state, hin.entering⟩
  calling models gpu port hw :=
    have ha := hi.calling models gpu port hw
    { ha with }

theorem Inv.stop : Inv h.stop := by
  unfold Host.stop
  split
  · rename_i m rest models hw
    split
    · have hcalm := calm_stopReplica h.poll.sup .reconcile m
      have hsup : Inv (h.setSup (h.poll.sup.stopReplica .reconcile m)) :=
        hi.setSup (hi.yielded.calm hcalm) fun hst => hst.of_start hcalm.start
      have hw' : (h.setSup (h.poll.sup.stopReplica .reconcile m)).worker =
          .stopping (m :: rest) models := hw
      exact hsup.leave (by simp [hw']) (by simp) (by simp)
    · exact hi
  · rename_i models hw
    split
    · exact hi.startNext (by simp [hw])
    · exact hi
  · exact hi

theorem Inv.fetched (gpu : Option Bool) : Inv (h.fetched gpu) := by
  unfold Host.fetched
  split
  · rename_i m rest hw
    cases gpu with
    | some gpu => exact hi.leave (by simp [hw]) (by simp) (by simp)
    | none => exact hi.startNext (by simp [hw])
  · exact hi

theorem Inv.ensured (ok : Bool) : Inv (h.ensured ok) := by
  unfold Host.ensured
  split
  · rename_i m rest gpu hw
    split
    · exact hi.leave (by simp [hw]) (by simp) (by simp)
    · exact hi.startNext (by simp [hw])
  · exact hi

theorem Inv.port (port : Option ℕ) : Inv (h.port port) := by
  unfold Host.port
  split
  · rename_i m rest gpu hw
    cases port with
    | some port => exact hi.leave (by simp [hw]) (by simp) (by simp)
    | none => exact hi.startNext (by simp [hw])
  · exact hi

/-- The controller is read outside its transitions: it is IDLE and no return is under way. -/
theorem Inv.guardState : Inv h.guardState := by
  unfold Host.guardState
  split
  · rename_i m rest gpu port hw
    split
    · rename_i hfree
      split
      · rename_i hel
        have hidle : h.poll.controller.state = .idle := by
          simp only [stateEligible, Bool.and_eq_true, decide_eq_true_eq] at hel
          exact hel.2
        refine hi.setWorker (hi.not_starting (by simp [hw])) (fun _ _ _ _ => ⟨by simp [hidle], ?_⟩)
          (by simp)
        intro idle now ht
        simp [controllerFree, ht] at hfree
      · exact hi.startNext (by simp [hw])
    · exact hi
  · exact hi

theorem Inv.guardReclaimed : Inv h.guardReclaimed := by
  unfold Host.guardReclaimed
  split
  · rename_i m rest gpu port hw
    split
    · rename_i hfree
      split
      · exact hi.startNext (by simp [hw])
      rename_i hrec
      refine hi.setWorker (hi.not_starting (by simp [hw])) (by simp) fun _ _ _ _ => ?_
      refine Poll.Away.of_halves ⟨by simpa using hrec, ?_⟩ (hi.stateRead _ _ _ hw)
      simpa [reclaimFree] using hfree
    · exact hi
  · exact hi

theorem Inv.call : Inv h.call := by
  unfold Host.call
  split
  · rename_i m rest gpu port hw
    have ha := hi.calling _ _ _ hw
    exact ⟨hi.yielded.startReplica ha m port gpu, fun _ => ⟨_, rfl⟩, by simp, by simp⟩
  · exact hi

theorem Inv.next : Inv h.next := by
  unfold Host.next
  split
  · split
    · rename_i hidle
      exact hi.startNext fun _ _ => hidle
    · exact hi
  · exact hi

theorem Inv.cancel : Inv h.cancel := by
  unfold Host.cancel
  split
  · rename_i hw
    exact hi.leave (by simp [hw]) (by simp) (by simp)
  · rename_i hw
    exact hi.leave (by simp [hw]) (by simp) (by simp)
  · exact hi

/-- INVARIANT: every clear step keeps it. -/
theorem Inv.step (hc : Clear cfg h a) : Inv (h.step cfg a) := by
  cases a with
  | poll e => exact hi.poll hc
  | begin => exact hi.begin
  | eligible => exact hi.eligible
  | compare desired => exact hi.compare desired
  | stop => exact hi.stop
  | fetched gpu => exact hi.fetched gpu
  | ensured ok => exact hi.ensured ok
  | port port => exact hi.port port
  | guardState => exact hi.guardState
  | guardReclaimed => exact hi.guardReclaimed
  | call => exact hi.call
  | spawn ok => exact hi.setSup (hi.yielded.spawn ok) starting_spawn
  | register => exact hi.setSup (hi.yielded.register true) starting_register
  | launch => exact hi.setSup hi.yielded.launch starting_launch
  | next => exact hi.next
  | cancel => exact hi.cancel

end

theorem Inv.reach (hr : Reach (Host.step cfg) (Clear cfg) {} h) : Inv h :=
  hr.invariant Inv inv_initial fun _ _ hi hc => hi.step hc

/-- CORRECT: in clear runs no live process is left running while the user has the machine. -/
theorem no_running_replica_beside_user {cfg : AgentConfig} {h : Host}
    (hr : Reach (Host.step cfg) (Clear cfg) {} h) (hu : h.poll.UserPresent) :
    AllSuspended h.poll.sup :=
  (Inv.reach hr).yielded.quiet hu

def officePc : AgentConfig := { pollInterval := 1, idleThreshold := 300, vramEvictAfter := 600 }

/-- A replica is started on an idle machine; then the user returns. -/
def quietStart : List Action :=
  [.poll (.tick false []), .poll (.sample (some 500) 1 []), .begin, .eligible, .compare ["qwen"],
    .stop, .fetched (some false), .ensured true, .port (some 9000), .guardState, .guardReclaimed,
    .call, .spawn true, .register, .launch, .next, .poll (.tick false []),
    .poll (.sample (some 0) 5 [0]), .poll (.signal .ok), .poll .commit]

theorem no_running_replica_beside_user_quietStart :
    (runs (Host.step officePc) {} quietStart).poll.controller.state = .active ∧
      AllSuspended (runs (Host.step officePc) {} quietStart).poll.sup := by
  have hreach : Reach (Host.step officePc) (Clear officePc) {}
      (runs (Host.step officePc) {} quietStart) := by
    refine Admitted.reach quietStart .start ⟨⟨?_, trivial⟩, ⟨?_, trivial⟩, trivial, trivial, trivial,
      trivial, trivial, trivial, trivial, trivial, trivial, trivial, trivial, trivial, trivial,
      trivial, ⟨?_, trivial⟩, ⟨?_, trivial⟩, ⟨nofun, ?_⟩, ⟨nofun, trivial⟩, trivial⟩
    · rintro ⟨-, h, -⟩; cases h
    · rintro ⟨-, -, h⟩; cases h
    · rintro ⟨-, h, -⟩; cases h
    · refine fun _ => ⟨?_, fun c hc _ => ?_⟩
      · rintro (⟨_, _, _, h⟩ | ⟨_, _, _, h⟩ | ⟨_, _, _, h⟩ | ⟨_, h⟩) <;> cases h
      · obtain rfl : c = 0 := Nat.lt_one_iff.mp hc
        exact .inl (by decide +kernel)
    · rintro _ _ _ _ _ ⟨⟩ _
      exact ⟨rfl, rfl⟩
  have hact : (runs (Host.step officePc) {} quietStart).poll.controller.state = .active := by
    decide +kernel
  have htick : (runs (Host.step officePc) {} quietStart).poll.tick = .idle := by decide +kernel
  exact ⟨hact, no_running_replica_beside_user hreach (.inl ⟨hact, by simp [htick]⟩)⟩

/-- The user returns between the spawn and the registration: the snapshot is empty. -/
def returnDuringSpawn : List Action :=
  [.poll (.tick false []), .poll (.sample (some 500) 1 []), .begin, .eligible, .compare ["qwen"],
    .stop, .fetched (some false), .ensured true, .port (some 9000), .guardState, .guardReclaimed,
    .call, .spawn true, .poll (.tick false []), .poll (.sample (some 0) 5 []), .poll .commit,
    .register, .launch, .next]

/-- The tick is over, the controller is ACTIVE, and the registered child runs: it was never told to
    suspend. -/
theorem snapshot_misses_starting_child :
    (runs (Host.step officePc) {} returnDuringSpawn).poll.tick = .idle ∧
      (runs (Host.step officePc) {} returnDuringSpawn).poll.UserPresent ∧
      (runs (Host.step officePc) {} returnDuringSpawn).poll.sup.child? "qwen" = some 0 ∧
      ¬ AllSuspended (runs (Host.step officePc) {} returnDuringSpawn).poll.sup := by
  have htick : (runs (Host.step officePc) {} returnDuringSpawn).poll.tick = .idle := by
    decide +kernel
  refine ⟨htick, .inl ⟨by decide +kernel, by simp [htick]⟩, by decide +kernel, fun hall => ?_⟩
  have hsus := hall 0 (by decide +kernel) (by decide +kernel)
  revert hsus
  decide +kernel

end Host
end Fallow.Preempt.Go

import Fallow.Preempt.Poll

/-! What the poll thread guarantees about the processes while the user is present.

    `SuspendAll` works on a snapshot of the tracked children. Whatever is alive and not in the
    snapshot when it is taken stays unsuspended for as long as the user stays, since nothing
    suspends again before the next return. So the guarantee needs two things of every snapshot: no
    start is on its way to a registration, and every live process is tracked. -/

namespace Fallow.Preempt

open Fallow.Supervisor Function State Poll

/-- Every live process was last told to suspend. -/
def AllSuspended (s : State) : Prop :=
  ∀ c < s.count, (s.procs c).alive = true → (s.procs c).suspended = true

/-- A `StartReplica` has passed its check and has not registered its child yet. -/
def Starting (s : State) : Prop :=
  (∃ m port gpu, s.start = .checked m port gpu) ∨ ∃ c, s.start = .spawned c

theorem Starting.of_start (h : Starting s) (he : s.start = s'.start) : Starting s' := by
  simpa only [Starting, he] using h

theorem not_starting (h : s.start = .idle ∨ ∃ c, s.start = .registered c) : ¬ Starting s := by
  rcases h with h | ⟨c, h⟩ <;> simp [Starting, h]

/-- Every live process is tracked, or suspended already. -/
def Settled (s : State) : Prop :=
  ∀ c < s.count, (s.procs c).alive = true →
    s.child? (s.modelOf c) = some c ∨ (s.procs c).suspended = true

namespace Poll

variable {p : Poll} {cfg : AgentConfig} {ag : Agent}

/-- The user has the machine: the controller is ACTIVE and not just resuming, or the machine is
    reclaimed. -/
def UserPresent (p : Poll) : Prop :=
  (p.controller.state = .active ∧ ∀ idle, p.tick ≠ .leaving idle) ∨ p.reclaimed = true

/-- The user is away and no `SuspendAll` is under way. -/
structure Away (p : Poll) : Prop where
  state : p.controller.state ≠ .active
  reclaimed : p.reclaimed = false
  reclaiming : p.tick ≠ .reclaiming
  entering : ∀ idle now, p.tick ≠ .entering idle now

/-- The event makes the poll thread call `SuspendAll`. -/
def Yields (cfg : AgentConfig) (p : Poll) : Event → Prop
  | .tick flag _ => p.tick = .idle ∧ flag = true ∧ p.reclaimed = false
  | .sample (some idle) _ _ =>
    p.tick = .sampling ∧ p.controller.state = .idle ∧ p.controller.isFreshInput cfg idle = true
  | _ => False

/-- A signal to a live process is delivered. -/
def Delivers (ag : Agent) (p : Poll) : Event → Prop
  | .signal result => ∀ suspend snapshot c todo vanished,
      p.sup.signal = .sending suspend snapshot (c :: todo) vanished →
        (p.sup.procs c).alive = true →
          result = .ok ∧ vanishes ag (p.sup.procs c) result = false
  | _ => True

/-- The invariant of the poll thread. -/
structure Yielded (p : Poll) : Prop where
  quiet : p.UserPresent → AllSuspended p.sup
  yielding : p.tick = .reclaiming ∨ (∃ idle now, p.tick = .entering idle now) →
    ∃ snap todo van, p.sup.signal = .sending true snap todo van ∧
      ∀ c < p.sup.count, (p.sup.procs c).alive = true →
        c ∈ todo ∨ (p.sup.procs c).suspended = true
  resuming : ∀ idle, p.tick = .leaving idle → p.reclaimed = false ∧
    ∃ suspend snap todo van, p.sup.signal = .sending suspend snap todo van
  sampled : p.tick = .sampling ∨ (∃ idle now, p.tick = .entering idle now) → p.reclaimed = false
  entering : ∀ idle now, p.tick = .entering idle now → p.controller.state = .idle
  starting : Starting p.sup → p.Away

theorem yielded_initial : Yielded {} where
  quiet := by rintro (⟨h, -⟩ | h) <;> cases h
  yielding := by rintro (h | ⟨_, _, h⟩) <;> cases h
  resuming := by rintro _ ⟨⟩
  sampled := fun _ => rfl
  entering := by rintro _ _ ⟨⟩
  starting h := absurd h (not_starting (.inl rfl))

/-! ### Supervisor steps that tell no process to suspend or resume -/

structure Calm (s s' : State) : Prop where
  count : s'.count = s.count
  signal : s'.signal = s.signal
  start : s'.start = s.start
  alive : ∀ c, (s'.procs c).alive = true → (s.procs c).alive = true
  suspended : ∀ c, (s'.procs c).suspended = (s.procs c).suspended

theorem Calm.refl (s : State) : Calm s s := ⟨rfl, rfl, rfl, fun _ => id, fun _ => rfl⟩

variable {s s' : State} {c : ℕ} {a : Act}

section
variable (h : Calm s s')
include h

theorem Calm.setProc (ha : q.alive = true → (s'.procs c).alive = true)
    (hs : q.suspended = (s'.procs c).suspended) : Calm s (s'.setProc c q) where
  __ := h
  alive c' := by
    rcases eq_or_ne c' c with rfl | hne
    · rw [setProc_procs, update_self]; exact fun hq => h.alive c' (ha hq)
    · rw [setProc_procs, update_of_ne hne]; exact h.alive c'
  suspended c' := by
    rcases eq_or_ne c' c with rfl | hne
    · rw [setProc_procs, update_self]; exact hs.trans (h.suspended c')
    · rw [setProc_procs, update_of_ne hne]; exact h.suspended c'

theorem Calm.setStop (t : Thread) (call : Option StopCall) :
    Calm s (s'.setStop t call) := { h with }

theorem Calm.setHealth (c : ℕ) (pc : HealthPc) : Calm s (s'.setHealth c pc) := { h with }

theorem Calm.setTables (t : Tables) : Calm s (s'.setTables t) :=
  { h with }

theorem Calm.killProc (c : ℕ) (delivered : Bool) :
    Calm s (s'.killProc c delivered) := h.setProc id rfl

end

theorem calm_stopReplica (s : State) (t : Thread) (m : String) : Calm s (s.stopReplica t m) := by
  unfold stopReplica
  split
  · cases s.child? m with
    | none => exact (Calm.refl s).setTables _
    | some c => exact ((Calm.refl s).setTables _).setStop _ _
  · exact Calm.refl s

theorem calm_healthStep : Calm s (s.healthStep ag c) := by
  unfold healthStep
  split
  · exact (Calm.refl s).setHealth _ _
  · exact (Calm.refl s).setHealth _ _
  · exact (Calm.refl s).setHealth _ _
  · exact ((Calm.refl s).setTables _).setHealth _ _
  · exact (Calm.refl s).setHealth _ _
  · exact ((Calm.refl s).setTables _).setHealth _ _
  · exact (Calm.refl s).setHealth _ _
  · exact ((Calm.refl s).setTables _).setHealth _ _
  · exact Calm.refl s

theorem calm_stopStep : Calm s (s.stopStep t) := by
  unfold stopStep
  split
  · exact Calm.refl s
  split
  · refine Calm.setStop (Calm.setProc (Calm.refl s) ?_ ?_) _ _
    · exact id
    · rfl
  · split
    · exact Calm.refl s
    · exact (Calm.refl s).setStop _ _
  · exact Calm.refl s
  · exact (Calm.refl s).setStop _ _
  · exact (Calm.refl s).setStop _ _

theorem calm_background (ha : isBackground a = true) : Calm s (s.step ag a) := by
  cases a with
  | stopStep t => exact calm_stopStep
  | graceOver t =>
    simp only [State.step, State.graceOver]
    split
    · split
      · exact (Calm.refl s).setStop _ _
      · exact Calm.refl s
    · exact Calm.refl s
  | stopKill t delivered =>
    simp only [State.step, State.stopKill]
    split
    · split
      · exact ((Calm.refl s).killProc _ _).setStop _ _
      · exact Calm.refl s
    · exact Calm.refl s
  | health c => exact calm_healthStep
  | probe c ok =>
    simp only [State.step, State.probe]
    split
    · exact (Calm.refl s).setHealth _ _
    · exact Calm.refl s
  | clock c late =>
    simp only [State.step, State.clock]
    split
    · exact (Calm.refl s).setHealth _ _
    · exact Calm.refl s
  | healthKill c delivered =>
    simp only [State.step, State.healthKill]
    split
    · exact ((Calm.refl s).killProc _ _).setHealth _ _
    · exact Calm.refl s
  | slots c count =>
    simp only [State.step, State.slots]
    split
    · exact (Calm.refl s).setHealth _ _
    · exact Calm.refl s
  | exit c =>
    simp only [State.step, State.exit]
    split
    · exact (Calm.refl s).setProc (by simp) rfl
    · exact Calm.refl s
  | _ => cases ha

/-- The steps of `StartReplica`. -/
def byCaller : Act → Bool
  | .startReplica .. | .spawn _ | .register _ | .launch => true
  | _ => false

theorem byCaller_background (ha : isBackground a = true) : byCaller a = false := by
  cases a <;> first | rfl | cases ha

/-- FRAME: only the caller's own steps move it. -/
theorem start_step (ha : byCaller a = false) : (s.step ag a).start = s.start := by
  cases a with
  | stopReplica t m => exact (calm_stopReplica s t m).start
  | snapshot suspend order =>
    simp only [State.step, State.snapshot]
    split <;> rfl
  | signal result =>
    simp only [State.step, State.sendSignal]
    split
    · split
      · rfl
      · split <;> rfl
    · rfl
  | commit =>
    simp only [State.step, State.commit]
    split <;> rfl
  | stopStep | graceOver | stopKill | health | probe | clock | healthKill | slots | exit =>
    exact (calm_background rfl).start
  | _ => cases ha

/-- An event is at most one step of the supervisor, and none of its caller's. -/
def OneStep (ag : Agent) (s s' : State) : Prop :=
  s' = s ∨ ∃ a, byCaller a = false ∧ s' = s.step ag a

/-- FRAME: such a step keeps the invariant. -/
theorem Yielded.calm (h : Yielded p) (hc : Calm p.sup s') : Yielded { p with sup := s' } where
  __ := h
  quiet hu c hlt ha := by
    rw [hc.suspended]
    rw [hc.count] at hlt
    exact h.quiet hu c hlt (hc.alive c ha)
  yielding ht := by
    obtain ⟨snap, todo, van, hs, hall⟩ := h.yielding ht
    refine ⟨snap, todo, van, hc.signal.trans hs, fun c hlt ha => ?_⟩
    rw [hc.suspended]
    rw [hc.count] at hlt
    exact hall c hlt (hc.alive c ha)
  resuming idle ht := by
    obtain ⟨hrec, b, snap, todo, van, hs⟩ := h.resuming idle ht
    exact ⟨hrec, b, snap, todo, van, hc.signal.trans hs⟩
  starting hs := by
    have ha : p.Away := h.starting (hs.of_start hc.start)
    exact { ha with }

/-! ### What an event can do -/

/-- What one event can do to the poll thread. -/
inductive Moved (cfg : AgentConfig) (ag : Agent) (p : Poll) : Event → Poll → Prop where
  /-- a job or the supervisor goes on, or nothing happens -/
  | kept {e : Event} {s' : State} {jobs : List (Option (List String))} (hc : Calm p.sup s')
      (ho : OneStep ag p.sup s') : Moved cfg ag p e { p with sup := s', jobs := jobs }
  /-- the tick ends, or stops one more model, with the states as they are -/
  | rests {e : Event} {q : Poll} (hc : Calm p.sup q.sup) (ho : OneStep ag p.sup q.sup)
      (hstate : q.controller.state = p.controller.state) (hrec : q.reclaimed = p.reclaimed)
      (htick : q.tick = .idle ∨ ∃ idle todo, q.tick = .escalating idle todo)
      (hleave : ∀ idle, p.tick ≠ .leaving idle) : Moved cfg ag p e q
  | suspends {e : Event} {order : List ℕ} {tick : Tick} (hy : Yields cfg p e)
      (hfrom : p.tick = .idle ∧ p.reclaimed = false ∨ p.tick = .sampling)
      (htick : tick = .reclaiming ∨
        (p.controller.state = .idle ∧ ∃ idle now, tick = .entering idle now)) :
      Moved cfg ag p e (p.beginSignal true order tick)
  | resumes {e : Event} {order : List ℕ} {idle : ℤ} (hsam : p.tick = .sampling) (hact : p.controller.state = .active) :
      Moved cfg ag p e (p.beginSignal false order (.leaving idle))
  | samples {e : Event} (hidle : p.tick = .idle) :
      Moved cfg ag p e { p with reclaimed := false, tick := .sampling }
  | signals {result : SignalResult} : Moved cfg ag p (.signal result) (p.signal ag result)
  | commits : Moved cfg ag p .commit p.commit
  | drains : Moved cfg ag p .drain p.drain

variable {e : Event} {order : List ℕ} {suspend : Bool} {tick : Tick} {q : Poll}

theorem Moved.same : Moved cfg ag p e p := .kept (.refl _) (.inl rfl)

theorem moved_sample : Moved cfg ag p (.sample idle now order) (p.sample cfg idle now order) := by
  unfold sample
  split
  · rename_i hsam
    have hleave : ∀ idle, p.tick ≠ .leaving idle := by simp [hsam]
    have hrest : Moved cfg ag p (.sample idle now order) p.finish :=
      .rests (Calm.refl _) (.inl rfl) rfl rfl (.inl rfl) hleave
    have hremember : ∀ i, Moved cfg ag p (.sample idle now order) (p.remember i) := fun _ =>
      .rests (Calm.refl _) (.inl rfl) rfl rfl (.inl rfl) hleave
    split
    · exact hrest
    split
    · exact hrest
    · rename_i hst
      split
      · rename_i hfresh
        exact .suspends ⟨hsam, hst, hfresh⟩ (.inr hsam) (.inr ⟨hst, _, _, rfl⟩)
      · exact hremember _
    · rename_i hact
      split
      · exact .resumes hsam hact
      · split
        · exact .rests (Calm.refl _) (.inl rfl) rfl rfl (.inr ⟨_, _, rfl⟩) hleave
        · exact hremember _
  · exact .same

/-- Every event is one of these moves. -/
theorem moved_step : Moved cfg ag p e (p.step cfg ag e) := by
  cases e with
  | tick flag order =>
    simp only [step, beginTick]
    split
    · rename_i hidle
      split
      · rename_i hflag
        split
        · exact .rests (.refl _) (.inl rfl) rfl rfl (.inl rfl) (by simp [hidle])
        · rename_i hrec
          have hrec : p.reclaimed = false := by simpa using hrec
          exact .suspends ⟨hidle, hflag, hrec⟩ (.inl ⟨hidle, hrec⟩) (.inl rfl)
      · exact .samples hidle
    · exact .same
  | sample idle now order => exact moved_sample
  | signal result => exact .signals
  | commit => exact .commits
  | escalate =>
    simp only [step, escalate]
    split
    · rename_i idle m rest ht
      split
      · exact .rests (calm_stopReplica p.sup .poll m) (.inr ⟨.stopReplica .poll m, rfl, rfl⟩) rfl
          rfl (.inr ⟨_, _, rfl⟩) (by simp [ht])
      · exact .same
    · rename_i idle ht
      split
      · exact .rests (.refl _) (.inl rfl) rfl rfl (.inl rfl) (by simp [ht])
      · exact .same
    · exact .same
  | job k =>
    simp only [step, job]
    split
    · exact .kept (.refl _) (.inl rfl)
    · rename_i m rest hj
      split
      · exact .kept (calm_stopReplica p.sup (.reclaim k) m)
          (.inr ⟨.stopReplica (.reclaim k) m, rfl, rfl⟩)
      · exact .same
    · exact .same
  | drain => exact .drains
  | background a =>
    simp only [step]
    split
    · rename_i ha
      exact .kept (calm_background ha) (.inr ⟨a, byCaller_background ha, rfl⟩)
    · exact .same

theorem oneStep_beginSignal : OneStep ag p.sup (p.beginSignal suspend order tick).sup := by
  unfold beginSignal
  split
  · exact .inr ⟨.snapshot suspend order, rfl, rfl⟩
  · exact .inl rfl

/-- REFINES: the poll thread drives the supervisor through its own steps only. -/
theorem oneStep_step : OneStep ag p.sup (p.step cfg ag e).sup := by
  have hm : Moved cfg ag p e (p.step cfg ag e) := moved_step
  generalize p.step cfg ag e = q at hm ⊢
  cases hm with
  | kept _ ho | rests _ ho => exact ho
  | suspends | resumes => exact oneStep_beginSignal
  | samples => exact .inl rfl
  | signals =>
    rename_i result
    unfold signal
    split <;> first | exact .inr ⟨.signal result, rfl, rfl⟩ | exact .inl rfl
  | commits =>
    unfold commit
    split
    · split <;> first | exact .inr ⟨.commit, rfl, rfl⟩ | exact .inl rfl
    · exact .inl rfl
  | drains =>
    unfold drain
    split <;> exact .inl rfl

theorem sup_start_step : (p.step cfg ag e).sup.start = p.sup.start := by
  have hone : OneStep ag p.sup (p.step cfg ag e).sup := oneStep_step
  rcases hone with heq | ⟨a, ha, heq⟩
  · rw [heq]
  · rw [heq]; exact start_step ha

/-! ### The steps of the caller -/

theorem Yielded.setStart (h : Yielded p)
    (hs : Starting { p.sup with start := pc } → p.Away) :
    Yielded { p with sup := { p.sup with start := pc } } where
  __ := h
  starting hst := have ha := hs hst; { ha with }

section
variable (h : Yielded p)
include h

/-- A start may begin only while the user is away. -/
theorem Yielded.startReplica (ha : p.Away) (m : String) (port : ℕ) (gpu : Bool) :
    Yielded { p with sup := p.sup.startReplica m port gpu } := by
  unfold State.startReplica
  split
  · split
    · exact h
    · exact h.setStart fun _ => ha
  · exact h

/-- The process a start spawns is the one that runs unsuspended; the user is away. -/
theorem Yielded.spawn (ok : Bool) : Yielded { p with sup := p.sup.spawn ok } := by
  unfold State.spawn
  split
  · rename_i m port gpu hs
    have ha : p.Away := h.starting (.inl ⟨m, port, gpu, hs⟩)
    split
    · refine ⟨?_, ?_, h.resuming, h.sampled, h.entering, ?_⟩
      · rintro (⟨hst, -⟩ | hr)
        · exact absurd hst ha.state
        · exact absurd hr (by simp [ha.reclaimed])
      · rintro (ht | ⟨i, n, ht⟩)
        · exact absurd ht ha.reclaiming
        · exact absurd ht (ha.entering i n)
      · exact fun _ => { ha with }
    · exact h.setStart fun hst => absurd hst (not_starting (.inl rfl))
  · exact h

theorem Yielded.register (handle : Bool) : Yielded { p with sup := p.sup.register handle } := by
  unfold State.register
  split
  · rename_i c hs
    have hc : Calm p.sup ((p.sup.setProc c { p.sup.procs c with handle := handle }).setTables
        (p.sup.tables.registerChild (p.sup.modelOf c) (p.sup.procs c).port (p.sup.procs c).gpu c)) := by
      refine .setTables (.setProc (.refl _) ?_ ?_) _
      · exact id
      · rfl
    exact (h.calm hc).setStart fun hst => absurd hst (not_starting (.inr ⟨c, rfl⟩))
  · exact h

theorem Yielded.launch : Yielded { p with sup := p.sup.launch } := by
  unfold State.launch
  split
  · rename_i c hs
    have hc : Calm p.sup ((p.sup.setHealth c (.top .startup)).setTables { p.sup.tables with
          healthDone := p.sup.tables.healthDone.insert (p.sup.modelOf c) c }) :=
      ((Calm.refl _).setHealth _ _).setTables _
    exact (h.calm hc).setStart fun hst => absurd hst (not_starting (.inl rfl))
  · exact h

end

theorem starting_spawn (h : Starting (s.spawn ok)) : Starting s := by
  unfold spawn at h
  split at h
  · rename_i m port gpu hs
    exact .inl ⟨m, port, gpu, hs⟩
  · exact h

theorem starting_register (h : Starting (s.register handle)) : Starting s := by
  unfold register at h
  split at h
  · rename_i c hs
    exact .inr ⟨c, hs⟩
  · exact h

theorem starting_launch (h : Starting s.launch) : Starting s := by
  unfold launch at h
  split at h
  · exact absurd h (not_starting (.inl rfl))
  · exact h

/-! ### The steps of the poll thread -/

/-- Outside the supervisor's calls only the user's presence and the starts matter. -/
theorem Yielded.over (htick : q.tick = .idle ∨ ∃ idle todo, q.tick = .escalating idle todo)
    (hquiet : q.UserPresent → AllSuspended q.sup) (hstart : Starting q.sup → q.Away) :
    Yielded q where
  quiet := hquiet
  yielding ht := by
    rcases htick with hq | ⟨_, _, hq⟩ <;> rcases ht with ht | ⟨_, _, ht⟩ <;>
      exact absurd (hq.symm.trans ht) (by simp)
  resuming _ ht := by
    rcases htick with hq | ⟨_, _, hq⟩ <;> exact absurd (hq.symm.trans ht) (by simp)
  sampled ht := by
    rcases htick with hq | ⟨_, _, hq⟩ <;> rcases ht with ht | ⟨_, _, ht⟩ <;>
      exact absurd (hq.symm.trans ht) (by simp)
  entering _ _ ht := by
    rcases htick with hq | ⟨_, _, hq⟩ <;> exact absurd (hq.symm.trans ht) (by simp)
  starting := hstart

section
variable (h : Yielded p) {idle : ℤ}
include h

/-- The poll thread goes back to rest, whatever it noted on the way. -/
theorem Yielded.rest (hc : Calm p.sup q.sup)
    (hstate : q.controller.state = p.controller.state) (hrec : q.reclaimed = p.reclaimed)
    (htick : q.tick = .idle ∨ ∃ idle todo, q.tick = .escalating idle todo)
    (hleave : ∀ idle, p.tick ≠ .leaving idle) : Yielded q := by
  have hcalm := h.calm hc
  refine .over htick (fun hu => hcalm.quiet ?_) fun hst => ?_
  · rcases hu with ⟨hst, -⟩ | hr
    · exact .inl ⟨hstate ▸ hst, hleave⟩
    · exact .inr (hrec ▸ hr)
  · have ha := hcalm.starting hst
    refine ⟨hstate ▸ ha.state, hrec ▸ ha.reclaimed, ?_, ?_⟩
    · rcases htick with hq | ⟨_, _, hq⟩ <;> rw [hq] <;> simp
    · rcases htick with hq | ⟨_, _, hq⟩ <;> rw [hq] <;> simp

/-- The snapshot of a `SuspendAll` has every live process that is not suspended yet. -/
theorem Yielded.beginSuspend (hleave : ∀ idle, p.tick ≠ .leaving idle) (hrec : p.reclaimed = false)
    (hst : ¬ Starting p.sup) (hset : Settled p.sup) (htick : tick = .reclaiming ∨
      (p.controller.state = .idle ∧ ∃ idle now, tick = .entering idle now)) :
    Yielded (p.beginSignal true order tick) := by
  unfold beginSignal
  split
  · rename_i hen
    have hsnap : p.sup.snapshot true order =
        { p.sup with signal := .sending true order order [] } := by
      rw [snapshot, if_pos hen]
    rw [hsnap]
    refine ⟨?_, ?_, fun _ _ => ⟨hrec, _, _, _, _, rfl⟩, fun _ => hrec, ?_, fun hs => absurd hs hst⟩
    · rintro (⟨hact, -⟩ | hr)
      · exact h.quiet (.inl ⟨hact, hleave⟩)
      · exact absurd hr (by simp [hrec])
    · refine fun _ => ⟨order, order, [], rfl, fun c hlt ha => ?_⟩
      rcases hset c hlt ha with hc | hs
      · exact .inl (hen.2.2.mem_iff.mpr (Dict.mem_values.mpr ⟨_, hc⟩))
      · exact .inr hs
    · rintro idle now hen'
      rcases htick with rfl | ⟨hidle, -⟩
      · cases hen'
      · exact hidle
  · exact h

theorem Yielded.beginResume (hrec : p.reclaimed = false) (hact : p.controller.state = .active) :
    Yielded (p.beginSignal false order (.leaving idle)) := by
  unfold beginSignal
  split
  · rename_i hen
    have hsnap : p.sup.snapshot false order =
        { p.sup with signal := .sending false order order [] } := by
      rw [snapshot, if_pos hen]
    rw [hsnap]
    refine ⟨?_, ?_, fun _ _ => ⟨hrec, _, _, _, _, rfl⟩, fun _ => hrec, ?_, ?_⟩
    · rintro (⟨-, hl⟩ | hr)
      · exact absurd rfl (hl idle)
      · exact absurd hr (by simp [hrec])
    · rintro (ht | ⟨_, _, ht⟩) <;> cases ht
    · rintro _ _ ⟨⟩
    · exact fun hs => absurd hact (h.starting hs).state
  · exact h

theorem Yielded.samples (hidle : p.tick = .idle) :
    Yielded { p with reclaimed := false, tick := .sampling } := by
  refine ⟨?_, ?_, by rintro _ ⟨⟩, fun _ => rfl, by rintro _ _ ⟨⟩, fun hs => ?_⟩
  · rintro (⟨hact, -⟩ | hr)
    · exact h.quiet (.inl ⟨hact, by simp [hidle]⟩)
    · cases hr
  · rintro (ht | ⟨_, _, ht⟩) <;> cases ht
  · exact ⟨(h.starting hs).state, rfl, by simp, by simp⟩

variable {snap todo : List ℕ} {van : List String} {result : SignalResult}

omit h in
/-- A delivered signal takes its process off the list and leaves it as it was told. -/
theorem sendSignal_spec

    (hs : s.signal = .sending suspend snap (c :: todo) van)
    (hd : (s.procs c).alive = true →
      result = .ok ∧ vanishes ag (s.procs c) result = false) :
    (∃ van', (s.sendSignal ag result).signal = .sending suspend snap todo van') ∧
      (s.sendSignal ag result).count = s.count ∧ (s.sendSignal ag result).start = s.start ∧
      (∀ c', ((s.sendSignal ag result).procs c').alive = (s.procs c').alive) ∧
      (∀ c' ≠ c, ((s.sendSignal ag result).procs c').suspended = (s.procs c').suspended) ∧
      ((s.procs c).alive = true → ((s.sendSignal ag result).procs c).suspended = suspend) := by
  cases ha : (s.procs c).alive with
  | false =>
    have heq : s.sendSignal ag result =
        { s with signal := .sending suspend snap todo (van ++ [s.modelOf c]) } := by
      simp [sendSignal, hs, ha]
    rw [heq]
    exact ⟨⟨_, rfl⟩, rfl, rfl, fun _ => rfl, fun _ _ => rfl, by simp⟩
  | true =>
    obtain ⟨rfl, hv⟩ := hd ha
    have heq : s.sendSignal ag .ok = { s.setProc c { s.procs c with suspended := suspend } with
          signal := .sending suspend snap todo van } := by
      simp [sendSignal, hs, ha, hv]
    rw [heq]
    refine ⟨⟨_, rfl⟩, rfl, rfl, ?_, ?_, ?_⟩
    · intro c'
      rcases eq_or_ne c' c with rfl | hne
      · simp [ha]
      · simp [update_of_ne hne]
    · intro c' hne
      simp [update_of_ne hne]
    · simp

/-- One more signal of a `SuspendAll`. -/
theorem Yielded.suspendNext (hs : p.sup.signal = .sending true snap (c :: todo) van)
    (hd : (p.sup.procs c).alive = true → result = .ok ∧ vanishes ag (p.sup.procs c) result = false)
    (htick : p.tick = .reclaiming ∨ ∃ idle now, p.tick = .entering idle now) :
    Yielded { p with sup := p.sup.sendSignal ag result } := by
  obtain ⟨⟨van', hs'⟩, hcount, hstart, halive, hother, hself⟩ := sendSignal_spec hs hd
  obtain ⟨_, _, _, hs₀, hall⟩ := h.yielding htick
  obtain ⟨-, -, rfl, -⟩ := SignalPc.sending.inj (hs.symm.trans hs₀)
  have hkeep : ∀ c', (p.sup.procs c').alive = true → (p.sup.procs c').suspended = true →
      ((p.sup.sendSignal ag result).procs c').suspended = true := by
    intro c' ha hsus
    rcases eq_or_ne c' c with rfl | hne
    · exact hself ha
    · rw [hother c' hne]; exact hsus
  refine ⟨?_, ?_, ?_, h.sampled, h.entering, ?_⟩
  · intro hu c' hlt ha
    rw [halive] at ha
    exact hkeep c' ha (h.quiet hu c' (hcount ▸ hlt) ha)
  · refine fun _ => ⟨snap, todo, van', hs', fun c' hlt ha => ?_⟩
    rw [halive] at ha
    rcases hall c' (hcount ▸ hlt) ha with hm | hsus
    · rcases List.mem_cons.mp hm with rfl | hm
      · exact .inr (hself ha)
      · exact .inl hm
    · exact .inr (hkeep c' ha hsus)
  · exact fun idle ht => ⟨(h.resuming idle ht).1, true, snap, todo, van', hs'⟩
  · intro hst
    have ha := h.starting (hst.of_start hstart)
    exact { ha with }

/-- One more signal of a `ResumeAll`: the user is not counted as present any more. -/
theorem Yielded.resumeNext (hs : p.sup.signal = .sending suspend snap (c :: todo) van)
    (hd : (p.sup.procs c).alive = true → result = .ok ∧ vanishes ag (p.sup.procs c) result = false)
    (htick : p.tick = .leaving idle) : Yielded { p with sup := p.sup.sendSignal ag result } := by
  obtain ⟨⟨van', hs'⟩, hcount, hstart, -, -, -⟩ := sendSignal_spec hs hd
  have hrec := (h.resuming idle htick).1
  refine ⟨?_, ?_, fun _ _ => ⟨hrec, suspend, snap, todo, van', hs'⟩, h.sampled, h.entering, ?_⟩
  · rintro (⟨-, hl⟩ | hr)
    · exact absurd htick (hl idle)
    · exact absurd hr (by simp [hrec])
  · rintro (ht | ⟨_, _, ht⟩) <;> exact absurd (htick.symm.trans ht) (by simp)
  · intro hst
    have ha := h.starting (hst.of_start hstart)
    exact { ha with }

theorem Yielded.signal (hd : Delivers ag p (.signal result)) : Yielded (p.signal ag result) := by
  -- inside a call the signal is never given up, so the thread stays where it is
  have hin : ∀ {suspend snap todo van}, p.sup.signal = .sending suspend snap todo van →
      (∀ c rest, todo = c :: rest → Yielded { p with sup := p.sup.sendSignal ag result }) →
      Yielded { p with
        sup := p.sup.sendSignal ag result
        tick := if (p.sup.sendSignal ag result).signal = .idle then .idle else p.tick } := by
    intro suspend snap todo van hs hnext
    cases todo with
    | nil =>
      have heq : p.sup.sendSignal ag result = p.sup := by simp [sendSignal, hs]
      rw [heq, if_neg (by simp [hs])]
      exact h
    | cons c rest =>
      obtain ⟨⟨van', hs'⟩, -⟩ := sendSignal_spec hs (hd _ _ _ _ _ hs)
      rw [if_neg (by simp [hs'])]
      exact hnext c rest rfl
  simp only [Poll.signal]
  split
  · rename_i ht
    obtain ⟨snap, todo, van, hs, -⟩ := h.yielding (.inl ht)
    refine hin hs fun c rest hc => ?_
    subst hc
    exact h.suspendNext hs (hd _ _ _ _ _ hs) (.inl ht)
  · rename_i idle now ht
    obtain ⟨snap, todo, van, hs, -⟩ := h.yielding (.inr ⟨idle, now, ht⟩)
    refine hin hs fun c rest hc => ?_
    subst hc
    exact h.suspendNext hs (hd _ _ _ _ _ hs) (.inr ⟨idle, now, ht⟩)
  · rename_i idle ht
    obtain ⟨-, b, snap, todo, van, hs⟩ := h.resuming idle ht
    refine hin hs fun c rest hc => ?_
    subst hc
    exact h.resumeNext hs (hd _ _ _ _ _ hs) ht
  · exact h

omit h in
theorem commit_spec (hs : s.signal = .sending suspend snap [] van) :
    s.commit.count = s.count ∧ s.commit.start = s.start ∧
      (∀ c, (s.commit.procs c).alive = (s.procs c).alive) ∧
      (∀ c, (s.commit.procs c).suspended = (s.procs c).suspended) := by
  have hprocs : s.commit.procs = s.shutdownVanished snap van := by simp [State.commit, hs]
  refine ⟨by simp [State.commit, hs], by simp [State.commit, hs], ?_, ?_⟩ <;> intro c <;>
    rw [hprocs, shutdownVanished] <;> split <;> rfl

theorem Yielded.commit : Yielded p.commit := by
  unfold Poll.commit
  split
  · rename_i suspend snap van hs
    obtain ⟨hcount, hstart, halive, hsusp⟩ := commit_spec hs
    -- after the last signal of a suspend nothing is left to do
    have hall : p.tick = .reclaiming ∨ (∃ idle now, p.tick = .entering idle now) →
        AllSuspended p.sup.commit := by
      intro ht c hlt ha
      obtain ⟨_, _, _, hs', hall⟩ := h.yielding ht
      obtain ⟨-, -, rfl, -⟩ := SignalPc.sending.inj (hs.symm.trans hs')
      rw [hsusp]
      rw [halive] at ha
      rcases hall c (hcount ▸ hlt) ha with hm | hsus
      · cases hm
      · exact hsus
    have haway : Starting p.sup.commit → p.Away := fun hst =>
      h.starting (hst.of_start hstart)
    split
    · rename_i ht
      exact .over (.inl rfl) (fun _ => hall (.inl ht)) fun hst =>
        absurd ht (haway hst).reclaiming
    · rename_i idle now ht
      exact .over (.inl rfl) (fun _ => hall (.inr ⟨idle, now, ht⟩)) fun hst =>
        absurd ht ((haway hst).entering idle now)
    · rename_i idle ht
      have hrec := (h.resuming idle ht).1
      refine .over (.inl rfl) ?_ fun _ => ⟨by simp [finish], hrec, by simp [finish],
        by simp [finish]⟩
      rintro (⟨hact, -⟩ | hr)
      · cases hact
      · exact absurd hr (by simp [finish, hrec])
    · exact h
  · exact h

/-- FRAME: the invariant does not look at the jobs. -/
theorem Yielded.setJobs (jobs : List (Option (List String))) : Yielded { p with jobs := jobs } where
  __ := h
  starting hst := have ha := h.starting hst; { ha with }

theorem Yielded.drain : Yielded p.drain := by
  unfold Poll.drain
  split
  · rename_i hfree
    have hent : ∀ idle now, p.tick ≠ .entering idle now := by
      intro idle now ht
      simp [controllerFree, ht] at hfree
    refine ⟨?_, h.yielding, h.resuming, h.sampled, fun idle now ht => absurd ht (hent idle now), ?_⟩
    · rintro (⟨hact, -⟩ | hr)
      · cases hact
      · exact h.quiet (.inr hr)
    · intro hst
      have ha := h.starting hst
      exact ⟨by simp, ha.reclaimed, ha.reclaiming, ha.entering⟩
  · exact h

/-- INVARIANT: every event keeps it whose signals are delivered and whose `SuspendAll`, if it calls
    one, finds every live process in its snapshot. -/
theorem Yielded.step
    (hy : Yields cfg p e → ¬ Starting p.sup ∧ Settled p.sup) (hd : Delivers ag p e) :
    Yielded (p.step cfg ag e) := by
  have hm : Moved cfg ag p e (p.step cfg ag e) := moved_step
  generalize p.step cfg ag e = q at hm ⊢
  cases hm with
  | kept hc => exact (h.calm hc).setJobs _
  | rests hc _ hstate hrec htick hleave => exact h.rest hc hstate hrec htick hleave
  | suspends hyes hfrom htick =>
    obtain ⟨hst, hset⟩ := hy hyes
    rcases hfrom with ⟨hidle, hrec⟩ | hsam
    · exact h.beginSuspend (by simp [hidle]) hrec hst hset htick
    · exact h.beginSuspend (by simp [hsam]) (h.sampled (.inl hsam)) hst hset htick
  | resumes hsam hact => exact h.beginResume (h.sampled (.inl hsam)) hact
  | samples hidle => exact h.samples hidle
  | signals => exact h.signal hd
  | commits => exact h.commit
  | drains => exact h.drain

end

/-! ### What stays while no `SuspendAll` is called -/

/-- No reclaim, present or under way. -/
structure Unreclaimed (p : Poll) : Prop where
  reclaimed : p.reclaimed = false
  reclaiming : p.tick ≠ .reclaiming

/-- No return of the user, seen or under way. -/
structure Inactive (p : Poll) : Prop where
  state : p.controller.state ≠ .active
  entering : ∀ idle now, p.tick ≠ .entering idle now

theorem Away.of_halves (hu : p.Unreclaimed) (hi : p.Inactive) : p.Away :=
  ⟨hi.state, hu.reclaimed, hu.reclaiming, hi.entering⟩

theorem Away.unreclaimed (h : p.Away) : p.Unreclaimed := ⟨h.reclaimed, h.reclaiming⟩

theorem Away.inactive (h : p.Away) : p.Inactive := ⟨h.state, h.entering⟩

/-- What an event that calls no `SuspendAll` can do: finish the call that is under way, resume,
    drain. It starts nothing against the user. -/
structure Modest (e : Event) (p q : Poll) : Prop where
  reclaimed : q.reclaimed = true → p.reclaimed = true ∨ p.tick = .reclaiming
  state : q.controller.state = p.controller.state ∨ q.controller.state = .idle ∨
    (∃ idle now, p.tick = .entering idle now) ∨ (e = .drain ∧ q.controller.state = .draining)
  reclaiming : q.tick = .reclaiming → p.tick = .reclaiming
  entering : ∀ idle now, q.tick = .entering idle now → p.tick = .entering idle now

theorem Modest.same (hr : q.reclaimed = p.reclaimed) (hs : q.controller.state = p.controller.state)
    (ht : q.tick = p.tick ∨ (q.tick ≠ .reclaiming ∧ ∀ idle now, q.tick ≠ .entering idle now)) :
    Modest e p q where
  reclaimed h := .inl (hr ▸ h)
  state := .inl hs
  reclaiming h := by
    rcases ht with ht | ht
    · exact ht ▸ h
    · exact absurd h ht.1
  entering idle now h := by
    rcases ht with ht | ht
    · exact ht ▸ h
    · exact absurd h (ht.2 idle now)

theorem Modest.refl : Modest e p p := .same rfl rfl (.inl rfl)

theorem modest_commit : Modest .commit p p.commit := by
  unfold commit
  split
  · split
    · rename_i ht
      exact ⟨fun _ => .inr ht, .inl rfl, by simp [finish], by simp [finish]⟩
    · rename_i idle now ht
      exact ⟨.inl, .inr (.inr (.inl ⟨idle, now, ht⟩)), by simp [finish], by simp [finish]⟩
    · exact ⟨.inl, .inr (.inl rfl), by simp [finish], by simp [finish]⟩
    · exact .refl
  · exact .refl

theorem modest_signal : Modest e p (p.signal ag result) := by
  have hgive : Modest e p { p with
      sup := p.sup.sendSignal ag result
      tick := if (p.sup.sendSignal ag result).signal = .idle then .idle else p.tick } := by
    split
    · exact Modest.same rfl rfl (.inr (by simp))
    · exact Modest.same rfl rfl (.inl rfl)
  unfold signal
  split
  · exact hgive
  · exact hgive
  · exact hgive
  · exact .refl

section
variable (hy : ¬ Yields cfg p e)
include hy

theorem modest_step : Modest e p (p.step cfg ag e) := by
  have hm : Moved cfg ag p e (p.step cfg ag e) := moved_step
  generalize p.step cfg ag e = q at hm ⊢
  cases hm with
  | kept => exact Modest.same rfl rfl (.inl rfl)
  | rests _ _ hstate hrec htick =>
    refine Modest.same hrec hstate (.inr ?_)
    rcases htick with hq | ⟨_, _, hq⟩ <;> simp [hq]
  | suspends hyes => exact absurd hyes hy
  | resumes =>
    unfold beginSignal
    split
    · exact Modest.same rfl rfl (.inr (by simp))
    · exact .refl
  | samples => exact ⟨by simp, .inl rfl, by simp, by simp⟩
  | signals => exact modest_signal
  | commits => exact modest_commit
  | drains =>
    unfold drain
    split
    · exact ⟨.inl, .inr (.inr (.inr ⟨rfl, rfl⟩)), id, fun _ _ => id⟩
    · exact .refl

theorem Unreclaimed.step (h : p.Unreclaimed) : (p.step cfg ag e).Unreclaimed := by
  have hm : Modest e p (p.step cfg ag e) := modest_step hy
  refine ⟨?_, fun ht => h.reclaiming (hm.reclaiming ht)⟩
  refine Bool.eq_false_iff.mpr fun hr => ?_
  rcases hm.reclaimed hr with hr | ht
  · exact absurd hr (by simp [h.reclaimed])
  · exact h.reclaiming ht

theorem Inactive.step (h : p.Inactive) : (p.step cfg ag e).Inactive := by
  have hm : Modest e p (p.step cfg ag e) := modest_step hy
  refine ⟨?_, fun idle now ht => h.entering idle now (hm.entering idle now ht)⟩
  rcases hm.state with hs | hs | ⟨idle, now, ht⟩ | ⟨-, hs⟩
  · rw [hs]; exact h.state
  · simp [hs]
  · exact absurd ht (h.entering idle now)
  · simp [hs]

/-- Without a drain, IDLE stays IDLE as well. -/
theorem Inactive.idle_step (h : p.Inactive) (hidle : p.controller.state = .idle) (hdrain : e ≠ .drain) :
    (p.step cfg ag e).controller.state = .idle := by
  have hm : Modest e p (p.step cfg ag e) := modest_step hy
  rcases hm.state with hs | hs | ⟨idle, now, ht⟩ | ⟨hd, -⟩
  · rw [hs]; exact hidle
  · exact hs
  · exact absurd ht (h.entering idle now)
  · exact absurd hd hdrain

end

end Poll
end Fallow.Preempt

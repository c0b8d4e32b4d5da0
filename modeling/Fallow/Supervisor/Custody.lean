import Fallow.Lib.Run
import Fallow.Supervisor.Machine

/-! Who answers for a live process of the supervisor.

    A live process should be tracked under its model id, or be in the hands of the `StartReplica`
    that spawned it and has yet to register it, or be on its way down. The tables are keyed by model
    id, while a health loop and a snapshot belong to one child: if a section runs for a child whose
    model has been started again, it strikes the new child.

        start c1 ── exit c1 ── SuspendAll prunes ── start c2 ── health loop of c1: markCrashed
                                                                      └─▶ c2 alive, untracked -/

namespace Fallow.Supervisor.State

open Fallow.Lib Function List Option State Tables Dict

variable {s s' : State} {ag : Agent} {van : List String} {pc : HealthPc} {t : Thread}
  {delivered : Bool} {a : Act} {m : String}

/-- A `StopReplica` holds the child, or a kill was decided on or delivered. -/
def TornDown (s : State) (c : ℕ) : Prop :=
  (∃ t call, s.stops t = some call ∧ call.child = c) ∨
    (s.health c = .kill ∨ s.health c = .reap) ∨ (s.procs c).killed = true

/-- Somebody answers for the process. -/
def Held (s : State) (c : ℕ) : Prop :=
  s.child? (s.modelOf c) = some c ∨ s.start = .spawned c ∨ s.TornDown c

/-- Every process that was spawned and is still alive is held. -/
def NoneLost (s : State) : Prop := ∀ c < s.count, (s.procs c).alive = true → s.Held c

/-- The action is one of the child's own: a step of its health loop, the commit of a signal taken
    for it, or a stop of its model. -/
def Concerns (s : State) (c : ℕ) : Act → Prop
  | .health c' | .probe c' _ | .clock c' _ | .healthKill c' _ | .slots c' _ => c' = c
  | .commit => ∃ suspend snapshot todo vanished,
      s.signal = .sending suspend snapshot todo vanished ∧ c ∈ snapshot
  | .stopReplica _ modelId => modelId = s.modelOf c
  | _ => False

/-- No other child is tracked under the child's model id. -/
def Current (s : State) (c : ℕ) : Prop := ∀ c', s.child? (s.modelOf c) = some c' → c' = c

/-- What keeps custody: a health loop takes the lock to mark its child, and a commit is made for
    the children of its snapshot, only while no other child has their model ids; signals and kills
    reach a process that is alive. -/
def Orderly (ag : Agent) (s : State) : Act → Prop
  | .health c => s.health c = .ready ∨ s.health c = .crashed → s.Current c
  | .commit => ∀ suspend snapshot todo vanished,
      s.signal = .sending suspend snapshot todo vanished → ∀ c ∈ snapshot, s.Current c
  | .signal result => ∀ suspend snapshot c todo vanished,
      s.signal = .sending suspend snapshot (c :: todo) vanished →
        (s.procs c).alive = true → vanishes ag (s.procs c) result = false
  | .stopKill t delivered => ∀ call, s.stops t = some call →
      (s.procs call.child).alive = true → delivered = true
  | .healthKill c delivered => (s.procs c).alive = true → delivered = true
  | _ => True

/-! ### The invariant -/

/-- What a snapshot knows until it is committed. -/
structure Taken (s : State) (snapshot todo : List ℕ) (vanished : List String) : Prop where
  distinct : ∀ c ∈ snapshot, ∀ c' ∈ snapshot, s.modelOf c = s.modelOf c' → c = c'
  born : ∀ c ∈ snapshot, c < s.count
  ahead : ∀ c ∈ todo, c ∈ snapshot
  gone : ∀ c ∈ snapshot, s.modelOf c ∈ vanished → (s.procs c).alive = false

structure Inv (s : State) : Prop where
  tracked : ∀ m c, s.child? m = some c → c < s.count ∧ s.modelOf c = m
  checked : ∀ m port gpu, s.start = .checked m port gpu → s.child? m = none
  spawned : ∀ c, s.start = .spawned c →
    c < s.count ∧ s.child? (s.modelOf c) = none ∧ s.health c = .unstarted
  registered : ∀ c, s.start = .registered c → c < s.count ∧ s.health c = .unstarted
  unborn : ∀ c, s.count ≤ c → s.health c = .unstarted
  crashed : ∀ c, s.health c = .reap ∨ s.health c = .crashed →
    (s.procs c).alive = true → (s.procs c).killed = true
  stopping : ∀ t call, s.stops t = some call → call.child < s.count ∧
    (call.phase = .reap ∨ call.phase = .join →
      (s.procs call.child).alive = true → (s.procs call.child).killed = true)
  sending : ∀ suspend snapshot todo vanished,
    s.signal = .sending suspend snapshot todo vanished → s.Taken snapshot todo vanished
  held : s.NoneLost

theorem inv_initial : Inv initial where
  tracked := by intro m c h; cases h
  checked := by intro m port gpu h; cases h
  spawned := by intro c h; cases h
  registered := by intro c h; cases h
  unborn := fun _ _ => rfl
  crashed := by rintro c (h | h) <;> cases h
  stopping := by intro t call h; cases h
  sending := by intro _ _ _ _ h; cases h
  held := by intro c h; cases h

/-! ### One lemma per kind of update -/

/-- Processes only lose life and only gain kills. -/
structure Aged (s : State) (procs : ℕ → Proc) : Prop where
  model : ∀ c, (procs c).modelId = (s.procs c).modelId
  alive : ∀ c, (procs c).alive = true → (s.procs c).alive = true
  killed : ∀ c, (s.procs c).killed = true → (procs c).killed = true

theorem Taken.of_procs
    (h : s.Taken snap todo van) (hp : s'.procs = s.procs) (hc : s'.count = s.count) :
    s'.Taken snap todo van := by
  obtain ⟨hdistinct, hborn, hahead, hgone⟩ := h
  constructor <;> simpa only [modelOf, hp, hc]

section
variable (h : Inv s)
include h

theorem Inv.age {procs : ℕ → Proc} (hp : s.Aged procs) : Inv { s with procs := procs } where
  __ := h
  tracked m c hc := by
    have := h.tracked m c hc
    exact ⟨this.1, (hp.model c).trans this.2⟩
  spawned c hc := by
    obtain ⟨hlt, hnone, hun⟩ := h.spawned c hc
    refine ⟨hlt, ?_, hun⟩
    change s.child? (procs c).modelId = none
    rw [hp.model]; exact hnone
  crashed c hc ha := hp.killed c (h.crashed c hc (hp.alive c ha))
  stopping t call hc := by
    obtain ⟨hlt, hk⟩ := h.stopping t call hc
    exact ⟨hlt, fun hph ha => hp.killed _ (hk hph (hp.alive _ ha))⟩
  sending b snap todo van hs := by
    obtain ⟨hd, hb, ht, hg⟩ := h.sending b snap todo van hs
    refine ⟨?_, hb, ht, ?_⟩
    · intro c hc c' hc' heq
      refine hd c hc c' hc' ?_
      simpa only [modelOf, hp.model] using heq
    · intro c hc hm
      have : (s.procs c).alive = false := hg c hc (by simpa only [modelOf, hp.model] using hm)
      exact Bool.eq_false_iff.mpr fun ha => by simp [hp.alive c ha] at this
  held c hc ha := by
    refine (h.held c hc (hp.alive c ha)).imp (fun h => ?_)
      (.imp_right (.imp_right (.imp_right (hp.killed c))))
    change s.child? (procs c).modelId = some c
    rw [hp.model]; exact h

variable {c : ℕ} {p : Proc} {next : Option StopCall}

omit h in
theorem aged_update (hm : p.modelId = (s.procs c).modelId)
    (ha : p.alive = true → (s.procs c).alive = true)
    (hk : (s.procs c).killed = true → p.killed = true) : s.Aged (update s.procs c p) := by
  refine ⟨?_, ?_, ?_⟩ <;> intro c' <;> rcases eq_or_ne c' c with rfl | hne
  · rw [update_self]; exact hm
  · rw [update_of_ne hne]
  · rw [update_self]; exact ha
  · rw [update_of_ne hne]; exact id
  · rw [update_self]; exact hk
  · rw [update_of_ne hne]; exact id

theorem Inv.setProc (hm : p.modelId = (s.procs c).modelId)
    (ha : p.alive = true → (s.procs c).alive = true)
    (hk : (s.procs c).killed = true → p.killed = true) : Inv (s.setProc c p) :=
  h.age (aged_update hm ha hk)

/-- A health loop moves on. It has to leave a kill with the kill delivered. -/
theorem Inv.setHealth (hlt : c < s.count)
    (hsp : s.start ≠ .spawned c) (hreg : s.start ≠ .registered c)
    (hin : pc = .reap ∨ pc = .crashed → (s.procs c).alive = true → (s.procs c).killed = true)
    (hout : s.health c = .kill → pc = .kill ∨
      ((s.procs c).alive = true → (s.procs c).killed = true)) : Inv (s.setHealth c pc) where
  __ := h
  spawned c' hc' := by
    obtain ⟨hlt, hnone, hun⟩ := h.spawned c' hc'
    have hne : c' ≠ c := by rintro rfl; exact hsp hc'
    exact ⟨hlt, hnone, (update_of_ne hne _ _).trans hun⟩
  registered c' hc' := by
    obtain ⟨hlt, hun⟩ := h.registered c' hc'
    have hne : c' ≠ c := by rintro rfl; exact hreg hc'
    exact ⟨hlt, (update_of_ne hne _ _).trans hun⟩
  unborn c' hc' := by
    have hne : c' ≠ c := by rintro rfl; exact absurd hlt (Nat.not_lt_of_le hc')
    exact (update_of_ne hne _ _).trans (h.unborn c' hc')
  crashed c' hc' := by
    rcases eq_or_ne c' c with rfl | hne
    · simp only [setHealth_health, update_self] at hc'
      exact hin hc'
    · simp only [setHealth_health, update_of_ne hne] at hc'
      exact h.crashed c' hc'
  sending b snap todo van hs := (h.sending b snap todo van hs).of_procs rfl rfl
  held c' hlt ha := by
    refine (h.held c' hlt ha).imp_right (.imp_right ?_)
    rintro (h' | h' | h')
    · exact .inl h'
    · rcases eq_or_ne c' c with rfl | hne
      · rcases h' with hk | hr
        · rcases hout hk with hpc | hkill
          · exact .inr (.inl (.inl (by simp [hpc])))
          · exact .inr (.inr (hkill ha))
        · exact .inr (.inr (h.crashed c' (.inl hr) ha))
      · refine .inr (.inl ?_)
        simpa only [setHealth_health, update_of_ne hne] using h'
    · exact .inr (.inr h')

/-- A loop that runs belongs to a child that was registered and launched. -/
theorem Inv.running (hrun : s.health c ≠ .unstarted) :
    c < s.count ∧ s.start ≠ .spawned c ∧ s.start ≠ .registered c := by
  refine ⟨?_, ?_, ?_⟩
  · by_contra hge
    exact hrun (h.unborn c (Nat.le_of_not_lt hge))
  · exact fun hs => hrun (h.spawned c hs).2.2
  · exact fun hs => hrun (h.registered c hs).2

/-- A stop begins, moves on or ends. Its child stays with it until it is dead or killed. -/
theorem Inv.putStop (hnext : ∀ call', next = some call' → call'.child < s.count ∧
      (call'.phase = .reap ∨ call'.phase = .join →
        (s.procs call'.child).alive = true → (s.procs call'.child).killed = true))
    (hold : ∀ call, s.stops t = some call → (∃ call', next = some call' ∧
      call'.child = call.child) ∨ ((s.procs call.child).alive = true →
        (s.procs call.child).killed = true)) : Inv (s.setStop t next) where
  __ := h
  stopping t' call' hc' := by
    rcases eq_or_ne t' t with rfl | hne
    · simp only [setStop_stops, update_self] at hc'
      exact hnext call' hc'
    · simp only [setStop_stops, update_of_ne hne] at hc'
      exact h.stopping t' call' hc'
  sending b snap todo van hs := (h.sending b snap todo van hs).of_procs rfl rfl
  held c hlt ha := by
    refine (h.held c hlt ha).imp_right (.imp_right ?_)
    rintro (⟨t', call', hc', rfl⟩ | h')
    · rcases eq_or_ne t' t with rfl | hne
      · rcases hold call' hc' with ⟨call'', hn, hchild⟩ | hkill
        · exact .inl ⟨t', call'', by simp [hn], hchild⟩
        · exact .inr (.inr (hkill ha))
      · refine .inl ⟨t', call', ?_, rfl⟩
        simpa only [setStop_stops, update_of_ne hne] using hc'
    · exact .inr h'

theorem Inv.setStop (hc : s.stops t = some call)
    (hnext : ∀ call', next = some call' → call'.child = call.child ∧
      (call'.phase = .reap ∨ call'.phase = .join →
        (s.procs call.child).alive = true → (s.procs call.child).killed = true))
    (hend : next = none → (s.procs call.child).alive = true →
      (s.procs call.child).killed = true) : Inv (s.setStop t next) := by
  refine h.putStop (fun call' hn => ?_) fun call' hc' => ?_
  · obtain ⟨hchild, hk⟩ := hnext call' hn
    rw [hchild]
    exact ⟨(h.stopping t call hc).1, hk⟩
  · obtain rfl : call' = call := mem_unique hc' hc
    cases hn : next with
    | none => exact .inr (hend hn)
    | some call'' => exact .inl ⟨call'', rfl, (hnext call'' hn).1⟩

/-- A section may drop a child from the tables if it is dead or on its way down. -/
theorem Inv.setTables {t : Tables}
    (hch : ∀ m, t.children.get m = s.child? m ∨ (t.children.get m = none ∧
      ∀ c, s.child? m = some c → (s.procs c).alive = true → s.TornDown c)) :
    Inv (s.setTables t) where
  __ := h
  tracked m c hc := by
    rcases hch m with heq | ⟨hnone, -⟩
    · exact h.tracked m c (heq.symm.trans hc)
    · exact absurd (hnone.symm.trans hc) (by simp)
  checked m port gpu hs := by
    rcases hch m with heq | ⟨hnone, -⟩
    · exact heq.trans (h.checked m port gpu hs)
    · exact hnone
  spawned c hs := by
    obtain ⟨hlt, hnone, hun⟩ := h.spawned c hs
    rcases hch (s.modelOf c) with heq | ⟨hn, -⟩
    · exact ⟨hlt, heq.trans hnone, hun⟩
    · exact ⟨hlt, hn, hun⟩
  sending b snap todo van hs := (h.sending b snap todo van hs).of_procs rfl rfl
  held c hlt ha := by
    rcases h.held c hlt ha with h' | h' | h'
    · rcases hch (s.modelOf c) with heq | ⟨-, hdown⟩
      · exact .inl (heq.trans h')
      · exact .inr (.inr (hdown c h' ha))
    · exact .inr (.inl h')
    · exact .inr (.inr h')

/-- The caller moves on without a spawned process in its hands. -/
theorem Inv.setStart {pc : StartPc} (hold : ∀ c, s.start ≠ .spawned c)
    (hpc : ∀ c, pc ≠ .spawned c ∧ pc ≠ .registered c)
    (hchecked : ∀ m port gpu, pc = .checked m port gpu → s.child? m = none) :
    Inv { s with start := pc } where
  __ := h
  checked := hchecked
  spawned c hs := absurd hs (hpc c).1
  registered c hs := absurd hs (hpc c).2
  sending b snap todo van hs := (h.sending b snap todo van hs).of_procs rfl rfl
  held c hlt ha := by
    rcases h.held c hlt ha with h' | h' | h'
    · exact .inl h'
    · exact absurd h' (hold c)
    · exact .inr (.inr h')

/-! ### StartReplica -/

theorem Inv.startReplica (m : String) (port : ℕ) (gpu : Bool) :
    Inv (s.startReplica m port gpu) := by
  unfold State.startReplica
  split
  · rename_i hidle
    split
    · exact h
    rename_i hnone
    refine h.setStart (fun c => by simp [hidle.1]) (fun c => by simp) ?_
    rintro m' port' gpu' ⟨⟩
    exact not_isSome_iff_eq_none.mp hnone
  · exact h

theorem Inv.spawn (ok : Bool) : Inv (s.spawn ok) := by
  unfold State.spawn
  split
  · rename_i m port gpu hs
    split
    · -- everything known is about numbers below the new one
      have hold : ∀ c < s.count, update s.procs s.count
          { modelId := m, port := port, gpu := gpu } c = s.procs c :=
        fun c hlt => update_of_ne (Nat.ne_of_lt hlt) _ _
      have hmodel : ∀ c < s.count, (update s.procs s.count
          ({ modelId := m, port := port, gpu := gpu } : Proc) c).modelId = s.modelOf c :=
        fun c hlt => congrArg Proc.modelId (hold c hlt)
      refine ⟨?_, ?_, ?_, ?_, ?_, ?_, ?_, ?_, ?_⟩
      · intro m' c hc
        obtain ⟨hlt, hm⟩ := h.tracked m' c hc
        exact ⟨Nat.lt_succ_of_lt hlt, (hmodel c hlt).trans hm⟩
      · rintro m' port' gpu' ⟨⟩
      · rintro c ⟨⟩
        refine ⟨Nat.lt_succ_self _, ?_, h.unborn _ le_rfl⟩
        change s.child? (update s.procs s.count _ s.count).modelId = none
        rw [update_self]
        exact h.checked m port gpu hs
      · rintro c ⟨⟩
      · exact fun c hc => h.unborn c (Nat.le_of_succ_le hc)
      · intro c hc ha
        have hlt : c < s.count := by
          by_contra hge
          have hun := h.unborn c (Nat.le_of_not_lt hge)
          rcases hc with hc | hc <;> exact absurd (hun.symm.trans hc) (by simp)
        change (update s.procs s.count _ c).alive = true at ha
        change (update s.procs s.count _ c).killed = true
        rw [hold c hlt] at ha ⊢
        exact h.crashed c hc ha
      · intro t call hc
        obtain ⟨hlt, hk⟩ := h.stopping t call hc
        refine ⟨Nat.lt_succ_of_lt hlt, ?_⟩
        change _ → (update s.procs s.count _ call.child).alive = true →
          (update s.procs s.count _ call.child).killed = true
        rw [hold _ hlt]
        exact hk
      · intro b snap todo van hsig
        obtain ⟨hd, hb, ht, hg⟩ := h.sending b snap todo van hsig
        refine ⟨?_, fun c hc => Nat.lt_succ_of_lt (hb c hc), ht, ?_⟩
        · intro c hc c' hc' heq
          refine hd c hc c' hc' ?_
          exact (hmodel c (hb c hc)).symm.trans (heq.trans (hmodel c' (hb c' hc')))
        · intro c hc hm
          change (update s.procs s.count _ c).alive = false
          rw [hold c (hb c hc)]
          exact hg c hc (by rw [← hmodel c (hb c hc)]; exact hm)
      · intro c hlt ha
        rcases Nat.lt_succ_iff_lt_or_eq.mp hlt with hlt | rfl
        · change (update s.procs s.count _ c).alive = true at ha
          rw [hold c hlt] at ha
          rcases h.held c hlt ha with h' | h' | h' | h' | h'
          · refine .inl ?_
            change s.child? (update s.procs s.count _ c).modelId = some c
            rw [hold c hlt]; exact h'
          · rw [hs] at h'; cases h'
          · exact .inr (.inr (.inl h'))
          · exact .inr (.inr (.inr (.inl h')))
          · refine .inr (.inr (.inr (.inr ?_)))
            change (update s.procs s.count _ c).killed = true
            rw [hold c hlt]; exact h'
        · exact .inr (.inl rfl)
    · exact h.setStart (fun c => by simp [hs]) (fun c => by simp) (by simp)
  · exact h

theorem Inv.register (handle : Bool) : Inv (s.register handle) := by
  unfold State.register
  split
  · rename_i c₀ hs
    have hp : Inv (s.setProc c₀ { s.procs c₀ with handle := handle }) :=
      h.setProc rfl id id
    obtain ⟨hlt, hnone, hun⟩ := h.spawned c₀ hs
    -- nothing was tracked under the model id, so the new entry replaces nothing
    have hchild : ∀ m, get (s.tables.registerChild (s.modelOf c₀) (s.procs c₀).port
        (s.procs c₀).gpu c₀).children m = if m = s.modelOf c₀ then some c₀ else s.child? m := by
      intro m
      rw [children_registerChild, get_insert]
      rfl
    have hmodel : ∀ c, (update s.procs c₀ { s.procs c₀ with handle := handle } c).modelId =
        s.modelOf c := by
      intro c
      rcases eq_or_ne c c₀ with rfl | hne
      · rw [update_self]; rfl
      · rw [update_of_ne hne]; rfl
    refine ⟨?_, ?_, ?_, ?_, hp.unborn, hp.crashed, hp.stopping, ?_, ?_⟩
    · intro m c hc
      have hc' := (hchild m).symm.trans hc
      split at hc'
      · rename_i hm
        cases hc'
        exact ⟨hlt, (hmodel c₀).trans hm.symm⟩
      · obtain ⟨hlt', hm⟩ := h.tracked m c hc'
        exact ⟨hlt', (hmodel c).trans hm⟩
    · rintro m port gpu ⟨⟩
    · rintro c ⟨⟩
    · rintro c ⟨⟩
      exact ⟨hlt, hun⟩
    · intro b snap todo van hsig
      have ht := hp.sending b snap todo van hsig
      exact { ht with }
    · intro c hltc ha
      rcases hp.held c hltc ha with h' | h' | h'
      · refine .inl ((hchild _).trans ?_)
        rw [if_neg]
        · exact h'
        · intro hm
          have h'' : s.child? (s.modelOf c₀) = some c := by rw [← hm]; exact h'
          rw [hnone] at h''
          cases h''
      · refine .inl ((hchild _).trans ?_)
        obtain rfl : c₀ = c := by
          have : s.start = .spawned c := h'
          rw [hs] at this
          exact StartPc.spawned.inj this
        exact if_pos (hmodel c₀)
      · exact .inr (.inr h')
  · exact h

theorem Inv.launch : Inv s.launch := by
  unfold State.launch
  split
  · rename_i c hs
    have hlt := (h.registered c hs).1
    have hun := (h.registered c hs).2
    have h₁ : Inv { s with start := .idle } :=
      h.setStart (fun c' => by simp [hs]) (fun c' => by simp) (by simp)
    have h₂ : Inv ({ s with start := .idle }.setHealth c (.top .startup)) :=
      h₁.setHealth hlt (by simp) (by simp) (by simp) (by simp [hun])
    exact h₂.setTables fun m => .inl rfl
  · exact h

/-! ### StopReplica -/

theorem Inv.stopReplica (t : Thread) (m : String) : Inv (s.stopReplica t m) := by
  unfold State.stopReplica
  split
  · rename_i hfree
    have hget : ∀ m', get (s.tables.stopReplica m).children m' =
        if m' = m then none else s.child? m' := by
      intro m'
      rw [children_stopReplica, get_erase]
      rfl
    cases hc : s.child? m with
    | none =>
      refine h.setTables fun m' => .inl ((hget m').trans ?_)
      split
      · rename_i heq; subst heq; exact hc.symm
      · rfl
    | some c =>
      -- the call takes the child before the tables forget it
      have hstop : Inv (s.setStop t (some { child := c, done := s.tables.healthDone.get m })) :=
        h.putStop (by rintro _ ⟨⟩; exact ⟨(h.tracked m c hc).1, by simp⟩) (by simp [hfree.1])
      refine hstop.setTables fun m' => ?_
      by_cases heq : m' = m
      · refine .inr ⟨(hget m').trans (if_pos heq), ?_⟩
        subst heq
        intro c' hc' _
        obtain rfl : c = c' := mem_unique hc hc'
        exact .inl ⟨t, _, update_self .., rfl⟩
      · exact .inl ((hget m').trans (if_neg heq))
  · exact h

theorem Inv.stopStep (t : Thread) : Inv (s.stopStep t) := by
  unfold State.stopStep
  split
  · exact h
  rename_i call hc
  split
  · have hp : Inv (s.setProc call.child { s.procs call.child with shutdown := true }) :=
      h.setProc rfl id id
    exact hp.setStop hc (by rintro _ ⟨⟩; simp) (by simp)
  · split
    · exact h
    · rename_i hdead
      exact h.setStop hc (by rintro _ ⟨⟩; exact ⟨rfl, fun _ ha => absurd ha hdead⟩) (by simp)
  · exact h
  · rename_i hphase
    have hk := (h.stopping t call hc).2 (.inl hphase)
    exact h.setStop hc (by rintro _ ⟨⟩; exact ⟨rfl, fun _ => hk⟩) (by simp)
  · rename_i hphase
    have hk := (h.stopping t call hc).2 (.inr hphase)
    exact h.setStop hc (by simp) fun _ => hk

theorem Inv.graceOver (t : Thread) : Inv (s.graceOver t) := by
  unfold State.graceOver
  split
  · rename_i call hc
    split
    · exact h.setStop hc (by rintro _ ⟨⟩; simp) (by simp)
    · exact h
  · exact h

theorem Inv.killProc (c : ℕ) (delivered : Bool) : Inv (s.killProc c delivered) :=
  h.setProc rfl id fun hk => by simp [hk]

end

theorem killed_killProc (hd : delivered = true) :
    ((s.killProc c delivered).procs c).killed = true := by
  simp [killProc, hd]

theorem alive_killProc : ((s.killProc c delivered).procs c).alive = (s.procs c).alive := by
  simp [killProc]

section
variable (h : Inv s)
include h

theorem Inv.stopKill
    (hd : Orderly ag s (.stopKill t delivered)) : Inv (s.stopKill t delivered) := by
  unfold State.stopKill
  split
  · rename_i call hc
    split
    · refine (h.killProc call.child delivered).setStop hc ?_ (by simp)
      rintro _ ⟨⟩
      refine ⟨rfl, fun _ ha => killed_killProc (hd call hc ?_)⟩
      rwa [alive_killProc] at ha
    · exact h
  · exact h

/-! ### SuspendAll and ResumeAll -/

/-- The poll thread moves on. -/
theorem Inv.setSignal {pc : SignalPc}
    (hpc : ∀ b snap todo van, pc = .sending b snap todo van → s.Taken snap todo van) :
    Inv { s with signal := pc } where
  __ := h
  sending b snap todo van hs := (hpc b snap todo van hs).of_procs rfl rfl

theorem Inv.snapshot (suspend : Bool) (order : List ℕ) : Inv (s.snapshot suspend order) := by
  unfold State.snapshot
  split
  · rename_i hs
    have hmem : ∀ c ∈ order, s.child? (s.modelOf c) = some c ∧ c < s.count := by
      intro c hc
      obtain ⟨m, hm⟩ := mem_values.mp (hs.2.2.mem_iff.mp hc)
      obtain ⟨hlt, hmodel⟩ := h.tracked m c hm
      exact ⟨hmodel ▸ hm, hlt⟩
    refine h.setSignal ?_
    rintro b snap todo van ⟨⟩
    refine ⟨?_, fun c hc => (hmem c hc).2, fun c hc => hc, by simp⟩
    intro c hc c' hc' heq
    have h₁ := (hmem c hc).1
    rw [heq, (hmem c' hc').1] at h₁
    exact (some.inj h₁).symm
  · exact h

theorem Inv.sendSignal {result : SignalResult}
    (ho : Orderly ag s (.signal result)) : Inv (s.sendSignal ag result) := by
  unfold State.sendSignal
  split
  · rename_i suspend snap c todo van hs
    obtain ⟨hd, hb, ht, hg⟩ := h.sending _ _ _ _ hs
    have hc : c ∈ snap := ht c mem_cons_self
    split
    · -- counted as vanished: by the condition it is dead
      rename_i hv
      have hdead : (s.procs c).alive = false := by
        rcases hv with hv | hv
        · exact Bool.eq_false_iff.mpr hv
        · refine Bool.eq_false_iff.mpr fun ha => ?_
          rw [ho _ _ _ _ _ hs ha] at hv
          cases hv
      refine h.setSignal ?_
      rintro b snap' todo' van' ⟨⟩
      refine ⟨hd, hb, fun c' hc' => ht c' (mem_cons_of_mem _ hc'), ?_⟩
      intro c' hc' hm
      rcases mem_concat.1 hm with hm | hm
      · exact hg c' hc' hm
      · obtain rfl := hd c' hc' c hc hm
        exact hdead
    · split
      · have hp : Inv (s.setProc c { s.procs c with suspended := suspend }) := h.setProc rfl id id
        refine hp.setSignal ?_
        rintro b snap' todo' van' ⟨⟩
        obtain ⟨hd', hb', ht', hg'⟩ := hp.sending _ _ _ _ hs
        exact ⟨hd', hb', fun c' hc' => ht' c' (mem_cons_of_mem _ hc'), hg'⟩
      · exact h.setSignal (by rintro b snap' todo' van' ⟨⟩)
  · exact h

omit h in
theorem aged_shutdownVanished : s.Aged (s.shutdownVanished snap van) := by
  refine ⟨?_, ?_, ?_⟩ <;> intro c <;> unfold shutdownVanished <;> split <;> simp

theorem Inv.commit (ho : Orderly ag s .commit) : Inv s.commit := by
  unfold State.commit
  split
  · rename_i suspend snap van hs
    obtain ⟨hd, hb, ht, hg⟩ := h.sending _ _ _ _ hs
    have h₁ : Inv (s.setTables (s.tables.commitSignal (snap.map s.modelOf) van suspend)) := by
      refine h.setTables fun m => ?_
      rw [children_commitSignal]
      split
      · -- what is dropped here is the child the snapshot was taken for, and it is dead
        rename_i hm
        refine .inr ⟨rfl, fun c hc ha => ?_⟩
        obtain ⟨c', hc', rfl⟩ := mem_map.mp hm.1
        obtain rfl := ho suspend snap [] van hs c' hc' c hc
        rw [hg c hc' hm.2] at ha
        cases ha
      · exact .inl rfl
    have h₂ : Inv { s.setTables (s.tables.commitSignal (snap.map s.modelOf) van suspend) with
        procs := s.shutdownVanished snap van } := by
      obtain ⟨hm, ha, hk⟩ := aged_shutdownVanished
      exact h₁.age ⟨hm, ha, hk⟩
    exact h₂.setSignal (by rintro b snap' todo' van' ⟨⟩)
  · exact h

/-! ### Health loops -/

theorem Inv.advance (hun : s.health c ≠ .unstarted) (hkill : s.health c ≠ .kill)
    (hin : pc = .reap ∨ pc = .crashed → (s.procs c).alive = true → (s.procs c).killed = true) :
    Inv (s.setHealth c pc) := by
  obtain ⟨hlt, hsp, hreg⟩ := h.running hun
  exact h.setHealth hlt hsp hreg hin fun hk => absurd hk hkill

theorem Inv.healthStep (ho : Orderly ag s (.health c)) : Inv (s.healthStep ag c) := by
  unfold State.healthStep
  split
  · rename_i phase hpc
    refine h.advance (by simp [hpc]) (by simp [hpc]) ?_
    split <;> simp
  · rename_i hpc
    refine h.advance (by simp [hpc]) (by simp [hpc]) ?_
    split
    · simp
    · rename_i hdead; exact fun _ ha => absurd ha hdead
  · rename_i hpc
    refine h.advance (by simp [hpc]) (by simp [hpc]) ?_
    split
    · rename_i hdead; exact fun _ ha => absurd ha hdead
    · split <;> simp
  · -- markReady leaves the tracked children alone
    rename_i hpc
    refine Inv.setTables (s := s.setHealth c (.top .serving)) (h.advance (by simp [hpc])
      (by simp [hpc]) (by simp)) fun m => .inl ?_
    rw [setTables_tables, children_markReady]
    rfl
  · rename_i hpc
    exact h.advance (by simp [hpc]) (by simp [hpc]) fun _ => h.crashed c (.inl hpc)
  · -- markCrashed drops its own child, which is dead or killed
    rename_i hpc
    refine Inv.setTables (s := s.setHealth c .done) (h.advance (by simp [hpc])
      (by simp [hpc]) (by simp)) fun m => ?_
    rw [setTables_tables, children_markCrashed, get_erase]
    split
    · rename_i hm
      subst hm
      refine .inr ⟨rfl, fun c' hc' ha => ?_⟩
      obtain rfl := ho (.inr hpc) c' hc'
      exact .inr (.inr (h.crashed c' (.inr hpc) ha))
    · exact .inl rfl
  · rename_i hpc
    refine h.advance (by simp [hpc]) (by simp [hpc]) ?_
    split <;> simp
  · rename_i count hpc
    refine Inv.setTables (s := s.setHealth c (.top .serving)) (h.advance (by simp [hpc])
      (by simp [hpc]) (by simp)) fun m => .inl ?_
    rw [setTables_tables, children_recordSlots]
    rfl
  · exact h

theorem Inv.probe (c : ℕ) (ok : Bool) : Inv (s.probe c ok) := by
  unfold State.probe
  split
  · rename_i hpc
    exact h.advance (by simp [hpc]) (by simp [hpc]) (by split <;> simp)
  · exact h

theorem Inv.clock (c : ℕ) (late : Bool) : Inv (s.clock c late) := by
  unfold State.clock
  split
  · rename_i hpc
    exact h.advance (by simp [hpc]) (by simp [hpc]) (by split <;> simp)
  · exact h

theorem Inv.healthKill
    (ho : Orderly ag s (.healthKill c delivered)) : Inv (s.healthKill c delivered) := by
  unfold State.healthKill
  split
  · rename_i hpc
    obtain ⟨hlt, hsp, hreg⟩ := h.running (c := c) (by simp [hpc])
    have hk : ((s.killProc c delivered).procs c).alive = true →
        ((s.killProc c delivered).procs c).killed = true := by
      rw [alive_killProc]
      exact fun ha => killed_killProc (ho ha)
    exact (h.killProc c delivered).setHealth hlt hsp hreg (fun _ => hk) fun _ => .inr hk
  · exact h

theorem Inv.slots (c : ℕ) (count : Option ℕ) : Inv (s.slots c count) := by
  unfold State.slots
  split
  · rename_i hpc
    exact h.advance (by simp [hpc]) (by simp [hpc]) (by cases count <;> simp)
  · exact h

theorem Inv.exit (c : ℕ) : Inv (s.exit c) := by
  unfold State.exit
  split
  · exact h.setProc rfl (by simp) id
  · exact h

/-- INVARIANT: every orderly step keeps it. -/
theorem Inv.step (ho : Orderly ag s a) : Inv (s.step ag a) := by
  cases a with
  | startReplica m port gpu => exact h.startReplica m port gpu
  | spawn ok => exact h.spawn ok
  | register handle => exact h.register handle
  | launch => exact h.launch
  | stopReplica t m => exact h.stopReplica t m
  | stopStep t => exact h.stopStep t
  | graceOver t => exact h.graceOver t
  | stopKill t delivered => exact h.stopKill ho
  | snapshot suspend order => exact h.snapshot suspend order
  | signal result => exact h.sendSignal ho
  | commit => exact h.commit ho
  | health c => exact h.healthStep ho
  | probe c ok => exact h.probe c ok
  | clock c late => exact h.clock c late
  | healthKill c delivered => exact h.healthKill ho
  | slots c count => exact h.slots c count
  | exit c => exact h.exit c

end

theorem Inv.reach (h : Reach (State.step ag) (Orderly ag) initial s) : Inv s :=
  h.invariant Inv inv_initial fun _ _ hi ho => hi.step ho

/-! ### Whose steps change an entry -/

/-- The tracked child and the recorded state of a model are as before. -/
def SameEntry (s s' : State) (m : String) : Prop :=
  s'.child? m = s.child? m ∧ s'.tables.states.get m = s.tables.states.get m

theorem sameEntry_of_tables (h : s'.tables = s.tables) : SameEntry s s' m := by
  refine ⟨?_, ?_⟩
  · simp only [child?, h]
  · rw [h]

theorem sameEntry_launch : SameEntry s s.launch m := by
  unfold launch; split <;> exact ⟨rfl, rfl⟩

variable {m : String}

theorem sameEntry_register (h : Inv s) (hc : s.child? m = some c)
    (handle : Bool) : SameEntry s (s.register handle) m := by
  unfold register
  split
  · rename_i c₀ hs
    have hne : m ≠ s.modelOf c₀ := by
      rintro rfl
      rw [(h.spawned c₀ hs).2.1] at hc
      cases hc
    refine ⟨?_, states_registerChild_ne hne⟩
    simp only [child?, children_registerChild]
    exact get_insert_ne hne
  · exact ⟨rfl, rfl⟩

theorem sameEntry_stopReplica (hne : m ≠ m') (t : Thread) : SameEntry s (s.stopReplica t m') m := by
  have key : SameEntry s (s.setTables (s.tables.stopReplica m')) m := by
    refine ⟨?_, states_stopReplica_ne hne⟩
    simp only [child?, setTables_tables, children_stopReplica, get_erase, if_neg hne]
  unfold stopReplica
  split
  · cases s.child? m' with
    | none => exact key
    | some c => exact key
  · exact ⟨rfl, rfl⟩

theorem sameEntry_commit (ho : Orderly ag s .commit)
    (hc : s.child? m = some c) (hn : ¬ s.Concerns c .commit) : SameEntry s s.commit m := by
  unfold commit
  split
  · rename_i suspend snap van hs
    have hm : m ∉ snap.map s.modelOf := by
      intro hm
      obtain ⟨c', hc', rfl⟩ := mem_map.mp hm
      obtain rfl := ho suspend snap [] van hs c' hc' c hc
      exact hn ⟨suspend, snap, [], van, hs, hc'⟩
    refine ⟨?_, states_commitSignal_of_notMem hm⟩
    simp only [child?, children_commitSignal]
    exact if_neg fun h => hm h.1
  · exact ⟨rfl, rfl⟩

theorem sameEntry_healthStep (ho : Orderly ag s (.health c'))
    (hc : s.child? m = some c) (hne : c' ≠ c) : SameEntry s (s.healthStep ag c') m := by
  have hother : s.health c' = .ready ∨ s.health c' = .crashed → m ≠ s.modelOf c' := by
    rintro hpc rfl
    exact hne (ho hpc c hc).symm
  unfold healthStep
  split
  · exact ⟨rfl, rfl⟩
  · exact ⟨rfl, rfl⟩
  · exact ⟨rfl, rfl⟩
  · rename_i hpc
    refine ⟨?_, states_markReady_ne (hother (.inl hpc))⟩
    simp only [child?, setHealth_tables, setTables_tables, children_markReady]
  · exact ⟨rfl, rfl⟩
  · rename_i hpc
    have hm := hother (.inr hpc)
    refine ⟨?_, states_markCrashed_ne hm⟩
    simp only [child?, setHealth_tables, setTables_tables, children_markCrashed,
      get_erase, if_neg hm]
  · exact ⟨rfl, rfl⟩
  · refine ⟨?_, ?_⟩
    · simp only [child?, setHealth_tables, setTables_tables, children_recordSlots]
    · simp only [setHealth_tables, setTables_tables, states_recordSlots]
  · exact ⟨rfl, rfl⟩

/-- FRAME: an orderly step that is none of the child's own leaves its entry alone. -/
theorem sameEntry_step (h : Inv s) (ho : Orderly ag s a)
    (hc : s.child? m = some c) (hn : ¬ s.Concerns c a) : SameEntry s (s.step ag a) m := by
  cases a with
  | register handle => exact sameEntry_register h hc handle
  | stopReplica t m' =>
    refine sameEntry_stopReplica ?_ t
    rintro rfl
    exact hn (h.tracked m c hc).2.symm
  | commit => exact sameEntry_commit ho hc hn
  | health c' => exact sameEntry_healthStep ho hc fun heq => hn heq
  | startReplica | spawn | stopStep | graceOver | stopKill | snapshot | signal | probe | clock
  | healthKill | slots | exit => exact sameEntry_of_tables (by simp [step])
  | launch => exact sameEntry_launch

/-- Only `registerChild` tracks a child, and only the one its caller has spawned. -/
theorem child?_step (h : (s.step ag a).child? m = some c) :
    s.child? m = some c ∨ (s.start = .spawned c ∧ ∃ handle, a = .register handle) := by
  have herase : ∀ m', get (s.tables.children.erase m') m = some c → s.child? m = some c := by
    intro m' hm
    rw [get_erase] at hm
    split at hm
    · cases hm
    · exact hm
  cases a with
  | startReplica | spawn | stopStep | graceOver | stopKill | snapshot | signal | probe | clock
  | healthKill | slots | exit => exact .inl (by simpa [child?, step] using h)
  | launch => exact .inl (sameEntry_launch.1 ▸ h)
  | register handle =>
    simp only [step, register] at h
    split at h
    · rename_i c₀ hs
      simp only [child?, children_registerChild, get_insert] at h
      split at h
      · cases h
        exact .inr ⟨hs, handle, rfl⟩
      · exact .inl h
    · exact .inl h
  | stopReplica t m' =>
    refine .inl ?_
    simp only [step, stopReplica] at h
    split at h
    · refine herase m' ?_
      cases hm : s.child? m' <;> rw [hm] at h <;>
        simpa only [child?, setStop_tables, setTables_tables, children_stopReplica] using h
    · exact h
  | commit =>
    refine .inl ?_
    simp only [step, commit] at h
    split at h
    · simp only [child?, children_commitSignal] at h
      split at h
      · cases h
      · exact h
    · exact h
  | health c' =>
    refine .inl ?_
    simp only [step, healthStep] at h
    split at h <;> first
      | exact h
      | simpa only [child?, setHealth_tables, setTables_tables, children_markReady,
          children_recordSlots] using h
      | exact herase _ (by
          simpa only [child?, setHealth_tables, setTables_tables, children_markCrashed] using h)

/-- CORRECT: along orderly steps no live process is lost, the entry of a tracked child is changed
    by its own steps only, and only its own registration makes it tracked. -/
theorem custody {ag : Agent} {s : State} (h : Reach (step ag) (Orderly ag) initial s) :
    s.NoneLost ∧ ∀ a, Orderly ag s a → ∀ m c,
      (s.child? m = some c → ¬ s.Concerns c a → SameEntry s (s.step ag a) m) ∧
      ((s.step ag a).child? m = some c →
        s.child? m = some c ∨ (s.start = .spawned c ∧ ∃ handle, a = .register handle)) := by
  have hinv := Inv.reach h
  refine ⟨hinv.held, fun a ho m c => ⟨fun hc hn => sameEntry_step hinv ho hc hn, child?_step⟩⟩

/-- A replica is started, becomes ready and is suspended. -/
def ordinaryRun : List Act :=
  [.startReplica "qwen" 9000 false, .spawn true, .register true, .launch,
    .health 0, .health 0, .probe 0 true, .health 0, .snapshot true [0], .signal .ok, .commit]

theorem custody_ordinaryRun : (runs (step .go) initial ordinaryRun).NoneLost ∧
      (runs (step .go) initial ordinaryRun).child? "qwen" = some 0 := by
  have hreach : Reach (step .go) (Orderly .go) initial (runs (step .go) initial ordinaryRun) := by
    refine Admitted.reach ordinaryRun .start
      ⟨trivial, trivial, trivial, trivial, ?_, ?_, trivial, ?_, trivial, ?_, ?_, trivial⟩
    · rintro (h | h) <;> cases h
    · rintro (h | h) <;> cases h
    · intro _ c' hc'
      exact (some.inj hc').symm
    · intro _ _ _ _ _ _ _
      rfl
    · rintro _ _ _ _ ⟨⟩ c hc c' hc'
      obtain rfl := mem_singleton.mp hc
      exact (some.inj hc').symm
  exact ⟨(custody hreach).1, by decide⟩

/-- The health loop of a child that exited has not taken the lock yet when `SuspendAll` prunes the
    child and the caller starts the model again. -/
def staleCrash : List Act :=
  [.startReplica "qwen" 9000 false, .spawn true, .register true, .launch,
    .exit 0, .health 0, .health 0, .snapshot true [0], .signal .ok, .commit,
    .startReplica "qwen" 9000 false, .spawn true, .register true, .launch, .health 0]

/-- The old loop takes the new child out of the tables: it runs on and nobody holds it, in either
    agent. -/
theorem stale_health_loop_loses_child : ¬ (runs (step .go) initial staleCrash).NoneLost ∧
      ¬ (runs (step .python) initial staleCrash).NoneLost := by
  have lost : ∀ ag, ¬ (runs (step ag) initial staleCrash).NoneLost := by
    intro ag h
    have hlt : 1 < (runs (step ag) initial staleCrash).count := by
      cases ag <;> decide +kernel
    have halive : ((runs (step ag) initial staleCrash).procs 1).alive = true := by
      cases ag <;> decide +kernel
    rcases h 1 hlt halive with h | h | ⟨t, call, h, -⟩ | h | h
    · revert h; cases ag <;> decide +kernel
    · revert h; cases ag <;> decide +kernel
    · have hnone : (runs (step ag) initial staleCrash).stops = fun _ => none := by
        cases ag <;> rfl
      rw [hnone] at h
      cases h
    · revert h; cases ag <;> decide +kernel
    · revert h; cases ag <;> decide +kernel
  exact ⟨lost .go, lost .python⟩

end Fallow.Supervisor.State

import Fallow.Queue.Tail

/-! Speculative backups: a poll lists the tail, another moment grants.

    `_try_backup_lease` awaits three times. The candidate query tests the tail of the owning job and
    its model; the grant is a transaction of its own and looks at the unit row alone:

        poll        backup_candidates ─────▶ snapshots, choose_backup_unit ─────▶ lease_backup
                    remaining ≤ max                                               leased,
                    model leasable                                                other holder
                                       ▲ anything else runs here ▲

    While a unit stays with the job it was listed under, the listing still holds at the grant: the
    tail of that job has only become shorter. A submission in between can hand the unit to a job of
    any size and model, and the grant does not notice. -/

namespace Fallow.App.Speculation
open Lib Queue List Option Prod

/-- The fields of `CoordinatorConfig` the backup path reads. -/
structure Config where
  queue : Queue.Config
  speculativeBackupEnabled : Bool
  speculativeTailMaxUnits : ℕ

/-- A work poll that has listed its candidates and not yet asked for a grant. -/
structure Poll where
  agentId : String
  leasable : List String
  candidates : List BackupCandidate
  deriving DecidableEq

structure State where
  store : Store := {}
  polls : List Poll := []
  deriving DecidableEq

inductive Act where
  /-- A call of another request; a restart drops the polls in flight. -/
  | call (op : Op)
  | list (agentId : String) (leasable : List String)
  /-- `choose_backup_unit` has picked `unitId` among the candidates of poll `i`. -/
  | grant (i : ℕ) (unitId : String) (now : ℤ)
  /-- It picked none, or the client went away. -/
  | leave (i : ℕ)

def tryBackupLease (cfg : Config) (s : State) (agentId : String) (leasable : List String) : State :=
  if cfg.speculativeBackupEnabled = false then s
  else match backupCandidates cfg.queue s.store agentId leasable cfg.speculativeTailMaxUnits with
    | .error _ => s
    | .ok candidates =>
      if candidates = [] then s
      else { s with polls := s.polls ++ [⟨agentId, leasable, candidates⟩] }

/-- The poll that resumes with a choice it may have made. -/
def chooser (s : State) (i : ℕ) (unitId : String) : Option Poll :=
  s.polls[i]?.filter fun p => unitId ∈ p.candidates.map (·.workUnitId)

def step (cfg : Config) (s : State) : Act → State
  -- backup leases are granted to polls only
  | .call (.leaseBackup _ _ _) => s
  | .call .reopen => ⟨reopen s.store, []⟩
  | .call op => { s with store := Queue.step cfg.queue s.store op }
  | .list agentId leasable => tryBackupLease cfg s agentId leasable
  | .grant i unitId now => match chooser s i unitId with
    | none => s
    | some p => ⟨(leaseBackup cfg.queue s.store p.agentId unitId now).1, s.polls.eraseIdx i⟩
  | .leave i => { s with polls := s.polls.eraseIdx i }

/-- The lease a step hands out, and the poll it answers. -/
def granted (cfg : Config) (s : State) : Act → Option (Poll × WorkUnitLease)
  | .grant i unitId now => (chooser s i unitId).bind fun p =>
      (leaseBackup cfg.queue s.store p.agentId unitId now).2.map (p, ·)
  | _ => none

/-! ### What speculation is meant to respect -/

/-- The unit's owner is in its tail and runs a model the poll asked for; another agent holds it. -/
def InTail (tailMax : ℕ) (db : Db) (p : Poll) (lease : WorkUnitLease) : Prop :=
  ∃ w r, db.workUnit lease.workUnitId = some w ∧ db.job w.jobId = some r ∧
    Sql.remainingUnits db w.jobId ≤ tailMax ∧ r.modelId ∈ p.leasable ∧
    w.leaseAgent ≠ some p.agentId

/-- The unfinished units of a job that have a backup lease. -/
def backedUp (db : Db) (j : String) : ℕ :=
  (Sql.jobMembers db j).countP fun m =>
    isOpen (Sql.resolvedState db m) && Sql.hasBackupLease db m.workUnitId

/-- A granted unit still belongs to the job it was listed under. -/
def SameOwner (cfg : Config) (s : State) (act : Act) : Prop :=
  ∀ p lease, granted cfg s act = some (p, lease) →
    ∃ c ∈ p.candidates, c.workUnitId = lease.workUnitId ∧ c.jobId = lease.jobId

/-! ### The two calls -/

/-- What a listed candidate says about its job. -/
def Listed (tailMax : ℕ) (db : Db) (p : Poll) (c : BackupCandidate) : Prop :=
  ∃ r, db.job c.jobId = some r ∧ r.modelId ∈ p.leasable ∧
    Sql.remainingUnits db c.jobId ≤ tailMax

variable {tailMax : ℕ} {cfg : Queue.Config} {s : Store} {agentId : String} {p : Poll}
  {c : BackupCandidate} {now : ℤ}

theorem listed_of_mem (h : backupCandidates cfg s agentId leasable tailMax = .ok candidates) :
    ∀ c ∈ candidates, Listed tailMax s.working ⟨agentId, leasable, candidates⟩ c := by
  intro c hc
  unfold backupCandidates at h
  split at h
  · cases h; cases hc
  split at h
  · cases h
  cases h
  obtain ⟨⟨w, r⟩, hin, rfl⟩ := mem_map.1 hc
  rw [Sql.selectBackupCandidates, mem_mergeSort, mem_filter, mem_filterMap] at hin
  obtain ⟨⟨w', -, hjoin⟩, htest⟩ := hin
  obtain ⟨r', hr, he⟩ := map_eq_some_iff.1 hjoin
  obtain ⟨rfl, rfl⟩ := mk.inj he
  obtain ⟨hmodel, -, -, -, htail⟩ := of_decide_eq_true htest
  exact ⟨r', hr, hmodel, htail⟩

/-- A query of one row needs no sorting. -/
theorem backupCandidates_one (cfg : Queue.Config) (s : Store) (agentId : String)
    (leasable : List String) (tailMax : ℕ) (w : UnitRow) (r : JobRow) (hne : leasable ≠ [])
    (hvars : leasable.length + 2 ≤ cfg.maxVariables)
    (hrows : ((s.working.workUnits.filter (·.state = .leased)).filterMap
        (Sql.joinJob s.working)).filter (fun p => p.2.modelId ∈ leasable ∧
          p.1.leaseAgent.any (· ≠ agentId) ∧ Sql.hasBackupLease s.working p.1.workUnitId = false ∧
          Sql.selectResultExists p.1.workUnitId s.working = false ∧
          Sql.remainingUnits s.working p.1.jobId ≤ tailMax) = [(w, r)]) :
    backupCandidates cfg s agentId leasable tailMax
      = .ok [⟨w.workUnitId, w.jobId, r.modelId, w.leaseAgent.getD "None", w.estDurationS⟩] := by
  rw [backupCandidates, if_neg hne, if_neg (not_lt.2 hvars), Sql.selectBackupCandidates, hrows,
    mergeSort_singleton]
  rfl

/-- Later, the same can be said: the job is there, with its model and a tail no longer. -/
theorem Listed.later (h : Listed tailMax db p c) (hl : Later {j | (db.job j).isSome} db db') :
    Listed tailMax db' p c := by
  obtain ⟨r, hr, hmodel, htail⟩ := h
  obtain ⟨r', hr', hm⟩ := hl.model _ r hr
  have hin : c.jobId ∈ {j | (db.job j).isSome} := isSome_iff_exists.2 ⟨r, hr⟩
  exact ⟨r', hr', hm ▸ hmodel, (hl.remaining _ hin).trans htail⟩

theorem leaseBackup_spec : leaseBackup cfg s agentId u now = (s, none) ∨
    ∃ w r lease db', s.working.workUnit u = some w ∧ s.working.job w.jobId = some r ∧
      w.leaseAgent ≠ some agentId ∧ lease.workUnitId = u ∧ lease.jobId = w.jobId ∧
      db' = { s.working with
        backupLeases := s.working.backupLeases ++ [backupRow cfg agentId u now w] } ∧
      leaseBackup cfg s agentId u now = (⟨db', db'⟩, some lease) := by
  unfold leaseBackup
  split
  · exact .inl rfl
  next w r ht =>
  obtain ⟨w', hw', hjoin⟩ := bind_eq_some_iff.1 ht
  obtain ⟨hw', htest⟩ := filter_eq_some_iff.1 hw'
  obtain ⟨r', hr, he⟩ := map_eq_some_iff.1 hjoin
  obtain ⟨rfl, rfl⟩ := mk.inj he
  obtain ⟨-, hother⟩ := of_decide_eq_true htest
  have hne : w'.leaseAgent ≠ some agentId := by
    intro hsame
    rw [hsame] at hother
    simp at hother
  unfold Sql.insertBackupLease
  dsimp only
  split
  · next h =>
    split at h
    · exact .inl rfl
    · cases h
  · next h =>
    split at h
    · cases h
    · cases h
      exact .inr ⟨w', r', _, _, hw', hr, hne, rfl, rfl, rfl, rfl⟩

/-! ### The invariant -/

/-- INVARIANT: an open unit with a backup belongs to a job in its tail, and so does every unit a
    poll in flight has listed, as far as its listing goes. -/
structure TailInv (tailMax : ℕ) (s : State) : Prop where
  queue : OutcomesInv s.store
  backed : ∀ b ∈ s.store.working.backupLeases, ∀ w,
    s.store.working.workUnit b.workUnitId = some w → Sql.isTerminal w.state = false →
      Sql.remainingUnits s.store.working w.jobId ≤ tailMax
  listed : ∀ p ∈ s.polls, ∀ c ∈ p.candidates, Listed tailMax s.store.working p c

theorem tailInv_empty : TailInv tailMax {} := ⟨outcomesInv_empty, nofun, nofun⟩

variable {s : State} {i : ℕ} {unitId : String}

section
variable (h : TailInv tailMax s)
include h

/-- A write that keeps the tails keeps the invariant. -/
theorem TailInv.kept
    (hq : OutcomesInv store) (hk : TailKept s.store.working store.working) :
    TailInv tailMax { s with store := store } := by
  refine ⟨hq, fun b hb w' hw' hopen => ?_, fun p hp c hc => (h.listed p hp c hc).later hk.later⟩
  obtain ⟨hold, hrow⟩ := hk.backups b hb
  obtain ⟨w, hw, hw0, hjob⟩ := hrow w' hw' hopen
  have hin : w.jobId ∈ {j | (s.store.working.job j).isSome} := h.queue.wf.working.unitJob _ w hw
  rw [hjob]
  exact (hk.later.remaining _ hin).trans (h.backed b hold w hw hw0)

/-- A call of another request. -/
theorem TailInv.call (cfg : Queue.Config)
    (hgrant : ∀ agentId u now, op ≠ .leaseBackup agentId u now) (hre : op ≠ .reopen) :
    TailInv tailMax { s with store := Queue.step cfg s.store op } := by
  refine h.kept (h.queue.step cfg op).1 ?_
  refine h.queue.wf.step_working cfg op (TailKept.refl _)
    (fun _ heff => heff.tail h.queue.wf.working hgrant) (fun jobId job now => ?_)
    fun hop => absurd hop hre
  exact ⟨Later.withJob jobId job now, fun b hb => ⟨hb, fun w hw ht => ⟨w, hw, ht, rfl⟩⟩⟩

/-- A restart keeps units, memberships and backups, and no poll. -/
theorem TailInv.reopen (cfg : Queue.Config) : TailInv tailMax ⟨reopen s.store, []⟩ := by
  obtain ⟨extra, -, hsync⟩ := h.queue.synced
  have he : Queue.reopen s.store = ⟨s.store.committed, s.store.committed⟩ := by
    rw [Queue.reopen, backfill_eq h.queue.wf.committed]
    rfl
  have hq : OutcomesInv (Queue.reopen s.store) := (h.queue.step cfg .reopen).1
  refine ⟨hq, ?_, by rintro _ ⟨⟩⟩
  have hb := h.backed
  rw [hsync] at hb
  rw [he]
  exact hb

/-- A grant that meets the condition adds a backup in the tail. -/
theorem TailInv.granted_inTail
    (hp : p ∈ s.polls) {w : UnitRow} (hr : s.store.working.job w.jobId = some r) (hc : c ∈ p.candidates) (hjob : c.jobId = w.jobId) :
    Sql.remainingUnits s.store.working w.jobId ≤ tailMax ∧ r.modelId ∈ p.leasable := by
  obtain ⟨r', hr', hmodel, htail⟩ := h.listed p hp c hc
  rw [hjob] at hr' htail
  obtain rfl : r = r' := mem_unique hr hr'
  exact ⟨htail, hmodel⟩

end

theorem mem_of_chooser (h : chooser s i unitId = some p) : p ∈ s.polls :=
  mem_of_getElem? (filter_eq_some_iff.1 h).1

theorem TailInv.grant {cfg : Config} (h : TailInv cfg.speculativeTailMaxUnits s) (hp : chooser s i unitId = some p)
    (hok : SameOwner cfg s (.grant i unitId now)) : TailInv cfg.speculativeTailMaxUnits
      ⟨(leaseBackup cfg.queue s.store p.agentId unitId now).1, s.polls.eraseIdx i⟩ := by
  have hq : OutcomesInv (leaseBackup cfg.queue s.store p.agentId unitId now).1 :=
    (h.queue.step cfg.queue (.leaseBackup p.agentId unitId now)).1
  rcases leaseBackup_spec with
    he | ⟨w, r, lease, db', hw, hr, hne, hu, hj, hdb, he⟩
  · rw [he]
    exact ⟨h.queue, h.backed, fun p hp => h.listed p (mem_of_mem_eraseIdx hp)⟩
  · obtain ⟨c, hc, -, hcj⟩ := hok p lease (by simp [granted, hp, he])
    have htail := (h.granted_inTail (mem_of_chooser hp) hr hc (hcj.trans hj)).1
    rw [he] at hq ⊢
    subst hdb
    refine ⟨hq, forall_mem_concat.2 ⟨h.backed, fun w' hw' _ => ?_⟩,
      fun p hp => h.listed p (mem_of_mem_eraseIdx hp)⟩
    obtain rfl : w = w' := mem_unique hw hw'
    exact htail

theorem TailInv.step {cfg : Config} (h : TailInv cfg.speculativeTailMaxUnits s)
    (act : Act) (hok : SameOwner cfg s act) :
    TailInv cfg.speculativeTailMaxUnits (step cfg s act) := by
  cases act with
  | call op =>
    cases op with
    | leaseBackup _ _ _ => exact h
    | reopen => exact h.reopen cfg.queue
    | _ => exact h.call cfg.queue nofun nofun
  | list agentId leasable =>
    simp only [Speculation.step, tryBackupLease]
    split
    · exact h
    split
    · exact h
    next candidates hc =>
    split
    · exact h
    exact ⟨h.queue, h.backed, forall_mem_concat.2 ⟨h.listed, listed_of_mem hc⟩⟩
  | grant i unitId now =>
    simp only [Speculation.step]
    split
    · exact h
    · next p hp => exact h.grant hp hok
  | leave i =>
    exact ⟨h.queue, h.backed, fun p hp => h.listed p (mem_of_mem_eraseIdx hp)⟩

/-- A job with a backup on an open unit is in its tail, so it has no more of them than that. -/
theorem TailInv.backedUp_le (h : TailInv tailMax s) (j : String) :
    backedUp s.store.working j ≤ tailMax := by
  by_cases hex : ∃ m ∈ Sql.jobMembers s.store.working j,
      isOpen (Sql.resolvedState s.store.working m) = true ∧
        Sql.hasBackupLease s.store.working m.workUnitId = true
  · obtain ⟨m, hm, hopen, hback⟩ := hex
    obtain ⟨hmem, hmj⟩ := mem_filter.1 hm
    have hmj : m.jobId = j := of_decide_eq_true hmj
    obtain ⟨b, hb, hbu⟩ := any_eq_true.1 hback
    have hbu : b.workUnitId = m.workUnitId := of_decide_eq_true hbu
    have hle : backedUp s.store.working j ≤ Sql.remainingUnits s.store.working j := by
      rw [remainingUnits_eq]
      exact countP_mono_left fun m' _ hm' => (Bool.and_eq_true_iff.1 hm').1
    refine hle.trans ?_
    cases ht : m.terminalState with
    | some st =>
      rw [Sql.resolvedState, ht, some_or, isOpen_some, h.queue.ok.terminal m hmem st ht] at hopen
      cases hopen
    | none =>
      rw [Sql.resolvedState, ht, none_or] at hopen
      cases hw : (s.store.working.workUnit m.workUnitId).filter (·.jobId = m.jobId) with
      | none => rw [hw] at hopen; cases hopen
      | some w =>
        rw [hw, map_some, isOpen_some, Bool.not_eq_true'] at hopen
        obtain ⟨hw, hwj⟩ := filter_eq_some_iff.1 hw
        have hwj : w.jobId = m.jobId := of_decide_eq_true hwj
        rw [← hmj, ← hwj]
        exact h.backed b hb w (hbu ▸ hw) hopen
  · have hzero : backedUp s.store.working j = 0 := by
      refine countP_eq_zero.2 fun m hm hboth => ?_
      exact hex ⟨m, hm, Bool.and_eq_true_iff.1 hboth⟩
    omega

/-! ### Every interleaving -/

/-- CORRECT: in every run whose grants find their unit with the job it was listed under, every
    grant is in the tail, and no job ever has more open units backed up than the tail is long. -/
theorem speculation_stays_in_tail (cfg : Config) (acts : List Act)
    (h : Admitted (step cfg) (SameOwner cfg) {} acts) :
    (∀ pre act post, acts = pre ++ act :: post → ∀ p lease,
      granted cfg (runs (step cfg) {} pre) act = some (p, lease) →
        InTail cfg.speculativeTailMaxUnits (runs (step cfg) {} pre).store.working p lease) ∧
    ∀ pre, pre <+: acts → ∀ j,
      backedUp (runs (step cfg) {} pre).store.working j ≤ cfg.speculativeTailMaxUnits := by
  have hinv : ∀ pre post, acts = pre ++ post →
      TailInv cfg.speculativeTailMaxUnits (runs (step cfg) {} pre) ∧
        Admitted (step cfg) (SameOwner cfg) (runs (step cfg) {} pre) post := by
    rintro pre post rfl
    obtain ⟨hpre, hpost⟩ := (admitted_append pre post _).1 h
    exact ⟨(Admitted.reach pre .start hpre).invariant _ tailInv_empty
      fun s a hs ha => hs.step a ha, hpost⟩
  refine ⟨fun pre act post he p lease hg => ?_, fun pre hpre j => ?_⟩
  · obtain ⟨hs, hok, -⟩ := hinv pre (act :: post) he
    cases act with
    | grant i unitId now =>
      obtain ⟨p', hp', hmap⟩ := bind_eq_some_iff.1 hg
      obtain ⟨lease', hl, hpair⟩ := map_eq_some_iff.1 hmap
      obtain ⟨rfl, rfl⟩ := mk.inj hpair
      rcases leaseBackup_spec with
        hnone | ⟨w, r, lease, db', hw, hr, hne, hu, hj, -, hsome⟩
      · rw [hnone] at hl
        cases hl
      · obtain rfl : lease = lease' := by
          rw [hsome] at hl
          exact some.inj hl
        obtain ⟨c, hc, -, hcj⟩ := hok p' lease hg
        obtain ⟨htail, hmodel⟩ := hs.granted_inTail (mem_of_chooser hp') hr hc (hcj.trans hj)
        exact ⟨w, r, hu ▸ hw, hr, htail, hmodel, hne⟩
    | _ => cases hg
  · obtain ⟨post, rfl⟩ := hpre
    exact (hinv pre post rfl).1.backedUp_le j

/-- One unit is a tail. -/
def oneUnitTail : Config := ⟨defaultConfig, true, 1⟩

/-- A job of one unit, leased to `a`. -/
def leasedToA : List Act :=
  [.call (.submitJob "job-1" ⟨.embed, "small", "payload", [], 0⟩ [⟨"unit", 0, "input", none⟩]
    false 0), .call (.leaseNext "a" ["small"] 1 0)]

/-- The unit as `b` sees it. -/
def unitOfA : BackupCandidate := ⟨"unit", "job-1", "small", "a", none⟩

theorem step_list_leasedToA :
    step oneUnitTail (runs (step oneUnitTail) {} leasedToA) (.list "b" ["small"])
      = ⟨(runs (step oneUnitTail) {} leasedToA).store, [⟨"b", ["small"], [unitOfA]⟩]⟩ := by
  have hpolls : (runs (step oneUnitTail) {} leasedToA).polls = [] := rfl
  have hlist : backupCandidates oneUnitTail.queue (runs (step oneUnitTail) {} leasedToA).store "b"
      ["small"] oneUnitTail.speculativeTailMaxUnits = .ok [unitOfA] := by
    have hone := backupCandidates_one defaultConfig (runs (step oneUnitTail) {} leasedToA).store
      "b" ["small"] 1
      ⟨"unit", "job-1", 0, "input", none, .leased, 1, some "a", some 120000001, 0⟩
      ⟨"job-1", .embed, "small", "payload", [], 0, .running, 0⟩
    exact hone (by decide) (by decide) (by decide +kernel)
  simp only [step, tryBackupLease, hlist, hpolls]
  rfl

theorem speculation_stays_in_tail_leasedToA :
    InTail 1 (runs (step oneUnitTail) {} (leasedToA ++ [.list "b" ["small"]])).store.working
        ⟨"b", ["small"], [unitOfA]⟩
        ⟨"unit", "job-1", .embed, "small", "input", 120000002, 5, none⟩ ∧
      backedUp (runs (step oneUnitTail) {}
        (leasedToA ++ [.list "b" ["small"], .grant 0 "unit" 2])).store.working "job-1" ≤ 1 := by
  have hgrant : granted oneUnitTail (runs (step oneUnitTail) {}
      (leasedToA ++ [.list "b" ["small"]])) (.grant 0 "unit" 2)
        = some (⟨"b", ["small"], [unitOfA]⟩,
          ⟨"unit", "job-1", .embed, "small", "input", 120000002, 5, none⟩) := by
    decide +kernel
  have hok : Admitted (step oneUnitTail) (SameOwner oneUnitTail) {}
      (leasedToA ++ [.list "b" ["small"], .grant 0 "unit" 2]) := by
    have hlist : Admitted (step oneUnitTail) (SameOwner oneUnitTail) {}
        (leasedToA ++ [.list "b" ["small"]]) := by
      exact ⟨nofun, nofun, nofun, trivial⟩
    have hone : SameOwner oneUnitTail (runs (step oneUnitTail) {}
        (leasedToA ++ [.list "b" ["small"]])) (.grant 0 "unit" 2) := by
      intro p lease hg
      obtain ⟨rfl, rfl⟩ := mk.inj (mem_unique hgrant hg)
      exact ⟨unitOfA, by simp, rfl, rfl⟩
    exact (admitted_append (leasedToA ++ [.list "b" ["small"]]) [.grant 0 "unit" 2] _).2
      ⟨hlist, And.intro hone trivial⟩
  have h := speculation_stays_in_tail oneUnitTail _ hok
  exact ⟨h.1 _ _ [] rfl _ _ hgrant, h.2 _ (prefix_refl _) "job-1"⟩

/-- Between listing and grant the unit goes to a job of two units and another model. -/
def reparented : List Act :=
  [.call (.submitJob "job-2" ⟨.embed, "large", "payload", [], 0⟩
      [⟨"unit", 0, "input", none⟩, ⟨"other", 1, "input", none⟩] false 2),
    .call (.leaseNext "c" ["large"] 3 0)]

/-- The grant is made all the same: two units are left, and `b` cannot run the model. -/
theorem reparented_unit_granted : ∃ p lease, granted oneUnitTail (runs (step oneUnitTail) {}
        (leasedToA ++ .list "b" ["small"] :: reparented)) (.grant 0 "unit" 4) = some (p, lease) ∧
      ¬ InTail 1 (runs (step oneUnitTail) {}
        (leasedToA ++ .list "b" ["small"] :: reparented)).store.working p lease ∧
      Sql.remainingUnits (runs (step oneUnitTail) {}
        (leasedToA ++ .list "b" ["small"] :: reparented)).store.working lease.jobId = 2 ∧
      lease.modelId ∉ p.leasable := by
  rw [runs_append, runs_cons, step_list_leasedToA]
  refine ⟨⟨"b", ["small"], [unitOfA]⟩,
    ⟨"unit", "job-2", .embed, "large", "input", 120000004, 5, none⟩, by decide +kernel, ?_,
    by decide +kernel, by decide⟩
  rintro ⟨w, r, hw, -, hrem, -⟩
  have hjob : ((runs (step oneUnitTail) ⟨(runs (step oneUnitTail) {} leasedToA).store,
      [⟨"b", ["small"], [unitOfA]⟩]⟩ reparented).store.working.workUnit "unit").map (·.jobId)
        = some "job-2" := by decide +kernel
  rw [hw, map_some] at hjob
  rw [some.inj hjob] at hrem
  revert hrem
  decide +kernel

end Fallow.App.Speculation

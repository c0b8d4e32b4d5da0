import Fallow.Queue.Outcomes

/-! The tail of a job only gets shorter.

    A job is in its tail while few of its units are pending or leased. Its memberships are all
    written by its own submission, and each of them leaves the count for good:

        open ──▶ outcome recorded        completion, death
        open ──▶ NULL                    another job takes the unit over, under a fresh job id
        open ──▶ open                    claim, requeue, renewed lease

    So what a call reads about the tail of a job stays true of that job; it says nothing about the
    job a unit belongs to later. -/

namespace Fallow.Queue
open Lib List Option

/-- The test of the tail count: `= 'pending' OR = 'leased'`. -/
def isOpen (s : Option WorkUnitState) : Bool := s = some .pending ∨ s = some .leased

theorem isOpen_some : isOpen (some s) = !Sql.isTerminal s := by
  cases s <;> rfl

theorem remainingUnits_eq : Sql.remainingUnits db j
      = (Sql.jobMembers db j).countP fun m => isOpen (Sql.resolvedState db m) :=
  countP_map

/-- `db'` comes later than `db`: the jobs in `js` have no more open units than before, and every
    job keeps its model. -/
structure Later (js : Set String) (db db' : Db) : Prop where
  remaining : ∀ j ∈ js, Sql.remainingUnits db' j ≤ Sql.remainingUnits db j
  model : ∀ j r, db.job j = some r → ∃ r', db'.job j = some r' ∧ r'.modelId = r.modelId

section
variable {js : Set String} {db : Db}

theorem Later.refl (js : Set String) (db : Db) : Later js db db :=
  ⟨fun _ _ => le_rfl, fun _ r h => ⟨r, h, rfl⟩⟩

theorem Later.trans (hab : Later js a b) (hbc : Later js b c) : Later js a c where
  remaining j hj := (hbc.remaining j hj).trans (hab.remaining j hj)
  model j r hr := by
    obtain ⟨r', hr', hm⟩ := hab.model j r hr
    obtain ⟨r'', hr'', hm'⟩ := hbc.model j r' hr'
    exact ⟨r'', hr'', hm'.trans hm⟩

/-- FRAME: writes to other tables. -/
theorem Later.of_eq (hw : db'.workUnits = db.workUnits)
    (hm : db'.jobUnitMemberships = db.jobUnitMemberships) (hj : db'.jobs = db.jobs) :
    Later js db db' where
  remaining j _ := by
    have hres : Sql.resolvedState db' = Sql.resolvedState db := by
      funext m
      simp only [Sql.resolvedState, Db.workUnit, hw]
    rw [Sql.remainingUnits, Sql.jobMembers, hm, hres]
    exact le_rfl
  model j r hr := ⟨r, by rwa [Db.job, hj], rfl⟩

/-! ### Unit and membership rows -/

/-- Rows that move without coming back from done or dead. -/
theorem Later.updateUnits
    (hid : ∀ w, (f w).workUnitId = w.workUnitId) (hjob : ∀ w, (f w).jobId = w.jobId)
    (hopen : ∀ w, p w → Sql.isTerminal (f w).state = false → Sql.isTerminal w.state = false) :
    Later js db { db with workUnits := Table.update p f db.workUnits } := by
  refine ⟨fun j _ => ?_, fun j r hr => ⟨r, hr, rfl⟩⟩
  rw [remainingUnits_eq, remainingUnits_eq]
  refine countP_mono_left fun m _ hm => ?_
  rw [resolvedState_updateUnits hid hjob] at hm
  rw [Sql.resolvedState]
  cases ht : m.terminalState with
  | some st => simpa only [ht, some_or] using hm
  | none =>
    rw [ht, none_or] at hm
    rw [none_or]
    cases hw : (db.workUnit m.workUnitId).filter (·.jobId = m.jobId) with
    | none => rw [hw] at hm; exact hm
    | some w =>
      rw [hw, map_some, isOpen_some, Bool.not_eq_true'] at hm
      rw [map_some, isOpen_some, Bool.not_eq_true']
      split at hm
      · next hp => exact hopen w hp hm
      · exact hm

theorem Later.updateMembers
    (hjob : ∀ m, (f m).jobId = m.jobId)
    (hopen : ∀ m, p m → isOpen (Sql.resolvedState db (f m)) → isOpen (Sql.resolvedState db m)) :
    Later js db { db with jobUnitMemberships := Table.update p f db.jobUnitMemberships } := by
  refine ⟨fun j _ => ?_, fun j r hr => ⟨r, hr, rfl⟩⟩
  have hmem : Sql.jobMembers { db with
        jobUnitMemberships := Table.update p f db.jobUnitMemberships } j
      = Table.update p f (Sql.jobMembers db j) :=
    Table.filter_update fun m _ => by rw [hjob]
  rw [remainingUnits_eq, remainingUnits_eq, hmem]
  change List.countP _ (List.map _ (Sql.jobMembers db j)) ≤ _
  rw [countP_map]
  refine countP_mono_left fun m _ hm => ?_
  change isOpen (Sql.resolvedState db (if p m then f m else m)) at hm
  split at hm
  · next hp => exact hopen m hp hm
  · exact hm

theorem Later.mark (j u : String) (hst : Sql.isTerminal st = true)
    (status : Option WorkResultStatus) (ref : Option String) :
    Later js db (Sql.markJobUnitTerminal j u st status ref db) := by
  refine .updateMembers (fun _ => rfl) fun m _ hm => ?_
  rw [Sql.resolvedState, some_or, isOpen_some, hst] at hm
  cases hm

/-! ### Job rows -/

theorem Later.recompute (js : Set String) (db : Db) (j : String) :
    Later js db (recomputeJobState j db) := by
  refine ⟨fun _ _ => le_rfl, fun k r hr => ?_⟩
  rw [job_recompute, hr]
  refine ⟨_, rfl, ?_⟩
  dsimp only
  split
  · rfl
  · rfl

theorem Later.withJob (jobId : String) (job : JobSubmit) (now : ℤ) :
    Later js db (withJob jobId job now db) := by
  refine ⟨fun _ _ => le_rfl, fun j r hr => ⟨r, ?_, rfl⟩⟩
  rw [Queue.withJob, Db.job, Table.get_append]
  rw [Db.job] at hr
  rw [hr, some_or]

/-! ### Requeue and completion -/

theorem Later.requeueTo (target : WorkUnitState)
    (hsel : ∀ w, sel w → w.state = .leased) : Later js db (Sql.requeueTo target sel db).1 :=
  .updateUnits (fun _ => rfl) (fun _ => rfl)
    fun w hp _ => isTerminal_of_active (.inl (hsel w hp))

theorem Later.requeue (cfg : Config) (hsel : ∀ w, selector w → w.state = .leased) (now : ℤ) :
    Later js db (requeue cfg selector now db).1 := by
  have hpending : Later js db (Sql.requeueToPending selector cfg.maxAttempts db).1 :=
    .requeueTo .pending fun w hw => hsel w (of_decide_eq_true hw).1
  have hdead : Later js (Sql.requeueToPending selector cfg.maxAttempts db).1
      (requeueRows cfg selector db).1 :=
    .requeueTo .dead fun w hw => hsel w (of_decide_eq_true hw).1
  exact requeue_keeps (hpending.trans hdead) (fun _ _ h => h.trans (.mark _ _ rfl none none))
    fun _ j h => h.trans (.recompute js _ j)

theorem Later.finalizeUnit (agentId : String) (now : ℤ) (unit : UnitRow) (result : WorkResult) :
    Later js db (finalizeUnit agentId now unit result db) := by
  have hins : Later js db (Sql.insertResult (resultRowParams result agentId now) db) :=
    .of_eq rfl rfl rfl
  have hdone : Later js (Sql.insertResult (resultRowParams result agentId now) db)
      (withResult agentId now result db) :=
    .updateUnits (fun _ => rfl) (fun _ => rfl) nofun
  have hterm : Sql.isTerminal .done = true := rfl
  obtain ⟨ref, -, he⟩ := finalizeUnit_eq
  rw [he]
  exact ((hins.trans hdone).trans (.mark unit.jobId result.workUnitId hterm _ ref)).trans
    (.recompute js _ unit.jobId)

/-! ### Submission -/

theorem Later.snapshot (hwf : Wf db) (u : String) :
    Later js db (Sql.snapshotTerminalOwner u db) := by
  rcases snapshot_eq hwf u with ⟨w, _, ht, he⟩ | ⟨_, he⟩
  · rw [he]
    refine .updateMembers (fun m => (Prod.mk.inj (recordOutcome_key _ m)).1) fun m _ hm => ?_
    unfold Sql.recordOutcome at hm
    split at hm
    · rw [Sql.resolvedState, Sql.ownerMembership, some_or, isOpen_some, ht] at hm
      cases hm
    · exact hm
  · rw [he]
    exact .refl js db

/-- A unit row handed over, with a membership row, to a job outside `js`. -/
theorem Later.attach (hjob : m.jobId = row.jobId)
    (hnot : row.jobId ∉ js) : Later js db (handed row m db) := by
  refine ⟨fun j hj => ?_, fun j r hr => ⟨r, hr, rfl⟩⟩
  have hne : row.jobId ≠ j := fun he => hnot (he ▸ hj)
  rw [remainingUnits_eq, remainingUnits_eq, jobMembers_handed (hjob ▸ hne)]
  refine countP_mono_left fun m' hm' hopen => ?_
  have hmj : m'.jobId = j := of_decide_eq_true (mem_filter.1 hm').2
  change isOpen (Sql.resolvedState (Sql.upsertWorkUnit row db) m') at hopen
  rw [Sql.resolvedState, workUnit_upsert] at hopen
  rw [Sql.resolvedState]
  split at hopen
  · -- the row has left `j`: only a recorded outcome still counts
    rw [filter_some, if_neg (by simpa [hmj] using hne)] at hopen
    cases ht : m'.terminalState with
    | some st => simpa only [ht, some_or] using hopen
    | none => rw [ht] at hopen; cases hopen
  · exact hopen

variable {jobId : String} {now : ℤ} {deduped : List (String × String)}

theorem Later.submitUnit (hwf : Wf db) (hnot : jobId ∉ js) (u : WorkUnitSpec) :
    Later js db (submitUnit jobId now deduped db u) := by
  have hsnap : Later js db (Sql.snapshotTerminalOwner u.workUnitId db) := .snapshot hwf _
  have hreset : Later js (Sql.snapshotTerminalOwner u.workUnitId db)
      (resetUnit u.workUnitId (Sql.snapshotTerminalOwner u.workUnitId db)) :=
    .of_eq rfl rfl rfl
  simp only [Queue.submitUnit]
  split
  · exact hsnap.trans (.attach rfl hnot)
  · exact (hsnap.trans hreset).trans (.attach rfl hnot)

variable {units : List WorkUnitSpec}

section
variable (hl : SubmitLoop jobId units db)
include hl

theorem Later.submitUnits
    (hnot : jobId ∉ js) : Later js db (units.foldl (Queue.submitUnit jobId now deduped) db) := by
  induction units generalizing db with
  | nil => exact .refl js db
  | cons u us ih => exact (Later.submitUnit hl.wf hnot u).trans (ih hl.next)

/-- FRAME: the loop leaves the units it does not name alone. -/
theorem workUnit_submitUnits_other (hu : u ∉ units.map (·.workUnitId)) :
    (units.foldl (Queue.submitUnit jobId now deduped) db).workUnit u = db.workUnit u := by
  obtain ⟨spec, hs, hid, -⟩ | ⟨-, hkept⟩ := workUnit_submitUnits hl
  · exact absurd (mem_map.2 ⟨spec, hs, hid⟩) hu
  · exact hkept

/-- After the loop a backup lease of a named unit is there only if the unit was found done. -/
theorem backups_submitUnits :
    ∀ b ∈ (units.foldl (Queue.submitUnit jobId now deduped) db).backupLeases,
      b ∈ db.backupLeases ∧ (b.workUnitId ∈ units.map (·.workUnitId) →
        ∀ w, (units.foldl (Queue.submitUnit jobId now deduped) db).workUnit b.workUnitId = some w →
          Sql.isTerminal w.state = true) := by
  induction units generalizing db with
  | nil => exact fun b hb => ⟨hb, by simp⟩
  | cons v us ih =>
    intro b hb
    rw [foldl_cons] at hb ⊢
    have hnext : SubmitLoop jobId us (Queue.submitUnit jobId now deduped db v) := hl.next
    obtain ⟨hb', hlater⟩ := ih hnext b hb
    rw [backups_submitUnit hl.wf] at hb'
    cases hd : (deduped.lookup v.workUnitId).isSome with
    | false =>
      rw [hd, if_neg (by simp)] at hb'
      obtain ⟨hb', hne⟩ := mem_filter.1 hb'
      refine ⟨hb', fun hin => hlater ?_⟩
      rw [map_cons, mem_cons] at hin
      exact hin.resolve_left (of_decide_eq_true hne)
    | true =>
      rw [hd, if_pos rfl] at hb'
      refine ⟨hb', fun hin => ?_⟩
      by_cases hus : b.workUnitId ∈ us.map (·.workUnitId)
      · exact hlater hus
      intro w hw
      rw [map_cons, mem_cons] at hin
      rw [workUnit_submitUnits_other hnext hus, hin.resolve_right hus,
        workUnit_submitUnit_self hl.wf, hd] at hw
      cases hw
      rfl

end

end

/-- What a call other than a grant leaves of the backup leases and the tails. -/
structure TailKept (db db' : Db) : Prop where
  later : Later {j | (db.job j).isSome} db db'
  backups : ∀ b ∈ db'.backupLeases, b ∈ db.backupLeases ∧
    ∀ w', db'.workUnit b.workUnitId = some w' → Sql.isTerminal w'.state = false →
      ∃ w, db.workUnit b.workUnitId = some w ∧ Sql.isTerminal w.state = false ∧ w'.jobId = w.jobId

theorem TailKept.refl (db : Db) : TailKept db db :=
  ⟨Later.refl _ db, fun _ hb => ⟨hb, fun w hw ht => ⟨w, hw, ht, rfl⟩⟩⟩

/-- An open unit was open before, with the same job, unless a submission named it. -/
theorem UnitMove.was_open (hm : UnitMove cfg u op before (some w'))
    (hop : ∀ jobId job specs reuse now, op ≠ .submitJob jobId job specs reuse now)
    (hopen : Sql.isTerminal w'.state = false) :
    ∃ w, before = some w ∧ Sql.isTerminal w.state = false ∧ w'.jobId = w.jobId := by
  cases hm with
  | same => exact ⟨w', rfl, hopen, rfl⟩
  | reset _ _ => exact absurd rfl (hop _ _ _ _ _)
  | claimed pending => exact ⟨_, rfl, isTerminal_of_active (.inr pending), rfl⟩
  | extended leased | requeued leased _ => exact ⟨_, rfl, isTerminal_of_active (.inl leased), rfl⟩
  | finished _ | killed _ _ => cases hopen

theorem TailKept.submitted (hwf : Wf db) (job : JobSubmit) (now : ℤ)
    (specs : List WorkUnitSpec) (hfresh : db.job jobId = none) :
    TailKept db (submitted jobId job now (uniqueUnits [] specs) db) := by
  have hl := submitLoop_start hwf job now specs hfresh
  have hnot : jobId ∉ {j | (db.job j).isSome} := by simp [hfresh]
  refine ⟨((Later.withJob jobId job now).trans (Later.submitUnits hl hnot)).trans
    (Later.recompute _ _ jobId), fun b hb => ?_⟩
  obtain ⟨hold, hnamed⟩ := backups_submitUnits hl b hb
  refine ⟨hold, fun w' hw' hopen => ?_⟩
  by_cases hin : b.workUnitId ∈ (uniqueUnits [] specs).map (·.workUnitId)
  · have := hnamed hin w' hw'
    rw [hopen] at this
    cases this
  · exact ⟨w', (workUnit_submitUnits_other hl hin).symm.trans hw', hopen, rfl⟩

/-- INVERSION: the effects of all calls but a grant. -/
theorem Effect.tail (he : Effect cfg db op db')
    (hwf : Wf db) (hop : ∀ agentId u now, op ≠ .leaseBackup agentId u now) : TailKept db db' := by
  have hunit := he.unit hwf
  have hback : ∀ {db'' : Db}, db''.backupLeases = db.backupLeases →
      (∀ u, UnitMove cfg u op (db.workUnit u) (db''.workUnit u)) →
      (∀ jobId job specs reuse now, op ≠ .submitJob jobId job specs reuse now) →
      ∀ b ∈ db''.backupLeases, b ∈ db.backupLeases ∧
        ∀ w', db''.workUnit b.workUnitId = some w' → Sql.isTerminal w'.state = false →
          ∃ w, db.workUnit b.workUnitId = some w ∧ Sql.isTerminal w.state = false ∧
            w'.jobId = w.jobId := by
    intro db'' hb hu hsub b hin
    refine ⟨hb ▸ hin, fun w' hw' hopen => ?_⟩
    have := hu b.workUnitId
    rw [hw'] at this
    exact this.was_open hsub hopen
  cases he with
  | submit fresh _ => exact .submitted hwf _ _ _ fresh
  | @claim agentId modelIds now tie w unit pending =>
    have hclaim : Later {j | (db.job j).isSome} db (Sql.claimUnit agentId
        (leaseExpiry now w.estDurationS cfg.defaultLeaseS) w.workUnitId db) :=
      .updateUnits (fun _ => rfl) (fun _ => rfl) fun w hp _ =>
        isTerminal_of_active (.inr (of_decide_eq_true hp).2)
    exact ⟨hclaim.trans (.recompute _ _ _), hback rfl hunit (by simp)⟩
  | extend =>
    exact ⟨Later.updateUnits (fun _ => rfl) (fun _ => rfl) fun w hp _ =>
      isTerminal_of_active (.inl (of_decide_eq_true hp).1), hback rfl hunit (by simp)⟩
  | backup _ _ _ _ => exact absurd rfl (hop _ _ _)
  | bind _ _ | finalize _ => exact ⟨Later.of_eq rfl rfl rfl, hback rfl hunit (by simp)⟩
  | bindAgain => exact .refl db
  | complete _ _ _ _ => exact ⟨Later.finalizeUnit _ _ _ _, hback rfl hunit (by simp)⟩
  | requeueExpired | requeueAgent =>
    obtain ⟨ms, jobs, hreq⟩ := requeue_tables
    exact ⟨Later.requeue cfg (fun _ hw => (of_decide_eq_true hw).1) _,
      hback (by rw [hreq]; rfl) hunit (by simp)⟩

end Fallow.Queue

import Fallow.Queue.Accounting
import Fallow.Queue.UnitMoves

/-! A job's recorded outcomes are final.

    Three statements write a membership row's outcome. The snapshot and the insert are guarded by
    the table; `MARK_JOB_UNIT_TERMINAL` is not, and is safe only because of where it is used:

        INVARIANT (open)   a unit that is pending or leased has no outcome with the job that owns it
        INVARIANT (quiet)  a job in state done owns no unit that is pending or leased

    A completion or a death marks the membership of a unit that was open; a later job takes a unit
    over under a fresh job id, so the old membership is out of reach of the unguarded statement. -/

namespace Fallow.Queue
open Lib List Option Prod Table

/-- INVARIANT: outcomes are recorded exactly when nothing can still happen to the unit. -/
structure OutcomesOk (db : Db) : Prop where
  opened : ∀ u w m, db.workUnit u = some w → Sql.isTerminal w.state = false →
    db.member w.jobId u = some m → m.terminalState = none
  quiet : ∀ u w r, db.workUnit u = some w → db.job w.jobId = some r → r.state = .done →
    Sql.isTerminal w.state = true
  terminal : ∀ m ∈ db.jobUnitMemberships, ∀ st, m.terminalState = some st →
    Sql.isTerminal st = true

/-- Every recorded outcome and every done job of `db` is there in `db'`, unchanged. -/
structure Keeping (db db' : Db) : Prop where
  outcome : ∀ j u m, db.member j u = some m → m.terminalState.isSome → db'.member j u = some m
  done : ∀ j r, db.job j = some r → r.state = .done → ∃ r', db'.job j = some r' ∧ r'.state = .done

theorem Keeping.refl (db : Db) : Keeping db db := ⟨fun _ _ _ h _ => h, fun _ r h hd => ⟨r, h, hd⟩⟩

theorem Keeping.trans (hab : Keeping a b) (hbc : Keeping b c) : Keeping a c where
  outcome j u m hm ht := hbc.outcome j u m (hab.outcome j u m hm ht) ht
  done j r hr hd := by
    obtain ⟨r', hr', hd'⟩ := hab.done j r hr hd
    exact hbc.done j r' hr' hd'

variable {db db' : Db}

/-- FRAME: writes to other tables keep everything. -/
theorem Keeping.of_eq (hm : db'.jobUnitMemberships = db.jobUnitMemberships)
    (hj : db'.jobs = db.jobs) : Keeping db db' where
  outcome j u m h _ := by rwa [Db.member, hm]
  done j r h hd := ⟨r, by rwa [Db.job, hj], hd⟩

/-! ### Unit rows -/

/-- Rows that are pending or leased may move; the others stay as they are. -/
theorem OutcomesOk.updateUnits (h : OutcomesOk db)
    (hid : ∀ w, (f w).workUnitId = w.workUnitId)
    (hjob : ∀ w, (f w).jobId = w.jobId)
    (hopen : ∀ u w, db.workUnit u = some w → p w → Sql.isTerminal w.state = false) :
    OutcomesOk { db with workUnits := Table.update p f db.workUnits } := by
  refine { h with opened := ?_, quiet := ?_ }
  · intro u w m hw ht hm
    rw [workUnit_update hid, map_eq_some_iff] at hw
    obtain ⟨w', hw', rfl⟩ := hw
    split at hm
    · next hp => exact h.opened u w' m hw' (hopen u w' hw' hp) (by rwa [hjob] at hm)
    · next hp =>
      rw [if_neg hp] at ht
      exact h.opened u w' m hw' ht hm
  · intro u w r hw hr hd
    rw [workUnit_update hid, map_eq_some_iff] at hw
    obtain ⟨w', hw', rfl⟩ := hw
    split at hr
    · next hp =>
      rw [hjob] at hr
      have := h.quiet u w' r hw' hr hd
      rw [hopen u w' hw' hp] at this
      cases this
    · next hp =>
      rw [if_neg hp]
      exact h.quiet u w' r hw' hr hd

/-! ### Memberships -/

variable {p : MembershipRow → Bool} {f : MembershipRow → MembershipRow}

theorem member_update (hkey : ∀ m, (f m).key = m.key) (j u : String) :
    Db.member { db with jobUnitMemberships := Table.update p f db.jobUnitMemberships } j u
      = (db.member j u).map fun m => if p m then f m else m :=
  get_update (fun r _ => hkey r) (j, u)

/-- Recording an outcome where none was recorded, for units past the point of moving. -/
theorem OutcomesOk.updateMembers (h : OutcomesOk db) (hkey : ∀ m, (f m).key = m.key)
    (hterm : ∀ m ∈ db.jobUnitMemberships, p m → ∀ st, (f m).terminalState = some st →
      Sql.isTerminal st = true)
    (hpast : ∀ j u m w, db.member j u = some m → p m → db.workUnit u = some w → w.jobId = j →
      Sql.isTerminal w.state = true) :
    OutcomesOk { db with jobUnitMemberships := Table.update p f db.jobUnitMemberships } := by
  refine { h with opened := ?_, terminal := ?_ }
  · intro u w m hw ht hm
    rw [member_update hkey, map_eq_some_iff] at hm
    obtain ⟨m', hm', rfl⟩ := hm
    split
    · next hp =>
      have := hpast _ u m' w hm' hp hw rfl
      rw [ht] at this
      cases this
    · exact h.opened u w m' hw ht hm'
  · intro m hm st hst
    obtain ⟨m', hm', rfl⟩ := mem_update.1 hm
    split at hst
    · next hp => exact hterm m' hm' hp st hst
    · exact h.terminal m' hm' st hst

theorem Keeping.updateMembers (hkey : ∀ m, (f m).key = m.key)
    (hsame : ∀ j u m, db.member j u = some m → m.terminalState.isSome → p m → f m = m) :
    Keeping db { db with jobUnitMemberships := Table.update p f db.jobUnitMemberships } where
  outcome j u m hm ht := by
    rw [member_update hkey, hm, map_some]
    split
    · next hp => rw [hsame j u m hm ht hp]
    · rfl
  done j r hr hd := ⟨r, hr, hd⟩

variable {u j : String} {s : Store}

/-- The unguarded statement, on a unit of `j` that can no longer move. -/
theorem OutcomesOk.mark (h : OutcomesOk db)
    (hst : Sql.isTerminal st = true) (status : Option WorkResultStatus) (ref : Option String)
    (hpast : ∀ w, db.workUnit u = some w → w.jobId = j → Sql.isTerminal w.state = true) :
    OutcomesOk (Sql.markJobUnitTerminal j u st status ref db) := by
  refine h.updateMembers (fun _ => rfl) ?_ ?_
  · rintro m - - st' ⟨⟩
    exact hst
  · intro j' u' m w hm hp hw hj
    obtain ⟨hmj, hmu⟩ := of_decide_eq_true hp
    have hkey : m.key = (j', u') := key_of_get hm
    obtain ⟨hj', hu'⟩ := mk.inj hkey
    refine hpast w ?_ ?_
    · rw [← hmu, hu']
      exact hw
    · rw [hj, ← hj', hmj]

/-- It keeps recorded outcomes exactly because none was recorded. -/
theorem Keeping.mark (st : WorkUnitState) (status : Option WorkResultStatus) (ref : Option String)
    (hnone : ∀ m, db.member j u = some m → m.terminalState = none) :
    Keeping db (Sql.markJobUnitTerminal j u st status ref db) := by
  refine .updateMembers (fun _ => rfl) fun j' u' m hm ht hp => ?_
  obtain ⟨hmj, hmu⟩ := of_decide_eq_true hp
  obtain ⟨hj', hu'⟩ := mk.inj (show m.key = (j', u') from key_of_get hm)
  rw [← hj', ← hu', hmj, hmu] at hm
  rw [hnone m hm] at ht
  cases ht

/-! ### Recounting a job -/

theorem countJobUnits_done_iff (db : Db) (j : String) :
    nextJobState (Sql.countJobUnits j db) = .done ↔
      some .pending ∉ memberStates db j ∧ some .leased ∉ memberStates db j :=
  nextJobState_eq_done (memberStates db j)

theorem job_recompute (db : Db) (j k : String) :
    (recomputeJobState j db).job k = (db.job k).map fun r =>
      if r.jobId = j then { r with state := nextJobState (Sql.countJobUnits j db) } else r := by
  change Table.get _ (Table.update _ _ db.jobs) k = _
  rw [get_update (by intro _ _; rfl)]
  simp only [decide_eq_true_eq]
  rfl

section
variable (h : OutcomesOk db) {w unit : UnitRow}
include h

/-- A unit its job can still see moving is counted, so the job is not done. -/
theorem OutcomesOk.counted (hwf : Wf db)
    (hw : db.workUnit u = some w) (hopen : Sql.isTerminal w.state = false) :
    nextJobState (Sql.countJobUnits w.jobId db) ≠ .done := by
  rw [Ne, countJobUnits_done_iff]
  obtain ⟨m, hm⟩ := isSome_iff_exists.1 (hwf.owner u w hw)
  have hnone := h.opened u w m hw hopen hm
  obtain ⟨hmj, hmu⟩ := mk.inj (show m.key = (w.jobId, u) from key_of_get hm)
  have hmem : some w.state ∈ memberStates db w.jobId := by
    refine mem_map.2 ⟨m, mem_filter.2 ⟨mem_of_get hm, decide_eq_true hmj⟩, ?_⟩
    rw [Sql.resolvedState, hnone, none_or, hmu, hw, filter_some, hmj]
    simp
  rintro ⟨hp, hl⟩
  cases hs : w.state with
  | pending => exact hp (hs ▸ hmem)
  | leased => exact hl (hs ▸ hmem)
  | done | dead => rw [hs] at hopen; cases hopen

theorem OutcomesOk.recompute (hwf : Wf db) (j : String) : OutcomesOk (recomputeJobState j db) := by
  refine { h with quiet := ?_ }
  intro u w r hw hr hd
  rw [job_recompute, map_eq_some_iff] at hr
  obtain ⟨r', hr', rfl⟩ := hr
  split at hd
  · next hj =>
    by_contra hopen
    have hk : r'.jobId = w.jobId := key_of_get hr'
    exact h.counted hwf hw (Bool.eq_false_iff.2 hopen) (by rw [← hk, hj]; exact hd)
  · exact h.quiet u w r' hw hr' hd

/-- A done job is recounted to done: its members resolve to outcomes and to units at rest. -/
theorem OutcomesOk.keeping_recompute (j : String) : Keeping db (recomputeJobState j db) := by
  refine ⟨fun _ _ _ hm _ => hm, fun k r hr hd => ?_⟩
  rw [job_recompute, hr]
  refine ⟨_, rfl, ?_⟩
  dsimp only
  split
  · next hj =>
    have hk : r.jobId = k := key_of_get hr
    have hres : ∀ st, some st ∈ memberStates db j → Sql.isTerminal st = true := by
      intro st hst
      obtain ⟨m, hm, hs⟩ := mem_map.1 hst
      obtain ⟨hm, hmj⟩ := mem_filter.1 hm
      have hmj : m.jobId = j := of_decide_eq_true hmj
      cases ht : m.terminalState with
      | some st' =>
        rw [Sql.resolvedState, ht, some_or] at hs
        cases hs
        exact h.terminal m hm st ht
      | none =>
        rw [Sql.resolvedState, ht, none_or, map_eq_some_iff] at hs
        obtain ⟨w, hw, rfl⟩ := hs
        obtain ⟨hw, hwj⟩ := filter_eq_some_iff.1 hw
        refine h.quiet m.workUnitId w r hw ?_ hd
        rw [of_decide_eq_true hwj, hmj, ← hj, hk]
        exact hr
    refine (countJobUnits_done_iff db j).2 ⟨fun hp => ?_, fun hl => ?_⟩
    · cases hres _ hp
    · cases hres _ hl
  · exact hd

omit h in
theorem OutcomesOk.recomputes : ∀ (js : List String) {db : Db}, OutcomesOk db → Wf db →
    OutcomesOk (js.foldl (fun db j => recomputeJobState j db) db) ∧
      Keeping db (js.foldl (fun db j => recomputeJobState j db) db)
  | [], db, h, _ => ⟨h, Keeping.refl db⟩
  | j :: js, _, h, hwf => by
    obtain ⟨hok, hkeep⟩ := OutcomesOk.recomputes js (h.recompute hwf j) (hwf.recompute j)
    exact ⟨hok, (h.keeping_recompute j).trans hkeep⟩

/-! ### Completion and requeue -/

omit h in
theorem isTerminal_of_active (h : w.state = .leased ∨ w.state = .pending) :
    Sql.isTerminal w.state = false := by
  rcases h with h | h
  · rw [h]; rfl
  · rw [h]; rfl

/-- The unit row is done and the result in; the outcome is still to be recorded. -/
theorem OutcomesOk.resulted (hwf : Wf db) (row : ResultRow) (hunit : db.workUnit u = some unit)
    (hopen : Sql.isTerminal unit.state = false) :
    OutcomesOk (Sql.markUnitDone u (Sql.insertResult row db)) ∧
      Wf (Sql.markUnitDone u (Sql.insertResult row db)) ∧
      ∀ w, (Sql.markUnitDone u (Sql.insertResult row db)).workUnit u = some w →
        Sql.isTerminal w.state = true := by
  have hins : OutcomesOk (Sql.insertResult row db) := { h with }
  have hwf' : Wf (Sql.insertResult row db) :=
    { hwf with resultKeys := keyed_insertIgnore hwf.resultKeys }
  refine ⟨hins.updateUnits (fun _ => rfl) (fun _ => rfl) fun v w hw hp => ?_,
    hwf'.updateUnits (fun _ => rfl) fun _ => rfl, fun w hw => ?_⟩
  · have hv : v = u := (workUnit_id hw).symm.trans (of_decide_eq_true hp)
    obtain rfl : unit = w := mem_unique hunit (hv ▸ hw)
    exact hopen
  · rw [Sql.markUnitDone, workUnit_update (by intro _; rfl), map_eq_some_iff] at hw
    obtain ⟨w', hw', rfl⟩ := hw
    rw [if_pos (decide_eq_true (workUnit_id hw'))]
    rfl

omit h in
theorem OutcomesOk.finalizeUnit (h : OutcomesOk db) (hwf : Wf db)
    (hunit : db.workUnit result.workUnitId = some unit)
    (hopen : Sql.isTerminal unit.state = false) :
    OutcomesOk (finalizeUnit agentId now unit result db) ∧
      Keeping db (finalizeUnit agentId now unit result db) := by
  obtain ⟨hok, hwf', hpast⟩ := h.resulted hwf (resultRowParams result agentId now) hunit hopen
  obtain ⟨ref, -, he⟩ := finalizeUnit_eq
  rw [he]
  have hsame : Keeping db (withResult agentId now result db) := Keeping.of_eq rfl rfl
  have hnone : ∀ m, (withResult agentId now result db).member unit.jobId result.workUnitId = some m →
      m.terminalState = none := fun m hm => h.opened _ unit m hunit hopen hm
  have hdone : Sql.isTerminal .done = true := rfl
  have hrec := hok.mark hdone (some result.status) ref fun w hw (_ : w.jobId = unit.jobId) =>
    hpast w hw
  have hmark := Keeping.mark .done (some result.status) ref hnone
  exact ⟨hrec.recompute (hwf'.markJobUnitTerminal ..) unit.jobId,
    (hsame.trans hmark).trans (hrec.keeping_recompute unit.jobId)⟩

omit h in
/-- The dead of a requeue: rows at rest by now, with no outcome recorded yet. -/
theorem OutcomesOk.markDeads : ∀ (dead : List UnitRow) {db : Db}, OutcomesOk db →
    (dead.map (·.workUnitId)).Nodup →
    (∀ w ∈ dead, ∀ w', db.workUnit w.workUnitId = some w' → Sql.isTerminal w'.state = true) →
    (∀ w ∈ dead, ∀ m, db.member w.jobId w.workUnitId = some m → m.terminalState = none) →
    OutcomesOk (dead.foldl markDead db) ∧ Keeping db (dead.foldl markDead db)
  | [], db, h, _, _, _ => ⟨h, Keeping.refl db⟩
  | w :: dead, db, h, hnd, hrest, hnone => by
    obtain ⟨hnot, hnd⟩ := nodup_cons.1 hnd
    have hok : OutcomesOk (markDead db w) :=
      h.mark rfl none none fun w' hw' _ => hrest w mem_cons_self w' hw'
    have hkeep : Keeping db (markDead db w) :=
      Keeping.mark .dead none none (hnone w mem_cons_self)
    have hnone' : ∀ v ∈ dead, ∀ m, (markDead db w).member v.jobId v.workUnitId = some m →
        m.terminalState = none := by
      intro v hv m hm
      rw [markDead, Sql.markJobUnitTerminal, member_update (by intro _; rfl), map_eq_some_iff] at hm
      obtain ⟨m', hm', rfl⟩ := hm
      have hne : m'.workUnitId ≠ w.workUnitId := by
        obtain ⟨-, hu⟩ := mk.inj (show m'.key = (v.jobId, v.workUnitId) from key_of_get hm')
        rw [hu]
        exact fun he => hnot (mem_map.2 ⟨v, hv, he⟩)
      rw [if_neg (by simp [hne])]
      exact hnone v (mem_cons_of_mem _ hv) m' hm'
    obtain ⟨hok', hkeep'⟩ := OutcomesOk.markDeads dead hok hnd
      (fun v hv => hrest v (mem_cons_of_mem _ hv)) hnone'
    exact ⟨hok', hkeep.trans hkeep'⟩

theorem OutcomesOk.requeueTo (target : WorkUnitState) (hsel : ∀ w, sel w → w.state = .leased) :
    OutcomesOk (Sql.requeueTo target sel db).1 :=
  h.updateUnits (fun _ => rfl) (fun _ => rfl) fun _ w _ hp => isTerminal_of_active (.inl (hsel w hp))

omit h in
theorem OutcomesOk.requeue (h : OutcomesOk db) (hwf : Wf db) (cfg : Config)
    (hsel : ∀ w, selector w → w.state = .leased) (now : ℤ) :
    OutcomesOk (requeue cfg selector now db).1 ∧ Keeping db (requeue cfg selector now db).1 := by
  have hp : OutcomesOk (Sql.requeueToPending selector cfg.maxAttempts db).1 :=
    h.requeueTo .pending fun w hw => hsel w (of_decide_eq_true hw).1
  have hwfp : Wf (Sql.requeueToPending selector cfg.maxAttempts db).1 := hwf.requeueTo .pending _
  have hd : OutcomesOk (requeueRows cfg selector db).1 :=
    hp.requeueTo .dead fun w hw => hsel w (of_decide_eq_true hw).1
  have hwfd : Wf (requeueRows cfg selector db).1 := hwfp.requeueTo .dead _
  have hsame : Keeping db (requeueRows cfg selector db).1 := .of_eq rfl rfl
  -- the rows the second branch returns: leased until now, dead in the table
  have hdead : ∀ w ∈ (requeueRows cfg selector db).2,
      (Sql.requeueToPending selector cfg.maxAttempts db).1.workUnit w.workUnitId = some w ∧
        (selector w ∧ cfg.maxAttempts ≤ w.attempts) := by
    intro w hw
    obtain ⟨hw, hs⟩ := mem_filter.1 hw
    exact ⟨hwfp.workUnit_of_mem hw, of_decide_eq_true hs⟩
  have hmarks := hd.markDeads (requeueRows cfg selector db).2
    (hwfp.unitKeys.sublist (filter_sublist.map _)) ?_ ?_
  · obtain ⟨hok, hkeep⟩ := hmarks
    obtain ⟨hok', hkeep'⟩ := hok.recomputes _ (foldlRecOn _ _ hwfd fun _ h _ _ => h.markJobUnitTerminal ..)
    exact ⟨hok', (hsame.trans hkeep).trans hkeep'⟩
  · intro w hw w' hw'
    obtain ⟨hu, hs⟩ := hdead w hw
    rw [requeueRows, Sql.requeueToDead, workUnit_requeueTo, hu, map_some,
      if_pos (decide_eq_true hs)] at hw'
    cases hw'
    rfl
  · intro w hw m hm
    obtain ⟨hu, hs⟩ := hdead w hw
    exact hp.opened _ w m hu (isTerminal_of_active (.inl (hsel w hs.1))) hm

/-! ### Submission -/

theorem OutcomesOk.snapshot (hwf : Wf db) (u : String) :
    OutcomesOk (Sql.snapshotTerminalOwner u db) ∧ Keeping db (Sql.snapshotTerminalOwner u db) := by
  rcases snapshot_eq hwf u with ⟨w, hw, ht, he⟩ | ⟨_, he⟩
  · rw [he]
    refine ⟨h.updateMembers (recordOutcome_key _) ?_ ?_, .updateMembers (recordOutcome_key _) ?_⟩
    · intro m hm _ st hst
      unfold Sql.recordOutcome at hst
      split at hst
      · cases hst
        exact ht
      · exact h.terminal m hm st hst
    · intro j u' m w' hm hp hw' _
      have hkey : m.key = (w.jobId, u) := of_decide_eq_true hp
      obtain ⟨-, rfl⟩ := mk.inj (hkey.symm.trans (key_of_get hm))
      obtain rfl : w = w' := mem_unique hw hw'
      exact ht
    · intro j u' m _ hsome _
      unfold Sql.recordOutcome
      rw [if_neg (isSome_iff_ne_none.1 hsome)]
  · rw [he]
    exact ⟨h, .refl db⟩

/-- A unit row handed to a job that is not done, with the job's own membership row. -/
theorem OutcomesOk.attach
    (hkey : m.key = (row.jobId, row.workUnitId)) (hfresh : db.member row.jobId row.workUnitId = none)
    (hrun : ∀ r, db.job row.jobId = some r → r.state ≠ .done)
    (hopen : Sql.isTerminal row.state = false → m.terminalState = none)
    (hterm : ∀ st, m.terminalState = some st → Sql.isTerminal st = true) :
    OutcomesOk (handed row m db) := by
  refine ⟨fun u w m' hw ht hm' => ?_, fun u w r hw hr hd => ?_, fun m' hm' => ?_⟩
  · rcases handed_cases hkey hfresh hw hm' with ⟨rfl, rfl⟩ | ⟨hw, hm'⟩
    · exact hopen ht
    · exact h.opened u w m' hw ht hm'
  · change (Sql.upsertWorkUnit row db).workUnit u = some w at hw
    rw [workUnit_upsert] at hw
    split at hw
    · cases hw
      exact absurd hd (hrun r hr)
    · exact h.quiet u w r hw hr hd
  · rcases mem_append.1 hm' with hm' | hm'
    · exact h.terminal m' hm'
    · rw [mem_singleton.1 hm']
      exact hterm

end

theorem Keeping.attach (db : Db) (row : UnitRow) (m : MembershipRow) :
    Keeping db (handed row m db) where
  outcome j u m' hm _ := by
    rw [Db.member, get_append]
    rw [Db.member] at hm
    rw [hm, some_or]
  done j r hr hd := ⟨r, hr, hd⟩

section
variable {jobId : String} {now : ℤ} {deduped : List (String × String)}

theorem OutcomesOk.submitUnit (h : OutcomesOk db) (hwf : Wf db) {u : WorkUnitSpec}
    (hfresh : db.member jobId u.workUnitId = none)
    (hrun : ∀ r, db.job jobId = some r → r.state ≠ .done) :
    OutcomesOk (submitUnit jobId now deduped db u) ∧
      Keeping db (submitUnit jobId now deduped db u) := by
  obtain ⟨hok, hkeep⟩ := h.snapshot hwf u.workUnitId
  have hmem := member_snapshot_none hwf hfresh
  rw [Db.job, ← snapshot_jobs u.workUnitId] at hrun
  simp only [Queue.submitUnit]
  cases hr : (deduped.lookup u.workUnitId).isSome with
  | true =>
    refine ⟨hok.attach rfl hmem hrun (fun ht => ?_) (fun st hst => ?_), hkeep.trans (.attach ..)⟩
    · cases ht
    · simp only [submittedMembership, hr, if_true] at hst
      cases hst
      rfl
  | false =>
    have hreset : OutcomesOk (resetUnit u.workUnitId
        (Sql.snapshotTerminalOwner u.workUnitId db)) := { hok with }
    refine ⟨hreset.attach rfl hmem hrun (fun _ => ?_) (fun st hst => ?_), ?_⟩
    · simp [submittedMembership, hr]
    · simp [submittedMembership, hr] at hst
    · have hsame : Keeping (Sql.snapshotTerminalOwner u.workUnitId db)
          (resetUnit u.workUnitId (Sql.snapshotTerminalOwner u.workUnitId db)) := .of_eq rfl rfl
      exact (hkeep.trans hsame).trans (.attach ..)

theorem OutcomesOk.submitUnits (h : OutcomesOk db)
    (hl : SubmitLoop jobId units db) (hrun : ∀ r, db.job jobId = some r → r.state ≠ .done) :
    OutcomesOk (units.foldl (Queue.submitUnit jobId now deduped) db) ∧
      Keeping db (units.foldl (Queue.submitUnit jobId now deduped) db) := by
  induction units generalizing db with
  | nil => exact ⟨h, .refl db⟩
  | cons u us ih =>
    obtain ⟨hok, hkeep⟩ : OutcomesOk (Queue.submitUnit jobId now deduped db u) ∧ Keeping db _ :=
      h.submitUnit hl.wf (hl.fresh u mem_cons_self) hrun
    obtain ⟨hall, hkept⟩ := ih hok hl.next (by rwa [Db.job, job_submitUnit])
    exact ⟨hall, hkeep.trans hkept⟩

end

theorem OutcomesOk.withJob (h : OutcomesOk db) (hwf : Wf db) (jobId : String)
    (job : JobSubmit) (now : ℤ) :
    OutcomesOk (withJob jobId job now db) ∧ Keeping db (withJob jobId job now db) := by
  have hold : ∀ j r, db.job j = some r → (Queue.withJob jobId job now db).job j = some r := by
    intro j r hr
    rw [Queue.withJob, Db.job, get_append]
    rw [Db.job] at hr
    rw [hr, some_or]
  refine ⟨{ h with quiet := ?_ }, fun _ _ _ hm _ => hm, fun j r hr hd => ⟨r, hold j r hr, hd⟩⟩
  intro u w r hw hr hd
  obtain ⟨r', hr'⟩ := isSome_iff_exists.1 (hwf.unitJob u w hw)
  obtain rfl : r' = r := some.inj ((hold _ r' hr').symm.trans hr)
  exact h.quiet u w r' hw hr' hd

theorem OutcomesOk.submitted (h : OutcomesOk db) (hwf : Wf db)
    (job : JobSubmit) (now : ℤ) (specs : List WorkUnitSpec) (hfresh : db.job jobId = none) :
    OutcomesOk (submitted jobId job now (uniqueUnits [] specs) db) ∧
      Keeping db (submitted jobId job now (uniqueUnits [] specs) db) := by
  obtain ⟨hok, hkeep⟩ := h.withJob hwf jobId job now
  have hl := submitLoop_start hwf job now specs hfresh
  have hrun : ∀ r, (Queue.withJob jobId job now db).job jobId = some r → r.state ≠ .done := by
    intro r hr
    rw [Queue.withJob, Db.job, get_append] at hr
    rw [Db.job] at hfresh
    rw [hfresh, none_or, if_pos (show (submittedJob jobId job now).jobId = jobId from rfl)] at hr
    cases hr
    rintro ⟨⟩
  obtain ⟨hok', hkeep'⟩ := hok.submitUnits hl hrun
  exact ⟨hok'.recompute hl.done.wf jobId, (hkeep.trans hkeep').trans (hok'.keeping_recompute jobId)⟩

/-! ### Runs -/

theorem Effect.outcomes (he : Effect cfg db op db')
    (hwf : Wf db) (h : OutcomesOk db) : OutcomesOk db' ∧ Keeping db db' := by
  cases he with
  | submit fresh _ => exact h.submitted hwf _ _ _ fresh
  | @claim agentId modelIds now tie w unit pending =>
    have hclaim : OutcomesOk (Sql.claimUnit agentId
        (leaseExpiry now w.estDurationS cfg.defaultLeaseS) w.workUnitId db) :=
      h.updateUnits (fun _ => rfl) (fun _ => rfl) fun _ _ _ hp =>
        isTerminal_of_active (.inr (of_decide_eq_true hp).2)
    have hsame : Keeping db (Sql.claimUnit agentId
        (leaseExpiry now w.estDurationS cfg.defaultLeaseS) w.workUnitId db) := .of_eq rfl rfl
    exact ⟨hclaim.recompute (hwf.claimUnit ..) _, hsame.trans (hclaim.keeping_recompute _)⟩
  | extend =>
    exact ⟨h.updateUnits (fun _ => rfl) (fun _ => rfl) fun _ _ _ hp =>
      isTerminal_of_active (.inl (of_decide_eq_true hp).1), .of_eq rfl rfl⟩
  | backup _ _ _ _ | bind _ _ | finalize _ => exact ⟨{ h with }, .of_eq rfl rfl⟩
  | bindAgain => exact ⟨h, .refl db⟩
  | complete row _ accepted _ =>
    exact h.finalizeUnit hwf row (isTerminal_of_active (active_of_accepted accepted))
  | requeueExpired | requeueAgent =>
    exact h.requeue hwf cfg (fun _ hw => (of_decide_eq_true hw).1) _

/-- What a raised submission leaves uncommitted are pending job rows, after all committed ones. -/
structure OutcomesInv (s : Store) : Prop where
  wf : StoreWf s
  synced : ∃ extra : List JobRow, (∀ r ∈ extra, r.state = .pending) ∧
    s.working = { s.committed with jobs := s.committed.jobs ++ extra }
  ok : OutcomesOk s.working

theorem outcomesInv_empty : OutcomesInv {} where
  wf := ⟨wf_empty, wf_empty⟩
  synced := ⟨[], by simp, rfl⟩
  ok := ⟨fun u w m h => by simp [Db.workUnit, Table.get] at h,
    fun u w r h => by simp [Db.workUnit, Table.get] at h, by simp⟩

/-- Going back to the last commit loses pending job rows only. -/
theorem OutcomesInv.committed (h : OutcomesInv s) :
    OutcomesOk s.committed ∧ Keeping s.working s.committed := by
  obtain ⟨extra, hpend, hsync⟩ := h.synced
  have hok := h.ok
  rw [hsync] at hok ⊢
  refine ⟨{ hok with quiet := ?_ }, fun _ _ _ hm _ => hm, fun j r hr hd => ⟨r, ?_, hd⟩⟩
  · intro u w r hw hr hd
    refine hok.quiet u w r hw ?_ hd
    rw [Db.job, Table.get, List.find?_append]
    rw [Db.job, Table.get] at hr
    rw [hr, some_or]
  · rw [Db.job, Table.get, List.find?_append] at hr
    cases hc : s.committed.jobs.find? (fun r => JobRow.jobId r = j) with
    | some r' =>
      rw [hc, some_or] at hr
      exact hc.trans hr
    | none =>
      rw [hc, none_or] at hr
      have := hpend r (mem_of_find?_eq_some hr)
      rw [hd] at this
      cases this

theorem OutcomesInv.step (h : OutcomesInv s) (cfg : Config) (op : Op) :
    OutcomesInv (step cfg s op) ∧ Keeping s.working (step cfg s op).working := by
  have hwf := h.wf.step cfg op
  obtain ⟨extra, hpend, hsync⟩ := h.synced
  rcases step_cases cfg h.wf.working h.wf.committed op with
    he | ⟨db', heff, he⟩ | ⟨jobId, job, specs, now, _, _, _, he⟩ | ⟨_, he⟩
  · rw [he]
    exact ⟨h, .refl _⟩
  · rw [he] at hwf ⊢
    obtain ⟨hok, hkeep⟩ := heff.outcomes h.wf.working h.ok
    exact ⟨⟨hwf, ⟨[], by simp, by simp⟩, hok⟩, hkeep⟩
  · rw [he] at hwf ⊢
    obtain ⟨hok, hkeep⟩ := h.ok.withJob h.wf.working jobId job now
    refine ⟨⟨hwf, ⟨extra ++ [submittedJob jobId job now], ?_, ?_⟩, hok⟩, hkeep⟩
    · exact forall_mem_concat.2 ⟨hpend, rfl⟩
    · rw [withJob, hsync, ← append_assoc]
  · rw [he] at hwf ⊢
    obtain ⟨hok, hkeep⟩ := h.committed
    exact ⟨⟨hwf, ⟨[], by simp, by simp⟩, hok⟩, hkeep⟩

/-- INVARIANT: in every run a done job has no open unit and an open unit no outcome. -/
theorem outcomes_settled (cfg : Config) (ops : List Op) : OutcomesInv (runs (step cfg) {} ops) :=
  runs_invariant OutcomesInv (fun _ op h => (h.step cfg op).1) ops {} outcomesInv_empty

/-- CORRECT: in every run a recorded outcome stays as it is, and a done job stays done. -/
theorem outcomes_final (cfg : Config) (ops later : List Op) :
    (∀ j u m, (runs (step cfg) {} ops).working.member j u = some m → m.terminalState.isSome →
      ∃ m', (runs (step cfg) {} (ops ++ later)).working.member j u = some m' ∧
        m'.terminalState = m.terminalState ∧ m'.resultStatus = m.resultStatus ∧
        m'.resultRef = m.resultRef) ∧
    ∀ j r, (runs (step cfg) {} ops).working.job j = some r → r.state = .done →
      ∃ r', (runs (step cfg) {} (ops ++ later)).working.job j = some r' ∧ r'.state = .done := by
  have hinv : OutcomesInv (runs (step cfg) {} ops) :=
    runs_invariant OutcomesInv (fun s op h => (h.step cfg op).1) ops {} outcomesInv_empty
  have hkeep : Keeping (runs (step cfg) {} ops).working
      (runs (step cfg) (runs (step cfg) {} ops) later).working :=
    runs_preserve OutcomesInv (fun s => Keeping (runs (step cfg) {} ops).working s.working)
      (fun s op h => (h.step cfg op).1) (fun s op h hk => hk.trans (h.step cfg op).2) hinv
      (.refl _)
  rw [runs_append]
  exact ⟨fun j u m hm ht => ⟨m, hkeep.outcome j u m hm ht, rfl, rfl, rfl⟩, hkeep.done⟩

/-- A unit that failed for one job. -/
def failedOnce : List Op :=
  [.submitJob "job-1" ⟨.embed, "model", "payload", [], 0⟩ [⟨"unit", 0, "input", none⟩] false 0,
   .leaseNext "a" ["model"] 1 0, .completeUnit "a" 1 ⟨"unit", .failed, none, some "error", none⟩ 2]

/-- A second job takes it over and completes it. -/
def thenSucceeded : List Op :=
  [.submitJob "job-2" ⟨.embed, "model", "payload", [], 0⟩ [⟨"unit", 0, "input", none⟩] false 3,
   .leaseNext "b" ["model"] 4 0, .bindResultPayload "b" "unit" 1 "digest" "ref" 5,
   .completeUnit "b" 1 ⟨"unit", .succeeded, some "ref", none, none⟩ 6]

theorem outcomes_final_resubmitted :
    ∃ m', (runs (step defaultConfig) {} (failedOnce ++ thenSucceeded)).working.member
        "job-1" "unit" = some m' ∧
      m'.terminalState = some .done ∧ m'.resultStatus = some .failed ∧ m'.resultRef = none :=
  (outcomes_final defaultConfig failedOnce thenSucceeded).1 "job-1" "unit"
    ⟨"job-1", "unit", 0, "input", some .done, some .failed, none⟩ (by decide +kernel) rfl

end Fallow.Queue

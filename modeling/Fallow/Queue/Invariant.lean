import Fallow.Queue.Store

/-! What holds of the queue's tables in every reachable state, and what one call can do to them.

    `Wf` collects the primary keys and the references between tables; the one that is not a schema
    constraint is `owner`: the job that owns a unit row has a membership row for it. `Effect` lists
    the database changes a call can commit, and `step_cases` says that every call is one of them, or
    leaves the store alone, or raises after the job row, or reopens the file. Later modules argue
    over `Effect` and never unfold a store operation again. -/

namespace Fallow.Queue
open Lib List Option Bool Prod Table

def Db.member (db : Db) (j u : String) : Option MembershipRow :=
  Table.get MembershipRow.key db.jobUnitMemberships (j, u)

/-- Keys are unique and rows refer to rows that exist. -/
structure Wf (db : Db) : Prop where
  jobKeys : Table.Keyed JobRow.jobId db.jobs
  unitKeys : Table.Keyed UnitRow.workUnitId db.workUnits
  resultKeys : Table.Keyed ResultRow.workUnitId db.unitResults
  memberKeys : Table.Keyed MembershipRow.key db.jobUnitMemberships
  unitJob : ∀ u w, db.workUnit u = some w → (db.job w.jobId).isSome
  memberJob : ∀ j u, (db.member j u).isSome → (db.job j).isSome
  owner : ∀ u w, db.workUnit u = some w → (db.member w.jobId u).isSome

theorem wf_empty : Wf {} := by
  refine ⟨nodup_nil, nodup_nil, nodup_nil, nodup_nil, ?_, ?_, ?_⟩
  · intro u w h; exact absurd h (by simp [Db.workUnit, Table.get])
  · intro j u h; exact absurd h (by simp [Db.member, Table.get])
  · intro u w h; exact absurd h (by simp [Db.workUnit, Table.get])

variable {db : Db} {u j jobId : String} {units : List WorkUnitSpec} {s : Store} {P : Db → Prop}

theorem workUnit_id (h : db.workUnit u = some w) : w.workUnitId = u := key_of_get h

theorem result_id (h : db.result u = some r) : r.workUnitId = u := key_of_get h

section
variable (h : Wf db)
include h

theorem Wf.workUnit_of_mem (hw : w ∈ db.workUnits) :
    db.workUnit w.workUnitId = some w := get_of_mem h.unitKeys hw

/-! ### Writes that touch one column family -/

/-- Updating unit rows in place, ids and owners kept. -/
theorem Wf.updateUnits
    (hid : ∀ w, (f w).workUnitId = w.workUnitId) (hjob : ∀ w, (f w).jobId = w.jobId) :
    Wf { db with workUnits := Table.update p f db.workUnits } := by
  have hget : ∀ u w, Table.get UnitRow.workUnitId (Table.update p f db.workUnits) u = some w →
      ∃ w', db.workUnit u = some w' ∧ w'.jobId = w.jobId := by
    intro u w hw
    rw [get_update (fun r _ => hid r), map_eq_some_iff] at hw
    obtain ⟨w', hw', rfl⟩ := hw
    refine ⟨w', hw', ?_⟩
    split
    · exact (hjob w').symm
    · rfl
  refine { h with unitKeys := keyed_update (fun r _ => hid r) h.unitKeys, unitJob := ?_,
                  owner := ?_ }
  · intro u w hw
    obtain ⟨w', hw', hj⟩ := hget u w hw
    rw [← hj]; exact h.unitJob u w' hw'
  · intro u w hw
    obtain ⟨w', hw', hj⟩ := hget u w hw
    rw [← hj]; exact h.owner u w' hw'

/-- Updating membership rows in place, keys kept. -/
theorem Wf.updateMembers
    (hkey : ∀ m, (f m).key = m.key) :
    Wf { db with jobUnitMemberships := Table.update p f db.jobUnitMemberships } := by
  have hget : ∀ j u, (Table.get MembershipRow.key
      (Table.update p f db.jobUnitMemberships) (j, u)).isSome = (db.member j u).isSome := by
    intro j u
    rw [get_update (fun r _ => hkey r), isSome_map]; rfl
  refine { h with memberKeys := keyed_update (fun r _ => hkey r) h.memberKeys,
                  memberJob := ?_, owner := ?_ }
  · intro j u hm; exact h.memberJob j u (by rwa [Db.member, hget] at hm)
  · intro u w hw; rw [Db.member, hget]; exact h.owner u w hw

/-- Updating job rows in place, ids kept. -/
theorem Wf.updateJobs
    (hid : ∀ r, (f r).jobId = r.jobId) : Wf { db with jobs := Table.update p f db.jobs } := by
  have hget : ∀ j, (Table.get JobRow.jobId (Table.update p f db.jobs) j).isSome
      = (db.job j).isSome := by
    intro j; rw [get_update (fun r _ => hid r), isSome_map]; rfl
  refine { h with jobKeys := keyed_update (fun r _ => hid r) h.jobKeys, unitJob := ?_,
                  memberJob := ?_ }
  · intro u w hw; rw [Db.job, hget]; exact h.unitJob u w hw
  · intro j u hm; rw [Db.job, hget]; exact h.memberJob j u hm

/-- A new job row under a fresh id. -/
theorem Wf.appendJob (hfresh : db.job row.jobId = none) :
    Wf { db with jobs := db.jobs ++ [row] } := by
  have hget : ∀ j, (db.job j).isSome → (Table.get JobRow.jobId (db.jobs ++ [row]) j).isSome := by
    intro j hj
    rw [get_append, isSome_or, or_eq_true]; exact .inl hj
  refine { h with jobKeys := keyed_append h.jobKeys hfresh, unitJob := ?_, memberJob := ?_ }
  · intro u w hw; exact hget _ (h.unitJob u w hw)
  · intro j u hm; exact hget _ (h.memberJob j u hm)

theorem Wf.recompute (j : String) : Wf (recomputeJobState j db) :=
  h.updateJobs fun _ => rfl

/-! ### One unit of a submission -/

/-- A terminal unit's outcome goes to the membership row its owner already has; nothing is added. -/
theorem snapshot_eq (u : String) : (∃ w, db.workUnit u = some w ∧ Sql.isTerminal w.state = true ∧
      Sql.snapshotTerminalOwner u db = { db with
          jobUnitMemberships := Table.update (fun m => m.key = (w.jobId, u))
            (Sql.recordOutcome (Sql.ownerMembership db w (some w.state))) db.jobUnitMemberships }) ∨
    ((∀ w, db.workUnit u = some w → Sql.isTerminal w.state = false) ∧
      Sql.snapshotTerminalOwner u db = db) := by
  unfold Sql.snapshotTerminalOwner
  cases hw : db.workUnit u with
  | none => exact .inr ⟨by simp, rfl⟩
  | some w =>
    cases ht : Sql.isTerminal w.state with
    | false => exact .inr ⟨by rintro w' ⟨⟩; exact ht, by simp [ht]⟩
    | true =>
      refine .inl ⟨w, rfl, ht, ?_⟩
      have hkey : (Sql.ownerMembership db w (some w.state)).key = (w.jobId, u) := by
        rw [← workUnit_id hw]; rfl
      have hown : (Table.get MembershipRow.key db.jobUnitMemberships (w.jobId, u)).isSome :=
        h.owner u w hw
      simp only [ht, if_true, Table.upsert, hkey, hown]

omit h in
theorem recordOutcome_key (row m : MembershipRow) : (Sql.recordOutcome row m).key = m.key := by
  unfold Sql.recordOutcome; split <;> rfl

theorem Wf.snapshot (u : String) : Wf (Sql.snapshotTerminalOwner u db) := by
  rcases snapshot_eq h u with ⟨w, _, _, he⟩ | ⟨_, he⟩
  · rw [he]; exact h.updateMembers (recordOutcome_key _)
  · rw [he]; exact h

theorem member_snapshot (u j u' : String) :
    ((Sql.snapshotTerminalOwner u db).member j u').isSome = (db.member j u').isSome := by
  rcases snapshot_eq h u with ⟨w, _, _, he⟩ | ⟨_, he⟩
  · rw [he, Db.member, get_update (fun r _ => recordOutcome_key _ r), isSome_map]; rfl
  · rw [he]

theorem Wf.reset (u : String) : Wf (resetUnit u db) :=
  { h with resultKeys := keyed_filter _ h.resultKeys }

omit h in
theorem workUnit_upsert : (Sql.upsertWorkUnit row db).workUnit u
      = if u = row.workUnitId then some row else db.workUnit u := by
  rw [Db.workUnit, Sql.upsertWorkUnit, get_upsert (fun x hx => hx.symm)]
  split
  · cases Table.get UnitRow.workUnitId db.workUnits u <;> rfl
  · rfl

omit h in
theorem snapshot_jobs (u : String) : (Sql.snapshotTerminalOwner u db).jobs = db.jobs := by
  unfold Sql.snapshotTerminalOwner
  split
  · split <;> rfl
  · rfl

/-- A unit row handed to a job, together with the job's membership row for it. -/
abbrev handed (row : UnitRow) (m : MembershipRow) (db : Db) : Db :=
  { Sql.upsertWorkUnit row db with jobUnitMemberships := db.jobUnitMemberships ++ [m] }

variable {row : UnitRow} {m : MembershipRow}

omit h in
theorem jobMembers_handed (hne : m.jobId ≠ j) :
    Sql.jobMembers (handed row m db) j = Sql.jobMembers db j := by
  rw [Sql.jobMembers, filter_append, filter_cons_of_neg (by simpa using hne), filter_nil,
    append_nil]
  rfl

section
variable (hkey : m.key = (row.jobId, row.workUnitId))
  (hfresh : db.member row.jobId row.workUnitId = none)
include hkey hfresh

omit h in
/-- A unit and its owner's membership are the new ones, or were there before. -/
theorem handed_cases
    (hw : (handed row m db).workUnit u = some w) (hm : (handed row m db).member w.jobId u = some m') :
    (w = row ∧ m' = m) ∨ (db.workUnit u = some w ∧ db.member w.jobId u = some m') := by
  change (Sql.upsertWorkUnit row db).workUnit u = some w at hw
  rw [workUnit_upsert] at hw
  rw [Db.member, get_append, hkey] at hm
  split at hw
  · next hu =>
    cases hw
    have hnone : Table.get MembershipRow.key db.jobUnitMemberships (row.jobId, u) = none :=
      hu ▸ hfresh
    rw [hnone, none_or, hu, if_pos rfl] at hm
    exact .inl ⟨rfl, (Option.some.inj hm).symm⟩
  · next hu =>
    rw [if_neg fun hc => hu (mk.inj hc).2.symm, or_none] at hm
    exact .inr ⟨hw, hm⟩

theorem Wf.attach (hjob : (db.job row.jobId).isSome) : Wf (handed row m db) := by
  have hmem : ∀ j u, (Table.get MembershipRow.key (db.jobUnitMemberships ++ [m]) (j, u)).isSome
      ↔ (db.member j u).isSome ∨ (row.jobId = j ∧ row.workUnitId = u) := by
    intro j u
    rw [get_append, isSome_or, or_eq_true, hkey]
    refine or_congr Iff.rfl ?_
    by_cases hju : (row.jobId, row.workUnitId) = (j, u)
    · rw [if_pos hju]; simpa using hju
    · rw [if_neg hju]; simpa using hju
  refine { h with unitKeys := keyed_upsert (fun x hx => hx.symm) h.unitKeys,
                  memberKeys := keyed_append h.memberKeys (by rw [hkey]; exact hfresh),
                  unitJob := ?_, memberJob := ?_, owner := ?_ }
  · intro u w hw
    change (Sql.upsertWorkUnit row db).workUnit u = some w at hw
    rw [workUnit_upsert] at hw
    split at hw
    · cases hw; exact hjob
    · exact h.unitJob u w hw
  · intro j u hm
    rcases (hmem j u).mp hm with hm | ⟨rfl, _⟩
    · exact h.memberJob j u hm
    · exact hjob
  · intro u w hw
    change (Sql.upsertWorkUnit row db).workUnit u = some w at hw
    rw [workUnit_upsert] at hw
    refine (hmem _ _).mpr ?_
    split at hw
    · rename_i hu
      cases hw
      exact .inr ⟨rfl, hu.symm⟩
    · exact .inl (h.owner u w hw)

end

theorem member_snapshot_none (hfresh : db.member j u = none) :
    (Sql.snapshotTerminalOwner u db).member j u = none := by
  rw [← not_isSome_iff_eq_none, member_snapshot h, hfresh]
  simp

end

/-- The loop body of `submit_job` when no statement of it raises. -/
def submitUnit (jobId : String) (now : ℤ) (deduped : List (String × String)) (db : Db)
    (u : WorkUnitSpec) : Db :=
  let ref := deduped.lookup u.workUnitId
  let db₁ := Sql.snapshotTerminalOwner u.workUnitId db
  let db₂ := if ref.isSome then db₁ else resetUnit u.workUnitId db₁
  { Sql.upsertWorkUnit (submittedUnit jobId now ref.isSome u) db₂ with
    jobUnitMemberships := db₂.jobUnitMemberships ++ [submittedMembership jobId ref u] }

section
variable {jobId : String} {now : ℤ} {deduped : List (String × String)}

theorem job_submitUnit {u : WorkUnitSpec} : (submitUnit jobId now deduped db u).jobs = db.jobs := by
  simp only [submitUnit, Sql.upsertWorkUnit]
  split
  · exact snapshot_jobs _
  · exact snapshot_jobs _

variable {db : Db} {u : WorkUnitSpec} {u' : String} {us : List WorkUnitSpec}

theorem Wf.submitUnit (h : Wf db) (hjob : (db.job jobId).isSome)
    (hfresh : db.member jobId u.workUnitId = none) : Wf (submitUnit jobId now deduped db u) := by
  have hsn := h.snapshot u.workUnitId
  have hmem := member_snapshot_none h hfresh
  rw [Db.job, ← snapshot_jobs u.workUnitId] at hjob
  simp only [Queue.submitUnit]
  split
  · exact hsn.attach rfl hmem hjob
  · exact (hsn.reset u.workUnitId).attach rfl hmem hjob

/-- The memberships of a submission are those before it and the submitted unit's. -/
theorem member_submitUnit (h : Wf db) : ((submitUnit jobId now deduped db u).member j u').isSome
      = ((db.member j u').isSome || decide (jobId = j ∧ u.workUnitId = u')) := by
  have hms : ((if (deduped.lookup u.workUnitId).isSome then
        Sql.snapshotTerminalOwner u.workUnitId db
      else resetUnit u.workUnitId (Sql.snapshotTerminalOwner u.workUnitId db)).member j u').isSome
      = (db.member j u').isSome := by
    rw [← member_snapshot h u.workUnitId]; split <;> rfl
  simp only [submitUnit, Db.member]
  rw [get_append, isSome_or,
    show (submittedMembership jobId (deduped.lookup u.workUnitId) u).key = (jobId, u.workUnitId)
      from rfl]
  congr 1
  by_cases hju : (jobId, u.workUnitId) = (j, u')
  · rw [if_pos hju]; simpa using hju
  · rw [if_neg hju]; simpa using hju

/-- One turn of the loop, up to the membership table. -/
theorem submitUnit_eq (hwf : Wf db) (u : WorkUnitSpec) : ∃ ms, submitUnit jobId now deduped db u =
      { Sql.upsertWorkUnit (submittedUnit jobId now (deduped.lookup u.workUnitId).isSome u)
          (if (deduped.lookup u.workUnitId).isSome then db else resetUnit u.workUnitId db) with
        jobUnitMemberships := ms } := by
  have hs : ∃ ms, Sql.snapshotTerminalOwner u.workUnitId db
      = { db with jobUnitMemberships := ms } := by
    rcases snapshot_eq hwf u.workUnitId with ⟨w, _, _, he⟩ | ⟨_, he⟩
    · exact ⟨_, he⟩
    · exact ⟨db.jobUnitMemberships, he⟩
  obtain ⟨ms, hms⟩ := hs
  simp only [submitUnit, hms]
  split
  · exact ⟨_, rfl⟩
  · exact ⟨_, rfl⟩

/-- FRAME: a turn of the loop leaves the other unit rows alone. -/
theorem workUnit_submitUnit (hwf : Wf db)
    (hne : u' ≠ u.workUnitId) : (submitUnit jobId now deduped db u).workUnit u' = db.workUnit u' := by
  obtain ⟨ms, he⟩ := submitUnit_eq hwf u
  rw [he]
  refine workUnit_upsert.trans ((if_neg hne).trans ?_)
  split
  · rfl
  · rfl

/-- A fresh membership key lets every statement of the body through. -/
theorem execAll_submitUnitStmts (h : Wf db) (hfresh : db.member jobId u.workUnitId = none) :
    execAll (submitUnitStmts jobId now deduped u ++ rest) db
      = execAll rest (submitUnit jobId now deduped db u) := by
  have hmem : Table.get MembershipRow.key
      (Sql.snapshotTerminalOwner u.workUnitId db).jobUnitMemberships (jobId, u.workUnitId)
        = none := member_snapshot_none h hfresh
  have hins : ∀ (row : UnitRow) (ref : Option String) (db' : Db),
      db'.jobUnitMemberships = (Sql.snapshotTerminalOwner u.workUnitId db).jobUnitMemberships →
      Sql.insertJobUnitMembership (submittedMembership jobId ref u) (Sql.upsertWorkUnit row db')
        = .ok (handed row (submittedMembership jobId ref u) db') := by
    intro row ref db' he
    have hk : (submittedMembership jobId ref u).key = (jobId, u.workUnitId) := rfl
    simp only [Sql.insertJobUnitMembership, handed, Sql.upsertWorkUnit, hk, he, hmem]; rfl
  unfold submitUnitStmts submitUnit
  cases hr : (deduped.lookup u.workUnitId).isSome with
  | true => simp only [hr, if_true, cons_append, nil_append, execAll]; rw [hins _ _ _ rfl]
  | false =>
    simp only [hr, false_eq_true, if_false, cons_append, nil_append, execAll]
    rw [hins _ _ (Sql.deleteBackupLease u.workUnitId (Sql.deleteStaleResult u.workUnitId
      (Sql.deleteIncompleteResultBindings u.workUnitId _))) rfl]
    rfl

/-- What holds before each turn of the submission loop, with `units` still to go. -/
structure SubmitLoop (jobId : String) (units : List WorkUnitSpec) (db : Db) : Prop where
  wf : Wf db
  job : (db.job jobId).isSome
  nodup : (units.map (·.workUnitId)).Nodup
  fresh : ∀ u ∈ units, db.member jobId u.workUnitId = none

theorem SubmitLoop.head_ne {u' : WorkUnitSpec}
    (h : SubmitLoop jobId (u :: us) db) (hu' : u' ∈ us) : u'.workUnitId ≠ u.workUnitId :=
  fun he => (nodup_cons.mp h.nodup).1 (mem_map.mpr ⟨u', hu', he⟩)

theorem SubmitLoop.next
    (h : SubmitLoop jobId (u :: us) db) : SubmitLoop jobId us (submitUnit jobId now deduped db u) := by
  have hfresh := h.fresh u mem_cons_self
  refine ⟨h.wf.submitUnit h.job hfresh, ?_, (nodup_cons.mp h.nodup).2, ?_⟩
  · rw [Db.job, job_submitUnit]; exact h.job
  intro u' hu'
  have hne : u.workUnitId ≠ u'.workUnitId := (h.head_ne hu').symm
  rw [← not_isSome_iff_eq_none, member_submitUnit h.wf, h.fresh u' (mem_cons_of_mem _ hu')]
  simp [hne]

theorem SubmitLoop.done (h : SubmitLoop jobId units db) :
    SubmitLoop jobId [] (units.foldl (submitUnit jobId now deduped) db) := by
  induction units generalizing db with
  | nil => exact h
  | cons u us ih => exact ih h.next

/-- The whole loop goes through. -/
theorem SubmitLoop.execAll : ∀ {units : List WorkUnitSpec} {db : Db}, SubmitLoop jobId units db →
    execAll (units.flatMap (submitUnitStmts jobId now deduped)) db
      = (units.foldl (submitUnit jobId now deduped) db, none)
  | [], _, _ => rfl
  | u :: us, db, h => by
    rw [flatMap_cons, execAll_submitUnitStmts h.wf (h.fresh u mem_cons_self),
      SubmitLoop.execAll h.next, foldl_cons]

end

theorem uniqueUnits_nodup : ∀ (us acc : List WorkUnitSpec), (acc.map (·.workUnitId)).Nodup →
    ((uniqueUnits acc us).map (·.workUnitId)).Nodup
  | [], _, h => h
  | u :: us, acc, h => by
    unfold uniqueUnits
    split
    · exact uniqueUnits_nodup us acc h
    rename_i hu
    refine uniqueUnits_nodup us _ ?_
    rw [map_append, map_cons, map_nil]
    refine nodup_append.mpr ⟨h, by simp, ?_⟩
    intro a ha b hb
    rw [mem_singleton] at hb
    rintro rfl; exact hu (hb ▸ ha)

theorem mem_uniqueUnits : ∀ (us acc : List WorkUnitSpec) (u : WorkUnitSpec),
    u ∈ uniqueUnits acc us → u ∈ acc ∨ u ∈ us
  | [], _, _, h => .inl h
  | v :: us, acc, u, h => by
    unfold uniqueUnits at h
    split at h
    · exact (mem_uniqueUnits us acc u h).imp_right (mem_cons_of_mem _)
    rcases mem_uniqueUnits us _ u h with h | h
    · rcases mem_concat.1 h with h | rfl
      · exact .inl h
      · exact .inr mem_cons_self
    · exact .inr (mem_cons_of_mem _ h)

theorem mem_of_mem_uniqueUnits {u : WorkUnitSpec} (h : u ∈ uniqueUnits [] specs) : u ∈ specs :=
  (mem_uniqueUnits specs [] u h).resolve_left (by simp)

/-- The database right after `INSERT_JOB`. -/
def withJob (jobId : String) (job : JobSubmit) (now : ℤ) (db : Db) : Db :=
  { db with jobs := db.jobs ++ [submittedJob jobId job now] }

/-- The database a submission commits. -/
def submitted (jobId : String) (job : JobSubmit) (now : ℤ) (units : List WorkUnitSpec) (db : Db) :
    Db :=
  recomputeJobState jobId (units.foldl
    (submitUnit jobId now (Sql.selectSucceededResults (units.map (·.workUnitId)) db))
    (withJob jobId job now db))

theorem submitLoop_start (h : Wf db) (job : JobSubmit) (now : ℤ)
    (specs : List WorkUnitSpec) (hfresh : db.job jobId = none) :
    SubmitLoop jobId (uniqueUnits [] specs) (withJob jobId job now db) := by
  refine ⟨h.appendJob hfresh, ?_, uniqueUnits_nodup specs [] nodup_nil, ?_⟩
  · rw [withJob, Db.job, get_append, isSome_or, or_eq_true]
    exact .inr (by simp [submittedJob])
  · intro u _
    cases hm : (withJob jobId job now db).member jobId u.workUnitId with
    | none => rfl
    | some m =>
      have := h.memberJob jobId u.workUnitId (isSome_iff_exists.mpr ⟨m, hm⟩)
      rw [hfresh] at this; exact absurd this (by simp)

theorem Wf.submitted (h : Wf db) (job : JobSubmit) (now : ℤ)
    (specs : List WorkUnitSpec) (hfresh : db.job jobId = none) :
    Wf (submitted jobId job now (uniqueUnits [] specs) db) :=
  ((submitLoop_start h job now specs hfresh).done.wf).recompute jobId

/-! ### The database changes a call can commit -/

def backupRow (cfg : Config) (agentId u : String) (now : ℤ) (w : UnitRow) : BackupRow where
  workUnitId := u
  jobId := w.jobId
  agentId := agentId
  attempt := cfg.backupAttempt
  leaseExpires := leaseExpiry now w.estDurationS cfg.defaultLeaseS
  createdAt := now

/-- `Effect cfg db op db'`: the call `op` finds `db`, goes through, and commits `db'`. -/
inductive Effect (cfg : Config) (db : Db) : Op → Db → Prop where
  | submit {jobId : String} {job : JobSubmit} {specs : List WorkUnitSpec} {reuse : Bool} {now : ℤ}
      (fresh : db.job jobId = none)
      (inactive : reuse = true →
        Sql.selectActiveJobsForUnits ((uniqueUnits [] specs).map (·.workUnitId)) db = []) :
      Effect cfg db (.submitJob jobId job specs reuse now)
        (submitted jobId job now (uniqueUnits [] specs) db)
  | claim {agentId : String} {modelIds : List String} {now : ℤ} {tie : ℕ} {w : UnitRow}
      (unit : db.workUnit w.workUnitId = some w) (pending : w.state = .pending) :
      Effect cfg db (.leaseNext agentId modelIds now tie)
        (recomputeJobState w.jobId (Sql.claimUnit agentId
          (leaseExpiry now w.estDurationS cfg.defaultLeaseS) w.workUnitId db))
  | extend {agentId : String} {ids : List String} {now : ℤ} :
      Effect cfg db (.extendLeases agentId ids now)
        (Sql.extendLeases (leaseExpiry now none cfg.defaultLeaseS) agentId ids db)
  | backup {agentId u : String} {now : ℤ} {w : UnitRow} (unit : db.workUnit u = some w)
      (leased : w.state = .leased) (other : w.leaseAgent.any (· ≠ agentId))
      (fresh : Table.get BackupRow.workUnitId db.backupLeases u = none) :
      Effect cfg db (.leaseBackup agentId u now)
        { db with backupLeases := db.backupLeases ++ [backupRow cfg agentId u now w] }
  | bind {agentId u : String} {attempt : ℕ} {digest ref : String} {now : ℤ}
      (holder : Sql.holdsPrimary db agentId u attempt ∨
        (Sql.selectBackupLeaseHolder u agentId attempt db ∧ db.result u = none))
      (fresh : Table.get BindingRow.key db.resultPayloadBindings (u, attempt) = none) :
      Effect cfg db (.bindResultPayload agentId u attempt digest ref now)
        { db with
          resultPayloadBindings :=
            db.resultPayloadBindings ++ [⟨u, agentId, attempt, digest, ref, now⟩] }
  | bindAgain {agentId u : String} {attempt : ℕ} {digest ref : String} {now : ℤ} :
      Effect cfg db (.bindResultPayload agentId u attempt digest ref now) db
  | complete {agentId : String} {attempt : ℕ} {result : WorkResult} {now : ℤ} {unit : UnitRow}
      (row : db.workUnit result.workUnitId = some unit) (fresh : db.result result.workUnitId = none)
      (accepted : completionAccepted agentId attempt unit || backupRole agentId attempt unit db)
      (bound : payloadBound (completionAccepted agentId attempt unit) agentId attempt result db) :
      Effect cfg db (.completeUnit agentId attempt result now)
        (finalizeUnit agentId now unit result db)
  | requeueExpired {now : ℤ} :
      Effect cfg db (.requeueExpired now) (requeue cfg (Sql.selectorExpired now) now db).1
  | requeueAgent {agentId : String} {now : ℤ} :
      Effect cfg db (.requeueAgent agentId now) (requeue cfg (Sql.selectorByAgent agentId) now db).1
  | finalize {jobId : String} {items : ℤ} (job : (db.job jobId).isSome) :
      Effect cfg db (.markJobFinalized jobId items)
        { db with
          jobFinalizations := Table.insertIgnore FinalizationRow.jobId ⟨jobId, items.toNat⟩
            db.jobFinalizations }

/-- Every unit row's owner has its membership row, so reopening adds none. -/
theorem backfill_eq (h : Wf db) : Sql.backfillJobUnitMemberships db = db := by
  have hfold : ∀ (row : UnitRow → MembershipRow), (∀ w, (row w).key = (w.jobId, w.workUnitId)) →
      ∀ ws : List UnitRow, (∀ w ∈ ws, w ∈ db.workUnits) →
        ws.foldl (fun ms w => Table.insertIgnore MembershipRow.key (row w) ms)
          db.jobUnitMemberships = db.jobUnitMemberships := by
    intro row hrow ws
    induction ws with
    | nil => intro _; rfl
    | cons w ws ih =>
      intro hws
      have hown : (Table.get MembershipRow.key db.jobUnitMemberships
          (w.jobId, w.workUnitId)).isSome :=
        h.owner _ w (h.workUnit_of_mem (hws w mem_cons_self))
      rw [foldl_cons, Table.insertIgnore, hrow, if_pos hown]
      exact ih fun w' hw' => hws w' (mem_cons_of_mem _ hw')
  simp only [Sql.backfillJobUnitMemberships]
  rw [hfold _ (fun _ => rfl) db.workUnits fun _ hw => hw]

/-! ### What each call does -/

/-- The reuse lookup passes only when no submitted unit is unfinished, and its query ran. -/
theorem matchingActiveJob_none (h : matchingActiveJob cfg job units params db = .ok none) :
    Sql.selectActiveJobsForUnits (units.map (·.workUnitId)) db = [] ∧
      units.length ≤ cfg.maxVariables := by
  unfold matchingActiveJob at h
  split at h
  · rename_i hu; subst hu; exact ⟨by simp [Sql.selectActiveJobsForUnits], Nat.zero_le _⟩
  split at h
  · cases h
  rename_i hlen
  dsimp only at h
  split at h
  · rename_i hrows; exact ⟨hrows, Nat.le_of_not_lt hlen⟩
  · split at h <;> cases h

section
variable (cfg : Config)
include cfg

/-- The lookup of reusable results raises exactly when it binds too many variables. -/
theorem succeededUnitResults_eq (ids : List String) (db : Db) :
    succeededUnitResults cfg ids db = .ok (Sql.selectSucceededResults ids db) ∨
      (cfg.maxVariables < ids.length ∧
        succeededUnitResults cfg ids db = .error (.sql .tooManyVariables)) := by
  unfold succeededUnitResults
  split
  · rename_i hids; subst hids; exact .inl (by simp [Sql.selectSucceededResults])
  split
  · exact .inr ⟨‹_›, rfl⟩
  · exact .inl rfl

/-- A submission changes nothing, commits its whole loop, or raises with the job row written; one
    that changes nothing and returns has found an active job to reuse. -/
theorem submitJob_cases (h : Wf s.working) (jobId : String)
    (job : JobSubmit) (specs : List WorkUnitSpec) (reuse : Bool) (now : ℤ) :
    (∃ out, submitJob cfg s jobId job specs reuse now = (s, out) ∧ ∀ id, out = .ok id →
      matchingActiveJob cfg job (uniqueUnits [] specs) (dumpParams job.params) s.working
        = .ok (some id)) ∨ (∃ db', Effect cfg s.working (.submitJob jobId job specs reuse now) db' ∧
      submitJob cfg s jobId job specs reuse now = (⟨db', db'⟩, .ok jobId)) ∨
    (reuse = false ∧ cfg.maxVariables < (uniqueUnits [] specs).length ∧ s.working.job jobId = none ∧
      (submitJob cfg s jobId job specs reuse now).1
        = { s with working := withJob jobId job now s.working }) := by
  unfold submitJob
  dsimp only
  split
  · exact .inl ⟨_, rfl, nofun⟩
  · rename_i active hactive
    refine .inl ⟨_, rfl, fun id hid => ?_⟩
    cases hid
    cases reuse with
    | false => cases hactive
    | true => exact hactive
  rename_i hnone
  have hinactive : reuse = true →
      Sql.selectActiveJobsForUnits ((uniqueUnits [] specs).map (·.workUnitId)) s.working = [] ∧
        (uniqueUnits [] specs).length ≤ cfg.maxVariables := by
    intro hr
    rw [hr, if_pos rfl] at hnone
    exact matchingActiveJob_none hnone
  cases hjob : s.working.job jobId with
  | some row =>
    refine .inl ⟨.error (.sql (.uniqueConstraint "jobs")), ?_, nofun⟩
    rw [Sql.insertJob, show (submittedJob jobId job now).jobId = jobId from rfl, hjob, if_pos (by rfl)]
  | none =>
    have hins : Sql.insertJob (submittedJob jobId job now) s.working
        = .ok (withJob jobId job now s.working) := by
      rw [Sql.insertJob, show (submittedJob jobId job now).jobId = jobId from rfl, hjob]; rfl
    rw [hins]
    dsimp only
    rcases succeededUnitResults_eq cfg ((uniqueUnits [] specs).map (·.workUnitId))
      (withJob jobId job now s.working) with hres | ⟨hlen, hres⟩
    · rw [hres]
      dsimp only
      rw [(submitLoop_start h job now specs hjob).execAll]
      exact .inr (.inl ⟨_, .submit hjob fun hr => (hinactive hr).1, rfl⟩)
    · rw [hres]
      rw [length_map] at hlen
      refine .inr (.inr ⟨?_, hlen, rfl, rfl⟩)
      cases reuse with
      | false => rfl
      | true => exact absurd (hinactive rfl).2 (Nat.not_le.mpr hlen)

omit cfg in
/-- A lease candidate is a pending unit row of the table. -/
theorem selectLeaseCandidate_spec (h : Wf db)
    {j : JobRow} (hc : Sql.selectLeaseCandidate modelIds tie db = some (w, j)) :
    db.workUnit w.workUnitId = some w ∧ w.state = .pending := by
  have hmem := mem_of_getElem? hc
  simp only [mem_filter, mem_filterMap, Sql.joinJob, map_eq_some_iff, decide_eq_true_eq] at hmem
  obtain ⟨⟨⟨w', ⟨hw', hp⟩, _, _, he⟩, _⟩, _⟩ := hmem
  obtain ⟨rfl, -⟩ := mk.inj he
  exact ⟨h.workUnit_of_mem hw', hp⟩

theorem leaseNext_cases (h : Wf s.working) (agentId : String)
    (modelIds : List String) (now : ℤ) (tie : ℕ) :
    (leaseNext cfg s agentId modelIds now tie).1 = s ∨
    ∃ db', Effect cfg s.working (.leaseNext agentId modelIds now tie) db' ∧
      (leaseNext cfg s agentId modelIds now tie).1 = ⟨db', db'⟩ := by
  unfold leaseNext
  split
  · exact .inl rfl
  split
  · exact .inl rfl
  split
  · exact .inl rfl
  rename_i w j hc
  obtain ⟨hw, hp⟩ := selectLeaseCandidate_spec h hc
  split
  · exact .inl rfl
  · exact .inr ⟨_, .claim hw hp, rfl⟩

theorem leaseBackup_cases (s : Store) (agentId u : String) (now : ℤ) :
    (leaseBackup cfg s agentId u now).1 = s ∨
    ∃ db', Effect cfg s.working (.leaseBackup agentId u now) db' ∧
      (leaseBackup cfg s agentId u now).1 = ⟨db', db'⟩ := by
  unfold leaseBackup
  split
  · exact .inl rfl
  rename_i w j ht
  simp only [Sql.selectBackupLeaseTarget, Sql.joinJob, bind_eq_some_iff,
    filter_eq_some_iff, map_eq_some_iff, decide_eq_true_eq] at ht
  obtain ⟨w', ⟨hw', hl, ho⟩, _, _, he⟩ := ht
  obtain ⟨rfl, -⟩ := mk.inj he
  dsimp only
  split
  · exact .inl rfl
  rename_i db₁ hins
  unfold Sql.insertBackupLease at hins
  split at hins
  · cases (mk.inj hins).2
  · rename_i hfree
    obtain ⟨rfl, -⟩ := mk.inj hins
    exact .inr ⟨_, .backup hw' hl ho (not_isSome_iff_eq_none.mp hfree), rfl⟩

omit cfg in
/-- Both lanes append the same row to a free slot, or append nothing. -/
theorem insertBinding_cases : (Sql.insertBinding row db = (db, false)) ∨
    (Table.get BindingRow.key db.resultPayloadBindings row.key = none ∧ Sql.insertBinding row db =
        ({ db with resultPayloadBindings := db.resultPayloadBindings ++ [row] }, true)) := by
  unfold Sql.insertBinding
  split
  · exact .inl rfl
  · rename_i hfree; exact .inr ⟨not_isSome_iff_eq_none.mp hfree, rfl⟩

theorem bindResultPayload_cases (s : Store) (agentId u : String) (attempt : ℕ)
    (digest ref : String) (now : ℤ) :
    ∃ db', Effect cfg s.working (.bindResultPayload agentId u attempt digest ref now) db' ∧
      (bindResultPayload s agentId u attempt digest ref now).1 = ⟨db', db'⟩ := by
  have hprim : Sql.bindResultPayload ⟨u, agentId, attempt, digest, ref, now⟩ s.working
        = (s.working, false) ∨
      ∃ db', Effect cfg s.working (.bindResultPayload agentId u attempt digest ref now) db' ∧
        Sql.bindResultPayload ⟨u, agentId, attempt, digest, ref, now⟩ s.working = (db', true) := by
    unfold Sql.bindResultPayload
    split
    · rename_i hh
      rcases insertBinding_cases with
        he | ⟨hfree, he⟩
      · exact .inl he
      · exact .inr ⟨_, .bind (.inl hh) hfree, he⟩
    · exact .inl rfl
  have hback : Sql.bindResultPayloadBackup ⟨u, agentId, attempt, digest, ref, now⟩ s.working
        = (s.working, false) ∨
      ∃ db', Effect cfg s.working (.bindResultPayload agentId u attempt digest ref now) db' ∧
        Sql.bindResultPayloadBackup ⟨u, agentId, attempt, digest, ref, now⟩ s.working
          = (db', true) := by
    unfold Sql.bindResultPayloadBackup
    split
    · rename_i hh
      have hres : s.working.result u = none := by simpa [Sql.selectResultExists] using hh.2
      rcases insertBinding_cases with
        he | ⟨hfree, he⟩
      · exact .inl he
      · exact .inr ⟨_, .bind (.inr ⟨hh.1, hres⟩) hfree, he⟩
    · exact .inl rfl
  unfold bindResultPayload
  dsimp only
  rcases hprim with he | ⟨db', heff, he⟩
  · rw [he]
    rw [if_neg (by simp)]
    split
    · exact ⟨_, .bindAgain, rfl⟩
    · rcases hback with he' | ⟨db', heff, he'⟩
      · rw [he']; exact ⟨_, .bindAgain, rfl⟩
      · rw [he']; exact ⟨db', heff, rfl⟩
  · rw [he]; exact ⟨db', heff, rfl⟩

theorem completeUnit_cases (s : Store) (agentId : String) (attempt : ℕ)
    (result : WorkResult) (now : ℤ) : (completeUnit s agentId attempt result now).1 = s ∨
    ∃ db', Effect cfg s.working (.completeUnit agentId attempt result now) db' ∧
      (completeUnit s agentId attempt result now).1 = ⟨db', db'⟩ := by
  unfold completeUnit
  split
  · exact .inl rfl
  rename_i unit hunit
  split
  · exact .inl rfl
  rename_i hres
  dsimp only
  split
  · rename_i hacc
    rw [and_eq_true] at hacc
    exact .inr ⟨_, .complete hunit (by simpa [Sql.selectResultExists] using hres) hacc.1 hacc.2,
      rfl⟩
  · exact .inl rfl

theorem markJobFinalized_cases (s : Store) (jobId : String) (items : ℤ) :
    (markJobFinalized s jobId items).1 = s ∨
    ∃ db', Effect cfg s.working (.markJobFinalized jobId items) db' ∧
      (markJobFinalized s jobId items).1 = ⟨db', db'⟩ := by
  unfold markJobFinalized
  split
  · exact .inl rfl
  rw [Sql.insertJobFinalization]
  cases hjob : s.working.job jobId with
  | none => exact .inl rfl
  | some row => exact .inr ⟨_, .finalize (by rw [hjob]; rfl), rfl⟩

/-- Every call leaves the store alone, commits an effect, raises with the job row written, or
    reopens the file. -/
theorem step_cases (h : Wf s.working) (hc : Wf s.committed) (op : Op) : step cfg s op = s ∨
    (∃ db', Effect cfg s.working op db' ∧ step cfg s op = ⟨db', db'⟩) ∨
    (∃ jobId job specs now, op = .submitJob jobId job specs false now ∧
      cfg.maxVariables < (uniqueUnits [] specs).length ∧ s.working.job jobId = none ∧
      step cfg s op = { s with working := withJob jobId job now s.working }) ∨
    (op = .reopen ∧ step cfg s op = ⟨s.committed, s.committed⟩) := by
  cases op with
  | submitJob jobId job specs reuse now =>
    rcases submitJob_cases cfg h jobId job specs reuse now with
      ⟨out, he, _⟩ | ⟨db', heff, he⟩ | ⟨rfl, hlen, hj, he⟩
    · exact .inl (by rw [step, he])
    · exact .inr (.inl ⟨db', heff, by rw [step, he]⟩)
    · exact .inr (.inr (.inl ⟨jobId, job, specs, now, rfl, hlen, hj, he⟩))
  | leaseNext agentId modelIds now tie =>
    exact (leaseNext_cases cfg h agentId modelIds now tie).imp_right .inl
  | extendLeases agentId ids now =>
    simp only [step, extendLeases]
    split
    · exact .inl rfl
    split
    · exact .inl rfl
    · exact .inr (.inl ⟨_, .extend, rfl⟩)
  | leaseBackup agentId u now => exact (leaseBackup_cases cfg s agentId u now).imp_right .inl
  | bindResultPayload agentId u attempt digest ref now =>
    exact .inr (.inl (bindResultPayload_cases cfg s agentId u attempt digest ref now))
  | completeUnit agentId attempt result now =>
    exact (completeUnit_cases cfg s agentId attempt result now).imp_right .inl
  | requeueExpired now => exact .inr (.inl ⟨_, .requeueExpired, rfl⟩)
  | requeueAgent agentId now => exact .inr (.inl ⟨_, .requeueAgent, rfl⟩)
  | markJobFinalized jobId items =>
    exact (markJobFinalized_cases cfg s jobId items).imp_right .inl
  | reopen =>
    refine .inr (.inr (.inr ⟨rfl, ?_⟩))
    rw [step, reopen, backfill_eq hc]; rfl

end

/-! ### Every reachable state is well formed -/

/-- The two branches of a requeue, and the rows the second one gave up. -/
def requeueRows (cfg : Config) (selector : UnitRow → Bool) (db : Db) : Db × List UnitRow :=
  Sql.requeueToDead selector cfg.maxAttempts (Sql.requeueToPending selector cfg.maxAttempts db).1

section
variable {cfg : Config} {selector : UnitRow → Bool} {now : ℤ} {db : Db}

/-- INVARIANT: what holds after the two branches and is kept by the writes that follow them. -/
theorem requeue_keeps (hrows : P (requeueRows cfg selector db).1)
    (hmark : ∀ db w, P db → P (markDead db w)) (hjob : ∀ db j, P db → P (recomputeJobState j db)) :
    P (requeue cfg selector now db).1 :=
  foldlRecOn _ _ (foldlRecOn _ _ hrows fun db h w _ => hmark db w h) fun db h j _ => hjob db j h

/-- A requeue moves unit rows in its two branches; beside them it touches memberships and jobs. -/
theorem requeue_tables : ∃ ms jobs, (requeue cfg selector now db).1 =
    { (requeueRows cfg selector db).1 with jobUnitMemberships := ms, jobs := jobs } := by
  refine requeue_keeps (P := fun db' => ∃ ms jobs, db' =
    { (requeueRows cfg selector db).1 with jobUnitMemberships := ms, jobs := jobs })
    ⟨_, _, rfl⟩ ?_ ?_
  · rintro _ w ⟨ms, jobs, rfl⟩
    exact ⟨_, jobs, rfl⟩
  · rintro _ j ⟨ms, jobs, rfl⟩
    exact ⟨ms, _, rfl⟩

end

theorem Wf.markJobUnitTerminal (h : Wf db) (j u : String) (terminal : WorkUnitState)
    (status : Option WorkResultStatus) (ref : Option String) :
    Wf (Sql.markJobUnitTerminal j u terminal status ref db) := h.updateMembers fun _ => rfl

theorem Wf.claimUnit (h : Wf db) (agentId : String) (expiry : ℤ) (u : String) :
    Wf (Sql.claimUnit agentId expiry u db) := h.updateUnits (fun _ => rfl) fun _ => rfl

theorem Wf.requeueTo (h : Wf db) (target : WorkUnitState) (sel : UnitRow → Bool) :
    Wf (Sql.requeueTo target sel db).1 := h.updateUnits (fun _ => rfl) fun _ => rfl

theorem Wf.requeue (h : Wf db) (cfg : Config) (selector : UnitRow → Bool) (now : ℤ) :
    Wf (requeue cfg selector now db).1 :=
  requeue_keeps ((h.requeueTo .pending _).requeueTo .dead _)
    (fun _ _ h => h.markJobUnitTerminal ..) fun _ j h => h.recompute j

/-- The first writes of a completion: its result, and the unit done. -/
def withResult (agentId : String) (now : ℤ) (result : WorkResult) (db : Db) : Db :=
  Sql.markUnitDone result.workUnitId (Sql.insertResult (resultRowParams result agentId now) db)

theorem finalizeUnit_eq : ∃ ref, (result.status = .succeeded → ref = result.resultRef) ∧
      finalizeUnit agentId now unit result db = recomputeJobState unit.jobId
        (Sql.markJobUnitTerminal unit.jobId result.workUnitId .done (some result.status) ref
          (withResult agentId now result db)) :=
  ⟨_, fun hs => by rw [hs], rfl⟩

theorem Wf.finalizeUnit (h : Wf db) (agentId : String) (now : ℤ) (unit : UnitRow)
    (result : WorkResult) : Wf (finalizeUnit agentId now unit result db) := by
  have hins : Wf (Sql.insertResult (resultRowParams result agentId now) db) :=
    { h with resultKeys := keyed_insertIgnore h.resultKeys }
  have hdone : Wf (withResult agentId now result db) :=
    hins.updateUnits (fun _ => rfl) fun _ => rfl
  exact (hdone.markJobUnitTerminal ..).recompute unit.jobId

/-- INVARIANT: every committed effect keeps the tables well formed. -/
theorem Effect.wf (he : Effect cfg db op db') (h : Wf db) : Wf db' := by
  cases he with
  | submit fresh _ => exact h.submitted _ _ _ fresh
  | claim _ _ => exact (h.claimUnit ..).recompute _
  | extend => exact h.updateUnits (fun _ => rfl) fun _ => rfl
  | backup _ _ _ _ | bind _ _ | finalize _ => exact { h with }
  | bindAgain => exact h
  | complete _ _ _ _ => exact h.finalizeUnit _ _ _ _
  | requeueExpired | requeueAgent => exact h.requeue _ _ _

/-- Both views of the connection are well formed. -/
structure StoreWf (s : Store) : Prop where
  working : Wf s.working
  committed : Wf s.committed

/-- INVARIANT: every call keeps both views well formed. -/
theorem StoreWf.step (h : StoreWf s) (cfg : Config) (op : Op) : StoreWf (step cfg s op) := by
  rcases step_cases cfg h.working h.committed op with
    he | ⟨db', heff, he⟩ | ⟨jobId, job, specs, now, _, _, hj, he⟩ | ⟨_, he⟩
  · rw [he]; exact h
  · rw [he]; exact ⟨heff.wf h.working, heff.wf h.working⟩
  · rw [he]; exact ⟨h.working.appendJob hj, h.committed⟩
  · rw [he]; exact ⟨h.committed, h.committed⟩

/-- INVERSION: what a call can do to the view of the connection. -/
@[elab_as_elim]
theorem StoreWf.step_working (h : StoreWf s) (cfg : Config) (op : Op)
    (hsame : P s.working) (heffect : ∀ db', Effect cfg s.working op db' → P db')
    (hjob : ∀ jobId job now, P (withJob jobId job now s.working))
    (hreopen : op = .reopen → P s.committed) : P (Queue.step cfg s op).working := by
  rcases step_cases cfg h.working h.committed op with
    he | ⟨db', heff, he⟩ | ⟨jobId, job, specs, now, _, _, _, he⟩ | ⟨hop, he⟩
  · rw [he]; exact hsame
  · rw [he]; exact heffect db' heff
  · rw [he]; exact hjob jobId job now
  · rw [he]; exact hreopen hop

end Fallow.Queue

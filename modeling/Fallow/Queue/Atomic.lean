import Fallow.Queue.Invariant

/-! What a `submit_job` that raises leaves behind.

    The transaction belongs to the connection all calls share and nothing rolls it back, so a call
    that raises after its first write leaves that write to whoever commits next. The call is modelled
    here with a fault: any of its statements, the COMMIT included, may raise.

        SELECT (reuse) ─▶ INSERT job ─▶ SELECT results ─▶ units … ─▶ COUNT ─▶ UPDATE ─▶ COMMIT
           select           write 0        write 1          …                          write n -/

namespace Fallow.Queue
open Lib List

/-- Which statement raises for a reason of its own (I/O, a lock, a cancelled task). -/
inductive Fault where
  | none
  | select
  | write (n : ℕ)
  deriving DecidableEq, Repr

inductive Raised where
  | queue (e : QueueError)
  | fault
  deriving DecidableEq, Repr

/-- `_succeeded_unit_results` as a statement: it reads, or SQLite refuses its variables. -/
def selectResultsStmt (cfg : Config) (ids : List String) : Stmt := fun db =>
  if ids ≠ [] ∧ cfg.maxVariables < ids.length then .error .tooManyVariables else .ok db

/-- What `submit_job` executes from its first write to its COMMIT. -/
def submitStmts (cfg : Config) (jobId : String) (job : JobSubmit) (units : List WorkUnitSpec)
    (now : ℤ) (deduped : List (String × String)) : List Stmt :=
  Sql.insertJob (submittedJob jobId job now) ::
    (selectResultsStmt cfg (units.map (·.workUnitId)) ::
      (units.flatMap (submitUnitStmts jobId now deduped) ++
        [fun db => .ok db, fun db => .ok (recomputeJobState jobId db)]))

/-- The statements a fault lets run. -/
def Fault.ran (fault : Fault) (stmts : List Stmt) : List Stmt :=
  match fault with
  | .write n => stmts.take n
  | _ => stmts

/-- Run the statements until one raises, then COMMIT, which is the last that may raise. -/
def execCommit (fault : Fault) (stmts : List Stmt) (s : Store) (jobId : String) :
    Store × Except Raised String :=
  match execAll (fault.ran stmts) s.working with
  | (db, some e) => ({ s with working := db }, .error (.queue (.sql e)))
  | (db, none) =>
    match fault with
    | .write n =>
      if n ≤ stmts.length then ({ s with working := db }, .error .fault)
      else (s.commit db, .ok jobId)
    | _ => (s.commit db, .ok jobId)

/-- `submit_job` with a fault. -/
def submitJobWith (fault : Fault) (cfg : Config) (s : Store) (jobId : String) (job : JobSubmit)
    (specs : List WorkUnitSpec) (reuseActive : Bool) (now : ℤ) : Store × Except Raised String :=
  let units := uniqueUnits [] specs
  if reuseActive ∧ units ≠ [] ∧ fault = .select then (s, .error .fault)
  else
    match (if reuseActive then matchingActiveJob cfg job units (dumpParams job.params) s.working
           else .ok none) with
    | .error e => (s, .error (.queue e))
    | .ok (some active) => (s, .ok active)
    | .ok none =>
      let deduped := Sql.selectSucceededResults (units.map (·.workUnitId)) s.working
      execCommit fault (submitStmts cfg jobId job units now deduped) s jobId

/-! ### Without a fault it is `submitJob` -/

variable {db : Db}

theorem selectSucceededResults_insertJob (h : Sql.insertJob row db = .ok db') :
    Sql.selectSucceededResults ids db' = Sql.selectSucceededResults ids db := by
  unfold Sql.insertJob at h
  split at h
  · cases h
  · cases h; rfl

theorem execAll_append : ∀ (ss ss' : List Stmt) (db : Db), execAll (ss ++ ss') db =
    match execAll ss db with
    | (db', some e) => (db', some e)
    | (db', none) => execAll ss' db'
  | [], _, _ => rfl
  | s :: ss, ss', db => by
    simp only [cons_append, execAll]
    cases s db with
    | ok db' => exact execAll_append ss ss' db'
    | error e => rfl

variable {s : Store} {now : ℤ} {job : JobSubmit} {jobId : String}

/-- REFINES: the fault-free call. -/
theorem submitJobWith_none : submitJobWith .none cfg s jobId job specs reuseActive now =
      ((submitJob cfg s jobId job specs reuseActive now).1,
        (submitJob cfg s jobId job specs reuseActive now).2.mapError .queue) := by
  simp only [submitJobWith, submitJob]
  rw [if_neg (by simp)]
  generalize (if reuseActive = true then matchingActiveJob cfg job (uniqueUnits [] specs)
    (dumpParams job.params) s.working else Except.ok none) = reuse
  rcases reuse with e | _ | active
  · rfl
  · simp only [execCommit, Fault.ran, submitStmts, execAll]
    cases hins : Sql.insertJob (submittedJob jobId job now) s.working with
    | error e => rfl
    | ok db₁ =>
      rw [← selectSucceededResults_insertJob hins]
      generalize (uniqueUnits [] specs).map (·.workUnitId) = ids
      by_cases hmany : ids ≠ [] ∧ cfg.maxVariables < ids.length
      · simp [selectResultsStmt, succeededUnitResults, hmany, Except.mapError]
      have hread : succeededUnitResults cfg ids db₁ = .ok (Sql.selectSucceededResults ids db₁) := by
        rcases succeededUnitResults_eq cfg ids db₁ with hok | ⟨hlen, -⟩
        · exact hok
        · refine absurd ⟨?_, hlen⟩ hmany
          rintro rfl
          exact Nat.not_lt_zero _ hlen
      simp only [selectResultsStmt, if_neg hmany, hread]
      rw [execAll_append]
      cases execAll ((uniqueUnits [] specs).flatMap (submitUnitStmts jobId now
          (Sql.selectSucceededResults ids db₁))) db₁ with
      | mk db₂ e => cases e <;> rfl
  · rfl

/-! ### Once the INSERT has run, the job row stays -/

theorem job_isSome_recompute :
    ((recomputeJobState j db).job jobId).isSome = (db.job jobId).isSome := by
  simp only [recomputeJobState, Sql.setJobState, Db.job]
  rw [Table.get_update (by intros; rfl), Option.isSome_map]

/-- No statement after the INSERT touches which jobs there are. -/
def KeepsJob (jobId : String) (stmt : Stmt) : Prop :=
  ∀ db db', stmt db = .ok db' → (db'.job jobId).isSome = (db.job jobId).isSome

variable {jobId : String} {deduped : List (String × String)}

theorem keepsJob_of_jobs {f : Db → Db} (h : ∀ db, (f db).jobs = db.jobs) :
    KeepsJob jobId fun db => .ok (f db) := by
  rintro db _ ⟨⟩
  simp only [Db.job, h]

theorem keepsJob_submitUnitStmts
    {u : WorkUnitSpec} : ∀ stmt ∈ submitUnitStmts jobId now deduped u, KeepsJob jobId stmt := by
  have hsnap : KeepsJob jobId fun db => .ok (Sql.snapshotTerminalOwner u.workUnitId db) := by
    refine keepsJob_of_jobs fun db => ?_
    unfold Sql.snapshotTerminalOwner
    split
    · split <;> rfl
    · rfl
  have hmember : ∀ row, KeepsJob jobId (Sql.insertJobUnitMembership row) := by
    intro row db db' h
    unfold Sql.insertJobUnitMembership at h
    split at h
    · cases h
    · cases h; rfl
  intro stmt hm
  simp only [submitUnitStmts, mem_append, mem_cons, not_mem_nil, or_false] at hm
  rcases hm with (rfl | hm) | rfl | rfl
  · exact hsnap
  · split at hm
    · cases hm
    · simp only [mem_cons, not_mem_nil, or_false] at hm
      rcases hm with rfl | rfl | rfl <;> exact keepsJob_of_jobs fun _ => rfl
  · exact keepsJob_of_jobs fun _ => rfl
  · exact hmember _

theorem job_execAll : ∀ {stmts : List Stmt} {db : Db},
    (∀ stmt ∈ stmts, KeepsJob jobId stmt) →
    ((execAll stmts db).1.job jobId).isSome = (db.job jobId).isSome
  | [], _, _ => rfl
  | s :: ss, db, h => by
    simp only [execAll]
    cases hs : s db with
    | ok db' =>
      rw [job_execAll fun stmt hm => h stmt (mem_cons_of_mem _ hm)]
      exact h s mem_cons_self db db' hs
    | error e => rfl

variable {cfg : Config} {units : List WorkUnitSpec} {n : ℕ} {e : Raised}

/-- After the INSERT, whatever runs of the rest, the working database has the new job. -/
theorem job_after_insert (hfresh : db.job jobId = none) (hn : n ≠ 0) :
    ((execAll ((submitStmts cfg jobId job units now deduped).take n) db).1.job jobId).isSome
      = true := by
  obtain ⟨n, rfl⟩ := Nat.exists_eq_succ_of_ne_zero hn
  have hins : Sql.insertJob (submittedJob jobId job now) db = .ok (withJob jobId job now db) := by
    rw [Sql.insertJob, show (submittedJob jobId job now).jobId = jobId from rfl, hfresh]
    rfl
  simp only [submitStmts, take_succ_cons, execAll, hins]
  rw [job_execAll]
  · simp only [withJob, Db.job, Table.get_append]
    simp [submittedJob]
  · intro stmt hm
    have hm := mem_of_mem_take hm
    simp only [mem_cons, mem_append, mem_flatMap, not_mem_nil, or_false] at hm
    rcases hm with rfl | ⟨u, -, hm⟩ | rfl | rfl
    · intro db db' h
      unfold selectResultsStmt at h
      split at h
      · cases h
      · cases h; rfl
    · exact keepsJob_submitUnitStmts stmt hm
    · exact keepsJob_of_jobs fun _ => rfl
    · rintro db _ ⟨⟩
      exact job_isSome_recompute

/-! ### A requeue that finds nothing -/

/-- Some clock reading is before every lease expiry. -/
theorem exists_before_expiry : ∀ l : List UnitRow,
    ∃ now : ℤ, ∀ t ≤ now, ∀ w ∈ l, Sql.selectorExpired t w = false
  | [] => ⟨0, by simp⟩
  | w :: l => by
    obtain ⟨now, h⟩ := exists_before_expiry l
    refine ⟨min now (w.leaseExpires.getD 0), fun t ht w' hw' => ?_⟩
    rcases mem_cons.mp hw' with rfl | hw'
    · cases he : w'.leaseExpires with
      | none => simp [Sql.selectorExpired, he]
      | some e =>
        have hle : t ≤ e := by
          have := le_trans ht (min_le_right _ _)
          rwa [he] at this
        simp [Sql.selectorExpired, he, hle]
    · exact h t (le_trans ht (min_le_left _ _)) w' hw'

theorem requeueTo_none
    (h : ∀ w ∈ db.workUnits, sel w = false) : Sql.requeueTo target sel db = (db, []) := by
  have hfilter : db.workUnits.filter sel = [] := filter_eq_nil_iff.mpr fun w hw => by
    simp [h w hw]
  simp only [Sql.requeueTo, Table.update_none h, hfilter]

/-- It commits what it found. -/
theorem requeueExpired_none (h : ∀ w ∈ s.working.workUnits, Sql.selectorExpired now w = false) :
    (requeueExpired cfg s now).1 = ⟨s.working, s.working⟩ := by
  have hp : Sql.requeueToPending (Sql.selectorExpired now) cfg.maxAttempts s.working
      = (s.working, []) := requeueTo_none fun w hw => by simp [h w hw]
  have hd : Sql.requeueToDead (Sql.selectorExpired now) cfg.maxAttempts s.working
      = (s.working, []) := requeueTo_none fun w hw => by simp [h w hw]
  simp [requeueExpired, requeue, hp, hd, Store.commit]

/-! ### Atomicity -/

/-- The call raises before its INSERT has taken effect: in the reuse check, at the INSERT itself, or
    because the job id exists. -/
def RaisesBeforeInsert (fault : Fault) (cfg : Config) (s : Store) (jobId : String)
    (job : JobSubmit) (specs : List WorkUnitSpec) (reuseActive : Bool) : Prop :=
  (reuseActive = true ∧ uniqueUnits [] specs ≠ [] ∧ fault = .select) ∨
    (reuseActive = true ∧ ∃ e, matchingActiveJob cfg job (uniqueUnits [] specs)
      (dumpParams job.params) s.working = .error e) ∨
    fault = .write 0 ∨ (s.working.job jobId).isSome = true

/-- The call returns and does not raise. -/
def succeeds (cfg : Config) (s : Store) : Op → Bool
  | .submitJob jobId job specs reuseActive now =>
    (submitJob cfg s jobId job specs reuseActive now).2.isOk
  | .leaseNext agentId modelIds now tie => (leaseNext cfg s agentId modelIds now tie).2.isOk
  | .extendLeases agentId unitIds now => (extendLeases cfg s agentId unitIds now).2.isOk
  | .markJobFinalized jobId indexedItems => (markJobFinalized s jobId indexedItems).2.isOk
  | _ => true

/-- A write part that raises leaves what ran. -/
theorem execCommit_raised (h : (execCommit fault stmts s jobId).2 = .error e) :
    (execCommit fault stmts s jobId).1 =
      { s with working := (execAll (fault.ran stmts) s.working).1 } := by
  unfold execCommit at h ⊢
  split at h
  · rename_i hx; rw [hx]
  rename_i hx
  rw [hx]
  split at h
  · split at h
    · rename_i hn; simp [hn]
    · cases h
  · cases h

section
variable {fault : Fault} {cfg : Config} {s : Store} {jobId : String} {job : JobSubmit}
  {specs : List WorkUnitSpec} {reuseActive : Bool} {now : ℤ}

/-- With the job id taken, or a fault at the INSERT, nothing is written. -/
theorem execAll_refused (h : fault = .write 0 ∨ (db.job jobId).isSome = true) :
    (execAll (fault.ran (submitStmts cfg jobId job units now deduped)) db).1 = db := by
  rcases h with rfl | h
  · rfl
  have hins : Sql.insertJob (submittedJob jobId job now) db = .error (.uniqueConstraint "jobs") := by
    rw [Sql.insertJob, show (submittedJob jobId job now).jobId = jobId from rfl, if_pos h]
  cases fault with
  | none | select => simp [Fault.ran, submitStmts, execAll, hins]
  | write n =>
    cases n with
    | zero => rfl
    | succ n => simp [Fault.ran, submitStmts, execAll, hins]

theorem job_after_fault (hfresh : db.job jobId = none) (hf : fault ≠ .write 0) :
    ((execAll (fault.ran (submitStmts cfg jobId job units now deduped)) db).1.job jobId).isSome
      = true := by
  have hall : ((execAll ((submitStmts cfg jobId job units now deduped).take
      (submitStmts cfg jobId job units now deduped).length) db).1.job jobId).isSome = true :=
    job_after_insert hfresh (by simp [submitStmts])
  rw [take_length] at hall
  cases fault with
  | none | select => exact hall
  | write n => exact job_after_insert hfresh fun hn => hf (by rw [hn])

/-- A raise before the INSERT changes nothing; a later one leaves the new job uncommitted. -/
theorem submitJobWith_raised
    (h : (submitJobWith fault cfg s jobId job specs reuseActive now).2 = .error e) :
    (RaisesBeforeInsert fault cfg s jobId job specs reuseActive →
      (submitJobWith fault cfg s jobId job specs reuseActive now).1 = s) ∧
    (¬ RaisesBeforeInsert fault cfg s jobId job specs reuseActive → s.working.job jobId = none ∧
      ((submitJobWith fault cfg s jobId job specs reuseActive now).1.working.job jobId).isSome
        = true) := by
  unfold submitJobWith at h ⊢
  simp only at h ⊢
  split
  · rename_i hsel
    exact ⟨fun _ => rfl, fun hn => absurd (.inl ⟨hsel.1, hsel.2.1, hsel.2.2⟩) hn⟩
  · rename_i hsel
    rw [if_neg hsel] at h
    cases hreuse : (if reuseActive = true then matchingActiveJob cfg job (uniqueUnits [] specs)
        (dumpParams job.params) s.working else Except.ok none) with
    | error e' =>
      refine ⟨fun _ => rfl, fun hn => absurd (.inr (.inl ?_)) hn⟩
      cases reuseActive with
      | false => simp at hreuse
      | true => exact ⟨rfl, e', by simpa using hreuse⟩
    | ok active =>
      rw [hreuse] at h
      cases active with
      | some active => cases h
      | none =>
        rw [execCommit_raised h]
        refine ⟨fun hb => ?_, fun hn => ?_⟩
        · have hb' : fault = .write 0 ∨ (s.working.job jobId).isSome = true := by
            rcases hb with ⟨hr, hu, hf⟩ | ⟨hr, e', he⟩ | hb
            · exact absurd ⟨hr, hu, hf⟩ hsel
            · rw [if_pos hr, he] at hreuse; cases hreuse
            · exact hb
          rw [execAll_refused hb']
        · simp only [RaisesBeforeInsert, not_or] at hn
          have hfresh : s.working.job jobId = none := Option.not_isSome_iff_eq_none.mp hn.2.2.2
          exact ⟨hfresh, job_after_fault hfresh hn.2.2.1⟩

/-- CORRECT: a raising `submit_job` is as if it had never been called, for every later sequence of
    successful calls, exactly when it raises before its INSERT takes effect. -/
theorem submit_atomic_iff {e : Raised}
    (h : (submitJobWith fault cfg s jobId job specs reuseActive now).2 = .error e) :
    (∀ ops, Admitted (step cfg) (fun s op => succeeds cfg s op = true)
        (submitJobWith fault cfg s jobId job specs reuseActive now).1 ops →
      (runs (step cfg) (submitJobWith fault cfg s jobId job specs reuseActive now).1 ops).committed
        = (runs (step cfg) s ops).committed) ↔
    RaisesBeforeInsert fault cfg s jobId job specs reuseActive := by
  obtain ⟨hearly, hlate⟩ := submitJobWith_raised h
  constructor
  · intro hsame
    by_contra hn
    obtain ⟨hfresh, hjob⟩ := hlate hn
    generalize (submitJobWith fault cfg s jobId job specs reuseActive now).1 = s' at hsame hjob
    -- a requeue before every expiry commits what each connection holds
    obtain ⟨t, ht⟩ := exists_before_expiry (s.working.workUnits ++ s'.working.workUnits)
    have hleft : (requeueExpired cfg s t).1 = ⟨s.working, s.working⟩ :=
      requeueExpired_none fun w hw => ht t le_rfl w (mem_append_left _ hw)
    have hright : (requeueExpired cfg s' t).1 = ⟨s'.working, s'.working⟩ :=
      requeueExpired_none fun w hw => ht t le_rfl w (mem_append_right _ hw)
    have heq := hsame [.requeueExpired t] ⟨rfl, trivial⟩
    simp only [runs, foldl_cons, foldl_nil, step, hleft, hright] at heq
    rw [heq, hfresh] at hjob
    cases hjob
  · intro hb ops _
    rw [hearly hb]

end

def batchJob : JobSubmit := ⟨.embed, "model", "payload", [], 0⟩

/-- The INSERT itself fails: the call leaves no trace. -/
theorem submit_atomic_iff_insert :
    (submitJobWith (.write 0) defaultConfig {} "job-1" batchJob [] false 0).2 = .error .fault ∧
      ∀ ops, Admitted (step defaultConfig) (fun s op => succeeds defaultConfig s op = true)
          (submitJobWith (.write 0) defaultConfig {} "job-1" batchJob [] false 0).1 ops →
        (runs (step defaultConfig)
          (submitJobWith (.write 0) defaultConfig {} "job-1" batchJob [] false 0).1 ops).committed
          = (runs (step defaultConfig) {} ops).committed := by
  have hraise : (submitJobWith (.write 0) defaultConfig {} "job-1" batchJob [] false 0).2
      = .error .fault := rfl
  exact ⟨hraise, (submit_atomic_iff hraise).mpr (.inr (.inr (.inl rfl)))⟩

/-- Distinct units. -/
def manyUnits (n : ℕ) : List WorkUnitSpec :=
  (List.range n).map fun i => ⟨String.ofList (List.replicate i 'u'), i, "input", none⟩

theorem uniqueUnits_of_nodup : ∀ (us acc : List WorkUnitSpec),
    ((acc ++ us).map (·.workUnitId)).Nodup → uniqueUnits acc us = acc ++ us
  | [], acc, _ => by simp [uniqueUnits]
  | u :: us, acc, h => by
    have hu : u.workUnitId ∉ acc.map (·.workUnitId) := by
      rw [map_append, map_cons, nodup_append] at h
      exact fun hm => h.2.2 _ hm _ mem_cons_self rfl
    rw [uniqueUnits, if_neg hu, uniqueUnits_of_nodup us (acc ++ [u]) (by simpa using h)]
    simp

theorem uniqueUnits_manyUnits : uniqueUnits [] (manyUnits n) = manyUnits n := by
  refine uniqueUnits_of_nodup (manyUnits n) [] ?_
  rw [nil_append, manyUnits, map_map]
  refine List.Nodup.map ?_ nodup_range
  intro i j hij
  have hlen := congrArg String.length hij
  simpa using hlen

/-- With more units than SQLite binds variables the call raises after its INSERT. -/
theorem submitJob_refused (hn : cfg.maxVariables < n) :
    submitJob cfg {} "job-1" batchJob (manyUnits n) false 0 =
      ({ working := { jobs := [submittedJob "job-1" batchJob 0] } },
        .error (.sql .tooManyVariables)) := by
  have hlen : ((manyUnits n).map (·.workUnitId)).length = n := by simp [manyUnits]
  have hids : (manyUnits n).map (·.workUnitId) ≠ [] := by
    intro hnil
    rw [hnil] at hlen
    exact Nat.not_lt_zero _ (hlen ▸ hn)
  have hins : Sql.insertJob (submittedJob "job-1" batchJob 0) ({} : Store).working =
      .ok { jobs := [submittedJob "job-1" batchJob 0] } := rfl
  simp only [submitJob, uniqueUnits_manyUnits, Bool.false_eq_true, if_false, hins,
    succeededUnitResults, if_neg hids, hlen, if_pos hn]

theorem requeueExpired_empty (hs : s.working.workUnits = []) :
    step cfg s (.requeueExpired 0) = ⟨s.working, s.working⟩ :=
  requeueExpired_none (by simp [hs])

/-- SQLite refuses the IN list, the call raises, and the next requeue commits the job row. -/
theorem failed_submit_committed_later :
    (submitJob defaultConfig {} "job-1" batchJob (manyUnits 32767) false 0).2
        = .error (.sql .tooManyVariables) ∧ succeeds defaultConfig
        (submitJob defaultConfig {} "job-1" batchJob (manyUnits 32767) false 0).1
        (.requeueExpired 0) = true ∧ (step defaultConfig
        (submitJob defaultConfig {} "job-1" batchJob (manyUnits 32767) false 0).1
        (.requeueExpired 0)).committed.jobs = [submittedJob "job-1" batchJob 0] ∧
      (step defaultConfig {} (.requeueExpired 0)).committed.jobs = [] := by
  have hn : defaultConfig.maxVariables < 32767 := by decide
  rw [submitJob_refused hn, requeueExpired_empty rfl, requeueExpired_empty rfl]
  exact ⟨rfl, rfl, rfl, rfl⟩

end Fallow.Queue

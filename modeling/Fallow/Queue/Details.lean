import Fallow.Lib.PyStr
import Fallow.Queue.Roster

/-! Rosters over whole runs, and the details of a job whose outcomes are all in.

    A submission that goes through enrols a new job with its roster; no other call adds to one. The
    details of a done job are read off its row and its members, and neither changes any more:

        done, every outcome in  ─▶  job_details, now = job_details, after any calls -/

namespace Fallow.Queue
open Lib List Prod Table

/-! ### Enrolment -/

/-- Dropping repeated units leaves one of each id. -/
theorem exists_mem_uniqueUnits : ∀ (us acc : List WorkUnitSpec) (u : WorkUnitSpec),
    u ∈ acc ∨ u ∈ us → ∃ v ∈ uniqueUnits acc us, v.workUnitId = u.workUnitId
  | [], _, u, h => ⟨u, h.resolve_right (by simp), rfl⟩
  | x :: us, acc, u, h => by
    rw [uniqueUnits]
    split
    · next hin =>
      rcases h with h | h
      · exact exists_mem_uniqueUnits us acc u (.inl h)
      rcases mem_cons.1 h with rfl | h
      · obtain ⟨v, hv, he⟩ := mem_map.1 hin
        obtain ⟨v', hv', he'⟩ := exists_mem_uniqueUnits us acc v (.inl hv)
        exact ⟨v', hv', he'.trans he⟩
      · exact exists_mem_uniqueUnits us acc u (.inr h)
    · refine exists_mem_uniqueUnits us (acc ++ [x]) u ?_
      rcases h with h | h
      · exact .inl (mem_append_left _ h)
      · rcases mem_cons.1 h with rfl | h
        · exact .inl (mem_append_right _ (mem_singleton.2 rfl))
        · exact .inr h

/-- What a submission fixes of its job row. -/
def JobSubmit.fixed (job : JobSubmit) : WorkerKind × String × String × List (String × String) × ℤ :=
  (job.kind, job.modelId, job.payloadRef, dumpParams job.params, job.priority)

variable {jobId : String}

variable {now : ℤ} {deduped : List (String × String)}

theorem job_submitUnits :
    ∀ (units : List WorkUnitSpec) (db : Db),
      (units.foldl (submitUnit jobId now deduped) db).jobs = db.jobs
  | [], _ => rfl
  | u :: units, db => by rw [foldl_cons, job_submitUnits units, job_submitUnit]

variable {db : Db} {units : List WorkUnitSpec}

theorem job_submitted (hfresh : db.job jobId = none) :
    ∃ r, (submitted jobId job now units db).job jobId = some r ∧ r.fixed = job.fixed := by
  have hrow : (withJob jobId job now db).job jobId = some (submittedJob jobId job now) := by
    rw [withJob, Db.job, get_append]
    rw [Db.job] at hfresh
    rw [hfresh, Option.none_or, if_pos (show (submittedJob jobId job now).jobId = jobId from rfl)]
  refine ⟨_, by rw [submitted, job_recompute, Db.job, job_submitUnits, ← Db.job, hrow]; rfl, ?_⟩
  dsimp only
  split
  · rfl
  · rfl

/-- A submission that went through: the job is new, and so is its roster. -/
inductive Enrolled (s s' : Store) : Op → List Shape → Prop where
  | intro {jobId : String} {job : JobSubmit} {specs : List WorkUnitSpec} {reuse : Bool} {now : ℤ}
      {r : JobRow} (fresh : s.working.job jobId = none) (row : s'.working.job jobId = some r)
      (fixed : r.fixed = job.fixed) :
      Enrolled s s' (.submitJob jobId job specs reuse now)
        ((uniqueUnits [] specs).map (·.shape jobId))

variable {s : Store} {op : Op}

variable {cfg : Config} {s' : Store}

theorem Effect.grown (he : Effect cfg s.working op s'.working) (hwf : Wf s.working) :
    ∃ added, Grown added s.working s'.working ∧ (added = [] ∨ Enrolled s s' op added) := by
  have hnone : Grown [] s.working s'.working →
      ∃ added, Grown added s.working s'.working ∧ (added = [] ∨ Enrolled s s' op added) :=
    fun h => ⟨[], h, .inl rfl⟩
  generalize hdb : s'.working = db' at he hnone ⊢
  cases he with
  | submit fresh _ =>
    obtain ⟨r, hr, hf⟩ := job_submitted fresh
    exact ⟨_, .submitted hwf _ _ _ fresh, .inr (.intro fresh (hdb ▸ hr) hf)⟩
  | @claim agentId modelIds now tie w _ _ =>
    have hclaim : Grown [] s.working (Sql.claimUnit agentId
        (leaseExpiry now w.estDurationS cfg.defaultLeaseS) w.workUnitId s.working) :=
      .of_eq rfl rfl
    exact hnone (hclaim.trans (.recompute _ _))
  | extend | backup _ _ _ _ | bind _ _ | finalize _ => exact hnone (.of_eq rfl rfl)
  | bindAgain => exact hnone (.refl _)
  | complete _ _ _ _ => exact hnone (.finalizeUnit ..)
  | requeueExpired | requeueAgent => exact hnone (.requeue ..)

variable {job : JobSubmit} {id : String}

/-- The job a submission reuses asks for the same, and it still owns one of the units. -/
theorem matchingActiveJob_some (h : matchingActiveJob cfg job units params db = .ok (some id)) :
    ∃ w r, w ∈ db.workUnits ∧ db.job w.jobId = some r ∧ r.jobId = id ∧
      sameSubmission job params r = true := by
  unfold matchingActiveJob at h
  split at h
  · cases h
  split at h
  · cases h
  dsimp only at h
  split at h
  · cases h
  split at h
  · next m _ hsame =>
    cases h
    have hm : m ∈ (Sql.selectActiveJobsForUnits (units.map (·.workUnitId)) db).filter
        (sameSubmission job params) := by rw [hsame]; exact mem_singleton.2 rfl
    obtain ⟨hrow, hs⟩ := mem_filter.1 hm
    obtain ⟨w, hw, hr⟩ := mem_filterMap.1 (mem_dedup.1 hrow)
    exact ⟨w, m, (mem_filter.1 hw).1, hr, rfl, hs⟩
  · cases h

variable {r : JobRow}

theorem fixed_of_sameSubmission
    (h : sameSubmission job (dumpParams job.params) r = true) : r.fixed = job.fixed := by
  obtain ⟨hk, hm, hp, hj, hprio⟩ := of_decide_eq_true h
  rw [JobRow.fixed, JobSubmit.fixed, hk, hm, hp, hj, hprio]

/-- A submission that returns and may reuse names a job of what was asked for, with a roster. -/
theorem submitJob_ok (hwf : Wf s.working) (hne : specs ≠ [])
    (h : submitJob cfg s jobId job specs true now = (s', .ok id)) :
    (∃ r, s'.working.job id = some r ∧ r.fixed = job.fixed) ∧
      ∃ sh ∈ s'.working.shapes, sh.jobId = id := by
  rcases submitJob_cases cfg hwf jobId job specs true now with
    ⟨out, he, hout⟩ | ⟨db', heff, he⟩ | ⟨hr, -⟩
  · obtain ⟨rfl, rfl⟩ := mk.inj (he.symm.trans h)
    obtain ⟨w, r, hw, hr, rfl, hsame⟩ := matchingActiveJob_some (hout id rfl)
    have hid : r.jobId = w.jobId := key_of_get hr
    obtain ⟨m, hm⟩ := Option.isSome_iff_exists.1 (hwf.owner _ w (hwf.workUnit_of_mem hw))
    refine ⟨⟨r, by rw [hid]; exact hr, fixed_of_sameSubmission hsame⟩, m.shape,
      mem_map_of_mem (mem_of_get hm), ?_⟩
    have hkey : m.key = (w.jobId, w.workUnitId) := key_of_get hm
    rw [hid]
    exact (mk.inj hkey).1
  · obtain ⟨rfl, hid⟩ := mk.inj (he.symm.trans h)
    cases hid
    cases heff with
    | submit fresh _ =>
      obtain ⟨r, hr, hf⟩ := job_submitted fresh
      refine ⟨⟨r, hr, hf⟩, ?_⟩
      obtain ⟨spec, hspec⟩ := exists_mem_of_ne_nil _ hne
      obtain ⟨u, hu, -⟩ := exists_mem_uniqueUnits specs [] spec (.inr hspec)
      refine ⟨u.shape jobId, ?_, rfl⟩
      rw [(Grown.submitted hwf job now specs fresh).shapes]
      exact mem_append_right _ (mem_map_of_mem hu)
  · cases hr

/-- INVARIANT: over whole runs, with what the other invariants say of outcomes. -/
structure RosterInv (G : String → String → Prop) (s : Store) : Prop where
  outcomes : OutcomesInv s
  roster : RosterOk G s.working

theorem rosterInv_empty : RosterInv G {} :=
  ⟨outcomesInv_empty, rosterOk_empty⟩

variable {G : String → String → Prop}

theorem RosterInv.mono (h : RosterInv G s) (hG : ∀ u ref, G u ref → G' u ref) : RosterInv G' s :=
  ⟨h.outcomes, h.roster.sourced.mono hG, h.roster.caughtUp⟩

variable {j : String}

/-- Going back to the last commit loses jobs without members. -/
theorem OutcomesInv.job_committed (h : OutcomesInv s)
    (hr : s.committed.job j = some r) : s.working.job j = some r := by
  obtain ⟨extra, -, hsync⟩ := h.synced
  rw [hsync, Db.job, Table.get, List.find?_append]
  rw [Db.job, Table.get] at hr
  rw [hr, Option.some_or]

theorem OutcomesInv.same_tables (h : OutcomesInv s) :
    s.working = { s.committed with jobs := s.working.jobs } := by
  obtain ⟨extra, -, hsync⟩ := h.synced
  rw [hsync]

theorem RosterOk.committed (h : RosterOk G s.working)
    (ho : OutcomesInv s) : RosterOk G s.committed := by
  obtain ⟨hs, hc⟩ := h
  rw [ho.same_tables] at hs hc
  refine ⟨{ hs with }, { hc with tally := fun j r hr => hc.tally j r ?_ }⟩
  exact ho.job_committed hr

theorem RosterInv.step (h : RosterInv G s) (cfg : Config) (hG : ∀ agentId u attempt digest ref now,
      op = .bindResultPayload agentId u attempt digest ref now → G u ref) :
    RosterInv G (step cfg s op) := by
  refine ⟨(h.outcomes.step cfg op).1, ?_⟩
  have hwf := h.outcomes.wf
  exact hwf.step_working cfg op h.roster (fun _ heff => heff.roster hwf.working h.roster hG)
    (h.roster.withJob hwf.working) fun _ => h.roster.committed h.outcomes

/-- FRAME: the same over any call; reopening the file may lose jobs that have no roster. -/
structure Stays (added : List Shape) (db db' : Db) : Prop where
  shapes : db'.shapes = db.shapes ++ added
  fixed : ∀ j r r', db.job j = some r → db'.job j = some r' → r'.fixed = r.fixed

variable {added : List Shape} {db' : Db}

theorem Grown.stays (h : Grown added db db') : Stays added db db' := by
  refine ⟨h.shapes, fun j r r' hr hr' => ?_⟩
  obtain ⟨r'', hr'', hf⟩ := h.jobs j r hr
  obtain rfl : r'' = r' := Option.mem_unique hr'' hr'
  exact hf

theorem Stays.committed (h : OutcomesInv s) : Stays [] s.working s.committed := by
  refine ⟨by rw [h.same_tables, append_nil]; rfl, fun j r r' hr hr' => ?_⟩
  obtain rfl : r = r' := Option.mem_unique hr (h.job_committed hr')
  rfl

theorem step_stays (h : OutcomesInv s) (cfg : Config) (op : Op) :
    ∃ added, Stays added s.working (step cfg s op).working ∧
      (added = [] ∨ Enrolled s (step cfg s op) op added) := by
  rcases step_cases cfg h.wf.working h.wf.committed op with
    he | ⟨db', heff, he⟩ | ⟨jobId, job, specs, now, _, _, _, he⟩ | ⟨_, he⟩
  · rw [he]
    exact ⟨[], (Grown.refl _).stays, .inl rfl⟩
  · have hworking : Effect cfg s.working op (step cfg s op).working := by
      rw [he]
      exact heff
    obtain ⟨added, hg, hadd⟩ := hworking.grown h.wf.working
    exact ⟨added, hg.stays, hadd⟩
  · rw [he]
    exact ⟨[], (Grown.withJob ..).stays, .inl rfl⟩
  · rw [he]
    exact ⟨[], Stays.committed h, .inl rfl⟩

/-! ### One job's roster -/

theorem Wf.job_of_shape (hwf : Wf db) (hsh : sh ∈ db.shapes) : ∃ r, db.job sh.jobId = some r := by
  obtain ⟨m, hm, rfl⟩ := mem_map.1 hsh
  exact Option.isSome_iff_exists.1 (hwf.memberJob m.jobId m.workUnitId
    (Option.isSome_of_eq_some (get_of_mem hwf.memberKeys hm)))

theorem Enrolled.fresh (h : Enrolled s s' op added)
    (hj : (s.working.job j).isSome) : ∀ sh ∈ added, sh.jobId ≠ j := by
  cases h with
  | intro fresh _ _ =>
    rintro sh hsh rfl
    obtain ⟨u, -, rfl⟩ := mem_map.1 hsh
    rw [WorkUnitSpec.shape, fresh] at hj
    cases hj

/-- A job that is there keeps its roster. -/
theorem Stays.roster
    (h : Stays added s.working s'.working) (hadd : added = [] ∨ Enrolled s s' op added)
    (hj : (s.working.job j).isSome) :
    s'.working.shapes.filter (·.jobId = j) = s.working.shapes.filter (·.jobId = j) := by
  have hnone : added.filter (·.jobId = j) = [] := by
    refine filter_eq_nil_iff.2 fun x hx hxj => ?_
    rcases hadd with rfl | hadd
    · cases hx
    · exact hadd.fresh hj x hx (of_decide_eq_true hxj)
  rw [h.shapes, filter_append, hnone, append_nil]

/-- The roster of the job just enrolled is what was submitted. -/
theorem Enrolled.roster (h : Enrolled s s' op added)
    (hs : Stays added s.working s'.working) (hwf : Wf s.working) :
    ∃ jobId job specs reuse now r, op = .submitJob jobId job specs reuse now ∧
      s'.working.job jobId = some r ∧ r.fixed = job.fixed ∧
      (∀ sh ∈ added, ∃ spec ∈ specs, sh = spec.shape jobId) ∧
      s'.working.shapes.filter (·.jobId = jobId) = (uniqueUnits [] specs).map (·.shape jobId) := by
  cases h with
  | @intro jobId job specs reuse now r fresh row fixed =>
    refine ⟨jobId, job, specs, reuse, now, r, rfl, row, fixed, fun sh hsh => ?_, ?_⟩
    · obtain ⟨spec, hspec, rfl⟩ := mem_map.1 hsh
      exact ⟨spec, mem_of_mem_uniqueUnits hspec, rfl⟩
    · have hnone : s.working.shapes.filter (·.jobId = jobId) = [] := by
        refine filter_eq_nil_iff.2 fun x hx hxj => ?_
        obtain ⟨r', hr'⟩ := hwf.job_of_shape hx
        rw [of_decide_eq_true hxj, fresh] at hr'
        cases hr'
      have hall : ((uniqueUnits [] specs).map (·.shape jobId)).filter (·.jobId = jobId)
          = (uniqueUnits [] specs).map (·.shape jobId) := by
        refine filter_eq_self.2 fun x hx => ?_
        obtain ⟨u, -, rfl⟩ := mem_map.1 hx
        exact decide_eq_true rfl
      rw [hs.shapes, filter_append, hnone, hall]
      rfl

/-! ### Members whose outcomes are in -/

/-- Rows of one roster, position by position: the ones of `j` are the same, others may differ. -/
theorem filter_same_shapes : ∀ {ms ms' : List MembershipRow},
    ms'.map (·.shape) = ms.map (·.shape) →
    (∀ m ∈ ms, m.jobId = j → ∀ m' ∈ ms', m'.key = m.key → m' = m) →
    ms'.filter (·.jobId = j) = ms.filter (·.jobId = j)
  | [], [], _, _ => rfl
  | m :: ms, m' :: ms', hsh, hsame => by
    obtain ⟨hhead, htail⟩ := List.cons.inj hsh
    have hrest := filter_same_shapes htail fun x hx hxj x' hx' =>
      hsame x (mem_cons_of_mem _ hx) hxj x' (mem_cons_of_mem _ hx')
    obtain ⟨hjob, hunit, -⟩ := Shape.mk.inj hhead
    by_cases hj : m.jobId = j
    · have hkey : m'.key = m.key := by rw [MembershipRow.key, MembershipRow.key, hjob, hunit]
      have heq : m' = m :=
        hsame m mem_cons_self hj m' mem_cons_self hkey
      rw [heq, filter_cons, filter_cons, hrest]
    · rw [filter_cons_of_neg (by simpa [hjob] using hj),
        filter_cons_of_neg (by simpa using hj), hrest]

/-- FRAME: a job whose outcomes are all in has the same members for good. -/
theorem Stays.members (hg : Stays added db db') (hk : Keeping db db') (hwf : Wf db) (hwf' : Wf db')
    (hin : ∀ m ∈ Sql.jobMembers db j, m.terminalState.isSome) (hnew : ∀ sh ∈ added, sh.jobId ≠ j) :
    Sql.jobMembers db' j = Sql.jobMembers db j := by
  obtain ⟨old, new, hms, hold, hadd⟩ := map_eq_append_iff.1 hg.shapes
  have hnone : new.filter (·.jobId = j) = [] := by
    refine filter_eq_nil_iff.2 fun m hm hmj => ?_
    exact hnew m.shape (hadd ▸ mem_map_of_mem hm) (of_decide_eq_true hmj)
  rw [Sql.jobMembers, hms, filter_append, hnone, append_nil]
  refine filter_same_shapes hold fun m hm hmj m' hm' hkey => ?_
  have hget : db.member m.jobId m.workUnitId = some m := get_of_mem hwf.memberKeys hm
  have hsome := hin m (mem_filter.2 ⟨hm, decide_eq_true hmj⟩)
  have hget' : Table.get MembershipRow.key db'.jobUnitMemberships m'.key = some m' :=
    get_of_mem hwf'.memberKeys (by rw [hms]; exact mem_append_left _ hm')
  rw [hkey] at hget'
  exact Option.mem_unique hget' (hk.outcome _ _ m hget hsome)

/-- A member as the outcome view shows it once its outcome is in. -/
def MembershipRow.outcome (m : MembershipRow) : JobUnitOutcome where
  workUnitId := m.workUnitId
  idx := m.idx
  inputRef := m.inputRef
  state := m.terminalState.getD .done
  resultStatus := m.resultStatus
  resultRef := m.resultRef

theorem mapM_decodeOutcome_in (db : Db) : ∀ ms : List MembershipRow,
    (∀ m ∈ ms, m.terminalState.isSome) →
    (ms.map fun m => (m, Sql.resolvedState db m)).mapM decodeOutcome = .ok (ms.map (·.outcome))
  | [], _ => rfl
  | m :: ms, h => by
    have ih := mapM_decodeOutcome_in db ms fun x hx => h x (mem_cons_of_mem _ hx)
    obtain ⟨st, hst⟩ := Option.isSome_iff_exists.1 (h m mem_cons_self)
    have hm : decodeOutcome (m, Sql.resolvedState db m) = .ok m.outcome := by
      rw [Sql.resolvedState, hst, Option.some_or, decodeOutcome, MembershipRow.outcome, hst]
      rfl
    rw [map_cons, mapM_cons, hm, ih]
    rfl

/-- With every outcome in, the details of a job are its row and its members. -/
theorem jobDetails_in (hr : s.working.job j = some r)
    (hin : ∀ m ∈ Sql.jobMembers s.working j, m.terminalState.isSome) :
    jobDetails s j = .ok (some ⟨r.modelId, r.paramsJson,
      ((Sql.jobMembers s.working j).mergeSort Sql.memberLe).map (·.outcome)⟩) := by
  rw [jobDetails, hr]
  rw [Sql.selectJobUnitOutcomes, mapM_decodeOutcome_in _ _ fun m hm => hin m (mem_mergeSort.1 hm)]
  rfl

theorem isSome_of_mapM_decodeOutcome {l : List (MembershipRow × Option WorkUnitState)}
    (h : l.mapM decodeOutcome = .ok us) : ∀ p ∈ l, p.2.isSome := by
  rintro ⟨m, st⟩ hp
  obtain ⟨unit, -, hunit⟩ := PyStr.exists_of_forall₂ (PyStr.mapM_eq_ok.1 h) _ hp
  cases st with
  | none => cases hunit
  | some st => rfl

theorem map_shape_jobMembers :
    (Sql.jobMembers db j).map (·.shape) = db.shapes.filter (·.jobId = j) := by
  rw [Db.shapes, filter_map]
  rfl

variable {details : JobDetails}

/-- Details that can be read list the members, each with the state it resolves to. -/
theorem jobDetails_eq_ok (h : jobDetails s j = .ok (some details)) :
    ∃ r, s.working.job j = some r ∧ details.modelId = r.modelId ∧ details.params = r.paramsJson ∧
      List.Forall₂ (fun p unit => decodeOutcome p = .ok unit) (Sql.selectJobUnitOutcomes j s.working)
        details.units := by
  rw [jobDetails] at h
  cases hr : s.working.job j with
  | none =>
    rw [hr] at h
    cases h
  | some r =>
    rw [hr] at h
    obtain ⟨units, hl, h⟩ := PyStr.bind_ok h
    cases h
    exact ⟨r, rfl, rfl, rfl, PyStr.mapM_eq_ok.1 hl⟩

theorem decodeOutcome_eq_ok (h : decodeOutcome (m, st) = .ok unit) :
    st = some unit.state ∧ unit.resultStatus = m.resultStatus := by
  cases st with
  | none => cases h
  | some st =>
    cases h
    exact ⟨rfl, rfl⟩

/-- A done job whose details can be read has every outcome in. -/
theorem RosterInv.members_in (h : RosterInv G s)
    (hr : s.working.job j = some r) (hdone : r.state = .done)
    (hdet : jobDetails s j = .ok (some details)) :
    ∀ m ∈ Sql.jobMembers s.working j, m.terminalState.isSome := by
  intro m hm
  obtain ⟨hmem, hmj⟩ := mem_filter.1 hm
  have hmj : m.jobId = j := of_decide_eq_true hmj
  have hget : s.working.member m.jobId m.workUnitId = some m :=
    get_of_mem h.outcomes.wf.working.memberKeys hmem
  have hres : (Sql.resolvedState s.working m).isSome := by
    rw [jobDetails, hr] at hdet
    obtain ⟨us, hl, -⟩ := PyStr.bind_ok hdet
    have hin : (m, Sql.resolvedState s.working m) ∈ Sql.selectJobUnitOutcomes j s.working :=
      mem_map.2 ⟨m, mem_mergeSort.2 hm, rfl⟩
    exact isSome_of_mapM_decodeOutcome hl _ hin
  cases ht : m.terminalState with
  | some st => rfl
  | none =>
    -- then it resolves through a unit row its job owns, which is at rest and so has its outcome in
    rw [Sql.resolvedState, ht, Option.none_or, Option.isSome_map] at hres
    obtain ⟨w, hw⟩ := Option.isSome_iff_exists.1 hres
    obtain ⟨hw, hwj⟩ := Option.filter_eq_some_iff.1 hw
    have hwj : w.jobId = m.jobId := of_decide_eq_true hwj
    have hrest := h.outcomes.ok.quiet m.workUnitId w r hw (by rw [hwj, hmj]; exact hr) hdone
    have hin := h.roster.caughtUp.closed m.workUnitId w m hw hrest (Set.notMem_empty _)
      (by rw [hwj]; exact hget)
    rw [ht] at hin
    cases hin

/-- The details of a done job are final. -/
theorem RosterInv.details_final (h : RosterInv G s)
    (cfg : Config) (op : Op) (hr : s.working.job j = some r) (hdone : r.state = .done)
    (hdet : jobDetails s j = .ok (some details)) :
    (∃ r', (Queue.step cfg s op).working.job j = some r' ∧ r'.state = .done) ∧
      jobDetails (Queue.step cfg s op) j = .ok (some details) := by
  obtain ⟨hinv, hkeep⟩ := h.outcomes.step cfg op
  obtain ⟨added, hstays, hadd⟩ := step_stays h.outcomes cfg op
  have hin := h.members_in hr hdone hdet
  have hnew : ∀ sh ∈ added, sh.jobId ≠ j := by
    rcases hadd with rfl | hadd
    · nofun
    · exact hadd.fresh (Option.isSome_of_eq_some hr)
  have hmem := hstays.members hkeep h.outcomes.wf.working hinv.wf.working hin hnew
  obtain ⟨r', hr', hdone'⟩ := hkeep.done j r hr hdone
  refine ⟨⟨r', hr', hdone'⟩, ?_⟩
  obtain ⟨-, hmodel, -, hparams, -⟩ : r'.kind = r.kind ∧ r'.modelId = r.modelId ∧
      r'.payloadRef = r.payloadRef ∧ r'.paramsJson = r.paramsJson ∧ r'.priority = r.priority := by
    simpa only [JobRow.fixed, mk.injEq] using hstays.fixed j r r' hr hr'
  rw [← hdet, jobDetails_in hr hin, jobDetails_in hr' (by rw [hmem]; exact hin), hmem, hmodel,
    hparams]

/-! ### Finalizations -/

theorem finals_submitUnits :
    ∀ {units : List WorkUnitSpec} {db : Db}, SubmitLoop jobId units db →
      (units.foldl (submitUnit jobId now deduped) db).jobFinalizations = db.jobFinalizations
  | [], _, _ => rfl
  | u :: units, db, hl => by
    obtain ⟨ms, he⟩ := @submitUnit_eq jobId now deduped db hl.wf u
    rw [foldl_cons, finals_submitUnits hl.next, he]
    split
    · rfl
    · rfl

/-- FRAME: only the call that records one touches the finalizations. -/
theorem Effect.finals (he : Effect cfg db op db')
    (hwf : Wf db) (hop : ∀ j n, op ≠ .markJobFinalized j n) :
    db'.jobFinalizations = db.jobFinalizations := by
  cases he with
  | submit fresh _ => exact finals_submitUnits (submitLoop_start hwf _ _ _ fresh)
  | claim _ _ | extend | backup _ _ _ _ | bind _ _ | bindAgain | complete _ _ _ _ => rfl
  | requeueExpired | requeueAgent =>
    obtain ⟨ms, jobs, he⟩ := requeue_tables
    rw [he]
    rfl
  | finalize _ => exact absurd rfl (hop _ _)

theorem step_finals (h : OutcomesInv s) (hop : ∀ j n, op ≠ .markJobFinalized j n) :
    (step cfg s op).working.jobFinalizations = s.working.jobFinalizations := by
  refine h.wf.step_working cfg op rfl (fun _ heff => heff.finals h.wf.working hop) (fun _ _ _ => rfl)
    fun _ => ?_
  rw [h.same_tables]

end Fallow.Queue

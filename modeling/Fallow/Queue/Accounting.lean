import Fallow.Queue.Invariant

/-! Job accounting: a job's membership rows, its counts and its stored state agree.

    A membership resolves to its recorded outcome, or to the state of the unit row its job still
    owns. A write to a unit or membership row makes the counts of its job stale until that job is
    recounted, so the invariant is stated relative to the set `D` of jobs still to be recounted:

        unit or membership write  ─▶  D grows by the owner
        recomputeJobState j       ─▶  D loses j
        end of the call           ─▶  D = ∅

    Handing a unit row to another job is harmless exactly when the old owner's membership has its
    outcome recorded, which the snapshot does for terminal units only. -/

namespace Fallow.Queue
open Lib List Table

/-- The resolved states of a job's memberships, `none` for a `NULL`. -/
def memberStates (db : Db) (j : String) : List (Option WorkUnitState) :=
  (Sql.jobMembers db j).map (Sql.resolvedState db)

/-- Every membership resolves, and every job outside `D` stores the state its counts call for. -/
structure Accounted (D : Set String) (db : Db) : Prop where
  resolved : ∀ m ∈ db.jobUnitMemberships, (Sql.resolvedState db m).isSome
  stored : ∀ r ∈ db.jobs, r.jobId ∉ D → r.state = nextJobState (Sql.countJobUnits r.jobId db)

variable {db db' : Db} {j : String}

theorem countJobUnits_congr (h : memberStates db' j = memberStates db j) :
    Sql.countJobUnits j db' = Sql.countJobUnits j db := by
  have hunfold : ∀ db, Sql.countJobUnits j db =
      ⟨(memberStates db j).length, (memberStates db j).count (some .pending),
        (memberStates db j).count (some .leased), (memberStates db j).count (some .done),
        (memberStates db j).count (some .dead)⟩ := fun _ => rfl
  rw [hunfold, hunfold, h]

variable {D D' : Set String} {u agentId : String} {w : UnitRow} {cfg : Config} {s : Store} {op : Op}

section
variable (h : Accounted D db) {p : UnitRow → Bool} {f : UnitRow → UnitRow}
include h

/-- A write that leaves the resolved states outside `D'` alone and resolves every membership. -/
theorem Accounted.of_states (hjobs : db'.jobs = db.jobs) (hD : D ⊆ D')
    (hres : ∀ m ∈ db'.jobUnitMemberships, (Sql.resolvedState db' m).isSome)
    (hst : ∀ j, j ∉ D' → memberStates db' j = memberStates db j) : Accounted D' db' := by
  refine ⟨hres, ?_⟩
  intro r hr hnot
  rw [countJobUnits_congr (hst r.jobId hnot)]
  exact h.stored r (hjobs ▸ hr) fun hin => hnot (hD hin)

theorem Accounted.mono (hD : D ⊆ D') :
    Accounted D' db := ⟨h.resolved, fun r hr hnot => h.stored r hr fun hin => hnot (hD hin)⟩

/-! ### Writes to unit rows -/

omit h in
theorem resolvedState_updateUnits
    (hid : ∀ w, (f w).workUnitId = w.workUnitId) (hjob : ∀ w, (f w).jobId = w.jobId)
    (m : MembershipRow) : Sql.resolvedState { db with workUnits := Table.update p f db.workUnits } m
      = m.terminalState.or (((db.workUnit m.workUnitId).filter (·.jobId = m.jobId)).map
          fun w => if p w then (f w).state else w.state) := by
  unfold Sql.resolvedState
  congr 1
  rw [Db.workUnit, get_update (fun r _ => hid r)]
  change Option.map _ (Option.filter _ (Option.map _ (db.workUnit m.workUnitId))) = _
  cases db.workUnit m.workUnitId with
  | none => rfl
  | some w =>
    have hj : (if p w then f w else w).jobId = w.jobId := by
      split
      · exact hjob w
      · rfl
    simp only [Option.map_some, Option.filter_some, hj]
    split
    · simp only [Option.map_some]; split <;> rfl
    · rfl

/-- Updating unit rows of jobs that are to be recounted, or without changing their state. -/
theorem Accounted.updateUnits (hD : D ⊆ D') (hid : ∀ w, (f w).workUnitId = w.workUnitId)
    (hjob : ∀ w, (f w).jobId = w.jobId)
    (hown : ∀ w ∈ db.workUnits, p w → w.jobId ∈ D' ∨ (f w).state = w.state) :
    Accounted D' { db with workUnits := Table.update p f db.workUnits } := by
  refine h.of_states rfl hD ?_ ?_
  · intro m hm
    have := h.resolved m hm
    rw [resolvedState_updateUnits hid hjob]
    simpa [Sql.resolvedState, Option.isSome_or] using this
  · intro j hj
    refine map_congr_left fun m hm => ?_
    have hmj : m.jobId = j := by simpa using (mem_filter.mp hm).2
    rw [resolvedState_updateUnits hid hjob, Sql.resolvedState]
    congr 1
    refine Option.map_congr fun w hw => ?_
    obtain ⟨hw, hwj⟩ := Option.filter_eq_some_iff.mp hw
    have hwj : w.jobId = j := by rw [← hmj]; simpa using hwj
    split
    · rcases hown w (mem_of_get hw) ‹_› with hin | hst
      · exact absurd (hwj ▸ hin) hj
      · exact hst
    · rfl

/-! ### Writes to membership and job rows -/

/-- Updating membership rows in place: outside `D'` the resolved states must not move. -/
theorem Accounted.updateMembers (hD : D ⊆ D')
    {p : MembershipRow → Bool} {f : MembershipRow → MembershipRow}
    (hjob : ∀ m, (f m).jobId = m.jobId)
    (hres : ∀ m ∈ db.jobUnitMemberships, p m → (Sql.resolvedState db (f m)).isSome)
    (hsame : ∀ m ∈ db.jobUnitMemberships, p m → m.jobId ∉ D' →
      Sql.resolvedState db (f m) = Sql.resolvedState db m) :
    Accounted D' { db with jobUnitMemberships := Table.update p f db.jobUnitMemberships } := by
  refine h.of_states rfl hD ?_ ?_
  · intro m hm
    obtain ⟨m', hm', rfl⟩ := mem_update.mp hm
    split
    · exact hres m' hm' ‹_›
    · exact h.resolved m' hm'
  · intro j hj
    have hq : ∀ m, p m → decide ((f m).jobId = j) = decide (m.jobId = j) := fun m _ => by rw [hjob]
    simp only [memberStates, Sql.jobMembers]
    rw [filter_update hq]
    simp only [Table.update, map_map]
    refine map_congr_left fun m hm => ?_
    obtain ⟨hm, hmj⟩ := mem_filter.mp hm
    change Sql.resolvedState db (if p m then f m else m) = Sql.resolvedState db m
    split
    · exact hsame m hm ‹_› (by rwa [of_decide_eq_true hmj])
    · rfl

theorem Accounted.markJobUnitTerminal
    (hj : j ∈ D) (u : String) (terminal : WorkUnitState) (status : Option WorkResultStatus)
    (ref : Option String) : Accounted D (Sql.markJobUnitTerminal j u terminal status ref db) := by
  refine h.updateMembers (Set.Subset.refl D) (fun _ => rfl) (fun _ _ _ => rfl) ?_
  intro m _ hp hnot
  have hmj : m.jobId = j := (of_decide_eq_true hp).1
  exact absurd (hmj ▸ hj) hnot

/-- Recounting a job takes it off the list. -/
theorem Accounted.recompute (hD : D ⊆ insert j D') : Accounted D' (recomputeJobState j db) := by
  refine ⟨h.resolved, ?_⟩
  intro r hr hnot
  obtain ⟨r', hr', rfl⟩ := mem_update.mp hr
  change _ = nextJobState (Sql.countJobUnits _ db)
  by_cases hj : r'.jobId = j
  · rw [if_pos (decide_eq_true hj)]; rw [← hj]
  · rw [if_neg (by simpa using hj)] at hnot ⊢
    exact h.stored r' hr' fun hin => (hD hin).elim hj hnot

end

theorem Accounted.recomputes : ∀ (js : List String) {db : Db}, Accounted {j | j ∈ js} db →
    Accounted ∅ (js.foldl (fun db j => recomputeJobState j db) db)
  | [], _, h => h.mono (by simp)
  | j :: js, _, h => Accounted.recomputes js (h.recompute fun _ hk => mem_cons.mp hk)

/-- A new job row is to be recounted. -/
theorem Accounted.withJob (h : Accounted ∅ db) (jobId : String) (job : JobSubmit)
    (now : ℤ) : Accounted {jobId} (withJob jobId job now db) := by
  refine ⟨h.resolved, forall_mem_concat.2 ⟨fun r hr _ => ?_, fun hnot => ?_⟩⟩
  · exact h.stored r hr (by simp)
  · exact absurd rfl hnot

/-! ### A submitted unit -/

/-- Recording a terminal owner's outcome moves no resolved state. -/
theorem Accounted.snapshot (h : Accounted D db) (hwf : Wf db)
    (u : String) : Accounted D (Sql.snapshotTerminalOwner u db) := by
  rcases snapshot_eq hwf u with ⟨w, hw, _, he⟩ | ⟨_, he⟩
  · have hsame : ∀ m ∈ db.jobUnitMemberships, m.key = (w.jobId, u) →
        Sql.resolvedState db (Sql.recordOutcome (Sql.ownerMembership db w (some w.state)) m)
          = Sql.resolvedState db m := by
      intro m _ hkey
      obtain ⟨hmj, hmu⟩ := Prod.mk.inj hkey
      unfold Sql.recordOutcome
      split
      · rename_i hnone; simp [Sql.resolvedState, Sql.ownerMembership, hnone, hmu, hmj, hw]
      · rfl
    rw [he]
    refine h.updateMembers (Set.Subset.refl D) ?_ ?_ ?_
    · intro m; exact (Prod.mk.inj (recordOutcome_key _ m)).1
    · intro m hm hp; rw [hsame m hm (of_decide_eq_true hp)]; exact h.resolved m hm
    · intro m hm hp _; exact hsame m hm (of_decide_eq_true hp)
  · rw [he]; exact h

/-- Once a terminal unit's owner is recorded, no membership depends on its row. -/
theorem snapshot_terminal (h : Accounted D db) (hwf : Wf db)
    (hset : ∀ w, db.workUnit u = some w → Sql.isTerminal w.state) :
    ∀ m ∈ (Sql.snapshotTerminalOwner u db).jobUnitMemberships, m.workUnitId = u →
      m.terminalState.isSome := by
  -- a membership without an outcome resolves through the row of a unit its job owns
  have hopen : ∀ m ∈ db.jobUnitMemberships, m.workUnitId = u → m.terminalState = none →
      ∃ w, db.workUnit u = some w ∧ w.jobId = m.jobId := by
    intro m hm hu hnone
    have hr := h.resolved m hm
    rw [Sql.resolvedState, hnone, Option.none_or, Option.isSome_map, hu] at hr
    obtain ⟨w, hw⟩ := Option.isSome_iff_exists.mp hr
    obtain ⟨hw, hj⟩ := Option.filter_eq_some_iff.mp hw
    exact ⟨w, hw, of_decide_eq_true hj⟩
  intro m hm hu
  rcases snapshot_eq hwf u with ⟨w, hw, _, he⟩ | ⟨hnt, he⟩
  · rw [he] at hm
    obtain ⟨m', hm', rfl⟩ := mem_update.mp hm
    by_cases hkey : m'.key = (w.jobId, u)
    · rw [if_pos (decide_eq_true hkey)]
      unfold Sql.recordOutcome
      split
      · rfl
      · exact Option.isSome_iff_ne_none.mpr ‹_›
    · rw [if_neg (by simpa using hkey)] at hu ⊢
      by_contra hno
      obtain ⟨w', hw', hj⟩ := hopen m' hm' hu (Option.not_isSome_iff_eq_none.mp hno)
      obtain rfl := Option.mem_unique hw hw'
      exact hkey (Prod.ext hj.symm hu)
  · rw [he] at hm
    by_contra hno
    obtain ⟨w, hw, _⟩ := hopen m hm hu (Option.not_isSome_iff_eq_none.mp hno)
    exact absurd ((hset w hw).symm.trans (hnt w hw)) (by simp)

/-- A unit row on which no membership depends may change hands. -/
theorem Accounted.attach (h : Accounted D db)
    (hjob : m.jobId = row.jobId) (hunit : m.workUnitId = row.workUnitId) (hD : row.jobId ∈ D)
    (hterm : ∀ m ∈ db.jobUnitMemberships, m.workUnitId = row.workUnitId → m.terminalState.isSome) :
    Accounted D (handed row m db) := by
  have hres : Sql.resolvedState (handed row m db) = Sql.resolvedState (Sql.upsertWorkUnit row db) :=
    rfl
  have hold : ∀ m ∈ db.jobUnitMemberships,
      Sql.resolvedState (Sql.upsertWorkUnit row db) m = Sql.resolvedState db m := by
    intro m hm
    unfold Sql.resolvedState
    by_cases hu : m.workUnitId = row.workUnitId
    · obtain ⟨st, hst⟩ := Option.isSome_iff_exists.mp (hterm m hm hu)
      rw [hst, Option.some_or, Option.some_or]
    · rw [workUnit_upsert, if_neg hu]
  refine h.of_states rfl (Set.Subset.refl D) ?_ ?_
  · intro m' hm'
    rw [hres]
    rcases mem_append.mp hm' with hm' | hm'
    · rw [hold m' hm']; exact h.resolved m' hm'
    · rw [mem_singleton.mp hm', Sql.resolvedState, workUnit_upsert, if_pos hunit, Option.isSome_or]
      simp [hjob]
  · intro j hj
    have hne : m.jobId ≠ j := by
      rintro rfl; exact hj (hjob ▸ hD)
    rw [memberStates, jobMembers_handed hne, hres]
    exact map_congr_left fun m hm => hold m (mem_filter.mp hm).1

section
variable {jobId : String} {now : ℤ} {deduped : List (String × String)}

/-- One turn of the submission loop, for a unit whose row is absent or terminal. -/
theorem Accounted.submitUnit (h : Accounted {jobId} db) (hwf : Wf db) {u : WorkUnitSpec}
    (hset : ∀ w, db.workUnit u.workUnitId = some w → Sql.isTerminal w.state) :
    Accounted {jobId} (submitUnit jobId now deduped db u) := by
  have hs := h.snapshot hwf u.workUnitId
  have hterm := snapshot_terminal h hwf hset
  have hr : Accounted {jobId} (resetUnit u.workUnitId (Sql.snapshotTerminalOwner u.workUnitId db)) :=
    { hs with }
  simp only [Queue.submitUnit]
  split
  · exact hs.attach rfl rfl rfl hterm
  · exact hr.attach rfl rfl rfl hterm

/-- The whole loop, over units whose rows are absent or terminal. -/
theorem Accounted.submitUnits (h : Accounted {jobId} db) (hl : SubmitLoop jobId units db)
    (hset : ∀ u ∈ units, ∀ w, db.workUnit u.workUnitId = some w → Sql.isTerminal w.state) :
    Accounted {jobId} (units.foldl (Queue.submitUnit jobId now deduped) db) := by
  induction units generalizing db with
  | nil => exact h
  | cons u us ih =>
    refine ih (h.submitUnit hl.wf (hset u mem_cons_self)) hl.next fun u' hu' w hw => ?_
    rw [workUnit_submitUnit hl.wf (hl.head_ne hu')] at hw
    exact hset u' (mem_cons_of_mem _ hu') w hw

end

/-! ### Requeue and completion -/

/-- One requeue branch: the returned rows name every job it touches. -/
theorem Accounted.requeueTo (h : Accounted D db) (target : WorkUnitState) (sel : UnitRow → Bool)
    (hD : ∀ w ∈ (Sql.requeueTo target sel db).2, w.jobId ∈ D) :
    Accounted D (Sql.requeueTo target sel db).1 :=
  h.updateUnits (Set.Subset.refl D) (fun _ => rfl) (fun _ => rfl)
    fun w hw hp => .inl (hD w (mem_filter.mpr ⟨hw, hp⟩))

theorem Accounted.requeue (h : Accounted ∅ db) (cfg : Config)
    (selector : UnitRow → Bool) (now : ℤ) : Accounted ∅ (requeue cfg selector now db).1 := by
  have hmem : ∀ (rows : List UnitRow) (ts : List UnitTransition) (state : WorkUnitState),
      (∀ t ∈ rows.map (requeueTransition state now), t ∈ ts) →
      ∀ w ∈ rows, w.jobId ∈ (ts.map (·.jobId)).dedup := by
    intro rows ts state hts w hw
    exact mem_dedup.mpr (mem_map.mpr ⟨_, hts _ (mem_map.mpr ⟨w, hw, rfl⟩), rfl⟩)
  refine .recomputes _ (foldlRecOn _ _ (.requeueTo
    (.requeueTo (D := { j | j ∈ _ }) ?_ _ _ ?_) _ _ ?_) fun _ h w hw => ?_)
  · exact h.mono (Set.empty_subset _)
  · exact hmem _ _ .pending fun t ht => mem_mergeSort.mpr (mem_append_left _ ht)
  · exact hmem _ _ .dead fun t ht => mem_mergeSort.mpr (mem_append_right _ ht)
  · refine h.markJobUnitTerminal (hmem _ _ .dead (fun t ht => ?_) w hw) ..
    exact mem_mergeSort.mpr (mem_append_right _ ht)

/-- The row of a unit id is the only one a write by id selects. -/
theorem Wf.eq_of_id (h : Wf db)
    (hw : db.workUnit u = some w) (hmem : w' ∈ db.workUnits) (hid : w'.workUnitId = u) : w' = w := by
  have := h.workUnit_of_mem hmem
  rw [hid, hw] at this
  exact (Option.some.inj this).symm

theorem Accounted.finalizeUnit (h : Accounted ∅ db) (hwf : Wf db)
    (hunit : db.workUnit result.workUnitId = some unit) :
    Accounted ∅ (finalizeUnit agentId now unit result db) := by
  have hins : Accounted ∅ (Sql.insertResult (resultRowParams result agentId now) db) := { h with }
  have hdone : Accounted {unit.jobId} (withResult agentId now result db) := by
    refine hins.updateUnits (Set.empty_subset _) (fun _ => rfl) (fun _ => rfl) fun w hw hp => ?_
    exact .inl (by rw [hwf.eq_of_id hunit hw (of_decide_eq_true hp)]; rfl)
  exact (hdone.markJobUnitTerminal rfl ..).recompute (by simp)

theorem Accounted.claim (h : Accounted ∅ db) (hwf : Wf db)
    (hw : db.workUnit w.workUnitId = some w) :
    Accounted ∅ (recomputeJobState w.jobId (Sql.claimUnit agentId expiry w.workUnitId db)) := by
  have hclaim : Accounted {w.jobId} (Sql.claimUnit agentId expiry w.workUnitId db) := by
    refine h.updateUnits (Set.empty_subset _) (fun _ => rfl) (fun _ => rfl) fun w' hw' hp => ?_
    exact .inl (by rw [hwf.eq_of_id hw hw' (of_decide_eq_true hp).1]; rfl)
  exact hclaim.recompute (by simp)

/-! ### Runs that never take a unit from an active job -/

/-- A submission without `reuse_active` stays within the bound-variable limit and names no unit that
    is pending or leased; any other call is unrestricted. -/
def SubmitsSettled (cfg : Config) (s : Store) : Op → Prop
  | .submitJob _ _ specs false _ =>
    (uniqueUnits [] specs).length ≤ cfg.maxVariables ∧
      ∀ u ∈ specs, ∀ w, s.working.workUnit u.workUnitId = some w → Sql.isTerminal w.state
  | _ => True

/-- The reuse lookup finds no active job exactly when no named unit is pending or leased. -/
theorem settled_of_inactive (hwf : Wf db)
    (h : Sql.selectActiveJobsForUnits ids db = []) (hu : u ∈ ids)
    (hw : db.workUnit u = some w) : Sql.isTerminal w.state := by
  by_contra hno
  have hact : w.state = .pending ∨ w.state = .leased := by
    cases hst : w.state <;> simp [Sql.isTerminal, hst] at hno ⊢
  obtain ⟨j, hj⟩ := Option.isSome_iff_exists.mp (hwf.unitJob u w hw)
  have hmem : j ∈ Sql.selectActiveJobsForUnits ids db := by
    refine mem_dedup.mpr (mem_filterMap.mpr ⟨w, mem_filter.mpr ⟨mem_of_get hw, ?_⟩, hj⟩)
    rw [workUnit_id hw]; exact decide_eq_true ⟨hu, hact⟩
  rw [h] at hmem; exact absurd hmem (by simp)

/-- INVARIANT: every committed effect of a settled call keeps the accounts. -/
theorem Effect.accounted
    (he : Effect cfg s.working op db') (hok : SubmitsSettled cfg s op) (hwf : Wf s.working)
    (h : Accounted ∅ s.working) : Accounted ∅ db' := by
  cases he with
  | @submit jobId job specs reuse now fresh inactive =>
    have hset : ∀ u ∈ uniqueUnits [] specs, ∀ w, s.working.workUnit u.workUnitId = some w →
        Sql.isTerminal w.state := by
      intro u hu w hw
      cases reuse with
      | false => exact hok.2 u (mem_of_mem_uniqueUnits hu) w hw
      | true => exact settled_of_inactive hwf (inactive rfl) (mem_map_of_mem hu) hw
    exact ((h.withJob jobId job now).submitUnits (submitLoop_start hwf job now specs fresh)
      hset).recompute (by simp)
  | claim unit _ => exact h.claim hwf unit
  | extend =>
    exact h.updateUnits (Set.Subset.refl ∅) (fun _ => rfl) (fun _ => rfl) fun _ _ _ => .inr rfl
  | backup _ _ _ _ | bind _ _ | finalize _ => exact { h with }
  | bindAgain => exact h
  | complete row _ _ _ => exact h.finalizeUnit hwf row
  | requeueExpired | requeueAgent => exact h.requeue _ _ _

/-- Nothing is pending commit, and the accounts are in order. -/
structure Ledger (s : Store) : Prop where
  wf : StoreWf s
  synced : s.committed = s.working
  accounted : Accounted ∅ s.working

theorem ledger_empty : Ledger {} := by
  refine ⟨⟨wf_empty, wf_empty⟩, rfl, ?_, ?_⟩
  · intro m hm; exact absurd hm (by simp)
  · intro r hr; exact absurd hr (by simp)

/-- INVARIANT: a settled call keeps the ledger. -/
theorem Ledger.step (h : Ledger s) (hok : SubmitsSettled cfg s op) : Ledger (step cfg s op) := by
  have hwf := h.wf.step cfg op
  rcases step_cases cfg h.wf.working h.wf.committed op with
    he | ⟨db', heff, he⟩ | ⟨jobId, job, specs, now, rfl, hlen, _, _⟩ | ⟨_, he⟩
  · rw [he]; exact h
  · rw [he] at hwf ⊢
    exact ⟨hwf, rfl, heff.accounted hok h.wf.working h.accounted⟩
  · exact absurd hok.1 (Nat.not_le.mpr hlen)
  · rw [he, h.synced] at hwf ⊢; exact ⟨hwf, rfl, h.accounted⟩

/-! ### What the ledger says of one job -/

/-- The four counts add up when no state is `NULL`. -/
theorem count_states : ∀ l : List (Option WorkUnitState), (∀ x ∈ l, x.isSome) →
    l.count (some .pending) + l.count (some .leased) + l.count (some .done) + l.count (some .dead)
      = l.length
  | [], _ => rfl
  | none :: _, h => absurd (h none mem_cons_self) (by simp)
  | some st :: l, h => by
    have ih := count_states l fun x hx => h x (mem_cons_of_mem _ hx)
    cases st <;> simp <;> omega

/-- Rows with a state decode one by one. -/
theorem mapM_decodeOutcome : ∀ l : List (MembershipRow × Option WorkUnitState),
    (∀ p ∈ l, p.2.isSome) → ∃ us, l.mapM decodeOutcome = .ok us ∧ us.length = l.length
  | [], _ => ⟨[], rfl, rfl⟩
  | (_, none) :: _, h => absurd (h _ mem_cons_self) (by simp)
  | (m, some st) :: l, h => by
    obtain ⟨us, hus, hlen⟩ := mapM_decodeOutcome l fun p hp => h p (mem_cons_of_mem _ hp)
    exact ⟨_ :: us, by rw [mapM_cons, hus]; rfl, by simp [hlen]⟩

/-- Done means that nothing is pending or leased; a `NULL` is neither. -/
theorem nextJobState_eq_done (l : List (Option WorkUnitState)) :
    nextJobState ⟨l.length, l.count (some .pending), l.count (some .leased), l.count (some .done),
      l.count (some .dead)⟩ = .done ↔ some .pending ∉ l ∧ some .leased ∉ l := by
  rw [← count_eq_zero, ← count_eq_zero]
  have hp := count_le_length (a := some .pending) (l := l)
  have hl := count_le_length (a := some .leased) (l := l)
  unfold nextJobState
  split
  · rename_i hc
    refine ⟨fun _ => ?_, fun _ => rfl⟩
    rcases hc with hc | hc
    · rw [show l.length = 0 from hc] at hp hl; omega
    · exact hc
  · rename_i hc
    split
    · exact ⟨fun he => absurd he (by simp), fun he => absurd (.inr he) hc⟩
    · exact ⟨fun he => absurd he (by simp), fun he => absurd (.inr he) hc⟩

theorem nextJobState_done (l : List (Option WorkUnitState)) (h : ∀ x ∈ l, x.isSome) :
    nextJobState ⟨l.length, l.count (some .pending), l.count (some .leased), l.count (some .done),
      l.count (some .dead)⟩ = .done ↔ ∀ x ∈ l, x = some .done ∨ x = some .dead := by
  rw [nextJobState_eq_done]
  constructor
  · rintro ⟨hp, hl⟩ x hx
    obtain ⟨st, rfl⟩ := Option.isSome_iff_exists.mp (h x hx)
    cases st with
    | pending => exact absurd hx hp
    | leased => exact absurd hx hl
    | done => exact .inl rfl
    | dead => exact .inr rfl
  · intro hall
    exact ⟨fun hp => absurd (hall _ hp) (by simp), fun hl => absurd (hall _ hl) (by simp)⟩

/-- The accounts of one job as its readers see them. -/
structure JobAccounted (s : Store) (j : String) : Prop where
  /-- every membership resolves -/
  resolved : ∀ m ∈ Sql.jobMembers s.working j, ∃ st, Sql.resolvedState s.working m = some st
  /-- the four counts add up -/
  total : (Sql.countJobUnits j s.working).pending + (Sql.countJobUnits j s.working).leased
    + (Sql.countJobUnits j s.working).done + (Sql.countJobUnits j s.working).dead
      = (Sql.countJobUnits j s.working).total
  /-- `job_details` decodes every unit -/
  details : ∀ row, s.working.job j = some row → ∃ d, jobDetails s j = .ok (some d) ∧
    d.units.length = (Sql.countJobUnits j s.working).total
  /-- the stored state is the one the counts call for -/
  stored : ∀ row, s.working.job j = some row →
    row.state = nextJobState (Sql.countJobUnits j s.working)
  /-- done means all units done or dead -/
  done_iff : ∀ row, s.working.job j = some row → (row.state = .done ↔
    ∀ m ∈ Sql.jobMembers s.working j, Sql.resolvedState s.working m = some .done ∨
      Sql.resolvedState s.working m = some .dead)

theorem Ledger.job (h : Ledger s) (j : String) : JobAccounted s j := by
  have hres : ∀ m ∈ Sql.jobMembers s.working j, (Sql.resolvedState s.working m).isSome :=
    fun m hm => h.accounted.resolved m (mem_filter.mp hm).1
  have hall : ∀ x ∈ memberStates s.working j, x.isSome := by
    intro x hx
    obtain ⟨m, hm, rfl⟩ := mem_map.mp hx
    exact hres m hm
  have hstored : ∀ row, s.working.job j = some row →
      row.state = nextJobState (Sql.countJobUnits j s.working) := by
    intro row hrow
    have := h.accounted.stored row (mem_of_get hrow) (by simp)
    rwa [show row.jobId = j from key_of_get hrow] at this
  refine ⟨fun m hm => Option.isSome_iff_exists.mp (hres m hm), count_states _ hall, ?_, hstored, ?_⟩
  · intro row hrow
    have hdec : ∀ p ∈ Sql.selectJobUnitOutcomes j s.working, p.2.isSome := by
      intro p hp
      obtain ⟨m, hm, rfl⟩ := mem_map.mp hp
      exact hres m (mem_mergeSort.mp hm)
    obtain ⟨us, hus, hlen⟩ := mapM_decodeOutcome _ hdec
    refine ⟨⟨row.modelId, row.paramsJson, us⟩, ?_, ?_⟩
    · rw [jobDetails, hrow]; dsimp only; rw [hus]; rfl
    · rw [hlen]
      simp [Sql.selectJobUnitOutcomes, Sql.countJobUnits, length_mergeSort]
  · intro row hrow
    rw [hstored row hrow]
    refine (nextJobState_done (memberStates s.working j) hall).trans ?_
    simp [memberStates]

/-- CORRECT: while no submission takes a unit from an active job, every job's accounts are in order
    in every state reached. -/
theorem job_accounting {cfg : Config} {s : Store} (j : String)
    (h : Reach (step cfg) (SubmitsSettled cfg) {} s) : JobAccounted s j :=
  (h.invariant Ledger ledger_empty fun _ _ => .step).job j

/-! ### A unit taken from an active job -/

def sharedUnit : WorkUnitSpec := ⟨"unit", 0, "input", none⟩

def embedJob : JobSubmit := ⟨.embed, "model", "payload", [], 0⟩

/-- Two plain submissions of the same unit, nothing in between. -/
def twiceSubmitted : Store :=
  runs (step defaultConfig) {} [.submitJob "job-1" embedJob [sharedUnit] false 0,
    .submitJob "job-2" embedJob [sharedUnit] false 1]

/-- The second submission takes the pending unit: the first job has one membership that resolves to
    nothing, none of its counts moves, its stored state is not the one they call for, and reading
    its details raises. -/
theorem resubmitted_unit_unaccounted :
    Sql.countJobUnits "job-1" twiceSubmitted.working = ⟨1, 0, 0, 0, 0⟩ ∧
    (twiceSubmitted.working.job "job-1").map (·.state) = some .pending ∧
    nextJobState (Sql.countJobUnits "job-1" twiceSubmitted.working) = .done ∧
    jobDetails twiceSubmitted "job-1" = .error "'None' is not a valid WorkUnitState" ∧
    ¬ JobAccounted twiceSubmitted "job-1" := by
  have hcount : Sql.countJobUnits "job-1" twiceSubmitted.working = ⟨1, 0, 0, 0, 0⟩ := by decide
  refine ⟨hcount, by decide, by decide, ?_, ?_⟩
  · have hm : Sql.jobMembers twiceSubmitted.working "job-1"
        = [submittedMembership "job-1" none sharedUnit] := by decide
    have hj : twiceSubmitted.working.job "job-1" = some (submittedJob "job-1" embedJob 0) := rfl
    rw [jobDetails, hj]
    rw [Sql.selectJobUnitOutcomes, hm, mergeSort_singleton]
    rfl
  · intro h
    have := h.total
    exact absurd this (by decide)

/-- A job submitted to the empty store and leased from: its accounts are in order. -/
theorem job_accounting_leased : JobAccounted (step defaultConfig (step defaultConfig {}
      (.submitJob "job-1" embedJob [sharedUnit] false 0)) (.leaseNext "agent" ["model"] 1 0))
      "job-1" :=
  job_accounting "job-1" (.next (.next .start ⟨by decide, by decide⟩) trivial)

end Fallow.Queue

import Fallow.Lib.Tally
import Fallow.Queue.UnitMoves

/-! Lease exclusivity and the retry budget.

    INVARIANT: a pending unit has attempts left, a leased one has spent at least one, a dead one has
    spent them all. Leasing takes a pending unit and counts one more attempt, so between two
    submissions of a unit the attempts handed out rise, and stay within the budget:

        1 ≤ first attempt < second attempt < … ≤ max_attempts < max_attempts + 1 = backup attempt

    Bindings are keyed by unit and attempt and only a submission removes them, so between two
    submissions an attempt is bound by one agent at most. -/

namespace Fallow.Queue
open Lib List Option

/-! ### The invariant -/

/-- INVARIANT: attempts and state of a unit row agree with the budget. -/
structure RowOk (cfg : Config) (w : UnitRow) : Prop where
  budget : w.attempts ≤ cfg.maxAttempts
  left : w.state = .pending → w.attempts < cfg.maxAttempts
  held : w.state = .leased → w.leaseAgent.isSome ∧ 1 ≤ w.attempts
  spent : w.state = .dead → w.attempts = cfg.maxAttempts

/-- INVARIANT: one binding per unit and attempt, one backup per unit, at its own attempt. -/
structure LanesOk (cfg : Config) (db : Db) : Prop where
  bindingKeys : Table.Keyed BindingRow.key db.resultPayloadBindings
  backupKeys : Table.Keyed BackupRow.workUnitId db.backupLeases
  backupAttempt : ∀ b ∈ db.backupLeases, b.attempt = cfg.maxAttempts + 1

theorem rowOk_submitted : RowOk cfg (submittedUnit jobId now isDone u) := by
  have hpos := cfg.maxAttempts_pos
  refine ⟨Nat.zero_le _, fun _ => hpos, fun h => ?_, fun h => ?_⟩
  · cases isDone <;> cases h
  · cases isDone <;> cases h

variable {cfg : Config} {op : Op}

variable {u : String}

/-- Every edge keeps the row within the budget. -/
theorem UnitMove.rowOk (h : UnitMove cfg u op w₀ w₁) (hok : ∀ w, w₀ = some w → RowOk cfg w) :
    ∀ w, w₁ = some w → RowOk cfg w := by
  cases h with
  | same => exact hok
  | reset named id =>
    rintro w ⟨⟩
    exact rowOk_submitted
  | claimed pending =>
    rintro w ⟨⟩
    have hleft := (hok _ rfl).left pending
    exact ⟨hleft, nofun, fun _ => ⟨rfl, Nat.succ_pos _⟩, nofun⟩
  | extended leased =>
    rintro w ⟨⟩
    have h := hok _ rfl
    exact { h with }
  | finished active =>
    rintro w ⟨⟩
    exact ⟨(hok _ rfl).budget, nofun, nofun, nofun⟩
  | requeued leased left =>
    rintro w ⟨⟩
    exact ⟨(hok _ rfl).budget, fun _ => left, nofun, nofun⟩
  | killed leased spent =>
    rintro w ⟨⟩
    have h := hok _ rfl
    exact ⟨h.budget, nofun, nofun, fun _ => Nat.le_antisymm h.budget spent⟩

/-! ### Bindings and backups -/

/-- The call is a submission that names the unit. -/
def Op.names (u : String) : Op → Prop
  | .submitJob _ _ specs _ _ => u ∈ specs.map (·.workUnitId)
  | _ => False

/-- FRAME: the bindings of the unit, its backup lease and its result are still there. -/
structure Kept (u : String) (db db' : Db) : Prop where
  bindings : ∀ b ∈ db.resultPayloadBindings, b.workUnitId = u → b ∈ db'.resultPayloadBindings
  backups : ∀ b ∈ db.backupLeases, b.workUnitId = u → b ∈ db'.backupLeases
  result : ∀ r, db.result u = some r → db'.result u = some r

section
variable {jobId : String} {now : ℤ} {deduped : List (String × String)} {db : Db}

theorem kept_submitUnit (hwf : Wf db) (hne : u ≠ v.workUnitId) :
    Kept u db (submitUnit jobId now deduped db v) := by
  refine ⟨fun b hb hu => (bindings_submitUnit hwf).2 b hb (hu ▸ hne), fun b hb hu => ?_,
    fun r hr => ?_⟩
  · rw [backups_submitUnit hwf]
    split
    · exact hb
    · exact mem_filter.2 ⟨hb, decide_eq_true (hu ▸ hne)⟩
  · rw [result_submitUnit hwf, if_pos (.inr hne), hr]

/-- The submission loop adds no binding and no backup, and takes from named units only. -/
theorem lanes_submitUnits (hl : SubmitLoop jobId units db) :
    List.Sublist (units.foldl (submitUnit jobId now deduped) db).resultPayloadBindings
        db.resultPayloadBindings ∧
      List.Sublist (units.foldl (submitUnit jobId now deduped) db).backupLeases db.backupLeases ∧
      ∀ u ∉ units.map (·.workUnitId), Kept u db (units.foldl (submitUnit jobId now deduped) db) := by
  induction units generalizing db with
  | nil =>
    exact ⟨.refl _, .refl _, fun _ _ => ⟨fun _ hb _ => hb, fun _ hb _ => hb, fun _ hr => hr⟩⟩
  | cons v us ih =>
    have hnext : SubmitLoop jobId us (submitUnit jobId now deduped db v) := hl.next
    obtain ⟨hb, hl', hkeep⟩ := ih hnext
    refine ⟨hb.trans (bindings_submitUnit hl.wf).1, hl'.trans ?_, fun u hnot => ?_⟩
    · rw [backups_submitUnit hl.wf]
      split
      · exact .refl _
      · exact filter_sublist
    · rw [map_cons, mem_cons, not_or] at hnot
      have hone : Kept u db (submitUnit jobId now deduped db v) := kept_submitUnit hl.wf hnot.1
      have hrest := hkeep u hnot.2
      exact ⟨fun b hb hu => hrest.bindings b (hone.bindings b hb hu) hu,
        fun b hb hu => hrest.backups b (hone.backups b hb hu) hu,
        fun r hr => hrest.result r (hone.result r hr)⟩

end

variable {db db' : Db}

theorem LanesOk.of_sublist (h : LanesOk cfg db)
    (hb : List.Sublist db'.resultPayloadBindings db.resultPayloadBindings)
    (hl : List.Sublist db'.backupLeases db.backupLeases) : LanesOk cfg db' where
  bindingKeys := h.bindingKeys.sublist (hb.map _)
  backupKeys := h.backupKeys.sublist (hl.map _)
  backupAttempt b hm := h.backupAttempt b (hl.subset hm)

/-- INVARIANT: every committed effect keeps the two lanes apart. -/
theorem Effect.lanes (he : Effect cfg db op db') (hwf : Wf db)
    (h : LanesOk cfg db) : LanesOk cfg db' := by
  cases he with
  | @submit jobId job specs reuse now fresh _ =>
    obtain ⟨hb, hl, -⟩ := lanes_submitUnits (submitLoop_start hwf job now specs fresh)
    exact h.of_sublist hb hl
  | claim _ _ | extend | complete _ _ _ _ | finalize _ => exact { h with }
  | @backup agentId u now w _ _ _ fresh =>
    exact { h with
      backupKeys := Table.keyed_append h.backupKeys fresh
      backupAttempt := forall_mem_concat.2 ⟨h.backupAttempt, rfl⟩ }
  | bind _ fresh => exact { h with bindingKeys := Table.keyed_append h.bindingKeys fresh }
  | bindAgain => exact h
  | requeueExpired | requeueAgent =>
    obtain ⟨ms, jobs, he⟩ := requeue_tables
    rw [he]
    exact { h with }

/-- FRAME: what does not name a unit keeps what it has. -/
theorem Effect.kept (he : Effect cfg db op db') (hwf : Wf db) (hn : ¬ op.names u) :
    Kept u db db' := by
  have hall : Kept u db db := ⟨fun _ hb _ => hb, fun _ hb _ => hb, fun _ hr => hr⟩
  cases he with
  | @submit jobId job specs reuse now fresh _ =>
    have hnot : u ∉ (uniqueUnits [] specs).map (·.workUnitId) := by
      intro hmem
      obtain ⟨spec, hs, hid⟩ := mem_map.1 hmem
      exact hn (mem_map.2 ⟨spec, mem_of_mem_uniqueUnits hs, hid⟩)
    exact { (lanes_submitUnits (submitLoop_start hwf job now specs fresh)).2.2 u hnot with }
  | claim _ _ | extend | bindAgain | finalize _ => exact { hall with }
  | backup _ _ _ _ => exact { hall with backups := fun _ hb _ => mem_append_left _ hb }
  | bind _ _ => exact { hall with bindings := fun _ hb _ => mem_append_left _ hb }
  | complete _ fresh _ _ =>
    refine { hall with result := fun r hr => ?_ }
    rw [result_finalizeUnit fresh, if_neg, hr]
    rintro rfl
    rw [fresh] at hr
    cases hr
  | requeueExpired | requeueAgent =>
    obtain ⟨ms, jobs, he⟩ := requeue_tables
    rw [he]
    exact { hall with }

/-! ### Every reachable state -/

structure LeaseInv (cfg : Config) (s : Store) : Prop where
  base : ResultsInv s
  rows : ∀ u w, s.working.workUnit u = some w → RowOk cfg w
  lanes : LanesOk cfg s.working

theorem leaseInv_empty : LeaseInv cfg {} where
  base := resultsInv_empty
  rows u w h := by simp [Db.workUnit, Table.get] at h
  lanes := ⟨nodup_nil, nodup_nil, by simp⟩

variable {s : Store}

/-- INVARIANT: every call keeps budget and lanes. -/
theorem LeaseInv.step (h : LeaseInv cfg s) (op : Op) : LeaseInv cfg (step cfg s op) where
  base := (h.base.step cfg op).1
  rows u := (step_unit h.base).rowOk (h.rows u)
  lanes := by
    obtain ⟨db', heff, he⟩ | ⟨jobs, he⟩ := step_working cfg h.base op
    · rw [he]
      exact heff.lanes h.base.wf.working h.lanes
    · rw [he]
      exact { h.lanes with }

theorem LeaseInv.runs (h : LeaseInv cfg s) (ops : List Op) :
    LeaseInv cfg (Lib.runs (Queue.step cfg) s ops) :=
  runs_invariant (LeaseInv cfg) (fun _ op h => h.step op) ops s h

/-- INVARIANT: after any calls the rows belong together and no unit is past its budget. -/
theorem tables_sound (cfg : Config) (ops : List Op) : LeaseInv cfg (runs (step cfg) {} ops) :=
  leaseInv_empty.runs ops

/-! ### Leases between two submissions of a unit -/

/-- The lease a call returns from `lease_next`. -/
def leaseOf (cfg : Config) (s : Store) : Op → Option WorkUnitLease
  | .leaseNext agentId modelIds now tie => match (leaseNext cfg s agentId modelIds now tie).2 with
    | .ok (some (lease, _)) => some lease
    | _ => none
  | _ => none

/-- The leases of `u` that `lease_next` returns along a run, in order. -/
def leasesOf (cfg : Config) (u : String) : Store → List Op → List WorkUnitLease
  | _, [] => []
  | s, op :: ops =>
    ((leaseOf cfg s op).filter (·.workUnitId = u)).toList ++ leasesOf cfg u (step cfg s op) ops

/-- The call is a submission that goes through and writes the unit's row afresh. -/
def Resets (cfg : Config) (s : Store) (u : String) : Op → Prop
  | .submitJob jobId job specs reuse now => u ∈ specs.map (·.workUnitId) ∧
      s.working.job jobId = none ∧ (submitJob cfg s jobId job specs reuse now).2 = .ok jobId
  | _ => False

/-- `lease_next` returns nothing and leaves the store, or it claims a pending unit. -/
theorem leaseNext_spec (h : Wf s.working) :
    (leaseOf cfg s (.leaseNext agentId modelIds now tie) = none ∧
      (leaseNext cfg s agentId modelIds now tie).1 = s) ∨
    ∃ w lease, leaseOf cfg s (.leaseNext agentId modelIds now tie) = some lease ∧
      lease.workUnitId = w.workUnitId ∧ lease.attempt = w.attempts + 1 ∧
      s.working.workUnit w.workUnitId = some w ∧ w.state = .pending ∧
      (leaseNext cfg s agentId modelIds now tie).1.working
        = recomputeJobState w.jobId (Sql.claimUnit agentId
            (leaseExpiry now w.estDurationS cfg.defaultLeaseS) w.workUnitId s.working) := by
  simp only [leaseOf, leaseNext]
  by_cases hm : modelIds = []
  · simp [hm]
  rw [if_neg hm]
  by_cases hv : cfg.maxVariables < modelIds.length
  · simp [hv]
  rw [if_neg hv]
  cases hc : Sql.selectLeaseCandidate modelIds tie s.working with
  | none => exact .inl ⟨rfl, rfl⟩
  | some p =>
    obtain ⟨w, j⟩ := p
    obtain ⟨hw, hp⟩ := selectLeaseCandidate_spec h hc
    have ha : Sql.claimedAttempts w.workUnitId s.working = some (w.attempts + 1) := by
      simp [Sql.claimedAttempts, hw, hp]
    dsimp only
    rw [ha]
    exact .inr ⟨w, _, rfl, rfl, rfl, hw, hp, rfl⟩

/-- The attempts counted on the unit's row. -/
def attemptsOf (s : Store) (u : String) : Option ℕ := (s.working.workUnit u).map (·.attempts)

/-- No lease of its own and no submission: the count stays. -/
theorem UnitMove.attempts (h : UnitMove cfg u op w₀ w₁) (hn : ¬ op.names u)
    (hl : ∀ agentId modelIds now tie, op ≠ .leaseNext agentId modelIds now tie) :
    w₁.map (·.attempts) = w₀.map (·.attempts) := by
  cases h with
  | same | extended leased | finished active | requeued leased left | killed leased spent => rfl
  | reset named id => exact absurd (mem_map.2 ⟨_, named, id⟩) hn
  | claimed pending => exact absurd rfl (hl _ _ _ _)

/-- A call that resets nothing of `u` names it in vain, or not at all. -/
theorem step_of_not_resets (h : ResultsInv s) (hr : ¬ Resets cfg s u op) :
    (¬ op.names u ∧ ∃ db', Effect cfg s.working op db' ∧ (step cfg s op).working = db') ∨
    ∃ jobs, (step cfg s op).working = { s.working with jobs := jobs } := by
  by_cases hn : op.names u
  · refine .inr ?_
    cases op with
    | submitJob jobId job specs reuse now =>
      rcases submitJob_cases cfg h.wf.working jobId job specs reuse now with
        ⟨out, he, _⟩ | ⟨db', heff, he⟩ | ⟨_, _, _, he⟩
      · exact ⟨s.working.jobs, by rw [step, he]⟩
      · cases heff with
        | submit fresh _ => exact absurd ⟨hn, fresh, by rw [he]⟩ hr
      · exact ⟨_, by rw [step, he]; rfl⟩
    | _ => exact hn.elim
  · exact (step_working cfg h op).imp_left (⟨hn, ·⟩)

/-- A lease of `u` counts one more attempt; every other call leaves the count. -/
theorem attemptsOf_step (h : ResultsInv s) (hr : ¬ Resets cfg s u op) :
    (∃ lease a, leaseOf cfg s op = some lease ∧ lease.workUnitId = u ∧
      (s.working.workUnit u).map (·.state) = some .pending ∧ attemptsOf s u = some a ∧
      lease.attempt = a + 1 ∧ attemptsOf (step cfg s op) u = some (a + 1)) ∨
    ((leaseOf cfg s op).filter (·.workUnitId = u) = none ∧
      attemptsOf (step cfg s op) u = attemptsOf s u) := by
  by_cases hl : ∃ agentId modelIds now tie, op = .leaseNext agentId modelIds now tie
  · obtain ⟨agentId, modelIds, now, tie, rfl⟩ := hl
    obtain ⟨hnone, he⟩ | ⟨w, lease, hlease, hid, ha, hw, hp, he⟩ := leaseNext_spec h.wf.working
    · exact .inr ⟨by rw [hnone]; rfl, by rw [step, he]⟩
    have hunit : (step cfg s (.leaseNext agentId modelIds now tie)).working.workUnit u
        = (s.working.workUnit u).map fun w' =>
            if w'.workUnitId = w.workUnitId ∧ w'.state = .pending then
              { w' with
                state := .leased, attempts := w'.attempts + 1, leaseAgent := some agentId,
                leaseExpires := some (leaseExpiry now w.estDurationS cfg.defaultLeaseS) }
            else w' := by
      rw [step, he]
      change (Sql.claimUnit _ _ _ s.working).workUnit u = _
      rw [Sql.claimUnit, workUnit_update (by intro _; rfl)]
      simp only [decide_eq_true_eq]
    by_cases hu : w.workUnitId = u
    · subst hu
      refine .inl ⟨lease, w.attempts, hlease, hid, by simp [hw, hp], by simp [attemptsOf, hw], ha, ?_⟩
      rw [attemptsOf, hunit, hw]
      simp [hp]
    · refine .inr ⟨by rw [hlease]; simp [hid, hu], ?_⟩
      rw [attemptsOf, hunit, attemptsOf, Option.map_map]
      refine map_congr fun w' hw' => ?_
      have hne : w'.workUnitId ≠ w.workUnitId := by
        rw [workUnit_id hw']
        exact fun hc => hu hc.symm
      simp [hne]
  · have hnone : leaseOf cfg s op = none := by
      cases op with
      | leaseNext agentId modelIds now tie => exact absurd ⟨_, _, _, _, rfl⟩ hl
      | _ => rfl
    refine .inr ⟨by rw [hnone]; rfl, ?_⟩
    obtain ⟨hn, db', heff, he⟩ | ⟨jobs, he⟩ := step_of_not_resets h hr
    · rw [attemptsOf, he]
      exact (heff.unit h.wf.working u).attempts hn fun a m n t hc => hl ⟨a, m, n, t, hc⟩
    · rw [attemptsOf, he]
      rfl

/-- What `lease_next` returns was pending. -/
theorem pending_of_leaseOf (h : ResultsInv s) (hl : leaseOf cfg s op = some lease) :
    (s.working.workUnit lease.workUnitId).map (·.state) = some .pending := by
  cases op with
  | leaseNext agentId modelIds now tie =>
    obtain ⟨hnone, -⟩ | ⟨w, lease', hlease, hid, -, hw, hp, -⟩ := leaseNext_spec h.wf.working
    · rw [hnone] at hl
      cases hl
    · obtain rfl : lease' = lease := mem_unique hlease hl
      rw [hid, hw, map_some, hp]
  | _ => cases hl

/-- While nothing resets `u`, its attempts rise from the count and stay within the budget. -/
theorem leasesOf_rising : ∀ (ops : List Op) {s : Store},
    LeaseInv cfg s → Admitted (step cfg) (fun s op => ¬ Resets cfg s u op) s ops →
    ((leasesOf cfg u s ops).map (·.attempt)).Pairwise (· < ·) ∧
      ∀ a ∈ (leasesOf cfg u s ops).map (·.attempt),
        (attemptsOf s u).getD 0 < a ∧ a ≤ cfg.maxAttempts
  | [], _, _, _ => ⟨List.Pairwise.nil, by simp [leasesOf]⟩
  | op :: ops, s, h, ⟨hr, hops⟩ => by
    obtain ⟨hrise, hrange⟩ := leasesOf_rising ops (h.step op) hops
    obtain ⟨lease, a, hlease, hid, -, ha, hnext, hcount⟩ | ⟨hnone, hcount⟩ :=
      attemptsOf_step h.base hr
    · have hcons : leasesOf cfg u s (op :: ops) = lease :: leasesOf cfg u (step cfg s op) ops := by
        simp only [leasesOf, hlease, filter_some, hid, decide_true, if_true,
          toList_some, singleton_append]
      have hle : a + 1 ≤ cfg.maxAttempts := by
        obtain ⟨w, hw, hwa⟩ := map_eq_some_iff.1 hcount
        exact hwa ▸ ((h.step op).rows u w hw).budget
      rw [hcount, getD_some] at hrange
      rw [hcons, map_cons, hnext, ha, getD_some]
      refine ⟨pairwise_cons.2 ⟨fun b hb => (hrange b hb).1, hrise⟩, fun b hb => ?_⟩
      rcases mem_cons.1 hb with rfl | hb
      · exact ⟨Nat.lt_succ_self a, hle⟩
      · exact ⟨Nat.lt_of_succ_lt (hrange b hb).1, (hrange b hb).2⟩
    · have hsame : leasesOf cfg u s (op :: ops) = leasesOf cfg u (step cfg s op) ops := by
        simp [leasesOf, hnone]
      rw [hsame, ← hcount]
      exact ⟨hrise, hrange⟩

/-- While nothing resets `u`, its bindings stay. -/
theorem binding_kept : ∀ (ops : List Op) {s : Store},
    LeaseInv cfg s → Admitted (step cfg) (fun s op => ¬ Resets cfg s b.workUnitId op) s ops →
    b ∈ s.working.resultPayloadBindings →
    b ∈ (runs (step cfg) s ops).working.resultPayloadBindings
  | [], _, _, _, hb => hb
  | op :: ops, s, h, ⟨hr, hops⟩, hb => by
    refine binding_kept ops (h.step op) hops ?_
    obtain ⟨hn, db', heff, he⟩ | ⟨jobs, he⟩ := step_of_not_resets h.base hr
    · rw [he]
      exact (heff.kept h.base.wf.working hn).bindings b hb rfl
    · rw [he]
      exact hb

/-! ### The whole statement -/

/-- What the tables say of units, backups and the two lanes. -/
structure LeaseOk (cfg : Config) (db : Db) : Prop where
  budget : ∀ w ∈ db.workUnits, w.attempts ≤ cfg.maxAttempts
  held : ∀ w ∈ db.workUnits, w.state = .leased → w.leaseAgent.isSome ∧ 1 ≤ w.attempts
  spent : ∀ w ∈ db.workUnits, w.state = .dead → w.attempts = cfg.maxAttempts
  oneBackup : ∀ b ∈ db.backupLeases, ∀ b' ∈ db.backupLeases, b.workUnitId = b'.workUnitId → b = b'
  /-- a primary holder binds within the budget, a backup holder one past it -/
  lanes : ∀ agentId u attempt,
    (Sql.holdsPrimary db agentId u attempt → attempt ≤ cfg.maxAttempts) ∧
    (Sql.selectBackupLeaseHolder u agentId attempt db → attempt = cfg.maxAttempts + 1)

theorem leaseOk_of (hwf : Wf db)
    (hrows : ∀ u w, db.workUnit u = some w → RowOk cfg w) (hlanes : LanesOk cfg db) :
    LeaseOk cfg db := by
  have hrow : ∀ w ∈ db.workUnits, RowOk cfg w := fun w hw => hrows _ w (hwf.workUnit_of_mem hw)
  refine ⟨fun w hw => (hrow w hw).budget, fun w hw => (hrow w hw).held,
    fun w hw => (hrow w hw).spent, fun b hb b' hb' hid => ?_, fun agentId u attempt => ⟨?_, ?_⟩⟩
  · exact inj_on_of_nodup_map hlanes.backupKeys hb hb' hid
  · intro hp
    cases hw : db.workUnit u with
    | none => simp [Sql.holdsPrimary, hw] at hp
    | some w =>
      have hh : w.state = .leased ∧ w.leaseAgent = some agentId ∧ w.attempts = attempt := by
        simpa [Sql.holdsPrimary, hw] using hp
      exact hh.2.2 ▸ (hrows u w hw).budget
  · intro hb
    obtain ⟨b, hb, hh⟩ := any_eq_true.1 hb
    rw [← (of_decide_eq_true hh).2.2]
    exact hlanes.backupAttempt b hb

theorem LeaseInv.ok (h : LeaseInv cfg s) : LeaseOk cfg s.working ∧ LeaseOk cfg s.committed := by
  obtain ⟨jobs, hsync⟩ := h.base.synced
  have hrows := h.rows
  have hlanes := h.lanes
  refine ⟨leaseOk_of h.base.wf.working hrows hlanes, ?_⟩
  rw [hsync] at hrows hlanes
  exact leaseOk_of h.base.wf.committed hrows { hlanes with }

/-- CORRECT: in every reachable state attempts, leases and backups are within their bounds, and over
    every stretch of a run without a reset of `u` its leases are within the budget, each a new
    attempt of a pending unit, and no attempt is bound by two agents. -/
theorem lease_exclusivity (cfg : Config) (u : String) (before between : List Op)
    (h : Admitted (step cfg) (fun s op => ¬ Resets cfg s u op) (runs (step cfg) {} before) between) :
    LeaseOk cfg (runs (step cfg) {} before).working ∧
    LeaseOk cfg (runs (step cfg) {} before).committed ∧
    (leasesOf cfg u (runs (step cfg) {} before) between).length ≤ cfg.maxAttempts ∧
    ((leasesOf cfg u (runs (step cfg) {} before) between).map (·.attempt)).Nodup ∧
    (∀ ops op rest lease, between = ops ++ op :: rest →
      leaseOf cfg (runs (step cfg) {} (before ++ ops)) op = some lease → lease.workUnitId = u →
      ((runs (step cfg) {} (before ++ ops)).working.workUnit u).map (·.state) = some .pending) ∧
    ∀ ops₁ ops₂, ops₁ <+: between → ops₂ <+: between →
      ∀ b₁ ∈ (runs (step cfg) {} (before ++ ops₁)).working.resultPayloadBindings,
      ∀ b₂ ∈ (runs (step cfg) {} (before ++ ops₂)).working.resultPayloadBindings,
        b₁.workUnitId = u → b₂.workUnitId = u → b₁.attempt = b₂.attempt → b₁.agentId = b₂.agentId := by
  have hinv : LeaseInv cfg (runs (step cfg) {} before) := leaseInv_empty.runs before
  obtain ⟨hrise, hrange⟩ := leasesOf_rising between hinv h
  refine ⟨hinv.ok.1, hinv.ok.2, ?_, hrise.imp Nat.ne_of_lt, ?_, ?_⟩
  · have := length_le_of_rising hrise hrange
    rw [length_map] at this
    omega
  · rintro ops op rest lease - hlease rfl
    exact pending_of_leaseOf (leaseInv_empty.runs (before ++ ops)).base hlease
  · -- the earlier of the two bindings is still there when the later one is
    have hlater : ∀ ops more, ops ++ more <+: between →
        ∀ b ∈ (runs (step cfg) {} (before ++ ops)).working.resultPayloadBindings,
        b.workUnitId = u →
          b ∈ (runs (step cfg) {} (before ++ (ops ++ more))).working.resultPayloadBindings := by
      rintro ops more ⟨rest, rfl⟩ b hb rfl
      rw [admitted_append, admitted_append, ← runs_append] at h
      rw [← append_assoc, runs_append]
      exact binding_kept more (leaseInv_empty.runs _) h.1.2 hb
    intro ops₁ ops₂ h₁ h₂ b₁ hb₁ b₂ hb₂ hu₁ hu₂ ha
    have hsame : ∀ ops, ∀ b ∈ (runs (step cfg) {} (before ++ ops)).working.resultPayloadBindings,
        ∀ b' ∈ (runs (step cfg) {} (before ++ ops)).working.resultPayloadBindings,
        b.key = b'.key → b = b' := fun ops b hb b' hb' hk =>
      inj_on_of_nodup_map (leaseInv_empty.runs (before ++ ops)).lanes.bindingKeys hb hb' hk
    have hkey : b₁.key = b₂.key := by rw [BindingRow.key, BindingRow.key, hu₁, hu₂, ha]
    rcases prefix_or_prefix_of_prefix h₁ h₂ with ⟨more, rfl⟩ | ⟨more, rfl⟩
    · rw [hsame _ b₁ (hlater ops₁ more h₂ b₁ hb₁ hu₁) b₂ hb₂ hkey]
    · rw [hsame _ b₁ hb₁ b₂ (hlater ops₂ more h₁ b₂ hb₂ hu₂) hkey]

/-- One unit: leased, bound, asked for by a second agent, requeued, and leased to it. -/
def handedOver : List Op :=
  [.leaseNext "a" ["model"] 1 0, .bindResultPayload "a" "unit" 1 "digest" "ref" 2,
   .leaseNext "b" ["model"] 3 0, .requeueAgent "a" 4, .leaseNext "b" ["model"] 5 0]

def oneUnit : List Op :=
  [.submitJob "job" ⟨.embed, "model", "payload", [], 0⟩ [⟨"unit", 0, "input", none⟩] false 0]

theorem lease_exclusivity_handedOver :
    Admitted (step defaultConfig) (fun s op => ¬ Resets defaultConfig s "unit" op)
      (runs (step defaultConfig) {} oneUnit) handedOver ∧
    (leasesOf defaultConfig "unit" (runs (step defaultConfig) {} oneUnit) handedOver).length ≤ 4 := by
  have h : Admitted (step defaultConfig) (fun s op => ¬ Resets defaultConfig s "unit" op)
      (runs (step defaultConfig) {} oneUnit) handedOver :=
    ⟨id, id, id, id, id, trivial⟩
  exact ⟨h, (lease_exclusivity defaultConfig "unit" oneUnit handedOver h).2.2.1⟩

/-! ### A completion sent again -/

/-- INVARIANT: the unit has a result, and the call is its completion or that of its backup holder. -/
def Answered (agentId : String) (attempt : ℕ) (result : WorkResult) (db : Db) : Prop :=
  Sql.selectResultExists result.workUnitId db ∧
    (Sql.selectMatchingCompletion (resultRowParams result agentId 0) attempt db ||
      Sql.selectBackupLeaseHolder result.workUnitId agentId attempt db)

section
variable {agentId : String} {attempt : ℕ} {result : WorkResult} {now : ℤ}

/-- A finished unit stays as it is until a submission names it. -/
theorem UnitMove.of_done (h : UnitMove cfg u op w₀ w₁) (hn : ¬ op.names u)
    (hd : ∀ w, w₀ = some w → w.state = .done) : w₁ = w₀ := by
  cases h with
  | same => rfl
  | reset named id => exact absurd (mem_map.2 ⟨_, named, id⟩) hn
  | claimed hs | extended hs | requeued hs _ | killed hs _ => cases hs.symm.trans (hd _ rfl)
  | finished active => rcases active with hs | hs <;> cases hs.symm.trans (hd _ rfl)

theorem Answered.step (h : Answered agentId attempt result s.working) (hinv : ResultsInv s)
    (hr : ¬ Resets cfg s result.workUnitId op) :
    Answered agentId attempt result (step cfg s op).working := by
  obtain ⟨hn, db', heff, he⟩ | ⟨jobs, he⟩ := step_of_not_resets hinv hr
  · rw [he]
    obtain ⟨hsome, hknown⟩ := h
    obtain ⟨r, hr⟩ := isSome_iff_exists.1 hsome
    have hkept := heff.kept hinv.wf.working hn
    have hres := hkept.result r hr
    have hunit : db'.workUnit result.workUnitId = s.working.workUnit result.workUnitId :=
      (heff.unit hinv.wf.working _).of_done hn fun w hw => (hinv.ok.done_iff _ w hw).2 hsome
    refine ⟨isSome_of_eq_some hres, ?_⟩
    rw [Bool.or_eq_true] at hknown ⊢
    refine hknown.imp (fun hm => ?_) fun hb => ?_
    · rw [Sql.selectMatchingCompletion, resultRowParams] at hm ⊢
      rwa [hres, hunit, ← hr]
    · obtain ⟨b, hmem, hp⟩ := any_eq_true.1 hb
      exact any_eq_true.2 ⟨b, hkept.backups b hmem (of_decide_eq_true hp).1, hp⟩
  · rw [he]
    exact h

theorem answered_of_completeUnit (h : (completeUnit s agentId attempt result now).2.1 = true) :
    Answered agentId attempt result (completeUnit s agentId attempt result now).1.working := by
  revert h
  unfold completeUnit
  split
  · exact nofun
  next unit hunit =>
  split
  · next hsome => exact fun h => ⟨hsome, h⟩
  next hnone =>
  dsimp only
  split
  · next hacc =>
    intro _
    have hres : (finalizeUnit agentId now unit result s.working).result result.workUnitId
        = some (resultRowParams result agentId now) :=
      (result_finalizeUnit (not_isSome_iff_eq_none.1 hnone) _).trans (if_pos rfl)
    refine ⟨isSome_of_eq_some hres, ?_⟩
    rw [Bool.or_eq_true]
    refine (Bool.or_eq_true_iff.1 (Bool.and_eq_true_iff.1 hacc).1).imp (fun hp => ?_) fun hb => ?_
    · obtain ⟨-, hagent, hattempt⟩ := of_decide_eq_true hp
      simp [Sql.selectMatchingCompletion, resultRowParams, Store.commit, hres,
        workUnit_finalizeUnit, hunit, hagent, hattempt]
    · rw [← workUnit_id hunit]
      exact (Bool.and_eq_true_iff.1 hb).2
  · exact nofun

end

/-- CORRECT: an accepted completion is accepted again, and changes nothing, as long as no submission
    that goes through names the unit. -/
theorem completion_repeats (cfg : Config) (before between : List Op) (agentId : String) (attempt : ℕ)
    (result : WorkResult) (now now' : ℤ)
    (h : (completeUnit (runs (step cfg) {} before) agentId attempt result now).2.1 = true)
    (hq : Admitted (step cfg) (fun s op => ¬ Resets cfg s result.workUnitId op)
      (runs (step cfg) {} (before ++ [.completeUnit agentId attempt result now])) between) :
    completeUnit (runs (step cfg) {} (before ++ [.completeUnit agentId attempt result now] ++ between))
        agentId attempt result now'
      = (runs (step cfg) {} (before ++ [.completeUnit agentId attempt result now] ++ between),
          true, []) := by
  have hans : Answered agentId attempt result
      (runs (step cfg) {} (before ++ [.completeUnit agentId attempt result now])).working := by
    rw [runs_append]
    exact answered_of_completeUnit h
  rw [runs_append]
  obtain ⟨hinv, hsome, hknown⟩ := (Admitted.reach between .start hq).invariant
    (fun s => ResultsInv s ∧ Answered agentId attempt result s.working)
    ⟨(leaseInv_empty.runs _).base, hans⟩
    fun _ op hs hr => ⟨(hs.1.step cfg op).1, hs.2.step hs.1 hr⟩
  obtain ⟨unit, hunit⟩ := isSome_iff_exists.1 (hinv.ok.unit _ hsome)
  rw [completeUnit, hunit]
  dsimp only
  rw [if_pos hsome]
  exact Prod.ext rfl (Prod.ext hknown rfl)

def unitDone : WorkResult := ⟨"unit", .succeeded, some "ref", none, none⟩

/-- The unit is leased and its payload bound, the result sent. -/
def delivered : List Op := oneUnit ++ handedOver.take 2 ++ [.completeUnit "a" 1 unitDone 3]

theorem completion_repeats_requeue :
    (completeUnit (runs (step defaultConfig) {} (delivered ++ [.requeueExpired 9])) "a" 1 unitDone
      10).2.1 = true :=
  congrArg (·.2.1) (completion_repeats defaultConfig (oneUnit ++ handedOver.take 2)
    [.requeueExpired 9] "a" 1 unitDone 3 10 (by decide +kernel) ⟨id, trivial⟩)

/-- A second job takes over the finished unit, and the lease the call is compared with is gone. -/
theorem completion_refused_after_reuse :
    let reused := runs (step defaultConfig) {} (delivered ++ [.submitJob "next"
      ⟨.embed, "model", "payload", [], 0⟩ [⟨"unit", 0, "input", none⟩] false 4])
    (completeUnit (runs (step defaultConfig) {} (oneUnit ++ handedOver.take 2)) "a" 1 unitDone 3).2.1
        = true ∧
      (reused.working.workUnit "unit").map (·.state) = some .done ∧
      (completeUnit reused "a" 1 unitDone 5).2.1 = false := by
  decide +kernel

end Fallow.Queue

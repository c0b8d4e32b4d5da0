import Fallow.Queue.Results

/-! What one call can do to one unit.

    A unit row, its payload bindings and its backup lease are looked at through the unit's id. Each
    call moves the row along one edge of the diagram, or leaves it; only a submission that names the
    unit takes anything away.

                        submission names it
               ┌──────────────────────────────────┐
               ▼      claim                       │
            pending ─────────▶ leased ── attempts spent ──▶ dead
               ▲ │◀── requeue ──┘ │
        backup │ │                │ completion
    completion │ └───────────────▶▼
               │                 done  -/

namespace Fallow.Queue
open Lib List Option

/-- One call as the unit `u` sees it. -/
inductive UnitMove (cfg : Config) (u : String) : Op → Option UnitRow → Option UnitRow → Prop where
  | same {op : Op} {w : Option UnitRow} : UnitMove cfg u op w w
  | reset {jobId : String} {job : JobSubmit} {specs : List WorkUnitSpec} {reuse : Bool} {now : ℤ}
      {spec : WorkUnitSpec} {isDone : Bool} {w : Option UnitRow} (named : spec ∈ specs)
      (id : spec.workUnitId = u) :
      UnitMove cfg u (.submitJob jobId job specs reuse now) w
        (some (submittedUnit jobId now isDone spec))
  | claimed {agentId : String} {modelIds : List String} {now : ℤ} {tie : ℕ} {w : UnitRow}
      (pending : w.state = .pending) :
      UnitMove cfg u (.leaseNext agentId modelIds now tie) (some w)
        (some { w with
          state := .leased, attempts := w.attempts + 1, leaseAgent := some agentId,
          leaseExpires := some (leaseExpiry now w.estDurationS cfg.defaultLeaseS) })
  | extended {op : Op} {w : UnitRow} {expiry : ℤ} (leased : w.state = .leased) :
      UnitMove cfg u op (some w) (some { w with leaseExpires := some expiry })
  | finished {op : Op} {w : UnitRow} (active : w.state = .leased ∨ w.state = .pending) :
      UnitMove cfg u op (some w) (some { w with state := .done })
  | requeued {op : Op} {w : UnitRow} (leased : w.state = .leased)
      (left : w.attempts < cfg.maxAttempts) :
      UnitMove cfg u op (some w) (some { w with state := .pending })
  | killed {op : Op} {w : UnitRow} (leased : w.state = .leased)
      (spent : cfg.maxAttempts ≤ w.attempts) :
      UnitMove cfg u op (some w) (some { w with state := .dead })

/-! ### Submission -/

section
variable {jobId : String} {now : ℤ} {deduped : List (String × String)}

variable {db : Db}

variable {u : WorkUnitSpec}

theorem workUnit_submitUnit_self (hwf : Wf db) :
    (submitUnit jobId now deduped db u).workUnit u.workUnitId
      = some (submittedUnit jobId now (deduped.lookup u.workUnitId).isSome u) := by
  obtain ⟨ms, he⟩ := submitUnit_eq hwf u
  rw [he]
  exact workUnit_upsert.trans (if_pos rfl)

/-- After the loop a named unit has the row the submission wrote, any other its old one. -/
theorem workUnit_submitUnits (hl : SubmitLoop jobId units db)
    {u : String} : (∃ spec ∈ units, spec.workUnitId = u ∧ ∃ isDone,
      (units.foldl (submitUnit jobId now deduped) db).workUnit u
        = some (submittedUnit jobId now isDone spec)) ∨ (u ∉ units.map (·.workUnitId) ∧
      (units.foldl (submitUnit jobId now deduped) db).workUnit u = db.workUnit u) := by
  induction units generalizing db with
  | nil => exact .inr ⟨by simp, rfl⟩
  | cons v us ih =>
    rw [foldl_cons]
    have hnext : SubmitLoop jobId us (submitUnit jobId now deduped db v) := hl.next
    obtain ⟨spec, hs, hid, isDone, hw⟩ | ⟨hnot, hw⟩ := ih hnext
    · exact .inl ⟨spec, mem_cons_of_mem _ hs, hid, isDone, hw⟩
    by_cases hv : u = v.workUnitId
    · refine .inl ⟨v, mem_cons_self, hv.symm, (deduped.lookup v.workUnitId).isSome, ?_⟩
      rw [hw, hv]
      exact workUnit_submitUnit_self hl.wf
    · refine .inr ⟨?_, hw.trans (workUnit_submitUnit hl.wf hv)⟩
      rw [map_cons, mem_cons, not_or]
      exact ⟨hv, hnot⟩

/-- Rows of a table that a turn of the loop clears for the named unit at most. -/
theorem bindings_submitUnit (hwf : Wf db) :
    List.Sublist (submitUnit jobId now deduped db u).resultPayloadBindings
        db.resultPayloadBindings ∧ ∀ b ∈ db.resultPayloadBindings, b.workUnitId ≠ u.workUnitId →
        b ∈ (submitUnit jobId now deduped db u).resultPayloadBindings := by
  rw [(submitUnit_tables hwf u).2]
  split
  · exact ⟨List.Sublist.refl _, fun b hb _ => hb⟩
  · exact ⟨filter_sublist, fun b hb hne => mem_filter.mpr ⟨hb, by simpa using hne⟩⟩

theorem backups_submitUnit (hwf : Wf db) : (submitUnit jobId now deduped db u).backupLeases
      = if (deduped.lookup u.workUnitId).isSome then db.backupLeases
        else db.backupLeases.filter (·.workUnitId ≠ u.workUnitId) := by
  obtain ⟨ms, he⟩ := submitUnit_eq hwf u
  rw [he]
  by_cases hr : (deduped.lookup u.workUnitId).isSome
  · simp only [if_pos hr]
    rfl
  · simp only [if_neg hr]
    rfl

end

variable {cfg : Config} {db : Db}

variable {now : ℤ} {u : String}

theorem unitMove_submitted (hwf : Wf db) {job : JobSubmit} (hfresh : db.job jobId = none) :
    UnitMove cfg u (.submitJob jobId job specs reuse now) (db.workUnit u)
      ((submitted jobId job now (uniqueUnits [] specs) db).workUnit u) := by
  have hl := submitLoop_start hwf job now specs hfresh
  change UnitMove cfg u _ _ (Db.workUnit (List.foldl _ _ _) u)
  obtain ⟨spec, hs, hid, isDone, hw⟩ | ⟨-, hw⟩ := workUnit_submitUnits hl
  · rw [hw]
    exact .reset (mem_of_mem_uniqueUnits hs) hid
  · rw [hw]
    exact .same

/-! ### The other calls -/

/-- Reading one unit after an update of unit rows. -/
theorem workUnit_update
    (hid : ∀ w, (f w).workUnitId = w.workUnitId) (u : String) :
    Db.workUnit { db with workUnits := Table.update p f db.workUnits } u
      = (db.workUnit u).map fun w => if p w then f w else w := Table.get_update (fun r _ => hid r) u

variable {agentId : String}

theorem unitMove_claim (hw : db.workUnit w.workUnitId = some w) (hp : w.state = .pending) :
    UnitMove cfg u (.leaseNext agentId modelIds now tie) (db.workUnit u)
      ((recomputeJobState w.jobId (Sql.claimUnit agentId
        (leaseExpiry now w.estDurationS cfg.defaultLeaseS) w.workUnitId db)).workUnit u) := by
  change UnitMove cfg u _ _ ((Sql.claimUnit _ _ _ db).workUnit u)
  rw [Sql.claimUnit, workUnit_update (by intro _; rfl)]
  cases hu : db.workUnit u with
  | none => exact .same
  | some w' =>
    rw [map_some]
    split
    · next h =>
      have hid : w'.workUnitId = w.workUnitId := (of_decide_eq_true h).1
      obtain rfl : w' = w := by
        rw [← workUnit_id hu, hid] at hu
        exact mem_unique hu hw
      exact .claimed hp
    · exact .same

variable {op : Op}

theorem unitMove_extend :
    UnitMove cfg u op (db.workUnit u) ((Sql.extendLeases expiry agentId ids db).workUnit u) := by
  rw [Sql.extendLeases, workUnit_update (by intro _; rfl)]
  cases hu : db.workUnit u with
  | none => exact .same
  | some w =>
    rw [map_some]
    split
    · next h => exact .extended (of_decide_eq_true h).1
    · exact .same

/-- A completion is accepted for a leased unit, or for a pending one from its backup. -/
theorem active_of_accepted
    (h : completionAccepted agentId attempt unit || backupRole agentId attempt unit db) :
    unit.state = .leased ∨ unit.state = .pending := by
  rcases Bool.or_eq_true_iff.1 h with h | h
  · exact .inl (of_decide_eq_true h).1
  · exact of_decide_eq_true (Bool.and_eq_true_iff.1 h).1

theorem unitMove_finalize (hrow : db.workUnit result.workUnitId = some unit)
    (hact : unit.state = .leased ∨ unit.state = .pending) :
    UnitMove cfg u op (db.workUnit u) ((finalizeUnit agentId now unit result db).workUnit u) := by
  rw [workUnit_finalizeUnit]
  by_cases hu : u = result.workUnitId
  · subst hu
    simp only [hrow, map_some, if_true]
    exact .finished hact
  · simp only [if_neg hu]
    rw [Option.map_id']
    exact .same

theorem workUnit_requeueTo :
    (Sql.requeueTo target sel db).1.workUnit u
      = (db.workUnit u).map fun w => if sel w then { w with state := target } else w :=
  workUnit_update (by intro _; rfl) u

variable {selector : UnitRow → Bool}

theorem workUnit_requeue : (requeue cfg selector now db).1.workUnit u
    = ((db.workUnit u).map fun w =>
        if selector w ∧ w.attempts < cfg.maxAttempts then { w with state := .pending } else w).map
      fun w => if selector w ∧ w.attempts ≥ cfg.maxAttempts then { w with state := .dead } else w := by
  obtain ⟨ms, jobs, he⟩ := requeue_tables
  rw [he]
  change Db.workUnit (requeueRows cfg selector db).1 u = _
  rw [requeueRows, Sql.requeueToDead, workUnit_requeueTo, Sql.requeueToPending, workUnit_requeueTo]
  simp only [decide_eq_true_eq]

theorem unitMove_requeue (hsel : ∀ w, selector w → w.state = .leased) :
    UnitMove cfg u op (db.workUnit u) ((requeue cfg selector now db).1.workUnit u) := by
  rw [workUnit_requeue]
  cases hu : db.workUnit u with
  | none => exact .same
  | some w =>
    simp only [map_some]
    by_cases hp : selector w ∧ w.attempts < cfg.maxAttempts
    · -- the second branch selects leased rows, and this one has just left the lease
      have hnot : ¬ selector { w with state := .pending } := fun h => by cases hsel _ h
      simp only [hp, hnot, and_self, if_true, Bool.false_eq_true, false_and, if_false]
      exact .requeued (hsel w hp.1) hp.2
    · simp only [hp, if_false]
      split
      · next h => exact .killed (hsel w h.1) h.2
      · exact .same

/-- INVERSION: every committed effect moves a unit along one edge, or not at all. -/
theorem Effect.unit (he : Effect cfg db op db') (hwf : Wf db)
    (u : String) : UnitMove cfg u op (db.workUnit u) (db'.workUnit u) := by
  cases he with
  | submit fresh _ => exact unitMove_submitted hwf fresh
  | claim unit pending => exact unitMove_claim unit pending
  | extend => exact unitMove_extend
  | backup _ _ _ _ | bind _ _ | bindAgain => exact .same
  | complete row _ accepted _ => exact unitMove_finalize row (active_of_accepted accepted)
  | requeueExpired | requeueAgent => exact unitMove_requeue (fun _ h => (of_decide_eq_true h).1)
  | finalize _ => exact .same

/-- The same for a whole call, restarts included. -/
theorem step_unit (h : ResultsInv s) :
    UnitMove cfg u op (s.working.workUnit u) ((step cfg s op).working.workUnit u) := by
  obtain ⟨db', heff, he⟩ | ⟨jobs, he⟩ := step_working cfg h op
  · rw [he]
    exact heff.unit h.wf.working u
  · rw [he]
    exact .same

end Fallow.Queue

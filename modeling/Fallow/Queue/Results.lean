import Fallow.Queue.Invariant

/-! Results are final and authentic.

    `ResultsOk` ties the three tables a result lives in: a unit row is done exactly when it has a
    result row, and a succeeded result has a payload binding of its unit, agent and reference.
    `Keeps db db'` says that every completed reference readable in `db` is still read in `db'`. A
    submission decides once, before its loop, which units to reuse; the loop invariant is that for the
    units still to go this decision is what the tables say now. -/

namespace Fallow.Queue
open Lib List Option Table

/-- Done units, result rows and payload bindings belong together. -/
structure ResultsOk (db : Db) : Prop where
  done_iff : ∀ u w, db.workUnit u = some w → (w.state = .done ↔ (db.result u).isSome)
  unit : ∀ u, (db.result u).isSome → (db.workUnit u).isSome
  bound : ∀ r ∈ db.unitResults, r.status = .succeeded → Sql.hasBinding db r

/-- Every completed reference readable before is read after. -/
def Keeps (db db' : Db) : Prop :=
  ∀ u ref, Sql.selectCompletedResultRef u db = some ref → Sql.selectCompletedResultRef u db' = some ref

theorem Keeps.refl (db : Db) : Keeps db db := fun _ _ h => h

theorem Keeps.trans (hab : Keeps a b) (hbc : Keeps b c) : Keeps a c :=
  fun u ref h => hbc u ref (hab u ref h)

variable {db db' : Db} {r : ResultRow}

theorem selectCompletedResultRef_eq_some :
    Sql.selectCompletedResultRef u db = some ref ↔ ∃ r, db.result u = some r ∧
      r.status = .succeeded ∧ Sql.hasBinding db r ∧ r.resultRef = some ref := by
  unfold Sql.selectCompletedResultRef
  cases db.result u with
  | none => simp
  | some r => simp [and_assoc]

/-! ### Effects on one table -/

/-- Unit rows may move between states other than done. -/
theorem ResultsOk.updateUnits (h : ResultsOk db)
    (hid : ∀ w, (f w).workUnitId = w.workUnitId)
    (hst : ∀ w, p w → ((f w).state = .done ↔ w.state = .done)) :
    ResultsOk { db with workUnits := Table.update p f db.workUnits } := by
  have hget : ∀ u, Table.get UnitRow.workUnitId (Table.update p f db.workUnits) u
      = (db.workUnit u).map fun w => if p w then f w else w :=
    get_update fun r _ => hid r
  refine { h with done_iff := ?_, unit := ?_ }
  · intro u w hw
    rw [Db.workUnit, hget, map_eq_some_iff] at hw
    obtain ⟨w', hw', rfl⟩ := hw
    refine Iff.trans ?_ (h.done_iff u w' hw')
    split
    · exact hst w' ‹_›
    · rfl
  · intro u hu
    rw [Db.workUnit, hget, isSome_map]; exact h.unit u hu

theorem ResultsOk.claimUnit (h : ResultsOk db) (agentId : String) (expiry : ℤ)
    (u : String) : ResultsOk (Sql.claimUnit agentId expiry u db) := by
  refine h.updateUnits (fun _ => rfl) fun w hp => ?_
  rw [(of_decide_eq_true hp).2]; simp

theorem hasBinding_mono (hsub : ∀ b ∈ db.resultPayloadBindings, b.workUnitId = r.workUnitId →
      b ∈ db'.resultPayloadBindings) (h : Sql.hasBinding db r) : Sql.hasBinding db' r := by
  obtain ⟨b, hb, hp⟩ := any_eq_true.mp h
  exact any_eq_true.mpr ⟨b, hsub b hb (of_decide_eq_true hp).1, hp⟩

/-- Results untouched and bindings only added: every reference stays. -/
theorem Keeps.of_bindings (hres : db'.unitResults = db.unitResults)
    (hsub : ∀ b ∈ db.resultPayloadBindings, b ∈ db'.resultPayloadBindings) : Keeps db db' := by
  intro u ref h
  obtain ⟨r, hr, hs, hb, href⟩ := selectCompletedResultRef_eq_some.mp h
  refine selectCompletedResultRef_eq_some.mpr ⟨r, ?_, hs, hasBinding_mono (fun b hb _ => hsub b hb) hb,
    href⟩
  rw [Db.result, hres]; exact hr

theorem ResultsOk.bind (h : ResultsOk db) (rows : List BindingRow) :
    ResultsOk { db with resultPayloadBindings := db.resultPayloadBindings ++ rows } :=
  { h with
    bound := fun r hr hs =>
      hasBinding_mono (fun _ hb _ => mem_append_left _ hb) (h.bound r hr hs) }

/-! ### Requeue -/

theorem ResultsOk.requeueTo (h : ResultsOk db)
    (ht : target ≠ .done) (hsel : ∀ w, sel w → w.state = .leased) :
    ResultsOk (Sql.requeueTo target sel db).1 := by
  refine h.updateUnits (fun _ => rfl) fun w hp => ?_
  rw [hsel w hp]
  exact ⟨fun he => absurd he ht, fun he => absurd he (by simp)⟩

theorem ResultsOk.requeue (h : ResultsOk db) (cfg : Config)
    (hsel : ∀ w, selector w → w.state = .leased) (now : ℤ) :
    ResultsOk (requeue cfg selector now db).1 ∧ Keeps db (requeue cfg selector now db).1 := by
  have hp : ResultsOk (Sql.requeueToPending selector cfg.maxAttempts db).1 :=
    h.requeueTo (by simp) fun w hw => hsel w (of_decide_eq_true hw).1
  have hd : ResultsOk (requeueRows cfg selector db).1 :=
    hp.requeueTo (by simp) fun w hw => hsel w (of_decide_eq_true hw).1
  obtain ⟨ms, jobs, he⟩ := requeue_tables
  rw [he]
  exact ⟨{ hd with }, .of_bindings rfl fun _ hb => hb⟩

/-! ### Completion -/

variable {agentId : String} {result : WorkResult}

variable {unit : UnitRow} {now : ℤ} {isPrimary : Bool} {attempt : ℕ} {s : Store}

/-- A fresh result row is read under its unit; the others are read as before. -/
theorem result_finalizeUnit (hfresh : db.result result.workUnitId = none) (u : String) :
    (finalizeUnit agentId now unit result db).result u
      = if u = result.workUnitId then some (resultRowParams result agentId now)
        else db.result u := by
  have hget : (finalizeUnit agentId now unit result db).result u
      = (db.result u).or (if result.workUnitId = u then some (resultRowParams result agentId now)
          else none) := get_insertIgnore u
  rw [hget]
  by_cases hu : u = result.workUnitId
  · rw [hu, hfresh, if_pos rfl, none_or]
  · rw [if_neg hu, if_neg fun he => hu he.symm, or_none]

theorem workUnit_finalizeUnit (u : String) : (finalizeUnit agentId now unit result db).workUnit u
      = (db.workUnit u).map fun w => if u = result.workUnitId then { w with state := .done } else w := by
  change Table.get UnitRow.workUnitId (Table.update (·.workUnitId = result.workUnitId)
    (fun w => { w with state := .done }) db.workUnits) u = _
  rw [get_update (by intro _ _; rfl)]
  refine map_congr fun w hw => ?_
  rw [workUnit_id hw]; simp only [decide_eq_true_eq]

/-- The binding an accepted success is bound by. -/
theorem hasBinding_of_payloadBound (now : ℤ) (hs : result.status = .succeeded)
    (h : payloadBound isPrimary agentId attempt result db) :
    Sql.hasBinding db (resultRowParams result agentId now) := by
  have hsel : Sql.selectResultBindingForCompletion result.workUnitId agentId attempt
      result.resultRef db := by
    unfold payloadBound at h
    rw [hs] at h
    dsimp only at h
    split at h
    · exact h
    · rw [Sql.selectBackupBindingForCompletion, Bool.and_eq_true] at h; exact h.1
  obtain ⟨b, hb, hp⟩ := any_eq_true.mp hsel
  obtain ⟨hu, ha, -, href⟩ := of_decide_eq_true hp
  exact any_eq_true.mpr ⟨b, hb, decide_eq_true ⟨hu, ha, href⟩⟩

theorem ResultsOk.finalizeUnit (h : ResultsOk db)
    (hunit : db.workUnit result.workUnitId = some unit)
    (hfresh : db.result result.workUnitId = none)
    (hbound : payloadBound isPrimary agentId attempt result db) :
    ResultsOk (finalizeUnit agentId now unit result db) ∧
      Keeps db (finalizeUnit agentId now unit result db) := by
  refine ⟨⟨?_, ?_, ?_⟩, ?_⟩
  · intro u w hw
    rw [workUnit_finalizeUnit, map_eq_some_iff] at hw
    obtain ⟨w', hw', rfl⟩ := hw
    rw [result_finalizeUnit hfresh]
    by_cases hu : u = result.workUnitId
    · rw [if_pos hu, if_pos hu]; simp
    · rw [if_neg hu, if_neg hu]; exact h.done_iff u w' hw'
  · intro u hu
    rw [workUnit_finalizeUnit, isSome_map]
    rw [result_finalizeUnit hfresh] at hu
    by_cases hk : u = result.workUnitId
    · rw [hk, hunit]; rfl
    · rw [if_neg hk] at hu; exact h.unit u hu
  · intro r hr hs
    have hins : r ∈ db.unitResults ∨ r = resultRowParams result agentId now := by
      have hmem : r ∈ Table.insertIgnore ResultRow.workUnitId (resultRowParams result agentId now)
          db.unitResults := hr
      unfold Table.insertIgnore at hmem
      split at hmem
      · exact .inl hmem
      · simpa using hmem
    rcases hins with hr | rfl
    · exact h.bound r hr hs
    · exact hasBinding_of_payloadBound now hs hbound
  · intro u ref hu
    obtain ⟨r, hr, hs, hb, href⟩ := selectCompletedResultRef_eq_some.mp hu
    refine selectCompletedResultRef_eq_some.mpr ⟨r, ?_, hs, hb, href⟩
    rw [result_finalizeUnit hfresh, if_neg, hr]
    rintro rfl
    rw [hfresh] at hr; exact absurd hr (by simp)

/-! ### Submission -/

section
variable {jobId : String} {now : ℤ} {deduped : List (String × String)}

variable {db : Db}

/-- The reuse dictionary holds what the completed reference of each listed unit is. -/
theorem lookup_selectSucceededResults (hwf : Wf db) (hu : u ∈ ids) :
    (Sql.selectSucceededResults ids db).lookup u = Sql.selectCompletedResultRef u db := by
  have hmem : ∀ ref, (u, ref) ∈ Sql.selectSucceededResults ids db ↔
      Sql.selectCompletedResultRef u db = some ref := by
    intro ref
    rw [selectCompletedResultRef_eq_some]
    simp only [Sql.selectSucceededResults, mem_filterMap, mem_filter, decide_eq_true_eq,
      map_eq_some_iff, Prod.mk.injEq]
    constructor
    · rintro ⟨r, ⟨hr, hs, -, hb⟩, ref', href, rfl, rfl⟩
      exact ⟨r, get_of_mem hwf.resultKeys hr, hs, hb, href⟩
    · rintro ⟨r, hr, hs, hb, href⟩
      exact ⟨r, ⟨mem_of_get hr, hs, result_id hr ▸ hu, hb⟩, ref, href, result_id hr, rfl⟩
  cases hl : (Sql.selectSucceededResults ids db).lookup u with
  | some ref =>
    obtain ⟨l₁, l₂, hsplit, -⟩ := lookup_eq_some_iff.mp hl
    exact ((hmem ref).mp (by rw [hsplit]; simp)).symm
  | none =>
    cases hc : Sql.selectCompletedResultRef u db with
    | none => rfl
    | some ref =>
      have := lookup_eq_none_iff.mp hl _ ((hmem ref).mpr hc)
      simp at this

/-- A reused unit keeps its result and bindings; any other loses both. -/
theorem submitUnit_tables (hwf : Wf db) (u : WorkUnitSpec) :
    (submitUnit jobId now deduped db u).unitResults
        = (if (deduped.lookup u.workUnitId).isSome then db.unitResults
           else db.unitResults.filter (·.workUnitId ≠ u.workUnitId)) ∧
      (submitUnit jobId now deduped db u).resultPayloadBindings
        = (if (deduped.lookup u.workUnitId).isSome then db.resultPayloadBindings
           else db.resultPayloadBindings.filter (·.workUnitId ≠ u.workUnitId)) := by
  obtain ⟨ms, he⟩ := submitUnit_eq hwf u
  rw [he]
  by_cases hr : (deduped.lookup u.workUnitId).isSome
  · simp only [if_pos hr]
    exact ⟨rfl, rfl⟩
  · simp only [if_neg hr]
    exact ⟨rfl, rfl⟩

theorem result_submitUnit (hwf : Wf db) (u : WorkUnitSpec) (v : String) :
    (submitUnit jobId now deduped db u).result v
      = if (deduped.lookup u.workUnitId).isSome ∨ v ≠ u.workUnitId then db.result v else none := by
  rw [Db.result, (submitUnit_tables hwf u).1]
  by_cases hr : (deduped.lookup u.workUnitId).isSome
  · rw [if_pos hr, if_pos (.inl hr)]; rfl
  rw [if_neg hr, get_filter_ne]
  by_cases hv : v = u.workUnitId
  · rw [if_pos hv, if_neg (by simp [hr, hv])]
  · rw [if_neg hv, if_pos (.inr hv)]; rfl

variable {u : WorkUnitSpec}

theorem hasBinding_submitUnit (hwf : Wf db)
    (h : (deduped.lookup u.workUnitId).isSome ∨ r.workUnitId ≠ u.workUnitId) :
    Sql.hasBinding (submitUnit jobId now deduped db u) r = Sql.hasBinding db r := by
  have hsub : ∀ b, b.workUnitId = r.workUnitId →
      (b ∈ (submitUnit jobId now deduped db u).resultPayloadBindings ↔
        b ∈ db.resultPayloadBindings) := by
    intro b hb
    rw [(submitUnit_tables hwf u).2]
    by_cases hr : (deduped.lookup u.workUnitId).isSome
    · rw [if_pos hr]
    · have hne := h.resolve_left hr
      rw [if_neg hr, mem_filter]
      simp [hb, hne]
  rw [Bool.eq_iff_iff]
  exact ⟨hasBinding_mono fun b hm hb => (hsub b hb).mp hm,
    hasBinding_mono fun b hm hb => (hsub b hb).mpr hm⟩

/-- Only the completed reference of a unit that is not reused can change. -/
theorem selectCompletedResultRef_submitUnit (hwf : Wf db)
    (h : (deduped.lookup u.workUnitId).isSome ∨ v ≠ u.workUnitId) :
    Sql.selectCompletedResultRef v (submitUnit jobId now deduped db u)
      = Sql.selectCompletedResultRef v db := by
  unfold Sql.selectCompletedResultRef
  rw [result_submitUnit hwf, if_pos h]
  cases hr : db.result v with
  | none => rfl
  | some r => dsimp only; rw [hasBinding_submitUnit hwf (by rwa [result_id hr])]

/-- One turn of the loop, when reuse is decided as the tables stand. -/
theorem ResultsOk.submitUnit (h : ResultsOk db) (hwf : Wf db)
    (hnow : deduped.lookup u.workUnitId = Sql.selectCompletedResultRef u.workUnitId db) :
    ResultsOk (submitUnit jobId now deduped db u) := by
  have hrow : (Queue.submitUnit jobId now deduped db u).workUnit u.workUnitId
      = some (submittedUnit jobId now (deduped.lookup u.workUnitId).isSome u) := by
    exact workUnit_upsert.trans (if_pos rfl)
  -- a reused unit has a result row
  have hres : (deduped.lookup u.workUnitId).isSome → (db.result u.workUnitId).isSome := by
    intro hr
    obtain ⟨ref, href⟩ := isSome_iff_exists.mp hr
    obtain ⟨r, hr, -⟩ := selectCompletedResultRef_eq_some.mp (hnow ▸ href)
    rw [hr]; rfl
  refine ⟨?_, ?_, ?_⟩
  · intro v w hw
    rw [result_submitUnit hwf]
    by_cases hv : v = u.workUnitId
    · rw [hv] at hw ⊢
      obtain rfl := Option.mem_unique hrow hw
      by_cases hr : (deduped.lookup u.workUnitId).isSome
      · rw [if_pos (.inl hr)]; simp [submittedUnit, hr, hres hr]
      · rw [if_neg (by simp [hr])]; simp [submittedUnit, hr]
    · rw [if_pos (.inr hv)]
      rw [workUnit_submitUnit hwf hv] at hw
      exact h.done_iff v w hw
  · intro v hv
    by_cases he : v = u.workUnitId
    · rw [he, hrow]; rfl
    · rw [result_submitUnit hwf, if_pos (.inr he)] at hv
      rw [workUnit_submitUnit hwf he]; exact h.unit v hv
  · intro r hr hs
    rw [(submitUnit_tables hwf u).1] at hr
    by_cases hd : (deduped.lookup u.workUnitId).isSome
    · rw [if_pos hd] at hr
      rw [hasBinding_submitUnit hwf (.inl hd)]; exact h.bound r hr hs
    · rw [if_neg hd] at hr
      obtain ⟨hr, hne⟩ := mem_filter.mp hr
      rw [hasBinding_submitUnit hwf (.inr (by simpa using hne))]; exact h.bound r hr hs

/-- The whole loop: the units still to go are reused as the tables stand, and nothing readable is
    lost on the way. -/
theorem ResultsOk.submitUnits (h : ResultsOk db)
    (hl : SubmitLoop jobId units db) (hnow : ∀ u ∈ units,
      deduped.lookup u.workUnitId = Sql.selectCompletedResultRef u.workUnitId db) :
    ResultsOk (units.foldl (Queue.submitUnit jobId now deduped) db) ∧
      Keeps db (units.foldl (Queue.submitUnit jobId now deduped) db) := by
  induction units generalizing db with
  | nil => exact ⟨h, .refl db⟩
  | cons u us ih =>
    have hu := hnow u mem_cons_self
    have hok : ResultsOk (Queue.submitUnit jobId now deduped db u) := h.submitUnit hl.wf hu
    obtain ⟨hall, hkept⟩ := ih hok hl.next fun u' hu' => by
      rw [selectCompletedResultRef_submitUnit hl.wf (.inr (hl.head_ne hu'))]
      exact hnow u' (mem_cons_of_mem _ hu')
    refine ⟨hall, .trans (fun v ref hv => ?_) hkept⟩
    rw [selectCompletedResultRef_submitUnit hl.wf, hv]
    by_cases he : v = u.workUnitId
    · exact .inl (by rw [hu, ← he, hv]; rfl)
    · exact .inr he

end

theorem ResultsOk.submitted (h : ResultsOk db) (hwf : Wf db)
    (job : JobSubmit) (now : ℤ) (specs : List WorkUnitSpec) (hfresh : db.job jobId = none) :
    ResultsOk (submitted jobId job now (uniqueUnits [] specs) db) ∧
      Keeps db (submitted jobId job now (uniqueUnits [] specs) db) := by
  have hjob : ResultsOk (withJob jobId job now db) := { h with }
  have hnow : ∀ u ∈ uniqueUnits [] specs,
      (Sql.selectSucceededResults ((uniqueUnits [] specs).map (·.workUnitId)) db).lookup u.workUnitId
        = Sql.selectCompletedResultRef u.workUnitId (withJob jobId job now db) :=
    fun u hu => lookup_selectSucceededResults hwf (mem_map_of_mem hu)
  obtain ⟨hok, hkeep⟩ := hjob.submitUnits (submitLoop_start hwf job now specs hfresh) hnow
  exact ⟨{ hok with }, hkeep⟩

/-! ### Runs -/

theorem Effect.results (he : Effect cfg db op db')
    (hwf : Wf db) (h : ResultsOk db) : ResultsOk db' ∧ Keeps db db' := by
  cases he with
  | submit fresh _ => exact h.submitted hwf _ _ _ fresh
  | claim _ _ =>
    exact ⟨{ h.claimUnit _ _ _ with }, .of_bindings rfl fun _ hb => hb⟩
  | extend =>
    exact ⟨h.updateUnits (fun _ => rfl) fun _ _ => Iff.rfl, .of_bindings rfl fun _ hb => hb⟩
  | backup _ _ _ _ | finalize _ => exact ⟨{ h with }, .of_bindings rfl fun _ hb => hb⟩
  | bind _ _ => exact ⟨h.bind _, .of_bindings rfl fun _ hb => mem_append_left _ hb⟩
  | bindAgain => exact ⟨h, .refl db⟩
  | complete row fresh _ bound => exact h.finalizeUnit row fresh bound
  | requeueExpired | requeueAgent => exact h.requeue cfg (fun _ hw => (of_decide_eq_true hw).1) _

/-- The two views differ in job rows only: a submission that raised leaves nothing else. -/
structure ResultsInv (s : Store) : Prop where
  wf : StoreWf s
  synced : ∃ jobs, s.working = { s.committed with jobs := jobs }
  ok : ResultsOk s.working

theorem resultsInv_empty : ResultsInv {} := by
  refine ⟨⟨wf_empty, wf_empty⟩, ⟨[], rfl⟩, ?_, ?_, ?_⟩
  · intro u w hw; exact absurd hw (by simp [Db.workUnit, Table.get])
  · intro u hu; exact absurd hu (by simp [Db.result, Table.get])
  · intro r hr; exact absurd hr (by simp)

/-- INVARIANT: every call keeps the results in order and every completed reference. -/
theorem ResultsInv.step (h : ResultsInv s) (cfg : Config) (op : Op) :
    ResultsInv (step cfg s op) ∧ Keeps s.working (step cfg s op).working := by
  have hwf := h.wf.step cfg op
  obtain ⟨jobs, hsync⟩ := h.synced
  rcases step_cases cfg h.wf.working h.wf.committed op with
    he | ⟨db', heff, he⟩ | ⟨jobId, job, specs, now, _, _, _, he⟩ | ⟨_, he⟩
  · rw [he]; exact ⟨h, .refl _⟩
  · rw [he] at hwf ⊢
    obtain ⟨hok, hkeep⟩ := heff.results h.wf.working h.ok
    exact ⟨⟨hwf, ⟨db'.jobs, rfl⟩, hok⟩, hkeep⟩
  · rw [he] at hwf ⊢
    refine ⟨⟨hwf, ⟨(withJob jobId job now s.working).jobs, ?_⟩, { h.ok with }⟩, .refl _⟩
    rw [withJob, hsync]
  · rw [he] at hwf ⊢
    have hok := h.ok
    rw [hsync] at hok ⊢
    exact ⟨⟨hwf, ⟨s.committed.jobs, rfl⟩, { hok with }⟩, .of_bindings rfl fun _ hb => hb⟩

/-- A call commits an effect, or changes no table but the jobs. -/
theorem step_working (cfg : Config) (h : ResultsInv s) (op : Op) :
    (∃ db', Effect cfg s.working op db' ∧ (step cfg s op).working = db') ∨
    ∃ jobs, (step cfg s op).working = { s.working with jobs := jobs } := by
  obtain ⟨jobs, hsync⟩ := h.synced
  refine h.wf.step_working cfg op ?_ (fun db' heff => ?_) (fun jobId job now => ?_) fun _ => ?_
  · exact .inr ⟨s.working.jobs, rfl⟩
  · exact .inl ⟨db', heff, rfl⟩
  · exact .inr ⟨(withJob jobId job now s.working).jobs, rfl⟩
  · exact .inr ⟨s.committed.jobs, by rw [hsync]⟩

/-- What holds of results in a reachable state. -/
structure ResultsFinal (cfg : Config) (s : Store) : Prop where
  /-- a unit is done exactly when it has a result row, and results belong to units -/
  done_iff : ∀ u, (∃ w, s.working.workUnit u = some w ∧ w.state = .done) ↔
    ∃ r ∈ s.working.unitResults, r.workUnitId = u
  /-- a succeeded result has the binding of its unit, agent and reference -/
  bound : ∀ r ∈ s.working.unitResults, r.status = .succeeded →
    ∃ b ∈ s.working.resultPayloadBindings, b.workUnitId = r.workUnitId ∧ b.agentId = r.agentId ∧
      some b.resultRef = r.resultRef
  /-- a completed reference is read for ever after -/
  final : ∀ u ref, completedResultRef s u = some ref →
    ∀ ops, completedResultRef (runs (step cfg) s ops) u = some ref

theorem ResultsInv.final (h : ResultsInv s) (cfg : Config) : ResultsFinal cfg s := by
  have hrow : ∀ u, (s.working.result u).isSome ↔ ∃ r ∈ s.working.unitResults, r.workUnitId = u := by
    intro u
    constructor
    · intro hu
      obtain ⟨r, hr⟩ := isSome_iff_exists.mp hu
      exact ⟨r, mem_of_get hr, result_id hr⟩
    · rintro ⟨r, hr, rfl⟩
      rw [Db.result, get_of_mem h.wf.working.resultKeys hr]; rfl
  refine ⟨?_, ?_, ?_⟩
  · intro u
    rw [← hrow]
    constructor
    · rintro ⟨w, hw, hd⟩; exact (h.ok.done_iff u w hw).mp hd
    · intro hu
      obtain ⟨w, hw⟩ := isSome_iff_exists.mp (h.ok.unit u hu)
      exact ⟨w, hw, (h.ok.done_iff u w hw).mpr hu⟩
  · intro r hr hs
    obtain ⟨b, hb, hp⟩ := any_eq_true.mp (h.ok.bound r hr hs)
    exact ⟨b, hb, of_decide_eq_true hp⟩
  · intro u ref hu ops
    exact runs_preserve ResultsInv (fun s => completedResultRef s u = some ref)
      (fun _ op hs => (hs.step cfg op).1) (fun _ op hs href => (hs.step cfg op).2 u ref href)
      h hu

/-- CORRECT: after any sequence of calls and restarts, results are final and authentic. -/
theorem results_final (cfg : Config) (ops : List Op) : ResultsFinal cfg (runs (step cfg) {} ops) :=
  (runs_invariant ResultsInv (fun _ op hs => (hs.step cfg op).1) ops {} resultsInv_empty).final cfg

end Fallow.Queue

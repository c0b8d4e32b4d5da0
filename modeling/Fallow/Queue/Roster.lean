import Fallow.Queue.Outcomes

/-! What a job consists of, and where the references in its outcomes come from.

    A job's roster (unit, position, input) is written once, by its submission. Its outcomes are
    filled in later; a reference in them is one that was bound to the unit, in this job or in the
    earlier one whose result was reused. `G u ref` is what is known of every binding:

        bind (u, ref)          ─▶  G u ref
        complete, succeeded    ─▶  the bound reference goes to the owner's outcome
        submit, reused         ─▶  the bound reference goes to the new job's outcome

    Two facts about outcomes that the other modules do not need: a unit at rest has its outcome
    recorded with the job that owns it, and a job whose outcomes are all recorded is done. Both hold
    between calls; inside a call `X` are the units and `D` the jobs that are still to catch up. -/

namespace Fallow.Queue
open Lib List Set Table

/-! ### What never changes -/

/-- The columns of a membership that are no outcome. -/
structure Shape where
  jobId : String
  workUnitId : String
  idx : ℕ
  inputRef : String
  deriving DecidableEq

def MembershipRow.shape (m : MembershipRow) : Shape := ⟨m.jobId, m.workUnitId, m.idx, m.inputRef⟩

def Db.shapes (db : Db) : List Shape := db.jobUnitMemberships.map (·.shape)

/-- The columns of a job that are no state. -/
def JobRow.fixed (r : JobRow) : WorkerKind × String × String × List (String × String) × ℤ :=
  (r.kind, r.modelId, r.payloadRef, r.paramsJson, r.priority)

/-- FRAME: rosters, and what was submitted of jobs, stay; `added` is new. -/
structure Grown (added : List Shape) (db db' : Db) : Prop where
  shapes : db'.shapes = db.shapes ++ added
  jobs : ∀ j r, db.job j = some r → ∃ r', db'.job j = some r' ∧ r'.fixed = r.fixed

theorem Grown.refl (db : Db) : Grown [] db db :=
  ⟨(append_nil _).symm, fun _ r h => ⟨r, h, rfl⟩⟩

theorem Grown.trans (hab : Grown xs a b) (hbc : Grown ys b c) : Grown (xs ++ ys) a c where
  shapes := by rw [hbc.shapes, hab.shapes, append_assoc]
  jobs j r hr := by
    obtain ⟨r', hr', hf⟩ := hab.jobs j r hr
    obtain ⟨r'', hr'', hf'⟩ := hbc.jobs j r' hr'
    exact ⟨r'', hr'', hf'.trans hf⟩

variable {db db' : Db} {jobId agentId : String} {p : UnitRow → Bool} {f : UnitRow → UnitRow}
  {st : WorkUnitState} {now : ℤ} {unit row : UnitRow} {result : WorkResult} {m : MembershipRow}
  {deduped : List (String × String)} {G : String → String → Prop}

/-- Writes that leave the two tables alone. -/
theorem Grown.of_eq (hm : db'.jobUnitMemberships = db.jobUnitMemberships)
    (hj : db'.jobs = db.jobs) : Grown [] db db' where
  shapes := by rw [Db.shapes, hm, append_nil]; rfl
  jobs _ r hr := ⟨r, by rwa [Db.job, hj], rfl⟩

theorem Grown.updateMembers {p : MembershipRow → Bool}
    {f : MembershipRow → MembershipRow} (hf : ∀ m, (f m).shape = m.shape) :
    Grown [] db { db with jobUnitMemberships := Table.update p f db.jobUnitMemberships } := by
  refine ⟨?_, fun _ r h => ⟨r, h, rfl⟩⟩
  change (Table.update p f db.jobUnitMemberships).map _ = db.jobUnitMemberships.map _ ++ []
  rw [append_nil, Table.update, map_map]
  refine map_congr_left fun m _ => ?_
  dsimp only [Function.comp]
  split
  · exact hf m
  · rfl

theorem Grown.mark (db : Db) (j u : String) (st : WorkUnitState) (status : Option WorkResultStatus)
    (ref : Option String) : Grown [] db (Sql.markJobUnitTerminal j u st status ref db) :=
  .updateMembers fun _ => rfl

theorem Grown.recompute (db : Db) (j : String) : Grown [] db (recomputeJobState j db) := by
  refine ⟨(append_nil _).symm, fun _ r hr => ⟨_, by rw [job_recompute, hr]; rfl, ?_⟩⟩
  dsimp only
  split
  · rfl
  · rfl

theorem Grown.requeue (cfg : Config) (selector : UnitRow → Bool) (now : ℤ) (db : Db) :
    Grown [] db (requeue cfg selector now db).1 :=
  requeue_keeps (.of_eq rfl rfl) (fun _ _ h => h.trans (.mark ..)) fun _ _ h => h.trans (.recompute ..)

theorem Grown.finalizeUnit (agentId : String) (now : ℤ) (unit : UnitRow) (result : WorkResult)
    (db : Db) : Grown [] db (finalizeUnit agentId now unit result db) := by
  have hdone : Grown [] db (withResult agentId now result db) := .of_eq rfl rfl
  exact (hdone.trans (.mark ..)).trans (.recompute ..)

theorem Grown.snapshot (hwf : Wf db) (u : String) :
    Grown [] db (Sql.snapshotTerminalOwner u db) := by
  rcases snapshot_eq hwf u with ⟨w, _, _, he⟩ | ⟨_, he⟩
  · rw [he]
    refine Grown.updateMembers fun m => ?_
    unfold Sql.recordOutcome
    split
    · rfl
    · rfl
  · rw [he]
    exact .refl db

/-- The roster entry of a submitted unit. -/
def WorkUnitSpec.shape (jobId : String) (u : WorkUnitSpec) : Shape :=
  ⟨jobId, u.workUnitId, u.idx, u.inputRef⟩

theorem Grown.submitUnit (hwf : Wf db) (u : WorkUnitSpec) :
    Grown [u.shape jobId] db (submitUnit jobId now deduped db u) := by
  have hattach : ∀ db₂ : Db, Grown [u.shape jobId] db₂
      (handed (submittedUnit jobId now (deduped.lookup u.workUnitId).isSome u)
        (submittedMembership jobId (deduped.lookup u.workUnitId) u) db₂) := by
    intro db₂
    refine ⟨?_, fun _ r h => ⟨r, h, rfl⟩⟩
    change List.map _ (_ ++ _) = _
    rw [map_append]
    rfl
  have hreset : Grown [] db (if (deduped.lookup u.workUnitId).isSome then
        Sql.snapshotTerminalOwner u.workUnitId db
      else resetUnit u.workUnitId (Sql.snapshotTerminalOwner u.workUnitId db)) := by
    split
    · exact Grown.snapshot hwf u.workUnitId
    · exact (Grown.snapshot hwf u.workUnitId).trans (Grown.of_eq rfl rfl)
  exact hreset.trans (hattach _)

theorem Grown.submitUnits : ∀ {units : List WorkUnitSpec} {db : Db}, SubmitLoop jobId units db →
    Grown (units.map (·.shape jobId)) db (units.foldl (Queue.submitUnit jobId now deduped) db)
  | [], db, _ => .refl db
  | _ :: _, _, hl => (Grown.submitUnit hl.wf _).trans (Grown.submitUnits hl.next)

theorem Grown.withJob (db : Db) (jobId : String) (job : JobSubmit) (now : ℤ) :
    Grown [] db (withJob jobId job now db) := by
  refine ⟨(append_nil _).symm, fun _ r hr => ⟨r, ?_, rfl⟩⟩
  rw [Queue.withJob, Db.job, get_append]
  rw [Db.job] at hr
  rw [hr, Option.some_or]

theorem Grown.submitted (hwf : Wf db) (job : JobSubmit) (now : ℤ)
    (specs : List WorkUnitSpec) (hfresh : db.job jobId = none) :
    Grown ((uniqueUnits [] specs).map (·.shape jobId)) db
      (submitted jobId job now (uniqueUnits [] specs) db) := by
  have hunits : Grown ((uniqueUnits [] specs).map (·.shape jobId)) (Queue.withJob jobId job now db)
      ((uniqueUnits [] specs).foldl (Queue.submitUnit jobId now (Sql.selectSucceededResults
        ((uniqueUnits [] specs).map (·.workUnitId)) db)) (Queue.withJob jobId job now db)) :=
    Grown.submitUnits (submitLoop_start hwf job now specs hfresh)
  have h := ((Grown.withJob db jobId job now).trans hunits).trans (Grown.recompute _ jobId)
  rwa [nil_append, append_nil] at h

/-! ### Where references come from -/

/-- INVARIANT: every reference bound to a unit is a known one, every success has one of them, and a
    unit row has the input its owner's membership names. -/
structure Sourced (G : String → String → Prop) (db : Db) : Prop where
  bound : ∀ b ∈ db.resultPayloadBindings, G b.workUnitId b.resultRef
  success : ∀ m ∈ db.jobUnitMemberships, m.resultStatus = some .succeeded →
    m.terminalState = some .done ∧ ∃ ref, m.resultRef = some ref ∧ G m.workUnitId ref
  input : ∀ u w m, db.workUnit u = some w → db.member w.jobId u = some m → m.inputRef = w.inputRef

theorem Sourced.mono (h : Sourced G db) (hG : ∀ u ref, G u ref → G' u ref) : Sourced G' db where
  bound b hb := hG _ _ (h.bound b hb)
  success m hm hs := by
    obtain ⟨ht, ref, hr, hg⟩ := h.success m hm hs
    exact ⟨ht, ref, hr, hG _ _ hg⟩
  input := h.input

section
variable (h : Sourced G db)
include h

theorem Sourced.updateUnits
    (hid : ∀ w, (f w).workUnitId = w.workUnitId) (hjob : ∀ w, (f w).jobId = w.jobId)
    (hin : ∀ w, (f w).inputRef = w.inputRef) :
    Sourced G { db with workUnits := Table.update p f db.workUnits } := by
  refine { h with input := fun u w m hw hm => ?_ }
  rw [workUnit_update hid, Option.map_eq_some_iff] at hw
  obtain ⟨w', hw', rfl⟩ := hw
  have hsame : (if p w' then f w' else w').jobId = w'.jobId ∧
      (if p w' then f w' else w').inputRef = w'.inputRef := by
    split
    · exact ⟨hjob w', hin w'⟩
    · exact ⟨rfl, rfl⟩
  rw [hsame.2]
  exact h.input u w' m hw' (hsame.1 ▸ hm)

/-- Outcomes are recorded with a known reference or as no success. -/
theorem Sourced.mark (j u : String)
    (hs : status = some .succeeded → st = .done ∧ ∃ r, ref = some r ∧ G u r) :
    Sourced G (Sql.markJobUnitTerminal j u st status ref db) := by
  refine { h with success := fun m hm hst => ?_, input := fun v w m hw hm => ?_ }
  · obtain ⟨m', hm', rfl⟩ := mem_update.1 hm
    split at hst
    · next hp =>
      obtain ⟨rfl, r, hr, hg⟩ := hs hst
      rw [if_pos hp]
      exact ⟨rfl, r, hr, (of_decide_eq_true hp).2 ▸ hg⟩
    · next hp =>
      rw [if_neg hp]
      exact h.success m' hm' hst
  · rw [Sql.markJobUnitTerminal, member_update (by intro _; rfl), Option.map_eq_some_iff] at hm
    obtain ⟨m', hm', rfl⟩ := hm
    have hin := h.input v w m' hw hm'
    split
    · exact hin
    · exact hin

theorem Sourced.requeue (cfg : Config) (selector : UnitRow → Bool) (now : ℤ) :
    Sourced G (requeue cfg selector now db).1 := by
  have hp : Sourced G (Sql.requeueToPending selector cfg.maxAttempts db).1 :=
    h.updateUnits (fun _ => rfl) (fun _ => rfl) fun _ => rfl
  have hd : Sourced G (requeueRows cfg selector db).1 :=
    hp.updateUnits (fun _ => rfl) (fun _ => rfl) fun _ => rfl
  exact requeue_keeps hd (fun _ w h => h.mark w.jobId w.workUnitId nofun) fun _ _ h => { h with }

theorem Sourced.of_hasBinding (hb : Sql.hasBinding db r) :
    ∃ ref, r.resultRef = some ref ∧ G r.workUnitId ref := by
  obtain ⟨b, hmem, hp⟩ := any_eq_true.1 hb
  obtain ⟨hu, -, href⟩ := of_decide_eq_true hp
  exact ⟨b.resultRef, href.symm, hu ▸ h.bound b hmem⟩

theorem Sourced.finalizeUnit (hbound : payloadBound isPrimary agentId attempt result db) :
    Sourced G (finalizeUnit agentId now unit result db) := by
  have hdone : Sourced G (withResult agentId now result db) := by
    have hins : Sourced G (Sql.insertResult (resultRowParams result agentId now) db) := { h with }
    exact hins.updateUnits (fun _ => rfl) (fun _ => rfl) fun _ => rfl
  obtain ⟨ref, href, he⟩ := finalizeUnit_eq
  rw [he]
  have hmark : Sourced G (Sql.markJobUnitTerminal unit.jobId result.workUnitId .done
      (some result.status) ref (withResult agentId now result db)) := by
    refine hdone.mark unit.jobId result.workUnitId fun hs => ?_
    have hs : result.status = .succeeded := Option.some.inj hs
    rw [href hs]
    exact ⟨rfl, h.of_hasBinding (hasBinding_of_payloadBound now hs hbound)⟩
  exact { hmark with }

/-- A unit row handed to a job, with the membership that lists it. -/
theorem Sourced.attach
    (hkey : m.key = (row.jobId, row.workUnitId)) (hin : m.inputRef = row.inputRef)
    (hfresh : db.member row.jobId row.workUnitId = none) (hs : m.resultStatus = some .succeeded →
      m.terminalState = some .done ∧ ∃ ref, m.resultRef = some ref ∧ G m.workUnitId ref) :
    Sourced G (handed row m db) := by
  refine ⟨h.bound, fun m' hm' => ?_, fun u w m' hw hm' => ?_⟩
  · rcases mem_append.1 hm' with hm' | hm'
    · exact h.success m' hm'
    · rw [mem_singleton.1 hm']
      exact hs
  · rcases handed_cases hkey hfresh hw hm' with ⟨rfl, rfl⟩ | ⟨hw, hm'⟩
    · exact hin
    · exact h.input u w m' hw hm'

end

/-! ### Outcomes that are in -/

/-- INVARIANT: a unit at rest has its outcome with the job that owns it, and a job whose outcomes
    are all in is done; the units of `X` and the jobs of `D` are still to follow. -/
structure CaughtUp (D X : Set String) (db : Db) : Prop where
  terminal : ∀ m ∈ db.jobUnitMemberships, ∀ st, m.terminalState = some st →
    Sql.isTerminal st = true
  closed : ∀ u w m, db.workUnit u = some w → Sql.isTerminal w.state = true → u ∉ X →
    db.member w.jobId u = some m → m.terminalState.isSome
  tally : ∀ j r, db.job j = some r → j ∉ D → Sql.jobMembers db j ≠ [] →
    (∀ m ∈ Sql.jobMembers db j, m.terminalState.isSome) → r.state = .done

section
variable {D D' X X' : Set String}

section
variable (h : CaughtUp D X db)
include h

theorem CaughtUp.mono (hD : D ⊆ D') : CaughtUp D' X db :=
  { h with tally := fun j r hr hj => h.tally j r hr fun hin => hj (hD hin) }

theorem CaughtUp.updateUnits (hX : X ⊆ X') (hid : ∀ w, (f w).workUnitId = w.workUnitId)
    (hrest : ∀ u w, db.workUnit u = some w → p w → Sql.isTerminal (f w).state = true → u ∈ X') :
    CaughtUp D X' { db with workUnits := Table.update p f db.workUnits } := by
  refine { h with closed := fun u w m hw ht hu hm => ?_ }
  rw [workUnit_update hid, Option.map_eq_some_iff] at hw
  obtain ⟨w', hw', rfl⟩ := hw
  split at ht
  · next hp => exact absurd (hrest u w' hw' hp ht) hu
  · next hp =>
    rw [if_neg hp] at hm
    exact h.closed u w' m hw' ht (fun hin => hu (hX hin)) hm

/-- The outcome of `u` goes to the job that owns it; that job is to be recounted. -/
theorem CaughtUp.mark
    (hst : Sql.isTerminal st = true) (status : Option WorkResultStatus) (ref : Option String)
    (hX : X ⊆ insert u X') (hj : j ∈ D) (hown : ∀ w, db.workUnit u = some w → w.jobId = j) :
    CaughtUp D X' (Sql.markJobUnitTerminal j u st status ref db) := by
  refine ⟨fun m hm st' hst' => ?_, fun v w m hw ht hv hm => ?_, fun k r hr hk hne hall => ?_⟩
  · obtain ⟨m', hm', rfl⟩ := mem_update.1 hm
    split at hst'
    · cases hst'
      exact hst
    · exact h.terminal m' hm' st' hst'
  · rw [Sql.markJobUnitTerminal, member_update (by intro _; rfl), Option.map_eq_some_iff] at hm
    obtain ⟨m', hm', rfl⟩ := hm
    split
    · rfl
    next hp =>
    have hne : v ≠ u := by
      rintro rfl
      obtain ⟨hmj, hmu⟩ := Prod.mk.inj (show m'.key = (w.jobId, v) from key_of_get hm')
      exact hp (decide_eq_true ⟨hmj.trans (hown w hw), hmu⟩)
    exact h.closed v w m' hw ht (fun hin => (hX hin).elim hne hv) hm'
  · have hmem : Sql.jobMembers (Sql.markJobUnitTerminal j u st status ref db) k
        = Sql.jobMembers db k := by
      have hkj : k ≠ j := fun he => hk (he ▸ hj)
      rw [Sql.jobMembers, Sql.markJobUnitTerminal, filter_update (by intro _ _; rfl)]
      refine update_none fun m hm => decide_eq_false fun hp => hkj ?_
      exact (of_decide_eq_true (mem_filter.1 hm).2).symm.trans hp.1
    rw [hmem] at hne hall
    exact h.tally k r hr hk hne hall

/-- A recounted job with all its outcomes in is done. -/
theorem CaughtUp.recompute (hD : D ⊆ insert j D') : CaughtUp D' X (recomputeJobState j db) := by
  refine { h with tally := fun k r hr hk hne hall => ?_ }
  rw [job_recompute, Option.map_eq_some_iff] at hr
  obtain ⟨r', hr', rfl⟩ := hr
  have hid : r'.jobId = k := key_of_get hr'
  split
  · next hj =>
    have hin : ∀ st, some st ∈ memberStates db j → Sql.isTerminal st = true := by
      intro st hst
      obtain ⟨m, hm, hs⟩ := mem_map.1 hst
      obtain ⟨st', hst'⟩ := Option.isSome_iff_exists.1 (hall m (by rw [← hid, hj]; exact hm))
      rw [Sql.resolvedState, hst', Option.some_or] at hs
      cases hs
      exact h.terminal m (mem_filter.1 hm).1 st hst'
    refine (countJobUnits_done_iff db j).2 ⟨fun hp => ?_, fun hl => ?_⟩
    · cases hin _ hp
    · cases hin _ hl
  · next hj =>
    exact h.tally k r' hr' (fun hin => (hD hin).elim (fun he => hj (hid.trans he)) hk) hne hall

end

theorem CaughtUp.recomputes : ∀ (js : List String) {db : Db}, CaughtUp {j | j ∈ js} X db →
    CaughtUp ∅ X (js.foldl (fun db j => recomputeJobState j db) db)
  | [], _, h => h.mono (by simp)
  | _ :: js, _, h => CaughtUp.recomputes js (h.recompute fun _ hk => mem_cons.1 hk)

theorem CaughtUp.markDeads : ∀ (dead : List UnitRow) {db : Db},
    CaughtUp D {u | u ∈ dead.map (·.workUnitId)} db → (∀ w ∈ dead, w.jobId ∈ D) →
    (∀ w ∈ dead, ∀ w', db.workUnit w.workUnitId = some w' → w'.jobId = w.jobId) →
    CaughtUp D ∅ (dead.foldl markDead db)
  | [], _, h, _, _ => by simpa using h
  | w :: dead, db, h, hD, hown => by
    refine CaughtUp.markDeads dead (h.mark rfl none none ?_ (hD w mem_cons_self)
      (hown w mem_cons_self)) (fun v hv => hD v (mem_cons_of_mem _ hv))
      fun v hv => hown v (mem_cons_of_mem _ hv)
    exact fun u hu => mem_cons.1 hu

theorem CaughtUp.finalizeUnit (h : CaughtUp ∅ ∅ db) (hunit : db.workUnit result.workUnitId = some unit) :
    CaughtUp ∅ ∅ (finalizeUnit agentId now unit result db) := by
  have hins : CaughtUp {unit.jobId} ∅ (Sql.insertResult (resultRowParams result agentId now) db) :=
    { h.mono (empty_subset _) with }
  have hdone : CaughtUp {unit.jobId} {result.workUnitId} (withResult agentId now result db) :=
    hins.updateUnits (empty_subset _) (fun _ => rfl) fun u w hw hp _ =>
      (workUnit_id hw).symm.trans (of_decide_eq_true hp)
  have hown : ∀ w, (withResult agentId now result db).workUnit result.workUnitId = some w →
      w.jobId = unit.jobId := by
    intro w hw
    rw [withResult, Sql.markUnitDone, workUnit_update (by intro _; rfl), Option.map_eq_some_iff] at hw
    obtain ⟨w', hw', rfl⟩ := hw
    obtain rfl : unit = w' := Option.mem_unique hunit hw'
    split <;> rfl
  exact (hdone.mark rfl _ _ (by simp) rfl hown).recompute (by simp)

theorem CaughtUp.requeue (h : CaughtUp ∅ ∅ db) (hwf : Wf db) (cfg : Config)
    (selector : UnitRow → Bool) (now : ℤ) : CaughtUp ∅ ∅ (requeue cfg selector now db).1 := by
  unfold Queue.requeue
  have hp : CaughtUp ∅ ∅ (Sql.requeueToPending selector cfg.maxAttempts db).1 :=
    h.updateUnits (Set.Subset.refl _) (fun _ => rfl) nofun
  have hwfp : Wf (Sql.requeueToPending selector cfg.maxAttempts db).1 := hwf.requeueTo .pending _
  have hd : CaughtUp ∅ {u | u ∈ (requeueRows cfg selector db).2.map (·.workUnitId)}
      (requeueRows cfg selector db).1 := by
    refine hp.updateUnits (empty_subset _) (fun _ => rfl) fun u w hw hs _ => ?_
    exact mem_map.2 ⟨w, mem_filter.2 ⟨mem_of_get hw, hs⟩, workUnit_id hw⟩
  refine .recomputes _ (.markDeads _ (hd.mono (empty_subset _)) ?_ ?_)
  · intro w hw
    refine mem_dedup.2 (mem_map.2 ⟨requeueTransition .dead now w, ?_, rfl⟩)
    exact mem_mergeSort.2 (mem_append_right _ (mem_map_of_mem hw))
  · intro w hw w' hw'
    have hrow := hwfp.workUnit_of_mem (mem_filter.1 hw).1
    rw [Sql.requeueToDead, workUnit_requeueTo, hrow, Option.map_some] at hw'
    cases hw'
    split <;> rfl

/-- With every outcome in, the snapshot finds nothing to record. -/
theorem CaughtUp.snapshot (h : CaughtUp D ∅ db) (hwf : Wf db) (u : String) :
    Sql.snapshotTerminalOwner u db = db := by
  rcases snapshot_eq hwf u with ⟨w, hw, ht, he⟩ | ⟨_, he⟩
  · rw [he]
    have hsame : Table.update (fun m => m.key = (w.jobId, u))
        (Sql.recordOutcome (Sql.ownerMembership db w (some w.state))) db.jobUnitMemberships
        = db.jobUnitMemberships := by
      conv_rhs => rw [← map_id db.jobUnitMemberships]
      refine map_congr_left fun m hm => ?_
      split
      · next hp =>
        have hget : db.member w.jobId u = some m :=
          (get_eq_some hwf.memberKeys).2 ⟨hm, of_decide_eq_true hp⟩
        have hsome := h.closed u w m hw ht (notMem_empty u) hget
        rw [Sql.recordOutcome, if_neg (Option.isSome_iff_ne_none.1 hsome)]
        rfl
      · rfl
    rw [hsame]
  · exact he

theorem CaughtUp.attach (h : CaughtUp D ∅ db)
    (hkey : m.key = (row.jobId, row.workUnitId)) (hD : row.jobId ∈ D)
    (hfresh : db.member row.jobId row.workUnitId = none)
    (hrest : Sql.isTerminal row.state = true → m.terminalState.isSome)
    (hterm : ∀ st, m.terminalState = some st → Sql.isTerminal st = true) :
    CaughtUp D ∅ (handed row m db) := by
  refine ⟨fun m' hm' => ?_, fun u w m' hw ht hu hm' => ?_, fun j r hr hj hne hall => ?_⟩
  · rcases mem_append.1 hm' with hm' | hm'
    · exact h.terminal m' hm'
    · rw [mem_singleton.1 hm']
      exact hterm
  · rcases handed_cases hkey hfresh hw hm' with ⟨rfl, rfl⟩ | ⟨hw, hm'⟩
    · exact hrest ht
    · exact h.closed u w m' hw ht hu hm'
  · have hmj : m.jobId ≠ j := fun he => hj (he ▸ (Prod.mk.inj hkey).1 ▸ hD)
    rw [jobMembers_handed hmj] at hne hall
    exact h.tally j r hr hj hne hall

end

/-! ### Submission -/

/-- One turn of the loop: the unit goes to the new job, with the result it may already have. -/
theorem CaughtUp.submitUnit (hc : CaughtUp {jobId} ∅ db) (hs : Sourced G db) (hwf : Wf db)
    (hfresh : db.member jobId u.workUnitId = none)
    (hded : ∀ ref, deduped.lookup u.workUnitId = some ref → G u.workUnitId ref) :
    CaughtUp {jobId} ∅ (submitUnit jobId now deduped db u) ∧
      Sourced G (submitUnit jobId now deduped db u) := by
  have hattach : ∀ db₂ : Db, CaughtUp {jobId} ∅ db₂ → Sourced G db₂ →
      db₂.member jobId u.workUnitId = none →
      CaughtUp {jobId} ∅ (handed (submittedUnit jobId now (deduped.lookup u.workUnitId).isSome u)
        (submittedMembership jobId (deduped.lookup u.workUnitId) u) db₂) ∧
      Sourced G (handed (submittedUnit jobId now (deduped.lookup u.workUnitId).isSome u)
        (submittedMembership jobId (deduped.lookup u.workUnitId) u) db₂) := by
    intro db₂ hc₂ hs₂ hfresh₂
    cases hr : deduped.lookup u.workUnitId with
    | none =>
      refine ⟨hc₂.attach rfl rfl hfresh₂ (fun ht => ?_) (fun st hst => ?_),
        hs₂.attach rfl rfl hfresh₂ fun hsucc => ?_⟩
      · cases ht
      · cases hst
      · cases hsucc
    | some ref =>
      refine ⟨hc₂.attach rfl rfl hfresh₂ (fun _ => rfl) (fun st hst => ?_),
        hs₂.attach rfl rfl hfresh₂ fun _ => ⟨rfl, ref, rfl, hded ref hr⟩⟩
      cases hst
      rfl
  simp only [Queue.submitUnit, hc.snapshot hwf]
  split
  · exact hattach db hc hs hfresh
  · refine hattach (resetUnit u.workUnitId db) { hc with } ?_ hfresh
    exact { hs with bound := fun b hb => hs.bound b (mem_filter.1 hb).1 }

theorem CaughtUp.submitUnits (hc : CaughtUp {jobId} ∅ db)
    (hs : Sourced G db) (hl : SubmitLoop jobId units db)
    (hded : ∀ u ∈ units, ∀ ref, deduped.lookup u.workUnitId = some ref → G u.workUnitId ref) :
    CaughtUp {jobId} ∅ (units.foldl (Queue.submitUnit jobId now deduped) db) ∧
      Sourced G (units.foldl (Queue.submitUnit jobId now deduped) db) := by
  induction units generalizing db with
  | nil => exact ⟨hc, hs⟩
  | cons u us ih =>
    obtain ⟨hc', hs'⟩ := hc.submitUnit hs hl.wf (hl.fresh u mem_cons_self) (hded u mem_cons_self)
    exact ih hc' hs' hl.next fun v hv => hded v (mem_cons_of_mem _ hv)

/-- INVARIANT: the two together, between calls. -/
structure RosterOk (G : String → String → Prop) (db : Db) : Prop where
  sourced : Sourced G db
  caughtUp : CaughtUp ∅ ∅ db

theorem rosterOk_empty : RosterOk G {} := by
  refine ⟨⟨nofun, nofun, fun u w m hw => ?_⟩, nofun, fun u w m hw => ?_, fun j r hr => ?_⟩
  · cases hw
  · cases hw
  · cases hr

/-- More jobs, none of them with members. -/
theorem RosterOk.withJob (h : RosterOk G db) (hwf : Wf db) (jobId : String) (job : JobSubmit)
    (now : ℤ) : RosterOk G (withJob jobId job now db) := by
  refine ⟨{ h.sourced with }, { h.caughtUp with tally := fun j r hr hj hne hall => ?_ }⟩
  rw [Queue.withJob, Db.job, get_append] at hr
  obtain ⟨m, hm⟩ := exists_mem_of_ne_nil _ hne
  obtain ⟨hmem, hmj⟩ := mem_filter.1 hm
  have hmj : m.jobId = j := of_decide_eq_true hmj
  have hjob := hwf.memberJob m.jobId m.workUnitId
    (Option.isSome_of_eq_some (get_of_mem hwf.memberKeys hmem))
  obtain ⟨r', hr'⟩ := Option.isSome_iff_exists.1 hjob
  rw [hmj] at hr'
  rw [show Table.get JobRow.jobId db.jobs j = some r' from hr', Option.some_or] at hr
  cases hr
  exact h.caughtUp.tally j r hr' hj hne hall

theorem RosterOk.submitted (h : RosterOk G db) (hwf : Wf db) (job : JobSubmit)
    (now : ℤ) (specs : List WorkUnitSpec) (hfresh : db.job jobId = none) :
    RosterOk G (submitted jobId job now (uniqueUnits [] specs) db) := by
  have hjob := h.withJob hwf jobId job now
  have hded : ∀ u ∈ uniqueUnits [] specs, ∀ ref, (Sql.selectSucceededResults
      ((uniqueUnits [] specs).map (·.workUnitId)) db).lookup u.workUnitId = some ref →
      G u.workUnitId ref := by
    intro u hu ref href
    rw [lookup_selectSucceededResults hwf (mem_map_of_mem hu)] at href
    obtain ⟨r, hr, -, hb, hrr⟩ := selectCompletedResultRef_eq_some.1 href
    obtain ⟨ref', hr', hg⟩ := h.sourced.of_hasBinding hb
    rw [hrr] at hr'
    cases hr'
    rwa [result_id hr] at hg
  obtain ⟨hc, hs⟩ := (hjob.caughtUp.mono (empty_subset _)).submitUnits hjob.sourced
    (submitLoop_start hwf job now specs hfresh) hded
  exact ⟨{ hs with }, hc.recompute (by simp)⟩

/-! ### Runs -/

theorem Effect.roster (he : Effect cfg db op db') (hwf : Wf db)
    (h : RosterOk G db) (hG : ∀ agentId u attempt digest ref now,
      op = .bindResultPayload agentId u attempt digest ref now → G u ref) : RosterOk G db' := by
  cases he with
  | submit fresh _ => exact h.submitted hwf _ _ _ fresh
  | @claim agentId modelIds now tie w _ _ =>
    have hclaim : RosterOk G (Sql.claimUnit agentId
        (leaseExpiry now w.estDurationS cfg.defaultLeaseS) w.workUnitId db) :=
      ⟨h.sourced.updateUnits (fun _ => rfl) (fun _ => rfl) fun _ => rfl,
        h.caughtUp.updateUnits (Set.Subset.refl _) (fun _ => rfl) nofun⟩
    exact ⟨{ hclaim.sourced with }, hclaim.caughtUp.recompute (empty_subset _)⟩
  | extend =>
    refine ⟨h.sourced.updateUnits (fun _ => rfl) (fun _ => rfl) fun _ => rfl,
      h.caughtUp.updateUnits (Set.Subset.refl _) (fun _ => rfl) fun u w _ hp ht => ?_⟩
    rw [show w.state = .leased from (of_decide_eq_true hp).1] at ht
    cases ht
  | backup _ _ _ _ | finalize _ => exact ⟨{ h.sourced with }, { h.caughtUp with }⟩
  | bind _ _ =>
    exact ⟨{ h.sourced with
      bound := forall_mem_concat.2 ⟨h.sourced.bound, hG _ _ _ _ _ _ rfl⟩ }, { h.caughtUp with }⟩
  | bindAgain => exact h
  | complete row _ _ bound => exact ⟨h.sourced.finalizeUnit bound, h.caughtUp.finalizeUnit row⟩
  | requeueExpired | requeueAgent => exact ⟨h.sourced.requeue .., h.caughtUp.requeue hwf ..⟩

end Fallow.Queue

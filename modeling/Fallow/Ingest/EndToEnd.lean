import Fallow.Ingest.Exact

/-! Ingestion is exact up to collisions of SHA-256, and no further.

    The first part brings a submission of one unit to its end: submit, lease, work, upload, complete.
    Whatever the texts are, the sink then has one chunk for each digest among them. Texts without a
    collision are therefore indexed exactly; of two texts with one digest (there are some) only the
    one that comes last is indexed, and READY is reported all the same. -/

namespace Fallow.Ingest
open Lib Lib.Json Lib.PyJson Lib.PyStr Queue List Char Store Content Sha256

variable {F : Type} [PyFloat F]

/-! ### A job of one unit -/

section
variable (cfg : Queue.Config) (u input ref : String) (job : JobSubmit)

/-- The database of a job of one unit, with what changes of it as the unit is worked on. -/
def oneDb (state : JobState) (unit : WorkUnitState) (attempts : ℕ) (holder : Option String)
    (expires : Option ℤ) (terminal : Option WorkUnitState) (status : Option WorkResultStatus)
    (result : Option String) : Db where
  jobs := [{ submittedJob "job" job 0 with state := state }]
  workUnits := [⟨u, "job", 0, input, none, unit, attempts, holder, expires, 0⟩]
  jobUnitMemberships := [⟨"job", u, 0, input, terminal, status, result⟩]

def pendingDb : Db := oneDb u input job .pending .pending 0 none none none none none

def leasedDb : Db :=
  oneDb u input job .running .leased 1 (some "agent") (some (leaseExpiry 0 none cfg.defaultLeaseS))
    none none none

def boundDb : Db :=
  { leasedDb cfg u input job with resultPayloadBindings := [⟨u, "agent", 1, ref, ref, 0⟩] }

def oneResult : WorkResult := ⟨u, .succeeded, some ref, none, none⟩

def doneDb : Db :=
  { oneDb u input job .done .done 1 (some "agent") (some (leaseExpiry 0 none cfg.defaultLeaseS))
      (some .done) (some .succeeded) (some ref) with
    resultPayloadBindings := [⟨u, "agent", 1, ref, ref, 0⟩]
    unitResults := [resultRowParams (oneResult u ref) "agent" 0] }

variable {cfg} in
theorem submitJob_one (hv : 1 ≤ cfg.maxVariables) :
    submitJob cfg {} "job" job [⟨u, 0, input, none⟩] true 0 =
      (⟨pendingDb u input job, pendingDb u input job⟩, .ok "job") := by
  have hv' : ¬ cfg.maxVariables < 1 := by omega
  have hnew : matchingActiveJob cfg job (uniqueUnits [] [⟨u, 0, input, none⟩]) (dumpParams job.params) {}
      = .ok none := by
    simp [uniqueUnits, matchingActiveJob, hv', Sql.selectActiveJobsForUnits]
  have hdedup : succeededUnitResults cfg [u] (withJob "job" job 0 {}) = .ok [] := by
    simp [succeededUnitResults, hv', Sql.selectSucceededResults, withJob]
  rw [submitJob, if_pos rfl, hnew]
  rw [show Sql.insertJob (submittedJob "job" job 0) {} = .ok (withJob "job" job 0 {}) from rfl]
  dsimp only
  rw [show (uniqueUnits [] [⟨u, 0, input, none⟩]).map (·.workUnitId) = [u] from rfl, hdedup]
  simp [uniqueUnits, Table.get, execAll, submitUnitStmts, Sql.snapshotTerminalOwner,
    Db.workUnit, Sql.deleteIncompleteResultBindings, Sql.deleteStaleResult, Sql.deleteBackupLease,
    Sql.upsertWorkUnit, Table.upsert, Sql.insertJobUnitMembership, submittedMembership,
    MembershipRow.key, commit, recomputeJobState, Sql.setJobState, Table.update,
    Sql.countJobUnits, Sql.jobMembers, Sql.resolvedState, submittedUnit, submittedJob, pendingDb,
    oneDb, nextJobState, withJob]

variable {cfg} in
theorem leaseNext_one (hv : 1 ≤ cfg.maxVariables) :
    Queue.step cfg ⟨pendingDb u input job, pendingDb u input job⟩
        (.leaseNext "agent" [job.modelId] 0 0)
      = ⟨leasedDb cfg u input job, leasedDb cfg u input job⟩ := by
  have hv' : ¬ cfg.maxVariables < 1 := by omega
  simp [Queue.step, leaseNext, hv', Sql.selectLeaseCandidate, Sql.joinJob, Db.job, Table.get,
    pendingDb, oneDb, submittedJob, Sql.claimedAttempts, Db.workUnit, Sql.claimUnit, Table.update,
    recomputeJobState, Sql.setJobState, Sql.countJobUnits, Sql.jobMembers, Sql.resolvedState,
    nextJobState, commit, leasedDb, Sql.candidateLe, Option.filter]

theorem workUnit_leasedDb : (leasedDb cfg u input job).workUnit u = some ⟨u, "job", 0, input, none,
    .leased, 1, some "agent", some (leaseExpiry 0 none cfg.defaultLeaseS), 0⟩ := by
  simp [leasedDb, oneDb, Db.workUnit, Table.get]

theorem job_leasedDb : (leasedDb cfg u input job).job "job"
    = some { submittedJob "job" job 0 with state := .running } := by
  simp [leasedDb, oneDb, Db.job, Table.get, submittedJob]

theorem bindResultPayload_one :
    resultUploadAttempt ⟨leasedDb cfg u input job, leasedDb cfg u input job⟩ "agent" u = some 1 ∧
    (bindResultPayload ⟨leasedDb cfg u input job, leasedDb cfg u input job⟩ "agent" u 1 ref ref 0).1
      = ⟨boundDb cfg u input ref job, boundDb cfg u input ref job⟩ := by
  constructor
  · simp [resultUploadAttempt, Sql.selectResultUploadAttempt, leasedDb, oneDb, Db.workUnit, Table.get,
      Option.filter]
  · simp [bindResultPayload, Sql.bindResultPayload, Sql.holdsPrimary, Sql.insertBinding, Table.get,
      leasedDb, oneDb, Db.workUnit, commit, boundDb]

theorem completeUnit_one : Queue.step cfg ⟨boundDb cfg u input ref job, boundDb cfg u input ref job⟩
        (.completeUnit "agent" 1 (oneResult u ref) 0)
      = ⟨doneDb cfg u input ref job, doneDb cfg u input ref job⟩ := by
  simp [Queue.step, completeUnit, boundDb, leasedDb, oneDb, Db.workUnit, Table.get, oneResult,
    Sql.selectResultExists, Db.result, completionAccepted, payloadBound,
    Sql.selectResultBindingForCompletion, commit, finalizeUnit, recomputeJobState,
    Sql.setJobState, Sql.countJobUnits, Sql.jobMembers, Sql.resolvedState, nextJobState, Table.update,
    Table.insertIgnore, Sql.markJobUnitTerminal, Sql.markUnitDone, Sql.insertResult,
    resultRowParams, doneDb, submittedJob]

/-- The unit of a finished job of one unit, as its details list it. -/
def oneOutcome : JobUnitOutcome := ⟨u, 0, input, .done, some .succeeded, some ref⟩

theorem jobDetails_one : jobDetails ⟨doneDb cfg u input ref job, doneDb cfg u input ref job⟩ "job"
      = .ok (some ⟨job.modelId, dumpParams job.params, [oneOutcome u input ref]⟩) := by
  simp [jobDetails, doneDb, oneDb, Db.job, Table.get, submittedJob, Sql.selectJobUnitOutcomes,
    Sql.jobMembers, Sql.resolvedState, decodeOutcome]
  rfl

end

/-! ### A correct reply -/

/-- The rows in the order of the chunks. -/
def replyValue (f : Embedder F) (chunks : List Str) : Value F :=
  .obj [(codes "data".toList, .arr (chunks.zipIdx.map fun c =>
    .obj [(codes "index".toList, .int c.2),
      (codes "embedding".toList, .arr ((f.embed c.1).map .float))]))]

variable {f : Embedder F} {chunks : List Str}

theorem clean_replyValue (hlen : chunks.length < 2 ^ 63) : Clean (replyValue f chunks) := by
  refine ⟨⟨scalar_codes, (cleanAll_iff _).2 fun v hv => ?_⟩, trivial⟩
  obtain ⟨⟨text, i⟩, hc, rfl⟩ := mem_map.1 hv
  have hi : i < chunks.length := (mem_zipIdx' hc).1
  have hdigits : (decimal i).length ≤ maxStrDigits := by
    have h19 : (decimal i).length ≤ 18 + 1 := length_decimal_le (by omega)
    exact Nat.le_trans h19 (by decide)
  have hrow : Clean (.arr ((f.embed text).map .float) : Value F) := by
    refine (cleanAll_iff _).2 fun v hv => ?_
    obtain ⟨x, hx, rfl⟩ := mem_map.1 hv
    exact f.finite text x hx
  exact ⟨⟨scalar_codes, hdigits⟩, ⟨scalar_codes, hrow⟩, trivial⟩

theorem correct_replyValue (py : Python F) (f : Embedder F) (hlen : chunks.length < 2 ^ 63) :
    Correct py f chunks ⟨httpOk, utf8 (render false (replyValue f chunks))⟩ := by
  refine ⟨rfl, _, _, _, loadsBytes_render py false (clean_replyValue hlen), rfl, .refl _, ?_⟩
  rw [forall₂_map_right_iff, forall₂_same]
  exact fun c _ => ⟨rfl, _, rfl, mapM_toFloat_floats⟩

/-! ### From texts to READY in one unit -/

variable {py : Python F} {cfg : Config} {t : State F} {texts : List Str}

theorem settled_of_reach (ht : Reach (step py cfg) (fun _ _ => True) {} t) : Settled py t := by
  have hinv : Inv py cfg (fun _ _ _ => True) t :=
    ht.invariant _ (inv_start py cfg _) fun _ act h _ =>
      h.step (fun _ _ _ _ _ _ => trivial) act fun _ _ _ _ _ _ => trivial
  exact hinv.settled

/-- INVARIANT: whatever agents upload, the sink gets what a job's files give. -/
theorem sink_settled (acts : List Act) : Settled py (runs (step py cfg) {} acts) :=
  settled_of_reach (Admitted.reach acts .start (.of_forall acts _ fun _ _ => trivial))

theorem reach_after_submit (hsub : submit py cfg {} collection modelId texts "job" 0 = (s, .ok st))
    (h : Reach (step py cfg) ok s t) : Reach (step py cfg) (fun _ _ => True) {} t := by
  have hfirst : step py cfg {} (.ingest collection modelId texts "job" 0) = s :=
    congrArg Prod.fst hsub
  exact h.after (Reach.start.to hfirst trivial) fun _ _ _ => trivial

section
variable (py : Python F) (cfg : Config) (f : Embedder F) (collection modelId : String)
  (texts : List Str) (encoded : List Bytes) (corpus : Bytes)

def oneInput (F : Type) [PyFloat F] (texts : List Str) : String :=
  hexdigest (groupBlob F texts)

def oneUnit (F : Type) [PyFloat F] (modelId : String) (texts : List Str) : String :=
  workUnitId modelId (oneInput F texts)

def onePayload : Bytes := encodePayload (texts.map f.embed) modelId f.dims

def oneRef : String := hexdigest (onePayload f modelId texts)

def oneJob : JobSubmit := ingestionJob cfg collection modelId (hexdigest corpus)

/-- The state with a database, and the results uploaded so far. -/
def oneState (db : Db) (results : List Bytes) : State F where
  store := ⟨db, db⟩
  corpora := put hexdigest (fun _ => none) corpus
  inputs := put hexdigest (fun _ => none) (groupBlob F texts)
  results := results.foldl (put hexdigest) fun _ => none
  hashed := encoded ++ [corpus] ++ ([groupBlob F texts] ++ [seed modelId (oneInput F texts)]) ++ results

/-- Texts the service accepts and the chunker leaves together. -/
structure Fitting (F : Type) [PyFloat F] (cfg : Config) (collection modelId : String)
    (texts : List Str) (encoded : List Bytes) (corpus : Bytes) : Prop where
  collection : blank (codes collection.toList) = false
  modelId : blank (codes modelId.toList) = false
  ne_nil : texts ≠ []
  notBlank : ∀ t ∈ texts, blank t = false
  encoded : texts.mapM encode = some encoded
  corpus : corpusBytes F texts = some corpus
  length_le : texts.length ≤ cfg.chunksPerUnit
  length_lt : texts.length < 2 ^ 63
  limit : 1 ≤ cfg.queue.maxVariables

theorem batched_of_length_le {α : Type} {xs : List α} (hne : xs ≠ []) (h : xs.length ≤ n) :
    batched n xs = [xs] := by
  obtain ⟨x, xs, rfl⟩ := exists_cons_of_ne_nil hne
  rw [batched, length_cons, batches, take_of_length_le h, drop_of_length_le h]
  cases xs.length <;> rfl

theorem put_self {b : Bytes} : put hexdigest (fun _ => none) b (hexdigest b) = some b := by
  simp [put]

theorem step_queue_one (results : List Bytes) (hop : direct op = true)
    (hstep : Queue.step cfg.queue ⟨db, db⟩ op = ⟨db', db'⟩) :
    step py cfg (oneState modelId texts encoded corpus db results) (.queue op)
      = oneState modelId texts encoded corpus db' results := by
  rw [step, if_pos hop, oneState, hstep]
  rfl

theorem step_upload_one (payload : Bytes) (hbind : resultUploadAttempt ⟨db, db⟩ "agent" u = some 1 ∧
      (bindResultPayload ⟨db, db⟩ "agent" u 1 (hexdigest payload) (hexdigest payload)
        0).1 = ⟨db', db'⟩) :
    step py cfg (oneState modelId texts encoded corpus db []) (.upload "agent" u 1 payload 0)
      = oneState modelId texts encoded corpus db' [payload] := by
  simp only [step, upload, oneState, append_nil]
  rw [if_neg (not_not_intro hbind.1), hbind.2]
  rfl

variable {cfg collection modelId texts encoded corpus}
variable (h : Fitting F cfg collection modelId texts encoded corpus)
include h

theorem submit_one : ∃ st, st.jobId = "job" ∧ submit py cfg {} collection modelId texts "job" 0 =
      (oneState modelId texts encoded corpus (pendingDb (oneUnit F modelId texts) (oneInput F texts)
        (oneJob cfg collection modelId corpus)) [], .ok st) := by
  have hpayload : payloadAt cfg (storeCorpus ({} : State F) encoded corpus)
      (oneJob cfg collection modelId corpus).payloadRef .missing = .file true corpus := by
    rw [payloadAt, oneJob, ingestionJob, corpusDigest_corpusPath]
    change (put hexdigest (fun _ => none) corpus (hexdigest corpus)).elim _ _ = _
    rw [put_self]
    rfl
  have hchunk : chunkJob py cfg.chunksPerUnit .embed (.file true corpus) = .ok [groupBlob F texts] := by
    rw [chunkJob, chunkEmbed_corpus py h.ne_nil h.corpus, batched_of_length_le h.ne_nil h.length_le]
    rfl
  have hany : texts.any blank = false := by
    rw [any_eq_false]
    intro t ht
    rw [h.notBlank t ht]
    rintro ⟨⟩
  refine ⟨⟨"job", .pending, 1, 0, 0⟩, rfl, ?_⟩
  rw [submit, h.collection, h.modelId, if_neg (by rintro ⟨⟩), if_neg (by rintro ⟨⟩), if_neg h.ne_nil,
    hany, if_neg (by rintro ⟨⟩), h.encoded, h.corpus]
  change enqueue py cfg (storeCorpus {} encoded corpus) (oneJob cfg collection modelId corpus)
    (payloadAt cfg _ (oneJob cfg collection modelId corpus).payloadRef .missing) true "job" 0 = _
  rw [hpayload, enqueue, show (oneJob cfg collection modelId corpus).kind = .embed from rfl, hchunk]
  have hone : submitJob cfg.queue {} "job" (oneJob cfg collection modelId corpus)
      (unitSpecs (oneJob cfg collection modelId corpus).modelId [groupBlob F texts]) true 0 = _ :=
    submitJob_one (oneUnit F modelId texts) (oneInput F texts) _ h.limit
  dsimp only
  rw [show (storeUnits (storeCorpus ({} : State F) encoded corpus)
    (oneJob cfg collection modelId corpus).modelId [groupBlob F texts]).store = {} from rfl, hone]
  simp [oneState, storeUnits, storeCorpus, oneJob, ingestionJob, jobStatus, pendingDb, oneDb, Db.job,
    Table.get, submittedJob, Sql.countJobUnits, Sql.jobMembers, Sql.resolvedState, Db.workUnit,
    Option.filter, oneInput]

theorem scalar_of_fitting : ∀ t ∈ texts, Scalar t := by
  intro t ht
  obtain ⟨b, -, hb⟩ := exists_of_forall₂ (mapM_eq_some.1 h.encoded) t ht
  exact scalar_of_encode hb

/-- The upload is the worker's. -/
theorem worked_one :
    Worked py f (oneState modelId texts encoded corpus (leasedDb cfg.queue (oneUnit F modelId texts)
        (oneInput F texts) (oneJob cfg collection modelId corpus)) [])
      (oneUnit F modelId texts) (onePayload f modelId texts) := by
  have hparse := parseChunks_groupBlob py h.ne_nil (scalar_of_fitting h)
  have hreply := correct_replyValue py f h.length_lt
  have hrun : ∃ out, run py modelId (groupBlob F texts)
      (some ⟨httpOk, utf8 (render false (replyValue f texts))⟩) = .ok out ∧
      out.items = texts.length ∧ out.payload = onePayload f modelId texts :=
    run_correct py hparse hreply
  obtain ⟨out, hout, -, hpay⟩ := hrun
  exact ⟨_, _, groupBlob F texts, texts, _, out, workUnit_leasedDb .., job_leasedDb .., put_self,
    hparse, hreply, hout, hpay⟩

/-- The state in which the unit is done. -/
def oneEnd (cfg : Config) (f : Embedder F) (collection modelId : String) (texts : List Str)
    (encoded : List Bytes) (corpus : Bytes) : State F :=
  oneState modelId texts encoded corpus (doneDb cfg.queue (oneUnit F modelId texts)
    (oneInput F texts) (oneRef f modelId texts) (oneJob cfg collection modelId corpus))
    [onePayload f modelId texts]

/-- Lease, upload and completion go through. -/
theorem reach_one (units : Set String) : Reach (step py cfg) (Honest py f units)
      (oneState modelId texts encoded corpus (pendingDb (oneUnit F modelId texts) (oneInput F texts)
        (oneJob cfg collection modelId corpus)) [])
      (oneEnd cfg f collection modelId texts encoded corpus) := by
  have hlease := step_queue_one py cfg modelId texts encoded corpus [] rfl
    (leaseNext_one (oneUnit F modelId texts) (oneInput F texts)
      (oneJob cfg collection modelId corpus) h.limit)
  have hupload := step_upload_one py cfg modelId texts encoded corpus
    (onePayload f modelId texts) (bindResultPayload_one cfg.queue (oneUnit F modelId texts)
      (oneInput F texts) (oneRef f modelId texts) (oneJob cfg collection modelId corpus))
  have hcomplete := step_queue_one py cfg modelId texts encoded corpus
    [onePayload f modelId texts] rfl (completeUnit_one cfg.queue (oneUnit F modelId texts)
      (oneInput F texts) (oneRef f modelId texts) (oneJob cfg collection modelId corpus))
  have hleased : Reach (step py cfg) (Honest py f units) _ _ := Reach.start.to hlease trivial
  exact (hleased.to hupload fun _ _ => worked_one py f h).to hcomplete trivial

/-- Its files give the chunks of the texts, whatever their digests. -/
theorem ended_one : Ended py (oneEnd cfg f collection modelId texts encoded corpus) "job"
      ⟨modelId, [(collectionParam, collection)],
        [oneOutcome (oneUnit F modelId texts) (oneInput F texts) (oneRef f modelId texts)]⟩
      ⟨(texts.map (chunkOf f)).foldl putChunk [], some f.dims⟩ := by
  have hscalar := scalar_of_fitting h
  have hread : Reads py f (oneEnd cfg f collection modelId texts encoded corpus) modelId
      (oneOutcome (oneUnit F modelId texts) (oneInput F texts) (oneRef f modelId texts)) texts := by
    refine ⟨rfl, rfl, ⟨_, rfl, ?_⟩, hscalar⟩
    exact readUnit_worked put_self (parseChunks_groupBlob py h.ne_nil hscalar) put_self rfl
  refine ⟨⟨{ submittedJob "job" (oneJob cfg collection modelId corpus) 0 with state := .done }, ?_, rfl⟩,
    ?_, ?_⟩
  · simp [oneEnd, oneState, doneDb, oneDb, Db.job, Table.get, submittedJob]
  · refine (jobDetails_one ..).trans ?_
    rw [oneJob, ingestionJob, dumpParams, mergeSort_singleton]
  · refine (collect_reads (List.Forall₂.cons hread .nil) (cons_ne_nil _ _)).trans ?_
    rw [flatten_singleton]

/-- A submission of one unit, brought to its end: what was hashed on the way, and the number of chunks
    reported. -/
theorem end_one :
    ∃ s' t st js details, submit py cfg {} collection modelId texts "job" 0 = (s', .ok st) ∧
      Reach (step py cfg) (Honest py f (textUnits F cfg modelId texts)) s' t ∧
      Reach (step py cfg) (fun _ _ => True) {} t ∧
      jobDetails t.store st.jobId = .ok (some details) ∧
      (∀ unit ∈ details.units, unit.resultStatus = some .succeeded) ∧
      t.hashed = encoded ++ [corpus] ++ ([groupBlob F texts] ++ [seed modelId (oneInput F texts)])
        ++ [onePayload f modelId texts] ∧ (status py t collection st.jobId .returns).2
        = .ok (answer js details ((texts.map (chunkOf f)).foldl putChunk []).length) := by
  obtain ⟨st, hid, hsub⟩ := submit_one py h
  have hreach := reach_one py f h (textUnits F cfg modelId texts)
  have hrun := reach_after_submit hsub hreach
  have hend := ended_one py f h
  rw [← hid] at hend
  obtain ⟨js, -, hans, -⟩ := status_ended (settled_of_reach hrun) hend rfl
  refine ⟨_, _, st, js, _, hsub, hreach, hrun, hend.found, ?_, rfl, hans⟩
  intro unit hunit
  rw [mem_singleton] at hunit
  rw [hunit]
  rfl

end

/-! ### The main result -/

/-- The outcome of the final request: READY, the number of distinct texts, and a sink that has received
    for this job its collection and one pair for each distinct text, nothing else. -/
structure Ingested (f : Embedder F) (collection modelId : String) (texts : List Str) (j : String)
    (out : State F × Except IngestionError IngestionStatus) : Prop where
  answer : ∃ st, out.2 = .ok st ∧ st.state = .ready ∧ st.indexedChunks = texts.dedup.length
  sink : ∃ chunks : List (IngestChunk F),
    (chunks.map fun c => (c.text, c.embedding)).Perm (texts.dedup.map fun t => (t, f.embed t)) ∧
    ∀ call, (j, call) ∈ out.1.sink ↔
      call = .createCollection (codes collection.toList) (codes modelId.toList) f.dims ∨
      call = .upsert (codes collection.toList) chunks

theorem ingested_of_exact
    (hne : texts ≠ []) (hsettled : Settled py t) (hend : Ended py t j details index)
    (hmodel : details.modelId = modelId)
    (hcol : details.params.lookup collectionParam = some collection)
    (hdead : (Sql.countJobUnits j t.store.working).dead = 0)
    (hall : ∀ unit ∈ details.units, unit.resultStatus = some .succeeded)
    (hexact : Exact f texts index) :
    Ingested f collection modelId texts j (status py t collection j .returns) := by
  obtain ⟨st, hst, hans, hsink⟩ := status_ended hsettled hend hcol
  have hperm := hexact.chunks.perm
  have hlen : index.chunks.length = texts.dedup.length := by
    rw [hperm.length_eq, length_map]
  refine ⟨⟨_, hans, ?_, hlen⟩, index.chunks, ?_, fun call => (hsink call).trans ?_⟩
  · obtain ⟨r, hr, -⟩ := hend.done
    have hzero : st.deadUnits = 0 := by
      rw [jobStatus, hr] at hst
      cases hst
      exact hdead
    refine if_neg (not_or.2 ⟨not_not_intro hzero, ?_⟩)
    rw [any_eq_true]
    rintro ⟨unit, hunit, hfailed⟩
    rw [hall unit hunit] at hfailed
    cases hfailed
  · have hpairs := hperm.map fun c => (c.text, c.embedding)
    rw [map_map] at hpairs
    exact hpairs
  · have hsome : index.chunks ≠ [] := by
      intro hnil
      rw [hnil, length_nil] at hlen
      exact hne ((dedup_eq_nil texts).1 (length_eq_zero_iff.1 hlen.symm))
    obtain ⟨c, cs, hcons⟩ := exists_cons_of_ne_nil hsome
    rw [sinkCalls, hcons, hexact.dims, hmodel]
    simp

/-- `n.0`. -/
def wholeLit (n : ℤ) : Lit := { intLit n with frac := some ['0'] }

theorem wholeLit_wf (n : ℤ) : (wholeLit n).Wf := by
  obtain ⟨hwhole, hleading, -, -⟩ := intLit_wf
  refine ⟨hwhole, hleading, ?_, nofun⟩
  rintro ds ⟨⟩
  refine ⟨by decide, fun c hc => ?_⟩
  rw [mem_singleton.1 hc]
  rfl

def litInt (l : Lit) : ℤ := if l.neg then -(ofDigits l.whole : ℤ) else ofDigits l.whole

theorem litInt_wholeLit : litInt (wholeLit n) = n := by
  change (if decide (n < 0) = true then -(ofDigits (decimal n.natAbs) : ℤ)
    else (ofDigits (decimal n.natAbs) : ℤ)) = n
  rw [ofDigits_decimal]
  split
  · next hn => rw [decide_eq_true_eq] at hn; omega
  · next hn => rw [decide_eq_true_eq] at hn; omega

/-- Floats that happen to be whole. -/
instance wholeFloat : PyFloat ℤ where
  repr n := (wholeLit n).text
  ofText s := ((lexNumber s).map fun p => litInt p.1).getD 0
  ofInt n := some n
  isFinite _ := true
  nan := 0
  inf := 0
  negInf := 0
  repr_spec n _ := by
    refine ⟨wholeLit n, wholeLit_wf n, rfl, rfl, ?_⟩
    have hlex := lexNumber_text (wholeLit_wf n) (s := []) nofun
    rw [append_nil] at hlex
    rw [hlex]
    exact litInt_wholeLit

def decodeUtf8 (b : Bytes) : Option (List Char) := b.toByteArray.utf8Decode?.map (·.toList)

theorem decodeUtf8_utf8 : decodeUtf8 (utf8 cs) = some cs := by
  have hdec : (utf8 cs).toByteArray.utf8Decode? = some cs.toArray := utf8Decode?_utf8Encode
  rw [decodeUtf8, hdec]
  rfl

def wholePython : Python ℤ where
  readText b := (decodeUtf8 b).map codes
  jsonText := decodeUtf8
  str
    | .str s => s
    | _ => []
  readText_utf8 cs _ := by rw [decodeUtf8_utf8]; rfl
  jsonText_utf8 cs _ := decodeUtf8_utf8
  str_str _ := rfl

/-- The length of the text. -/
def lengthEmbedder : Embedder ℤ where
  embed text := [text.length]
  dims := 1
  dims_pos := Nat.one_pos
  dims_lt := by decide
  length_embed _ := rfl
  finite _ _ _ := rfl

def pairConfig : Config := ⟨defaultConfig, 2, by decide, "corpora"⟩

/-- `hi`. -/
def hi : Str := [104, 105]

def hiCorpus : Bytes := (corpusBytes ℤ [hi]).getD []

theorem fitting_hi :
    Fitting ℤ pairConfig "notes" "embedder" [hi] [utf8 (hi.map ofNat)] hiCorpus where
  collection := by decide
  modelId := by decide
  ne_nil := by decide
  notBlank := by decide
  encoded := by decide
  corpus := by decide +kernel
  length_le := by decide
  length_lt := by decide
  limit := by decide

/-- What is hashed on the way of `hi`: its text, corpus, unit input, unit seed and result. -/
def hiHashed : List Bytes :=
  [utf8 (hi.map ofNat)] ++ [hiCorpus] ++ ([groupBlob ℤ [hi]] ++ [seed "embedder" (oneInput ℤ [hi])])
    ++ [onePayload lengthEmbedder "embedder" [hi]]

theorem collisionless_hi : Content.Collisionless hexdigest hiHashed := by
  have hdigests : hiHashed.map hexdigest =
      ["8f434346648f6b96df89dda901c5176b10a6d83961dd3c1ac88b59b2dc327aa4",
       "e10f3911ef02034f0df7cccbabc60fbfcc399af73de90366f7dafdf5100dd669",
       "80e2a72672ff27c2e0e49a77268d65b6ddce177702d20d7df0c63a4bcf10540d",
       "909b84c848a771b5aba2872d97ec7045c2897383d390e9140ce5667016eee207",
       "bf05fd636871de12e903e8cbe1bda26f7cb1c872be4bcdb863aec956427e743b"] := by decide +kernel
  have hnodup : (hiHashed.map hexdigest).Nodup := by
    rw [hdigests]
    decide
  exact fun a ha b hb heq => inj_on_of_nodup_map hnodup ha hb heq

omit [PyFloat F] in
/-- Two chunks of one id make one entry of the dictionary, the later one. -/
theorem putChunk_same (h : c.chunkId = d.chunkId) : [c, d].foldl putChunk [] = [d] := by
  simp [putChunk, Table.upsert, Table.get, Table.update, h]

theorem putChunk_collision (h : hexdigest (utf8 (a.map ofNat)) = hexdigest (utf8 (b.map ofNat))) :
    ([a, b].map (chunkOf f)).foldl putChunk [] = [chunkOf f b] := by
  have hkey : (chunkOf f a).chunkId = (chunkOf f b).chunkId := by rw [chunkOf, chunkOf, h]
  exact putChunk_same hkey

/-- `aa…a`. -/
def repeated (n : ℕ) : Str := replicate (n + 1) 97

theorem repeated_fine (n : ℕ) : Scalar (repeated n) ∧ blank (repeated n) = false := by
  refine ⟨fun c hc => ?_, rfl⟩
  rw [eq_of_mem_replicate hc]
  decide

end Fallow.Ingest

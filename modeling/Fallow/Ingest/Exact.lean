import Fallow.Ingest.Readback

/-! Batch embedding ingestion, end to end.

    Texts go in by a submission; agents lease the units, run the worker on a replica's answer and
    upload; a status request indexes the results. As long as no two of the byte strings the
    coordinator names by digest share one, a job whose units all succeeded ends READY, with one
    pair (text, vector) in the sink for each distinct text.

        submit ─▶ units ─▶ worker, in any order, by any agents ─▶ results ─▶ READY, n distinct texts

    Other jobs, other corpora and other uploads may come in between, and results of earlier jobs are
    reused: only the uploads for the units in question have to be the worker's. -/

namespace Fallow.Ingest
open Lib Lib.PyJson Lib.PyStr Queue List Except Prod Sha256

variable {F : Type} [PyFloat F] {py : Python F} {cfg : Config} {f : Embedder F}

/-! ### Honest uploads -/

/-- The worker, run on the unit's input and a correct reply for it, gives `payload`. -/
def Worked (py : Python F) (f : Embedder F) (s : State F) (u : String) (payload : Bytes) : Prop :=
  ∃ w r input chunks reply out, s.store.working.workUnit u = some w ∧
    s.store.working.job w.jobId = some r ∧ s.inputs w.inputRef = some input ∧
    parseChunks py input = .ok chunks ∧ Correct py f chunks reply ∧
    run py r.modelId input (some reply) = .ok out ∧ out.payload = payload

/-- What is accepted for the units of `units` is the worker's; anything else may happen. -/
def Honest (py : Python F) (f : Embedder F) (units : Set String) (s : State F) : Act → Prop
  | .upload agentId u attempt content _ =>
    resultUploadAttempt s.store agentId u = some attempt → u ∈ units → Worked py f s u content
  | _ => True

/-- `payload` is what the worker makes of the input `u` is named after. -/
def Made (py : Python F) (f : Embedder F) (s : State F) (u : String) (payload : Bytes) : Prop :=
  ∃ modelId input chunks, u = workUnitId modelId (hexdigest input) ∧ input ∈ s.hashed ∧
    seed modelId (hexdigest input) ∈ s.hashed ∧ parseChunks py input = .ok chunks ∧
    payload = encodePayload (chunks.map f.embed) modelId f.dims

/-- What is known of a reference bound to a unit. -/
def Known (py : Python F) (f : Embedder F) (units : Set String) (s : State F) (u ref : String) :
    Prop :=
  ∃ payload ∈ s.hashed, ref = hexdigest payload ∧ (s.results ref).isSome ∧
    (u ∈ units → Made py f s u payload)

variable {s s' : State F} {units : Set String}

omit [PyFloat F] in
theorem Grows.isSome_results (h : Grows s s')
    (hr : (s.results ref).isSome) : (s'.results ref).isSome := by
  obtain ⟨b, hb⟩ := Option.isSome_iff_exists.1 hr
  rw [h.results _ b hb]
  rfl

theorem known_lasting : Lasting (Known py f units) := by
  rintro s s' hg u ref ⟨payload, hp, href, hsome, hmade⟩
  refine ⟨payload, hg.hashed hp, href, hg.isSome_results hsome, fun hu => ?_⟩
  obtain ⟨modelId, input, chunks, hid, hin, hseed, hrest⟩ := hmade hu
  exact ⟨modelId, input, chunks, hid, hg.hashed hin, hg.hashed hseed, hrest⟩

variable {G : State F → String → String → Prop}

variable {payload : Bytes}

/-- The unit's row, its owner's roster and the stored input agree on what the worker was given. -/
theorem Worked.made (h : Inv py cfg G s)
    (hw : Worked py f s u payload) : Made py f s u payload := by
  obtain ⟨w, r, input, chunks, reply, out, hrow, hjob, hin, hchunks, hcor, hrun, rfl⟩ := hw
  have hwf := h.roster.outcomes.wf.working
  obtain ⟨m, hm⟩ := Option.isSome_iff_exists.1 (hwf.owner u w hrow)
  obtain ⟨hmj, hmu⟩ : m.jobId = w.jobId ∧ m.workUnitId = u :=
    mk.inj (show m.key = (w.jobId, u) from Table.key_of_get hm)
  have href : m.inputRef = w.inputRef := h.roster.roster.sourced.input u w m hrow hm
  obtain ⟨blob, -, -, -, hid, hseed⟩ := h.rosters.listed m.shape
    (mem_map_of_mem (Table.mem_of_get hm)) r (by rw [MembershipRow.shape, hmj]; exact hjob)
  rw [MembershipRow.shape, href] at hid hseed
  obtain ⟨hname, hhash⟩ := h.files.inputs _ _ hin
  have hok : ∃ out', run py r.modelId input (some reply) = .ok out' ∧ out'.items = chunks.length ∧
      out'.payload = encodePayload (chunks.map f.embed) r.modelId f.dims :=
    run_correct py hchunks hcor
  obtain ⟨out', hrun', -, hpay⟩ := hok
  obtain rfl : out' = out := ok.inj (hrun'.symm.trans hrun)
  refine ⟨r.modelId, input, chunks, ?_, hhash, ?_, hchunks, hpay⟩
  · rw [← hname, ← hid, hmu]
  · rw [← hname]
    exact hseed

theorem Inv.honest (h : Inv py cfg (Known py f units) s)
    (hact : Honest py f units s act) : Inv py cfg (Known py f units) (Ingest.step py cfg s act) := by
  by_cases hup : ∃ agentId u attempt content now, act = .upload agentId u attempt content now ∧
      resultUploadAttempt s.store agentId u ≠ some attempt
  · obtain ⟨agentId, u, attempt, content, now, rfl, hne⟩ := hup
    rw [Ingest.step, Ingest.upload, if_pos hne]
    exact h
  · refine h.step known_lasting act ?_
    rintro agentId u attempt content now rfl
    have hacc : resultUploadAttempt s.store agentId u = some attempt :=
      not_not.1 fun hne => hup ⟨_, _, _, _, _, rfl, hne⟩
    have hg := grows_keepResult s content
    refine ⟨content, mem_append_right _ (mem_singleton.2 rfl), rfl,
      Content.isSome_put .., fun hu => ?_⟩
    obtain ⟨modelId, input, chunks, hid, hin, hseed, hrest⟩ := (hact hacc hu).made h
    exact ⟨modelId, input, chunks, hid, hg.hashed hin, hg.hashed hseed, hrest⟩

/-! ### Accepted submissions -/

/-- The units a submission of `texts` comes to. -/
def textSpecs (F : Type) [PyFloat F] (cfg : Config) (modelId : String) (texts : List Str) :
    List WorkUnitSpec :=
  unitSpecs modelId ((batched cfg.chunksPerUnit texts).map (groupBlob F))

def textUnits (F : Type) [PyFloat F] (cfg : Config) (modelId : String) (texts : List Str) :
    Set String :=
  { u | ∃ spec ∈ textSpecs F cfg modelId texts, spec.workUnitId = u }

/-- The files a submission leaves behind, and what it hashed. -/
structure Stored (py : Python F) (cfg : Config) (s : State F) (modelId : String) (texts : List Str)
    (payload : Bytes) : Prop where
  corpus : corpusBytes F texts = some payload
  encoded : ∀ t ∈ texts, Scalar t ∧ utf8 (t.map Char.ofNat) ∈ s.hashed
  hashed : payload ∈ s.hashed
  units : ∃ content blobs, s.corpora (hexdigest payload) = some content ∧
    chunkEmbed py cfg.chunksPerUnit (.file true content) = .ok blobs ∧
    ∀ b ∈ blobs, b ∈ s.hashed ∧ seed modelId (hexdigest b) ∈ s.hashed

/-- The job a submission returned, new or reused: it asks for what was submitted and has units. -/
structure Queued (store : Queue.Store) (job : JobSubmit) (j : String) : Prop where
  row : ∃ r, store.working.job j = some r ∧ r.fixed = job.fixed
  roster : ∃ sh ∈ store.working.shapes, sh.jobId = j

/-- An accepted submission, as every later state has it. -/
def Accepted (py : Python F) (cfg : Config) (collection modelId : String) (texts : List Str)
    (j : String) (s : State F) : Prop :=
  texts ≠ [] ∧ ∃ payload, Stored py cfg s modelId texts payload ∧
    Queued s.store (ingestionJob cfg collection modelId (hexdigest payload)) j

variable {modelId : String} {texts : List Str}

theorem Stored.grows (hg : Grows s s') (h : Stored py cfg s modelId texts payload) :
    Stored py cfg s' modelId texts payload := by
  refine ⟨h.corpus, fun t ht => ⟨(h.encoded t ht).1, hg.hashed (h.encoded t ht).2⟩,
    hg.hashed h.hashed, ?_⟩
  obtain ⟨content, blobs, hc, hb, hsub⟩ := h.units
  exact ⟨content, blobs, hg.corpora _ content hc, hb,
    fun b hb => ⟨hg.hashed (hsub b hb).1, hg.hashed (hsub b hb).2⟩⟩

variable {j : String} {store : Queue.Store} {job : JobSubmit}

theorem Queued.step (ho : OutcomesInv store)
    (h : Queued store job j) (op : Queue.Op) : Queued (Queue.step cfg.queue store op) job j := by
  obtain ⟨added, hstays, -⟩ := step_stays ho cfg.queue op
  obtain ⟨r, hr, hf⟩ := h.row
  obtain ⟨sh, hsh, rfl⟩ := h.roster
  have hsh' : sh ∈ (Queue.step cfg.queue store op).working.shapes := by
    rw [hstays.shapes]
    exact mem_append_left _ hsh
  obtain ⟨r', hr'⟩ := (ho.step cfg.queue op).1.wf.working.job_of_shape hsh'
  exact ⟨⟨r', hr', (hstays.fixed _ r r' hr hr').trans hf⟩, sh, hsh', rfl⟩

variable {collection : String}

theorem Accepted.step (hi : Inv py cfg G s)

    (h : Accepted py cfg collection modelId texts j s) (act : Act) :
    Accepted py cfg collection modelId texts j (Ingest.step py cfg s act) := by
  obtain ⟨hne, payload, hstored, hqueued⟩ := h
  obtain ⟨hg, hstore⟩ : Moves cfg s (Ingest.step py cfg s act) := moves_step
  refine ⟨hne, payload, hstored.grows hg, ?_⟩
  rcases hstore with he | ⟨op, he⟩
  · rw [he]
    exact hqueued
  · rw [he]
    exact hqueued.step hi.roster.outcomes op


variable {st : JobStatus} {jobId : String} {now : ℤ} {n : ℕ} {blobs : List Bytes}

theorem enqueue_ok {payload : Payload}
    (h : enqueue py cfg s job payload reuse jobId now = (s', .ok st)) :
    ∃ blobs store, chunkJob py cfg.chunksPerUnit job.kind payload = .ok blobs ∧
      submitJob cfg.queue s.store jobId job (unitSpecs job.modelId blobs) reuse now
        = (store, .ok st.jobId) ∧ s' = { storeUnits s job.modelId blobs with store := store } := by
  rw [enqueue] at h
  split at h
  · cases h
  next blobs hb =>
  dsimp only at h
  split at h
  · cases h
  next store id hsub =>
  split at h
  · cases h
  next status hst =>
  obtain ⟨rfl, he⟩ := mk.inj h
  cases he
  obtain ⟨r, -, rfl⟩ := Option.map_eq_some_iff.1 hst
  exact ⟨blobs, store, hb, hsub, rfl⟩

theorem chunkEmbed_ne_nil {payload : Payload}
    (h : chunkEmbed py n payload = .ok blobs) : blobs ≠ [] := by
  rw [chunkEmbed] at h
  split at h
  · cases h
  next texts _ =>
  split at h
  · cases h
  next hne =>
  cases h
  intro hnil
  cases texts with
  | nil => exact hne rfl
  | cons t ts => cases hnil

theorem unitSpecs_ne_nil (h : blobs ≠ []) : unitSpecs modelId blobs ≠ [] := by
  intro hnil
  exact h (mapIdx_eq_nil_iff.1 hnil)

theorem corpusDigest_corpusPath {b : Bytes} :
    corpusDigest cfg (corpusPath cfg (hexdigest b)) = some (hexdigest b) := by
  have hdrop : (corpusPath cfg (hexdigest b)).toList.drop (cfg.corpusDir.toList.length + 1)
      = (hexdigest b).toList ++ ".jsonl".toList := by
    have hpath : (corpusPath cfg (hexdigest b)).toList = (cfg.corpusDir.toList ++ "/".toList)
          ++ ((hexdigest b).toList ++ ".jsonl".toList) := by
      rw [corpusPath, String.toList_append, String.toList_append, String.toList_append,
        append_assoc]
    rw [hpath, drop_left' (by rw [length_append]; rfl)]
  have hdigest : String.ofList (((corpusPath cfg (hexdigest b)).toList.drop
      (cfg.corpusDir.toList.length + 1)).take 64) = hexdigest b := by
    rw [hdrop, take_left' length_hexdigest, String.ofList_toList]
  rw [corpusDigest, hdigest]
  exact if_pos ⟨isSha256_hexdigest, rfl⟩

/-- A submission that returns is accepted. -/
theorem accepted_submit (hi : Inv py cfg G s)
    (h : submit py cfg s collection modelId texts jobId now = (s', .ok st)) :
    Accepted py cfg collection modelId texts st.jobId s' := by
  rcases submit_cases py cfg s collection modelId texts jobId now with
    ⟨e, he⟩ | ⟨encoded, payload, hne, henc, hpay, he⟩
  · rw [he] at h
    cases h
  rw [he] at h
  obtain ⟨blobs, store, hchunk, hsub, rfl⟩ := enqueue_ok h
  obtain ⟨content, hc, hb⟩ := chunkJob_corpus hchunk rfl corpusDigest_corpusPath
  have hg := grows_storeUnits (storeCorpus s encoded payload) modelId blobs
  have hold : ∀ b ∈ encoded ++ [payload], b ∈ (storeUnits (storeCorpus s encoded payload) modelId
      blobs).hashed := fun b hb => hg.hashed (mem_append_right _ hb)
  obtain ⟨hrow, hroster⟩ := submitJob_ok hi.roster.outcomes.wf.working
    (unitSpecs_ne_nil (chunkEmbed_ne_nil hb)) hsub
  refine ⟨hne, payload, ⟨hpay, fun t ht => ?_, hold _ (by simp), content, blobs, hc, hb,
    fun b hb => ⟨mem_append_right _ (mem_append_left _ hb), mem_append_right _
      (mem_append_right _ (mem_map_of_mem hb))⟩⟩, hrow, hroster⟩
  obtain ⟨b, hb, hbt⟩ := exists_of_forall₂ (mapM_eq_some.1 henc) t ht
  have hs := scalar_of_encode hbt
  obtain rfl : utf8 (t.map Char.ofNat) = b := Option.some.inj ((encode_of_scalar hs).symm.trans hbt)
  exact ⟨hs, hold _ (mem_append_left _ hb)⟩

/-! ### Jobs whose units all succeeded -/

variable {t : State F}

/-- With no collisions, the roster of an accepted submission is the units of its texts. -/
theorem Accepted.roster (hi : Inv py cfg G t) (hc : Content.Collisionless hexdigest t.hashed)
    (h : Accepted py cfg collection modelId texts j t) :
    (∃ r, t.store.working.job j = some r ∧ r.modelId = modelId ∧
      r.paramsJson = [(collectionParam, collection)]) ∧
    (∀ g ∈ batched cfg.chunksPerUnit texts, groupBlob F g ∈ t.hashed ∧
      seed modelId (hexdigest (groupBlob F g)) ∈ t.hashed) ∧
    t.store.working.shapes.filter (·.jobId = j)
      = (uniqueUnits [] (textSpecs F cfg modelId texts)).map (·.shape j) := by
  obtain ⟨hne, payload, hstored, ⟨r, hr, hf⟩, sh, hsh, rfl⟩ := h
  obtain ⟨hkind, hmodel, href, hparams⟩ := fixed_eq hf
  obtain ⟨content, blobs, hcont, hblobs, hhashed⟩ := hstored.units
  have hcorpus : content = payload :=
    Option.mem_unique hcont (hi.files.corpora.get hc hstored.hashed
      (Option.isSome_of_eq_some hcont))
  subst hcorpus
  rw [chunkEmbed_corpus py hne hstored.corpus] at hblobs
  cases hblobs
  refine ⟨⟨r, hr, hmodel, ?_⟩, fun g hg => hhashed _ (mem_map_of_mem hg), ?_⟩
  · rw [hparams]
    exact mergeSort_singleton ..
  · obtain ⟨content', blobs', hcont', hblobs', hros⟩ := hi.rosters.corpus sh hsh r hr hkind
      (hexdigest content) (by rw [href]; exact corpusDigest_corpusPath)
    obtain rfl : content = content' := Option.mem_unique hcont hcont'
    rw [chunkEmbed_corpus py hne hstored.corpus] at hblobs'
    cases hblobs'
    rw [hros, hmodel]
    rfl

/-- A member that succeeded: it is done, with a reference bound to its unit. -/
structure Succeeded (G : String → String → Prop) (m : MembershipRow) : Prop where
  status : m.resultStatus = some .succeeded
  terminal : m.terminalState = some .done
  bound : ∃ ref, m.resultRef = some ref ∧ G m.workUnitId ref

variable {details : JobDetails} {r : JobRow} {db : Db} {groups : List (List Str)}

theorem members_succeeded (hi : Inv py cfg G t) (hdet : jobDetails t.store j = .ok (some details))
    (hall : ∀ unit ∈ details.units, unit.resultStatus = some .succeeded) :
    ∀ m ∈ Sql.jobMembers t.store.working j, Succeeded (G t) m := by
  intro m hm
  obtain ⟨r, -, -, -, hunits⟩ := jobDetails_eq_ok hdet
  have hin : (m, Sql.resolvedState t.store.working m) ∈ Sql.selectJobUnitOutcomes j t.store.working :=
    mem_map.2 ⟨m, mem_mergeSort.2 hm, rfl⟩
  obtain ⟨unit, hunit, hdec⟩ := exists_of_forall₂ hunits _ hin
  have hstatus : m.resultStatus = some .succeeded :=
    (decodeOutcome_eq_ok hdec).2.symm.trans (hall unit hunit)
  obtain ⟨hterm, hbound⟩ := hi.roster.roster.sourced.success m (mem_filter.1 hm).1 hstatus
  exact ⟨hstatus, hterm, hbound⟩

/-- Then the job is done, and its details are its row and its members. -/
theorem details_succeeded (hi : Inv py cfg G t) (hr : t.store.working.job j = some r)
    (hmem : Sql.jobMembers t.store.working j ≠ [])
    (hall : ∀ m ∈ Sql.jobMembers t.store.working j, Succeeded (G t) m) :
    r.state = .done ∧ jobDetails t.store j = .ok (some ⟨r.modelId, r.paramsJson,
      ((Sql.jobMembers t.store.working j).mergeSort Sql.memberLe).map (·.outcome)⟩) := by
  have hin : ∀ m ∈ Sql.jobMembers t.store.working j, m.terminalState.isSome :=
    fun m hm => Option.isSome_of_eq_some (hall m hm).terminal
  exact ⟨hi.roster.roster.caughtUp.tally j r hr (Set.notMem_empty _) hmem hin, jobDetails_in hr hin⟩

/-- What the digests in a submission are of: the groups of its texts, and the seeds made from them. -/
structure Groups (F : Type) [PyFloat F] (cfg : Config) (modelId : String) (texts : List Str)
    (hashed : List Bytes) : Prop where
  scalar : ∀ x ∈ texts, Scalar x
  blobs : ∀ g ∈ batched cfg.chunksPerUnit texts, groupBlob F g ∈ hashed ∧
    seed modelId (hexdigest (groupBlob F g)) ∈ hashed
  collisionless : Content.Collisionless hexdigest hashed

section
variable {modelId : String} {texts g : List Str} {hashed : List Bytes}

theorem Groups.parse (py : Python F) (h : Groups F cfg modelId texts hashed)
    (hg : g ∈ batched cfg.chunksPerUnit texts) :
    (∀ x ∈ g, Scalar x) ∧ parseChunks py (groupBlob F g) = .ok g := by
  have hgs : ∀ x ∈ g, Scalar x := fun x hx => h.scalar x (by
    rw [← flatten_batched cfg.chunksPerUnit_pos texts]
    exact mem_flatten.2 ⟨g, hg, hx⟩)
  exact ⟨hgs, parseChunks_groupBlob py (batched_ne_nil cfg.chunksPerUnit_pos hg) hgs⟩

/-- A unit's id tells its group. -/
theorem Groups.eq_of_id (h : Groups F cfg modelId texts hashed)
    (hg : g ∈ batched cfg.chunksPerUnit texts)
    (hin : input ∈ hashed) (hseed : seed modelId' (hexdigest input) ∈ hashed)
    (hid : workUnitId modelId (hexdigest (groupBlob F g)) = workUnitId modelId' (hexdigest input)) :
    modelId' = modelId ∧ input = groupBlob F g := by
  obtain ⟨hblob, hseed'⟩ := h.blobs g hg
  obtain ⟨hm, hdigest⟩ := seed_injective (h.collisionless _ hseed' _ hseed hid)
  exact ⟨hm.symm, (h.collisionless _ hblob _ hin hdigest).symm⟩

end

/-- A unit of the texts that succeeded is read back as one of their groups with its vectors. -/
theorem member_reads (hi : Inv py cfg (Known py f (textUnits F cfg modelId texts)) t)
    (hgroups : Groups F cfg modelId texts t.hashed) (hr : t.store.working.job j = some r)
    (hm : m ∈ Sql.jobMembers t.store.working j)
    (hs : Succeeded (Known py f (textUnits F cfg modelId texts) t) m)
    (hspec : spec ∈ textSpecs F cfg modelId texts) (hshape : m.shape = spec.shape j) :
    ∃ g ∈ batched cfg.chunksPerUnit texts,
      m.workUnitId = workUnitId modelId (hexdigest (groupBlob F g)) ∧
      Reads py f t modelId m.outcome g := by
  obtain ⟨blob, hblob, idx, rfl⟩ := mem_unitSpecs hspec
  obtain ⟨g, hg, rfl⟩ := mem_map.1 hblob
  obtain ⟨hjob, hunit, -, hinput⟩ := Shape.mk.inj hshape
  refine ⟨g, hg, hunit, ?_⟩
  obtain ⟨hgs, hparse⟩ := hgroups.parse py hg
  obtain ⟨-, -, -, hsome, -⟩ := hi.rosters.listed m.shape (mem_map_of_mem (mem_filter.1 hm).1) r
    (by rw [MembershipRow.shape, hjob]; exact hr)
  rw [MembershipRow.shape, hinput] at hsome
  obtain ⟨ref, href, payload, hpay, rfl, hres, hmade⟩ := hs.bound
  -- what was uploaded is the worker's, made of the very input the unit is named after
  obtain ⟨modelId', input, chunks, hid, hin, hseed, hchunks, hencoded⟩ :=
    hmade ⟨_, hspec, hunit.symm⟩
  obtain ⟨rfl, rfl⟩ := hgroups.eq_of_id hg hin hseed (hunit.symm.trans hid)
  obtain rfl : g = chunks := ok.inj (hparse.symm.trans hchunks)
  have hfile : t.inputs m.outcome.inputRef = some (groupBlob F g) := by
    rw [MembershipRow.outcome, hinput]
    exact hi.files.inputs.get hgroups.collisionless hin hsome
  have hresult := hi.files.results.get hgroups.collisionless hpay hres
  refine ⟨?_, hs.status, ⟨_, href, readUnit_worked hfile hchunks hresult hencoded⟩, hgs⟩
  rw [MembershipRow.outcome, hs.terminal]
  rfl

/-- The members of a roster made from texts: each is a unit of them, and each group has one. -/
theorem members_of_roster (h : db.shapes.filter (·.jobId = j)
      = (uniqueUnits [] (textSpecs F cfg modelId texts)).map (·.shape j)) :
    (∀ m ∈ Sql.jobMembers db j, ∃ spec ∈ textSpecs F cfg modelId texts, m.shape = spec.shape j) ∧
    ∀ g ∈ batched cfg.chunksPerUnit texts, ∃ m ∈ Sql.jobMembers db j,
      m.workUnitId = workUnitId modelId (hexdigest (groupBlob F g)) := by
  rw [← map_shape_jobMembers] at h
  refine ⟨fun m hm => ?_, fun g hg => ?_⟩
  · obtain ⟨spec, hspec, he⟩ := mem_map.1 (h ▸ mem_map_of_mem hm)
    exact ⟨spec, mem_of_mem_uniqueUnits hspec, he.symm⟩
  · have hblob : groupBlob F g ∈ (batched cfg.chunksPerUnit texts).map (groupBlob F) :=
      mem_map_of_mem hg
    obtain ⟨idx, hs⟩ : ∃ idx, unitSpec modelId idx (groupBlob F g) ∈ textSpecs F cfg modelId texts :=
      exists_unitSpec hblob
    obtain ⟨v, hv, hvid⟩ := exists_mem_uniqueUnits (textSpecs F cfg modelId texts) [] _ (.inr hs)
    obtain ⟨m, hm, he⟩ := mem_map.1 (h ▸ mem_map_of_mem hv)
    exact ⟨m, hm, (Shape.mk.inj he).2.1.trans hvid⟩

/-- Groups read off members that are the units of the texts make up the texts. -/
theorem mem_flatten_groups (py : Python F)
    (h : Groups F cfg modelId texts hashed) {ms : List MembershipRow}
    (hread : List.Forall₂ (fun m g => g ∈ batched cfg.chunksPerUnit texts ∧
      m.workUnitId = workUnitId modelId (hexdigest (groupBlob F g))) ms groups)
    (hall : ∀ g ∈ batched cfg.chunksPerUnit texts, ∃ m ∈ ms,
      m.workUnitId = workUnitId modelId (hexdigest (groupBlob F g))) (x : Str) :
    x ∈ groups.flatten ↔ x ∈ texts := by
  rw [← flatten_batched cfg.chunksPerUnit_pos texts, mem_flatten, mem_flatten]
  constructor
  · rintro ⟨g, hg, hx⟩
    obtain ⟨m, -, hg, -⟩ := exists_of_forall₂ hread.flip g hg
    exact ⟨g, hg, hx⟩
  · rintro ⟨g, hg, hx⟩
    obtain ⟨m, hm, hid⟩ := hall g hg
    obtain ⟨g', hg', hin, hid'⟩ := exists_of_forall₂ hread m hm
    obtain ⟨-, hblob⟩ := h.eq_of_id hg (h.blobs g' hin).1 (h.blobs g' hin).2 (hid.symm.trans hid')
    have hparse := (h.parse py hin).2
    rw [hblob, (h.parse py hg).2] at hparse
    exact ⟨g', hg', ok.inj hparse ▸ hx⟩

/-- The loop variables after all units of `texts`. -/
structure Exact (f : Embedder F) (texts : List Str) (index : Index F) : Prop where
  chunks : Indexed f texts index.chunks
  dims : index.dims = some (f.dims : ℤ)

theorem no_dead_units {G : String → String → Prop}
    (h : ∀ m ∈ Sql.jobMembers db j, Succeeded G m) : (Sql.countJobUnits j db).dead = 0 := by
  refine count_eq_zero.2 fun hdead => ?_
  obtain ⟨m, hm, hst⟩ := mem_map.1 hdead
  rw [Sql.resolvedState, (h m hm).terminal] at hst
  cases hst

/-- Texts have different digests, so their chunks are kept apart. -/
theorem indexed_of_groups (hs : Stored py cfg t modelId texts payload)
    (hc : Content.Collisionless hexdigest t.hashed) (hflat : ∀ x, x ∈ groups.flatten ↔ x ∈ texts) :
    Indexed f texts ((groups.flatten.map (chunkOf f)).foldl putChunk []) := by
  have hd : Distinguished texts := by
    intro x hx y hy hxy
    obtain ⟨hsx, hhx⟩ := hs.encoded x hx
    obtain ⟨hsy, hhy⟩ := hs.encoded y hy
    have hbytes := hc _ hhx _ hhy hxy
    exact encode_injective (encode_of_scalar hsx) (hbytes ▸ encode_of_scalar hsy)
  have hall := Indexed.puts hd (indexed_nil f) (nil_subset _) fun x hx => (hflat x).1 hx
  refine ⟨hall.keyed, fun c => (hall.mem c).trans ?_⟩
  constructor
  · rintro ⟨x, hx, he⟩
    exact ⟨x, (hflat x).1 hx, he⟩
  · rintro ⟨x, hx, he⟩
    exact ⟨x, (hflat x).2 hx, he⟩

/-- The files of a job whose units all succeeded give the chunks of its texts. -/
theorem Accepted.ended (hi : Inv py cfg (Known py f (textUnits F cfg modelId texts)) t)
    (hc : Content.Collisionless hexdigest t.hashed)
    (h : Accepted py cfg collection modelId texts j t)
    (hdet : jobDetails t.store j = .ok (some details))
    (hall : ∀ unit ∈ details.units, unit.resultStatus = some .succeeded) :
    details.modelId = modelId ∧ details.params.lookup collectionParam = some collection ∧
      (Sql.countJobUnits j t.store.working).dead = 0 ∧
      ∃ index, Ended py t j details index ∧ Exact f texts index := by
  obtain ⟨⟨r, hr, hmodel, hparams⟩, hblobs, hroster⟩ := h.roster hi hc
  obtain ⟨hne, payload, hstored, -, sh, hsh, rfl⟩ := h
  have hgroups : Groups F cfg modelId texts t.hashed :=
    ⟨fun x hx => (hstored.encoded x hx).1, hblobs, hc⟩
  obtain ⟨hspec, hmember⟩ := members_of_roster hroster
  have hsucc := members_succeeded hi hdet hall
  have hmem : Sql.jobMembers t.store.working sh.jobId ≠ [] := by
    obtain ⟨m, hm, rfl⟩ := mem_map.1 hsh
    exact ne_nil_of_mem (mem_filter.2 ⟨hm, decide_eq_true rfl⟩)
  obtain ⟨hdone, hin⟩ := details_succeeded hi hr hmem hsucc
  obtain rfl := Option.some.inj (ok.inj (hdet.symm.trans hin))
  obtain ⟨groups, hread⟩ : ∃ groups, List.Forall₂ (fun m g =>
      (g ∈ batched cfg.chunksPerUnit texts ∧
        m.workUnitId = workUnitId modelId (hexdigest (groupBlob F g))) ∧
      Reads py f t modelId m.outcome g)
      ((Sql.jobMembers t.store.working sh.jobId).mergeSort Sql.memberLe) groups := by
    refine forall₂_of_exists fun m hm => ?_
    rw [mem_mergeSort] at hm
    obtain ⟨spec, hs, hshape⟩ := hspec m hm
    obtain ⟨g, hg, hid, hr⟩ := member_reads hi hgroups hr hm (hsucc m hm) hs hshape
    exact ⟨g, ⟨hg, hid⟩, hr⟩
  have hflat := mem_flatten_groups py hgroups (hread.imp fun _ _ h => h.1) fun g hg => by
    obtain ⟨m, hm, hid⟩ := hmember g hg
    exact ⟨m, mem_mergeSort.2 hm, hid⟩
  refine ⟨hmodel, by rw [hparams]; rfl, no_dead_units hsucc,
    ⟨(groups.flatten.map (chunkOf f)).foldl putChunk [], some f.dims⟩, ⟨⟨r, hr, hdone⟩, hin, ?_⟩,
    indexed_of_groups hstored hc hflat, rfl⟩
  refine collect_reads ?_ ?_
  · rw [hmodel, forall₂_map_left_iff]
    exact hread.imp fun _ _ h => h.2
  · intro hnil
    have hempty := map_eq_nil_iff.1 hnil
    exact hmem (perm_nil.1 (hempty ▸ (mergeSort_perm _ _).symm))

/-! ### The final request -/

theorem markJobFinalized_first
    (hr : store.working.job j = some r) (hnone : jobFinalization store j = none) :
    ∃ store', markJobFinalized store j n = (store', .ok (some n)) := by
  rw [jobFinalization, Sql.selectJobFinalization, Option.map_eq_none_iff] at hnone
  rw [markJobFinalized, if_neg (by omega), Sql.insertJobFinalization, hr, if_neg (by rintro ⟨⟩)]
  dsimp only
  refine ⟨_, Prod.ext rfl ?_⟩
  rw [Sql.selectJobFinalization, Table.get_insertIgnore, hnone, Option.none_or, if_pos rfl]
  rfl

variable {index : Index F} {ending : Ending}

/-- `_finalize` of a job that is not recorded yet, when every call returns. -/
theorem finalize_returns (hend : Ended py s j details index)
    (hnone : jobFinalization s.store j = none) :
    ∃ store, finalize py s collection j details .returns =
      ({ s with sink := s.sink ++ (sinkCalls collection details index).map (j, ·), store := store },
        .ok index.chunks.length) := by
  obtain ⟨r, hr, -⟩ := hend.done
  obtain ⟨store, hmark⟩ := markJobFinalized_first hr hnone
  refine ⟨store, ?_⟩
  rw [finalize, hend.collected]
  have hfin : Ending.returns.finishes (sinkCalls collection details index) = true := rfl
  dsimp only
  rw [if_pos hfin, hmark]
  rfl

/-- A request for a job that has ended, if nothing goes wrong in it: the number of chunks its files
    give, which the sink then has. -/
theorem status_ended (hsettled : Settled py s) (hend : Ended py s j details index)
    (hcol : details.params.lookup collectionParam = some collection) :
    ∃ st, jobStatus s.store j = some st ∧
      (status py s collection j .returns).2 = .ok (answer st details index.chunks.length) ∧
      ∀ call, (j, call) ∈ (status py s collection j .returns).1.sink ↔
        call ∈ sinkCalls collection details index := by
  obtain ⟨r, hr, hdone⟩ := hend.done
  obtain ⟨st, hst, hstate⟩ : ∃ st, jobStatus s.store j = some st ∧ st.state = .done :=
    ⟨_, by rw [jobStatus, hr]; rfl, hdone⟩
  -- what the sink has of this job is what its files call for
  have hsent : ∀ call, (j, call) ∈ s.sink → call ∈ sinkCalls collection details index := by
    intro call hcall
    obtain ⟨collection', details', index', hend', hcol', hin⟩ := hsettled.received j call hcall
    obtain ⟨rfl, rfl⟩ := hend.unique py hend'
    obtain rfl : collection = collection' := Option.mem_unique hcol hcol'
    exact hin
  refine ⟨st, hst, ?_⟩
  rw [status, hst, hend.found]
  dsimp only
  rw [if_neg (not_not_intro hcol), if_neg (not_not_intro hstate)]
  cases hfinal : jobFinalization s.store j with
  | some n =>
    obtain ⟨collection', details', index', hend', hcol', rfl, hall⟩ := hsettled.recorded j n hfinal
    obtain ⟨rfl, rfl⟩ := hend.unique py hend'
    obtain rfl : collection = collection' := Option.mem_unique hcol hcol'
    exact ⟨rfl, fun call => ⟨hsent call, hall call⟩⟩
  | none =>
    obtain ⟨store, hfin⟩ := finalize_returns hend hfinal
    rw [hfin]
    refine ⟨rfl, fun call => ?_⟩
    simp only [mem_append, mem_map, mk.injEq, true_and, exists_eq_right]
    exact ⟨fun h => h.elim (hsent call) id, .inr⟩

/-! ### What READY stands for -/

/-- A unit that counts: it is done and has not failed, its input is a list of texts, and its result
    is a well-formed one for so many. -/
def Sound (py : Python F) (s : State F) (modelId : String) (unit : JobUnitOutcome) : Prop :=
  unit.state = .done ∧ unit.resultStatus ≠ some .failed ∧
    ∃ input v texts ref content, s.inputs unit.inputRef = some input ∧
      loadsBytes py input = some v ∧ stringArray v = some texts ∧ unit.resultRef = some ref ∧
      s.results ref = some content ∧ WellFormed py modelId texts.length content

theorem parseTexts_eq_ok (h : parseTexts py name content = .ok texts) :
    ∃ b v, content = some b ∧ loadsBytes py b = some v ∧ stringArray v = some texts := by
  rw [parseTexts] at h
  split at h
  · cases h
  next v hv =>
  split at h
  · cases h
  next texts' ht =>
  cases h
  obtain ⟨b, hb, hload⟩ := Option.bind_eq_some_iff.1 hv
  exact ⟨b, v, hb, hload, ht⟩

theorem sound_of_added (h : UnitAdded py s modelId index unit index')
    (halive : unit.state ≠ .dead) (hsucc : unit.resultStatus ≠ some .failed) :
    Sound py s modelId unit := by
  cases h with
  | passed hskip => exact absurd hskip (not_or.2 ⟨halive, hsucc⟩)
  | @read ref texts dims embeddings chunks hdone _ href hread _ _ =>
    rw [readUnit] at hread
    split at hread
    · cases hread
    next texts' ht =>
    split at hread
    · cases hread
    obtain ⟨x, hp, hread⟩ := bind_ok hread
    cases hread
    obtain ⟨input, v, hin, hload, hv⟩ := parseTexts_eq_ok ht
    obtain ⟨content, hcont, hwf⟩ := parsePayload_eq_ok hp
    exact ⟨hdone, hsucc, input, v, texts, ref, content, hin, hload, hv, href, hcont, hwf⟩

theorem added_of_foldlM : ∀ {units : List JobUnitOutcome}
    {index index' : Index F}, units.foldlM (addUnit py s modelId) index = .ok index' →
    ∀ unit ∈ units, ∃ i i', UnitAdded py s modelId i unit i'
  | u :: units, index, index', h, unit, hunit => by
    obtain ⟨next, hu, h⟩ := bind_ok h
    rcases mem_cons.1 hunit with rfl | hunit
    · exact ⟨index, next, (addUnit_eq_ok py).1 hu⟩
    · exact added_of_foldlM h unit hunit

theorem answer_ready (h : (answer st details n).state = .ready) :
    st.deadUnits = 0 ∧ ∀ unit ∈ details.units, unit.resultStatus ≠ some .failed := by
  dsimp only [answer, ingestionStatus] at h
  split at h
  · cases h
  next hbad =>
  obtain ⟨hdead, hfail⟩ := not_or.1 hbad
  refine ⟨not_not.1 hdead, fun unit hunit hf => hfail ?_⟩
  exact any_eq_true.2 ⟨unit, hunit, decide_eq_true hf⟩

/-- READY is said of a job only whose files were collected, by this request or an earlier one. -/
theorem status_ready (hsettled : Settled py s)
    {st : IngestionStatus} (h : (status py s collection j ending).2 = .ok st)
    (hready : st.state = .ready) : ∃ js details index n, jobStatus s.store j = some js ∧
      jobDetails s.store j = .ok (some details) ∧ collect py s details = .ok index ∧
      (answer js details n).state = .ready := by
  rw [status] at h
  split at h
  · cases h
  · next js details hjs hdet =>
    split at h
    · cases h
    split at h
    · cases h
      cases hready
    split at h
    · next n hfinal =>
      obtain ⟨-, details', index, hend, -⟩ := hsettled.recorded j n hfinal
      obtain rfl := Option.some.inj (ok.inj (hdet.symm.trans hend.found))
      cases h
      exact ⟨js, details, index, n, hjs, hdet, hend.collected, hready⟩
    · rw [finalize] at h
      cases hc : collect py s details with
      | error e =>
        rw [hc] at h
        cases h
      | ok index =>
        split at h
        · cases h
        · next n _ =>
          cases h
          exact ⟨js, details, index, n, hjs, hdet, hc, hready⟩
  · cases h

/-- READY is not said of a job with a unit that is dead, failed, or has a malformed result. -/
theorem ready_sound (hsettled : Settled py s)
    {st : IngestionStatus} (h : (status py s collection j ending).2 = .ok st)
    (hready : st.state = .ready) : ∃ details, jobDetails s.store j = .ok (some details) ∧
      ∀ unit ∈ details.units, Sound py s details.modelId unit := by
  obtain ⟨js, details, index, n, hjs, hdet, hc, hans⟩ := status_ready hsettled h hready
  obtain ⟨hdead, hfail⟩ := answer_ready hans
  obtain ⟨r, hr, -, -, hunits⟩ := jobDetails_eq_ok hdet
  refine ⟨details, hdet, fun unit hunit => ?_⟩
  obtain ⟨i, i', hadd⟩ := added_of_foldlM hc unit hunit
  refine sound_of_added hadd (fun hd => ?_) (hfail unit hunit)
  obtain ⟨⟨m, st'⟩, hp, hdec⟩ := exists_of_forall₂ hunits.flip unit hunit
  obtain ⟨m', hm', he⟩ := mem_map.1 hp
  cases he
  have hcount : (Sql.countJobUnits j s.store.working).dead = 0 := by
    rw [jobStatus, hr] at hjs
    cases hjs
    exact hdead
  refine count_eq_zero.1 hcount (mem_map.2 ⟨m, mem_mergeSort.1 hm', ?_⟩)
  rw [(decodeOutcome_eq_ok hdec).1, hd]

end Fallow.Ingest

import Fallow.Ingest.Service
import Fallow.Queue.Details

/-! The coordinator as a batch embedding service: submissions, uploads, status requests and every
    other call of the queue, in any order.

    What is shared between calls only grows: files are never overwritten, rosters never change, an
    outcome once recorded stays. So what a status request finds for a job that is done, every later
    one finds too.

        INVARIANT (files)     a file has the digest of its content for a name
        INVARIANT (listed)    a unit's id and input come from one stored blob and the job's model
        INVARIANT (rosters)   a job made from a corpus file has the units of that file
        INVARIANT (settled)   what was recorded or sent to the sink is what the job's files give -/

namespace Fallow.Ingest
open Lib Lib.PyJson Lib.PyStr Queue List Option Content Sha256

variable {F : Type} [PyFloat F] (py : Python F) (cfg : Config)

/-! ### Steps -/

inductive Act where
  | ingest (collection modelId : String) (texts : List Str) (jobId : String) (now : ℤ)
  /-- `POST /jobs`, with what its `payload_ref` is if that is no corpus file -/
  | submitJob (job : JobSubmit) (payload : Payload) (jobId : String) (now : ℤ)
  | upload (agentId workUnitId : String) (attempt : ℕ) (content : Bytes) (now : ℤ)
  | poll (collection ingestionId : String) (ending : Ending)
  | queue (op : Queue.Op)

/-- The calls that reach the queue without a file or the sink being involved. -/
def direct : Queue.Op → Bool
  | .submitJob _ _ _ _ _ => false
  | .bindResultPayload _ _ _ _ _ _ => false
  | .markJobFinalized _ _ => false
  | _ => true

/-- The payload route: keep the content under its digest, bind the digest to the lease. -/
def upload (s : State F) (agentId workUnitId : String) (attempt : ℕ) (content : Bytes) (now : ℤ) :
    State F :=
  if resultUploadAttempt s.store agentId workUnitId ≠ some attempt then s
  else
    let digest := hexdigest content
    { s with results := put hexdigest s.results content
             hashed := s.hashed ++ [content]
             store := (bindResultPayload s.store agentId workUnitId attempt digest digest now).1 }

def step (s : State F) : Act → State F
  | .ingest collection modelId texts jobId now => (submit py cfg s collection modelId texts jobId now).1
  | .submitJob job payload jobId now =>
    (enqueue py cfg s job (payloadAt cfg s job.payloadRef payload) false jobId now).1
  | .upload agentId workUnitId attempt content now => upload s agentId workUnitId attempt content now
  | .poll collection ingestionId ending => (status py s collection ingestionId ending).1
  | .queue op => if direct op then { s with store := Queue.step cfg.queue s.store op } else s

/-! ### Files -/

/-- FRAME: no file goes away or changes. -/
structure Grows (s s' : State F) : Prop where
  corpora : Content.Extends s.corpora s'.corpora
  inputs : Content.Extends s.inputs s'.inputs
  results : Content.Extends s.results s'.results
  hashed : s.hashed ⊆ s'.hashed

omit [PyFloat F] in
/-- The queue and the sink apart, nothing has changed. -/
theorem Grows.store (s : State F) (store : Queue.Store) (sink : List (String × SinkCall F)) :
    Grows s { s with store := store, sink := sink } :=
  ⟨.refl _, .refl _, .refl _, List.Subset.refl _⟩

/-- INVARIANT: every file has the digest of its content for a name. -/
structure Files (s : State F) : Prop where
  corpora : Content.Addressed hexdigest s.hashed s.corpora
  inputs : Content.Addressed hexdigest s.hashed s.inputs
  results : Content.Addressed hexdigest s.hashed s.results

omit [PyFloat F] in
theorem grows_storeCorpus (s : State F) (encoded : List Bytes) (payload : Bytes) :
    Grows s (storeCorpus s encoded payload) :=
  ⟨extends_put, .refl _, .refl _, subset_append_left _ _⟩

variable {s : State F} {name : String} {texts : List Str} {n : ℕ}

omit [PyFloat F] in
theorem Files.storeCorpus (h : Files s) (encoded : List Bytes) (payload : Bytes) :
    Files (storeCorpus s encoded payload) := by
  have hsub := (grows_storeCorpus s encoded payload).hashed
  refine ⟨(h.corpora.mono hsub).put ?_, h.inputs.mono hsub, h.results.mono hsub⟩
  simp [Ingest.storeCorpus]

omit [PyFloat F] in
theorem grows_storeUnits (s : State F) (modelId : String) (blobs : List Bytes) :
    Grows s (storeUnits s modelId blobs) :=
  ⟨.refl _, extends_puts _ _, .refl _, subset_append_left _ _⟩

omit [PyFloat F] in
theorem Files.storeUnits (h : Files s) (modelId : String) (blobs : List Bytes) :
    Files (storeUnits s modelId blobs) := by
  have hsub := (grows_storeUnits s modelId blobs).hashed
  refine ⟨h.corpora.mono hsub, (h.inputs.mono hsub).puts blobs fun b hb => ?_, h.results.mono hsub⟩
  exact mem_append_right _ (mem_append_left _ hb)

/-! ### What a status request reads stays readable -/

theorem parseTexts_grows (h : Content.Extends d d') (ht : parseTexts py name (d name) = .ok texts) :
    parseTexts py name (d' name) = .ok texts := by
  cases hd : d name with
  | none =>
    rw [hd] at ht
    cases ht
  | some b =>
    rw [h _ b hd]
    rwa [hd] at ht

theorem parsePayload_grows (h : Content.Extends d d')
    (ht : parsePayload py name (d name) n = .ok x) : parsePayload py name (d' name) n = .ok x := by
  cases hd : d name with
  | none =>
    rw [hd] at ht
    cases ht
  | some b =>
    rw [h _ b hd]
    rwa [hd] at ht

variable {s' : State F}

variable {unit : JobUnitOutcome}

theorem readUnit_grows (h : Grows s s') (hr : readUnit py s unit ref = .ok x) :
    readUnit py s' unit ref = .ok x := by
  rw [readUnit] at hr
  split at hr
  · cases hr
  next texts ht =>
  rw [readUnit, parseTexts_grows py h.inputs ht]
  dsimp only
  split at hr
  · cases hr
  next hsha =>
  rw [if_neg hsha]
  obtain ⟨y, hp, hr⟩ := bind_ok hr
  rw [parsePayload_grows py h.results hp]
  exact hr

/-- One turn of the loop of `_finalize`: a dead or failed unit is passed over, any other is read. -/
inductive UnitAdded (s : State F) (modelId : String) (index : Index F) (unit : JobUnitOutcome) :
    Index F → Prop where
  | passed (h : unit.state = .dead ∨ unit.resultStatus = some .failed) :
      UnitAdded s modelId index unit index
  | read {ref : String} {texts : List Str} {dims : ℤ} {embeddings : List (List F)}
      {chunks : List (IngestChunk F)} (alive : unit.state = .done)
      (succeeded : unit.resultStatus ≠ some .failed) (bound : unit.resultRef = some ref)
      (content : readUnit py s unit ref = .ok (texts, codes modelId.toList, dims, embeddings))
      (sameDims : index.dims.any (· ≠ dims) = false)
      (made : (texts.zip embeddings).mapM (fun p => ingestChunk p.1 p.2) = some chunks) :
      UnitAdded s modelId index unit ⟨chunks.foldl putChunk index.chunks, some dims⟩

variable {modelId : String} {index : Index F}

variable {index' : Index F}

theorem addUnit_eq_ok :
    addUnit py s modelId index unit = .ok index' ↔ UnitAdded py s modelId index unit index' := by
  constructor
  · intro h
    rw [addUnit] at h
    split at h
    · next hdead =>
      cases h
      exact .passed (.inl hdead)
    · split at h
      · next hfailed =>
        cases h
        exact .passed (.inr hfailed)
      · next hsucc =>
        split at h
        · next ref hdone href =>
          split at h
          · cases h
          next texts returned dims embeddings hread =>
          split at h
          · cases h
          next hmodel =>
          rw [not_ne_iff] at hmodel
          subst hmodel
          split at h
          · cases h
          next hdims =>
          split at h
          · cases h
          · next chunks hmade =>
            cases h
            exact .read hdone hsucc href hread (Bool.eq_false_iff.2 hdims) hmade
        · cases h
  · intro h
    cases h with
    | passed hskip =>
      rw [addUnit]
      by_cases hdead : unit.state = .dead
      · rw [if_pos hdead]
      · rw [if_neg hdead, if_pos (hskip.resolve_left hdead)]
    | read alive succeeded bound content sameDims made =>
      rw [addUnit, if_neg (by rw [alive]; nofun), if_neg succeeded, alive, bound]
      dsimp only
      rw [content]
      dsimp only
      rw [if_neg (not_not_intro rfl), if_neg (by rw [sameDims]; nofun), made]

theorem UnitAdded.grows (h : Grows s s') (hu : UnitAdded py s modelId index unit index') :
    UnitAdded py s' modelId index unit index' := by
  cases hu with
  | passed hskip => exact .passed hskip
  | read alive succeeded bound content sameDims made =>
    exact .read alive succeeded bound (readUnit_grows py h content) sameDims made

theorem foldlM_addUnit_grows (h : Grows s s') :
    ∀ {units : List JobUnitOutcome} {index index' : Index F},
      units.foldlM (addUnit py s modelId) index = .ok index' →
      units.foldlM (addUnit py s' modelId) index = .ok index'
  | [], _, _, hc => hc
  | unit :: units, index, index', hc => by
    rw [foldlM_cons] at hc ⊢
    obtain ⟨next, hu, hc⟩ := bind_ok hc
    rw [(addUnit_eq_ok py).2 (((addUnit_eq_ok py).1 hu).grows py h)]
    exact foldlM_addUnit_grows h hc

variable {details : JobDetails}

theorem collect_grows (h : Grows s s')
    (hc : collect py s details = .ok index) : collect py s' details = .ok index :=
  foldlM_addUnit_grows py h hc

/-! ### Jobs that have ended -/

/-- The job is done, and its files give `index`. -/
structure Ended (s : State F) (j : String) (details : JobDetails) (index : Index F) : Prop where
  done : ∃ r, s.store.working.job j = some r ∧ r.state = .done
  found : jobDetails s.store j = .ok (some details)
  collected : collect py s details = .ok index

variable {j : String}

section
variable (h : Ended py s j details index)
include h

/-- It has ended for good. -/
theorem Ended.step (hr : RosterInv G s.store)
    (hg : Grows s s') (op : Queue.Op) (hstore : s'.store = Queue.step cfg.queue s.store op) :
    Ended py s' j details index := by
  obtain ⟨r, hrow, hdone⟩ := h.done
  obtain ⟨hdone', hdet⟩ := hr.details_final cfg.queue op hrow hdone h.found
  exact ⟨hstore ▸ hdone', hstore ▸ hdet, collect_grows py hg h.collected⟩

theorem Ended.same (hg : Grows s s') (hstore : s'.store = s.store) : Ended py s' j details index :=
  ⟨hstore ▸ h.done, hstore ▸ h.found, collect_grows py hg h.collected⟩

/-- What a job's files give is one thing. -/
theorem Ended.unique (h' : Ended py s j details' index') : details = details' ∧ index = index' := by
  have hd : details = details' := some.inj (Except.ok.inj (h.found.symm.trans h'.found))
  subst hd
  exact ⟨rfl, Except.ok.inj (h.collected.symm.trans h'.collected)⟩

end

/-! ### The invariant -/

/-- A roster entry of a job for `modelId`: its id and its input come from one stored blob. -/
def Listed (s : State F) (modelId : String) (sh : Shape) : Prop :=
  ∃ blob ∈ s.hashed, sh.inputRef = hexdigest blob ∧ (s.inputs sh.inputRef).isSome ∧
    sh.workUnitId = workUnitId modelId sh.inputRef ∧ seed modelId sh.inputRef ∈ s.hashed

/-- The roster of `j` is the units of a corpus file. -/
def CorpusRoster (s : State F) (modelId digest j : String) (shapes : List Shape) : Prop :=
  ∃ content blobs, s.corpora digest = some content ∧
    chunkEmbed py cfg.chunksPerUnit (.file true content) = .ok blobs ∧
    shapes.filter (·.jobId = j) = (uniqueUnits [] (unitSpecs modelId blobs)).map (·.shape j)

/-- INVARIANT: rosters and files agree. -/
structure Rosters (s : State F) : Prop where
  listed : ∀ sh ∈ s.store.working.shapes, ∀ r, s.store.working.job sh.jobId = some r →
    Listed s r.modelId sh
  corpus : ∀ sh ∈ s.store.working.shapes, ∀ r, s.store.working.job sh.jobId = some r →
    r.kind = .embed → ∀ digest, corpusDigest cfg r.payloadRef = some digest →
    CorpusRoster py cfg s r.modelId digest sh.jobId s.store.working.shapes

/-- INVARIANT: what was recorded and what the sink received is what the files of the job give. -/
structure Settled (s : State F) : Prop where
  recorded : ∀ j n, jobFinalization s.store j = some n → ∃ collection details index,
    Ended py s j details index ∧ details.params.lookup collectionParam = some collection ∧
    n = index.chunks.length ∧ ∀ call ∈ sinkCalls collection details index, (j, call) ∈ s.sink
  received : ∀ j call, (j, call) ∈ s.sink → ∃ collection details index,
    Ended py s j details index ∧ details.params.lookup collectionParam = some collection ∧
    call ∈ sinkCalls collection details index

/-- INVARIANT: with `G`, what is known of a reference bound to a unit. -/
structure Inv (G : State F → String → String → Prop) (s : State F) : Prop where
  roster : RosterInv (G s) s.store
  files : Files s
  rosters : Rosters py cfg s
  settled : Settled py s

/-- What is known stays known. -/
def Lasting (G : State F → String → String → Prop) : Prop :=
  ∀ s s', Grows s s' → ∀ u ref, G s u ref → G s' u ref

theorem inv_start (G : State F → String → String → Prop) : Inv py cfg G {} := by
  refine ⟨rosterInv_empty, ⟨nofun, nofun, nofun⟩, ⟨nofun, nofun⟩, fun j n h => ?_, nofun⟩
  cases h

variable {py cfg} {digest : String}

omit [PyFloat F] in
theorem Listed.grows (h : Listed s modelId sh) (hg : Grows s s') : Listed s' modelId sh := by
  obtain ⟨blob, hb, hin, hsome, hid, hseed⟩ := h
  refine ⟨blob, hg.hashed hb, hin, ?_, hid, hg.hashed hseed⟩
  obtain ⟨b, hb'⟩ := isSome_iff_exists.1 hsome
  rw [hg.inputs _ b hb']
  rfl

theorem CorpusRoster.grows (h : CorpusRoster py cfg s modelId digest j shapes) (hg : Grows s s') :
    CorpusRoster py cfg s' modelId digest j shapes := by
  obtain ⟨content, blobs, hc, hb, hsh⟩ := h
  exact ⟨content, blobs, hg.corpora _ content hc, hb, hsh⟩

variable {G : State F → String → String → Prop}

/-- Files only: nothing else has changed. -/
theorem Inv.grow (hG : Lasting G)
    (h : Inv py cfg G s) (hg : Grows s s') (hf : Files s') (hstore : s'.store = s.store)
    (hsink : s'.sink = s.sink) : Inv py cfg G s' := by
  refine ⟨hstore ▸ h.roster.mono (hG s s' hg), hf, ⟨?_, ?_⟩, fun j n hn => ?_, fun j call hc => ?_⟩
  · rw [hstore]
    exact fun sh hsh r hr => (h.rosters.listed sh hsh r hr).grows hg
  · rw [hstore]
    exact fun sh hsh r hr hk digest hd => (h.rosters.corpus sh hsh r hr hk digest hd).grows hg
  · rw [hstore] at hn
    obtain ⟨collection, details, index, hend, hrest⟩ := h.settled.recorded j n hn
    exact ⟨collection, details, index, hend.same py hg hstore, hsink ▸ hrest⟩
  · rw [hsink] at hc
    obtain ⟨collection, details, index, hend, hrest⟩ := h.settled.received j call hc
    exact ⟨collection, details, index, hend.same py hg hstore, hrest⟩

/-! ### Calls of the queue -/

/-- The units of a submission come from stored blobs, those of a corpus from its file. -/
structure Fits (py : Python F) (cfg : Config) (s : State F) (job : JobSubmit)
    (specs : List WorkUnitSpec) : Prop where
  listed : ∀ spec ∈ specs, ∀ j, Listed s job.modelId (spec.shape j)
  corpus : job.kind = .embed → ∀ digest, corpusDigest cfg job.payloadRef = some digest →
    ∃ content blobs, s.corpora digest = some content ∧
      chunkEmbed py cfg.chunksPerUnit (.file true content) = .ok blobs ∧
      specs = unitSpecs job.modelId blobs

theorem fixed_eq {r : JobRow}
    (h : r.fixed = x) : r.kind = x.1 ∧ r.modelId = x.2.1 ∧ r.payloadRef = x.2.2.1 ∧
      r.paramsJson = x.2.2.2.1 := by
  subst h
  exact ⟨rfl, rfl, rfl, rfl⟩

variable {op : Queue.Op} {blobs : List Bytes} {now : ℤ} {calls : List (SinkCall F)}
  {ending : Ending}

theorem Rosters.queueStep (h : Rosters py cfg s) (ho : OutcomesInv s.store)
    (hfits : ∀ jobId job specs reuse now, op = .submitJob jobId job specs reuse now →
      Fits py cfg s job specs) :
    Rosters py cfg { s with store := Queue.step cfg.queue s.store op } := by
  obtain ⟨added, hstays, hadd⟩ := step_stays ho cfg.queue op
  have hwf := ho.wf.working
  -- an old entry: its job and its roster are what they were
  have hold : ∀ sh ∈ s.store.working.shapes, ∀ r',
      (Queue.step cfg.queue s.store op).working.job sh.jobId = some r' →
      ∃ r, s.store.working.job sh.jobId = some r ∧ r'.fixed = r.fixed := by
    intro sh hsh r' hr'
    obtain ⟨r, hr⟩ := hwf.job_of_shape hsh
    exact ⟨r, hr, hstays.fixed _ r r' hr hr'⟩
  -- a new one: its job was enrolled just now
  have hnew : ∀ sh ∈ added, ∀ r', (Queue.step cfg.queue s.store op).working.job sh.jobId = some r' →
      ∃ job specs, Fits py cfg s job specs ∧ r'.fixed = job.fixed ∧
        (∃ spec ∈ specs, sh = spec.shape sh.jobId) ∧
        (Queue.step cfg.queue s.store op).working.shapes.filter (·.jobId = sh.jobId)
          = (uniqueUnits [] specs).map (·.shape sh.jobId) := by
    intro sh hsh r' hr'
    rcases hadd with rfl | hadd
    · cases hsh
    obtain ⟨jobId, job, specs, reuse, now, r, hop, row, fixed, hspecs, hros⟩ :=
      hadd.roster hstays hwf
    obtain ⟨spec, hspec, rfl⟩ := hspecs sh hsh
    obtain rfl : r = r' := mem_unique row hr'
    exact ⟨job, specs, hfits _ _ _ _ _ hop, fixed, ⟨spec, hspec, rfl⟩, hros⟩
  refine ⟨fun sh hsh r' hr' => ?_, fun sh hsh r' hr' hk digest hd => ?_⟩
  · rcases mem_append.1 (hstays.shapes ▸ hsh) with hsh | hsh
    · obtain ⟨r, hr, hf⟩ := hold sh hsh r' hr'
      rw [(fixed_eq hf).2.1]
      exact h.listed sh hsh r hr
    · obtain ⟨job, specs, hfit, hf, ⟨spec, hspec, he⟩, -⟩ := hnew sh hsh r' hr'
      rw [(fixed_eq hf).2.1, he]
      exact hfit.listed spec hspec _
  · rcases mem_append.1 (hstays.shapes ▸ hsh) with hsh | hsh
    · obtain ⟨r, hr, hf⟩ := hold sh hsh r' hr'
      obtain ⟨hkind, hmodel, href, -⟩ := fixed_eq hf
      obtain ⟨content, blobs, hc, hb, hros⟩ :=
        h.corpus sh hsh r hr (hkind.symm.trans hk) digest (by rw [← hd, href]; rfl)
      rw [hmodel]
      exact ⟨content, blobs, hc, hb, (hstays.roster hadd (isSome_of_eq_some hr)).trans hros⟩
    · obtain ⟨job, specs, hfit, hf, -, hros⟩ := hnew sh hsh r' hr'
      obtain ⟨hkind, hmodel, href, -⟩ := fixed_eq hf
      obtain ⟨content, blobs, hc, hb, rfl⟩ :=
        hfit.corpus (hkind.symm.trans hk) digest (by rw [← hd, href]; rfl)
      rw [hmodel]
      exact ⟨content, blobs, hc, hb, hros⟩

theorem Settled.queueStep {G : String → String → Prop} (h : Settled py s)
    (hr : RosterInv G s.store) (hop : ∀ j n, op ≠ .markJobFinalized j n) :
    Settled py { s with store := Queue.step cfg.queue s.store op } := by
  have hend : ∀ {j details index}, Ended py s j details index →
      Ended py { s with store := Queue.step cfg.queue s.store op } j details index :=
    fun he => he.step py cfg hr (.store ..) op rfl
  refine ⟨fun j n hn => ?_, fun j call hc => ?_⟩
  · have hfinal : jobFinalization s.store j = some n := by
      rw [← hn, jobFinalization, jobFinalization, Sql.selectJobFinalization,
        Sql.selectJobFinalization]
      rw [step_finals hr.outcomes hop]
    obtain ⟨collection, details, index, he, hrest⟩ := h.recorded j n hfinal
    exact ⟨collection, details, index, hend he, hrest⟩
  · obtain ⟨collection, details, index, he, hrest⟩ := h.received j call hc
    exact ⟨collection, details, index, hend he, hrest⟩

/-- A call of the queue, other than the record of a finalization. -/
theorem Inv.queueStep (hG : Lasting G)
    (h : Inv py cfg G s) (hop : ∀ j n, op ≠ .markJobFinalized j n)
    (hbind : ∀ agentId u attempt digest ref now,
      op = .bindResultPayload agentId u attempt digest ref now → G s u ref)
    (hfits : ∀ jobId job specs reuse now, op = .submitJob jobId job specs reuse now →
      Fits py cfg s job specs) :
    Inv py cfg G { s with store := Queue.step cfg.queue s.store op } where
  roster := (h.roster.step cfg.queue hbind).mono (hG _ _ (.store ..))
  files := ⟨h.files.corpora, h.files.inputs, h.files.results⟩
  rosters := h.rosters.queueStep h.roster.outcomes hfits
  settled := h.settled.queueStep h.roster hop

/-! ### Submissions -/

omit [PyFloat F] in
theorem listed_storeUnits (h : spec ∈ unitSpecs modelId blobs) :
    Listed (storeUnits s modelId blobs) modelId (spec.shape j) := by
  obtain ⟨blob, hb, idx, rfl⟩ := mem_unitSpecs h
  refine ⟨blob, ?_, rfl, isSome_puts blobs s.inputs blob hb, rfl, ?_⟩
  · exact mem_append_right _ (mem_append_left _ hb)
  · exact mem_append_right _ (mem_append_right _ (mem_map_of_mem hb))

/-- The units of a job whose payload is a corpus file are those of the file. -/
theorem chunkJob_corpus {job : JobSubmit}
    (h : chunkJob py cfg.chunksPerUnit job.kind (payloadAt cfg s job.payloadRef elsewhere) = .ok blobs)
    (hkind : job.kind = .embed) (hd : corpusDigest cfg job.payloadRef = some digest) :
    ∃ content, s.corpora digest = some content ∧
      chunkEmbed py cfg.chunksPerUnit (.file true content) = .ok blobs := by
  rw [hkind, payloadAt, hd] at h
  dsimp only [chunkJob] at h
  cases hc : s.corpora digest with
  | none =>
    rw [hc] at h
    cases h
  | some content =>
    rw [hc] at h
    exact ⟨content, rfl, h⟩

theorem enqueue_cases (py : Python F) (cfg : Config) (s : State F) (job : JobSubmit) (payload : Payload) (reuse : Bool)
    (jobId : String) (now : ℤ) : (enqueue py cfg s job payload reuse jobId now).1 = s ∨
    ∃ blobs, chunkJob py cfg.chunksPerUnit job.kind payload = .ok blobs ∧
      (enqueue py cfg s job payload reuse jobId now).1 = { storeUnits s job.modelId blobs with
          store := Queue.step cfg.queue s.store
            (.submitJob jobId job (unitSpecs job.modelId blobs) reuse now) } := by
  rw [enqueue]
  split
  · exact .inl rfl
  next blobs hb =>
  refine .inr ⟨blobs, hb, ?_⟩
  rw [Queue.step]
  dsimp only
  rw [show (storeUnits s job.modelId blobs).store = s.store from rfl]
  split
  · next store e he => rw [he]
  next store id he =>
  rw [he]
  split
  · rfl
  · rfl

theorem Inv.enqueue (hG : Lasting G)
    (h : Inv py cfg G s) (job : JobSubmit) (elsewhere : Payload) (reuse : Bool) (jobId : String)
    (now : ℤ) : Inv py cfg G
      (enqueue py cfg s job (payloadAt cfg s job.payloadRef elsewhere) reuse jobId now).1 := by
  rcases enqueue_cases py cfg s job (payloadAt cfg s job.payloadRef elsewhere) reuse jobId now with
    he | ⟨blobs, hb, he⟩
  · rw [he]
    exact h
  · rw [he]
    have hunits : Inv py cfg G (storeUnits s job.modelId blobs) :=
      h.grow hG (grows_storeUnits ..) (h.files.storeUnits ..) rfl rfl
    refine hunits.queueStep hG nofun nofun fun jobId' job' specs reuse' now' hop => ?_
    cases hop
    refine ⟨fun spec hspec j => listed_storeUnits hspec, fun hkind digest hd => ?_⟩
    obtain ⟨content, hc, hchunk⟩ := chunkJob_corpus hb hkind hd
    exact ⟨content, blobs, hc, hchunk, rfl⟩

/-- A submission is refused before anything is written, or its corpus is stored and enqueued. -/
theorem submit_cases (py : Python F) (cfg : Config) (s : State F) (collection modelId : String)
    (texts : List Str) (jobId : String) (now : ℤ) :
    (∃ e, submit py cfg s collection modelId texts jobId now = (s, .error e)) ∨
    ∃ encoded payload, texts ≠ [] ∧ texts.mapM encode = some encoded ∧
      corpusBytes F texts = some payload ∧ submit py cfg s collection modelId texts jobId now =
        enqueue py cfg (storeCorpus s encoded payload)
          (ingestionJob cfg collection modelId (hexdigest payload))
          (payloadAt cfg (storeCorpus s encoded payload)
            (ingestionJob cfg collection modelId (hexdigest payload)).payloadRef .missing)
          true jobId now := by
  rw [submit]
  split
  · exact .inl ⟨_, rfl⟩
  split
  · exact .inl ⟨_, rfl⟩
  split
  · exact .inl ⟨_, rfl⟩
  next hne =>
  split
  · exact .inl ⟨_, rfl⟩
  split
  · next encoded payload henc hpay => exact .inr ⟨encoded, payload, hne, henc, hpay, rfl⟩
  · exact .inl ⟨_, rfl⟩

theorem Inv.submit (hG : Lasting G)
    (h : Inv py cfg G s) (collection modelId : String) (texts : List Str) (jobId : String) (now : ℤ) :
    Inv py cfg G (submit py cfg s collection modelId texts jobId now).1 := by
  rcases submit_cases py cfg s collection modelId texts jobId now with
    ⟨e, he⟩ | ⟨encoded, payload, -, -, -, he⟩
  · rw [he]
    exact h
  · rw [he]
    have hstored : Inv py cfg G (storeCorpus s encoded payload) :=
      h.grow hG (grows_storeCorpus ..) (h.files.storeCorpus ..) rfl rfl
    exact hstored.enqueue hG ..

/-! ### Uploads -/

/-- The files and the log after an upload's content is kept. -/
def keepResult (s : State F) (content : Bytes) : State F :=
  { s with results := put hexdigest s.results content
           hashed := s.hashed ++ [content] }

omit [PyFloat F] in
theorem grows_keepResult (s : State F) (content : Bytes) : Grows s (keepResult s content) :=
  ⟨.refl _, .refl _, extends_put, subset_append_left _ _⟩

theorem Inv.upload (hG : Lasting G) (h : Inv py cfg G s)
    (hbind : G (keepResult s content) u (hexdigest content)) :
    Inv py cfg G (upload s agentId u attempt content now) := by
  rw [Ingest.upload]
  split
  · exact h
  have hsub := (grows_keepResult s content).hashed
  have hkept : Inv py cfg G (keepResult s content) := by
    refine h.grow hG (grows_keepResult s content) ⟨h.files.corpora.mono hsub,
      h.files.inputs.mono hsub, (h.files.results.mono hsub).put ?_⟩ rfl rfl
    exact mem_append_right _ (mem_singleton.2 rfl)
  have hstep : Inv py cfg G { keepResult s content with
      store := Queue.step cfg.queue s.store (.bindResultPayload agentId u attempt
        (hexdigest content) (hexdigest content) now) } := by
    refine hkept.queueStep hG nofun ?_ nofun
    rintro _ _ _ _ _ _ ⟨⟩
    exact hbind
  exact hstep

/-! ### Status requests -/

omit [PyFloat F] in
theorem returned_subset : ending.returned calls ⊆ calls := by
  cases ending with
  | returns | dies => exact List.Subset.refl _
  | createRaises => exact nil_subset _
  | upsertRaises => exact take_subset _ _

omit [PyFloat F] in
/-- `_finalize` gets to its end only past all its calls. -/
theorem returned_of_finishes
    (h : ending.finishes calls = true) : ending.returned calls = calls := by
  cases ending with
  | returns => rfl
  | createRaises | upsertRaises => rw [List.isEmpty_iff.1 h]; rfl
  | dies => cases h

/-- The sink has returned from some of the calls the job's files call for. -/
def sent (s : State F) (collection j : String) (details : JobDetails) (index : Index F)
    (ending : Ending) : State F :=
  { s with sink := s.sink ++ (ending.returned (sinkCalls collection details index)).map (j, ·) }

theorem finalize_cases (py : Python F) (s : State F) (collection j : String) (details : JobDetails)
    (ending : Ending) : (finalize py s collection j details ending).1 = s ∨
    ∃ index, collect py s details = .ok index ∧
      ((finalize py s collection j details ending).1 = sent s collection j details index ending ∨
        (ending.finishes (sinkCalls collection details index) = true ∧
          (finalize py s collection j details ending).1 =
            { sent s collection j details index ending with
              store := (markJobFinalized s.store j index.chunks.length).1 })) := by
  rw [finalize]
  split
  · exact .inl rfl
  next index hc =>
  refine .inr ⟨index, hc, ?_⟩
  dsimp only
  split
  · next hfin =>
    refine .inr ⟨hfin, ?_⟩
    split
    · next store indexed hm => rw [hm]; rfl
    · next store hm => rw [hm]; rfl
    · next store e hm => rw [hm]; rfl
  · exact .inl rfl

/-- A request changes something only for a job that has ended and is not recorded yet. -/
theorem status_cases (py : Python F) (s : State F) (collection j : String) (ending : Ending) :
    (status py s collection j ending).1 = s ∨ ∃ details index, Ended py s j details index ∧
      details.params.lookup collectionParam = some collection ∧
      ((status py s collection j ending).1 = sent s collection j details index ending ∨
        (ending.finishes (sinkCalls collection details index) = true ∧
          (status py s collection j ending).1 = { sent s collection j details index ending with
              store := (markJobFinalized s.store j index.chunks.length).1 })) := by
  rw [status]
  split
  · exact .inl rfl
  · next st details hst hdet =>
    split
    · exact .inl rfl
    next hparam =>
    split
    · exact .inl rfl
    next hdone =>
    split
    · exact .inl rfl
    next hnone =>
    obtain ⟨r, hr, rfl⟩ := map_eq_some_iff.1 hst
    have hfin := finalize_cases py s collection j details ending
    rcases hf : finalize py s collection j details ending with ⟨s', e | n⟩
    all_goals
      rw [hf] at hfin
      rcases hfin with he | ⟨index, hc, he⟩
      · exact .inl he
      · exact .inr ⟨details, index, ⟨⟨r, hr, not_not.1 hdone⟩, hdet, hc⟩, not_not.1 hparam, he⟩
  · exact .inl rfl

theorem jobFinalization_mark {id : String}
    (h : jobFinalization (markJobFinalized store id indexed).1 j = some n) :
    jobFinalization store j = some n ∨ (id = j ∧ n = indexed.toNat) := by
  rw [markJobFinalized] at h
  split at h
  · exact .inl h
  rw [Sql.insertJobFinalization] at h
  split at h
  · next hdb =>
    split at hdb
    · exact .inl h
    · cases hdb
  · next db hdb =>
    split at hdb
    · cases hdb
    cases hdb
    rw [jobFinalization, Store.commit, Sql.selectJobFinalization, Table.get_insertIgnore,
      map_eq_some_iff] at h
    obtain ⟨row, hrow, rfl⟩ := h
    rcases or_eq_some_iff.1 hrow with hrow | ⟨-, hrow⟩
    · exact .inl (by rw [jobFinalization, Sql.selectJobFinalization, hrow]; rfl)
    split at hrow
    · next hid =>
      cases hrow
      exact .inr ⟨hid, rfl⟩
    · cases hrow

variable {collection : String}

theorem Settled.sent (h : Settled py s) (hend : Ended py s j details index)
    (hcol : details.params.lookup collectionParam = some collection) (ending : Ending) :
    Settled py (sent s collection j details index ending) := by
  have hsame : ∀ {j' details' index'}, Ended py s j' details' index' →
      Ended py (Ingest.sent s collection j details index ending) j' details' index' :=
    fun he => he.same py (.store ..) rfl
  refine ⟨fun j' n hn => ?_, fun j' call hc => ?_⟩
  · obtain ⟨c, d, i, he, hc, hlen, hall⟩ := h.recorded j' n hn
    exact ⟨c, d, i, hsame he, hc, hlen, fun call hcall => mem_append_left _ (hall call hcall)⟩
  · rcases mem_append.1 hc with hc | hc
    · obtain ⟨c, d, i, he, hrest⟩ := h.received j' call hc
      exact ⟨c, d, i, hsame he, hrest⟩
    · obtain ⟨call', hcall, heq⟩ := mem_map.1 hc
      cases heq
      exact ⟨collection, details, index, hsame hend, hcol, returned_subset hcall⟩

/-- The number recorded is that of the chunks the sink has by now. -/
theorem Settled.marked (cfg : Config) {G : String → String → Prop} (h : Settled py s)
    (hr : RosterInv G s.store) (hend : Ended py s j details index)
    (hcol : details.params.lookup collectionParam = some collection)
    (hsink : ∀ call ∈ sinkCalls collection details index, (j, call) ∈ s.sink) :
    Settled py { s with store := (markJobFinalized s.store j index.chunks.length).1 } := by
  have hstep : ∀ {j' details' index'}, Ended py s j' details' index' →
      Ended py { s with store := (markJobFinalized s.store j index.chunks.length).1 }
        j' details' index' :=
    fun he => he.step py cfg hr (.store ..) (.markJobFinalized j index.chunks.length) rfl
  refine ⟨fun j' n hn => ?_, fun j' call hc => ?_⟩
  · rcases jobFinalization_mark hn with hn | ⟨rfl, rfl⟩
    · obtain ⟨c, d, i, he, hrest⟩ := h.recorded j' n hn
      exact ⟨c, d, i, hstep he, hrest⟩
    · exact ⟨collection, details, index, hstep hend, hcol, rfl, hsink⟩
  · obtain ⟨c, d, i, he, hrest⟩ := h.received j' call hc
    exact ⟨c, d, i, hstep he, hrest⟩

theorem Inv.status (hG : Lasting G) (h : Inv py cfg G s) (collection j : String) (ending : Ending) :
    Inv py cfg G (status py s collection j ending).1 := by
  rcases status_cases py s collection j ending with he | ⟨details, index, hend, hcol, he⟩
  · rw [he]
    exact h
  · have hsent : Inv py cfg G (sent s collection j details index ending) :=
      ⟨h.roster.mono (hG _ _ (.store ..)), ⟨h.files.corpora, h.files.inputs, h.files.results⟩,
        ⟨h.rosters.listed, h.rosters.corpus⟩, h.settled.sent hend hcol ending⟩
    rcases he with he | ⟨hfin, he⟩
    · rw [he]
      exact hsent
    · rw [he]
      have hop : ∀ jobId job specs reuse now, Queue.Op.markJobFinalized j index.chunks.length
          = .submitJob jobId job specs reuse now → Fits py cfg (sent s collection j details index
            ending) job specs := nofun
      have hroster : RosterInv (G (Ingest.sent s collection j details index ending))
          (Queue.step cfg.queue s.store (.markJobFinalized j index.chunks.length)) :=
        hsent.roster.step cfg.queue nofun
      refine ⟨hroster.mono (hG _ _ (.store ..)), ⟨h.files.corpora, h.files.inputs, h.files.results⟩,
        hsent.rosters.queueStep hsent.roster.outcomes hop, ?_⟩
      refine hsent.settled.marked cfg hsent.roster (hend.same py (.store ..) rfl) hcol
        fun call hcall => mem_append_right _ (mem_map_of_mem ?_)
      rw [returned_of_finishes hfin]
      exact hcall

/-! ### Runs -/

/-- INVARIANT: every step keeps it, uploads of what is known of their unit. -/
theorem Inv.step (hG : Lasting G) (h : Inv py cfg G s) (act : Act)
    (hup : ∀ agentId u attempt content now, act = .upload agentId u attempt content now →
      G (keepResult s content) u (hexdigest content)) : Inv py cfg G (step py cfg s act) := by
  cases act with
  | ingest collection modelId texts jobId now => exact h.submit hG ..
  | submitJob job payload jobId now => exact h.enqueue hG ..
  | upload agentId u attempt content now => exact h.upload hG (hup _ _ _ _ _ rfl)
  | poll collection j ending => exact h.status hG ..
  | queue op =>
    rw [Ingest.step]
    split
    · next hop =>
      refine h.queueStep hG ?_ ?_ ?_
      · rintro j n rfl
        cases hop
      · rintro agentId u attempt digest ref now rfl
        cases hop
      · rintro jobId job specs reuse now rfl
        cases hop
    · exact h

/-- FRAME: files only grow, and the queue makes at most one call. -/
structure Moves (cfg : Config) (s s' : State F) : Prop where
  grows : Grows s s'
  store : s'.store = s.store ∨ ∃ op, s'.store = Queue.step cfg.queue s.store op

omit [PyFloat F] in
theorem Moves.refl (cfg : Config) (s : State F) : Moves cfg s s := ⟨.store s s.store s.sink, .inl rfl⟩

omit [PyFloat F] in
theorem Grows.trans (hab : Grows a b) (hbc : Grows b c) : Grows a c :=
  ⟨hab.corpora.trans hbc.corpora, hab.inputs.trans hbc.inputs, hab.results.trans hbc.results,
    List.Subset.trans hab.hashed hbc.hashed⟩

theorem moves_enqueue (py : Python F) (cfg : Config) (s : State F) (job : JobSubmit)
    (payload : Payload) (reuse : Bool) (jobId : String) (now : ℤ) :
    Moves cfg s (enqueue py cfg s job payload reuse jobId now).1 := by
  rcases enqueue_cases py cfg s job payload reuse jobId now with he | ⟨blobs, -, he⟩
  · rw [he]
    exact .refl cfg s
  · rw [he]
    exact ⟨(grows_storeUnits ..).trans (.store ..),
      .inr ⟨.submitJob jobId job (unitSpecs job.modelId blobs) reuse now, rfl⟩⟩

theorem moves_submit : Moves cfg s (submit py cfg s collection modelId texts jobId now).1 := by
  rcases submit_cases py cfg s collection modelId texts jobId now with
    ⟨e, he⟩ | ⟨encoded, payload, -, -, -, he⟩
  · rw [he]
    exact .refl cfg s
  · rw [he]
    obtain ⟨hg, hst⟩ := moves_enqueue py cfg (storeCorpus s encoded payload) _ _ true jobId now
    exact ⟨(grows_storeCorpus s encoded payload).trans hg, hst⟩

theorem moves_step : Moves cfg s (step py cfg s act) := by
  cases act with
  | ingest collection modelId texts jobId now => exact moves_submit
  | submitJob job payload jobId now => exact moves_enqueue ..
  | upload agentId u attempt content now =>
    rw [step, upload]
    split
    · exact .refl cfg s
    · exact ⟨(grows_keepResult s content).trans (.store ..), .inr ⟨.bindResultPayload .., rfl⟩⟩
  | poll collection j ending =>
    rw [step]
    rcases status_cases py s collection j ending with he | ⟨details, index, -, -, he⟩
    · rw [he]
      exact .refl cfg s
    rcases he with he | ⟨-, he⟩
    · rw [he]
      exact ⟨.store .., .inl rfl⟩
    · rw [he]
      exact ⟨.store .., .inr ⟨.markJobFinalized j index.chunks.length, rfl⟩⟩
  | queue op =>
    rw [step]
    split
    · exact ⟨.store .., .inr ⟨op, rfl⟩⟩
    · exact .refl cfg s

end Fallow.Ingest

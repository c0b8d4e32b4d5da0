import Fallow.Ingest.Embed
import Fallow.Lib.Content
import Fallow.Rag.Store

/-! `IngestionService` of `app/rag_ingestion.py`, with the directories and the queue it works on.

    A submission writes the corpus, lets the chunker write the unit inputs and enqueues one job. A
    status request of a job that is done reads every input and every result back, pairs texts with
    vectors, hands the pairs to the vector sink once and records their number with the job.

        submit    corpus_dir ─▶ unit_input_dir ─▶ queue
        status    queue ─▶ unit_input_dir, result_dir ─▶ sink ─▶ queue

    Files are written under the digest of their content unless that name is taken. -/

namespace Fallow.Ingest
open Lib Lib.PyJson Lib.PyStr Queue Sha256

/-! ### State -/

structure Config where
  queue : Queue.Config
  chunksPerUnit : ℕ
  chunksPerUnit_pos : 1 ≤ chunksPerUnit
  corpusDir : String

abbrev IngestChunk (F : Type) := Rag.Chunk (Value F) F

abbrev SinkCall (F : Type) := Rag.Call (Value F) F

structure State (F : Type) where
  store : Queue.Store := {}
  corpora : Content.Dir String Bytes := fun _ => none
  inputs : Content.Dir String Bytes := fun _ => none
  results : Content.Dir String Bytes := fun _ => none
  /-- the calls the sink has returned from, with the ingestion that made them -/
  sink : List (String × SinkCall F) := []
  /-- every byte string whose digest became the name of a file, a unit or a chunk; no code reads it -/
  hashed : List Bytes := []

/-! ### Errors -/

inductive PayloadError where
  | noPayload (workUnitId : String)
  | inputUnreadable (name : String)
  | inputNotStrings (name : String)
  | reference
  | resultUnreadable (name : String)
  | metadata (name : String)
  | rows (name : String) (actual : Option ℕ) (expected : ℕ)
  | embedding (name : String)
  /-- the `OverflowError` of `float`, which is not caught -/
  | overflow (name : String)
  | model (workUnitId : String) (returned : Str) (expected : String)
  | dimensions
  deriving DecidableEq

inductive IngestionError where
  | value (text : String)
  /-- a `UnicodeEncodeError` -/
  | unencodable
  | chunk (e : ChunkError)
  | queue (e : QueueError)
  /-- the `ValueError` of a unit whose state is `NULL` -/
  | details (text : String)
  | vanished
  | notFound (ingestionId : String)
  | payload (e : PayloadError)
  | sink
  deriving DecidableEq

/-! ### Reading a unit back -/

variable {F : Type} [PyFloat F] (py : Python F)

/-- `_parse_texts` of a file, `none` when it is not there. -/
def parseTexts (name : String) (content : Option Bytes) : Except PayloadError (List Str) :=
  match content.bind (loadsBytes py) with
  | none => .error (.inputUnreadable name)
  | some v => match stringArray v with
    | none => .error (.inputNotStrings name)
    | some texts => .ok texts

/-- `math.isfinite(float(v))` of a number that is no bool; `none` when `float` overflows. -/
def isFiniteNumber : Value F → Option Bool
  | .float x => some (PyFloat.isFinite x)
  | .int n => (PyFloat.ofInt n : Option F).map PyFloat.isFinite
  | _ => some false

/-- `all(… for item in raw)`, up to the first item that decides. -/
def allFinite : List (Value F) → Option Bool
  | [] => some true
  | v :: vs => match isFiniteNumber v with
    | none => none
    | some false => some false
    | some true => allFinite vs

def parseRow (name : String) (dims : ℤ) : Value F → Except PayloadError (List F)
  | .arr vs =>
    if (vs.length : ℤ) ≠ dims then .error (.embedding name)
    else match allFinite vs with
      | none => .error (.overflow name)
      | some false => .error (.embedding name)
      | some true => (vs.mapM toFloat).elim (.error (.overflow name)) .ok
  | _ => .error (.embedding name)

def parsePayload (name : String) (content : Option Bytes) (expected : ℕ) :
    Except PayloadError (Str × ℤ × List (List F)) :=
  match content.bind (loadsBytes py) with
  | none => .error (.resultUnreadable name)
  | some v => match item "model_id" v, item "dims" v, item "embeddings" v with
    | some modelId, some dims, some embeddings => match modelId, dims with
      | .str modelId, .int dims =>
        if dims ≤ 0 then .error (.metadata name)
        else match embeddings with
          | .arr raw =>
            if raw.length ≠ expected then .error (.rows name (some raw.length) expected)
            else (raw.mapM (parseRow name dims)).map fun rows => (modelId, dims, rows)
          | _ => .error (.rows name none expected)
      | _, _ => .error (.metadata name)
    | _, _, _ => .error (.resultUnreadable name)

def isSha256 (ref : String) : Bool :=
  ref.toList.length = 64 ∧ ref.toList.all (· ∈ hexDigits)

/-! ### `_finalize` -/

/-- The loop variables `chunks`, a dict by chunk id, and `dims`. -/
structure Index (F : Type) where
  chunks : List (IngestChunk F) := []
  dims : Option ℤ := none

/-- `chunks[chunk.chunk_id] = chunk`. -/
def putChunk (chunks : List (IngestChunk F)) (chunk : IngestChunk F) : List (IngestChunk F) :=
  Table.upsert (·.chunkId) chunk (fun _ => chunk) chunks

def ingestChunk (text : Str) (embedding : List F) : Option (IngestChunk F) :=
  (chunkId text).map fun id => ⟨codes id.toList, text, .obj [], embedding⟩

/-- What a unit that counts holds: its texts, the model and dimension of its result, its rows. -/
def readUnit (s : State F) (unit : JobUnitOutcome) (ref : String) :
    Except PayloadError (List Str × Str × ℤ × List (List F)) :=
  match parseTexts py unit.inputRef (s.inputs unit.inputRef) with
  | .error e => .error e
  | .ok texts =>
    if ¬ isSha256 ref then .error .reference
    else (parsePayload py ref (s.results ref) texts.length).map (texts, ·)

def addUnit (s : State F) (modelId : String) (index : Index F) (unit : JobUnitOutcome) :
    Except IngestionError (Index F) :=
  if unit.state = .dead then .ok index
  else if unit.resultStatus = some .failed then .ok index
  else match unit.state, unit.resultRef with
    | .done, some ref => match readUnit py s unit ref with
      | .error e => .error (.payload e)
      | .ok (texts, returned, dims, embeddings) =>
        if returned ≠ codes modelId.toList then
          .error (.payload (.model unit.workUnitId returned modelId))
        else if index.dims.any (· ≠ dims) then .error (.payload .dimensions)
        else match (texts.zip embeddings).mapM fun p => ingestChunk p.1 p.2 with
          | none => .error .unencodable
          | some chunks => .ok ⟨chunks.foldl putChunk index.chunks, some dims⟩
    | _, _ => .error (.payload (.noPayload unit.workUnitId))

/-- The loop of `_finalize`. -/
def collect (s : State F) (details : JobDetails) : Except IngestionError (Index F) :=
  details.units.foldlM (addUnit py s details.modelId) {}

/-! ### Submission -/

variable (cfg : Config)

def collectionParam : String := "rag_collection"

/-- `str(self._corpus_dir / f"{digest}.jsonl")`. -/
def corpusPath (digest : String) : String := cfg.corpusDir ++ "/" ++ digest ++ ".jsonl"

/-- The digest in the path of a corpus file. -/
def corpusDigest (path : String) : Option String :=
  let digest := String.ofList ((path.toList.drop (cfg.corpusDir.toList.length + 1)).take 64)
  if isSha256 digest ∧ path = corpusPath cfg digest then some digest else none

/-- What a path is found to be: the service alone writes corpus files, `elsewhere` is the rest. -/
def payloadAt (s : State F) (path : String) (elsewhere : Payload) : Payload :=
  match corpusDigest cfg path with
  | none => elsewhere
  | some digest => (s.corpora digest).elim .missing (.file true)

def storeCorpus (s : State F) (encoded : List Bytes) (payload : Bytes) : State F :=
  { s with corpora := Content.put hexdigest s.corpora payload
           hashed := s.hashed ++ (encoded ++ [payload]) }

/-- The files `chunk_job` writes, and the strings it hashes on the way. -/
def storeUnits (s : State F) (modelId : String) (blobs : List Bytes) : State F :=
  { s with inputs := blobs.foldl (Content.put hexdigest) s.inputs
           hashed := s.hashed ++ (blobs ++ blobs.map fun b => seed modelId (hexdigest b)) }

/-- `chunk_job`, `submit_job`, `job_status`: what both routes that submit have in common. -/
def enqueue (s : State F) (job : JobSubmit) (payload : Payload) (reuseActive : Bool) (jobId : String)
    (now : ℤ) : State F × Except IngestionError JobStatus :=
  match chunkJob py cfg.chunksPerUnit job.kind payload with
  | .error e => (s, .error (.chunk e))
  | .ok blobs =>
    let s := storeUnits s job.modelId blobs
    match submitJob cfg.queue s.store jobId job (unitSpecs job.modelId blobs) reuseActive now with
    | (store, .error e) => ({ s with store := store }, .error (.queue e))
    | (store, .ok id) => match jobStatus store id with
      | none => ({ s with store := store }, .error .vanished)
      | some status => ({ s with store := store }, .ok status)

def ingestionJob (collection modelId digest : String) : JobSubmit where
  kind := .embed
  modelId := modelId
  payloadRef := corpusPath cfg digest
  params := [(collectionParam, collection)]
  priority := 0

/-- `IngestionService.submit`. -/
def submit (s : State F) (collection modelId : String) (texts : List Str) (jobId : String) (now : ℤ) :
    State F × Except IngestionError JobStatus :=
  if blank (codes collection.toList) then (s, .error (.value "collection must not be empty"))
  else if blank (codes modelId.toList) then (s, .error (.value "model id must not be empty"))
  else if texts = [] then
    (s, .error (.value "document upload must contain at least one chunk"))
  else if texts.any blank then (s, .error (.value "chunk text must not be empty"))
  else match texts.mapM encode, corpusBytes F texts with
    | some encoded, some payload =>
      let s := storeCorpus s encoded payload
      let job := ingestionJob cfg collection modelId (hexdigest payload)
      enqueue py cfg s job (payloadAt cfg s job.payloadRef .missing) true jobId now
    | _, _ => (s, .error .unencodable)

/-! ### Status -/

inductive IngestionState where | running | ready | partially
  deriving DecidableEq, Repr

structure IngestionStatus where
  ingestionId : String
  state : IngestionState
  totalUnits : ℕ
  doneUnits : ℕ
  deadUnits : ℕ
  indexedChunks : ℕ
  deriving DecidableEq, Repr

def ingestionStatus (status : JobStatus) (state : IngestionState) (indexed : ℕ) : IngestionStatus :=
  ⟨status.jobId, state, status.totalUnits, status.doneUnits, status.deadUnits, indexed⟩

/-- How the calls of a status request end: all return, one of the sink's raises, or the process dies
    between the sink and the record of it. -/
inductive Ending where | returns | createRaises | upsertRaises | dies
  deriving DecidableEq, Repr

/-- The calls `_finalize` makes to the sink. -/
def sinkCalls (collection : String) (details : JobDetails) (index : Index F) : List (SinkCall F) :=
  match index.chunks, index.dims with
  | [], _ => []
  | _ :: _, none => []
  | _ :: _, some dims =>
    [.createCollection (codes collection.toList) (codes details.modelId.toList) dims,
     .upsert (codes collection.toList) index.chunks]

/-- The ones that return. -/
def Ending.returned (calls : List (SinkCall F)) : Ending → List (SinkCall F)
  | .createRaises => []
  | .upsertRaises => calls.take 1
  | _ => calls

/-- Whether `_finalize` gets to its end; without calls nothing can raise. -/
def Ending.finishes (calls : List (SinkCall F)) : Ending → Bool
  | .returns => true
  | .dies => false
  | _ => calls.isEmpty

/-- `_finalize` and `mark_job_finalized`. -/
def finalize (s : State F) (collection ingestionId : String) (details : JobDetails)
    (ending : Ending) : State F × Except IngestionError ℕ :=
  match collect py s details with
  | .error e => (s, .error e)
  | .ok index =>
    let calls := sinkCalls collection details index
    let s := { s with sink := s.sink ++ (ending.returned calls).map (ingestionId, ·) }
    if ending.finishes calls then
      match markJobFinalized s.store ingestionId index.chunks.length with
      | (store, .ok (some indexed)) => ({ s with store := store }, .ok indexed)
      | (store, .ok none) => ({ s with store := store }, .error .vanished)
      | (store, .error e) => ({ s with store := store }, .error (.queue e))
    else (s, .error .sink)

/-- `READY` or `PARTIAL`, with the number of chunks. -/
def answer (status : JobStatus) (details : JobDetails) (indexed : ℕ) : IngestionStatus :=
  let failed := details.units.any (·.resultStatus = some .failed)
  ingestionStatus status (if status.deadUnits ≠ 0 ∨ failed then .partially else .ready) indexed

/-- `IngestionService.status`. -/
def status (s : State F) (collection ingestionId : String) (ending : Ending) :
    State F × Except IngestionError IngestionStatus :=
  match jobStatus s.store ingestionId, jobDetails s.store ingestionId with
  | _, .error text => (s, .error (.details text))
  | some status, .ok (some details) =>
    if details.params.lookup collectionParam ≠ some collection then
      (s, .error (.notFound ingestionId))
    else if status.state ≠ .done then (s, .ok (ingestionStatus status .running 0))
    else match jobFinalization s.store ingestionId with
      | some indexed => (s, .ok (answer status details indexed))
      | none => match finalize py s collection ingestionId details ending with
        | (s, .error e) => (s, .error e)
        | (s, .ok indexed) => (s, .ok (answer status details indexed))
  | _, _ => (s, .error (.notFound ingestionId))

end Fallow.Ingest

import Fallow.Lib.PyText
import Fallow.Lib.Sha256
import Fallow.ModelCache.Fs

/-! The agent-side model cache: `HttpModelStore` of the Python agent and `Store` of the Go agent.

        cache_dir/<model_id>/<file_name>              verified blob
        cache_dir/<model_id>/<file_name>.part         in-flight or interrupted download
        cache_dir/<model_id>/<file_name>.sha256       marker: what the blob was verified against
        cache_dir/<model_id>/<file_name>.sha256.tmp   the marker being written

    The Go store is a port of the Python one over the same directory. Both are the programs below;
    where they part ways the definition asks `Agent`: how a marker is trimmed, which errors of one
    attempt are retried, and whether an error of the clean-up replaces the one that led to it.

    One store runs one download of a model at a time (the per-model lock), so a second `ensure` of
    the model starts when the first is over; its look before it waits is `pathIfPresent`. -/

namespace Fallow.ModelCache
open Lib Crash String Sha256

inductive Agent where
  | python | go
  deriving DecidableEq, Repr

/-- The part of a manifest the cache reads, as the protocol's schema admits it. -/
structure ModelManifest where
  modelId : String
  fileName : String
  sha256 : String
  sizeBytes : ℕ
  sha256_length : sha256.toList.length = 64
  sha256_hex : ∀ c ∈ sha256.toList, c ∈ hexDigits
  sizeBytes_pos : 0 < sizeBytes

structure Store where
  agent : Agent
  baseUrl : String
  cacheDir : String
  maxRetries : ℕ := 3
  chunkSize : ℕ := 1024 * 1024
  chunkSize_pos : 0 < chunkSize := by decide

/-- The manifest a coordinator publishes for a blob. -/
def ModelManifest.ofBlob (modelId fileName : String) (bytes : Bytes) (h : 0 < bytes.length) :
    ModelManifest where
  modelId := modelId
  fileName := fileName
  sha256 := hexdigest bytes
  sizeBytes := bytes.length
  sha256_length := length_hexdigest
  sha256_hex := fun _ => mem_hexdigest
  sizeBytes_pos := h

inductive Error where
  /-- no response: `httpx.TransportError`, `*url.Error` -/
  | transport
  /-- the body broke off: `httpx.TransportError`, an error of `body.Read` -/
  | brokenBody
  | retryableStatus (statusCode : ℕ)
  | os
  /-- `UnicodeDecodeError` of a marker -/
  | decode
  | fetch (url : String) (attempts : ℕ)
  | verification (modelId gotSha256 sha256 : String) (gotSize size : ℕ)
  deriving DecidableEq, Repr

abbrev Prog := Crash.Prog Answer Error

def isFile (p : Path) : Prog Bool := .perform (Cmd.isFile p)

def readFile (p : Path) : Prog (Option Bytes) := .perform (Cmd.read p)

def disk (op : Op) : Prog Bool := .perform (Cmd.disk op)

def httpGet (modelId : String) (range : Option String) : Prog Response :=
  .perform (Cmd.get modelId range)

def sleep (factor : ℕ) : Prog Unit := .perform (Cmd.sleep factor)

/-- An operation whose failure ends the call. -/
def orRaise (op : Op) : Prog Unit := do
  if ← disk op then pure () else .raise .os

/-! ### Paths and markers -/

def modelDir (cacheDir : String) (m : ModelManifest) : Path := cacheDir ++ "/" ++ m.modelId

def blobPath (cacheDir : String) (m : ModelManifest) : Path := modelDir cacheDir m ++ "/" ++ m.fileName

def partPath (cacheDir : String) (m : ModelManifest) : Path := blobPath cacheDir m ++ ".part"

def markerPath (cacheDir : String) (m : ModelManifest) : Path := blobPath cacheDir m ++ ".sha256"

def encodeAscii (text : String) : Bytes := text.toList.map fun c => UInt8.ofNat c.toNat

def decodeAscii (bs : Bytes) : Option String :=
  if bs.all fun b => b.toNat < 128 then some (ofList (bs.map fun b => Char.ofNat b.toNat))
  else none

/-- The ASCII characters `strings.TrimSpace` removes. -/
def goSpace (c : Char) : Bool := 9 ≤ c.toNat ∧ c.toNat ≤ 13 ∨ c.toNat = 32

/-- `read_marker`: the stored text, stripped; `None` when absent or unreadable. -/
def Python.readMarker (marker : Path) : Prog (Option String) := do
  if ← isFile marker then
    match ← readFile marker with
    | none => pure none
    | some bs => match decodeAscii bs with
      | none => .raise .decode
      | some text => pure (some (ofList (strip text.toList)))
  else pure none

/-- `readMarker`: the stored text, trimmed; empty when absent or unreadable. -/
def Go.readMarker (marker : Path) : Prog String := do
  match ← readFile marker with
  | none => pure ""
  | some bs => match decodeAscii bs with
    | none => pure ""
    | some text => pure (ofList (stripBy goSpace text.toList))

def Agent.readMarker : Agent → Path → Prog (Option String)
  | .python, marker => Python.readMarker marker
  | .go, marker => do
    let text ← Go.readMarker marker
    pure (some text)

/-- Temp file and rename. -/
def writeMarkerAtomic (marker : Path) (sha256 : String) : Prog Unit := do
  let tmp := marker ++ ".tmp"
  orRaise (.create tmp)
  orRaise (.append tmp (encodeAscii sha256))
  orRaise .close
  orRaise (.rename tmp marker)

/-! ### One attempt -/

/-- A running hash, by the bytes it was fed. -/
structure Hasher where
  fed : Bytes := []

def Hasher.update (h : Hasher) (data : Bytes) : Hasher := ⟨h.fed ++ data⟩

def Hasher.hexdigest (h : Hasher) : String := Sha256.hexdigest h.fed

structure DownloadResult where
  sha256 : String
  size : ℕ

/-- The read loop over an open file; every block but the last, empty one is at least a byte, so the
    file's length bounds the number of turns. -/
def feedBlocks (blockSize : ℕ) : (turns : ℕ) → (rest : Bytes) → Hasher → (size : ℕ) → Hasher × ℕ
  | 0, _, hasher, size => (hasher, size)
  | turns + 1, rest, hasher, size => match rest.take blockSize with
    | [] => (hasher, size)
    | b :: bs => feedBlocks blockSize turns (rest.drop blockSize) (hasher.update (b :: bs))
        (size + (b :: bs).length)

def seedFromExisting (hasher : Hasher) (part : Path) (blockSize : ℕ) : Prog (Hasher × ℕ) := do
  if ← isFile part then
    match ← readFile part with
    | none => .raise .os
    | some bs => pure (feedBlocks blockSize bs.length bs hasher 0)
  else pure (hasher, 0)

/-- 206 appends to what is there, 200 restarts from zero, anything else is an error to retry. -/
def resolveDisposition (statusCode existing : ℕ) : Prog (Bool × ℕ) :=
  if statusCode = 206 then pure (true, existing)
  else if statusCode = 200 then pure (false, 0)
  else .raise (.retryableStatus statusCode)

/-- The loop over the pieces of the body. -/
def streamChunks (part : Path) (whole : Bool) : List Bytes → Hasher → ℕ → Prog (Hasher × ℕ)
  | [], hasher, total => if whole then pure (hasher, total) else .raise .brokenBody
  | chunk :: chunks, hasher, total => do
    orRaise (.append part chunk)
    streamChunks part whole chunks (hasher.update chunk) (total + chunk.length)

/-- The file is closed whichever way the loop ended. A close that fails is raised; Go keeps an
    earlier error. -/
def closing {α : Type} (agent : Agent) (r : Except Error α) : Prog α := do
  let closed ← disk .close
  match r with
  | .ok a => if closed then pure a else .raise .os
  | .error e => if closed ∨ agent = .go then .raise e else .raise .os

def rangeHeader (existing : ℕ) : String :=
  ofList ("bytes=".toList ++ (Json.decimal existing ++ ['-']))

/-- The `Range` header of a request; a missing or empty part asks for the whole blob. -/
def rangeFor (existing : ℕ) : Option String :=
  if existing = 0 then none else some (rangeHeader existing)

/-- The opened file takes the body. -/
def writeBody (agent : Agent) (part : Path) (mode : Op) (chunks : List Bytes) (whole : Bool)
    (hasher : Hasher) (total : ℕ) : Prog DownloadResult := do
  orRaise mode
  let streamed ← (streamChunks part whole chunks hasher total).attempt
  let (hasher, total) ← closing agent streamed
  pure { sha256 := hasher.hexdigest, size := total }

def streamToPart (st : Store) (modelId : String) (part : Path) : Prog DownloadResult := do
  let (hasher, existing) ← seedFromExisting {} part st.chunkSize
  match ← httpGet modelId (rangeFor existing) with
  | .refused => .raise .transport
  | .answered statusCode chunks whole =>
    let (append, total) ← resolveDisposition statusCode existing
    -- a restart discards the seeded hash
    let hasher := if append then hasher else {}
    let mode := if append then .openAppend part else .create part
    writeBody st.agent part mode chunks whole hasher total

/-! ### The store -/

/-- The errors of one attempt that are worth another. Go sees a broken body as a plain read error. -/
def Agent.isRetryable : Agent → Error → Bool
  | .python, .transport | .python, .brokenBody | .python, .retryableStatus _ => true
  | .go, .transport | .go, .retryableStatus _ => true
  | _, _ => false

def Store.blobUrl (st : Store) (modelId : String) : String :=
  st.baseUrl ++ "/v1/models/" ++ modelId ++ "/blob"

/-- The retry loop: `attempt` attempts have failed, `left` retries are left. -/
def retryLoop (st : Store) (modelId : String) (part : Path) :
    (left attempt : ℕ) → Prog DownloadResult
  | left, attempt => do
    match ← (streamToPart st modelId part).attempt with
    | .ok result => pure result
    | .error e =>
      if st.agent.isRetryable e then
        match left with
        | 0 => .raise (.fetch (st.blobUrl modelId) (attempt + 1))
        | left + 1 => do
          sleep (2 ^ attempt)
          retryLoop st modelId part left (attempt + 1)
      else .raise e

def Store.fetchWithRetries (st : Store) (modelId : String) (part : Path) : Prog DownloadResult :=
  retryLoop st modelId part st.maxRetries 0

/-- A mismatch deletes the part. Go ignores a deletion that fails. -/
def verifyOrRaise (agent : Agent) (m : ModelManifest) (part : Path) (result : DownloadResult) :
    Prog Unit := do
  if result.sha256 = m.sha256 ∧ result.size = m.sizeBytes then pure ()
  else
    let deleted ← disk (.unlink part)
    if deleted ∨ agent = .go then
      .raise (.verification m.modelId result.sha256 m.sha256 result.size m.sizeBytes)
    else .raise .os

def Store.downloadAndVerify (st : Store) (m : ModelManifest) : Prog Path := do
  let part := partPath st.cacheDir m
  orRaise (.mkdir (modelDir st.cacheDir m))
  let result ← st.fetchWithRetries m.modelId part
  verifyOrRaise st.agent m part result
  let blob := blobPath st.cacheDir m
  writeMarkerAtomic (markerPath st.cacheDir m) m.sha256
  orRaise (.rename part blob)
  pure blob

/-- The blob's path if it exists and its marker names the manifest's hash; the blob is not read. -/
def Store.pathIfPresent (st : Store) (m : ModelManifest) : Prog (Option Path) := do
  let blob := blobPath st.cacheDir m
  if ← isFile blob then
    let marker ← st.agent.readMarker (markerPath st.cacheDir m)
    if marker = some m.sha256 then pure (some blob) else pure none
  else pure none

def Store.ensure (st : Store) (m : ModelManifest) : Prog Path := do
  match ← st.pathIfPresent m with
  | some present => pure present
  | none =>
    -- from here on under the model's lock
    match ← st.pathIfPresent m with
    | some present => pure present
    | none => st.downloadAndVerify m

/-! ### Histories -/

abbrev Host := Crash.Host Answer Fs Error Path

/-- A store, by either agent, asked for a manifest. -/
abbrev Job := Store × ModelManifest

abbrev Act := Crash.Act Job Env

def freshHost : Host := { store := fun _ => none }

def step : Host → Act → Host := Crash.step sem fun j => j.1.ensure j.2

end Fallow.ModelCache

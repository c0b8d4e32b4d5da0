import Fallow.Lib.Crash
import Fallow.Lib.PyJson
import Fallow.Lib.Table

/-! `RagVectorStore`: collections, chunk rows and one vector table per collection.

    A call holds the store's lock from its first statement to its last, so calls follow each other;
    what varies is how each statement ends. The connection has one implicit transaction: `working`
    is what statements see, `committed` what the file holds.

        create_collection   SELECT ─▶ ┌ INSERT collection ─▶ CREATE VIRTUAL TABLE ─▶ COMMIT ┐
        upsert              SELECT ─▶ ┌ (SELECT ─▶ UPDATE | INSERT ─▶ DELETE ─▶ INSERT)* ─▶ COMMIT ┐
                                      └───────── except Exception: ROLLBACK, raise ─────────┘

    `except Exception` is not `except BaseException`: a cancellation passes it by, and the statement
    it interrupted has run all the same, since the connection's thread had it queued. -/

namespace Fallow.Rag
open Lib Lib.Crash Lib.PyJson

/-! ### Tables -/

structure Collection where
  collectionId : ℕ
  name : Str
  modelId : Str
  dims : ℤ
  deriving DecidableEq

structure ChunkRow where
  rowId : ℕ
  collectionId : ℕ
  chunkId : Str
  text : Str
  metadataJson : Str
  deriving DecidableEq

/-- A virtual table `rag_vec_<id>`. -/
structure VectorTable where
  collectionId : ℕ
  dims : ℤ
  deriving DecidableEq

/-- A row of the virtual table of a collection. -/
structure VectorRow where
  collectionId : ℕ
  rowId : ℕ
  embedding : List UInt8
  deriving DecidableEq

structure Db where
  collections : List Collection := []
  chunks : List ChunkRow := []
  vectorTables : List VectorTable := []
  vectors : List VectorRow := []
  deriving DecidableEq

def ChunkRow.key (r : ChunkRow) : ℕ × Str := (r.collectionId, r.chunkId)

def VectorRow.key (v : VectorRow) : ℕ × ℕ := (v.collectionId, v.rowId)

/-- The id SQLite gives a new row: one more than the largest. -/
def nextRowId (ids : List ℕ) : ℕ := ids.foldr max 0 + 1

/-! ### Statements -/

inductive Stmt where
  | collectionByName (name : Str)
  | insertCollection (name modelId : Str) (dims : ℤ)
  | createVectorTable (collectionId : ℕ) (dims : ℤ)
  | selectRowId (collectionId : ℕ) (chunkId : Str)
  | updateChunk (rowId : ℕ) (text metadataJson : Str)
  | insertChunk (collectionId : ℕ) (chunkId text metadataJson : Str)
  | deleteVector (collectionId rowId : ℕ)
  | insertVector (collectionId rowId : ℕ) (embedding : List UInt8)

/-- What the code takes from the cursor: a row, or the id of the row inserted. -/
abbrev Stmt.Answer : Stmt → Type
  | .collectionByName _ => Option Collection
  | .insertCollection _ _ _ => ℕ
  | .selectRowId _ _ => Option ℕ
  | .insertChunk _ _ _ _ => ℕ
  | _ => Unit

inductive SqlError where
  /-- a bound string with a surrogate in it -/
  | unencodable
  | constraint
  | noSuchTable
  | tableExists
  | vectorLength
  deriving DecidableEq

def Stmt.run : (q : Stmt) → Db → Except SqlError (q.Answer × Db)
  | .collectionByName name, db =>
    if Scalar name then .ok (Table.get (·.name) db.collections name, db) else .error .unencodable
  | .insertCollection name modelId dims, db =>
    if ¬ (Scalar name ∧ Scalar modelId) then .error .unencodable
    else if dims ≤ 0 ∨ (Table.get (·.name) db.collections name).isSome then .error .constraint
    else
      let id := nextRowId (db.collections.map (·.collectionId))
      .ok (id, { db with collections := db.collections ++ [⟨id, name, modelId, dims⟩] })
  | .createVectorTable id dims, db =>
    if (Table.get (·.collectionId) db.vectorTables id).isSome then .error .tableExists
    else .ok ((), { db with vectorTables := db.vectorTables ++ [⟨id, dims⟩] })
  | .selectRowId id chunkId, db =>
    if Scalar chunkId then .ok ((Table.get ChunkRow.key db.chunks (id, chunkId)).map (·.rowId), db)
    else .error .unencodable
  | .updateChunk rowId text metadataJson, db =>
    if ¬ (Scalar text ∧ Scalar metadataJson) then .error .unencodable
    else .ok ((), { db with
      chunks := Table.update (fun r => r.rowId = rowId)
        (fun r => { r with text := text, metadataJson := metadataJson }) db.chunks })
  | .insertChunk id chunkId text metadataJson, db =>
    if ¬ (Scalar chunkId ∧ Scalar text ∧ Scalar metadataJson) then .error .unencodable
    else if (Table.get ChunkRow.key db.chunks (id, chunkId)).isSome
        ∨ (Table.get (·.collectionId) db.collections id).isNone then .error .constraint
    else
      let rowId := nextRowId (db.chunks.map (·.rowId))
      .ok (rowId, { db with chunks := db.chunks ++ [⟨rowId, id, chunkId, text, metadataJson⟩] })
  | .deleteVector id rowId, db =>
    if (Table.get (·.collectionId) db.vectorTables id).isNone then .error .noSuchTable
    else .ok ((), { db with vectors := db.vectors.filter (fun v => v.key ≠ (id, rowId)) })
  | .insertVector id rowId embedding, db =>
    match Table.get (·.collectionId) db.vectorTables id with
    | none => .error .noSuchTable
    | some table =>
      if (embedding.length : ℤ) ≠ 4 * table.dims then .error .vectorLength
      else if (Table.get VectorRow.key db.vectors (id, rowId)).isSome then .error .constraint
      else .ok ((), { db with vectors := db.vectors ++ [⟨id, rowId, embedding⟩] })

/-! ### The connection -/

structure Conn where
  working : Db := {}
  committed : Db := {}
  deriving DecidableEq

/-- The open transaction is gone: a rollback, or a new process on the same file. -/
def Conn.reopened (s : Conn) : Conn := ⟨s.committed, s.committed⟩

/-- What a call awaits on the connection. -/
inductive Cmd where
  | stmt (q : Stmt)
  | commit
  | rollback

abbrev Cmd.Answer : Cmd → Type
  | .stmt q => q.Answer
  | .commit => Unit
  | .rollback => Unit

inductive Exn where
  | valueError
  | overflowError
  | collectionConflict
  | collectionNotFound
  | dimensionMismatch
  | sql (e : SqlError)
  | operational
  | cancelled
  | killed
  deriving DecidableEq

/-- Whether `except Exception` catches it. -/
def Exn.isException : Exn → Bool
  | .cancelled => false
  | .killed => false
  | _ => true

/-- How an awaited command ends: by itself; with an error of the engine, which may have rolled the
    transaction back; in a cancelled task; in a process that dies. -/
inductive Outcome where
  | ok
  | raises (aborted : Bool)
  | cancelled
  | killed
  deriving DecidableEq

def Cmd.exec : (c : Cmd) → Conn → Except Exn c.Answer × Conn
  | .stmt q, s => match q.run s.working with
    | .ok (a, db) => (.ok a, { s with working := db })
    | .error e => (.error (.sql e), s)
  | .commit, s => (.ok (), ⟨s.working, s.working⟩)
  | .rollback, s => (.ok (), s.reopened)

def sem (c : Cmd) (v : Outcome) (s : Conn) : Except Exn c.Answer × Conn :=
  match v with
  | .ok => c.exec s
  | .raises aborted => (.error .operational, if aborted then s.reopened else s)
  | .cancelled => (.error .cancelled, (c.exec s).2)
  | .killed => (.error .killed, s.reopened)

abbrev Prog (α : Type) := Crash.Prog (fun c : Cmd => Except Exn c.Answer) Exn α

def query (c : Cmd) : Prog c.Answer := do
  match ← Prog.perform c with
  | .ok a => .ret a
  | .error e => .raise e

/-- `try: … except Exception: await db.rollback(); raise`. -/
def guarded {α : Type} (body : Prog α) : Prog α := do
  match ← body.attempt with
  | .ok a => .ret a
  | .error e =>
    if e.isException then do
      query .rollback
      .raise e
    else .raise e

/-! ### Calls -/

structure Chunk (M F : Type) where
  chunkId : Str
  text : Str
  metadata : M
  embedding : List F
  deriving DecidableEq

/-- What the store needs of metadata and floats: `json.dumps` (`none` when it raises),
    `math.isfinite` and `struct.pack` of one value (`none` when it overflows). -/
structure Codec (M F : Type) where
  dumps : M → Option Str
  isFinite : F → Bool
  pack : F → Option (List UInt8)

/-- A chunk as it is written. -/
structure Record where
  chunkId : Str
  text : Str
  metadataJson : Str
  embedding : List UInt8
  deriving DecidableEq

variable {M F : Type} (io : Codec M F)

def serializeEmbedding (embedding : List F) (dims : ℤ) : Except Exn (List UInt8) :=
  if (embedding.length : ℤ) ≠ dims then .error .dimensionMismatch
  else if ¬ embedding.all io.isFinite then .error .valueError
  else match embedding.mapM io.pack with
    | none => .error .overflowError
    | some parts => .ok parts.flatten

def prepareChunk (dims : ℤ) (chunk : Chunk M F) : Except Exn Record :=
  if blank chunk.chunkId then .error .valueError
  else match io.dumps chunk.metadata with
    | none => .error .valueError
    | some metadataJson => (serializeEmbedding io chunk.embedding dims).map fun embedding =>
        ⟨chunk.chunkId, chunk.text, metadataJson, embedding⟩

def createCollection (name modelId : Str) (dims : ℤ) : Prog Collection :=
  if blank name ∨ blank modelId ∨ dims ≤ 0 then .raise .valueError
  else do
    match ← query (.stmt (.collectionByName name)) with
    | some existing =>
      if existing.modelId ≠ modelId ∨ existing.dims ≠ dims then .raise .collectionConflict
      else .ret existing
    | none => guarded do
      let collectionId ← query (.stmt (.insertCollection name modelId dims))
      query (.stmt (.createVectorTable collectionId dims))
      query .commit
      .ret ⟨collectionId, name, modelId, dims⟩

def upsertChunkRow (collectionId : ℕ) (r : Record) : Prog ℕ := do
  match ← query (.stmt (.selectRowId collectionId r.chunkId)) with
  | some rowId =>
    query (.stmt (.updateChunk rowId r.text r.metadataJson))
    .ret rowId
  | none => query (.stmt (.insertChunk collectionId r.chunkId r.text r.metadataJson))

/-- The loop of `upsert`. -/
def upsertRecords (collectionId : ℕ) : List Record → Prog Unit
  | [] => .ret ()
  | r :: rs => do
    let rowId ← upsertChunkRow collectionId r
    query (.stmt (.deleteVector collectionId rowId))
    query (.stmt (.insertVector collectionId rowId r.embedding))
    upsertRecords collectionId rs

def upsert (collectionName : Str) (chunks : List (Chunk M F)) : Prog Unit :=
  if blank collectionName then .raise .valueError
  else if chunks.isEmpty then .ret ()
  else do
    match ← query (.stmt (.collectionByName collectionName)) with
    | none => .raise .collectionNotFound
    | some c => match chunks.mapM (prepareChunk io c.dims) with
      | .error e => .raise e
      | .ok records =>
        if ¬ (records.map (·.chunkId)).Nodup then .raise .valueError
        else guarded do
          upsertRecords c.collectionId records
          query .commit

/-! ### Runs -/

inductive Call (M F : Type) where
  | createCollection (name modelId : Str) (dims : ℤ)
  | upsert (collectionName : Str) (chunks : List (Chunk M F))

def body : Call M F → Prog (Option Collection)
  | .createCollection name modelId dims => do
    let c ← createCollection name modelId dims
    .ret (some c)
  | .upsert collectionName chunks => do
    upsert io collectionName chunks
    .ret none

/-- The store, and the calls that returned normally so far. -/
structure Store (M F : Type) where
  conn : Conn := {}
  returned : List (Call M F) := []

inductive Act (M F : Type) where
  /-- a call whose commands end as `plan` says, and by themselves after that -/
  | call (c : Call M F) (plan : List Outcome)
  | reopen

/-- What a call answers and leaves. -/
def outcome (s : Store M F) (c : Call M F) (plan : List Outcome) :
    Except Exn (Option Collection) × Conn := (body io c).play sem .ok s.conn plan

def step (s : Store M F) : Act M F → Store M F
  | .call c plan =>
    { conn := (outcome io s c plan).2
      returned := if (outcome io s c plan).1.isOk then s.returned ++ [c] else s.returned }
  | .reopen => { s with conn := s.conn.reopened }

end Fallow.Rag

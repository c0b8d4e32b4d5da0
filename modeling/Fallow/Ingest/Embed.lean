import Fallow.Ingest.Chunker

/-! The embed worker, `workers/embed.py`.

    The worker reads its chunks from the unit's input, asks a replica for all of them at once and
    writes the vectors in the order of the chunks. The replica may answer in any order: its rows
    carry an index.

        input ─▶ _parse_chunks ─▶ POST ─▶ _decode_json_object ─▶ sorted by index ─▶ _encode_payload -/

namespace Fallow.Ingest
open Lib Lib.PyJson Lib.PyStr List

variable {F : Type} [PyFloat F] (py : Python F)

inductive WorkerError where
  | inputNotJson
  | inputNotStrings
  | inputEmpty
  | requestFailed
  | httpStatus (statusCode : ℕ)
  | responseNotJson
  | responseNotObject
  | dataMissing
  | count (expected actual : ℕ)
  | vectorNotNumeric
  /-- the `OverflowError` of `float`, which the worker does not catch -/
  | floatOverflow
  deriving DecidableEq

structure Reply where
  statusCode : ℕ
  content : Bytes

structure WorkOutput where
  payload : Bytes
  items : ℕ
  tokens : Option ℤ
  deriving DecidableEq

def asStr : Value F → Option Str
  | .str s => some s
  | _ => none

/-- A list whose items are all strings. -/
def stringArray : Value F → Option (List Str)
  | .arr vs => vs.mapM asStr
  | _ => none

def parseChunks (input : Bytes) : Except WorkerError (List Str) :=
  match loadsBytes py input with
  | none => .error .inputNotJson
  | some v => match stringArray v with
    | none => .error .inputNotStrings
    | some chunks => if chunks = [] then .error .inputEmpty else .ok chunks

def httpOk : ℕ := 200

/-- `_post` with what the client got: `none` when the request itself failed. -/
def post (reply : Option Reply) : Except WorkerError (Value F) :=
  match reply with
  | none => .error .requestFailed
  | some r =>
    if r.statusCode ≠ httpOk then .error (.httpStatus r.statusCode)
    else match loadsBytes py r.content with
      | none => .error .responseNotJson
      | some (.obj ms) => .ok (.obj ms)
      | some _ => .error .responseNotObject

/-- `isinstance(v, int)`, and the value; a bool is an int. -/
def asInt : Value F → Option ℤ
  | .int n => some n
  | .bool b => some (if b then 1 else 0)
  | _ => none

def embeddingIndex (row : Value F) : ℤ := ((item "index" row).bind asInt).getD 0

/-- `isinstance(v, (int, float))`. -/
def isNumber : Value F → Bool
  | .int _ => true
  | .float _ => true
  | .bool _ => true
  | _ => false

/-- `float(v)`; `none` when it raises. -/
def toFloat : Value F → Option F
  | .float x => some x
  | v => (asInt v).bind PyFloat.ofInt

def embeddingVector (row : Value F) : Except WorkerError (List F) :=
  match item "embedding" row with
  | some (.arr vs) =>
    if vs.all isNumber then (vs.mapM toFloat).elim (.error .floatOverflow) .ok
    else .error .vectorNotNumeric
  | _ => .error .vectorNotNumeric

def usageTokens (data : Value F) : Option ℤ :=
  ((item "usage" data).bind (item "total_tokens")).bind asInt

/-- `sorted(raw, key=_embedding_index)`. -/
def ordered (raw : List (Value F)) : List (Value F) :=
  raw.insertionSort fun a b => embeddingIndex a ≤ embeddingIndex b

def parseEmbeddings (data : Value F) (expected : ℕ) :
    Except WorkerError (List (List F) × Option ℤ) :=
  match item "data" data with
  | some (.arr raw) =>
    if raw.length ≠ expected then .error (.count expected raw.length)
    else ((ordered raw).mapM embeddingVector).map (·, usageTokens data)
  | _ => .error .dataMissing

def payloadValue (embeddings : List (List F)) (modelId : String) (dims : ℕ) : Value F :=
  .obj [(codes "embeddings".toList, .arr (embeddings.map fun e => .arr (e.map .float))),
    (codes "model_id".toList, .str (codes modelId.toList)), (codes "dims".toList, .int dims)]

def encodePayload (embeddings : List (List F)) (modelId : String) (dims : ℕ) : Bytes :=
  utf8 (render false (payloadValue embeddings modelId dims))

/-- `EmbedWorker.run` on a lease of `modelId`. -/
def run (modelId : String) (input : Bytes) (reply : Option Reply) : Except WorkerError WorkOutput :=
  match parseChunks py input with
  | .error e => .error e
  | .ok chunks => match post py reply with
    | .error e => .error e
    | .ok data => match parseEmbeddings data chunks.length with
      | .error e => .error e
      | .ok (embeddings, tokens) =>
        let dims := (embeddings.head?.map List.length).getD 0
        .ok ⟨encodePayload embeddings modelId dims, chunks.length, tokens⟩

/-! ### What a replica should answer -/

/-- An embedding function into finite vectors of one positive dimension. -/
structure Embedder (F : Type) [PyFloat F] where
  embed : Str → List F
  dims : ℕ
  dims_pos : 0 < dims
  /-- no Python list is longer -/
  dims_lt : dims < 2 ^ 63
  length_embed : ∀ text, (embed text).length = dims
  finite : ∀ text, ∀ x ∈ embed text, PyFloat.isFinite x = true

/-- A row for the chunk at a position: its index, and the vector in any numbers equal to it. -/
def IsRow (f : Embedder F) (chunk : Str × ℕ) (row : Value F) : Prop :=
  item "index" row = some (.int chunk.2) ∧
    ∃ vs, item "embedding" row = some (.arr vs) ∧ vs.mapM toFloat = some (f.embed chunk.1)

/-- The reply holds the rows of `chunks` in some order, and whatever else. -/
structure Correct (f : Embedder F) (chunks : List Str) (reply : Reply) : Prop where
  status : reply.statusCode = httpOk
  rows : ∃ ms raw rows, loadsBytes py reply.content = some (.obj ms) ∧
    item "data" (.obj ms : Value F) = some (.arr raw) ∧ raw.Perm rows ∧
    List.Forall₂ (IsRow f) chunks.zipIdx rows

section
variable {f : Embedder F} {chunks : List Str} {chunk : Str × ℕ} {row : Value F}

theorem IsRow.index (h : IsRow f chunk row) : embeddingIndex row = chunk.2 := by
  rw [embeddingIndex, h.1]
  rfl

theorem isNumber_of_toFloat {x : F} (h : toFloat v = some x) : isNumber v = true := by
  cases v with
  | int n | float x | bool b => rfl
  | null | str s | arr vs | obj ms => cases h

theorem all_isNumber {xs : List F}
    (h : List.Forall₂ (fun v x => toFloat v = some x) vs xs) : vs.all isNumber = true := by
  induction h with
  | nil => rfl
  | cons hv _ ih => rw [all_cons, isNumber_of_toFloat hv, ih, Bool.and_self]

theorem IsRow.vector (h : IsRow f chunk row) : embeddingVector row = .ok (f.embed chunk.1) := by
  obtain ⟨-, vs, hvs, hxs⟩ := h
  rw [embeddingVector, hvs]
  dsimp only
  rw [if_pos (all_isNumber (mapM_eq_some.1 hxs)), hxs]
  rfl

variable {rows raw : List (Value F)}

/-- The indices of the rows, in the order of the chunks, are the positions. -/
theorem indices_of_rows {chunks : List (Str × ℕ)} (h : List.Forall₂ (IsRow f) chunks rows) :
    rows.map embeddingIndex = chunks.map fun c => (c.2 : ℤ) := by
  induction h with
  | nil => rfl
  | cons hrow _ ih => rw [map_cons, map_cons, ih, hrow.index]

theorem vectors_of_rows {chunks : List (Str × ℕ)} (h : List.Forall₂ (IsRow f) chunks rows) :
    rows.mapM embeddingVector = .ok (chunks.map fun c => f.embed c.1) := by
  rw [mapM_eq_ok]
  induction h with
  | nil => exact .nil
  | cons hrow _ ih => exact .cons hrow.vector ih

/-- Whatever order the rows came in, sorting by index puts them in the order of the chunks. -/
theorem ordered_eq (hperm : raw.Perm rows)
    (h : List.Forall₂ (IsRow f) chunks.zipIdx rows) : ordered raw = rows := by
  have hkeys : rows.map embeddingIndex
      = (List.range' 0 chunks.length).map fun n : ℕ => (n : ℤ) := by
    rw [indices_of_rows h, ← zipIdx_map_snd, map_map]
    rfl
  have hlt : (rows.map embeddingIndex).Pairwise (· < ·) := by
    rw [hkeys, pairwise_map]
    exact (pairwise_lt_range' 1).imp fun hab => Int.ofNat_lt.2 hab
  have hnodup : (rows.map embeddingIndex).Nodup := hlt.imp fun hab => Int.ne_of_lt hab
  have hsorted : rows.Pairwise fun a b => embeddingIndex a ≤ embeddingIndex b :=
    (pairwise_map.1 hlt).imp fun hab => Int.le_of_lt hab
  have hraw : (ordered raw).Perm rows := (perm_insertionSort _ raw).trans hperm
  refine List.Perm.eq_of_pairwise (fun a b ha hb hab hba => ?_) ?_ hsorted hraw
  · exact inj_on_of_nodup_map hnodup (hraw.subset ha) hb (Int.le_antisymm hab hba)
  · exact pairwise_insertionSort _ raw

theorem parseEmbeddings_correct (hdata : item "data" data = some (.arr raw)) (hperm : raw.Perm rows)
    (h : List.Forall₂ (IsRow f) chunks.zipIdx rows) :
    parseEmbeddings data chunks.length = .ok (chunks.map f.embed, usageTokens data) := by
  have hlen : raw.length = chunks.length := by
    rw [hperm.length_eq, ← h.length_eq, length_zipIdx]
  have hvecs : (chunks.zipIdx.map fun c => f.embed c.1) = chunks.map f.embed := by
    rw [show (fun c : Str × ℕ => f.embed c.1) = f.embed ∘ Prod.fst from rfl, ← map_map,
      zipIdx_map_fst]
  rw [parseEmbeddings, hdata]
  dsimp only
  rw [if_neg (not_not_intro hlen), ordered_eq hperm h, vectors_of_rows h, hvecs]
  rfl

/-- CORRECT: from a reply in any order the worker writes the vectors in the order of the chunks. -/
theorem run_correct (hin : parseChunks py input = .ok chunks) (h : Correct py f chunks reply) :
    ∃ out, run py modelId input (some reply) = .ok out ∧ out.items = chunks.length ∧
      out.payload = encodePayload (chunks.map f.embed) modelId f.dims := by
  obtain ⟨ms, raw, rows, hjson, hdata, hperm, hrows⟩ := h.rows
  have hpost : post py (some reply) = .ok (.obj ms) := by
    rw [post, if_neg (not_not_intro h.status), hjson]
  have hne : chunks ≠ [] := by
    rintro rfl
    rw [parseChunks] at hin
    split at hin
    · cases hin
    split at hin
    · cases hin
    · split at hin
      · cases hin
      · next hne => exact hne (Except.ok.inj hin)
  refine ⟨_, by rw [run, hin]; dsimp only; rw [hpost]; dsimp only;
                rw [parseEmbeddings_correct hdata hperm hrows], rfl, ?_⟩
  obtain ⟨c, cs, rfl⟩ := exists_cons_of_ne_nil hne
  change encodePayload _ modelId (f.embed c).length = _
  rw [f.length_embed]

variable {group : List Str}

omit [PyFloat F] in
theorem mapM_asStr : (group.map .str : List (Value F)).mapM asStr = some group := by
  rw [mapM_eq_some]
  induction group with
  | nil => exact .nil
  | cons t group ih => exact .cons rfl ih

theorem loadsBytes_groupBlob (h : ∀ t ∈ group, Scalar t) :
    loadsBytes py (groupBlob F group) = some (.arr (group.map .str)) :=
  loadsBytes_render py true (clean_group h)

theorem parseChunks_groupBlob (hne : group ≠ []) (h : ∀ t ∈ group, Scalar t) :
    parseChunks py (groupBlob F group) = .ok group := by
  rw [parseChunks, loadsBytes_groupBlob py h]
  dsimp only [stringArray]
  rw [mapM_asStr]
  exact if_neg hne

end

end Fallow.Ingest

import Fallow.Rag.Calls

/-! The chunk table and the vector tables never diverge.

    A record goes to a chunk row and to a vector row under the same row id, which is found by the
    chunk id or is new. Two facts carry the pairing through a batch:

        INVARIANT (paired)   a vector row (collection, row id) exists exactly when a chunk row does
        INVARIANT (keys)     row ids are unique over all collections, chunk ids within one

    `lookup` reads a chunk back through both tables. A batch then is a map update, and the tables
    are the map the successful upserts leave. -/

namespace Fallow.Rag
open Lib Lib.Crash Lib.PyJson List Option Prod Table

/-- INVARIANT: keys are unique and the two kinds of rows go together. -/
structure Wf (db : Db) : Prop where
  ids : Table.Keyed Collection.collectionId db.collections
  names : Table.Keyed Collection.name db.collections
  rows : Table.Keyed ChunkRow.rowId db.chunks
  chunkIds : Table.Keyed ChunkRow.key db.chunks
  owned : ∀ r ∈ db.chunks, ∃ c ∈ db.collections, c.collectionId = r.collectionId
  vectorKeys : Table.Keyed VectorRow.key db.vectors
  paired : ∀ id rowId, (∃ v ∈ db.vectors, v.key = (id, rowId)) ↔
    ∃ r ∈ db.chunks, (r.collectionId, r.rowId) = (id, rowId)

theorem wf_empty : Wf {} where
  ids := nodup_nil
  names := nodup_nil
  rows := nodup_nil
  chunkIds := nodup_nil
  owned := nofun
  vectorKeys := nodup_nil
  paired := by simp

theorem lt_nextRowId (h : n ∈ ids) : n < nextRowId ids := by
  induction ids with
  | nil => cases h
  | cons m ms ih =>
    rw [nextRowId, foldr_cons]
    rcases mem_cons.1 h with rfl | h
    · omega
    · have hlt := ih h
      rw [nextRowId] at hlt
      omega

theorem get_nextRowId {ρ : Type} (key : ρ → ℕ) (t : List ρ) :
    Table.get key t (nextRowId (t.map key)) = none := by
  rw [get_eq_none]
  intro r hr
  have hlt := lt_nextRowId (mem_map.2 ⟨r, hr, rfl⟩ : key r ∈ t.map key)
  omega

/-! ### One record -/

/-- A chunk read back: its row, and the vector under the row's id. -/
def lookup (db : Db) (id : ℕ) (chunkId : Str) : Option Record :=
  (Table.get ChunkRow.key db.chunks (id, chunkId)).bind fun row =>
    (Table.get VectorRow.key db.vectors (id, row.rowId)).map fun v =>
      ⟨chunkId, row.text, row.metadataJson, v.embedding⟩

/-- What `putRow` does to the chunk table, as its readers see it. -/
structure RowPut (id : ℕ) (r : Record) (db db' : Db) (rowId : ℕ) : Prop where
  collections : db'.collections = db.collections
  vectors : db'.vectors = db.vectors
  rows : Table.Keyed ChunkRow.rowId db'.chunks
  chunkIds : Table.Keyed ChunkRow.key db'.chunks
  mem : ∀ x, (∃ row ∈ db'.chunks, (row.collectionId, row.rowId) = x) ↔
    x = (id, rowId) ∨ ∃ row ∈ db.chunks, (row.collectionId, row.rowId) = x
  self : Table.get ChunkRow.key db'.chunks (id, r.chunkId)
    = some ⟨rowId, id, r.chunkId, r.text, r.metadataJson⟩
  other : ∀ k, k ≠ (id, r.chunkId) →
    Table.get ChunkRow.key db'.chunks k = Table.get ChunkRow.key db.chunks k
  apart : ∀ row ∈ db.chunks, row.key ≠ (id, r.chunkId) → row.rowId ≠ rowId

variable {db : Db}

theorem Wf.putRow (h : Wf db) (id : ℕ) (r : Record) :
    RowPut id r db (putRow id r db).1 (putRow id r db).2 := by
  cases hget : Table.get ChunkRow.key db.chunks (id, r.chunkId) with
  | some row =>
    have hmem := mem_of_get hget
    have hkey : row.key = (id, r.chunkId) := key_of_get hget
    obtain ⟨hid, hchunk⟩ := mk.inj hkey
    have heq : Rag.putRow id r db = ({ db with
        chunks := Table.update (fun x => x.rowId = row.rowId)
          (fun x => { x with text := r.text, metadataJson := r.metadataJson }) db.chunks },
        row.rowId) := by
      rw [Rag.putRow, hget]
    rw [heq]
    refine ⟨rfl, rfl, keyed_update (by intro _ _; rfl) h.rows,
      keyed_update (by intro _ _; rfl) h.chunkIds, fun x => ?_, ?_, fun k hk => ?_, ?_⟩
    · -- the update keeps collection and row id of every row
      have hcols : ∀ y : ChunkRow, ((if y.rowId = row.rowId then
            { y with text := r.text, metadataJson := r.metadataJson } else y).collectionId,
          (if y.rowId = row.rowId then
            { y with text := r.text, metadataJson := r.metadataJson } else y).rowId)
          = (y.collectionId, y.rowId) := by
        intro y
        split
        · rfl
        · rfl
      constructor
      · rintro ⟨y, hy, rfl⟩
        obtain ⟨z, hz, rfl⟩ := mem_update.1 hy
        simp only [decide_eq_true_eq]
        exact .inr ⟨z, hz, (hcols z).symm⟩
      · have hback : ∀ z ∈ db.chunks, ∃ y ∈ Table.update (fun x => x.rowId = row.rowId)
            (fun x : ChunkRow => { x with text := r.text, metadataJson := r.metadataJson }) db.chunks,
            (y.collectionId, y.rowId) = (z.collectionId, z.rowId) := by
          intro z hz
          refine ⟨_, mem_update.2 ⟨z, hz, rfl⟩, ?_⟩
          simp only [decide_eq_true_eq]
          exact hcols z
        rintro (rfl | ⟨z, hz, rfl⟩)
        · rw [← hid]; exact hback row hmem
        · exact hback z hz
    · rw [get_update (by intro _ _; rfl), hget]
      simp [← hid, ← hchunk]
    · rw [get_update (by intro _ _; rfl)]
      cases hk' : Table.get ChunkRow.key db.chunks k with
      | none => rfl
      | some y =>
        have hne : y.rowId ≠ row.rowId := by
          intro he
          have hyr := inj_on_of_nodup_map h.rows (mem_of_get hk') hmem he
          apply hk
          rw [← key_of_get hk', hyr]
          exact hkey
        simp [hne]
    · intro y hy hyk he
      have hyr := inj_on_of_nodup_map h.rows hy hmem he
      exact hyk (hyr ▸ hkey)
  | none =>
    have heq : Rag.putRow id r db = ({ db with
        chunks := db.chunks ++ [⟨nextRowId (db.chunks.map (·.rowId)), id, r.chunkId, r.text,
          r.metadataJson⟩] }, nextRowId (db.chunks.map (·.rowId))) := by
      rw [Rag.putRow, hget]
    rw [heq]
    have hfresh := get_nextRowId ChunkRow.rowId db.chunks
    refine ⟨rfl, rfl, keyed_append h.rows hfresh, keyed_append h.chunkIds hget,
      fun x => ?_, ?_, fun k hk => ?_, ?_⟩
    · simp only [mem_append, mem_singleton]
      constructor
      · rintro ⟨y, hy | rfl, rfl⟩
        · exact .inr ⟨y, hy, rfl⟩
        · exact .inl rfl
      · rintro (rfl | ⟨y, hy, rfl⟩)
        · exact ⟨_, .inr rfl, rfl⟩
        · exact ⟨y, .inl hy, rfl⟩
    · rw [get_append, hget]
      exact if_pos rfl
    · rw [get_append, if_neg (fun he => hk he.symm), or_none]
    · intro y hy _ he
      have hlt := lt_nextRowId (mem_map.2 ⟨y, hy, rfl⟩ : y.rowId ∈ db.chunks.map (·.rowId))
      omega

variable {id : ℕ}

theorem get_putVector : Table.get VectorRow.key (putVector id rowId embedding db).vectors k
      = if k = (id, rowId) then some ⟨id, rowId, embedding⟩
        else Table.get VectorRow.key db.vectors k := by
  rw [putVector, get_append, get_filter_ne]
  by_cases hk : k = (id, rowId)
  · subst hk
    rw [if_pos rfl, if_pos rfl, none_or]
    exact if_pos rfl
  · rw [if_neg hk, if_neg hk, if_neg (fun he => hk he.symm), or_none]

/-- INVARIANT: a record keeps the rows paired. -/
theorem Wf.putRecord (h : Wf db) (r : Record)
    (hid : ∃ c ∈ db.collections, c.collectionId = id) : Wf (putRecord id db r) := by
  have hput := h.putRow id r
  refine ⟨?_, ?_, hput.rows, hput.chunkIds, fun x hx => ?_, ?_, fun i n => ?_⟩
  · exact hput.collections ▸ h.ids
  · exact hput.collections ▸ h.names
  · change ∃ c ∈ (Rag.putRow id r db).1.collections, _
    rw [hput.collections]
    rcases (hput.mem _).1 ⟨x, hx, rfl⟩ with he | ⟨y, hy, he⟩
    · rw [(mk.inj he).1]; exact hid
    · rw [← (mk.inj he).1]; exact h.owned y hy
  · refine keyed_append (keyed_filter _ (hput.vectors ▸ h.vectorKeys)) ?_
    rw [get_filter_ne]
    exact if_pos rfl
  · rw [show (Rag.putRecord id db r).chunks = (Rag.putRow id r db).1.chunks from rfl, hput.mem,
      ← h.paired i n]
    simp only [Rag.putRecord, putVector, hput.vectors, mem_append, mem_filter,
      mem_singleton, decide_eq_true_eq]
    constructor
    · rintro ⟨v, ⟨hv, -⟩ | rfl, hk⟩
      · exact .inr ⟨v, hv, hk⟩
      · exact .inl hk.symm
    · rintro (he | ⟨v, hv, hk⟩)
      · exact ⟨_, .inr rfl, he.symm⟩
      · by_cases hsame : v.key = (id, (Rag.putRow id r db).2)
        · exact ⟨_, .inr rfl, hsame.symm.trans hk⟩
        · exact ⟨v, .inl ⟨hv, hsame⟩, hk⟩

/-- REFINES: writing a record is a map update. -/
theorem Wf.lookup_putRecord (h : Wf db) (id : ℕ) (r : Record) (i : ℕ) (k : Str) :
    lookup (Rag.putRecord id db r) i k
      = if (i, k) = (id, r.chunkId) then some r else lookup db i k := by
  have hput := h.putRow id r
  have hchunks : (Rag.putRecord id db r).chunks = (Rag.putRow id r db).1.chunks := rfl
  rw [lookup, hchunks]
  by_cases hk : (i, k) = (id, r.chunkId)
  · cases hk
    rw [if_pos rfl, hput.self, bind_some, Rag.putRecord, get_putVector, if_pos rfl]
    rfl
  · rw [if_neg hk, hput.other _ hk, lookup]
    cases hget : Table.get ChunkRow.key db.chunks (i, k) with
    | none => rfl
    | some row =>
      -- another chunk has another row id, so its vector is not the one replaced
      have hrow := hput.apart row (mem_of_get hget) (key_of_get hget ▸ hk)
      rw [bind_some, bind_some, Rag.putRecord, get_putVector,
        if_neg (fun he => hrow (mk.inj he).2), hput.vectors]

/-! ### A batch -/

theorem collections_putRecord (h : Wf db) (id : ℕ) (r : Record) :
    (putRecord id db r).collections = db.collections := (h.putRow id r).collections

theorem Wf.putRecords : ∀ (rs : List Record) {db : Db}, Wf db →
    (∃ c ∈ db.collections, c.collectionId = id) →
    Wf (rs.foldl (Rag.putRecord id) db) ∧
      (rs.foldl (Rag.putRecord id) db).collections = db.collections
  | [], _, h, _ => ⟨h, rfl⟩
  | r :: rs, db, h, hid => by
    have hcol := collections_putRecord h id r
    obtain ⟨hwf, hcols⟩ := Wf.putRecords rs (h.putRecord r hid) (by rw [hcol]; exact hid)
    exact ⟨hwf, hcols.trans hcol⟩

/-- REFINES: a batch without duplicates updates the map at its chunk ids. -/
theorem Wf.lookup_putRecords (i : ℕ) (k : Str) : ∀ (rs : List Record) {db : Db}, Wf db →
    (∃ c ∈ db.collections, c.collectionId = id) → (rs.map (·.chunkId)).Nodup →
    lookup (rs.foldl (Rag.putRecord id) db) i k
      = if i = id then (rs.find? (·.chunkId = k)).or (lookup db i k) else lookup db i k
  | [], _, _, _, _ => by split <;> rfl
  | r :: rs, db, h, hid, hdup => by
    obtain ⟨hr, hdup⟩ := nodup_cons.1 hdup
    have hcol := collections_putRecord h id r
    rw [foldl_cons, Wf.lookup_putRecords i k rs (h.putRecord r hid) (by rw [hcol]; exact hid)
      hdup, h.lookup_putRecord]
    by_cases hi : i = id
    · subst hi
      by_cases hk : r.chunkId = k
      · -- the first record has this chunk id, so none of the rest does
        subst hk
        have hnone : rs.find? (·.chunkId = r.chunkId) = none := by
          rw [List.find?_eq_none]
          intro x hx he
          exact hr (mem_map.2 ⟨x, hx, by simpa using he⟩)
        simp [hnone]
      · have hne : ¬ ((i, k) = (i, r.chunkId)) := fun he => hk (mk.inj he).2.symm
        rw [if_neg hne, List.find?_cons_of_neg (by simpa using hk)]
    · rw [if_neg hi, if_neg hi, if_neg (fun he => hi (mk.inj he).1)]

theorem Wf.addCollection (h : Wf db) (modelId : Str) (dims : ℤ)
    (hname : Table.get (·.name) db.collections name = none) :
    Wf (addCollection name modelId dims db) where
  __ := h
  ids := keyed_append h.ids (get_nextRowId Collection.collectionId db.collections)
  names := keyed_append h.names hname
  owned r hr := by
    obtain ⟨c, hc, he⟩ := h.owned r hr
    exact ⟨c, mem_append_left _ hc, he⟩

end Fallow.Rag

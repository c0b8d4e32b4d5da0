import Fallow.Rag.Tables

/-! What the successful upserts leave, and what a failed call leaves.

    `returned` is the history of the calls that returned normally. The abstract content of the store
    is read off that history alone: for a collection and a chunk id, the chunk of the last upsert
    that had it. The tables hold that content, row for row; a call that raises is not in the history
    and changes nothing.

        returned  ──lastUpsert──▶  chunk  ──prepareChunk──▶  record
            ▲                                                  ‖
          call returns                       chunk row + vector row (committed) -/

namespace Fallow.Rag
open Lib Lib.Crash Lib.PyJson List Option Table

variable {M F : Type} (io : Codec M F)

/-! ### The abstract content -/

/-- The chunk of one call under a chunk id, or the one found before. -/
def pick (name chunkId : Str) (found : Option (Chunk M F)) : Call M F → Option (Chunk M F)
  | .createCollection _ _ _ => found
  | .upsert n chunks =>
    if n = name then (chunks.find? (·.chunkId = chunkId)).or found else found

/-- The chunk the last upsert that contained it gave. -/
def lastUpsert (name chunkId : Str) (calls : List (Call M F)) : Option (Chunk M F) :=
  calls.foldl (pick name chunkId) none

variable {name : Str} {c : Call M F}

theorem lastUpsert_append :
    lastUpsert name chunkId (calls ++ [c]) = pick name chunkId (lastUpsert name chunkId calls) c := by
  rw [lastUpsert, foldl_append]
  rfl

/-- INVARIANT: the tables hold what the history says. -/
structure Recorded (calls : List (Call M F)) (db : Db) : Prop where
  latest : ∀ c ∈ db.collections, ∀ k, (lastUpsert c.name k calls).map (prepareChunk io c.dims)
    = (lookup db c.collectionId k).map .ok
  unknown : ∀ name k, Table.get (·.name) db.collections name = none →
    lastUpsert name k calls = none

theorem recorded_empty : Recorded io [] {} := ⟨nofun, fun _ _ _ => rfl⟩

variable {io} {dims : ℤ}

theorem chunkId_prepareChunk
    (h : prepareChunk io dims chunk = .ok r) : r.chunkId = chunk.chunkId := by
  rw [prepareChunk] at h
  split at h
  · cases h
  split at h
  · cases h
  · cases hs : serializeEmbedding io chunk.embedding dims with
    | error e => rw [hs] at h; cases h
    | ok b => rw [hs] at h; cases h; rfl

/-- A prepared batch has, under each chunk id, the chunk it was given. -/
theorem find_prepared (k : Str) : ∀ {chunks : List (Chunk M F)} {records : List Record},
    chunks.mapM (prepareChunk io dims) = .ok records →
    (chunks.find? (·.chunkId = k)).map (prepareChunk io dims)
      = (records.find? (·.chunkId = k)).map .ok
  | [], _, h => by cases h; rfl
  | chunk :: chunks, records, h => by
    rw [mapM_cons] at h
    cases hc : prepareChunk io dims chunk with
    | error e => rw [hc] at h; cases h
    | ok r =>
      rw [hc] at h
      cases hcs : chunks.mapM (prepareChunk io dims) with
      | error e => rw [hcs] at h; cases h
      | ok rs =>
        rw [hcs] at h
        cases h
        have hid := chunkId_prepareChunk hc
        by_cases hk : chunk.chunkId = k
        · rw [find?_cons_of_pos (by simpa using hk),
            find?_cons_of_pos (by simpa [hid] using hk), map_some, hc]
          rfl
        · rw [find?_cons_of_neg (by simpa using hk), find?_cons_of_neg (by simpa [hid] using hk)]
          exact find_prepared k hcs

/-! ### One call -/

variable {calls : List (Call M F)} {db : Db}

theorem Recorded.addCollection (h : Recorded io calls db) (hwf : Wf db) (modelId : Str) (dims : ℤ)
    (hname : Table.get (·.name) db.collections name = none) :
    Recorded io (calls ++ [.createCollection name modelId dims])
      (addCollection name modelId dims db) := by
  refine ⟨fun c hc k => ?_, fun n k hn => ?_⟩
  · rw [lastUpsert_append]
    rcases mem_append.1 hc with hc | hc
    · exact h.latest c hc k
    -- a new collection: no upsert named it, no chunk row has its id
    obtain rfl := mem_singleton.1 hc
    have hnone : Table.get ChunkRow.key db.chunks
        (nextRowId (db.collections.map (·.collectionId)), k) = none := by
      rw [get_eq_none]
      intro r hr he
      obtain ⟨c', hc', hid⟩ := hwf.owned r hr
      have hlt := lt_nextRowId
        (mem_map.2 ⟨c', hc', rfl⟩ : c'.collectionId ∈ db.collections.map (·.collectionId))
      rw [hid, (Prod.mk.inj he).1] at hlt
      omega
    have hlook : lookup (Rag.addCollection name modelId dims db)
        (nextRowId (db.collections.map (·.collectionId))) k = none := by
      change (Table.get ChunkRow.key db.chunks _).bind _ = none
      rw [hnone]
      rfl
    rw [hlook]
    rw [h.unknown name k hname]
    rfl
  · rw [lastUpsert_append]
    apply h.unknown n k
    have hn' : (Table.get (·.name) db.collections n).or _ = none :=
      (get_append db.collections _ n).symm.trans hn
    exact (or_eq_none_iff.1 hn').1

theorem Recorded.upserted (h : Recorded io calls db) (hwf : Wf db) {c : Collection}
    (hget : Table.get (·.name) db.collections name = some c)
    (hprep : chunks.mapM (prepareChunk io c.dims) = .ok records)
    (hdup : (records.map (·.chunkId)).Nodup) : Recorded io (calls ++ [.upsert name chunks])
      (records.foldl (putRecord c.collectionId) db) := by
  have hmem := mem_of_get hget
  have hname : c.name = name := key_of_get hget
  have hid : ∃ c' ∈ db.collections, c'.collectionId = c.collectionId := ⟨c, hmem, rfl⟩
  have hcols := (hwf.putRecords records hid).2
  refine ⟨fun c' hc' k => ?_, fun n k hn => ?_⟩
  · rw [hcols] at hc'
    rw [lastUpsert_append, hwf.lookup_putRecords c'.collectionId k records hid hdup]
    have hlatest := h.latest c' hc' k
    by_cases hcc : c' = c
    · subst hcc
      rw [if_pos rfl, pick, if_pos hname.symm]
      have hfind := find_prepared k hprep
      cases hf : chunks.find? (·.chunkId = k) with
      | none =>
        rw [hf] at hfind
        rw [map_eq_none_iff.1 hfind.symm, none_or, none_or]
        exact hlatest
      | some chunk =>
        rw [hf] at hfind
        cases hr : records.find? (·.chunkId = k) with
        | none => rw [hr] at hfind; cases hfind
        | some r => rw [hr] at hfind; exact hfind
    · -- another collection has another name and another id
      have hn : name ≠ c'.name := fun he =>
        hcc (inj_on_of_nodup_map hwf.names hc' hmem (he.symm.trans hname.symm))
      have hi : c'.collectionId ≠ c.collectionId := fun he =>
        hcc (inj_on_of_nodup_map hwf.ids hc' hmem he)
      rw [if_neg hi, pick, if_neg hn]
      exact hlatest
  · rw [hcols] at hn
    rw [lastUpsert_append, pick, if_neg, h.unknown n k hn]
    rintro rfl
    rw [hget] at hn
    cases hn

/-- INVARIANT: an applied call keeps the tables paired and in step with the history. -/
theorem Applied.keeps (ha : Applied io d c d')
    (hwf : Wf d) (h : Recorded io calls d) : Wf d' ∧ Recorded io (calls ++ [c]) d' := by
  cases ha with
  | existing name modelId dims c hget =>
    refine ⟨hwf, fun c hc k => ?_, fun n k hn => ?_⟩
    · rw [lastUpsert_append]; exact h.latest c hc k
    · rw [lastUpsert_append]; exact h.unknown n k hn
  | created name modelId dims hget =>
    exact ⟨hwf.addCollection modelId dims hget, h.addCollection hwf modelId dims hget⟩
  | nothing name =>
    have hpick : ∀ n k, lastUpsert n k (calls ++ [.upsert name []]) = lastUpsert n k calls := by
      intro n k
      rw [lastUpsert_append, pick]
      split
      · exact none_or
      · rfl
    refine ⟨hwf, fun c hc k => ?_, fun n k hn => ?_⟩
    · rw [hpick]; exact h.latest c hc k
    · rw [hpick]; exact h.unknown n k hn
  | upserted name chunks c records hget hprep hdup =>
    exact ⟨(hwf.putRecords records ⟨c, mem_of_get hget, rfl⟩).1, h.upserted hwf hget hprep hdup⟩

/-! ### Runs -/

variable (io)

/-- No command of the call is cancelled, and no rollback raises. -/
def Undisturbed (s : Store M F) : Act M F → Prop
  | .call c plan => (body io c).Meets sem Handled .ok s.conn plan
  | .reopen => True

instance (s : Store M F) : ∀ a : Act M F, Decidable (Undisturbed io s a)
  | .call c plan => inferInstanceAs (Decidable ((body io c).Meets sem Handled .ok s.conn plan))
  | .reopen => isTrue trivial

/-- INVARIANT: between calls no transaction is open. -/
structure Inv (s : Store M F) : Prop where
  closed : s.conn.reopened = s.conn
  wf : Wf s.conn.committed
  recorded : Recorded io s.returned s.conn.committed

theorem inv_empty : Inv io {} := ⟨rfl, wf_empty, recorded_empty io⟩

variable {io} {s : Store M F}

theorem Inv.outcome (h : Inv io s) (c : Call M F) (hok : Undisturbed io s (.call c plan)) :
    Settled io s.conn.committed c (outcome io s c plan).1 (outcome io s c plan).2 := by
  have hends := ends_body io c s.conn.committed
  rw [show (⟨s.conn.committed, s.conn.committed⟩ : Conn) = s.conn from h.closed] at hends
  exact hends.play hok

theorem Inv.step (h : Inv io s) (hok : Undisturbed io s a) : Inv io (step io s a) := by
  cases a with
  | reopen =>
    rw [Rag.step, h.closed]
    exact h
  | call c plan =>
    have hset := h.outcome c hok
    rw [Rag.step]
    cases hr : (Rag.outcome io s c plan).1 with
    | error e =>
      rw [hr] at hset
      obtain hset : (Rag.outcome io s c plan).2 = s.conn := hset.trans h.closed
      rw [hset]
      exact h
    | ok x =>
      rw [hr] at hset
      obtain ⟨d', happ, ht⟩ := hset
      obtain ⟨hwf, hrec⟩ := happ.keeps h.wf h.recorded
      rw [ht]
      exact ⟨rfl, hwf, hrec⟩

variable (io)

/-- The tables and the history of a store agree, and a call that fails changes nothing. -/
structure Consistent (s : Store M F) : Prop where
  /-- a collection's vector table and its chunk rows have the same row ids -/
  paired : ∀ c ∈ s.conn.committed.collections,
    {rowId | ∃ v ∈ s.conn.committed.vectors, v.collectionId = c.collectionId ∧ v.rowId = rowId}
      = {rowId | ∃ r ∈ s.conn.committed.chunks, r.collectionId = c.collectionId ∧ r.rowId = rowId}
  /-- a chunk id has one row, with the text, metadata and vector last upserted, or was never
      upserted and has none -/
  latest : ∀ c ∈ s.conn.committed.collections, ∀ chunkId,
    match lastUpsert c.name chunkId s.returned with
    | none => s.conn.committed.chunks.filter (fun r => r.key = (c.collectionId, chunkId)) = []
    | some chunk => ∃ row v,
        s.conn.committed.chunks.filter (fun r => r.key = (c.collectionId, chunkId)) = [row] ∧
        s.conn.committed.vectors.filter (fun v => v.key = (c.collectionId, row.rowId)) = [v] ∧
        prepareChunk io c.dims chunk = .ok ⟨chunkId, row.text, row.metadataJson, v.embedding⟩
  /-- a call that raises leaves every table as it was -/
  failed : ∀ c plan e, Undisturbed io s (.call c plan) → (outcome io s c plan).1 = .error e →
    (outcome io s c plan).2 = s.conn

variable {io}

theorem Inv.consistent (h : Inv io s) : Consistent io s := by
  refine ⟨fun c hc => ?_, fun c hc k => ?_, fun c plan e hok he => ?_⟩
  · ext rowId
    have hp := h.wf.paired c.collectionId rowId
    simp only [VectorRow.key, Prod.mk.injEq] at hp
    exact hp
  · have hlatest := h.recorded.latest c hc k
    cases hl : lastUpsert c.name k s.returned with
    | none =>
      rw [hl] at hlatest
      have hlook := map_eq_none_iff.1 hlatest.symm
      rw [filter_eq_nil_iff]
      intro r hr hk
      -- a row has a vector under its id, so it would be found
      obtain ⟨hid, rfl⟩ := Prod.mk.inj (of_decide_eq_true hk)
      obtain ⟨v, hv, hvk⟩ := (h.wf.paired r.collectionId r.rowId).2 ⟨r, hr, rfl⟩
      have hget := (get_eq_some h.wf.chunkIds).2 ⟨hr, rfl⟩
      have hvec := (get_eq_some h.wf.vectorKeys).2 ⟨hv, hvk⟩
      rw [← hid, lookup, show (r.collectionId, r.chunkId) = r.key from rfl, hget,
        bind_some, hvec] at hlook
      cases hlook
    | some chunk =>
      rw [hl, map_some] at hlatest
      cases hlook : lookup s.conn.committed c.collectionId k with
      | none => rw [hlook] at hlatest; cases hlatest
      | some r =>
        rw [hlook] at hlatest
        obtain ⟨row, hrow, v, hv, rfl⟩ : ∃ row, Table.get ChunkRow.key s.conn.committed.chunks
            (c.collectionId, k) = some row ∧ ∃ v, Table.get VectorRow.key s.conn.committed.vectors
            (c.collectionId, row.rowId) = some v ∧
            (⟨k, row.text, row.metadataJson, v.embedding⟩ : Record) = r := by
          simpa only [lookup, bind_eq_some_iff, map_eq_some_iff] using hlook
        exact ⟨row, v, filter_key h.wf.chunkIds hrow, filter_key h.wf.vectorKeys hv,
          Option.some.inj hlatest⟩
  · have hset := h.outcome c hok
    rw [he] at hset
    exact hset.trans h.closed

/-- CORRECT: in every run of calls, failed or not, in which no call is cancelled and no rollback
    raises, the tables never diverge. -/
theorem tables_never_diverge (io : Codec M F) (acts : List (Act M F))
    (h : Admitted (step io) (Undisturbed io) {} acts) : Consistent io (runs (step io) {} acts) := by
  have hreach := h.reach acts .start
  have hinv := hreach.invariant (Inv io) (inv_empty io) fun _ _ hs ha => hs.step ha
  exact hinv.consistent

/-! ### Fixed runs -/

/-- Metadata without content and integers for floats, one byte times four each. -/
def plainCodec : Codec Unit ℕ where
  dumps _ := some [123, 125]
  isFinite _ := true
  pack n := some [n.toUInt8, 0, 0, 0]

/-- One chunk: its id, its text and a vector of one entry. -/
def plainChunk (id text : Str) (x : ℕ) : Chunk Unit ℕ := ⟨id, text, (), [x]⟩

/-- A batch of two breaks at its second chunk; a later batch has the first chunk again. -/
def brokenThenRepeated : List (Act Unit ℕ) :=
  [.call (.createCollection [99] [109] 1) [],
   .call (.upsert [99] [plainChunk [97] [1] 1]) [],
   .call (.upsert [99] [plainChunk [97] [2] 2, plainChunk [98] [3] 3])
     [.ok, .ok, .ok, .ok, .ok, .ok, .ok, .raises false],
   .call (.upsert [99] [plainChunk [98] [4] 4]) [.ok, .ok, .killed],
   .call (.upsert [99] [plainChunk [98] [5] 5]) []]

/-- The broken batches are gone as a whole, the others are there. -/
theorem tables_never_diverge_brokenThenRepeated :
    Admitted (step plainCodec) (Undisturbed plainCodec) {} brokenThenRepeated ∧
      (runs (step plainCodec) {} brokenThenRepeated).conn.committed.chunks
        = [⟨1, 1, [97], [1], [123, 125]⟩, ⟨2, 1, [98], [5], [123, 125]⟩] ∧
      Consistent plainCodec (runs (step plainCodec) {} brokenThenRepeated) := by
  have hok : Admitted (step plainCodec) (Undisturbed plainCodec) {} brokenThenRepeated := by
    decide +kernel
  exact ⟨hok, by decide +kernel, tables_never_diverge plainCodec brokenThenRepeated hok⟩

/-- An upsert is cancelled at the INSERT of its chunk row; the next upsert commits. -/
def cancelledThenCommitted : List (Act Unit ℕ) :=
  [.call (.createCollection [99] [109] 1) [],
   .call (.upsert [99] [plainChunk [97] [1] 1]) [.ok, .ok, .cancelled],
   .call (.upsert [99] [plainChunk [98] [2] 2]) []]

/-- The row of the cancelled call is committed and has no vector. -/
theorem cancelled_row_without_vector :
    (outcome plainCodec (runs (step plainCodec) {} (cancelledThenCommitted.take 1))
        (.upsert [99] [plainChunk [97] [1] 1]) [.ok, .ok, .cancelled]).1 = .error .cancelled ∧
      (runs (step plainCodec) {} cancelledThenCommitted).conn.committed.chunks.map (·.rowId)
        = [1, 2] ∧
      (runs (step plainCodec) {} cancelledThenCommitted).conn.committed.vectors.map (·.rowId)
        = [2] ∧ ¬ Consistent plainCodec (runs (step plainCodec) {} cancelledThenCommitted) := by
  refine ⟨by decide +kernel, by decide +kernel, by decide +kernel, fun hc => ?_⟩
  have hcol : (⟨1, [99], [109], 1⟩ : Collection) ∈
      (runs (step plainCodec) {} cancelledThenCommitted).conn.committed.collections := by
    decide +kernel
  have hrow : (1 : ℕ) ∈ {rowId | ∃ r ∈
      (runs (step plainCodec) {} cancelledThenCommitted).conn.committed.chunks,
      r.collectionId = 1 ∧ r.rowId = rowId} := by
    change ∃ r ∈ (runs (step plainCodec) {} cancelledThenCommitted).conn.committed.chunks,
      r.collectionId = 1 ∧ r.rowId = 1
    decide +kernel
  rw [← hc.paired _ hcol] at hrow
  change ∃ v ∈ (runs (step plainCodec) {} cancelledThenCommitted).conn.committed.vectors,
    v.collectionId = 1 ∧ v.rowId = 1 at hrow
  revert hrow
  decide +kernel

end Fallow.Rag

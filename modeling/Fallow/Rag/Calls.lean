import Fallow.Rag.Store

/-! What a call of the vector store does to the file.

    Between calls the transaction is closed, so a call begins with `working = committed = d`. As long
    as nothing is cancelled and no rollback raises, it ends in one of two ways:

        returns   working = committed, and `Applied` says what became of `d`
        raises    working = committed = d

    The rules below follow the program text: a statement, the guarded block, the commit. -/

namespace Fallow.Rag
open Lib Lib.Crash Lib.PyJson

/-- Nothing is cancelled, and a rollback does not itself raise. -/
def Handled (c : Cmd) (_ : Conn) (v : Outcome) : Prop :=
  v ≠ .cancelled ∧ (c = .rollback → v = .ok ∨ v = .killed)

instance : (c : Cmd) → Decidable (c = .rollback)
  | .stmt _ => isFalse nofun
  | .commit => isFalse nofun
  | .rollback => isTrue rfl

instance (c : Cmd) (s : Conn) (v : Outcome) : Decidable (Handled c s v) :=
  inferInstanceAs (Decidable (_ ∧ (_ → _)))

/-- `Q` holds however the program ends, its commands being `Handled`. -/
abbrev Ends {α : Type} (Q : Except Exn α → Conn → Prop) (p : Prog α) (s : Conn) : Prop :=
  Safe sem Handled (fun _ _ => True) Q p s

/-- A command failed at `s`: nothing changed, or the engine took the open transaction back. -/
structure Fails (s : Conn) (e : Exn) (t : Conn) : Prop where
  store : t = s ∨ t = s.reopened
  notCancelled : e ≠ .cancelled
  killed : e = .killed → t = s.reopened

variable {s t : Conn} {e : Exn} {c : Cmd} {α : Type} {Q : Except Exn α → Conn → Prop}

theorem Fails.committed (h : Fails s e t) : t.committed = s.committed := by
  rcases h.store with rfl | rfl
  · rfl
  · rfl

/-! ### Rules -/

theorem ends_query {Q : Except Exn c.Answer → Conn → Prop}
    (h : ∀ v, Handled c s v → Q (sem c v s).1 (sem c v s).2) : Ends Q (query c) s := by
  refine ⟨trivial, fun v hv => ?_⟩
  have hq := h v hv
  cases hr : (sem c v s).1 with
  | ok a => rw [hr] at hq; exact hq
  | error e => rw [hr] at hq; exact hq

/-- A command that goes through, or fails as `Fails` says. -/
theorem Ends.query (hok : ∀ a t, c.exec s = (.ok a, t) → Ends Q (f a) t)
    (hsql : ∀ e t, c.exec s = (.error e, t) → Fails s e t)
    (herr : ∀ e t, Fails s e t → Q (.error e) t) : Ends Q (query c >>= f) s := by
  have hends : Ends (fun r t => (∀ a, r = .ok a → c.exec s = (.ok a, t)) ∧
      ∀ e, r = .error e → Fails s e t) (Rag.query c) s := by
    refine ends_query fun v hv => ?_
    cases v with
    | ok =>
      exact ⟨fun a ha => Prod.ext ha rfl, fun e he => hsql e _ (Prod.ext he rfl)⟩
    | raises aborted =>
      refine ⟨nofun, ?_⟩
      rintro e ⟨⟩
      refine ⟨?_, nofun, nofun⟩
      cases aborted
      · exact .inl rfl
      · exact .inr rfl
    | cancelled => exact absurd rfl hv.1
    | killed =>
      refine ⟨nofun, ?_⟩
      rintro e ⟨⟩
      exact ⟨.inr rfl, nofun, fun _ => rfl⟩
  exact Safe.bind (fun a t h => hok a t (h.1 a rfl)) (fun e t h => herr e t (h.2 e rfl)) hends

/-- A statement: it answers and changes `working`, or it fails. -/
theorem Ends.stmt {f : q.Answer → Prog α}
    (hok : ∀ a db, q.run s.working = .ok (a, db) → Ends Q (f a) ⟨db, s.committed⟩)
    (herr : ∀ e t, Fails s e t → Q (.error e) t) : Ends Q (Rag.query (.stmt q) >>= f) s := by
  refine .query (fun a t hx => ?_) (fun e t hx => ?_) herr
  · cases hr : q.run s.working with
    | error e => rw [Cmd.exec, hr] at hx; cases hx
    | ok x =>
      rw [Cmd.exec, hr] at hx
      cases hx
      exact hok x.1 x.2 hr
  · cases hr : q.run s.working with
    | ok x => rw [Cmd.exec, hr] at hx; cases hx
    | error e' =>
      rw [Cmd.exec, hr] at hx
      cases hx
      exact ⟨.inl rfl, nofun, nofun⟩

theorem Ends.commit
    (hok : Ends Q (f ()) ⟨s.working, s.working⟩) (herr : ∀ e t, Fails s e t → Q (.error e) t) :
    Ends Q (Rag.query .commit >>= f) s := by
  refine .query (fun a t hx => ?_) (fun e t hx => ?_) herr
  · cases hx; exact hok
  · cases hx

/-- How the block of a call ends: committed at `d'`, or failed with the file still at `d`. -/
def Block {α : Type} (d d' : Db) : Except Exn α → Conn → Prop
  | .ok _, t => t = ⟨d', d'⟩
  | .error e, t => t.committed = d ∧ e ≠ .cancelled ∧ (e = .killed → t.working = d)

theorem Fails.block (h : Fails s e t) (d' : Db) :
    Block s.committed d' (.error e : Except Exn α) t :=
  ⟨h.committed, h.notCancelled, fun hk => by rw [h.killed hk]; rfl⟩

theorem ends_commit : Ends (Block s.committed s.working) (Rag.query .commit) s := by
  have h : Ends (Block s.committed s.working) (Rag.query .commit >>= .ret) s :=
    Ends.commit rfl fun e t he => he.block _
  rw [Prog.bind_ret] at h
  exact h

/-- A guarded block that fails leaves the file at `d` and no transaction. -/
theorem Ends.guarded {body : Prog α} (h : Ends (Block d d') body s) (hok : ∀ a, Q (.ok a) ⟨d', d'⟩)
    (herr : ∀ e, Q (.error e) ⟨d, d⟩) : Ends Q (guarded body) s := by
  refine Safe.attempt (fun r t hr => ?_) h
  cases r with
  | ok a =>
    obtain rfl : t = ⟨d', d'⟩ := hr
    exact hok a
  | error e =>
    obtain ⟨hd, hc, hk⟩ := hr
    have hback : t.reopened = ⟨d, d⟩ := by rw [Conn.reopened, hd]
    refine Safe.ite (fun he => ?_) fun he => ?_
    · -- caught: the rollback goes through, or the process dies at it
      have hends : Ends (fun _ u => u = ⟨d, d⟩) (Rag.query .rollback) t := by
        refine ends_query fun v hv => ?_
        rcases hv.2 rfl with rfl | rfl
        · exact hback
        · exact hback
      refine Safe.bind (fun _ u hu => ?_) (fun e' u hu => ?_) hends
      · subst hu; exact herr e
      · subst hu; exact herr e'
    · -- passed by: only a dead process is left
      have hkilled : e = .killed := by
        cases e <;> first | rfl | exact absurd rfl he | exact absurd rfl hc
      have ht : t = ⟨d, d⟩ := by
        rcases t with ⟨w, c⟩
        exact congrArg₂ Conn.mk (hk hkilled) hd
      subst ht
      exact herr e

/-! ### The loop of an upsert -/

/-- The chunk row of a record: found by its chunk id, or new. -/
def putRow (collectionId : ℕ) (r : Record) (db : Db) : Db × ℕ :=
  match Table.get ChunkRow.key db.chunks (collectionId, r.chunkId) with
  | some row => ({ db with
      chunks := Table.update (fun x => x.rowId = row.rowId)
        (fun x => { x with text := r.text, metadataJson := r.metadataJson }) db.chunks }, row.rowId)
  | none =>
    let rowId := nextRowId (db.chunks.map (·.rowId))
    ({ db with chunks := db.chunks ++ [⟨rowId, collectionId, r.chunkId, r.text, r.metadataJson⟩] },
      rowId)

/-- The vector of a row, replaced. -/
def putVector (collectionId rowId : ℕ) (embedding : List UInt8) (db : Db) : Db :=
  { db with
    vectors := db.vectors.filter (fun v => v.key ≠ (collectionId, rowId))
      ++ [⟨collectionId, rowId, embedding⟩] }

def putRecord (collectionId : ℕ) (db : Db) (r : Record) : Db :=
  putVector collectionId (putRow collectionId r db).2 r.embedding (putRow collectionId r db).1

/-- What a block has done so far: the file is as it was, a dead process holds no transaction. -/
def Open {α : Type} (d w : Db) (r : Except Exn α) (t : Conn) : Prop :=
  t.committed = d ∧ match r with
    | .ok _ => t.working = w
    | .error e => e ≠ .cancelled ∧ (e = .killed → t.working = d)

theorem Fails.open (h : Fails s e t) (w : Db) : Open s.committed w (.error e : Except Exn α) t :=
  ⟨h.committed, h.notCancelled, fun hk => by rw [h.killed hk]; rfl⟩

theorem ends_upsertChunkRow {id : ℕ} {r : Record} :
    Ends (fun res t => Open s.committed (putRow id r s.working).1 res t ∧
      ∀ rowId, res = .ok rowId → rowId = (putRow id r s.working).2) (upsertChunkRow id r) s := by
  refine Ends.stmt (fun a db hrun => ?_) fun e t he => ⟨he.open _, nofun⟩
  rw [Stmt.run] at hrun
  split at hrun
  case isFalse => cases hrun
  case isTrue =>
  cases hrun
  cases hget : Table.get ChunkRow.key s.working.chunks (id, r.chunkId) with
  | some row =>
    refine Ends.stmt (fun a db hrun => ?_) fun e t he => ⟨he.open _, nofun⟩
    rw [Stmt.run] at hrun
    split at hrun
    · cases hrun
    cases hrun
    refine ⟨⟨rfl, ?_⟩, ?_⟩
    · simp only [putRow, hget]
    · rintro rowId ⟨⟩
      simp only [putRow, hget]
  | none =>
    have hins : Ends (fun res t => Open s.committed (putRow id r s.working).1 res t ∧
        ∀ rowId, res = .ok rowId → rowId = (putRow id r s.working).2)
        (query (.stmt (.insertChunk id r.chunkId r.text r.metadataJson)) >>= .ret) s := by
      refine Ends.stmt (fun a db hrun => ?_) fun e t he => ⟨he.open _, nofun⟩
      rw [Stmt.run] at hrun
      split at hrun
      · cases hrun
      split at hrun
      · cases hrun
      cases hrun
      refine ⟨⟨rfl, ?_⟩, ?_⟩
      · simp only [putRow, hget]
      · rintro rowId ⟨⟩
        simp only [putRow, hget]
    rw [Prog.bind_ret] at hins
    exact hins

variable {id rowId : ℕ} {db db' : Db} {a : Unit}

theorem run_insertVector
    (h : Stmt.run (.insertVector id rowId embedding) db = .ok (a, db')) :
    db' = { db with vectors := db.vectors ++ [⟨id, rowId, embedding⟩] } := by
  rw [Stmt.run] at h
  split at h
  · cases h
  split at h
  · cases h
  · split at h
    · cases h
    · cases h; rfl

theorem run_deleteVector (h : Stmt.run (.deleteVector id rowId) db = .ok (a, db')) :
    db' = { db with vectors := db.vectors.filter (fun v => v.key ≠ (id, rowId)) } := by
  rw [Stmt.run] at h
  split at h
  · cases h
  · cases h; rfl

theorem ends_upsertRecords : ∀ (rs : List Record) (s : Conn),
    Ends (Open s.committed (rs.foldl (putRecord id) s.working)) (upsertRecords id rs) s
  | [], _ => ⟨rfl, rfl⟩
  | r :: rs, s => by
    refine Safe.bind (fun rowId t ht => ?_) (fun e t ht => ht.1) ends_upsertChunkRow
    obtain ⟨⟨hc, hw⟩, hrow⟩ := ht
    obtain rfl := hrow rowId rfl
    rcases t with ⟨w, c⟩
    obtain rfl : c = s.committed := hc
    obtain rfl : w = (putRow id r s.working).1 := hw
    refine Ends.stmt (fun a db hdel => ?_) fun e t he => he.open _
    refine Ends.stmt (fun a' db' hins => ?_) fun e t he => he.open _
    have hdb : db' = putRecord id s.working r := by
      rw [run_insertVector hins, run_deleteVector hdel]
      rfl
    subst hdb
    exact ends_upsertRecords rs ⟨putRecord id s.working r, s.committed⟩

/-! ### Calls -/

variable {M F : Type} (io : Codec M F) {dims : ℤ}

/-- A new collection and its vector table. -/
def addCollection (name modelId : Str) (dims : ℤ) (db : Db) : Db :=
  let id := nextRowId (db.collections.map (·.collectionId))
  { db with
    collections := db.collections ++ [⟨id, name, modelId, dims⟩]
    vectorTables := db.vectorTables ++ [⟨id, dims⟩] }

theorem run_insertCollection
    (h : Stmt.run (.insertCollection name modelId dims) db = .ok (id, db')) :
    id = nextRowId (db.collections.map (·.collectionId)) ∧
      db' = { db with collections := db.collections ++ [⟨id, name, modelId, dims⟩] } := by
  simp only [Stmt.run] at h
  split at h
  · cases h
  · split at h
    · cases h
    · cases h; exact ⟨rfl, rfl⟩

theorem run_createVectorTable (h : Stmt.run (.createVectorTable id dims) db = .ok (a, db')) :
    db' = { db with vectorTables := db.vectorTables ++ [⟨id, dims⟩] } := by
  rw [Stmt.run] at h
  split at h
  · cases h
  · cases h; rfl

/-- INVERSION: what a call that returns has made of the database. -/
inductive Applied (d : Db) : Call M F → Db → Prop where
  | existing (name modelId : Str) (dims : ℤ) (c : Collection)
      (hget : Table.get (·.name) d.collections name = some c) :
      Applied d (.createCollection name modelId dims) d
  | created (name modelId : Str) (dims : ℤ)
      (hget : Table.get (·.name) d.collections name = none) :
      Applied d (.createCollection name modelId dims) (addCollection name modelId dims d)
  | nothing (name : Str) : Applied d (.upsert name []) d
  | upserted (name : Str) (chunks : List (Chunk M F)) (c : Collection) (records : List Record)
      (hget : Table.get (·.name) d.collections name = some c)
      (hprep : chunks.mapM (prepareChunk io c.dims) = .ok records)
      (hdup : (records.map (·.chunkId)).Nodup) :
      Applied d (.upsert name chunks) (records.foldl (putRecord c.collectionId) d)

/-- How a call ends that began on `d`. -/
def Settled {α : Type} (d : Db) (c : Call M F) : Except Exn α → Conn → Prop
  | .ok _, t => ∃ d', Applied io d c d' ∧ t = ⟨d', d'⟩
  | .error _, t => t = ⟨d, d⟩

variable {io} in
theorem Settled.fails {c : Call M F}
    (h : Fails ⟨d, d⟩ e t) : Settled io d c (.error e : Except Exn α) t := by
  rcases h.store with rfl | rfl
  · rfl
  · rfl

theorem ends_createCollection (name modelId : Str) (dims : ℤ) (d : Db) :
    Ends (Settled io d (.createCollection name modelId dims : Call M F))
      (createCollection name modelId dims) ⟨d, d⟩ := by
  refine Safe.ite (fun _ => rfl) fun _ => ?_
  refine Ends.stmt (fun a db hrun => ?_) fun e t he => Settled.fails he
  rw [Stmt.run] at hrun
  split at hrun
  case isFalse => cases hrun
  case isTrue =>
  cases hrun
  cases hget : Table.get (·.name) d.collections name with
  | some c =>
    refine Safe.ite (fun _ => rfl) fun _ => ?_
    exact ⟨d, .existing name modelId dims c hget, rfl⟩
  | none =>
    have hblock : Ends (Block d (addCollection name modelId dims d)) (do
          let collectionId ← query (.stmt (.insertCollection name modelId dims))
          query (.stmt (.createVectorTable collectionId dims))
          query .commit
          .ret ⟨collectionId, name, modelId, dims⟩ : Prog Collection) ⟨d, d⟩ := by
      refine Ends.stmt (fun id db hins => ?_) fun e t he => he.block _
      refine Ends.stmt (fun a db' htab => ?_) fun e t he => he.block _
      have hdb : db' = addCollection name modelId dims d := by
        obtain ⟨rfl, rfl⟩ := run_insertCollection hins
        rw [run_createVectorTable htab]
        rfl
      subst hdb
      exact Ends.commit rfl fun e t he => he.block _
    exact Ends.guarded hblock (fun a => ⟨_, .created name modelId dims hget, rfl⟩) fun e => rfl

theorem ends_upsert (name : Str) (chunks : List (Chunk M F)) (d : Db) :
    Ends (Settled io d (.upsert name chunks)) (upsert io name chunks) ⟨d, d⟩ := by
  refine Safe.ite (fun _ => rfl) fun _ => Safe.ite (fun hnil => ?_) fun _ => ?_
  · obtain rfl := List.isEmpty_iff.1 hnil
    exact ⟨d, .nothing name, rfl⟩
  refine Ends.stmt (fun a db hrun => ?_) fun e t he => Settled.fails he
  rw [Stmt.run] at hrun
  split at hrun
  case isFalse => cases hrun
  case isTrue =>
  cases hrun
  cases hget : Table.get (·.name) d.collections name with
  | none => exact rfl
  | some c =>
    dsimp only
    cases hprep : chunks.mapM (prepareChunk io c.dims) with
    | error e => exact rfl
    | ok records =>
      refine Safe.ite (fun _ => rfl) fun hdup => ?_
      have hblock : Ends (Block d (records.foldl (putRecord c.collectionId) d)) (do
            upsertRecords c.collectionId records
            query .commit) ⟨d, d⟩ := by
        refine Safe.bind ?_ ?_ (ends_upsertRecords records ⟨d, d⟩)
        · rintro _ ⟨w, c'⟩ ⟨hc, hw⟩
          obtain rfl : c' = d := hc
          obtain rfl : w = _ := hw
          exact ends_commit
        · intro e t ht
          exact ht
      exact Ends.guarded hblock
        (fun a => ⟨_, .upserted name chunks c records hget hprep (not_not.1 hdup), rfl⟩) fun e => rfl

/-- CORRECT: a call returns with its effect committed, or raises and leaves the file as it was. -/
theorem ends_body (c : Call M F) (d : Db) : Ends (Settled io d c) (body io c) ⟨d, d⟩ := by
  cases c with
  | createCollection name modelId dims =>
    refine .bind ?_ ?_ (ends_createCollection io name modelId dims d)
    · exact fun _ _ h => h
    · exact fun _ _ h => h
  | upsert name chunks =>
    refine .bind ?_ ?_ (ends_upsert io name chunks d)
    · exact fun _ _ h => h
    · exact fun _ _ h => h

end Fallow.Rag

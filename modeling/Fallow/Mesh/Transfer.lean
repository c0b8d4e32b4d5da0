import Fallow.Mesh.ChunkStore
import Fallow.ModelCache.Fs

/-! The way of a model over the mesh: `peer.py`, `exchange.py`, `offline.py`, `reconstruct.py` and
    `safe.py`.

        peers ──▶ fetch_delta ───┐
                                 ├──▶ chunk store ──▶ reconstruct ──▶ <dest>.partial ──▶ <dest>
        bundle ─▶ import_bundle ─┘                                               rename

    The programs below are run against an outside that answers every command as it likes: peers and
    bundles hand over any bytes or raise, the disk fails where it wants. Whatever happens, the
    destination changes in the last rename only, and then it is the file the manifest was built from;
    and with the chunks at hand and a disk that works, a valid signature is all it takes. -/

namespace Fallow.Mesh
open Lib Lib.PyJson Lib.PyStr Lib.Crash Function List Except Prog
open Lib.Json (renderInt)
open ModelCache (Path Fs Op)

/-! ### Commands -/

/-- The files of a bundle. -/
inductive MediaFile where
  | manifest
  | signature
  | chunk (h : Str)
  deriving DecidableEq, Repr

inductive Cmd where
  | disk (op : Op)
  /-- `peer.available()` -/
  | available (peer : ℕ)
  /-- `peer.fetch(chunk)` -/
  | fetch (peer : ℕ) (chunk : Str)
  | isMedia (file : MediaFile)
  | readMedia (file : MediaFile)
  /-- `inner.path_if_present(manifest)` -/
  | present
  /-- `inner.ensure(manifest)` -/
  | innerEnsure
  /-- the session's HTTP client is made -/
  | openSession
  /-- `GET` of the signed manifest -/
  | getManifest
  | peers
  | isDir (p : Path)
  | listDir (p : Path)
  | isFile (p : Path)
  /-- a file read in pieces of a size -/
  | readPieces (p : Path) (chunkSize : ℤ)
  deriving DecidableEq, Repr

/-- What a command hands back; an operation's `false` is an `OSError`. -/
abbrev Answer : Cmd → Type
  | .disk _ => Bool
  | .available _ => Except Exn (List Str)
  | .fetch _ _ => Except Exn Bytes
  | .isMedia _ => Except Exn Bool
  | .readMedia _ => Except Exn Bytes
  | .present => Except Exn (Option Path)
  | .innerEnsure => Except Exn Path
  | .openSession => Except Exn Unit
  | .getManifest => Except Exn (ℕ × Bytes)
  | .peers => Except Exn (List ℕ)
  | .isDir _ => Except Exn Bool
  | .listDir _ => Except Exn (List Path)
  | .isFile _ => Except Exn Bool
  | .readPieces _ _ => List Bytes × Option Exn

/-- How the next command goes. -/
structure Env where
  /-- whether the disk fails it, after how many bytes or pieces -/
  fails : Option ℕ := none
  names : Except Exn (List Str) := .error .http
  bytes : Except Exn Bytes := .error .http
  found : Except Exn Bool := .ok false
  path : Except Exn Path := .error .other
  present : Except Exn (Option Path) := .ok none
  session : Except Exn Unit := .ok ()
  reply : Except Exn (ℕ × Bytes) := .error .http
  peers : Except Exn (List ℕ) := .ok [0]
  listing : Except Exn (List Path) := .ok []

structure World where
  fs : Fs
  /-- what `inner.ensure` did, call by call -/
  ensured : List (Except Exn Path) := []
  /-- the paths `inner.path_if_present` vouched for -/
  vouched : List Path := []

variable {w : Platform} {tmp dest : Path} {op : Op} {v : ModelCache.Env} {s s₀ : World}

/-- The pieces of a file, cut short where the disk fails. -/
def pieces (w : Platform) (file : Option Bytes) (fails : Option ℕ) (chunkSize : ℤ) :
    List Bytes × Option Exn :=
  match file, iterFileChunks w (file.getD []) chunkSize, fails with
  | none, _, _ => ([], some .os)
  | some _, .error e, _ => ([], some e)
  | some _, .ok datas, none => (datas, none)
  | some _, .ok datas, some n => (datas.take n, some .os)

/-- One command. -/
def sem (w : Platform) : (c : Cmd) → Env → World → Answer c × World
  | .disk op, v, s => ((op.run ⟨v.fails, fun _ _ => .refused⟩ s.fs).1,
      { s with fs := (op.run ⟨v.fails, fun _ _ => .refused⟩ s.fs).2 })
  | .available _, v, s => (v.names, s)
  | .fetch _ _, v, s => (v.bytes, s)
  | .isMedia _, v, s => (v.found, s)
  | .readMedia _, v, s => (v.bytes, s)
  | .present, v, s => (v.present, match v.present with
      | .ok (some p) => { s with vouched := s.vouched ++ [p] }
      | _ => s)
  | .innerEnsure, v, s => (v.path, { s with ensured := s.ensured ++ [v.path] })
  | .openSession, v, s => (v.session, s)
  | .getManifest, v, s => (v.reply, s)
  | .peers, v, s => (v.peers, s)
  | .isDir _, v, s => (v.found, s)
  | .listDir _, v, s => (v.listing, s)
  | .isFile _, v, s => (v.found, s)
  | .readPieces p chunkSize, v, s => (pieces w (s.fs p) v.fails chunkSize, s)

abbrev Prog := Crash.Prog Answer Exn

/-- A value or an exception, as a program. -/
def ofExcept {R : Type} : Except Exn R → Prog R
  | .ok r => pure r
  | .error e => .raise e

/-- An operation whose failure ends the call. -/
def orRaise (op : Op) : Prog Unit := do
  if ← perform (Cmd.disk op) then pure () else .raise .os

/-! ### Peers -/

/-- Who holds what, as of one pass. -/
abbrev PeerIndex := List (ℕ × List Str)

/-- `index.holders(chunk)`, in discovery order. -/
def PeerIndex.holders (index : PeerIndex) (chunk : Str) : List ℕ :=
  (index.filter (·.2.contains chunk)).map Prod.fst

def discover : List ℕ → Prog PeerIndex
  | [] => pure []
  | peer :: peers => do
    let names ← ofExcept (← perform (Cmd.available peer))
    let index ← discover peers
    pure ((peer, names) :: index)

/-- The chunks still to fetch, one by one into the store. -/
def fetchChunks (index : PeerIndex) : List Str → ChunkStore w → Prog (List Str × ChunkStore w)
  | [], store => pure ([], store)
  | chunk :: chunks, store => match index.holders chunk with
    | [] => .raise (.chunkNotFound chunk)
    | peer :: _ => do
      let data ← ofExcept (← perform (Cmd.fetch peer chunk))
      if chunkHash w data ≠ chunk then
        .raise (.verificationError (text "peer served bytes that do not match chunk " ++ chunk))
      else do
        let (_, store) ← ofExcept (store.put data)
        let (fetched, store) ← fetchChunks index chunks store
        pure (chunk :: fetched, store)

def fetchDelta (m : Manifest) (store : ChunkStore w) (index : PeerIndex) :
    Prog (List Str × ChunkStore w) := fetchChunks index (missingChunks m store) store

/-! ### Bundles -/

/-- The chunks still to read from the bundle. -/
def importChunks : List Str → ChunkStore w → Prog (ChunkStore w)
  | [], store => pure store
  | h :: hs, store => do
    if ← ofExcept (← perform (Cmd.isMedia (.chunk h))) then
      let data ← ofExcept (← perform (Cmd.readMedia (.chunk h)))
      if chunkHash w data ≠ h then
        .raise (.verificationError (text "bundle chunk " ++ h ++ text " does not match its hash"))
      else do
        let (_, store) ← ofExcept (store.put data)
        importChunks hs store
    else .raise (.chunkNotFound h)

def importBundle (key : Bytes) (store : ChunkStore w) : Prog (Manifest × ChunkStore w) := do
  let data ← ofExcept (← perform (Cmd.readMedia .manifest))
  let m ← ofExcept (parseManifest w data)
  let raw ← ofExcept (← perform (Cmd.readMedia .signature))
  match w.readText raw with
  | none => .raise .value
  | some signature =>
    if ← ofExcept (verifyManifest w m (strip signature) key) then
      let store ← importChunks (missingChunks m store) store
      pure (m, store)
    else .raise (.verificationError (text "bundle manifest signature does not verify"))

/-! ### Reconstruction -/

/-- Chunk by chunk into the open file, the running hash by the bytes it was fed. -/
def writeChunks (tmp : Path) : List Str → ChunkStore w → Bytes → ℕ → Prog (Bytes × ℕ)
  | [], _, whole, written => pure (whole, written)
  | expected :: rest, store, whole, written => do
    let (data, store) ← ofExcept (store.get expected)
    if chunkHash w data ≠ expected then
      .raise (.verificationError (text "chunk hash mismatch for " ++ expected))
    else do
      orRaise (.append tmp data)
      writeChunks tmp rest store (whole ++ data) (written + data.length)

/-- `with` closes the file whether or not the body raised. -/
def closing {R : Type} (r : Except Exn R) : Prog R := do
  orRaise .close
  ofExcept r

def reconstruct (m : Manifest) (store : ChunkStore w) (dest : Path) : Prog Unit := do
  orRaise (.create dest)
  let r ← (writeChunks dest m.chunks store [] 0).attempt
  let (whole, written) ← closing r
  if (written : ℤ) ≠ m.totalSize then
    .raise (.verificationError (text "size mismatch: wrote " ++ codes (renderInt written)
      ++ text ", manifest says " ++ codes (renderInt m.totalSize)))
  else if hexdigest w whole ≠ m.wholeFileSha256 then
    .raise (.verificationError (text "whole-file hash mismatch"))
  else pure ()

def partialPath (dest : Path) : Path := dest ++ ".partial"

def reconstructAtomic (m : Manifest) (store : ChunkStore w) (dest : Path) : Prog Unit := do
  match ← (reconstruct m store (partialPath dest)).attempt with
  | .error e =>
    orRaise (.unlink (partialPath dest))
    .raise e
  | .ok () => orRaise (.rename (partialPath dest) dest)

def verifiedReconstruct (m : Manifest) (signature : Str) (key : Bytes) (store : ChunkStore w)
    (dest : Path) : Prog Unit := do
  if ← ofExcept (verifyManifest w m signature key) then reconstructAtomic m store dest
  else .raise (.verificationError (text "manifest signature does not verify"))

/-! ### Whole transfers -/

/-- Where the chunks and the manifest come from. -/
inductive Source where
  /-- a manifest that was handed over, and peers -/
  | peers (m : Manifest) (peers : List ℕ)
  | bundle

def gather (source : Source) (key : Bytes) (store : ChunkStore w) :
    Prog (Manifest × ChunkStore w) :=
  match source with
  | .peers m peers => do
    let index ← discover peers
    let (_, store) ← fetchDelta m store index
    pure (m, store)
  | .bundle => importBundle key store

/-- Chunks are obtained and the file is reconstructed. -/
def transfer (source : Source) (signature : Str) (key : Bytes) (store : ChunkStore w)
    (dest : Path) : Prog Unit := do
  let (m, store) ← gather source key store
  verifiedReconstruct m signature key store dest

/-! ### The disk during a reconstruction -/

/-- FRAME: only `tmp` differs from `s₀`. -/
def Only (s₀ : World) (tmp : Path) (s : World) : Prop :=
  s.ensured = s₀.ensured ∧ ∀ p, p ≠ tmp → s.fs p = s₀.fs p

/-- Operations that write nothing but `tmp`. -/
def OnTmp (tmp : Path) : Op → Prop
  | .create p | .append p _ | .unlink p => p = tmp
  | .close => True
  | _ => False

theorem run_elsewhere (h : OnTmp tmp op) (hp : p ≠ tmp) : (op.run v fs).2 p = fs p := by
  cases op with
  | create q =>
    obtain rfl : q = tmp := h
    rcases ModelCache.run_create v fs q with hr | hr
    · rw [hr]; exact update_of_ne hp ..
    · rw [hr]
  | append q bs =>
    obtain rfl : q = tmp := h
    rcases ModelCache.run_append v fs q bs with hr | ⟨w, -, hr⟩
    · rw [hr]; exact update_of_ne hp ..
    · rw [hr]; exact update_of_ne hp ..
  | unlink q =>
    obtain rfl : q = tmp := h
    rcases ModelCache.run_unlink v fs q with hr | hr
    · rw [hr]; exact update_of_ne hp ..
    · rw [hr]
  | close =>
    rcases ModelCache.run_close v fs with hr | hr
    · rw [hr]
    · rw [hr]
  | mkdir q | openAppend q | rename q q' => exact h.elim

theorem run_fails (op : Op) (hv : v.fails ≠ none) (fs : Fs) : (op.run v fs).1 = false := by
  obtain ⟨n, hn⟩ := Option.ne_none_iff_exists'.1 hv
  cases op with
  | mkdir p => simp [Op.run, hn]
  | close => simp [Op.run, hn]
  | create p => simp [Op.run, hn]
  | openAppend p => simp [Op.run, hn]
  | append p bs => simp [Op.run, hn]
  | unlink p => simp [Op.run, hn]
  | rename p q => simp [Op.run, hn]

theorem Only.run (h : Only s₀ tmp s) (op : Op) (hop : OnTmp tmp op)
    (v : ModelCache.Env) : Only s₀ tmp { s with fs := (op.run v s.fs).2 } :=
  ⟨h.1, fun p hp => (run_elsewhere hop hp).trans (h.2 p hp)⟩

section
variable {may : Cmd → World → Env → Prop} {R : Type}

section
variable (hdisk : ∀ op s v, may (.disk op) s v ↔ v.fails = none) {f : Unit → Prog R}
include hdisk

/-- An operation: what follows when the disk does its part, and when it does not. -/
theorem judged_orRaise (fs : Fs)
    (hrun : op.run ⟨none, fun _ _ => .refused⟩ s.fs = (true, fs))
    (hok : Judged (sem w) may G B (f ()) { s with fs := fs })
    (hbad : ∀ v : ModelCache.Env, v.fails ≠ none → B (.error .os) { s with fs := (op.run v s.fs).2 }) :
    Judged (sem w) may G B (orRaise op >>= f) s := by
  refine .perform (fun v hv => ?_) fun v hv => ?_
  · have hnone : v.fails = none := (hdisk op s v).1 hv
    simp only [sem, hnone, hrun]
    exact hok
  · have hsome : v.fails ≠ none := fun hn => hv ((hdisk op s v).2 hn)
    have hfalse := run_fails op (v := ⟨v.fails, fun _ _ => .refused⟩) hsome s.fs
    simp only [sem, hfalse]
    exact hbad _ hsome

omit hdisk in
/-- An operation after something went wrong already. -/
theorem safe_orRaise
    (hok : ∀ v : ModelCache.Env, Safe (sem w) (fun _ _ _ => True) (fun _ _ => True) B (f ())
      { s with fs := (op.run v s.fs).2 })
    (hbad : ∀ v : ModelCache.Env, B (.error .os) { s with fs := (op.run v s.fs).2 }) :
    Safe (sem w) (fun _ _ _ => True) (fun _ _ => True) B (orRaise op >>= f) s := by
  refine .perform trivial fun v _ => ?_
  cases hrun : (op.run ⟨v.fails, fun _ _ => .refused⟩ s.fs).1 with
  | true =>
    simp only [sem, hrun]
    exact hok _
  | false =>
    simp only [sem, hrun]
    exact hbad _

/-! ### One reconstruction -/

/-- The disk failed; only `tmp` was touched. -/
def Broken (s₀ : World) (tmp : Path) (r : Except Exn R) (s : World) : Prop :=
  Only s₀ tmp s ∧ r = .error .os

/-- The chunks that were written, or the one that is missing. -/
def Wrote (s₀ : World) (tmp : Path) (store : ChunkStore w) (chunks : List Str) (b : Bytes) :
    Except Exn (Bytes × ℕ) → World → Prop
  | .ok (whole, written), s => Only s₀ tmp s ∧ s.fs tmp = some whole ∧ written = whole.length ∧
      ∃ datas : List Bytes, datas.map (chunkHash w) = chunks ∧ whole = b ++ datas.flatten
  | .error e, s => Only s₀ tmp s ∧ ∃ h ∈ chunks, store.has h = false ∧ e = .chunkNotFound h

theorem judged_writeChunks (chunks : List Str) (store : ChunkStore w) (b : Bytes)
    (hs : Only s₀ tmp s) (hb : s.fs tmp = some b) :
    Judged (sem w) may (Wrote s₀ tmp store chunks b) (Broken s₀ tmp)
      (writeChunks tmp chunks store b b.length) s := by
  induction chunks generalizing store b s with
  | nil => exact ⟨hs, hb, rfl, [], rfl, (append_nil b).symm⟩
  | cons expected rest ih =>
    rw [writeChunks]
    cases hget : store.get expected with
    | error e =>
      refine ⟨hs, expected, mem_cons_self, ?_⟩
      cases hhas : store.has expected with
      | true =>
        obtain ⟨data, store', hok⟩ := ChunkStore.get_of_has hhas
        rw [hget] at hok
        cases hok
      | false =>
        refine ⟨rfl, ?_⟩
        rw [ChunkStore.get] at hget
        split at hget
        · cases hget
        · exact (error.inj hget).symm
    | ok found =>
      obtain ⟨data, store'⟩ := found
      obtain ⟨hname, hhas⟩ := ChunkStore.get_ok hget
      change Judged (sem w) may _ _ (if chunkHash w data ≠ expected then _ else _) s
      rw [if_neg (not_not.2 hname)]
      have hrun : (Op.append tmp data).run ⟨none, fun _ _ => .refused⟩ s.fs
          = (true, update s.fs tmp (some (b ++ data))) := by
        rw [Op.run, hb]
        rfl
      have hs' : Only s₀ tmp { s with fs := update s.fs tmp (some (b ++ data)) } := by
        have := hs.run (.append tmp data) rfl ⟨none, fun _ _ => .refused⟩
        rwa [hrun] at this
      refine judged_orRaise hdisk _ hrun ?_ fun v _ =>
        ⟨hs.run (.append tmp data) rfl v, rfl⟩
      have hrest := ih store' (b ++ data) hs' (update_self ..)
      rw [length_append] at hrest
      refine Judged.mono (fun r t hr => ?_) (fun r t hr => hr) hrest
      cases r with
      | ok whole =>
        obtain ⟨ht, hfs, hlen, datas, hdatas, hwhole⟩ := hr
        refine ⟨ht, hfs, hlen, data :: datas, ?_, ?_⟩
        · rw [map_cons, hname, hdatas]
        · rw [hwhole, flatten_cons, append_assoc]
      | error e =>
        obtain ⟨ht, h, hmem, hlack, he⟩ := hr
        exact ⟨ht, h, mem_cons_of_mem _ hmem, (hhas h).symm.trans hlack, he⟩

/-- A file of chunks with the manifest's names and hash, or why there is none. -/
def Rebuilt (s₀ : World) (tmp : Path) (store : ChunkStore w) (m : Manifest) :
    Except Exn Unit → World → Prop
  | .ok (), s => Only s₀ tmp s ∧ ∃ datas : List Bytes, s.fs tmp = some datas.flatten ∧
      hexdigest w datas.flatten = m.wholeFileSha256
  | .error e, s => Only s₀ tmp s ∧ ((∃ h ∈ m.chunks, store.has h = false ∧ e = .chunkNotFound h) ∨
      ∃ (text : Str) (datas : List Bytes), e = .verificationError text ∧
        datas.map (chunkHash w) = m.chunks ∧
        ((datas.flatten.length : ℤ) ≠ m.totalSize ∨ hexdigest w datas.flatten ≠ m.wholeFileSha256))

theorem judged_reconstruct (m : Manifest) (store : ChunkStore w) (tmp : Path) (s₀ : World) :
    Judged (sem w) may (Rebuilt s₀ tmp store m) (Broken s₀ tmp) (reconstruct m store tmp) s₀ := by
  have hself : Only s₀ tmp s₀ := ⟨rfl, fun _ _ => rfl⟩
  refine judged_orRaise hdisk (update s₀.fs tmp (some [])) rfl ?_ fun v _ =>
    ⟨hself.run (.create tmp) rfl v, rfl⟩
  have hcreated := hself.run (.create tmp) rfl ⟨none, fun _ _ => .refused⟩
  refine .attempt (fun r t hr => ?_) (fun r t hr => ?_)
    (judged_writeChunks hdisk m.chunks store [] hcreated (update_self ..))
  · have ht : Only s₀ tmp t := by
      rcases r with e | ⟨whole, written⟩
      · exact hr.1
      · exact hr.1
    refine .bind (G := fun r' t' => r' = r ∧ t' = t) (B := Broken s₀ tmp) ?_ ?_ ?_ ?_
      (judged_orRaise hdisk t.fs rfl ?_ fun v _ => ⟨ht.run .close trivial v, rfl⟩)
    · rintro ⟨whole, written⟩ _ ⟨rfl, rfl⟩
      obtain ⟨-, hfs, rfl, datas, hdatas, rfl⟩ := hr
      dsimp only
      split
      · next hsize => exact ⟨ht, .inr ⟨_, datas, rfl, hdatas, .inl hsize⟩⟩
      · split
        · next hhash => exact ⟨ht, .inr ⟨_, datas, rfl, hdatas, .inr hhash⟩⟩
        · next hhash => exact ⟨ht, datas, hfs, not_not.1 hhash⟩
    · rintro e _ ⟨rfl, rfl⟩
      exact ⟨ht, .inl hr.2⟩
    · rintro _ t' ⟨-, hbad⟩
      cases hbad
    · rintro e t' ⟨ht', hbad⟩
      exact ⟨ht', congrArg _ (error.inj hbad)⟩
    · rcases r with e | found
      · exact ⟨rfl, rfl⟩
      · exact ⟨rfl, rfl⟩
  · obtain ⟨ht, rfl⟩ := hr
    have hclose : Safe (sem w) (fun _ _ _ => True) (fun _ _ => True) (Broken s₀ tmp)
        (closing (R := Bytes × ℕ) (.error .os)) t :=
      safe_orRaise (fun v => ⟨ht.run .close trivial v, rfl⟩)
        fun v => ⟨ht.run .close trivial v, rfl⟩
    refine .bind ?_ ?_ hclose
    · rintro _ t' ⟨-, hbad⟩
      cases hbad
    · rintro e t' ⟨ht', hbad⟩
      exact ⟨ht', congrArg _ (error.inj hbad)⟩

omit hdisk in
theorem partialPath_ne : partialPath dest ≠ dest := by
  intro h
  have hlen := congrArg String.length h
  rw [partialPath, String.length_append] at hlen
  have htail : (".partial" : String).length = 8 := rfl
  omega

/-- The destination holds such a file, or is as it was. -/
def Published (s₀ : World) (dest : Path) (store : ChunkStore w) (m : Manifest) :
    Except Exn Unit → World → Prop
  | .ok (), s => s.ensured = s₀.ensured ∧ ∃ datas : List Bytes, s.fs dest = some datas.flatten ∧
      hexdigest w datas.flatten = m.wholeFileSha256
  | .error e, s => Rebuilt s₀ (partialPath dest) store m (.error e) s

theorem judged_reconstructAtomic (m : Manifest) (store : ChunkStore w) (dest : Path) (s₀ : World) :
    Judged (sem w) may (Published s₀ dest store m) (Broken s₀ (partialPath dest))
      (reconstructAtomic m store dest) s₀ := by
  refine Judged.attempt (fun r t hr => ?_) (fun r t hr => ?_)
    (judged_reconstruct hdisk m store (partialPath dest) s₀)
  · match r, hr with
    | .ok (), ⟨ht, datas, hfs, hhash⟩ =>
      have hrun : (Op.rename (partialPath dest) dest).run ⟨none, fun _ _ => .refused⟩ t.fs
          = (true, update (update t.fs (partialPath dest) none) dest
            (some datas.flatten)) := by
        rw [Op.run, hfs]
      have hlast := judged_orRaise (R := Unit) (f := pure) hdisk (w := w) (s := t)
        (G := Published s₀ dest store m) (B := Broken s₀ (partialPath dest)) _ hrun
        ⟨ht.1, datas, update_self .., hhash⟩ fun v hv => ?_
      · rwa [show orRaise (Op.rename (partialPath dest) dest) >>= pure = _ from bind_ret _] at hlast
      · refine ⟨?_, rfl⟩
        rcases ModelCache.run_rename v t.fs (partialPath dest) dest with ⟨hn, -⟩ | ⟨-, hr⟩
        · exact absurd hn hv
        · rw [hr]
          exact ht
    | .error e, ⟨ht, hwhy⟩ =>
      refine judged_orRaise hdisk (update t.fs (partialPath dest) none) rfl ?_ fun v _ =>
        ⟨ht.run (.unlink (partialPath dest)) rfl v, rfl⟩
      exact ⟨ht.run (.unlink (partialPath dest)) rfl ⟨none, fun _ _ => .refused⟩, hwhy⟩
  · obtain ⟨ht, rfl⟩ := hr
    have hunlink := fun v => ht.run (.unlink (partialPath dest)) rfl v
    exact safe_orRaise (fun v => ⟨hunlink v, rfl⟩) fun v => ⟨hunlink v, rfl⟩

end

end

/-! ### Obtaining chunks leaves the disk alone -/

theorem looks_ofExcept {R : Type} : ∀ r : Except Exn R, Looks (sem w) (ofExcept r)
  | .ok _ | .error _ => trivial

theorem looks_discover : Looks (sem w) (discover peers) := by
  induction peers with
  | nil => trivial
  | cons peer peers ih =>
    refine .perform (fun _ _ => rfl) fun names => .bind (fun names => ?_) (looks_ofExcept names)
    refine .bind (fun index => ?_) ih
    trivial

theorem looks_fetchChunks (index : PeerIndex) (chunks : List Str) (store : ChunkStore w) :
    Looks (sem w) (fetchChunks index chunks store) := by
  induction chunks generalizing store with
  | nil => trivial
  | cons chunk chunks ih =>
    rw [fetchChunks]
    split
    · trivial
    refine .perform (fun _ _ => rfl) fun data => .bind (fun data => ?_) (looks_ofExcept data)
    split
    · trivial
    · refine .bind (fun kept => ?_) (looks_ofExcept _)
      refine .bind (fun fetched => ?_) (ih kept.2)
      trivial

theorem looks_importChunks (hs : List Str) (store : ChunkStore w) :
    Looks (sem w) (importChunks hs store) := by
  induction hs generalizing store with
  | nil => trivial
  | cons h hs ih =>
    refine .perform (fun _ _ => rfl) fun found => .bind (fun found => ?_) (looks_ofExcept found)
    split
    · refine .perform (fun _ _ => rfl) fun data => .bind (fun data => ?_) (looks_ofExcept data)
      split
      · trivial
      · refine .bind (fun kept => ?_) (looks_ofExcept _)
        exact ih kept.2
    · trivial

theorem looks_importBundle (key : Bytes) (store : ChunkStore w) :
    Looks (sem w) (importBundle key store) := by
  refine .perform (fun _ _ => rfl) fun data => .bind (fun data => ?_) (looks_ofExcept data)
  refine .bind (fun m => ?_) (looks_ofExcept _)
  refine .perform (fun _ _ => rfl) fun raw => .bind (fun raw => ?_) (looks_ofExcept raw)
  split
  · trivial
  refine .bind (fun valid => ?_) (looks_ofExcept _)
  split
  · refine .bind (fun kept => ?_) (looks_importChunks _ _)
    trivial
  · trivial

variable {key : Bytes} {store : ChunkStore w}

theorem looks_gather : Looks (sem w) (gather source key store) := by
  cases source with
  | peers m peers =>
    refine .bind (fun index => ?_) looks_discover
    refine .bind (fun found => ?_) (looks_fetchChunks index _ store)
    trivial
  | bundle => exact looks_importBundle key store

/-! ### Soundness and completeness -/

section
variable (hcoll : Injective w.sha256) {m : Manifest} {file : Bytes} {signature : Str}
include hcoll

/-- With a collision-free hash a signature verifies what it was made for and nothing else. -/
theorem noForgery_signManifest : verifyManifest w m (signManifest w m key) key = .ok true ∧
      NoForgery w key [m.canonicalBytes w] (signManifest w m key) := by
  have hascii : (signManifest w m key).all (· < 128) = true := by
    rw [all_eq_true]
    intro c hc
    have hbare := bare_hex c hc
    exact decide_eq_true (by omega)
  refine ⟨by rw [verifyManifest, if_pos hascii, decide_eq_true rfl], fun m' hm' => ?_⟩
  rw [verifyManifest, if_pos hascii] at hm'
  have hsame := hex_injective (of_decide_eq_true (ok.inj hm'))
  have hinner := append_cancel_left (hcoll hsame)
  have hbytes := append_cancel_left (hcoll hinner)
  rw [hbytes]
  exact mem_singleton_self _

/-- A signature that is no forgery lets only the signed file through. -/
theorem safe_verifiedReconstruct (hm : Describes w file m)
    (hsig : NoForgery w key [m.canonicalBytes w] signature) :
    Safe (sem w) (fun _ _ _ => True) (fun _ _ => True)
      (fun r t => (∀ e, r = .error e → t.fs dest = s.fs dest) ∧ (r = .ok () → t.fs dest = some file))
      (verifiedReconstruct m' signature key store dest) s := by
  rw [verifiedReconstruct]
  cases hv : verifyManifest w m' signature key with
  | error e => exact ⟨fun _ _ => rfl, nofun⟩
  | ok valid =>
    cases valid with
    | false => exact ⟨fun _ _ => rfl, nofun⟩
    | true =>
      obtain ⟨-, -, hwhole⟩ := eq_of_canonicalBytes hm (mem_singleton.1 (hsig m' hv))
      have hjudged : Judged (sem w) (fun _ _ v => v.fails = none) (Published s dest store m')
          (Broken s (partialPath dest)) (reconstructAtomic m' store dest) s :=
        judged_reconstructAtomic (fun _ _ _ => Iff.rfl) m' store dest s
      refine .mono (fun r t hr => ?_) hjudged.safe
      have hframe : Only s (partialPath dest) t → t.fs dest = s.fs dest := fun ht =>
        ht.2 dest partialPath_ne.symm
      match r, hr with
      | .ok (), .inl ⟨_, datas, hfs, hhash⟩ =>
        refine ⟨nofun, fun _ => ?_⟩
        rw [hwhole, hm.wholeFileSha256] at hhash
        rw [hfs, hexdigest_injective hcoll hhash]
      | .error e, .inl ⟨ht, _⟩ | .error e, .inr ⟨ht, _⟩ => exact ⟨fun _ _ => hframe ht, nofun⟩
      | .ok (), .inr ⟨_, hbad⟩ => cases hbad

/-- With every chunk at hand and a disk that works, a valid signature is enough. -/
theorem judged_verifiedReconstruct (hm : Describes w file m)
    (hsig : verifyManifest w m signature key = .ok true)
    (hall : ∀ h ∈ m.chunks, store.has h = true) (dest : Path) (s : World) :
    Judged (sem w) (fun _ _ v => v.fails = none)
      (fun r t => r = .ok () ∧ t.fs dest = some file) (fun _ _ => True)
      (verifiedReconstruct m signature key store dest) s := by
  rw [verifiedReconstruct, hsig]
  refine .mono (fun r t hr => ?_) (fun _ _ _ => trivial)
    (judged_reconstructAtomic (w := w) (fun _ _ _ => Iff.rfl) m store dest s)
  match r, hr with
  | .ok (), ⟨_, datas, hfs, hhash⟩ =>
    rw [hm.wholeFileSha256] at hhash
    exact ⟨rfl, by rw [hfs, hexdigest_injective hcoll hhash]⟩
  | .error e, ⟨_, .inl ⟨h, hmem, hlack, _⟩⟩ =>
    rw [hall h hmem] at hlack
    cases hlack
  | .error e, ⟨_, .inr ⟨_, datas, _, hdatas, hwrong⟩⟩ =>
    -- equal names, so the chunks themselves, so the file
    have hsame : datas = batched m.chunkSize.toNat file := by
      rw [hm.chunks] at hdatas
      exact map_injective_iff.2 (hexdigest_injective hcoll) hdatas
    have hfile : datas.flatten = file := by rw [hsame]; exact flatten_chunks hm.positive file
    rw [hfile, hm.totalSize, hm.wholeFileSha256] at hwrong
    rcases hwrong with hwrong | hwrong
    · exact absurd rfl hwrong
    · exact absurd rfl hwrong

end

/-- For every file and chunk size, with a hash without collisions and no forged signature: a
    transfer by any manifest over any peers or bundle, from any store, on a disk that fails where it
    likes, raises and leaves the destination as it was, or leaves the file there; and with a valid
    signature and every chunk in the store, reconstruction succeeds on a disk that works. -/
theorem transfer_sound_complete (w : Platform) (hcoll : Injective w.sha256) (file : Bytes)
    (modelId : Str) (chunkSize : ℤ) (key : Bytes) (m : Manifest)
    (hm : buildManifest w file modelId chunkSize = .ok m) :
    (∀ (source : Source) (signature : Str) (store : ChunkStore w) (dest : Path) (s : World) (v : Env)
      (vs : List Env), NoForgery w key [m.canonicalBytes w] signature →
      let r := (transfer source signature key store dest).play (sem w) v s vs
      (∀ e, r.1 = .error e → r.2.fs dest = s.fs dest) ∧ (r.1 = .ok () → r.2.fs dest = some file)) ∧
    (∀ (signature : Str) (store : ChunkStore w) (dest : Path) (s : World) (v : Env) (vs : List Env),
      verifyManifest w m signature key = .ok true → (∀ h ∈ m.chunks, store.has h = true) →
      (∀ u ∈ v :: vs, u.fails = none) →
      let r := (verifiedReconstruct m signature key store dest).play (sem w) v s vs
      r.1 = .ok () ∧ r.2.fs dest = some file) ∧
    verifyManifest w m (signManifest w m key) key = .ok true ∧
    NoForgery w key [m.canonicalBytes w] (signManifest w m key) := by
  have hdesc := describes_of_build hm
  refine ⟨fun source signature store dest s v vs hsig => ?_,
    fun signature store dest s v vs hsig hall hdisk => ?_, noForgery_signManifest hcoll⟩
  · have hsafe : Safe (sem w) (fun _ _ _ => True) (fun _ _ => True)
        (fun r t => (∀ e, r = .error e → t.fs dest = s.fs dest) ∧ (r = .ok () → t.fs dest = some file))
        (transfer source signature key store dest) s := by
      refine Safe.bind ?_ ?_ (looks_gather.safe fun _ => trivial)
      · rintro ⟨m', store'⟩ t ht
        rw [ht]
        exact safe_verifiedReconstruct hcoll hdesc hsig
      · rintro e t ht
        rw [ht]
        exact ⟨fun _ _ => rfl, nofun⟩
    exact hsafe.play (.of_forall fun _ _ _ _ => trivial)
  · exact (judged_verifiedReconstruct hcoll hdesc hsig hall dest s).play _ |>.1
      (.of_forall fun _ _ u hu => hdisk u hu)

/-! ### A small transfer -/

/-- No float occurs in a manifest. -/
@[reducible] def noFloat : PyFloat Unit where
  repr _ := ['0', '.', '0']
  ofText _ := ()
  ofInt _ := some ()
  isFinite _ := false
  nan := ()
  inf := ()
  negInf := ()
  repr_spec _ h := by cases h

/-- A hash without collisions: the bytes themselves. -/
def plainPlatform : Platform where
  F := Unit
  float := noFloat
  sha256 := id
  readText b := some (b.map UInt8.toNat)
  jsonText b := some (b.map fun x => Char.ofNat x.toNat)
  decodeError _ := true
  maxDepth := 1000
  maxRead := 1000

/-- Three bytes in chunks of two. -/
def threeBytes : Manifest where
  modelId := text "m"
  totalSize := 3
  chunkSize := 2
  wholeFileSha256 := text "010203"
  chunks := [text "0102", text "03"]
  merkleRoot := text "010001020003"

def threeStore : ChunkStore plainPlatform where
  maxBytes := 8
  maxBytes_pos := by decide
  used := 3
  chunks := [(text "03", [3]), (text "0102", [1, 2])]
  keyed := by decide +kernel
  named := by decide +kernel
  used_eq := rfl
  fits := by decide

theorem transfer_sound_complete_three :
    buildManifest plainPlatform [1, 2, 3] (text "m") 2 = .ok threeBytes ∧
    let r := (verifiedReconstruct threeBytes (signManifest plainPlatform threeBytes [7]) [7]
      threeStore "m.gguf").play (sem plainPlatform) {} ⟨fun _ => none, [], []⟩ []
    r.1 = .ok () ∧ r.2.fs "m.gguf" = some [1, 2, 3] := by
  have hbuild : buildManifest plainPlatform [1, 2, 3] (text "m") 2 = .ok threeBytes := by
    decide +kernel
  have h := transfer_sound_complete plainPlatform (fun _ _ h => h) [1, 2, 3] (text "m") 2 [7]
    threeBytes hbuild
  have hhas : ∀ c ∈ threeBytes.chunks, threeStore.has c = true := by decide +kernel
  refine ⟨hbuild, h.2.1 _ threeStore "m.gguf" _ _ _ h.2.2.1 hhas fun u hu => ?_⟩
  rw [mem_singleton.1 hu]

end Fallow.Mesh

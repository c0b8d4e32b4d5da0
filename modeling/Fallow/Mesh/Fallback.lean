import Fallow.Mesh.Transfer
import Fallow.ModelCache.Marker

/-! `MeshModelStore` of the agent: the mesh first, the blob download when the mesh fails.

        present? ──▶ mesh: manifest, seed, peers, reconstruct, marker ──▶ dest
           │                    │ MeshError, ModelmeshError, HTTPError
           ▼                    ▼
         path              inner.ensure            any other exception ──▶ the caller

    The outside is as in the transfer: any reply of the coordinator, any peer, any disk. What is meant
    to fall back is a list of exception classes, and the steps can raise others. `Harmless` says, step
    by step, which answers of the outside stay within the list; the main result is that the promise is
    kept in exactly the runs all of whose answers do. -/

namespace Fallow.Mesh
open Lib Lib.PyJson Lib.PyStr Lib.Crash Function Option Except List Prog
open ModelCache (Path Fs Op ModelManifest blobPath markerPath modelDir encodeAscii append_ne_self)

/-! ### The signed manifest -/

/-- `int(x)` of a float. -/
inductive FloatInt where
  | whole (n : ℤ)
  | nan
  | infinite

/-- What the agent takes from Python besides. -/
structure AgentPlatform extends Platform where
  str : Value F → Str
  /-- `int(text)`; `none` is a `ValueError` -/
  intText : Str → Option ℤ
  intFloat : F → FloatInt

variable (w : AgentPlatform)

def toInt : Value w.F → Except Exn ℤ
  | .bool b => .ok (if b then 1 else 0)
  | .int n => .ok n
  | .float x => match w.intFloat x with
    | .whole n => .ok n
    | .nan => .error .value
    | .infinite => .error .overflow
  | .str s => match w.intText s with
    | some n => .ok n
    | none => .error .value
  | .null | .arr _ | .obj _ => .error .type

/-- `for x in value`: the items of a list, the characters of a string, the keys of a dict. -/
def iterate {F : Type} : Value F → Except Exn (List (Value F))
  | .arr vs => .ok vs
  | .str s => .ok (s.map fun c => .str [c])
  | .obj ms => .ok ((ms.map Prod.fst).eraseDups.map .str)
  | _ => .error .type

/-- `raw[key]` -/
def item {F : Type} (raw : List (Str × Value F)) (key : String) : Except Exn (Value F) :=
  match get key raw with
  | some v => .ok v
  | none => .error .key

/-- The arguments of `Manifest`, in order. -/
def manifestFields (raw : List (Str × Value w.F)) : Except Exn Manifest := do
  let modelId ← item raw "model_id"
  let totalSize ← item raw "total_size"
  let totalSize ← toInt w totalSize
  let chunkSize ← item raw "chunk_size"
  let chunkSize ← toInt w chunkSize
  let whole ← item raw "whole_file_sha256"
  let chunks ← item raw "chunks"
  let chunks ← iterate chunks
  let root ← item raw "merkle_root"
  pure ⟨w.str modelId, totalSize, chunkSize, w.str whole, chunks.map w.str, w.str root⟩

/-- `except (KeyError, TypeError, ValueError)` -/
def Exn.malformed : Exn → Bool
  | .key | .type | .value => true
  | _ => false

def parseSignedManifest : Value w.F → Except Exn (Manifest × Str)
  | .obj ms => match get "manifest" ms, get "signature" ms with
    | some (.obj raw), some (.str signature) => match manifestFields w raw with
      | .ok m => .ok (m, signature)
      | .error e => if e.malformed then .error .meshError else .error e
    | _, _ => .error .meshError
  | _ => .error .meshError

def verifiedMeshManifest (payload : Value w.F) (key : Bytes) (expectedSha256 : Str) :
    Except Exn (Manifest × Str) :=
  match parseSignedManifest w payload with
  | .error e => .error e
  | .ok (m, signature) => match verifyManifest w.toPlatform m signature key with
    | .error e => .error e
    | .ok valid =>
      if valid = false ∨ m.wholeFileSha256 ≠ expectedSha256 then .error .meshError
      else .ok (m, signature)

/-- The body of a reply, as JSON. -/
def signedManifest : ℕ × Bytes → Except Exn (Value w.F)
  | (status, body) =>
    if 200 ≤ status ∧ status < 300 then loadsBytes w.toPlatform .meshError body else .error .http

/-! ### The store -/

structure MeshModelStore where
  signingKey : Bytes
  cacheDir : String
  storeCapacityBytes : ℤ

/-- The reply's payload, parsed and vetted. -/
def meshManifest (st : MeshModelStore) (sha256 : Str) (reply : ℕ × Bytes) :
    Except Exn (Manifest × Str) := do
  let payload ← signedManifest w reply
  verifiedMeshManifest w payload st.signingKey sha256

/-- `Path.suffix` -/
def suffix (p : Path) : List Char :=
  let name := (p.toList.reverse.takeWhile (· ≠ '/')).reverse
  let ext := (name.reverse.takeWhile (· ≠ '.')).reverse
  if ext = [] ∨ name.length ≤ ext.length + 1 then [] else '.' :: ext

def seedSkipSuffixes : List (List Char) :=
  [".part".toList, ".partial".toList, ".sha256".toList, ".tmp".toList]

variable {w}

/-- The pieces of one file, until one is refused. -/
def putAll : List Bytes → ChunkStore w.toPlatform → Bool × ChunkStore w.toPlatform
  | [], store => (true, store)
  | data :: datas, store => match store.put data with
    | .ok (_, store) => putAll datas store
    | .error _ => (false, store)

def seedFiles (chunkSize : ℤ) : List Path → ChunkStore w.toPlatform → Prog (ChunkStore w.toPlatform)
  | [], store => pure store
  | p :: ps, store => do
    let isFile ← ofExcept (← perform (Cmd.isFile p))
    if isFile = false ∨ suffix p ∈ seedSkipSuffixes then seedFiles chunkSize ps store
    else do
      let (datas, failure) ← perform (Cmd.readPieces p chunkSize)
      match putAll datas store, failure with
      | (true, store), some e =>
        if e = .os ∨ e = .value then seedFiles chunkSize ps store else .raise e
      | (_, store), _ => seedFiles chunkSize ps store

def seedStoreFromDir (store : ChunkStore w.toPlatform) (directory : Path) (chunkSize : ℤ) :
    Prog (ChunkStore w.toPlatform) := do
  if ← ofExcept (← perform (Cmd.isDir directory)) then
    let listing ← ofExcept (← perform (Cmd.listDir directory))
    seedFiles chunkSize listing store
  else pure store

def fetchAndReconstruct (m : Manifest) (signature : Str) (key : Bytes) (peers : List ℕ)
    (store : ChunkStore w.toPlatform) (dest : Path) : Prog Unit := do
  let index ← discover peers
  let (_, store) ← fetchDelta m store index
  verifiedReconstruct m signature key store dest

def writeMarkerAtomic (marker : Path) (sha256 : String) : Prog Unit := do
  orRaise (.create (marker ++ ".tmp"))
  orRaise (.append (marker ++ ".tmp") (encodeAscii sha256))
  orRaise .close
  orRaise (.rename (marker ++ ".tmp") marker)

def fetchOverMesh (w : AgentPlatform) (st : MeshModelStore) (m : ModelManifest) (dest : Path) :
    Prog Unit := do
  orRaise (.mkdir (modelDir st.cacheDir m))
  ofExcept (← perform Cmd.openSession)
  let reply ← ofExcept (← perform Cmd.getManifest)
  let (mesh, signature) ← ofExcept (meshManifest w st (text m.sha256) reply)
  let store ← ofExcept (ChunkStore.new w.toPlatform st.storeCapacityBytes)
  let store ← seedStoreFromDir store (modelDir st.cacheDir m) mesh.chunkSize
  let peers ← ofExcept (← perform Cmd.peers)
  fetchAndReconstruct mesh signature st.signingKey peers store dest
  writeMarkerAtomic (markerPath st.cacheDir m) m.sha256

/-- `_FALLBACK_ERRORS` -/
def Exn.fallback : Exn → Bool
  | .meshError | .verificationError _ | .chunkNotFound _ | .http => true
  | _ => false

def ensure (w : AgentPlatform) (st : MeshModelStore) (m : ModelManifest) : Prog Path := do
  match ← ofExcept (← perform Cmd.present) with
  | some present => pure present
  | none =>
    -- from here on under the model's lock
    match ← ofExcept (← perform Cmd.present) with
    | some present => pure present
    | none =>
      match ← (fetchOverMesh w st m (blobPath st.cacheDir m)).attempt with
      | .ok () => pure (blobPath st.cacheDir m)
      | .error e => if e.fallback then ofExcept (← perform Cmd.innerEnsure) else .raise e

/-! ### Answers that fall back -/

def infinite : Value w.F → Bool
  | .float x => match w.intFloat x with
    | .infinite => true
    | _ => false
  | _ => false

/-- `int()` meets an infinite float before anything else is found wrong. -/
def Infinite (raw : List (Str × Value w.F)) : Prop :=
  (get "model_id" raw).isSome = true ∧ ∃ total, get "total_size" raw = some total ∧
    (infinite total = true ∨ (∃ n, toInt w total = .ok n) ∧
      ∃ chunk, get "chunk_size" raw = some chunk ∧ infinite chunk = true)

/-- A manifest object and its signature: no infinite size, a signature in ASCII and, if they are
    accepted, a store that can be made. -/
def HarmlessManifest (st : MeshModelStore) (sha256 : Str) (raw : List (Str × Value w.F))
    (signature : Str) : Prop :=
  ¬ Infinite raw ∧ ∀ m, manifestFields w raw = .ok m →
    (signature.all (· < 128)) = true ∧
    (signManifest w.toPlatform m st.signingKey = signature → m.wholeFileSha256 = sha256 →
      0 < st.storeCapacityBytes)

/-- A body that decodes, whose JSON is no deeper than Python goes and is refused, if it is, by a
    `JSONDecodeError`. -/
def HarmlessBody (st : MeshModelStore) (sha256 : Str) (body : Bytes) : Prop :=
  ∃ cs, w.jsonText body = some cs ∧ match (loads cs : Option (Value w.F)) with
    | none => w.decodeError cs = true
    | some v => height v ≤ w.maxDepth ∧ ∀ ms raw signature, v = .obj ms →
        get "manifest" ms = some (.obj raw) → get "signature" ms = some (.str signature) →
        HarmlessManifest st sha256 raw signature

def HarmlessReply (st : MeshModelStore) (sha256 : Str) : Except Exn (ℕ × Bytes) → Prop
  | .error e => e.fallback = true
  | .ok (status, body) => 200 ≤ status ∧ status < 300 → HarmlessBody (w := w) st sha256 body

def Answers {R : Type} (r : Except Exn R) : Prop := ∀ e, r = .error e → e.fallback = true

/-- The answers of the outside that leave the mesh steps within `_FALLBACK_ERRORS`. -/
def Harmless (w : AgentPlatform) (st : MeshModelStore) (sha256 : Str) : Cmd → World → Env → Prop
  | .disk _, _, v => v.fails = none
  | .available _, _, v => Answers v.names
  | .fetch _ chunk, _, v => Answers v.bytes ∧ ∀ data, v.bytes = .ok data →
      chunkHash w.toPlatform data = chunk → (data.length : ℤ) ≤ st.storeCapacityBytes
  | .present, _, v => ∀ e, v.present ≠ .error e
  | .openSession, _, v => Answers v.session
  | .getManifest, _, v => HarmlessReply (w := w) st sha256 v.reply
  | .peers, _, v => Answers v.peers
  | .isDir _, _, v => Answers v.found
  | .listDir _, _, v => Answers v.listing
  | .isFile _, _, v => Answers v.found
  | .readPieces p chunkSize, s, _ => s.fs p = none ∨ chunkSize ≤ w.maxRead
  | .innerEnsure, _, _ | .isMedia _, _, _ | .readMedia _, _, _ => True

/-! ### What the manifest's checks raise -/

variable {v : Value w.F} {e : Exn}

theorem toInt_error (h : toInt w v = .error e) :
    if infinite v = true then e = .overflow else e.malformed = true := by
  cases v with
  | float x =>
    rw [toInt] at h
    rw [infinite]
    cases hx : w.intFloat x with
    | whole n =>
      rw [hx] at h
      cases h
    | nan | infinite =>
      rw [hx] at h
      cases h
      rfl
  | str s =>
    rw [toInt] at h
    cases hs : w.intText s with
    | some n =>
      rw [hs] at h
      cases h
    | none =>
      rw [hs] at h
      cases h
      rfl
  | null => cases h; rfl
  | bool b | int n => cases h
  | arr vs | obj ms => cases h; rfl

theorem toInt_infinite (h : infinite v = true) : toInt w v = .error .overflow := by
  cases v with
  | float x =>
    rw [toInt]
    rw [infinite] at h
    cases hx : w.intFloat x with
    | whole n | nan =>
      rw [hx] at h
      cases h
    | infinite => rfl
  | str s | null | bool b | int n | arr vs | obj ms => cases h

variable {raw : List (Str × Value w.F)} {key : String}

theorem item_error (h : item raw key = .error e) : e.malformed = true := by
  rw [item] at h
  split at h
  · cases h
  · cases h
    rfl

theorem item_ok (h : item raw key = .ok v) : get key raw = some v := by
  rw [item] at h
  split at h
  · next hv => rw [hv, ok.inj h]
  · cases h

theorem iterate_error (h : iterate v = .error e) : e.malformed = true := by
  cases v with
  | arr vs | str s | obj ms => cases h
  | null | bool b | int n | float x => cases h; rfl

theorem manifestFields_infinite (h : Infinite raw) : manifestFields w raw = .error .overflow := by
  obtain ⟨hid, total, htotal, hinf⟩ := h
  obtain ⟨modelId, hid⟩ := isSome_iff_exists.1 hid
  have hget : ∀ {key : String} {v : Value w.F}, get key raw = some v → item raw key = .ok v := by
    intro key v hv
    rw [item, hv]
  rw [manifestFields, hget hid, hget htotal]
  rcases hinf with hinf | ⟨⟨n, hn⟩, chunk, hchunk, hinf⟩
  · change (toInt w total >>= _) = _
    rw [toInt_infinite hinf]
    rfl
  · change (toInt w total >>= _) = _
    rw [hn, hget hchunk]
    change (toInt w chunk >>= _) = _
    rw [toInt_infinite hinf]
    rfl

/-- Without an infinite size every fault is one of the three classes. -/
theorem manifestFields_error (hinf : ¬ Infinite raw)
    (h : manifestFields w raw = .error e) : e.malformed = true := by
  have hint : ∀ {v : Value w.F} {e : Exn}, infinite v = false → toInt w v = .error e →
      e.malformed = true := by
    intro v e hv he
    have hmal := toInt_error he
    rw [hv] at hmal
    exact hmal
  rcases bind_error h with h | ⟨modelId, hid, h⟩
  · exact item_error h
  rcases bind_error h with h | ⟨total, htotal, h⟩
  · exact item_error h
  have hid' : (get "model_id" raw).isSome = true := by rw [item_ok hid]; rfl
  rcases bind_error h with h | ⟨n, hn, h⟩
  · cases hv : infinite total with
    | false => exact hint hv h
    | true => exact absurd ⟨hid', total, item_ok htotal, .inl hv⟩ hinf
  rcases bind_error h with h | ⟨chunk, hchunk, h⟩
  · exact item_error h
  rcases bind_error h with h | ⟨k, -, h⟩
  · cases hv : infinite chunk with
    | false => exact hint hv h
    | true =>
      exact absurd ⟨hid', total, item_ok htotal, .inr ⟨⟨n, hn⟩, chunk, item_ok hchunk, hv⟩⟩ hinf
  rcases bind_error h with h | ⟨whole, -, h⟩
  · exact item_error h
  rcases bind_error h with h | ⟨chunks, -, h⟩
  · exact item_error h
  rcases bind_error h with h | ⟨vs, -, h⟩
  · exact iterate_error h
  rcases bind_error h with h | ⟨root, -, h⟩
  · exact item_error h
  cases h

variable {sha256 : Str}

variable {signature : Str} {m : Manifest}

/-- The parts of an accepted manifest. -/
theorem verifiedMeshManifest_ok {key : Bytes}
    (h : verifiedMeshManifest w payload key sha256 = .ok (m, signature)) :
    verifyManifest w.toPlatform m signature key = .ok true ∧ m.wholeFileSha256 = sha256 := by
  rw [verifiedMeshManifest] at h
  cases hp : parseSignedManifest w payload with
  | error e =>
    rw [hp] at h
    cases h
  | ok found =>
    obtain ⟨m', signature'⟩ := found
    rw [hp] at h
    dsimp only at h
    cases hv : verifyManifest w.toPlatform m' signature' key with
    | error e =>
      rw [hv] at h
      cases h
    | ok valid =>
      rw [hv] at h
      dsimp only at h
      split at h
      · cases h
      next hgood =>
      obtain ⟨rfl, rfl⟩ := Prod.mk.inj (ok.inj h)
      rw [not_or, Bool.not_eq_false, not_not] at hgood
      exact ⟨by rw [hv, hgood.1], hgood.2⟩

variable {st : MeshModelStore} {R : Type}

theorem meshManifest_ok (h : meshManifest w st sha256 reply = .ok (m, signature)) :
    verifyManifest w.toPlatform m signature st.signingKey = .ok true ∧
      m.wholeFileSha256 = sha256 := by
  obtain ⟨payload, -, h⟩ := bind_ok h
  exact verifiedMeshManifest_ok h

/-- A result that leads on or falls back: an exception of the list, or a manifest and room for it. -/
def Fine {R : Type} (st : MeshModelStore) (r : Except Exn R) : Prop :=
  (∀ e, r = .error e → e.fallback = true) ∧ ∀ x, r = .ok x → 0 < st.storeCapacityBytes

theorem fine_error : Fine st (.error e : Except Exn R) ↔ e.fallback = true :=
  ⟨fun h => h.1 e rfl, fun h => ⟨fun _ he => error.inj he ▸ h, nofun⟩⟩

theorem not_fine (he : e.fallback = false) : ¬ Fine st (.error e : Except Exn R) := by
  rw [fine_error, he]
  exact Bool.false_ne_true

theorem fine_ok : Fine st (.ok x : Except Exn R) ↔ 0 < st.storeCapacityBytes :=
  ⟨fun h => h.2 x rfl, fun h => ⟨nofun, fun _ _ => h⟩⟩

/-- The checks on a manifest object and its signature. -/
theorem harmlessManifest_iff (hraw : get "manifest" ms = some (.obj raw))
    (hsig : get "signature" ms = some (.str signature)) : HarmlessManifest st sha256 raw signature ↔
      Fine st (verifiedMeshManifest w (.obj ms) st.signingKey sha256) := by
  have hparse : parseSignedManifest w (.obj ms) = match manifestFields w raw with
      | .ok m => .ok (m, signature)
      | .error e => if e.malformed then .error .meshError else .error e := by
    rw [parseSignedManifest, hraw, hsig]
  rw [verifiedMeshManifest, hparse, HarmlessManifest]
  by_cases hinf : Infinite raw
  · rw [manifestFields_infinite hinf]
    exact iff_of_false (fun h => h.1 hinf) (not_fine rfl)
  · cases hfields : manifestFields w raw with
    | error e =>
      dsimp only
      rw [if_pos (manifestFields_error hinf hfields)]
      exact iff_of_true ⟨hinf, nofun⟩ (fine_error.2 rfl)
    | ok m =>
      dsimp only
      have hone : (¬ Infinite raw ∧ ∀ m', (ok m : Except Exn Manifest) = .ok m' →
          signature.all (· < 128) = true ∧
          (signManifest w.toPlatform m' st.signingKey = signature → m'.wholeFileSha256 = sha256 →
            0 < st.storeCapacityBytes)) ↔
          signature.all (· < 128) = true ∧
          (signManifest w.toPlatform m st.signingKey = signature → m.wholeFileSha256 = sha256 →
            0 < st.storeCapacityBytes) :=
        ⟨fun h => h.2 m rfl, fun h => ⟨hinf, fun m' hm' => ok.inj hm' ▸ h⟩⟩
      rw [hone, verifyManifest]
      cases hascii : signature.all (· < 128) with
      | false => exact iff_of_false (fun h => by cases h.1) (not_fine rfl)
      | true =>
        rw [if_pos rfl]
        dsimp only
        by_cases hgood : signManifest w.toPlatform m st.signingKey = signature ∧
            m.wholeFileSha256 = sha256
        · rw [if_neg (by simp [hgood.1, hgood.2]), fine_ok]
          exact ⟨fun h => h.2 hgood.1 hgood.2, fun h => ⟨rfl, fun _ _ => h⟩⟩
        · rw [if_pos (by rw [decide_eq_false_iff_not, ← not_and_or]; exact hgood), fine_error]
          exact iff_of_true ⟨rfl, fun h₁ h₂ => absurd ⟨h₁, h₂⟩ hgood⟩ rfl

/-- The checks on any JSON value. -/
theorem harmlessPayload_iff :
    (∀ ms raw signature, v = .obj ms → get "manifest" ms = some (.obj raw) →
      get "signature" ms = some (.str signature) → HarmlessManifest st sha256 raw signature) ↔
      Fine st (verifiedMeshManifest w v st.signingKey sha256) := by
  have hrefused : parseSignedManifest w v = .error .meshError →
      Fine st (verifiedMeshManifest w v st.signingKey sha256) := by
    intro hp
    rw [verifiedMeshManifest, hp]
    exact fine_error.2 rfl
  by_cases hshape : ∃ ms raw signature, v = .obj ms ∧ get "manifest" ms = some (.obj raw) ∧
      get "signature" ms = some (.str signature)
  · obtain ⟨ms, raw, signature, rfl, hraw, hsig⟩ := hshape
    rw [← harmlessManifest_iff hraw hsig]
    constructor
    · exact fun h => h ms raw signature rfl hraw hsig
    rintro h ms' raw' signature' hms hraw' hsig'
    cases hms
    cases hraw.symm.trans hraw'
    cases hsig.symm.trans hsig'
    exact h
  · refine iff_of_true (fun ms raw signature hv hraw hsig =>
      absurd ⟨ms, raw, signature, hv, hraw, hsig⟩ hshape) (hrefused ?_)
    rw [parseSignedManifest.eq_def]
    split
    · next ms =>
      split
      · next raw signature hraw hsig => exact absurd ⟨ms, raw, signature, rfl, hraw, hsig⟩ hshape
      · rfl
    · rfl

/-- The session and the checks: what becomes of a reply. -/
theorem harmlessReply_iff (reply : ℕ × Bytes) :
    HarmlessReply (w := w) st sha256 (.ok reply) ↔ Fine st (meshManifest w st sha256 reply) := by
  obtain ⟨status, body⟩ := reply
  rw [HarmlessReply, meshManifest, signedManifest]
  by_cases hstatus : 200 ≤ status ∧ status < 300
  · rw [if_pos hstatus, forall_prop_of_true hstatus, loadsBytes, HarmlessBody]
    cases htext : w.jsonText body with
    | none => exact iff_of_false (fun ⟨_, hcs, _⟩ => by cases hcs) (not_fine rfl)
    | some cs =>
      simp only [some.injEq, exists_eq_left']
      cases hv : (loads cs : Option (Value w.F)) with
      | none =>
        cases hd : w.decodeError cs with
        | true => exact iff_of_true rfl (fine_error.2 rfl)
        | false => exact iff_of_false Bool.false_ne_true (not_fine rfl)
      | some v =>
        dsimp only
        by_cases hdeep : w.maxDepth < height v
        · rw [if_pos hdeep]
          exact iff_of_false (fun h => Nat.not_lt.2 h.1 hdeep) (not_fine rfl)
        · rw [if_neg hdeep]
          change _ ↔ Fine st (verifiedMeshManifest w v st.signingKey sha256)
          rw [← harmlessPayload_iff]
          exact and_iff_right (Nat.not_lt.1 hdeep)
  · rw [if_neg hstatus]
    exact iff_of_true (fun h => absurd h hstatus) (fine_error.2 rfl)

/-! ### The steps, one by one -/

section
variable {st : MeshModelStore} {sha256 : Str} {R S : Type}

/-- An exception outside the list, before any call of `inner.ensure`. -/
def Escapes (s₀ : World) (r : Except Exn R) (t : World) : Prop :=
  t.ensured = s₀.ensured ∧ ∃ e, r = .error e ∧ e.fallback = false

/-- Nothing has changed: a value with `P`, or an exception of the list. -/
def Stays (s₀ : World) (P : R → Prop) : Except Exn R → World → Prop
  | .ok x, t => t = s₀ ∧ P x
  | .error e, t => t = s₀ ∧ e.fallback = true

/-- What is not harmless escapes. -/
abbrev Weighed (w : AgentPlatform) (st : MeshModelStore) (sha256 : Str) (s₀ : World)
    (G : Except Exn R → World → Prop) (p : Prog R) (s : World) : Prop :=
  Judged (sem w.toPlatform) (Harmless w st sha256) G (Escapes s₀) p s

variable {s₀ s : World} {f : R → Prog S}

theorem judged_then
    (hok : ∀ r t, G (.ok r) t → Judged (sem w.toPlatform) may G' (Escapes s₀) (f r) t)
    (herr : ∀ e t, G (.error e) t → G' (.error e) t) {p : Prog R}
    (hp : Judged (sem w.toPlatform) may G (Escapes s₀) p s) :
    Judged (sem w.toPlatform) may G' (Escapes s₀) (p >>= f) s := by
  refine .bind hok herr (fun r t hb => ?_) (fun e t hb => ?_) hp
  · obtain ⟨-, _, hbad, -⟩ := hb
    cases hbad
  · obtain ⟨ht, e', he, hnot⟩ := hb
    exact ⟨ht, e', congrArg _ (error.inj he), hnot⟩

theorem ofExcept_bind {α : Type} {g : α → Except Exn R} (x : Except Exn α) :
    (ofExcept x >>= fun a => ofExcept (g a) >>= f) = ofExcept (x >>= g) >>= f := by
  cases x with
  | error e | ok a => rfl

section
variable {G : Except Exn S → World → Prop} {may : Cmd → World → Env → Prop} {c : Cmd}
  {k : Answer c → Prog S} {f : R → Prog S} (ans : Env → Except Exn R)
  (hk : ∀ v, k (sem w.toPlatform c v s).1 = ofExcept (ans v) >>= f)
  (hs : ∀ v, (sem w.toPlatform c v s).2 = s) (hens : s.ensured = s₀.ensured)
  (herr : ∀ e, e.fallback = true → G (.error e) s)
include hk hs hens herr

/-- A question that changes nothing, whose answer is vetted. -/
theorem judged_vet (fit : R → Prop)
    (hmay : ∀ v, may c s v ↔ Answers (ans v) ∧ ∀ x, ans v = .ok x → fit x)
    (hf : ∀ v x, ans v = .ok x → fit x → Judged (sem w.toPlatform) may G (Escapes s₀) (f x) s)
    (hbad : ∀ x, ¬ fit x →
      Safe (sem w.toPlatform) (fun _ _ _ => True) (fun _ _ => True) (Escapes s₀) (f x) s) :
    Judged (sem w.toPlatform) may G (Escapes s₀) (perform c >>= k) s := by
  refine .perform (fun v hv => ?_) fun v hv => ?_
  · rw [hmay] at hv
    rw [hk, hs]
    cases hans : ans v with
    | ok x => exact hf v x hans (hv.2 x hans)
    | error e => exact herr e (hv.1 e hans)
  · rw [hmay, not_and_or, Answers] at hv
    push Not at hv
    rw [hk, hs]
    rcases hv with ⟨e, he, hnot⟩ | ⟨x, hx, hnot⟩
    · rw [he]
      exact ⟨hens, e, rfl, Bool.not_eq_true _ ▸ hnot⟩
    · rw [hx]
      exact hbad x hnot

/-- One whose exceptions decide for themselves. -/
theorem judged_ask (hmay : ∀ v, may c s v ↔ Answers (ans v))
    (hf : ∀ x, Judged (sem w.toPlatform) may G (Escapes s₀) (f x) s) :
    Judged (sem w.toPlatform) may G (Escapes s₀) (perform c >>= k) s :=
  judged_vet ans hk hs hens herr (fun _ => True)
    (fun v => (hmay v).trans (and_iff_left fun _ _ => trivial).symm) (fun _ x _ _ => hf x)
    fun _ h => absurd trivial h

end

theorem judged_discover :
    Weighed w st sha256 s (Stays s fun _ => True) (discover peers) s := by
  induction peers with
  | nil => exact ⟨rfl, trivial⟩
  | cons peer peers ih =>
    refine judged_ask (·.names) (fun _ => rfl) (fun _ => rfl) rfl (fun e he => ⟨rfl, he⟩)
      (fun _ => Iff.rfl) fun names => ?_
    refine judged_then (fun index t ht => ?_) (fun e t ht => ht) ih
    exact ⟨ht.1, trivial⟩

theorem judged_fetchChunks (index : PeerIndex) (s : World) (chunks : List Str)
    (store : ChunkStore w.toPlatform) (hcap : (store.maxBytes : ℤ) = st.storeCapacityBytes) :
    Weighed w st sha256 s (Stays s fun _ => True) (fetchChunks index chunks store) s := by
  induction chunks generalizing store with
  | nil => exact ⟨rfl, trivial⟩
  | cons chunk chunks ih =>
    rw [fetchChunks]
    split
    · exact ⟨rfl, rfl⟩
    refine judged_vet (·.bytes) (fun _ => rfl) (fun _ => rfl) rfl (fun e he => ⟨rfl, he⟩) _
      (fun _ => Iff.rfl) (fun _ data _ hsize => ?_) fun data hbig => ?_
    · split
      · exact ⟨rfl, rfl⟩
      · next hname =>
        have hfits := hsize (not_not.1 hname)
        cases hput : store.put data with
        | error e =>
          have hbig := (ChunkStore.put_error hput).2
          omega
        | ok kept =>
          obtain ⟨hmax, -⟩ := ChunkStore.put_ok hput
          refine judged_then (fun fetched t ht => ?_) (fun e t ht => ht)
            (ih kept.2 (by rw [hmax]; exact hcap))
          exact ⟨ht.1, trivial⟩
    · push Not at hbig
      obtain ⟨hname, hbig⟩ := hbig
      rw [if_neg (not_not.2 hname)]
      cases hput : store.put data with
      | error e =>
        obtain ⟨rfl, -⟩ := ChunkStore.put_error hput
        exact ⟨rfl, .value, rfl, rfl⟩
      | ok kept =>
        have hfits := (ChunkStore.put_ok hput).2
        omega

theorem putAll_maxBytes (datas : List Bytes) (store : ChunkStore w.toPlatform) :
    (putAll datas store).2.maxBytes = store.maxBytes := by
  induction datas generalizing store with
  | nil => rfl
  | cons data datas ih =>
    rw [putAll]
    split
    · next hput => exact (ih _).trans (ChunkStore.put_ok hput).1
    · rfl

/-- How reading a file in pieces ends. -/
theorem pieces_cases (file : Option Bytes) (fails : Option ℕ) (chunkSize : ℤ) :
    if file ≠ none ∧ (w.maxRead : ℤ) < chunkSize then
      pieces w.toPlatform file fails chunkSize = ([], some .overflow)
    else ∀ e, (pieces w.toPlatform file fails chunkSize).2 = some e → e = .os ∨ e = .value := by
  cases file with
  | none =>
    rintro e he
    exact .inl (some.inj he).symm
  | some bs =>
    dsimp only [pieces, getD_some]
    by_cases hneg : chunkSize ≤ 0
    · have hiter : iterFileChunks w.toPlatform bs chunkSize = .error .value := if_pos hneg
      rw [if_neg (fun h => absurd h.2 (by omega)), hiter]
      rintro e he
      exact .inr (some.inj he).symm
    · by_cases hbig : (w.maxRead : ℤ) < chunkSize
      · have hiter : iterFileChunks w.toPlatform bs chunkSize = .error .overflow :=
          (if_neg hneg).trans (if_pos hbig)
        rw [if_pos ⟨nofun, hbig⟩, hiter]
      · have hiter : iterFileChunks w.toPlatform bs chunkSize
            = .ok (batched chunkSize.toNat bs) := (if_neg hneg).trans (if_neg hbig)
        rw [if_neg (fun h => hbig h.2), hiter]
        rintro e he
        cases fails with
        | none => cases he
        | some n => exact .inl (some.inj he).symm

theorem judged_seedFiles (chunkSize : ℤ) (s : World) (ps : List Path)
    (store : ChunkStore w.toPlatform) :
    Weighed w st sha256 s (Stays s fun kept => kept.maxBytes = store.maxBytes)
      (seedFiles chunkSize ps store) s := by
  induction ps generalizing store with
  | nil => exact ⟨rfl, rfl⟩
  | cons p ps ih =>
    -- the file is done with, one way or the other
    have hnext : ∀ datas, Weighed w st sha256 s
        (Stays s fun kept => kept.maxBytes = store.maxBytes)
        (seedFiles chunkSize ps (putAll datas store).2) s := by
      intro datas
      refine .mono (fun r t hr => ?_) (fun _ _ hb => hb) (ih (putAll datas store).2)
      match r, hr with
      | .ok kept, ⟨ht, hmax⟩ => exact ⟨ht, hmax.trans (putAll_maxBytes datas store)⟩
      | .error e, ⟨ht, he⟩ => exact ⟨ht, he⟩
    refine judged_ask (·.found) (fun _ => rfl) (fun _ => rfl) rfl (fun e he => ⟨rfl, he⟩)
      (fun _ => Iff.rfl) fun isFile => ?_
    split
    · exact hnext []
    refine .perform (fun v hv => ?_) fun v hv => ?_
    · have hcases := pieces_cases (w := w) (s.fs p) v.fails chunkSize
      rw [if_neg (by rintro ⟨hp, hbig⟩; exact hv.elim hp (Int.not_le.2 hbig))] at hcases
      simp only [sem]
      generalize pieces w.toPlatform (s.fs p) v.fails chunkSize = read at hcases ⊢
      obtain ⟨datas, failure⟩ := read
      have hrest := hnext datas
      generalize putAll datas store = done at hrest ⊢
      obtain ⟨whole, kept⟩ := done
      cases whole with
      | false =>
        cases failure with
        | none | some e => exact hrest
      | true =>
        cases failure with
        | none => exact hrest
        | some e =>
          dsimp only
          rw [if_pos (hcases e rfl)]
          exact hrest
    · have hcases := pieces_cases (w := w) (s.fs p) v.fails chunkSize
      rw [Harmless, not_or, Int.not_le] at hv
      rw [if_pos hv] at hcases
      simp only [sem, hcases]
      exact ⟨rfl, .overflow, rfl, rfl⟩

theorem judged_seedStoreFromDir {store : ChunkStore w.toPlatform} :
    Weighed w st sha256 s (Stays s fun kept => kept.maxBytes = store.maxBytes)
      (seedStoreFromDir store directory chunkSize) s := by
  refine judged_ask (·.found) (fun _ => rfl) (fun _ => rfl) rfl (fun e he => ⟨rfl, he⟩)
    (fun _ => Iff.rfl) fun isDir => ?_
  split
  · refine judged_ask (·.listing) (fun _ => rfl) (fun _ => rfl) rfl (fun e he => ⟨rfl, he⟩)
      (fun _ => Iff.rfl) fun listing => ?_
    exact judged_seedFiles chunkSize s listing store
  · exact ⟨rfl, rfl⟩

/-- The destination holds bytes of the wanted hash, or an exception of the list was raised. -/
def Meshed (s₀ : World) (dest : Path) (sha256 : Str) : Except Exn Unit → World → Prop
  | .ok (), t => t.ensured = s₀.ensured ∧
      ∃ b, t.fs dest = some b ∧ hexdigest w.toPlatform b = sha256
  | .error e, t => t.ensured = s₀.ensured ∧ e.fallback = true

theorem judged_fetchAndReconstruct
    (hsig : verifyManifest w.toPlatform m signature st.signingKey = .ok true) (peers : List ℕ)
    (store : ChunkStore w.toPlatform) (hcap : (store.maxBytes : ℤ) = st.storeCapacityBytes)
    (dest : Path) (s : World) :
    Weighed w st sha256 s (Meshed (w := w) s dest m.wholeFileSha256)
      (fetchAndReconstruct m signature st.signingKey peers store dest) s := by
  have herr : ∀ {R : Type} {P : R → Prop} (e : Exn) (t : World), Stays s P (.error e) t →
      Meshed (w := w) s dest m.wholeFileSha256 (.error e) t := by
    rintro R P e t ⟨rfl, he⟩
    exact ⟨rfl, he⟩
  refine judged_then (fun index t ht => ?_) herr judged_discover
  obtain ⟨rfl, -⟩ := ht
  refine judged_then (fun found t' ht' => ?_) herr
    (judged_fetchChunks index t (missingChunks m store) store hcap)
  obtain ⟨rfl, -⟩ := ht'
  obtain ⟨fetched, kept⟩ := found
  dsimp only
  rw [verifiedReconstruct, hsig]
  refine .mono (fun r u hr => ?_) (fun r u hr => ?_)
    (judged_reconstructAtomic (w := w.toPlatform) (fun _ _ _ => Iff.rfl) m kept dest t')
  · cases r with
    | ok =>
      obtain ⟨hu, datas, hfs, hhash⟩ := hr
      exact ⟨hu, datas.flatten, hfs, hhash⟩
    | error e =>
      obtain ⟨hu, ⟨h, _, _, he⟩ | ⟨_, _, he, _⟩⟩ := hr
      · exact ⟨hu.1, by rw [he]; rfl⟩
      · exact ⟨hu.1, by rw [he]; rfl⟩
  · exact ⟨hr.1.1, .os, hr.2, rfl⟩

/-- The marker is another file. -/
theorem judged_writeMarkerAtomic (m : ModelManifest)
    (hens : s.ensured = s₀.ensured) (hfs : s.fs dest = some b)
    (hhash : hexdigest w.toPlatform b = sha256) (hm : marker ≠ dest) (htmp : marker ++ ".tmp" ≠ dest) :
    Weighed w st sha256 s₀ (Meshed (w := w) s₀ dest sha256)
      (writeMarkerAtomic marker m.sha256) s := by
  have hbad : ∀ (fs : Fs) (r : Except Exn Unit), r = .error .os →
      Escapes s₀ r { s with fs := fs } := fun _ _ hr => ⟨hens, .os, hr, rfl⟩
  refine judged_orRaise (fun _ _ _ => Iff.rfl)
    (update s.fs (marker ++ ".tmp") (some [])) rfl ?_ fun v _ => hbad _ _ rfl
  refine judged_orRaise (fun _ _ _ => Iff.rfl)
    (update s.fs (marker ++ ".tmp") (some (encodeAscii m.sha256))) ?_ ?_
    fun v _ => hbad _ _ rfl
  · change (true, update (update s.fs (marker ++ ".tmp") (some [])) _
      (some ((update s.fs (marker ++ ".tmp") (some []) _).getD [] ++ _))) = _
    rw [update_self, update_idem]
    rfl
  refine judged_orRaise (fun _ _ _ => Iff.rfl)
    (update s.fs (marker ++ ".tmp") (some (encodeAscii m.sha256))) rfl ?_
    fun v _ => hbad _ _ rfl
  have hrun : (Op.rename (marker ++ ".tmp") marker).run ⟨none, fun _ _ => .refused⟩
      (update s.fs (marker ++ ".tmp") (some (encodeAscii m.sha256)))
      = (true, update (update s.fs (marker ++ ".tmp") none) marker
        (some (encodeAscii m.sha256))) := by
    rw [Op.run, update_self, update_idem]
  have hlast : Weighed w st sha256 s₀ (Meshed (w := w) s₀ dest sha256)
      (orRaise (Op.rename (marker ++ ".tmp") marker) >>= pure)
      { s with fs := update s.fs (marker ++ ".tmp") (some (encodeAscii m.sha256)) } := by
    refine judged_orRaise (fun _ _ _ => Iff.rfl) _ hrun ⟨hens, b, ?_, hhash⟩ fun v _ => hbad _ _ rfl
    change update (update s.fs (marker ++ ".tmp") none) marker _ dest = some b
    rw [update_of_ne hm.symm, update_of_ne htmp.symm, hfs]
  rwa [show orRaise (Op.rename (marker ++ ".tmp") marker) >>= pure = _ from bind_ret _] at hlast

variable {m : ModelManifest}

/-- From the accepted manifest to the marker. -/
theorem judged_accepted {mesh : Manifest}
    (hsig : verifyManifest w.toPlatform mesh signature st.signingKey = .ok true)
    (hwhole : mesh.wholeFileSha256 = text m.sha256) (store : ChunkStore w.toPlatform)
    (hcap : (store.maxBytes : ℤ) = st.storeCapacityBytes) (s : World) :
    Weighed w st (text m.sha256) s
      (Meshed (w := w) s (blobPath st.cacheDir m) (text m.sha256)) (do
        let store ← seedStoreFromDir store (modelDir st.cacheDir m) mesh.chunkSize
        let peers ← ofExcept (← perform .peers)
        fetchAndReconstruct mesh signature st.signingKey peers store (blobPath st.cacheDir m)
        writeMarkerAtomic (markerPath st.cacheDir m) m.sha256) s := by
  refine judged_then (fun kept t ht => ?_) (fun e t ht => ?_) judged_seedStoreFromDir
  · obtain ⟨rfl, hmax⟩ := ht
    refine judged_ask (·.peers) (fun _ => rfl) (fun _ => rfl) rfl (fun e he => ⟨rfl, he⟩)
      (fun _ => Iff.rfl) fun peers => ?_
    have hrebuilt : Weighed w st (text m.sha256) t _ _ t :=
      judged_fetchAndReconstruct hsig peers kept (by rw [hmax]; exact hcap) (blobPath st.cacheDir m) t
    rw [hwhole] at hrebuilt
    refine judged_then (fun _ t' ht' => ?_) (fun e t' ht' => ht') hrebuilt
    obtain ⟨hens, b, hfs, hhash⟩ := ht'
    refine judged_writeMarkerAtomic m hens hfs hhash (append_ne_self (by decide)) ?_
    rw [markerPath, String.append_assoc]
    exact append_ne_self (by decide)
  · obtain ⟨rfl, he⟩ := ht
    exact ⟨rfl, he⟩

theorem new_cases (maxBytes : ℤ) :
    if 0 < maxBytes then ∃ store, ChunkStore.new w.toPlatform maxBytes = .ok store ∧
      (store.maxBytes : ℤ) = maxBytes
    else ChunkStore.new w.toPlatform maxBytes = .error .value := by
  rw [ChunkStore.new]
  split
  · next hpos =>
    rw [dif_neg (Int.not_le.2 hpos)]
    exact ⟨_, rfl, Int.toNat_of_nonneg hpos.le⟩
  · next hpos => rw [dif_pos (Int.not_lt.1 hpos)]

theorem judged_fetchOverMesh (s : World) : Weighed w st (text m.sha256) s
      (Meshed (w := w) s (blobPath st.cacheDir m) (text m.sha256))
      (fetchOverMesh w st m (blobPath st.cacheDir m)) s := by
  refine judged_orRaise (fun _ _ _ => Iff.rfl) s.fs rfl ?_ fun v _ => ⟨rfl, .os, rfl, rfl⟩
  refine judged_ask (·.session) (fun _ => rfl) (fun _ => rfl) rfl (fun e he => ⟨rfl, he⟩)
    (fun _ => Iff.rfl) fun _ => ?_
  -- what follows a reply, and an accepted one
  refine judged_vet (fun v => v.reply >>= meshManifest w st (text m.sha256))
    (fun v => ofExcept_bind v.reply) (fun _ => rfl) rfl (fun e he => ⟨rfl, he⟩)
    (fun _ => 0 < st.storeCapacityBytes) (fun v => ?_) (fun v found hans hpos => ?_)
    fun found hpos => ?_
  · change HarmlessReply st (text m.sha256) v.reply ↔ Fine st _
    cases v.reply with
    | error e => exact fine_error.symm
    | ok reply => exact harmlessReply_iff reply
  · obtain ⟨mesh, signature⟩ := found
    obtain ⟨reply, -, hmesh⟩ := bind_ok hans
    obtain ⟨hsig, hwhole⟩ := meshManifest_ok hmesh
    have hnew := new_cases (w := w) st.storeCapacityBytes
    rw [if_pos hpos] at hnew
    obtain ⟨store, hstore, hcap⟩ := hnew
    rw [hstore]
    exact judged_accepted hsig hwhole store hcap s
  · have hnew := new_cases (w := w) st.storeCapacityBytes
    rw [if_neg hpos] at hnew
    rw [hnew]
    exact ⟨rfl, .value, rfl, rfl⟩

/-! ### The whole call -/

/-- The promise: a path that was vouched for or whose bytes have the manifest's hash, and no call of
    `inner.ensure`; or one call, and its result. -/
def Honoured (w : AgentPlatform) (s₀ : World) (dest : Path) (sha256 : Str) (r : Except Exn Path)
    (t : World) : Prop :=
  (∃ p, r = .ok p ∧ t.ensured = s₀.ensured ∧ (p ∈ t.vouched ∨
    p = dest ∧ ∃ b, t.fs dest = some b ∧ hexdigest w.toPlatform b = sha256)) ∨
  ∃ a, t.ensured = s₀.ensured ++ [a] ∧ r = a

/-- An exception of the call's own. -/
def Raises (s₀ : World) (r : Except Exn Path) (t : World) : Prop :=
  t.ensured = s₀.ensured ∧ ∃ e, r = .error e

theorem Raises.not_honoured (h : Raises s₀ r t) : ¬ Honoured w s₀ dest sha256 r t := by
  obtain ⟨hens, e, rfl⟩ := h
  rintro (⟨p, hp, -⟩ | ⟨a, ha, -⟩)
  · cases hp
  · rw [hens] at ha
    have hlen := congrArg length ha
    rw [length_append, length_singleton] at hlen
    omega

theorem judged_mesh : Judged (sem w.toPlatform) (Harmless w st (text m.sha256))
      (Honoured w s (blobPath st.cacheDir m) (text m.sha256)) (Raises s) (do
        match ← (fetchOverMesh w st m (blobPath st.cacheDir m)).attempt with
        | .ok () => pure (blobPath st.cacheDir m)
        | .error e =>
          if e.fallback then ofExcept (← perform Cmd.innerEnsure) else .raise e) s := by
  refine .attempt (fun r t hr => ?_) (fun r t hr => ?_) (judged_fetchOverMesh s)
  · match r, hr with
    | .ok (), ⟨hens, b, hfs, hhash⟩ => exact .inl ⟨_, rfl, hens, .inr ⟨rfl, b, hfs, hhash⟩⟩
    | .error e, ⟨hens, he⟩ =>
      dsimp only
      rw [if_pos he]
      refine .perform (fun v _ => ?_) fun v hv => absurd trivial hv
      simp only [sem]
      cases hpath : v.path with
      | ok p | error e' => exact .inr ⟨_, by rw [hens], rfl⟩
  · obtain ⟨hens, e, rfl, he⟩ := hr
    dsimp only
    rw [if_neg (by rw [he]; exact Bool.false_ne_true)]
    exact ⟨hens, e, rfl⟩

/-- A look at what is there, then the rest. -/
theorem judged_present {f : Prog Path}
    (hf : Judged (sem w.toPlatform) (Harmless w st (text m.sha256))
      (Honoured w s (blobPath st.cacheDir m) (text m.sha256)) (Raises s) f s) :
    Judged (sem w.toPlatform) (Harmless w st (text m.sha256))
      (Honoured w s (blobPath st.cacheDir m) (text m.sha256)) (Raises s) (do
        match ← ofExcept (← perform Cmd.present) with
        | some present => pure present
        | none => f) s := by
  refine .perform (fun v hv => ?_) fun v hv => ?_
  · simp only [sem]
    cases hp : v.present with
    | error e => exact absurd hp (hv e)
    | ok found =>
      cases found with
      | none => exact hf
      | some p => exact .inl ⟨p, rfl, rfl, .inl (mem_append_right _ mem_cons_self)⟩
  · change ¬ ∀ e, v.present ≠ .error e at hv
    push Not at hv
    obtain ⟨e, he⟩ := hv
    simp only [sem, he]
    exact ⟨rfl, e, rfl⟩

end

/-- The promise is kept in exactly the runs whose answers are all harmless. -/
theorem ensure_falls_back_iff (w : AgentPlatform) (st : MeshModelStore) (m : ModelManifest) (fs : Fs)
    (v : Env) (vs : List Env) : let r := (ensure w st m).play (sem w.toPlatform) v ⟨fs, [], []⟩ vs
    Honoured w ⟨fs, [], []⟩ (blobPath st.cacheDir m) (text m.sha256) r.1 r.2 ↔
      (ensure w st m).Meets (sem w.toPlatform) (Harmless w st (text m.sha256)) v ⟨fs, [], []⟩ vs := by
  have hjudged : Judged (sem w.toPlatform) (Harmless w st (text m.sha256)) _ _ (ensure w st m)
      ⟨fs, [], []⟩ := judged_present (judged_present judged_mesh)
  obtain ⟨hmeets, hnot⟩ := hjudged.play vs
  exact ⟨fun h => by_contra fun hm => (hnot hm).not_honoured h, hmeets⟩

/-! ### Runs -/

def plainAgent : AgentPlatform where
  toPlatform := plainPlatform
  str
    | .str s => s
    | _ => []
  intText _ := none
  intFloat _ := .infinite

def oneByte : ModelManifest := .ofBlob "m" "m.gguf" [1] (by decide)

def smallMesh : MeshModelStore := ⟨[7], "cache", 16⟩

/-- The coordinator cannot be reached, and the blob is downloaded. -/
theorem ensure_falls_back_iff_unreachable :
    let vs : List Env := [{}, {}, {}, {}, { reply := .error .http }, { path := .ok "cache/m/m.gguf" }]
    (ensure plainAgent smallMesh oneByte).Meets (sem plainPlatform)
      (Harmless plainAgent smallMesh (text oneByte.sha256)) {} ⟨fun _ => none, [], []⟩ vs ∧
    let r := (ensure plainAgent smallMesh oneByte).play (sem plainPlatform) {}
      ⟨fun _ => none, [], []⟩ vs
    Honoured plainAgent ⟨fun _ => none, [], []⟩ (blobPath "cache" oneByte) (text oneByte.sha256)
      r.1 r.2 := by
  have hmeets : (ensure plainAgent smallMesh oneByte).Meets (sem plainPlatform)
      (Harmless plainAgent smallMesh (text oneByte.sha256)) {} ⟨fun _ => none, [], []⟩
      [{}, {}, {}, {}, { reply := .error .http }, { path := .ok "cache/m/m.gguf" }] :=
    ⟨nofun, nofun, rfl, nofun, rfl, trivial, trivial⟩
  exact ⟨hmeets, (ensure_falls_back_iff plainAgent smallMesh oneByte _ _ _).2 hmeets⟩

/-- A signed manifest whose signature is the letter é. -/
def accentedReply : Bytes := utf8
  ("\x7b\"manifest\":\x7b\"model_id\":\"m\",\"total_size\":1,\"chunk_size\":1,"
    ++ "\"whole_file_sha256\":\"01\",\"chunks\":[],\"merkle_root\":\"\"\x7d,"
    ++ "\"signature\":\"\\u00e9\"\x7d").toList

/-- `hmac.compare_digest` refuses it with a `TypeError`, which no one catches. -/
theorem ensure_raises_on_accented_signature :
    let r := (ensure plainAgent smallMesh oneByte).play (sem plainPlatform) {}
      ⟨fun _ => none, [], []⟩ [{}, {}, {}, {}, { reply := .ok (200, accentedReply) }]
    r.1 = .error .type ∧ r.2.ensured = [] := by
  decide +kernel

end Fallow.Mesh

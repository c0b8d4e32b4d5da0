import Fallow.Mesh.Transfer

/-! `import_bundle` on a directory of any bytes, as it may come from an untrusted medium.

        manifest.json ─▶ parse ─▶ signature.txt ─▶ compare ─▶ chunk ─▶ chunk ─▶ ⋯ ─▶ manifest
                           │            │             │          │
                           ▼            ▼             ▼          ▼
                     Verification   (decoding)     (ASCII)   Verification, ChunkNotFound, (size)

    Two errors are promised. What stands in brackets raises others, as the JSON decoder does before
    the parse can translate it. `Clean` says of a directory, a key and a store that none of these is
    met first; the promise is kept for exactly those. A bad signature never touches the store. -/

namespace Fallow.Mesh
open Lib Lib.PyJson Lib.PyStr Lib.Crash List Prog

/-- A bundle directory. -/
structure Bundle where
  manifest : Bytes
  signature : Bytes
  chunk : Str → Option Bytes
  /-- names the file system will not look up: an `OSError` of `is_file` -/
  refuses : Str → Bool := fun _ => false

variable {w : Platform}

/-- The chunks still to read: how it ends, and the store then. -/
def Bundle.importChunks (b : Bundle) :
    List Str → ChunkStore w → Except Exn Unit × ChunkStore w
  | [], store => (.ok (), store)
  | h :: hs, store => match b.refuses h, b.chunk h with
    | true, _ => (.error .os, store)
    | false, none => (.error (.chunkNotFound h), store)
    | false, some data =>
      if chunkHash w data ≠ h then
        (.error (.verificationError
          (text "bundle chunk " ++ h ++ text " does not match its hash")), store)
      else match store.put data with
        | .error e => (.error e, store)
        | .ok (_, store) => b.importChunks hs store

/-- The import as a function of the directory: how it ends, and the store then. -/
def Bundle.importBundle (b : Bundle) (key : Bytes) (store : ChunkStore w) :
    Except Exn Manifest × ChunkStore w :=
  match parseManifest w b.manifest, w.readText b.signature with
  | .error e, _ => (.error e, store)
  | .ok _, none => (.error .value, store)
  | .ok m, some signature => match verifyManifest w m (strip signature) key with
    | .error e => (.error e, store)
    | .ok false => (.error (.verificationError
        (text "bundle manifest signature does not verify")), store)
    | .ok true =>
      let (r, store) := b.importChunks (missingChunks m store) store
      (r.map fun _ => m, store)

/-! ### The program reads the directory -/

/-- How the directory answers. -/
def Bundle.env (b : Bundle) : Cmd → Env
  | .isMedia (.chunk h) =>
    { found := if b.refuses h then .error .os else .ok (b.chunk h).isSome }
  | .readMedia (.chunk h) => { bytes := (b.chunk h).elim (.error .os) .ok }
  | .readMedia .manifest => { bytes := .ok b.manifest }
  | .readMedia .signature => { bytes := .ok b.signature }
  | _ => {}

def Bundle.sem (w : Platform) (c : Cmd) (b : Bundle) (s : World) : Answer c × World :=
  Mesh.sem w c (b.env c) s

variable {b : Bundle} {key : Bytes} {s : World}

theorem exec_importChunks (hs : List Str) (store : ChunkStore w) :
    (importChunks hs store).exec (Bundle.sem w) b s
      = ((b.importChunks hs store).1.map fun _ => (b.importChunks hs store).2, s) := by
  induction hs generalizing store with
  | nil => rfl
  | cons h hs ih =>
    rw [importChunks, exec_perform, Bundle.importChunks]
    simp only [Bundle.sem, Mesh.sem, Bundle.env]
    cases b.refuses h with
    | true => rfl
    | false =>
      cases hc : b.chunk h with
      | none => rfl
      | some data =>
        change (perform (Cmd.readMedia (.chunk h)) >>= _).exec _ _ _ = _
        rw [exec_perform]
        simp only [Bundle.sem, Mesh.sem, Bundle.env, hc]
        change (ite _ _ _ : Prog _).exec _ _ _ = _
        split
        · rfl
        · cases store.put data with
          | error e => rfl
          | ok kept => exact ih kept.2

/-- REFINES: the program, answered by a directory, is that function of it. -/
theorem exec_importBundle (store : ChunkStore w) :
    (importBundle key store).exec (Bundle.sem w) b s = ((b.importBundle key store).1.map
      fun m => (m, (b.importBundle key store).2), s) := by
  rw [importBundle, exec_perform, Bundle.importBundle]
  change (ofExcept (parseManifest w b.manifest) >>= _ : Prog _).exec _ _ _ = _
  cases parseManifest w b.manifest with
  | error e => rfl
  | ok m =>
    have hread (f : Bytes → Prog (Manifest × ChunkStore w)) :
        ofExcept (.ok b.signature) >>= f = f b.signature := rfl
    change (perform (Cmd.readMedia .signature) >>= _ : Prog _).exec _ _ _ = _
    rw [exec_perform]
    simp only [Bundle.sem, Mesh.sem, Bundle.env, hread]
    cases w.readText b.signature with
    | none => rfl
    | some signature =>
      dsimp only
      cases verifyManifest w m (strip signature) key with
      | error e => rfl
      | ok valid => cases valid with
        | false => rfl
        | true =>
          change (importChunks (missingChunks m store) store >>= _ : Prog _).exec _ _ _ = _
          rw [exec_bind, exec_importChunks]
          cases (b.importChunks (missingChunks m store) store).1 with
          | error e | ok _ => rfl

/-! ### What it raises -/

/-- The errors of the docstring. -/
def Exn.declared : Exn → Bool
  | .verificationError _ | .chunkNotFound _ => true
  | _ => false

def Declared {R : Type} (r : Except Exn R) : Prop := ∀ e, r = .error e → e.declared = true

/-- Bytes that decode to JSON no deeper than Python goes, or are refused by a `JSONDecodeError`. -/
def Decodes (w : Platform) (data : Bytes) : Prop :=
  ∃ cs, w.jsonText data = some cs ∧ match (loads cs : Option (Value w.F)) with
    | none => w.decodeError cs = true
    | some v => height v ≤ w.maxDepth

/-- A chunk file that is taken: found, under its own hash and small enough. -/
def Bundle.takes (w : Platform) (b : Bundle) (maxBytes : ℕ) (h : Str) : Bool :=
  !b.refuses h && (b.chunk h).any fun data => chunkHash w data = h ∧ data.length ≤ maxBytes

/-- One that is looked up, and is absent or has another hash. -/
def Bundle.Lacks (w : Platform) (b : Bundle) (h : Str) : Prop :=
  b.refuses h = false ∧ ∀ data, b.chunk h = some data → chunkHash w data ≠ h

def Bundle.Verified (w : Platform) (b : Bundle) (key : Bytes) (m : Manifest) : Prop :=
  ∃ signature, w.readText b.signature = some signature ∧
    verifyManifest w m (strip signature) key = .ok true

/-- No other exception comes first: the manifest decodes; with a manifest, the signature decodes to
    ASCII; and with one that verifies, the first chunk that is not taken is lacking. -/
@[mk_iff]
structure Bundle.Clean (b : Bundle) (key : Bytes) (store : ChunkStore w) : Prop where
  manifest : Decodes w b.manifest
  signature : ∀ m, parseManifest w b.manifest = .ok m → ∃ signature,
    w.readText b.signature = some signature ∧ (strip signature).all (· < 128) = true
  chunks : ∀ m, parseManifest w b.manifest = .ok m → b.Verified w key m →
    ∀ h, (missingChunks m store).find? (!b.takes w store.maxBytes ·) = some h → b.Lacks w h

section
variable {R S : Type}

@[simp] theorem declared_ok : Declared (.ok r : Except Exn R) := nofun

@[simp] theorem declared_error : Declared (.error e : Except Exn R) ↔ e.declared = true :=
  ⟨fun h => h e rfl, fun h _ he => Except.error.inj he ▸ h⟩

theorem declared_bind (hx : Declared x) (hf : ∀ r, Declared (f r)) : Declared (x >>= f) := by
  cases x with
  | error e => exact declared_error.2 (hx e rfl)
  | ok r => exact hf r

end

theorem declared_strField : Declared (strField w k ms) := by
  unfold strField
  split <;> simp [Exn.declared]

theorem declared_intField : Declared (intField w k ms) := by
  unfold intField
  split <;> simp [Exn.declared]

variable {data : Bytes}

theorem declared_loadsBytes (refused : Exn) (hr : refused.declared = true) :
    Declared (loadsBytes w refused data) ↔ Decodes w data := by
  rw [loadsBytes, Decodes]
  cases w.jsonText data with
  | none => simp [Exn.declared]
  | some cs =>
    cases hv : (loads cs : Option (Value w.F)) with
    | none =>
      cases hd : w.decodeError cs with
      | true => simp [hv, hd, hr]
      | false => simp [hv, hd, Exn.declared]
    | some v =>
      by_cases hdeep : w.maxDepth < height v
      · simp [hv, hdeep, Exn.declared]
      · simp [hv, hdeep, Nat.not_lt.1 hdeep]

/-- The decoder's exceptions are the only others of the parse. -/
theorem declared_parseManifest : Declared (parseManifest w data) ↔ Decodes w data := by
  rw [← declared_loadsBytes (.verificationError (text "manifest is not valid JSON")) rfl]
  refine ⟨fun h e he => h e ?_, fun h => declared_bind h fun v => ?_⟩
  · rw [parseManifest, he]
    rfl
  · split
    · refine declared_bind declared_strField fun _ => declared_bind declared_strField fun _ => ?_
      refine declared_bind declared_strField fun _ => declared_bind declared_intField fun _ => ?_
      refine declared_bind declared_intField fun _ => ?_
      split
      · split <;> simp [Exn.declared, pure, Except.pure]
      · simp [Exn.declared]
    · simp [Exn.declared]

/-- The first chunk that is not taken decides. -/
theorem declared_importChunks (hs : List Str) (store : ChunkStore w) :
    Declared (b.importChunks hs store).1 ↔
      ∀ h, hs.find? (!b.takes w store.maxBytes ·) = some h → b.Lacks w h := by
  induction hs generalizing store with
  | nil => simp [Bundle.importChunks]
  | cons h hs ih =>
    rw [Bundle.importChunks, find?_cons, Bundle.takes]
    cases hr : b.refuses h with
    | true => simp [Bundle.Lacks, hr, Exn.declared]
    | false =>
      cases hc : b.chunk h with
      | none => simp [Bundle.Lacks, hr, hc, Exn.declared]
      | some data =>
        by_cases hname : chunkHash w data = h
        · cases hput : store.put data with
          | error e =>
            obtain ⟨rfl, hbig⟩ := ChunkStore.put_error hput
            simp [Bundle.Lacks, hr, hc, hname, Nat.not_le.2 hbig, hput, Exn.declared]
          | ok kept =>
            obtain ⟨hmax, hfits⟩ := ChunkStore.put_ok hput
            simpa [hname, hput, hfits, hmax] using ih kept.2
        · simp [Bundle.Lacks, hr, hc, hname, Exn.declared]

/-- For every directory, key and store: the import returns a manifest that verifies or raises one of
    the two errors, and keeps the store where the signature does not verify, exactly if the
    directory is clean. -/
theorem import_fails_cleanly_iff (w : Platform) (b : Bundle) (key : Bytes) (store : ChunkStore w) :
    ((∀ m, (b.importBundle key store).1 = .ok m → b.Verified w key m) ∧
      (∀ e, (b.importBundle key store).1 = .error e → e.declared = true) ∧
      ((∀ m, parseManifest w b.manifest = .ok m → ¬ b.Verified w key m) →
        (b.importBundle key store).2 = store)) ↔ b.Clean key store := by
  rw [Bundle.clean_iff, ← declared_parseManifest, Bundle.importBundle]
  cases hm : parseManifest w b.manifest with
  | error e => simp
  | ok m =>
    cases hs : w.readText b.signature with
    | none => simp [Exn.declared]
    | some signature =>
      by_cases hascii : (strip signature).all (· < 128) = true
      · have hv : verifyManifest w m (strip signature) key = .ok _ := if_pos hascii
        cases hsig : decide (signManifest w m key = strip signature) with
        | false => simp [-all_eq_true, Bundle.Verified, hs, hv, hsig, hascii, Exn.declared]
        | true =>
          have hchunks := declared_importChunks (b := b) (missingChunks m store) store
          cases hr : (b.importChunks (missingChunks m store) store).1 with
          | error e | ok _ => simp_all [-all_eq_true, Bundle.Verified, Except.map]
      · have hv : verifyManifest w m (strip signature) key = .error .type := if_neg hascii
        simp [-all_eq_true, hv, hascii, Exn.declared]

def fromUtf8 (b : Bytes) : Option (List Char) := (String.fromUTF8? ⟨b.toArray⟩).map String.toList

/-- The small platform, with UTF-8 for both decoders. -/
def utf8Platform : Platform :=
  { plainPlatform with
    readText := fun b => (fromUtf8 b).map codes
    jsonText := fromUtf8 }

/-- A bundle whose `signature.txt` is an `é`. -/
def accented : Bundle where
  manifest := threeBytes.canonicalBytes utf8Platform
  signature := [0xC3, 0xA9]
  chunk _ := none

/-- `hmac.compare_digest` takes no text but ASCII. -/
theorem accented_signature_raises_type : utf8Platform.readText accented.signature = some [0xE9] ∧
    (accented.importBundle (w := utf8Platform) [7]
      ⟨1, Nat.one_pos, 0, [], nodup_nil, nofun, rfl, Nat.zero_le _⟩).1 = .error .type ∧
    Exn.type.declared = false := by
  decide +kernel

end Fallow.Mesh

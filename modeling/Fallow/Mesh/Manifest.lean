import Fallow.Lib.PyStr
import Fallow.Lib.Sha256

/-! Manifests of the model mesh: `chunk.py`, `merkle.py`, `manifest.py`, `signing.py` and the parser
    of `bundle.py`.

    A file is cut into chunks that go by the hash of their bytes; its manifest lists them in order
    and is signed as a text.

        file ──▶ chunks ──▶ names ──▶ manifest ──▶ canonical bytes ──▶ signature
             read       sha256    merkle root   sorted JSON       HMAC

    The hash is a parameter, so that "collision-free" can be assumed of it. The main result is that
    the signature binds what a reconstruction reads: manifests with the same canonical bytes have the
    same chunks, sizes and whole-file hash. -/

namespace Fallow.Mesh
open Lib Lib.PyJson Lib.PyStr List Sha256
open Lib.Json (renderInt Stops)

/-- What is raised, by its class. -/
inductive Exn where
  | meshError
  | verificationError (text : Str)
  | chunkNotFound (chunk : Str)
  /-- `httpx.HTTPError` -/
  | http
  | os
  | key
  | value
  | type
  | overflow
  | recursion
  | other
  deriving DecidableEq, Repr

/-- What the code takes from Python. -/
structure Platform where
  F : Type
  float : PyFloat F
  /-- `hashlib.sha256(data).digest()` -/
  sha256 : Bytes → Bytes
  /-- `Path.read_text(encoding="utf-8")`; `none` is a `UnicodeDecodeError` -/
  readText : Bytes → Option Str
  /-- the text `json.loads` finds in bytes; `none` is a `UnicodeDecodeError` -/
  jsonText : Bytes → Option (List Char)
  /-- `json.loads` refuses a text with a `JSONDecodeError`, not with another `ValueError` -/
  decodeError : List Char → Bool
  /-- deeper values are a `RecursionError` -/
  maxDepth : ℕ
  /-- reading more bytes at once is an `OverflowError` or a `MemoryError` -/
  maxRead : ℕ

attribute [instance] Platform.float

def text (s : String) : Str := codes s.toList

variable (w : Platform) {b : Bytes}

/-! ### Chunks -/

/-- `bytes.hex()` -/
def hex (b : Bytes) : Str := codes (b.flatMap hexOf)

def hexdigest (data : Bytes) : Str := hex (w.sha256 data)

def chunkHash (data : Bytes) : Str := hexdigest w data

def iterFileChunks (file : Bytes) (chunkSize : ℤ) : Except Exn (List Bytes) :=
  if chunkSize ≤ 0 then .error .value
  else if (w.maxRead : ℤ) < chunkSize then .error .overflow
  else .ok (batched chunkSize.toNat file)

/-! ### The Merkle root -/

def hexValue (c : ℕ) : Option ℕ :=
  if 48 ≤ c ∧ c ≤ 57 then some (c - 48)
  else if 97 ≤ c ∧ c ≤ 102 then some (c - 87)
  else if 65 ≤ c ∧ c ≤ 70 then some (c - 55)
  else none

def isAsciiSpace (c : ℕ) : Bool := 9 ≤ c ∧ c ≤ 13 ∨ c = 32

/-- `bytes.fromhex`: blanks between the bytes are skipped. -/
def fromHex : Str → Option Bytes
  | [] => some []
  | [c] => if isAsciiSpace c then some [] else none
  | c :: d :: rest =>
    if isAsciiSpace c then fromHex (d :: rest)
    else match hexValue c, hexValue d with
      | some hi, some lo => (fromHex rest).map (UInt8.ofNat (16 * hi + lo) :: ·)
      | _, _ => none

def leaf (h : Str) : Except Exn Bytes := match fromHex h with
  | none => .error .value
  | some b => .ok (w.sha256 (0 :: b))

def node (left right : Bytes) : Bytes := w.sha256 (1 :: (left ++ right))

/-- One level up; an odd node is promoted unchanged. -/
def nextLevel : List Bytes → List Bytes
  | left :: right :: rest => node w left right :: nextLevel rest
  | level => level

/-- `while len(level) > 1`. -/
def climb : (fuel : ℕ) → List Bytes → List Bytes
  | 0, level => level
  | fuel + 1, level => if 1 < level.length then climb fuel (nextLevel w level) else level

def merkleRoot (chunkHashes : List Str) : Except Exn Str :=
  if chunkHashes = [] then .ok (hexdigest w [0])
  else do
    let level ← chunkHashes.mapM (leaf w)
    pure (hex ((climb w level.length level).headD []))

/-! ### Manifests -/

structure Manifest where
  modelId : Str
  totalSize : ℤ
  chunkSize : ℤ
  wholeFileSha256 : Str
  chunks : List Str
  merkleRoot : Str
  deriving DecidableEq, Repr

/-- The payload, its keys sorted. -/
def Manifest.payload (m : Manifest) : Value w.F :=
  .obj [(text "chunk_size", .int m.chunkSize),
    (text "chunks", .arr (m.chunks.map .str)),
    (text "merkle_root", .str m.merkleRoot),
    (text "model_id", .str m.modelId),
    (text "total_size", .int m.totalSize),
    (text "whole_file_sha256", .str m.wholeFileSha256)]

def Manifest.canonicalBytes (m : Manifest) : Bytes := utf8 (render false (m.payload w))

def buildManifest (file : Bytes) (modelId : Str) (chunkSize : ℤ) : Except Exn Manifest := do
  let datas ← iterFileChunks w file chunkSize
  let ordered := datas.map (chunkHash w)
  let root ← merkleRoot w ordered
  pure {
    modelId := modelId
    totalSize := (datas.map length).sum
    chunkSize := chunkSize
    wholeFileSha256 := hexdigest w datas.flatten
    chunks := ordered
    merkleRoot := root }

/-! ### Signatures -/

/-- A key as one block of the hash. -/
def keyBlock (key : Bytes) : Bytes :=
  let key := if 64 < key.length then w.sha256 key else key
  key ++ replicate (64 - key.length) 0

/-- `hmac.new(key, message, "sha256").digest()` -/
def hmac (key message : Bytes) : Bytes :=
  let block := keyBlock w key
  w.sha256 (block.map (· ^^^ 0x5c) ++ w.sha256 (block.map (· ^^^ 0x36) ++ message))

def signManifest (m : Manifest) (key : Bytes) : Str := hex (hmac w key (m.canonicalBytes w))

/-- `hmac.compare_digest` takes texts of ASCII characters only. -/
def verifyManifest (m : Manifest) (signature : Str) (key : Bytes) : Except Exn Bool :=
  if signature.all (· < 128) then .ok (signManifest w m key = signature) else .error .type

/-- A signature that is none, or one of those made: what it verifies was signed. -/
def NoForgery (key : Bytes) (signed : List Bytes) (signature : Str) : Prop :=
  ∀ m, verifyManifest w m signature key = .ok true → m.canonicalBytes w ∈ signed

/-! ### Reading a manifest -/

/-- `json.loads` of bytes, with `refused` in place of a `JSONDecodeError`. -/
def loadsBytes (refused : Exn) (data : Bytes) : Except Exn (Value w.F) :=
  match w.jsonText data with
  | none => .error .value
  | some cs => match loads cs with
    | none => if w.decodeError cs then .error refused else .error .value
    | some v => if w.maxDepth < height v then .error .recursion else .ok v

/-- `payload.get(key)`; the last pair of a key counts. -/
def get {F : Type} (key : String) (ms : List (Str × Value F)) : Option (Value F) :=
  ms.reverse.lookup (text key)

def strField (key : String) (ms : List (Str × Value w.F)) : Except Exn Str :=
  match get key ms with
  | some (.str s) => .ok s
  | _ => .error (.verificationError
      (text "manifest field '" ++ text key ++ text "' is missing or not a string"))

def intField (key : String) (ms : List (Str × Value w.F)) : Except Exn ℤ :=
  match get key ms with
  | some (.int n) => .ok n
  | _ => .error (.verificationError
      (text "manifest field '" ++ text key ++ text "' is missing or not an integer"))

/-- The strings of an array of strings. -/
def strs {F : Type} : List (Value F) → Option (List Str)
  | [] => some []
  | .str s :: vs => (strs vs).map (s :: ·)
  | _ :: _ => none

def parseManifest (data : Bytes) : Except Exn Manifest := do
  match ← loadsBytes w (.verificationError (text "manifest is not valid JSON")) data with
  | .obj ms =>
    let modelId ← strField w "model_id" ms
    let wholeFileSha256 ← strField w "whole_file_sha256" ms
    let root ← strField w "merkle_root" ms
    let totalSize ← intField w "total_size" ms
    let chunkSize ← intField w "chunk_size" ms
    match get "chunks" ms with
    | some (.arr vs) => match strs vs with
      | some chunks => pure ⟨modelId, totalSize, chunkSize, wholeFileSha256, chunks, root⟩
      | none => .error (.verificationError
          (text "manifest field 'chunks' is missing or not a list of strings"))
    | _ => .error (.verificationError
        (text "manifest field 'chunks' is missing or not a list of strings"))
  | _ => .error (.verificationError (text "manifest is not a JSON object"))

/-! ### Names -/

theorem hexValue_hexDigit : ∀ n < 16, hexValue (hexDigits.getD n '0').toNat = some n ∧
    isAsciiSpace (hexDigits.getD n '0').toNat = false := by decide

/-- CORRECT: a name gives back the digest. -/
theorem fromHex_hex : fromHex (hex b) = some b := by
  induction b with
  | nil => rfl
  | cons x b ih =>
    obtain ⟨hhi, hspace⟩ := hexValue_hexDigit (x.toNat / 16) (by have := x.toNat_lt; omega)
    obtain ⟨hlo, -⟩ := hexValue_hexDigit (x.toNat % 16) (Nat.mod_lt _ (by decide))
    change fromHex (_ :: _ :: hex b) = _
    rw [fromHex, hspace, hhi, hlo, ih, if_neg Bool.false_ne_true]
    change some (UInt8.ofNat (16 * (x.toNat / 16) + x.toNat % 16) :: b) = _
    rw [Nat.div_add_mod, UInt8.ofNat_toNat]

theorem hex_injective : Function.Injective hex := by
  intro b c h
  have hback := congrArg fromHex h
  rw [fromHex_hex, fromHex_hex] at hback
  exact Option.some.inj hback

theorem bare_hex : Bare (hex b) := by
  have hall : (hexDigits.all fun c =>
      decide (32 ≤ c.toNat ∧ c.toNat ≤ 126 ∧ shortEscape c.toNat = none)) = true := by decide
  have hdigit : ∀ c ∈ hexDigits, 32 ≤ c.toNat ∧ c.toNat ≤ 126 ∧ shortEscape c.toNat = none :=
    fun c hc => of_decide_eq_true (all_eq_true.1 hall c hc)
  intro c hc
  obtain ⟨d, hd, rfl⟩ := mem_map.1 hc
  obtain ⟨x, -, hx⟩ := mem_flatMap.1 hd
  simp only [hexOf, mem_cons, not_mem_nil, or_false] at hx
  rcases hx with rfl | rfl
  · exact hdigit _ getD_hexDigits_mem
  · exact hdigit _ getD_hexDigits_mem

variable {w}

theorem hexdigest_injective (h : Function.Injective w.sha256) : Function.Injective (hexdigest w) :=
  hex_injective.comp h

/-! ### What is built -/

theorem length_nextLevel (level : List Bytes) :
    (nextLevel w level).length = (level.length + 1) / 2 := by
  induction level using nextLevel.induct with
  | case1 left right rest ih =>
    rw [nextLevel, length_cons, ih]
    simp only [length_cons]
    omega
  | case2 level hshort =>
    rcases level with _ | ⟨a, _ | ⟨b, rest⟩⟩
    · rfl
    · rw [nextLevel]
      · simp
      · exact hshort
    · exact absurd rfl (hshort a b rest)

/-- The loop ends with the root alone. -/
theorem length_climb : ∀ (fuel : ℕ) (level : List Bytes), level ≠ [] → level.length ≤ fuel + 1 →
    (climb w fuel level).length = 1
  | 0, level, hne, h => by
    have hpos := length_pos_iff.2 hne
    change level.length = 1
    omega
  | fuel + 1, level, hne, h => by
    have hpos := length_pos_iff.2 hne
    rw [climb]
    split
    · have hlen := length_nextLevel (w := w) level
      refine length_climb fuel _ (length_pos_iff.1 (by omega)) (by omega)
    · omega

theorem mapM_leaf {chunks : List Bytes} : (chunks.map hex).mapM (leaf w)
    = .ok (chunks.map fun b => w.sha256 (0 :: b)) := by
  induction chunks with
  | nil => rfl
  | cons b chunks ih =>
    have hleaf : leaf w (hex b) = .ok (w.sha256 (0 :: b)) := by rw [leaf, fromHex_hex]
    rw [map_cons, mapM_cons, hleaf, ih]
    rfl

/-- INVERSION: the manifest of a file. -/
structure Describes (w : Platform) (file : Bytes) (m : Manifest) : Prop where
  positive : 0 < m.chunkSize
  chunks : m.chunks = (batched m.chunkSize.toNat file).map (chunkHash w)
  totalSize : m.totalSize = file.length
  wholeFileSha256 : m.wholeFileSha256 = hexdigest w file

variable {chunkSize : ℤ}

theorem flatten_chunks (hpos : 0 < chunkSize) (file : Bytes) :
    (batched chunkSize.toNat file).flatten = file := flatten_batched (by omega) file

variable {file : Bytes} {modelId : Str} {m : Manifest}

theorem describes_of_build
    (h : buildManifest w file modelId chunkSize = .ok m) : Describes w file m := by
  obtain ⟨datas, hdatas, h⟩ := bind_ok h
  obtain ⟨root, -, h⟩ := bind_ok h
  cases h
  rw [iterFileChunks] at hdatas
  split at hdatas
  · cases hdatas
  next hpos =>
  split at hdatas
  · cases hdatas
  cases hdatas
  have hflat := flatten_chunks (Int.not_le.1 hpos) file
  refine ⟨Int.not_le.1 hpos, rfl, ?_, ?_⟩
  · rw [← length_flatten, hflat]
  · rw [hflat]

/-- Every file has a manifest, at every chunk size that can be read. -/
theorem exists_build (hpos : 0 < chunkSize)
    (hread : chunkSize ≤ w.maxRead) : ∃ m, buildManifest w file modelId chunkSize = .ok m := by
  have hchunks : iterFileChunks w file chunkSize = .ok (batched chunkSize.toNat file) := by
    rw [iterFileChunks, if_neg (Int.not_le.2 hpos), if_neg (Int.not_lt.2 hread)]
  have hroot : ∃ root, merkleRoot w ((batched chunkSize.toNat file).map (chunkHash w)) = .ok root := by
    rw [merkleRoot]
    split
    · exact ⟨_, rfl⟩
    have hhex : (batched chunkSize.toNat file).map (chunkHash w)
        = ((batched chunkSize.toNat file).map w.sha256).map hex := by rw [map_map]; rfl
    rw [hhex, mapM_leaf]
    exact ⟨_, rfl⟩
  obtain ⟨root, hroot⟩ := hroot
  rw [buildManifest, hchunks]
  change ∃ m, (merkleRoot w ((batched chunkSize.toNat file).map (chunkHash w)) >>= _) = .ok m
  rw [hroot]
  exact ⟨_, rfl⟩

/-! ### What is signed -/

/-- The canonical text, field by field. -/
theorem render_payload : render false (m.payload w) =
    "\x7b\"chunk_size\":".toList ++ (renderInt m.chunkSize ++ (',' :: ("\"chunks\":[".toList ++
      (join [','] (m.chunks.map renderStr) ++ (']' :: (",\"merkle_root\":".toList ++
        (renderStr m.merkleRoot ++ (",\"model_id\":".toList ++ (renderStr m.modelId ++
          (",\"total_size\":".toList ++ (renderInt m.totalSize ++ (',' ::
            ("\"whole_file_sha256\":".toList ++
              (renderStr m.wholeFileSha256 ++ ['\x7d'])))))))))))))) := by
  have hkeys : [text "chunk_size", text "chunks", text "merkle_root", text "model_id",
      text "total_size", text "whole_file_sha256"].map renderStr
      = ["\"chunk_size\"".toList, "\"chunks\"".toList, "\"merkle_root\"".toList,
        "\"model_id\"".toList, "\"total_size\"".toList, "\"whole_file_sha256\"".toList] := by
    decide +kernel
  simp only [map_cons, map_nil, cons.injEq, and_true] at hkeys
  obtain ⟨h₁, h₂, h₃, h₄, h₅, h₆⟩ := hkeys
  have hstrs : renderAll false (m.chunks.map (Value.str : Str → Value w.F))
      = m.chunks.map renderStr := by
    rw [renderAll_eq_map, map_map]
    rfl
  simp only [Manifest.payload, render, renderPairs, join, itemSep, keySep, h₁, h₂, h₃, h₄, h₅, h₆,
    hstrs, Bool.false_eq_true, if_false]
  simp

/-- What a reconstruction reads is what was signed. -/
theorem eq_of_canonicalBytes {m' : Manifest} (hm : Describes w file m)
    (h : m'.canonicalBytes w = m.canonicalBytes w) :
    m'.chunks = m.chunks ∧ m'.totalSize = m.totalSize ∧ m'.wholeFileSha256 = m.wholeFileSha256 := by
  have htext := utf8_injective h
  rw [render_payload, render_payload] at htext
  have hstop : ∀ x : List Char, Stops (',' :: x) := by
    intro x c hc
    obtain rfl : ',' = c := Option.some.inj hc
    rfl
  have hbare : ∀ t ∈ m.chunks, Bare t := by
    intro t ht
    rw [hm.chunks] at ht
    obtain ⟨data, -, rfl⟩ := mem_map.1 ht
    exact bare_hex
  obtain ⟨-, htext⟩ := renderInt_cut (hstop _) (hstop _) (append_cancel_left htext)
  obtain ⟨hchunks, htext⟩ :=
    renderStrs_cut hbare (append_cancel_left (cons.inj htext).2)
  obtain ⟨-, htext⟩ := renderStr_cut (append_cancel_left htext)
  obtain ⟨-, htext⟩ := renderStr_cut (append_cancel_left htext)
  obtain ⟨htotal, htext⟩ := renderInt_cut (hstop _) (hstop _) (append_cancel_left htext)
  obtain ⟨hwhole, -⟩ := renderStr_cut (append_cancel_left (cons.inj htext).2)
  refine ⟨hchunks, htotal, eq_of_bare ?_ hwhole⟩
  rw [hm.wholeFileSha256]
  exact bare_hex

end Fallow.Mesh

import Mathlib

/-! SHA-256 of a byte string, as an executable function.

    The message is padded to whole blocks of sixteen words, the blocks are folded into the chaining
    state, and the state is read out in lower-case hexadecimal.

        pad ──▶ words ──▶ compress · compress · ⋯ ──▶ 8 words ──▶ 64 hex digits

    Programs that feed a hash piece by piece are modelled by the bytes fed so far; what proofs use of
    a digest is its shape, never its value. -/

namespace Fallow.Lib.Sha256
open List

def roundConstants : List UInt32 :=
  [0x428a2f98, 0x71374491, 0xb5c0fbcf, 0xe9b5dba5, 0x3956c25b, 0x59f111f1, 0x923f82a4, 0xab1c5ed5,
   0xd807aa98, 0x12835b01, 0x243185be, 0x550c7dc3, 0x72be5d74, 0x80deb1fe, 0x9bdc06a7, 0xc19bf174,
   0xe49b69c1, 0xefbe4786, 0x0fc19dc6, 0x240ca1cc, 0x2de92c6f, 0x4a7484aa, 0x5cb0a9dc, 0x76f988da,
   0x983e5152, 0xa831c66d, 0xb00327c8, 0xbf597fc7, 0xc6e00bf3, 0xd5a79147, 0x06ca6351, 0x14292967,
   0x27b70a85, 0x2e1b2138, 0x4d2c6dfc, 0x53380d13, 0x650a7354, 0x766a0abb, 0x81c2c92e, 0x92722c85,
   0xa2bfe8a1, 0xa81a664b, 0xc24b8b70, 0xc76c51a3, 0xd192e819, 0xd6990624, 0xf40e3585, 0x106aa070,
   0x19a4c116, 0x1e376c08, 0x2748774c, 0x34b0bcb5, 0x391c0cb3, 0x4ed8aa4a, 0x5b9cca4f, 0x682e6ff3,
   0x748f82ee, 0x78a5636f, 0x84c87814, 0x8cc70208, 0x90befffa, 0xa4506ceb, 0xbef9a3f7, 0xc67178f2]

structure State where
  a : UInt32
  b : UInt32
  c : UInt32
  d : UInt32
  e : UInt32
  f : UInt32
  g : UInt32
  h : UInt32

def initial : State :=
  ⟨0x6a09e667, 0xbb67ae85, 0x3c6ef372, 0xa54ff53a, 0x510e527f, 0x9b05688c, 0x1f83d9ab, 0x5be0cd19⟩

/-- Rotation to the right. -/
def rotr (x : UInt32) (n : UInt32) : UInt32 := (x >>> n) ||| (x <<< (32 - n))

/-- One round: the two sums, then every register moves on by one. -/
def round (s : State) (k w : UInt32) : State :=
  let t₁ := s.h + (rotr s.e 6 ^^^ rotr s.e 11 ^^^ rotr s.e 25)
    + ((s.e &&& s.f) ^^^ (~~~ s.e &&& s.g)) + k + w
  let t₂ := (rotr s.a 2 ^^^ rotr s.a 13 ^^^ rotr s.a 22)
    + ((s.a &&& s.b) ^^^ (s.a &&& s.c) ^^^ (s.b &&& s.c))
  ⟨t₁ + t₂, s.a, s.b, s.c, s.d + t₁, s.e, s.f, s.g⟩

/-- The last sixteen words, oldest first, give the next. -/
def nextWord : List UInt32 → UInt32
  | w0 :: w1 :: _ :: _ :: _ :: _ :: _ :: _ :: _ :: w9 :: _ :: _ :: _ :: _ :: w14 :: _ =>
    w0 + (rotr w1 7 ^^^ rotr w1 18 ^^^ (w1 >>> 3)) + w9
      + (rotr w14 17 ^^^ rotr w14 19 ^^^ (w14 >>> 10))
  | _ => 0

/-- All rounds of a block; the schedule slides one word with each. -/
def rounds : List UInt32 → List UInt32 → State → State
  | [], _, s => s
  | k :: ks, ws, s => rounds ks (ws.tail ++ [nextWord ws]) (round s k (ws.headD 0))

/-- Fold one block into the chaining state. -/
def compress (s : State) (block : List UInt32) : State :=
  let t := rounds roundConstants block s
  ⟨s.a + t.a, s.b + t.b, s.c + t.c, s.d + t.d, s.e + t.e, s.f + t.f, s.g + t.g, s.h + t.h⟩

/-- The last `w` bytes of a number, most significant first. -/
def bigEndian (n : ℕ) : ℕ → List UInt8
  | 0 => []
  | w + 1 => bigEndian (n / 256) w ++ [UInt8.ofNat (n % 256)]

/-- A one bit, zeros up to the last eight bytes of a block, the length in bits. -/
def pad (bs : List UInt8) : List UInt8 :=
  bs ++ 0x80 :: List.replicate ((119 - bs.length % 64) % 64) 0 ++ bigEndian (8 * bs.length) 8

def words : List UInt8 → List UInt32
  | b₀ :: b₁ :: b₂ :: b₃ :: bs =>
    UInt32.ofNat (((b₀.toNat * 256 + b₁.toNat) * 256 + b₂.toNat) * 256 + b₃.toNat) :: words bs
  | _ => []

def compressAll : ℕ → List UInt32 → State → State
  | 0, _, s => s
  | n + 1, ws, s => compressAll n (ws.drop 16) (compress s (ws.take 16))

def State.bytes (s : State) : List UInt8 :=
  [s.a, s.b, s.c, s.d, s.e, s.f, s.g, s.h].flatMap fun w => bigEndian w.toNat 4

def digest (bs : List UInt8) : List UInt8 :=
  let ws := words (pad bs)
  (compressAll (ws.length / 16) ws initial).bytes

def hexDigits : List Char :=
  ['0', '1', '2', '3', '4', '5', '6', '7', '8', '9', 'a', 'b', 'c', 'd', 'e', 'f']

def hexOf (b : UInt8) : List Char :=
  [hexDigits.getD (b.toNat / 16) '0', hexDigits.getD (b.toNat % 16) '0']

/-- `hashlib.sha256(bs).hexdigest()` -/
def hexdigest (bs : List UInt8) : String := String.ofList ((digest bs).flatMap hexOf)

/-! ### The shape of a digest -/

theorem length_bigEndian : (bigEndian n w).length = w := by
  induction w generalizing n with
  | zero => rfl
  | succ w ih => rw [bigEndian, length_append, ih]; rfl

variable {bs : List UInt8}

theorem length_digest : (digest bs).length = 32 := by
  simp [digest, State.bytes, length_bigEndian]

theorem length_flatMap_hexOf {ds : List UInt8} : (ds.flatMap hexOf).length = 2 * ds.length := by
  induction ds with
  | nil => rfl
  | cons d ds ih =>
    have hd : (hexOf d).length = 2 := rfl
    rw [flatMap_cons, length_append, ih, length_cons, hd]
    omega

theorem length_hexdigest : (hexdigest bs).toList.length = 64 := by
  rw [hexdigest, String.toList_ofList, length_flatMap_hexOf, length_digest]

theorem getD_hexDigits_mem : hexDigits.getD n '0' ∈ hexDigits := by
  by_cases h : n < hexDigits.length
  · rw [getD_eq_getElem _ _ h]
    exact getElem_mem h
  · rw [getD_eq_default _ _ (by omega)]
    exact mem_cons_self

theorem mem_hexdigest (h : c ∈ (hexdigest bs).toList) : c ∈ hexDigits := by
  rw [hexdigest, String.toList_ofList, mem_flatMap] at h
  obtain ⟨b, -, hc⟩ := h
  simp only [hexOf, mem_cons, not_mem_nil, or_false] at hc
  rcases hc with rfl | rfl
  · exact getD_hexDigits_mem
  · exact getD_hexDigits_mem

/-- There are fewer digests than messages. -/
theorem exists_collision (message : ℕ → List UInt8) :
    ∃ m n, m ≠ n ∧ hexdigest (message m) = hexdigest (message n) := by
  let digits : ℕ → { ds : List { c : Char // c ∈ hexDigits } // ds.length = 64 } := fun n =>
    ⟨(hexdigest (message n)).toList.attachWith (· ∈ hexDigits) fun _ hc => mem_hexdigest hc, by
      rw [length_attachWith, length_hexdigest]⟩
  have hfin : Finite { ds : List { c : Char // c ∈ hexDigits } // ds.length = 64 } :=
    (finite_length_eq { c : Char // c ∈ hexDigits } 64).to_subtype
  obtain ⟨m, n, hne, heq⟩ := Finite.exists_ne_map_eq_of_infinite digits
  refine ⟨m, n, hne, String.toList_inj.1 ?_⟩
  have hvals := congrArg (fun ds => ds.val.map Subtype.val) heq
  simpa [digits] using hvals

-- no proof computes a digest by accident
attribute [irreducible] hexdigest

example : hexdigest [97, 98, 99]
    = "ba7816bf8f01cfea414140de5dae2223b00361a396177a9cb410ff61f20015ad" := by decide +kernel

end Fallow.Lib.Sha256

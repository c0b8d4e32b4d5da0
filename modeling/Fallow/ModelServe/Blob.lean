import Fallow.Lib.PyText

/-! The coordinator's side of a model download: the `Range` header, the streamed file and the blob
    route.

        no Range             ──▶ 200, the file
        bytes=N-, N < size   ──▶ 206, the file from N on
        bytes=N-, N ≥ size   ──▶ 416
        anything unreadable  ──▶ 416

    A record's file is as the file system has it: its length is an `off_t`. -/

namespace Fallow.ModelServe
open Lib List Bool Json String

abbrev Bytes := List UInt8

/-- A file on the coordinator's disk. -/
structure BlobFile where
  bytes : Bytes
  size_lt : bytes.length < 2 ^ 63

def BlobFile.size (f : BlobFile) : ℕ := f.bytes.length

/-! ### The `Range` header -/

/-- An inclusive byte interval. -/
structure ByteRange where
  start : ℤ
  end_ : ℤ
  deriving DecidableEq, Repr

def ByteRange.length (r : ByteRange) : ℤ := r.end_ - r.start + 1

/-- `none` is a `ValueError`. -/
def resolveBounds (startText endText : List Char) (size : ℕ) : Option (ℤ × ℤ) :=
  if startText = [] then
    match pyInt (ofList endText) with
    | none => none
    | some suffix =>
      if suffix ≤ 0 then none else some (max 0 ((size : ℤ) - suffix), (size : ℤ) - 1)
  else
    match pyInt (ofList startText) with
    | none => none
    | some start =>
      if endText = [] then some (start, (size : ℤ) - 1)
      else (pyInt (ofList endText)).map fun e => (start, e)

/-- `RangeNotSatisfiable` carries the header. -/
def parseRange (header : Option String) (size : ℕ) : Except String (Option ByteRange) :=
  match header with
  | none => .ok none
  | some header =>
    if ("bytes=".toList.isPrefixOf header.toList) = false then .error header
    else
      let spec := strip (header.toList.drop 6)
      if ',' ∈ spec ∨ '-' ∉ spec then .error header
      else
        let startText := spec.takeWhile (· ≠ '-')
        let endText := (spec.dropWhile (· ≠ '-')).drop 1
        match resolveBounds (strip startText) (strip endText) size with
        | none => .error header
        | some (start, end_) =>
          if start < 0 ∨ (size : ℤ) ≤ start ∨ end_ < start then .error header
          else .ok (some ⟨start, min end_ ((size : ℤ) - 1)⟩)

/-! ### The file -/

def chunkSize : ℕ := 1024 * 1024

/-- The loop of `stream_file` behind the seek; each turn yields a byte at least. -/
def streamLoop (chunkSize : ℕ) : (turns : ℕ) → (rest : Bytes) → (remaining : ℕ) → List Bytes
  | 0, _, _ => []
  | turns + 1, rest, remaining =>
    if remaining = 0 then []
    else match rest.take (min chunkSize remaining) with
      | [] => []
      | b :: bs => (b :: bs) :: streamLoop chunkSize turns (rest.drop (b :: bs).length)
          (remaining - (b :: bs).length)

def streamFile (file : Bytes) (start length : ℕ) : List Bytes :=
  streamLoop chunkSize length (file.drop start) length

/-! ### The route -/

structure ModelRecord where
  enabled : Bool
  /-- the file at the record's `blob_path`, if there is one -/
  file : Option BlobFile

structure Served where
  status : ℕ
  body : List Bytes

/-- `GET /v1/models/{model_id}/blob`; the texts of the error answers are left out. -/
def getBlob (registry : String → Option ModelRecord) (modelId : String) (range : Option String) :
    Served :=
  match registry modelId with
  | none => ⟨404, []⟩
  | some record =>
    if record.enabled = false then ⟨404, []⟩
    else match record.file with
      | none => ⟨404, []⟩
      | some file => match parseRange range file.size with
        | .error _ => ⟨416, []⟩
        | .ok none => ⟨200, streamFile file.bytes 0 file.size⟩
        | .ok (some r) => ⟨206, streamFile file.bytes r.start.toNat r.length.toNat⟩

/-! ### What is served -/

theorem flatten_streamLoop {chunkSize : ℕ} (hpos : 0 < chunkSize) : ∀ (turns : ℕ) (rest : Bytes)
    (remaining : ℕ), remaining ≤ turns →
      (streamLoop chunkSize turns rest remaining).flatten = rest.take remaining
  | 0, rest, remaining, h => by
    obtain rfl : remaining = 0 := by omega
    rfl
  | turns + 1, rest, remaining, h => by
    rw [streamLoop]
    split
    · next h0 => rw [h0]; rfl
    next h0 =>
    split
    · next hnil =>
      have : rest = [] := by
        rcases take_eq_nil_iff.mp hnil with hmin | hrest
        · omega
        · exact hrest
      rw [this, take_nil]
      rfl
    · next b bs hchunk =>
      have hlen := congrArg List.length hchunk
      have hpre : b :: bs = rest.take (b :: bs).length := by
        rw [← hchunk, length_take, take_eq_take_min]
      rw [length_take] at hlen
      have hcons : 0 < (b :: bs).length := Nat.succ_pos _
      rw [flatten_cons, flatten_streamLoop hpos turns _ _ (by omega)]
      calc b :: bs ++ (rest.drop (b :: bs).length).take (remaining - (b :: bs).length)
          = rest.take (b :: bs).length
              ++ (rest.drop (b :: bs).length).take (remaining - (b :: bs).length) := by rw [← hpre]
        _ = rest.take ((b :: bs).length + (remaining - (b :: bs).length)) := take_add.symm
        _ = rest.take remaining := by rw [Nat.add_sub_cancel' (by omega)]

theorem flatten_streamFile {start length : ℕ} :
    (streamFile file start length).flatten = (file.drop start).take length :=
  flatten_streamLoop (by decide) length _ length (Nat.le_refl _)

/-- The header of a resumed download. -/
def openRange (n : ℕ) : String := ofList ("bytes=".toList ++ (decimal n ++ ['-']))

variable {n size : ℕ}

theorem resolveBounds_open (hn : n < 2 ^ 63) :
    resolveBounds (decimal n) [] size = some ((n : ℤ), (size : ℤ) - 1) := by
  have hne : decimal n ≠ [] := by
    rcases decimal_shape n with h | ⟨c, cs, h, -⟩ <;> rw [h]
    · exact cons_ne_nil _ _
    · exact cons_ne_nil _ _
  have hlen : (decimal n).length ≤ 19 := length_decimal_le (by omega)
  have hint := pyInt_decimal (n := n) (Nat.le_trans hlen (by decide))
  simp only [resolveBounds, if_neg hne, hint, if_true]

/-- CORRECT: an open-ended range is read as its offset, and refused from the end of the file on. -/
theorem parseRange_open (hn : n < 2 ^ 63) : parseRange (some (openRange n)) size
      = if n < size then .ok (some ⟨n, (size : ℤ) - 1⟩) else .error (openRange n) := by
  have hdig := isDigit_of_mem_decimal n
  have hdash : ∀ c ∈ decimal n, decide (c ≠ '-') = true := by
    intro c hc
    have h := hdig c hc
    rw [decide_eq_true_eq]
    rintro rfl
    exact absurd h (by decide)
  have hplain : ∀ c ∈ decimal n ++ ['-'], isSpace c = false := by
    intro c hc
    rcases mem_append.mp hc with hc | hc
    · exact isSpace_digit (hdig c hc)
    · rw [mem_singleton.mp hc]; decide
  have htext : (openRange n).toList = "bytes=".toList ++ (decimal n ++ ['-']) :=
    toList_ofList
  have hbytes : "bytes=".toList.isPrefixOf (openRange n).toList = true := by
    rw [htext, isPrefixOf_iff_prefix]
    exact prefix_append _ _
  have hspec : strip ((openRange n).toList.drop 6) = decimal n ++ ['-'] := by
    rw [htext, drop_left' (by decide)]
    exact stripBy_none hplain
  have hcomma : ',' ∉ decimal n ++ ['-'] := by
    intro hc
    rcases mem_append.mp hc with hc | hc
    · exact absurd (hdig _ hc) (by decide)
    · exact absurd hc (by decide)
  have hmem : '-' ∈ decimal n ++ ['-'] := mem_append_right _ (mem_singleton_self _)
  have hstart : (decimal n ++ ['-']).takeWhile (· ≠ '-') = decimal n := by
    rw [takeWhile_append_of_pos hdash]
    simp
  have hend : (decimal n ++ ['-']).dropWhile (· ≠ '-') = ['-'] := by
    rw [dropWhile_append_of_pos hdash]
    simp
  have hstrip : strip (decimal n) = decimal n :=
    stripBy_none fun c hc => isSpace_digit (hdig c hc)
  have hnil : strip ([] : List Char) = [] := rfl
  have hfine : ¬ (',' ∈ decimal n ++ ['-'] ∨ '-' ∉ decimal n ++ ['-']) :=
    fun h => h.elim hcomma fun h => h hmem
  simp only [parseRange, hbytes, hspec, if_neg hfine, hstart, hend, hstrip, hnil, drop_one,
    tail_cons, true_eq_false, if_false, resolveBounds_open hn, Int.min_self]
  by_cases h : n < size
  · rw [if_pos h, if_neg (by omega)]
  · rw [if_neg h, if_pos (by omega)]

/-! ### The answers to a download -/

section
variable {registry : String → Option ModelRecord} {modelId : String} {file : BlobFile}
  (hreg : registry modelId = some ⟨true, some file⟩)
include hreg

/-- CORRECT: without a range the whole file. -/
theorem getBlob_whole : (getBlob registry modelId none).status = 200 ∧
    (getBlob registry modelId none).body.flatten = file.bytes := by
  simp only [getBlob, hreg, true_eq_false, if_false, parseRange, flatten_streamFile]
  exact ⟨trivial, take_length⟩

/-- CORRECT: from an offset inside the file, the rest of it. -/
theorem getBlob_rest (hn : n < file.size) :
    (getBlob registry modelId (some (openRange n))).status = 206 ∧
      (getBlob registry modelId (some (openRange n))).body.flatten = file.bytes.drop n := by
  have hfit : n < 2 ^ 63 := Nat.lt_trans hn file.size_lt
  simp only [getBlob, hreg, true_eq_false, if_false, parseRange_open hfit, if_pos hn,
    flatten_streamFile, Int.toNat_natCast]
  refine ⟨trivial, take_of_length_le ?_⟩
  simp only [ByteRange.length, length_drop, BlobFile.size] at hn ⊢
  omega

/-- From the end of the file on there is nothing to serve, and that is an error. -/
theorem getBlob_past (hfit : n < 2 ^ 63) (hn : file.size ≤ n) :
    (getBlob registry modelId (some (openRange n))).status = 416 := by
  simp only [getBlob, hreg, true_eq_false, if_false, parseRange_open hfit,
    if_neg (Nat.not_lt.mpr hn)]

end

end Fallow.ModelServe

import Fallow.Mesh.Manifest

/-! `store.py` and `delta.py` of the model mesh: the chunks held in memory.

    Chunks go by their hash, oldest first; a chunk that is read or written again moves to the end, and
    one that does not fit pushes out chunks from the front. A store carries the proof that it is one:
    every key once, each chunk under its own hash, and the bytes counted within the cap. -/

namespace Fallow.Mesh
open Lib Lib.PyJson Lib.PyStr List Except Prod

abbrev Entry := Str × Bytes

def held (chunks : List Entry) : ℕ := (chunks.map (·.2.length)).sum

structure ChunkStore (w : Platform) where
  maxBytes : ℕ
  maxBytes_pos : 0 < maxBytes
  used : ℕ
  /-- oldest first -/
  chunks : List Entry
  keyed : (chunks.map fst).Nodup
  named : ∀ e ∈ chunks, e.1 = chunkHash w e.2
  used_eq : used = held chunks
  fits : used ≤ maxBytes

variable {w : Platform}

/-- `_evict_until_fits`, with the count. -/
def evictUntilFits (maxBytes incoming : ℕ) : ℕ → List Entry → ℕ × List Entry
  | used, [] => (used, [])
  | used, e :: rest =>
    if maxBytes < used + incoming then evictUntilFits maxBytes incoming (used - e.2.length) rest
    else (used, e :: rest)

/-- `move_to_end` of a key that is there. -/
def moveToEnd (key : Str) (data : Bytes) (chunks : List Entry) : List Entry :=
  chunks.filter (·.1 ≠ key) ++ [(key, data)]

variable {chunks : List Entry} {key : Str} {data : Bytes}

theorem mem_of_lookup (h : chunks.lookup key = some data) : (key, data) ∈ chunks := by
  obtain ⟨before, after, rfl, -⟩ := lookup_eq_some_iff.1 h
  exact mem_append_right _ mem_cons_self

theorem lookup_isSome (h : key ∈ chunks.map fst) : ∃ data, chunks.lookup key = some data := by
  induction chunks with
  | nil => cases h
  | cons e chunks ih =>
    rw [lookup_cons]
    split
    · exact ⟨_, rfl⟩
    next hne =>
    rcases mem_cons.1 h with rfl | h
    · simp at hne
    · exact ih h

/-- Moving a chunk reorders the store. -/
theorem moveToEnd_perm (hk : (chunks.map fst).Nodup) (h : (key, data) ∈ chunks) : (moveToEnd key data chunks).Perm chunks := by
  have hone : chunks.filter (fun e => !decide (e.1 ≠ key)) = [(key, data)] := by
    induction chunks with
    | nil => cases h
    | cons e chunks ih =>
      rw [map_cons, nodup_cons] at hk
      rcases mem_cons.1 h with rfl | hmem
      · have hrest : chunks.filter (fun e => !decide (e.1 ≠ key)) = [] := by
          rw [filter_eq_nil_iff]
          intro e he hkey
          have heq : e.1 = key := by simpa using hkey
          exact hk.1 (mem_map.2 ⟨e, he, heq⟩)
        rw [filter_cons, hrest]
        simp
      · have hne : e.1 ≠ key := fun heq => hk.1 (mem_map.2 ⟨(key, data), hmem, heq.symm⟩)
        rw [filter_cons, ih hk.2 hmem]
        simp [hne]
  have hsplit := filter_append_perm (fun e : Entry => decide (e.1 ≠ key)) chunks
  rw [hone] at hsplit
  exact hsplit

/-- What is evicted comes off the front, and then there is room. -/
theorem evictUntilFits_spec (hin : incoming ≤ maxBytes) :
    ∀ (chunks : List Entry), ∃ dropped, chunks = dropped ++
        (evictUntilFits maxBytes incoming (held chunks) chunks).2 ∧
      (evictUntilFits maxBytes incoming (held chunks) chunks).1
        = held (evictUntilFits maxBytes incoming (held chunks) chunks).2 ∧
      (evictUntilFits maxBytes incoming (held chunks) chunks).1 + incoming ≤ maxBytes
  | [] => by
    refine ⟨[], rfl, rfl, ?_⟩
    change 0 + incoming ≤ maxBytes
    omega
  | e :: rest => by
    rw [evictUntilFits]
    split
    · have hheld : held (e :: rest) - e.2.length = held rest := by
        exact Nat.add_sub_cancel_left ..
      rw [hheld]
      obtain ⟨dropped, hsplit, hused, hroom⟩ := evictUntilFits_spec hin rest
      exact ⟨e :: dropped, by rw [cons_append, ← hsplit], hused, hroom⟩
    · next hroom => exact ⟨[], rfl, rfl, Nat.not_lt.1 hroom⟩

namespace ChunkStore

def new (w : Platform) (maxBytes : ℤ) : Except Exn (ChunkStore w) :=
  if h : maxBytes ≤ 0 then .error .value
  else .ok {
    maxBytes := maxBytes.toNat
    maxBytes_pos := by omega
    used := 0
    chunks := []
    keyed := nodup_nil
    named := nofun
    used_eq := rfl
    fits := Nat.zero_le _ }

/-- The store with a chunk moved to the end. -/
def touch (s : ChunkStore w) (key : Str) (data : Bytes) (h : s.chunks.lookup key = some data) :
    ChunkStore w :=
  have hperm := moveToEnd_perm s.keyed (mem_of_lookup h)
  { s with
    chunks := moveToEnd key data s.chunks
    keyed := (hperm.map _).nodup_iff.2 s.keyed
    named := fun e he => s.named e (hperm.mem_iff.1 he)
    used_eq := s.used_eq.trans (hperm.map _).sum_nat.symm }

/-- The store with a new chunk at the end, older ones evicted. -/
def insert (s : ChunkStore w) (data : Bytes) (hsize : data.length ≤ s.maxBytes)
    (hnew : s.chunks.lookup (chunkHash w data) = none) : ChunkStore w :=
  let kept := evictUntilFits s.maxBytes data.length s.used s.chunks
  have hspec : ∃ dropped, s.chunks = dropped ++ kept.2 ∧ kept.1 = held kept.2 ∧
      kept.1 + data.length ≤ s.maxBytes := by
    have h := evictUntilFits_spec hsize s.chunks
    rwa [← s.used_eq] at h
  have hsub : kept.2.Sublist s.chunks := by
    obtain ⟨dropped, hsplit, -⟩ := hspec
    rw [hsplit]
    exact sublist_append_right ..
  { maxBytes := s.maxBytes
    maxBytes_pos := s.maxBytes_pos
    used := kept.1 + data.length
    chunks := kept.2 ++ [(chunkHash w data, data)]
    keyed := by
      rw [map_append, nodup_append]
      refine ⟨s.keyed.sublist (hsub.map _), nodup_singleton _, fun a ha b hb => ?_⟩
      rw [mem_singleton.1 hb]
      rintro rfl
      obtain ⟨found, hfound⟩ := lookup_isSome ((hsub.map _).subset ha)
      rw [hfound] at hnew
      cases hnew
    named := fun e he => by
      rcases mem_append.1 he with he | he
      · exact s.named e (hsub.subset he)
      · rw [mem_singleton.1 he]
    used_eq := by
      obtain ⟨_, -, hused, -⟩ := hspec
      rw [held, map_append, sum_append, hused]
      rfl
    fits := by
      obtain ⟨_, -, -, hroom⟩ := hspec
      exact hroom }

def put (s : ChunkStore w) (data : Bytes) : Except Exn (Str × ChunkStore w) :=
  if hsize : s.maxBytes < data.length then .error .value
  else match h : s.chunks.lookup (chunkHash w data) with
    | some found => .ok (chunkHash w data, s.touch _ found h)
    | none => .ok (chunkHash w data, s.insert data (Nat.not_lt.1 hsize) h)

def get (s : ChunkStore w) (key : Str) : Except Exn (Bytes × ChunkStore w) :=
  match h : s.chunks.lookup key with
  | some data => .ok (data, s.touch key data h)
  | none => .error (.chunkNotFound key)

def availability (s : ChunkStore w) : List Str := s.chunks.map fst

def has (s : ChunkStore w) (key : Str) : Bool := key ∈ s.availability

/-! ### What a read does -/

variable {s s' : ChunkStore w} {data : Bytes}

/-- A chunk comes out under its own hash, and nothing goes. -/
theorem get_ok (h : s.get key = .ok (data, s')) :
    chunkHash w data = key ∧ ∀ k, s'.has k = s.has k := by
  rw [get] at h
  split at h
  · next found hfound =>
    obtain ⟨rfl, rfl⟩ := Prod.mk.inj (ok.inj h)
    have hmem := mem_of_lookup hfound
    refine ⟨(s.named _ hmem).symm, fun k => ?_⟩
    have hperm := (moveToEnd_perm s.keyed hmem).map fst
    exact decide_eq_decide.2 hperm.mem_iff
  · cases h

theorem get_of_has (h : s.has key = true) : ∃ data s', s.get key = .ok (data, s') := by
  obtain ⟨data, hdata⟩ := lookup_isSome (of_decide_eq_true h)
  rw [get]
  split
  · exact ⟨_, _, rfl⟩
  · next hnone =>
    rw [hdata] at hnone
    cases hnone

/-- A chunk is refused only for its size. -/
theorem put_error (h : s.put data = .error e) : e = .value ∧ s.maxBytes < data.length := by
  rw [put] at h
  split at h
  · next hsize => exact ⟨(error.inj h).symm, hsize⟩
  · split at h
    · cases h
    · cases h

theorem put_ok (h : s.put data = .ok (key, s')) :
    s'.maxBytes = s.maxBytes ∧ data.length ≤ s.maxBytes := by
  rw [put] at h
  split at h
  · cases h
  next hsize =>
  split at h
  · obtain ⟨-, rfl⟩ := Prod.mk.inj (ok.inj h)
    exact ⟨rfl, Nat.not_lt.1 hsize⟩
  · obtain ⟨-, rfl⟩ := Prod.mk.inj (ok.inj h)
    exact ⟨rfl, Nat.not_lt.1 hsize⟩

end ChunkStore

/-! ### The delta -/

def missingLoop (present : List Str) : (seen : List Str) → List Str → List Str
  | _, [] => []
  | seen, h :: hs =>
    if h ∈ present ∨ h ∈ seen then missingLoop present seen hs
    else h :: missingLoop present (seen ++ [h]) hs

/-- `missing_chunks`: what the manifest needs and the store lacks, each once. -/
def missingChunks (m : Manifest) (store : ChunkStore w) : List Str :=
  missingLoop store.availability [] m.chunks

end Fallow.Mesh

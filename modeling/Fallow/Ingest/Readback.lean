import Fallow.Ingest.System

/-! What `_finalize` reads back of the worker's results.

    The worker's payload is parsed to the vectors it was made of; a text and its vector make one chunk
    under the digest of the text; the chunks of all units make one dictionary. As long as no two texts
    have one digest the dictionary has exactly one chunk for each distinct text.

        payload ─▶ rows ─▶ (text, vector) ─▶ chunks[sha256(text)]

    The other way round, a payload that is accepted has one row of finite numbers for each text, and
    a request that reports READY has found every unit's payload so. -/

namespace Fallow.Ingest
open Lib Lib.Json Lib.PyJson Lib.PyStr Queue List Char Sha256 Table

variable {F : Type} [PyFloat F] {py : Python F} {f : Embedder F}

/-! ### The worker's payload -/

variable {chunks : List Str} {modelId name : String} {xs : List F} {text : Str}

theorem clean_payloadValue : Clean (payloadValue (chunks.map f.embed) modelId f.dims) := by
  have hdims : (decimal f.dims).length ≤ maxStrDigits := by
    have h19 : (decimal f.dims).length ≤ 18 + 1 := length_decimal_le (Nat.lt_trans f.dims_lt (by decide))
    exact Nat.le_trans h19 (by decide)
  have hrows : Clean (.arr ((chunks.map f.embed).map fun e => .arr (e.map .float)) : Value F) := by
    refine (cleanAll_iff _).2 fun v hv => ?_
    obtain ⟨e, he, rfl⟩ := mem_map.1 hv
    obtain ⟨text, -, rfl⟩ := mem_map.1 he
    refine (cleanAll_iff _).2 fun v hv => ?_
    obtain ⟨x, hx, rfl⟩ := mem_map.1 hv
    exact f.finite text x hx
  exact ⟨⟨scalar_codes, hrows⟩, ⟨scalar_codes, scalar_codes⟩, ⟨scalar_codes, hdims⟩, trivial⟩

theorem allFinite_floats (h : ∀ x ∈ xs, PyFloat.isFinite x = true) :
    allFinite (xs.map .float) = some true := by
  induction xs with
  | nil => rfl
  | cons x xs ih =>
    rw [map_cons, allFinite, isFiniteNumber, h x mem_cons_self]
    exact ih fun y hy => h y (mem_cons_of_mem _ hy)

theorem mapM_toFloat_floats : (xs.map .float : List (Value F)).mapM toFloat = some xs := by
  rw [mapM_eq_some]
  induction xs with
  | nil => exact .nil
  | cons x xs ih => exact .cons rfl ih

theorem parseRow_embed :
    parseRow name f.dims (.arr ((f.embed text).map .float)) = .ok (f.embed text) := by
  have hlen : (((f.embed text).map Value.float).length : ℤ) = f.dims := by
    rw [length_map, f.length_embed]
  rw [parseRow, if_neg (not_not_intro hlen), allFinite_floats (f.finite text)]
  rw [mapM_toFloat_floats]
  rfl

/-- CORRECT: the vectors the worker wrote are read back. -/
theorem parsePayload_encodePayload :
    parsePayload py name (some (encodePayload (chunks.map f.embed) modelId f.dims)) chunks.length
      = .ok (codes modelId.toList, f.dims, chunks.map f.embed) := by
  have hrows : ((chunks.map f.embed).map fun e => (.arr (e.map .float) : Value F)).mapM
      (parseRow name f.dims) = .ok (chunks.map f.embed) := by
    rw [mapM_eq_ok]
    induction chunks with
    | nil => exact .nil
    | cons text chunks ih => exact .cons parseRow_embed ih
  have hlen : ((chunks.map f.embed).map fun e => (.arr (e.map .float) : Value F)).length
      = chunks.length := by simp
  have hpos : ¬ (f.dims : ℤ) ≤ 0 := by
    have := f.dims_pos
    omega
  rw [parsePayload, Option.bind_some, encodePayload, loadsBytes_render py false clean_payloadValue]
  have hmodel : item "model_id" (payloadValue (chunks.map f.embed) modelId f.dims)
      = some (.str (codes modelId.toList)) := rfl
  have hdims : item "dims" (payloadValue (chunks.map f.embed) modelId f.dims)
      = some (.int f.dims) := rfl
  have hvecs : item "embeddings" (payloadValue (chunks.map f.embed) modelId f.dims)
      = some (.arr ((chunks.map f.embed).map fun e => .arr (e.map .float))) := rfl
  dsimp only
  rw [hmodel, hdims, hvecs]
  dsimp only
  rw [if_neg hpos, if_neg (not_not_intro hlen), hrows]
  rfl

variable {name : String} {input : Bytes}

theorem parseTexts_of_parseChunks
    (h : parseChunks py input = .ok chunks) : parseTexts py name (some input) = .ok chunks := by
  rw [parseChunks] at h
  rw [parseTexts, Option.bind_some]
  cases hv : loadsBytes py input with
  | none =>
    rw [hv] at h
    cases h
  | some v =>
    rw [hv] at h
    dsimp only at h ⊢
    cases ht : stringArray v with
    | none =>
      rw [ht] at h
      cases h
    | some texts =>
      rw [ht] at h
      dsimp only at h ⊢
      split at h
      · cases h
      · rw [Except.ok.inj h]

theorem isSha256_hexdigest : isSha256 (hexdigest b) = true := by
  have hlen : (hexdigest b).toList.length = 64 := length_hexdigest
  have hall : (hexdigest b).toList.all (· ∈ hexDigits) = true :=
    all_eq_true.2 fun c hc => decide_eq_true (mem_hexdigest hc)
  rw [isSha256, hlen, hall]
  rfl

variable {s : State F} {modelId : String} {unit : JobUnitOutcome} {group : List Str}

/-- A unit whose input and result are the worker's is read back whole. -/
theorem readUnit_worked (hin : s.inputs unit.inputRef = some input)
    (hchunks : parseChunks py input = .ok chunks)
    (hres : s.results (hexdigest payload) = some payload)
    (hpay : payload = encodePayload (chunks.map f.embed) modelId f.dims) :
    readUnit py s unit (hexdigest payload)
      = .ok (chunks, codes modelId.toList, f.dims, chunks.map f.embed) := by
  rw [readUnit, hin, parseTexts_of_parseChunks hchunks]
  dsimp only
  rw [if_neg (not_not_intro isSha256_hexdigest), hres]
  nth_rewrite 2 [hpay]
  rw [parsePayload_encodePayload]
  rfl

/-! ### The dictionary of chunks -/

/-- The chunk of a text and its vector. -/
def chunkOf (f : Embedder F) (text : Str) : IngestChunk F :=
  ⟨codes (hexdigest (utf8 (text.map ofNat))).toList, text, .obj [], f.embed text⟩

theorem encode_of_scalar (h : Scalar text) : encode text = some (utf8 (text.map ofNat)) := if_pos h

theorem mapM_ingestChunk (h : ∀ t ∈ group, Scalar t) :
    ((group.zip (group.map f.embed)).mapM fun p => ingestChunk p.1 p.2)
      = some (group.map (chunkOf f)) := by
  rw [mapM_eq_some]
  induction group with
  | nil => exact .nil
  | cons text group ih =>
    refine .cons ?_ (ih fun t ht => h t (mem_cons_of_mem _ ht))
    rw [ingestChunk, chunkId, encode_of_scalar (h text mem_cons_self)]
    rfl

/-- INVARIANT: the dictionary has the chunks of the texts that were seen, each once. -/
structure Indexed (f : Embedder F) (seen : List Str) (chunks : List (IngestChunk F)) : Prop where
  keyed : Table.Keyed (·.chunkId) chunks
  mem : ∀ c, c ∈ chunks ↔ ∃ t ∈ seen, c = chunkOf f t

theorem indexed_nil (f : Embedder F) : Indexed f [] [] := ⟨nodup_nil, by simp⟩

/-- The texts whose digests tell them apart. -/
def Distinguished (texts : List Str) : Prop :=
  ∀ t ∈ texts, ∀ t' ∈ texts, hexdigest (utf8 (t.map ofNat))
    = hexdigest (utf8 (t'.map ofNat)) → t = t'

theorem codes_injective (h : codes cs = codes ds) : cs = ds := by
  rw [← map_ofNat_codes cs, ← map_ofNat_codes ds, h]

variable {texts : List Str} {groups : List (List Str)} {dims : ℤ}

theorem Indexed.put {chunks : List (IngestChunk F)}
    (h : Indexed f seen chunks) (hd : Distinguished texts) (hseen : seen ⊆ texts)
    (ht : t ∈ texts) : Indexed f (seen ++ [t]) (putChunk chunks (chunkOf f t)) := by
  have hkeyed : Table.Keyed (·.chunkId) (putChunk chunks (chunkOf f t)) :=
    keyed_upsert (fun x hx => hx.symm) h.keyed
  -- one digest, one text: a chunk of the same id is the same chunk
  have hsame : ∀ t' ∈ texts, (chunkOf f t').chunkId = (chunkOf f t).chunkId → t' = t :=
    fun t' ht' hid => hd t' ht' t ht (String.toList_inj.1 (codes_injective hid))
  refine ⟨hkeyed, fun c => ?_⟩
  rw [← (get_eq_some hkeyed).trans (and_iff_left rfl), putChunk, get_upsert (fun x hx => hx.symm)]
  simp only [mem_append, mem_singleton]
  split
  · next hid =>
    have hget : ((Table.get (·.chunkId) chunks c.chunkId).map fun _ => chunkOf f t).getD (chunkOf f t)
        = chunkOf f t := by
      cases Table.get (·.chunkId) chunks c.chunkId with
      | none | some x => rfl
    rw [hget]
    constructor
    · intro hc
      exact ⟨t, .inr rfl, (Option.some.inj hc).symm⟩
    · rintro ⟨t', ht', rfl⟩
      have htexts : t' ∈ texts := ht'.elim (fun hs => hseen hs) fun he => he ▸ ht
      rw [hsame t' htexts hid]
  · next hid =>
    rw [get_eq_some h.keyed, and_iff_left rfl, h.mem]
    constructor
    · rintro ⟨t', ht', rfl⟩
      exact ⟨t', .inl ht', rfl⟩
    · rintro ⟨t', ht' | rfl, rfl⟩
      · exact ⟨t', ht', rfl⟩
      · exact absurd rfl hid

theorem Indexed.puts (hd : Distinguished texts) : ∀ {group seen : List Str}
    {chunks : List (IngestChunk F)}, Indexed f seen chunks → seen ⊆ texts → group ⊆ texts →
    Indexed f (seen ++ group) ((group.map (chunkOf f)).foldl putChunk chunks)
  | [], seen, chunks, h, _, _ => by
    rw [append_nil]
    exact h
  | t :: group, seen, chunks, h, hseen, hgroup => by
    obtain ⟨ht, hgroup⟩ := cons_subset.1 hgroup
    have hput := h.put hd hseen ht
    have hsub : seen ++ [t] ⊆ texts :=
      append_subset.2 ⟨hseen, cons_subset.2 ⟨ht, nil_subset _⟩⟩
    have hrest := Indexed.puts hd hput hsub hgroup
    rw [append_assoc] at hrest
    exact hrest

/-- One chunk for each distinct text. -/
theorem Indexed.perm {chunks : List (IngestChunk F)} (h : Indexed f texts chunks) :
    chunks.Perm (texts.dedup.map (chunkOf f)) := by
  have hinj : Function.Injective (chunkOf f) := fun t t' he => (Rag.Chunk.mk.inj he).2.1
  refine (perm_ext_iff_of_nodup (List.Nodup.of_map _ h.keyed)
    ((nodup_dedup texts).map hinj)).2 fun c => ?_
  rw [h.mem, mem_map]
  constructor
  · rintro ⟨t, ht, rfl⟩
    exact ⟨t, mem_dedup.2 ht, rfl⟩
  · rintro ⟨t, ht, rfl⟩
    exact ⟨t, mem_dedup.1 ht, rfl⟩

/-! ### The loop -/

/-- A unit that counts, with the texts it is about. -/
structure Reads (py : Python F) (f : Embedder F) (s : State F) (modelId : String)
    (unit : JobUnitOutcome) (group : List Str) : Prop where
  done : unit.state = .done
  status : unit.resultStatus = some .succeeded
  content : ∃ ref, unit.resultRef = some ref ∧
    readUnit py s unit ref = .ok (group, codes modelId.toList, f.dims, group.map f.embed)
  scalar : ∀ t ∈ group, Scalar t

theorem Reads.added (h : Reads py f s modelId unit group)
    (hdims : index.dims = none ∨ index.dims = some (f.dims : ℤ)) : addUnit py s modelId index unit
      = .ok ⟨(group.map (chunkOf f)).foldl putChunk index.chunks, some f.dims⟩ := by
  obtain ⟨ref, href, hread⟩ := h.content
  refine (addUnit_eq_ok py).2 (.read h.done ?_ href hread ?_ (mapM_ingestChunk h.scalar))
  · rw [h.status]
    nofun
  · rcases hdims with hdims | hdims
    · rw [hdims]
      rfl
    · rw [hdims]
      simp

/-- The loop of `_finalize` over units that all count. -/
theorem foldlM_reads (h : List.Forall₂ (Reads py f s modelId) units groups) :
    ∀ {index : Index F}, index.dims = none ∨ index.dims = some (f.dims : ℤ) →
      units.foldlM (addUnit py s modelId) index
        = .ok ⟨(groups.flatten.map (chunkOf f)).foldl putChunk index.chunks,
            if units = [] then index.dims else some f.dims⟩ := by
  induction h with
  | nil => intro index _; rfl
  | @cons unit group units groups hu hus ih =>
    intro index hdims
    rw [foldlM_cons, hu.added hdims]
    change units.foldlM (addUnit py s modelId) _ = _
    rw [ih (.inr rfl), flatten_cons, map_append, foldl_append, if_neg (cons_ne_nil unit units)]
    split
    · rfl
    · rfl

theorem collect_reads (h : List.Forall₂ (Reads py f s details.modelId) details.units groups)
    (hne : details.units ≠ []) : collect py s details
      = .ok ⟨(groups.flatten.map (chunkOf f)).foldl putChunk [], some f.dims⟩ := by
  rw [collect, foldlM_reads h (.inl rfl), if_neg hne]

/-! ### What an accepted result holds -/

/-- A result for `n` texts: the job's model, a positive dimension, and one row of that many finite
    numbers for each text. -/
def WellFormed (py : Python F) (modelId : String) (n : ℕ) (content : Bytes) : Prop :=
  ∃ v raw dims, loadsBytes py content = some v ∧
    item "model_id" v = some (.str (codes modelId.toList)) ∧
    item "dims" v = some (.int dims) ∧ 0 < dims ∧
    item "embeddings" v = some (.arr raw) ∧ raw.length = n ∧
    ∀ row ∈ raw, ∃ vs, row = .arr vs ∧ (vs.length : ℤ) = dims ∧
      ∀ x ∈ vs, isFiniteNumber x = some true

theorem finite_of_allFinite {vs : List (Value F)} (h : allFinite vs = some true) :
    ∀ v ∈ vs, isFiniteNumber v = some true := by
  induction vs with
  | nil => nofun
  | cons v vs ih =>
    rw [allFinite] at h
    split at h
    · cases h
    · cases h
    next hv =>
    intro x hx
    rcases mem_cons.1 hx with rfl | hx
    · exact hv
    · exact ih h x hx

theorem parseRow_eq_ok {row : Value F} (h : parseRow name dims row = .ok xs) :
    ∃ vs, row = .arr vs ∧ (vs.length : ℤ) = dims ∧ ∀ x ∈ vs, isFiniteNumber x = some true := by
  cases row with
  | arr vs =>
    rw [parseRow] at h
    split at h
    · cases h
    next hlen =>
    split at h
    · cases h
    · cases h
    · next hall => exact ⟨vs, rfl, not_not.1 hlen, finite_of_allFinite hall⟩
  | null | bool b | int n | float x | str s | obj ms => cases h

theorem parsePayload_eq_ok
    (h : parsePayload py name content n = .ok (codes modelId.toList, dims, rows)) :
    ∃ b, content = some b ∧ WellFormed py modelId n b := by
  rw [parsePayload] at h
  split at h
  · cases h
  next v hv =>
  split at h
  · next m d e hm hd he =>
    split at h
    · next modelId' dims' =>
      split at h
      · cases h
      next hpos =>
      split at h
      · next raw =>
        split at h
        · cases h
        next hlen =>
        obtain ⟨b, hb, hload⟩ := Option.bind_eq_some_iff.1 hv
        obtain ⟨rows', hrows, h⟩ := bind_ok h
        obtain ⟨hmodel, -⟩ := Prod.mk.inj (Except.ok.inj h)
        rw [hmodel] at hm
        refine ⟨b, hb, v, raw, dims', hload, hm, hd, Int.not_le.1 hpos, he, not_not.1 hlen, ?_⟩
        intro row hrow
        obtain ⟨xs, -, hxs⟩ := exists_of_forall₂ (mapM_eq_ok.1 hrows) row hrow
        exact parseRow_eq_ok hxs
      · cases h
    · cases h
  · cases h

end Fallow.Ingest

import Fallow.Lib.PyStr
import Fallow.Lib.Sha256
import Fallow.Queue.Store

/-! `app/chunker.py`, and the corpus file `app/rag_ingestion.py` writes for it.

    A corpus is one JSON object a line; the chunker reads the texts back, groups them and stores each
    group as a JSON array under the digest of its bytes. A unit's id is derived from the model and
    that digest alone, so a corpus that is submitted again has the same units.

        texts ──▶ lines ──▶ corpus file ──▶ texts ──▶ groups ──▶ blobs ──▶ unit specs
               dumps     "\n".join      splitlines  batched   dumps     sha256

    The main result of the module is the first half of the way: reading the corpus gives back the
    texts, whatever characters they contain. -/

namespace Fallow.Ingest
open Lib Lib.PyJson Lib.PyStr Queue List Char Sha256

/-- What the code takes from Python beside `json`: its decoders and `str`. -/
structure Python (F : Type) [PyFloat F] where
  /-- `Path.read_text(encoding="utf-8")`; `none` is a `UnicodeDecodeError`. -/
  readText : Bytes → Option Str
  /-- The text `json.loads` finds in bytes. -/
  jsonText : Bytes → Option (List Char)
  str : Value F → Str
  readText_utf8 : ∀ cs, '\r' ∉ cs → readText (utf8 cs) = some (codes cs)
  jsonText_utf8 : ∀ cs, Plain cs → jsonText (utf8 cs) = some cs
  str_str : ∀ s, str (.str s) = s

variable {F : Type} [PyFloat F] (py : Python F)

/-- `json.loads` of bytes. -/
def loadsBytes (content : Bytes) : Option (Value F) := (py.jsonText content).bind loads

/-- `value[key]` of a dict, whose last pair of a key counts. -/
def item (key : String) : Value F → Option (Value F)
  | .obj ms => ms.reverse.lookup (codes key.toList)
  | _ => none

/-! ### Units -/

def chunkerVersion : String := "1"

def seed (modelId inputHash : String) : Bytes := utf8 (modelId ++ chunkerVersion ++ inputHash).toList

def workUnitId (modelId inputHash : String) : String := hexdigest (seed modelId inputHash)

/-- The spec `_store_unit` returns. -/
def unitSpec (modelId : String) (idx : ℕ) (blob : Bytes) : WorkUnitSpec where
  workUnitId := workUnitId modelId (hexdigest blob)
  idx := idx
  inputRef := hexdigest blob
  estDurationS := none

def unitSpecs (modelId : String) (blobs : List Bytes) : List WorkUnitSpec :=
  blobs.mapIdx (unitSpec modelId)

/-! ### Splitting a payload -/

/-- What a `payload_ref` path is found to be; the files of a directory are in name order. -/
inductive Payload where
  | file (jsonl : Bool) (content : Bytes)
  | dir (files : List Bytes)
  | missing

inductive ChunkError where
  | unsupportedKind
  | emptyCorpus
  | notJsonl
  | missing
  | malformedLine (lineno : ℕ)
  | notDirectory
  | noFiles
  /-- the `UnicodeDecodeError` of `read_text`, which is no `ChunkError` -/
  | undecodable
  deriving DecidableEq

def lineTexts : (lineno : ℕ) → List Str → Except ChunkError (List Str)
  | _, [] => .ok []
  | lineno, line :: lines =>
    if strip line = [] then lineTexts (lineno + 1) lines
    else match (loads ((strip line).map ofNat)).bind (item "text") with
      | none => .error (.malformedLine lineno)
      | some v => (lineTexts (lineno + 1) lines).map (py.str v :: ·)

def readJsonlTexts (content : Bytes) : Except ChunkError (List Str) :=
  match py.readText content with
  | none => .error .undecodable
  | some text => lineTexts py 1 (splitLines text)

def loadEmbedTexts : Payload → Except ChunkError (List Str)
  | .file true content => readJsonlTexts py content
  | .file false _ => .error .notJsonl
  | .dir files => match files.mapM py.readText with
    | none => .error .undecodable
    | some texts => .ok texts
  | .missing => .error .missing

/-- `json.dumps(list(group)).encode("utf-8")`. -/
def groupBlob (F : Type) [PyFloat F] (group : List Str) : Bytes :=
  utf8 (render true (.arr (group.map .str) : Value F))

def chunkEmbed (chunksPerUnit : ℕ) (payload : Payload) : Except ChunkError (List Bytes) :=
  match loadEmbedTexts py payload with
  | .error e => .error e
  | .ok texts =>
    if texts = [] then .error .emptyCorpus
    else .ok ((batched chunksPerUnit texts).map (groupBlob F))

def chunkTranscribe : Payload → Except ChunkError (List Bytes)
  | .dir files => if files = [] then .error .noFiles else .ok files
  | _ => .error .notDirectory

/-- The inputs `chunk_job` stores, in order. -/
def chunkJob (chunksPerUnit : ℕ) (kind : WorkerKind) (payload : Payload) :
    Except ChunkError (List Bytes) :=
  match kind with
  | .embed => chunkEmbed py chunksPerUnit payload
  | .transcribe => chunkTranscribe payload
  | .chat => .error .unsupportedKind

/-! ### The corpus -/

/-- `_chunk_id`; `none` is a `UnicodeEncodeError`. -/
def chunkId (text : Str) : Option String := (encode text).map hexdigest

def corpusValue (F : Type) (id : String) (text : Str) : Value F :=
  .obj [(codes "id".toList, .str (codes id.toList)), (codes "text".toList, .str text)]

def corpusLine (F : Type) [PyFloat F] (text : Str) : Option (List Char) :=
  (chunkId text).map fun id => render false (corpusValue F id text)

/-- The bytes `_store_corpus` writes. -/
def corpusBytes (F : Type) [PyFloat F] (texts : List Str) : Option Bytes :=
  (texts.mapM (corpusLine F)).map fun lines => utf8 (join ['\n'] lines ++ ['\n'])

variable {text : Str}

theorem clean_corpusValue (id : String) (h : Scalar text) : Clean (corpusValue F id text) := by
  refine ⟨⟨scalar_codes, scalar_codes⟩, ⟨scalar_codes, h⟩, trivial⟩

theorem corpusLine_eq_some (h : corpusLine F text = some line) :
    Scalar text ∧ ∃ id, line = render false (corpusValue F id text) := by
  obtain ⟨id, hid, rfl⟩ := Option.map_eq_some_iff.1 h
  obtain ⟨b, hb, -⟩ := Option.map_eq_some_iff.1 hid
  exact ⟨scalar_of_encode hb, id, rfl⟩

/-- A line of the corpus is one JSON object, so `strip` finds nothing to take off. -/
theorem strip_corpusLine {id : String} : strip (codes (render false (corpusValue F id text)))
      = codes (render false (corpusValue F id text)) := by
  refine strip_of_ends (fun c hc => ?_) (fun c hc => ?_)
  · cases hc
    decide
  · rw [corpusValue, render, codes, map_cons, map_append, map_singleton,
      ← cons_append, List.getLast?_concat] at hc
    cases hc
    decide

theorem map_ofNat_codes (cs : List Char) : (codes cs).map ofNat = cs := by
  have hid : cs.map (ofNat ∘ toNat) = cs.map id :=
    map_congr_left fun c _ => ofNat_toNat c
  rw [codes, map_map, hid, map_id]

/-- One line of the corpus for each text. -/
def CorpusLines (F : Type) [PyFloat F] : List Str → List (List Char) → Prop :=
  List.Forall₂ fun text line => corpusLine F text = some line

variable {texts : List Str} {lines : List (List Char)} {content : Bytes} {modelId : String}
  {blobs : List Bytes}

theorem lineTexts_corpus (h : CorpusLines F texts lines)
    (lineno : ℕ) : lineTexts py lineno (lines.map codes) = .ok texts := by
  induction h generalizing lineno with
  | nil => rfl
  | @cons text line texts lines hline _ ih =>
    obtain ⟨hs, id, rfl⟩ := corpusLine_eq_some hline
    have hclean := clean_corpusValue (F := F) id hs
    rw [map_cons, lineTexts, strip_corpusLine, if_neg, map_ofNat_codes,
      loads_render false hclean, Option.bind_some]
    · change (lineTexts py (lineno + 1) (lines.map codes)).map (py.str (.str text) :: ·) = _
      rw [ih (lineno + 1), py.str_str]
      rfl
    · nofun

theorem plain_corpusLines (h : CorpusLines F texts lines) : ∀ l ∈ lines, Plain l := by
  induction h with
  | nil => nofun
  | cons hline _ ih =>
    obtain ⟨hs, id, rfl⟩ := corpusLine_eq_some hline
    intro l hl
    rcases mem_cons.1 hl with rfl | hl
    · exact plain_render (clean_corpusValue id hs)
    · exact ih l hl

theorem not_lineBreak_of_plain (h : Plain cs) : ∀ c ∈ codes cs, isLineBreak c = false := by
  intro c hc
  obtain ⟨d, hd, rfl⟩ := mem_map.1 hc
  obtain ⟨hlo, hhi⟩ := h d hd
  have hbreak : ∀ n, 32 ≤ n → n < 127 → isLineBreak n = false := by decide
  exact hbreak d.toNat hlo hhi

theorem splitLines_join : ∀ {lines : List (List Char)}, lines ≠ [] → (∀ l ∈ lines, Plain l) →
    splitLines (codes (join ['\n'] lines ++ ['\n'])) = lines.map codes
  | [l], _, h => by
    rw [join, codes, map_append, map_singleton]
    exact splitLines_line (not_lineBreak_of_plain (h l mem_cons_self))
  | l :: l' :: lines, _, h => by
    have ih := splitLines_join (cons_ne_nil l' lines) fun x hx => h x (mem_cons_of_mem _ hx)
    rw [join, append_assoc, append_assoc, codes, map_append, map_append, map_singleton]
    rw [map_cons, ← ih]
    exact splitLines_line (not_lineBreak_of_plain (h l mem_cons_self))

/-- CORRECT: the texts of a corpus read back, whatever they contain. -/
theorem readJsonlTexts_corpus (hne : texts ≠ [])
    (h : corpusBytes F texts = some content) : readJsonlTexts py content = .ok texts := by
  obtain ⟨lines, hlines, rfl⟩ := Option.map_eq_some_iff.1 h
  have hall : CorpusLines F texts lines := mapM_eq_some.1 hlines
  have hplain := plain_corpusLines hall
  have hlines : lines ≠ [] := by
    rintro rfl
    exact hne (forall₂_nil_right_iff.1 hall)
  have hcr : '\r' ∉ join ['\n'] lines ++ ['\n'] := by
    intro hmem
    rcases mem_append.1 hmem with hmem | hmem
    · obtain ⟨l, hl, hr⟩ := mem_join (by decide) hmem
      exact absurd (hplain l hl _ hr) (by decide)
    · exact absurd hmem (by decide)
  rw [readJsonlTexts, py.readText_utf8 _ hcr]
  dsimp only
  rw [splitLines_join hlines hplain, lineTexts_corpus py hall 1]

theorem chunkEmbed_corpus (hne : texts ≠ []) (h : corpusBytes F texts = some content) :
    chunkEmbed py chunksPerUnit (.file true content)
      = .ok ((batched chunksPerUnit texts).map (groupBlob F)) := by
  rw [chunkEmbed, loadEmbedTexts, readJsonlTexts_corpus py hne h]
  exact if_neg hne

/-! ### Reading a stored group -/

theorem clean_group {group : List Str} (h : ∀ t ∈ group, Scalar t) :
    Clean (.arr (group.map .str) : Value F) := by
  refine (cleanAll_iff _).2 fun v hv => ?_
  obtain ⟨t, ht, rfl⟩ := mem_map.1 hv
  exact h t ht

theorem loadsBytes_render (spaced : Bool) (h : Clean v) :
    loadsBytes py (utf8 (render spaced v)) = some v := by
  rw [loadsBytes, py.jsonText_utf8 _ (plain_render h), Option.bind_some, loads_render spaced h]

/-! ### Unit ids -/

/-- The digest has a fixed length, so model and digest can be told apart in the seed. -/
theorem seed_injective
    (h : seed m (hexdigest b) = seed m' (hexdigest b')) : m = m' ∧ hexdigest b = hexdigest b' := by
  have hs := utf8_injective h
  rw [String.toList_append, String.toList_append, String.toList_append, String.toList_append] at hs
  obtain ⟨hm, hd⟩ := append_inj' hs (by rw [length_hexdigest, length_hexdigest])
  exact ⟨String.toList_inj.1 (append_cancel_right hm), String.toList_inj.1 hd⟩

theorem mem_unitSpecs :
    spec ∈ unitSpecs modelId blobs → ∃ blob ∈ blobs, ∃ idx, spec = unitSpec modelId idx blob := by
  intro h
  obtain ⟨i, hi, rfl⟩ := mem_mapIdx.1 h
  exact ⟨blobs[i], getElem_mem hi, i, rfl⟩

theorem exists_unitSpec (h : blob ∈ blobs) :
    ∃ idx, unitSpec modelId idx blob ∈ unitSpecs modelId blobs := by
  obtain ⟨i, hi, rfl⟩ := getElem_of_mem h
  exact ⟨i, mem_mapIdx.2 ⟨i, hi, rfl⟩⟩

end Fallow.Ingest

import Fallow.Ingest.EndToEnd

/-! Names of units and of their input files (`app/chunker.py`).

    A unit's id stands for its model and its input: the digest at the end of the seed has a fixed
    length, so the two can be told apart. The kind of the job is not in the seed.

        id = sha256(model_id ‖ "1" ‖ sha256(input))

    An input file is written in place, and left alone where its name is taken. A call that is cut
    short in a write leaves part of an input under the name of the whole, for every later call. -/

namespace Fallow.Ingest
open Lib Lib.PyJson Lib.PyStr Queue List Function Content Sha256

/-! ### Ids -/

section
variable {F : Type} [PyFloat F] (py : Python F)

/-- `chunk_job` returns `spec` for a job, and stores `blob` for it. -/
def Chunked (chunksPerUnit : ℕ) (job : JobSubmit) (payload : Payload) (blob : Bytes)
    (spec : WorkUnitSpec) : Prop :=
  ∃ blobs idx, chunkJob py chunksPerUnit job.kind payload = .ok blobs ∧
    blobs[idx]? = some blob ∧ spec = unitSpec job.modelId idx blob

end

/-! ### A transcription and an embedding with one id -/

def embedHi : JobSubmit := ⟨.embed, "model", "corpus", [], 0⟩

def transcribeHi : JobSubmit := ⟨.transcribe, "model", "audio", [], 0⟩

def hiBlob : Bytes := groupBlob ℤ [hi]

def hiSpec : WorkUnitSpec := unitSpec "model" 0 hiBlob

theorem chunked_embedHi : Chunked wholePython 2 embedHi (.file true hiCorpus) hiBlob hiSpec :=
  ⟨_, 0, chunkEmbed_corpus wholePython (by decide) fitting_hi.corpus, rfl, rfl⟩

/-- Audio whose bytes happen to be a JSON array. -/
theorem chunked_transcribeHi : Chunked wholePython 2 transcribeHi (.dir [hiBlob]) hiBlob hiSpec :=
  ⟨_, 0, rfl, rfl, rfl⟩

/-- A call of `chunk_job`. A crash cuts it short when some units are stored; of the next input
    nothing is written then, or some part. -/
structure Call where
  chunksPerUnit : ℕ := 2
  job : JobSubmit
  payload : Payload
  cut : Option (ℕ × Option Bytes) := none

section
variable {F : Type} [PyFloat F] (py : Python F)

def Call.blobs (c : Call) : Except ChunkError (List Bytes) :=
  chunkJob py c.chunksPerUnit c.job.kind c.payload

/-- The loop over `_store_unit`; a call that raises has stored nothing. -/
def storeInputs (d : Content.Dir String Bytes) (c : Call) : Content.Dir String Bytes :=
  match c.blobs py, c.cut with
  | .error _, _ => d
  | .ok blobs, none => blobs.foldl (put hexdigest) d
  | .ok blobs, some (stored, part) =>
    let d := (blobs.take stored).foldl (put hexdigest) d
    match blobs[stored]?, part with
    | some blob, some part =>
      if (d (hexdigest blob)).isSome ∨ ¬ part <+: blob then d
      else update d (hexdigest blob) (some part)
    | _, _ => d

/-- Whatever is left of an input is all of it. -/
def Call.Whole (c : Call) : Prop :=
  ∀ stored part, c.cut = some (stored, some part) →
    ∀ blobs, c.blobs py = .ok blobs → blobs[stored]? = some part

/-- INVARIANT: files are named by the digests of their contents. -/
def Named (d : Content.Dir String Bytes) : Prop :=
  ∃ hashed, Content.Addressed hexdigest hashed d

variable {d : Content.Dir String Bytes} {c : Call}

theorem Named.puts (h : Named d) (blobs : List Bytes) : Named (blobs.foldl (put hexdigest) d) := by
  obtain ⟨hashed, h⟩ := h
  exact ⟨hashed ++ blobs, (h.mono (subset_append_left ..)).puts blobs
    fun _ hb => mem_append_right _ hb⟩

theorem Named.storeInputs (h : Named d) (hw : c.Whole py) : Named (storeInputs py d c) := by
  rw [Ingest.storeInputs]
  split
  · exact h
  · exact h.puts _
  next blobs stored part hb hcut =>
  have hstored := h.puts (blobs.take stored)
  dsimp only
  split
  · next blob part hget =>
    split
    · exact hstored
    next hfree =>
    obtain rfl : blob = part := by
      have hall := hw stored part hcut blobs hb
      rw [hget] at hall
      exact Option.some.inj hall
    have hput := hstored.puts [blob]
    rwa [foldl_cons, foldl_nil, put, if_neg (not_or.1 hfree).1] at hput
  · exact hstored

end

def transcribeCall : Call := { job := transcribeHi, payload := .dir [hiBlob] }

end Fallow.Ingest

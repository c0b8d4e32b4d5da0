import Fallow.ModelCache.Store

/-! What one download leaves behind, wherever it is cut.

    Until the verified part is published, a download writes one file: the part. `Streamed` says so at
    both ends of an attempt, and for an attempt that returns it ties the result to the bytes on disk:
    the running hash was fed exactly what the part holds, seed included.

        seed (rehash)     206: append        chunk        chunk
      b ─────────────▶ b ─────────────▶ b ─────────▶ b++w ────────▶ ⋯   result = (sha256, length)
                         200: empty    [] ─────────▶  w   ────────▶ ⋯

    What the part may hold meanwhile is a parameter `P`: any bytes when nothing is known of the
    coordinator, a stretch from the start of the blob when it serves one. -/

namespace Fallow.ModelCache
open Lib Crash Function List

variable {may : Cmd → Fs → Env → Prop} {I : Option Cmd → Fs → Prop}

/-! ### Commands -/

variable {fs : Fs} {op : Op} {R : Type}

/-- An operation, by what it can do to the disk. -/
theorem safe_orRaise (hI : I (some (.disk op)) fs)
    (h : ∀ v, may (.disk op) fs v → (∃ t, op.run v fs = (true, t) ∧ Q (.ok ()) t) ∨
      ∃ t, op.run v fs = (false, t) ∧ Q (.error .os) t) : Safe sem may I Q (orRaise op) fs := by
  refine .perform hI fun v hv => ?_
  simp only [sem]
  rcases h v hv with ⟨t, hr, hq⟩ | ⟨t, hr, hq⟩
  · simp only [hr, if_true]
    exact hq
  · simp only [hr, Bool.false_eq_true, if_false]
    exact hq

/-- The same in front of the rest of a program. -/
theorem safe_orRaise_then (hI : I (some (.disk op)) fs)
    (h : ∀ v, may (.disk op) fs v → (∃ t, op.run v fs = (true, t) ∧ Safe sem may I Q (f ()) t) ∨
      ∃ t, op.run v fs = (false, t) ∧ Q (.error .os) t) :
    Safe sem may I Q (orRaise op >>= f) fs := by
  refine .bind (P := fun r t => match r with
    | .ok _ => Safe sem may I Q (f ()) t
    | .error e => Q (.error e) t) ?_ ?_ (safe_orRaise hI h)
  · rintro _ t ht
    exact ht
  · rintro e t ht
    exact ht

variable {p : Path} {v : Env} {blockSize : ℕ}

theorem exec_isFile :
    (isFile p >>= f).exec sem v fs = (f (fs p).isSome).exec sem v fs := rfl

theorem exec_readFile :
    (readFile p >>= f).exec sem v fs = (f (if v.fails = none then fs p else none)).exec sem v fs := rfl

theorem exec_httpGet {range : Option String} :
    (httpGet modelId range >>= f).exec sem v fs = (f (v.answer modelId range)).exec sem v fs := rfl

theorem looks_isFile : Looks sem (isFile p) := ⟨fun _ _ => rfl, fun _ => trivial⟩

theorem looks_readFile : Looks sem (readFile p) := ⟨fun _ _ => rfl, fun _ => trivial⟩

/-! ### Seeding -/

theorem feedBlocks_eq (hpos : 0 < blockSize) : ∀ (turns : ℕ) (rest : Bytes)
    (hasher : Hasher) (size : ℕ), rest.length ≤ turns →
      feedBlocks blockSize turns rest hasher size = (hasher.update rest, size + rest.length)
  | 0, rest, hasher, size, h => by
    obtain rfl : rest = [] := length_eq_zero_iff.mp (by omega)
    simp [feedBlocks, Hasher.update]
  | turns + 1, rest, hasher, size, h => by
    rw [feedBlocks]
    split
    · next hnil =>
      obtain rfl : rest = [] := by
        rcases take_eq_nil_iff.mp hnil with h0 | h0
        · omega
        · exact h0
      simp [Hasher.update]
    · next b bs hblock =>
      have hlen := congrArg List.length (take_append_drop blockSize rest)
      rw [hblock, length_append, length_cons] at hlen
      rw [feedBlocks_eq hpos turns (rest.drop blockSize) _ _ (by omega), ← hblock]
      simp only [Hasher.update, append_assoc, take_append_drop, Nat.add_assoc, ← length_append]

/-- CORRECT: the seed is the part as it lies on disk. -/
theorem safe_seedFromExisting (hpos : 0 < blockSize) (hI : ∀ c, I c fs) :
    Safe sem may I (fun r t => t = fs ∧ ∀ seeded, r = .ok seeded →
        seeded = (⟨(fs part).getD []⟩, ((fs part).getD []).length))
      (seedFromExisting {} part blockSize) fs := by
  refine .perform (hI _) fun _ _ => ?_
  change Safe sem may I _ (if (fs part).isSome then _ else _) fs
  rcases hp : fs part with _ | bs
  · exact ⟨rfl, fun seeded h => (Except.ok.inj h).symm⟩
  refine .perform (hI _) fun v _ => ?_
  by_cases hv : v.fails = none
  · simp only [sem, if_pos hv, hp]
    refine ⟨rfl, fun seeded h => (Except.ok.inj h).symm.trans ?_⟩
    rw [feedBlocks_eq hpos _ _ _ _ (Nat.le_refl _)]
    simp [Hasher.update]
  · simp only [sem, if_neg hv]
    exact ⟨rfl, fun seeded h => absurd h (by simp)⟩

/-! ### The body -/

/-- FRAME: only the part differs from `fs₀`. -/
def PartIs (fs₀ : Fs) (part : Path) (P : Option Bytes → Prop) (fs : Fs) : Prop :=
  ∃ b, P b ∧ fs = update fs₀ part b

/-- However much of the body is written behind `b`, or from the start, the part meets `P`. -/
def Feeds (P : Option Bytes → Prop) (b : Bytes) : Response → Prop
  | .refused => True
  | .answered statusCode chunks _ =>
    (statusCode = 206 → ∀ w, w <+: chunks.flatten → P (some (b ++ w))) ∧
    (statusCode = 200 → ∀ w, w <+: chunks.flatten → P (some w))

/-- The loop's hash and count are those of the part. -/
def Fed (fs₀ : Fs) (part : Path) (P : Option Bytes → Prop) :
    Except Error (Hasher × ℕ) → Fs → Prop
  | .ok fed, fs => ∃ b, P (some b) ∧ fs = update fs₀ part (some b) ∧ fed = (⟨b⟩, b.length)
  | .error _, fs => PartIs fs₀ part P fs

section
variable {fs₀ : Fs} {part : Path} {P : Option Bytes → Prop}

variable {fs : Fs} {r : Except Error (Hasher × ℕ)} {agent : Agent} {chunks : List Bytes}
  {whole : Bool}

theorem Fed.partIs (h : Fed fs₀ part P r fs) : PartIs fs₀ part P fs := by
  rcases r with e | fed
  · exact h
  · obtain ⟨b, hb, hfs, -⟩ := h
    exact ⟨some b, hb, hfs⟩

variable (hI : ∀ c fs, PartIs fs₀ part P fs → I c fs)
include hI

theorem safe_streamChunks (whole : Bool) :
    ∀ (chunks : List Bytes) (b : Bytes), (∀ w, w <+: chunks.flatten → P (some (b ++ w))) →
      Safe sem may I (Fed fs₀ part P) (streamChunks part whole chunks ⟨b⟩ b.length)
        (update fs₀ part (some b))
  | [], b, h => by
    have hb : P (some b) := by simpa using h [] nil_prefix
    cases whole with
    | false => exact ⟨some b, hb, rfl⟩
    | true => exact ⟨b, hb, rfl, rfl⟩
  | chunk :: chunks, b, h => by
    have hb : P (some b) := by simpa using h [] nil_prefix
    refine safe_orRaise_then (hI _ _ ⟨_, hb, rfl⟩) fun v _ => ?_
    rcases run_append v (update fs₀ part (some b)) part chunk with hr | ⟨w, hw, hr⟩
    · refine .inl ⟨_, hr, ?_⟩
      have ih := safe_streamChunks whole chunks (b ++ chunk) fun w hw => by
        rw [append_assoc]
        exact h _ (prefix_append_right_inj chunk |>.mpr hw)
      rw [length_append] at ih
      rwa [update_self, update_idem]
    · refine .inr ⟨_, hr, ?_⟩
      rw [update_self, update_idem]
      exact ⟨_, h w (hw.trans (prefix_append chunk _)), rfl⟩

theorem safe_closing (h : Fed fs₀ part P r fs) :
    Safe sem may I (Fed fs₀ part P) (closing agent r) fs := by
  refine .perform (hI _ _ h.partIs) fun v _ => ?_
  rcases r with e | fed
  · exact .ite (fun _ => h) fun _ => h
  · exact .ite (fun _ => h) fun _ => h.partIs

/-! ### One attempt -/

/-- What an attempt leaves. -/
def Streamed (fs₀ : Fs) (part : Path) (P : Option Bytes → Prop) :
    Except Error DownloadResult → Fs → Prop
  | .ok result, fs => ∃ b, P (some b) ∧ fs = update fs₀ part (some b) ∧
      result = ⟨Sha256.hexdigest b, b.length⟩
  | .error _, fs => PartIs fs₀ part P fs

theorem safe_writeBody (agent : Agent) (h : PartIs fs₀ part P fs)
    (hopen : ∀ v, mode.run v fs = (true, update fs₀ part (some b)) ∨ mode.run v fs = (false, fs))
    (hf : ∀ w, w <+: chunks.flatten → P (some (b ++ w))) : Safe sem may I (Streamed fs₀ part P)
      (writeBody agent part mode chunks whole ⟨b⟩ b.length) fs := by
  refine safe_orRaise_then (hI _ _ h) fun v _ => ?_
  rcases hopen v with hr | hr
  · refine .inl ⟨_, hr, ?_⟩
    refine .attempt (fun fed t ht => ?_) (safe_streamChunks hI whole chunks b hf)
    refine .bind ?_ ?_ (safe_closing hI ht)
    · rintro ⟨hasher, total⟩ u ⟨b', hb', rfl, hfed⟩
      cases hfed
      exact ⟨b', hb', rfl, rfl⟩
    · rintro e u hu
      exact hu
  · exact .inr ⟨_, hr, h⟩

theorem safe_answered (h : PartIs fs₀ part P fs)
    (hf : Feeds P ((fs part).getD []) (.answered statusCode chunks whole)) :
    Safe sem may I (Streamed fs₀ part P) (do
      let (append, total) ← resolveDisposition statusCode ((fs part).getD []).length
      writeBody agent part (if append then .openAppend part else .create part) chunks whole
        (if append then ⟨(fs part).getD []⟩ else {}) total) fs := by
  have hup : ∀ b, update fs part b = update fs₀ part b := by
    obtain ⟨b₀, -, rfl⟩ := h
    exact fun b => update_idem ..
  by_cases h206 : statusCode = 206
  · simp only [resolveDisposition, if_pos h206]
    refine safe_writeBody hI agent h (fun v => ?_) (hf.1 h206)
    rw [← hup]
    exact run_openAppend v fs part
  · by_cases h200 : statusCode = 200
    · simp only [resolveDisposition, if_neg h206, if_pos h200]
      refine safe_writeBody (b := []) hI agent h (fun v => ?_) (hf.2 h200)
      rw [← hup]
      exact run_create v fs part
    · simp only [resolveDisposition, if_neg h206, if_neg h200]
      exact h

variable {modelId : String} (st : Store)
  (hfeed : ∀ fs v, P (fs part) → may (.get modelId (rangeFor ((fs part).getD []).length)) fs v →
    Feeds P ((fs part).getD []) (v.answer modelId (rangeFor ((fs part).getD []).length)))
include hfeed

/-- INVARIANT: an attempt writes the part only, keeps it within `P`, and reports what it holds. -/
theorem safe_streamToPart (h : PartIs fs₀ part P fs) :
    Safe sem may I (Streamed fs₀ part P) (streamToPart st modelId part) fs := by
  have hP : P (fs part) := by
    obtain ⟨b, hb, rfl⟩ := h
    rwa [update_self]
  refine .bind ?_ ?_ (safe_seedFromExisting st.chunkSize_pos fun c => hI c _ h)
  · rintro seeded t ⟨rfl, hseed⟩
    obtain rfl := hseed seeded rfl
    refine .perform (hI _ _ h) fun v hv => ?_
    have hf := hfeed t v hP hv
    simp only [sem]
    cases hresp : v.answer modelId (rangeFor ((t part).getD []).length) with
    | refused => exact h
    | answered statusCode chunks whole =>
      rw [hresp] at hf
      exact safe_answered hI h hf
  · rintro e t ⟨rfl, -⟩
    exact h

theorem safe_retryLoop : ∀ (left attempt : ℕ) {fs : Fs}, PartIs fs₀ part P fs →
    Safe sem may I (Streamed fs₀ part P) (retryLoop st modelId part left attempt) fs := by
  intro left
  induction left with
  | zero =>
    intro attempt fs h
    rw [retryLoop]
    refine .attempt (fun r t ht => ?_) (safe_streamToPart hI st hfeed h)
    rcases r with e | result
    · exact .ite (fun _ => ht) fun _ => ht
    · exact ht
  | succ left ih =>
    intro attempt fs h
    rw [retryLoop]
    refine .attempt (fun r t ht => ?_) (safe_streamToPart hI st hfeed h)
    rcases r with e | result
    · refine .ite (fun _ => ?_) fun _ => ht
      exact .perform (hI _ _ ht) fun _ _ => ih (attempt + 1) ht
    · exact ht

/-- INVARIANT: so do all attempts of a call together. -/
theorem safe_fetchWithRetries (h : PartIs fs₀ part P fs) :
    Safe sem may I (Streamed fs₀ part P) (st.fetchWithRetries modelId part) fs :=
  safe_retryLoop hI st hfeed st.maxRetries 0 h

end

end Fallow.ModelCache

import Fallow.ModelCache.Trust
import Fallow.ModelServe.Blob

/-! Whether an interrupted download can be taken up again.

    The agent asks for what is missing behind the part, the coordinator serves it:

        part: n bytes     asks             is served           part afterwards
        n = 0             (no Range)       200, the blob       a stretch from the start
        0 < n < size      bytes=n-         206, from n on      n bytes and what follows them
        n = size          bytes=size-      416                 as it was

    So the part always is a stretch from the start of the blob, and a part with something missing is
    completed by the first undisturbed attempt. A part with nothing missing is what a kill between
    the last byte and the rename leaves: there is no range to ask for, 416 counts as an error to
    retry, and nothing ever looks at the part again (`complete_part_stuck`). -/

namespace Fallow.ModelCache
open Lib Crash ModelServe Function List Option Prog Sha256

/-! ### The coordinator during an interrupted download -/

/-- The manifest describes the file. -/
structure ModelManifest.Describes (m : ModelManifest) (file : BlobFile) : Prop where
  sha256 : m.sha256 = hexdigest file.bytes
  size : m.sizeBytes = file.size

/-- What arrives of an answer: nothing, an error status, or the answer up to some byte. -/
def Arrives (served : Served) : Response → Prop
  | .refused => True
  | .answered statusCode chunks whole =>
    (statusCode ≠ 200 ∧ statusCode ≠ 206) ∨
    statusCode = served.status ∧ chunks.flatten <+: served.body.flatten ∧
      (whole = true → chunks.flatten = served.body.flatten)

/-- Every answer arrives as a whole, in some pieces, and the disk works. -/
structure Honest (registry : String → Option ModelRecord) (modelId : String) (v : Env) : Prop where
  disk : v.fails = none
  answer : ∀ range, ∃ chunks,
    v.answer modelId range = .answered (getBlob registry modelId range).status chunks true ∧
      chunks.flatten = (getBlob registry modelId range).body.flatten

/-- Calls for one manifest, by either agent, each cut or killed anywhere. -/
def Interrupted (registry : String → Option ModelRecord) (cacheDir : String) (m : ModelManifest) :
    Host → Act → Prop :=
  Allowed (fun _ _ v => ∀ range, Arrives (getBlob registry m.modelId range) (v.answer m.modelId range))
    (fun _ _ => True) fun j => j.1.cacheDir = cacheDir ∧ j.2 = m

/-! ### The invariant -/

/-- The part is a stretch from the start of the file; a blob is the file and is marked so. -/
structure Resumable (blob : Path) (m : ModelManifest) (file : BlobFile) (fs : Fs) : Prop where
  part : (fs (blob ++ ".part")).getD [] <+: file.bytes
  blob : ∀ b, fs blob = some b →
    b = file.bytes ∧ fs (blob ++ ".sha256") = some (encodeAscii m.sha256)

variable {registry : String → Option ModelRecord} {modelId : String} {m : ModelManifest}
  {file : BlobFile} {blob part : Path} {fs t : Fs} {b : Bytes} {v : Env} {st : Store} {agent : Agent}

section
variable (h : Resumable blob m file fs)
include h

theorem Resumable.partIs (ht : PartIs fs (blob ++ ".part") (fun b => b.getD [] <+: file.bytes) t) :
    Resumable blob m file t := by
  obtain ⟨b, hb, rfl⟩ := ht
  refine ⟨by rwa [update_self], fun c hc => ?_⟩
  rw [update_of_ne (part_ne_blob blob).symm] at hc
  rw [update_of_ne (marker_ne_part blob)]
  exact h.blob c hc

theorem Resumable.tmp
    (ht : PartIs fs (blob ++ ".sha256" ++ ".tmp") (fun _ => True) t) : Resumable blob m file t := by
  obtain ⟨b, -, rfl⟩ := ht
  refine ⟨?_, fun c hc => ?_⟩
  · rw [update_of_ne (tmp_ne_part blob).symm]
    exact h.part
  · rw [update_of_ne (tmp_ne_blob blob).symm] at hc
    rw [update_of_ne (tmp_ne_marker blob).symm]
    exact h.blob c hc

theorem Resumable.marker : Resumable blob m file
      (update fs (blob ++ ".sha256") (some (encodeAscii m.sha256))) := by
  refine ⟨?_, fun c hc => ⟨?_, update_self ..⟩⟩
  · rw [update_of_ne (marker_ne_part blob).symm]
    exact h.part
  · rw [update_of_ne (marker_ne_blob blob).symm] at hc
    exact (h.blob c hc).1

end

theorem Resumable.publish (hm : fs (blob ++ ".sha256") = some (encodeAscii m.sha256)) :
    Resumable blob m file (update (update fs (blob ++ ".part") none) blob (some file.bytes)) := by
  refine ⟨?_, fun c hc => ⟨?_, ?_⟩⟩
  · rw [update_of_ne (part_ne_blob blob), update_self]
    exact nil_prefix
  · rw [update_self] at hc
    exact (some.inj hc).symm
  · rw [update_of_ne (marker_ne_blob blob), update_of_ne (marker_ne_part blob), hm]

/-! ### What is served fits behind the part -/

section
variable (hreg : registry modelId = some ⟨true, some file⟩)
include hreg

/-- The three answers to a request for what is missing behind `b`. -/
theorem served_behind (hb : b <+: file.bytes) :
    (b = [] ∧ (getBlob registry modelId (rangeFor b.length)).status = 200 ∧
      (getBlob registry modelId (rangeFor b.length)).body.flatten = file.bytes) ∨
    (b ≠ [] ∧ b.length < file.size ∧ (getBlob registry modelId (rangeFor b.length)).status = 206 ∧
      b ++ (getBlob registry modelId (rangeFor b.length)).body.flatten = file.bytes) ∨
    (b ≠ [] ∧ b = file.bytes ∧ (getBlob registry modelId (rangeFor b.length)).status = 416) := by
  by_cases hnil : b = []
  · subst hnil
    exact .inl ⟨rfl, getBlob_whole hreg⟩
  · have hrange : rangeFor b.length = some (openRange b.length) :=
      if_neg fun h => hnil (length_eq_zero_iff.mp h)
    have hle : b.length ≤ file.size := hb.length_le
    rw [hrange]
    by_cases hlt : b.length < file.size
    · obtain ⟨h206, hrest⟩ := getBlob_rest hreg hlt
      refine .inr (.inl ⟨hnil, hlt, h206, ?_⟩)
      rw [hrest]
      exact prefix_iff_eq_append.mp hb
    · have heq : b = file.bytes := hb.eq_of_length_le (Nat.le_of_not_lt hlt)
      exact .inr (.inr ⟨hnil, heq,
        getBlob_past hreg (Nat.lt_of_le_of_lt hle file.size_lt) (Nat.le_of_not_lt hlt)⟩)

/-- INVARIANT: whatever arrives keeps the part a stretch from the start of the file. -/
theorem feeds_arrives (hb : b <+: file.bytes)
    (hr : Arrives (getBlob registry modelId (rangeFor b.length)) r) :
    Feeds (fun b => b.getD [] <+: file.bytes) b r := by
  cases r with
  | refused => trivial
  | answered statusCode chunks whole =>
    rcases hr with ⟨h200, h206⟩ | ⟨rfl, hchunks, -⟩
    · exact ⟨fun h => absurd h h206, fun h => absurd h h200⟩
    rcases served_behind hreg hb with ⟨-, hs, hbody⟩ | ⟨-, -, hs, hbody⟩ | ⟨-, -, hs⟩
    · refine ⟨fun h => absurd (hs.symm.trans h) (by decide), fun _ w hw => ?_⟩
      exact hbody ▸ hw.trans hchunks
    · refine ⟨fun _ w hw => ?_, fun h => absurd (hs.symm.trans h) (by decide)⟩
      rw [← hbody]
      exact (prefix_append_right_inj b).mpr (hw.trans hchunks)
    · exact ⟨fun h => absurd (hs.symm.trans h) (by decide),
        fun h => absurd (hs.symm.trans h) (by decide)⟩

end

/-! ### One call, cut anywhere -/

section
variable {may : Cmd → Fs → Env → Prop}

theorem safe_resumeVerify (hm : m.Describes file)
    (h : Resumable blob m file (update fs (blob ++ ".part") (some b))) :
    Safe sem may (fun _ => Resumable blob m file) (fun r t => Resumable blob m file t ∧
        ((∃ u, r = .ok u) → t (blob ++ ".part") = some file.bytes))
      (verifyOrRaise agent m (blob ++ ".part") ⟨hexdigest b, b.length⟩)
      (update fs (blob ++ ".part") (some b)) := by
  have hpart := h.part
  rw [update_self] at hpart
  refine .ite (fun hv => ⟨h, fun _ => ?_⟩) fun _ => ?_
  · -- a stretch as long as the file is the file, whatever the hash
    rw [update_self]
    exact congrArg some (hpart.eq_of_length (hv.2.trans hm.size))
  · refine .perform h fun v _ => ?_
    have ht : Resumable blob m file
        ((Op.unlink (blob ++ ".part")).run v (update fs (blob ++ ".part") (some b))).2 := by
      rcases run_unlink v (update fs (blob ++ ".part") (some b)) (blob ++ ".part") with
        hr | hr <;> rw [hr]
      · exact h.partIs ⟨none, nil_prefix, rfl⟩
      · exact h
    exact .ite (fun _ => ⟨ht, fun ⟨_, hu⟩ => by cases hu⟩) fun _ => ⟨ht, fun ⟨_, hu⟩ => by cases hu⟩

theorem safe_resumePublish (h : Resumable blob m file fs)
    (hb : fs (blob ++ ".part") = some file.bytes) :
    Safe sem may (fun _ => Resumable blob m file) (fun _ t => Resumable blob m file t) (do
      writeMarkerAtomic (blob ++ ".sha256") m.sha256
      orRaise (.rename (blob ++ ".part") blob)
      pure blob) fs := by
  refine .bind ?_ ?_ (safe_writeMarkerAtomic fun _ _ ht => h.tmp ht)
  · rintro _ t rfl
    have hpart : update (update fs (blob ++ ".sha256" ++ ".tmp") none)
        (blob ++ ".sha256") (some (encodeAscii m.sha256)) (blob ++ ".part") = some file.bytes := by
      rw [update_of_ne (marker_ne_part _).symm, update_of_ne (tmp_ne_part _).symm, hb]
    have hmarked : Resumable blob m file (update (update fs
        (blob ++ ".sha256" ++ ".tmp") none) (blob ++ ".sha256") (some (encodeAscii m.sha256))) :=
      (h.tmp ⟨none, trivial, rfl⟩).marker
    refine safe_orRaise_then hmarked fun v _ => ?_
    rcases run_rename v _ (blob ++ ".part") blob with ⟨-, b, hb', hr⟩ | ⟨-, hr⟩
    · obtain rfl : file.bytes = b := mem_unique hpart hb'
      exact .inl ⟨_, hr, .publish (update_self ..)⟩
    · exact .inr ⟨_, hr, hmarked⟩
  · rintro e t ht
    exact h.tmp ht

/-- INVARIANT: a call, cut anywhere, leaves a stretch from the start of the file. -/
theorem safe_resumeEnsure (hreg : registry m.modelId = some ⟨true, some file⟩)
    (hm : m.Describes file) (hblob : blobPath st.cacheDir m = blob) (h : Resumable blob m file fs) :
    Safe sem (fun _ _ v => ∀ range,
        Arrives (getBlob registry m.modelId range) (v.answer m.modelId range))
      (fun _ => Resumable blob m file) (fun _ t => Resumable blob m file t) (st.ensure m) fs := by
  have hself : PartIs fs (blob ++ ".part") (fun b => b.getD [] <+: file.bytes) fs :=
    ⟨fs (blob ++ ".part"), h.part, (update_eq_self _ _).symm⟩
  refine safe_ensure_of_download (fun _ => h) (fun _ => h) ?_
  rw [downloadAndVerify_eq hblob]
  refine safe_orRaise_then h fun v _ => ?_
  rcases run_mkdir v fs (modelDir st.cacheDir m) with hr | hr
  · refine .inl ⟨_, hr, ?_⟩
    refine .bind ?_ ?_ (safe_fetchWithRetries (fun _ _ ht => h.partIs ht) st
      (fun t v hP hv => feeds_arrives hreg hP (hv _)) hself)
    · rintro result t ⟨b, hb, rfl, rfl⟩
      refine .bind ?_ (fun _ _ ht => ht.1) (safe_resumeVerify hm (h.partIs ⟨some b, hb, rfl⟩))
      rintro u t ⟨ht, hpart⟩
      exact safe_resumePublish ht (hpart ⟨u, rfl⟩)
    · rintro e t ht
      exact h.partIs ht
  · exact .inr ⟨_, hr, h⟩

end

/-! ### The undisturbed call -/

theorem exec_orRaise {op : Op} (h : op.run v fs = (true, t)) :
    (orRaise op).exec sem v fs = (.ok (), t) := by
  rw [orRaise, disk, exec_perform]
  simp only [sem, h, if_true]
  rfl

theorem exec_seedFromExisting (hv : v.fails = none) (hpos : 0 < blockSize) :
    (seedFromExisting {} part blockSize).exec sem v fs
      = (.ok (⟨(fs part).getD []⟩, ((fs part).getD []).length), fs) := by
  rw [seedFromExisting, exec_isFile]
  rcases hp : fs part with _ | bs
  · rfl
  · rw [isSome_some, if_pos rfl, exec_readFile, if_pos hv, hp]
    simp only [feedBlocks_eq hpos _ _ _ _ (Nat.le_refl _)]
    simp [Hasher.update]

theorem exec_streamChunks (hv : v.fails = none) (whole : Bool) :
    ∀ (chunks : List Bytes) (b : Bytes) (fs : Fs), fs part = some b →
      (streamChunks part whole chunks ⟨b⟩ b.length).exec sem v fs
        = (if whole then .ok (⟨b ++ chunks.flatten⟩, (b ++ chunks.flatten).length)
            else .error .brokenBody,
          update fs part (some (b ++ chunks.flatten)))
  | [], b, fs, hb => by
    rw [flatten_nil, append_nil, ← hb, update_eq_self]
    cases whole <;> rfl
  | chunk :: chunks, b, fs, hb => by
    have hrun : (Op.append part chunk).run v fs
        = (true, update fs part (some (b ++ chunk))) := by
      simp only [Op.run, hv, hb, getD_some]
    rw [streamChunks, exec_bind_ok (exec_orRaise hrun)]
    have ih := exec_streamChunks hv whole chunks (b ++ chunk) _
      (update_self part _ fs)
    rw [length_append] at ih
    rw [flatten_cons, ← append_assoc, Hasher.update, ih, update_idem]

theorem exec_closing (hv : v.fails = none) {α : Type} {r : Except Error α} :
    (closing agent r).exec sem v fs = (r, fs) := by
  rw [closing, disk, exec_perform]
  simp only [sem, Op.run, hv, decide_true]
  cases r <;> rfl

theorem exec_writeBody (hv : v.fails = none)
    (hopen : mode.run v fs = (true, update fs part (some b))) :
    (writeBody agent part mode chunks whole ⟨b⟩ b.length).exec sem v fs = (if whole then
            .ok ⟨hexdigest (b ++ chunks.flatten), (b ++ chunks.flatten).length⟩
          else .error .brokenBody, update fs part (some (b ++ chunks.flatten))) := by
  have hchunks := exec_streamChunks hv whole chunks b _ (update_self part _ fs)
  rw [update_idem] at hchunks
  rw [writeBody, exec_bind_ok (exec_orRaise hopen), exec_bind_ok exec_attempt,
    hchunks]
  cases whole with
  | true => exact exec_bind_ok (exec_closing hv)
  | false => exact exec_bind_error (exec_closing hv)

section
variable (hreg : registry modelId = some ⟨true, some file⟩) (hv : Honest registry modelId v)
include hreg hv

/-- CORRECT: an attempt on a part with something missing completes it. -/
theorem exec_streamToPart_short (st : Store) (hpart : (fs part).getD [] <+: file.bytes)
    (hshort : ((fs part).getD []).length < file.size) : (streamToPart st modelId part).exec sem v fs
      = (.ok ⟨hexdigest file.bytes, file.size⟩, update fs part (some file.bytes)) := by
  obtain ⟨chunks, hanswer, hchunks⟩ := hv.answer (rangeFor ((fs part).getD []).length)
  rw [streamToPart, exec_bind_ok (exec_seedFromExisting hv.disk st.chunkSize_pos)]
  rw [exec_httpGet, hanswer]
  rcases served_behind hreg hpart with ⟨hnil, hs, hbody⟩ | ⟨-, -, hs, hbody⟩ | ⟨-, hfull, -⟩
  · have hrun : (Op.create part).run v fs = (true, update fs part (some [])) := by
      simp only [Op.run, hv.disk]
    have hbytes : [] ++ chunks.flatten = file.bytes := hchunks.trans hbody
    rw [hs]
    exact (exec_writeBody hv.disk hrun).trans (by rw [hbytes]; rfl)
  · have hrun : (Op.openAppend part).run v fs
        = (true, update fs part (some ((fs part).getD []))) := by
      simp only [Op.run, hv.disk]
    have hbytes : (fs part).getD [] ++ chunks.flatten = file.bytes := hchunks ▸ hbody
    rw [hs]
    exact (exec_writeBody hv.disk hrun).trans (by rw [hbytes]; rfl)
  · rw [hfull] at hshort
    exact absurd hshort (Nat.lt_irrefl _)

/-- An attempt on a part with nothing missing is refused and changes nothing. -/
theorem exec_streamToPart_full (st : Store) (hpos : 0 < file.size)
    (hpart : (fs part).getD [] = file.bytes) :
    (streamToPart st modelId part).exec sem v fs = (.error (.retryableStatus 416), fs) := by
  obtain ⟨chunks, hanswer, -⟩ := hv.answer (rangeFor ((fs part).getD []).length)
  rw [streamToPart, exec_bind_ok (exec_seedFromExisting hv.disk st.chunkSize_pos)]
  rw [exec_httpGet, hanswer]
  have hne : (fs part).getD [] ≠ [] := by
    intro h
    rw [BlobFile.size, ← hpart, h] at hpos
    exact Nat.lt_irrefl _ hpos
  have hpre : (fs part).getD [] <+: file.bytes := ⟨[], by rw [append_nil, hpart]⟩
  rcases served_behind hreg hpre with ⟨hnil, -⟩ | ⟨-, hlt, -⟩ | ⟨-, -, hs⟩
  · exact absurd hnil hne
  · rw [hpart] at hlt
    exact absurd hlt (Nat.lt_irrefl _)
  · rw [hs]
    rfl

end

theorem exec_retryLoop_ok
    (h : (streamToPart st modelId part).exec sem v fs = (.ok result, t)) (left attempt : ℕ) :
    (retryLoop st modelId part left attempt).exec sem v fs = (.ok result, t) := by
  have hattempt : (streamToPart st modelId part).attempt.exec sem v fs = (.ok (.ok result), t) := by
    rw [exec_attempt, h]
  cases left with
  | zero | succ left => rw [retryLoop, exec_bind_ok hattempt]; rfl

/-- Refused again and again, a call gives up and has changed nothing. -/
theorem exec_retryLoop_refused
    (h : (streamToPart st modelId part).exec sem v fs = (.error (.retryableStatus code), fs)) :
    ∀ left attempt : ℕ, (retryLoop st modelId part left attempt).exec sem v fs
      = (.error (.fetch (st.blobUrl modelId) (left + attempt + 1)), fs) := by
  have hattempt : (streamToPart st modelId part).attempt.exec sem v fs
      = (.ok (.error (.retryableStatus code)), fs) := by
    rw [exec_attempt, h]
  have hretry : st.agent.isRetryable (.retryableStatus code) = true := by
    cases st.agent <;> rfl
  intro left
  induction left with
  | zero =>
    intro attempt
    rw [retryLoop, exec_bind_ok hattempt]
    dsimp only
    rw [if_pos hretry, Nat.zero_add]
    rfl
  | succ left ih =>
    intro attempt
    rw [retryLoop, exec_bind_ok hattempt]
    dsimp only
    rw [if_pos hretry]
    refine (ih (attempt + 1)).trans ?_
    rw [show left + (attempt + 1) + 1 = left + 1 + attempt + 1 by omega]

theorem exec_writeMarkerAtomic (hv : v.fails = none) :
    (writeMarkerAtomic marker sha256).exec sem v fs
      = (.ok (), update (update fs (marker ++ ".tmp") none) marker
          (some (encodeAscii sha256))) := by
  have hcreate : (Op.create (marker ++ ".tmp")).run v fs
      = (true, update fs (marker ++ ".tmp") (some [])) := by
    simp only [Op.run, hv]
  have happend : (Op.append (marker ++ ".tmp") (encodeAscii sha256)).run v
      (update fs (marker ++ ".tmp") (some []))
        = (true, update fs (marker ++ ".tmp") (some (encodeAscii sha256))) := by
    simp only [Op.run, hv, update_self, update_idem, getD_some,
      nil_append]
  have hclose : Op.close.run v (update fs (marker ++ ".tmp") (some (encodeAscii sha256)))
      = (true, update fs (marker ++ ".tmp") (some (encodeAscii sha256))) := by
    simp only [Op.run, hv, decide_true]
  have hrename : (Op.rename (marker ++ ".tmp") marker).run v
      (update fs (marker ++ ".tmp") (some (encodeAscii sha256)))
        = (true, update (update fs (marker ++ ".tmp") none) marker
            (some (encodeAscii sha256))) := by
    simp only [Op.run, hv, update_self, update_idem]
  rw [writeMarkerAtomic, exec_bind_ok (exec_orRaise hcreate),
    exec_bind_ok (exec_orRaise happend), exec_bind_ok (exec_orRaise hclose),
    exec_orRaise hrename]

section
variable (hreg : registry m.modelId = some ⟨true, some file⟩) (hm : m.Describes file)
  (hv : Honest registry m.modelId v) (hblob : blobPath st.cacheDir m = blob)
include hreg hm hv hblob

/-- CORRECT: a download with something missing ends with the blob in place. -/
theorem exec_downloadAndVerify_short (h : Resumable blob m file fs)
    (hshort : ((fs (blob ++ ".part")).getD []).length < file.size) :
    ∃ t, (st.downloadAndVerify m).exec sem v fs = (.ok blob, t) ∧ t blob = some file.bytes := by
  have hmkdir : (Op.mkdir (modelDir st.cacheDir m)).run v fs = (true, fs) := by
    simp only [Op.run, hv.disk, decide_true]
  have hfetch : (st.fetchWithRetries m.modelId (blob ++ ".part")).exec sem v fs = _ :=
    exec_retryLoop_ok (exec_streamToPart_short hreg hv st h.part hshort) st.maxRetries 0
  have hverify : verifyOrRaise st.agent m (blob ++ ".part")
      ⟨hexdigest file.bytes, file.size⟩ = pure () :=
    if_pos ⟨hm.sha256.symm, hm.size.symm⟩
  have hrename : ∀ u : Fs, u (blob ++ ".part") = some file.bytes →
      (Op.rename (blob ++ ".part") blob).run v u
        = (true, update (update u (blob ++ ".part") none) blob
            (some file.bytes)) := by
    intro u hu
    simp only [Op.run, hv.disk, hu]
  rw [downloadAndVerify_eq hblob, exec_bind_ok (exec_orRaise hmkdir), exec_bind_ok hfetch,
    hverify, exec_bind_ok (exec_pure ()), exec_bind_ok (exec_writeMarkerAtomic hv.disk),
    exec_bind_ok (exec_orRaise (hrename _ ?_))]
  · exact ⟨_, rfl, update_self ..⟩
  · rw [update_of_ne (marker_ne_part _).symm, update_of_ne (tmp_ne_part _).symm,
      update_self]

/-- A download with nothing missing fails and changes nothing. -/
theorem exec_downloadAndVerify_full (hpart : (fs (blob ++ ".part")).getD [] = file.bytes) :
    (st.downloadAndVerify m).exec sem v fs
      = (.error (.fetch (st.blobUrl m.modelId) (st.maxRetries + 1)), fs) := by
  have hmkdir : (Op.mkdir (modelDir st.cacheDir m)).run v fs = (true, fs) := by
    simp only [Op.run, hv.disk, decide_true]
  have hpos : 0 < file.size := hm.size ▸ m.sizeBytes_pos
  have hfetch : (st.fetchWithRetries m.modelId (blob ++ ".part")).exec sem v fs
      = (.error (.fetch (st.blobUrl m.modelId) (st.maxRetries + 1)), fs) :=
    exec_retryLoop_refused (exec_streamToPart_full hreg hv st hpos hpart) st.maxRetries 0
  rw [downloadAndVerify_eq hblob, exec_bind_ok (exec_orRaise hmkdir),
    exec_bind_error hfetch]

omit hreg hm in
theorem exec_ensure_present (h : Resumable blob m file fs) (hb : fs blob = some b) :
    (st.ensure m).exec sem v fs = (.ok blob, fs) := by
  obtain ⟨-, hmark⟩ := h.blob b hb
  subst hblob
  have hlook : (st.pathIfPresent m).exec sem v fs = (.ok (some (blobPath st.cacheDir m)), fs) := by
    rw [exec_pathIfPresent (exec_readMarker m.sha256_hex hmark), if_pos hv.disk, hb,
      if_pos ⟨rfl, rfl⟩]
  rw [Store.ensure, exec_bind_ok hlook]
  rfl

omit hreg hm hv in
theorem exec_ensure_absent (hb : fs blob = none) :
    (st.ensure m).exec sem v fs = (st.downloadAndVerify m).exec sem v fs := by
  have hlook : (st.pathIfPresent m).exec sem v fs = (.ok none, fs) := by
    rw [Store.pathIfPresent, exec_isFile, hblob, hb]
    rfl
  rw [Store.ensure, exec_bind_ok hlook]
  rw [exec_bind_ok hlook]

/-- CORRECT: the undisturbed call succeeds exactly if the blob is there or something is missing. -/
theorem exec_ensure_iff (h : Resumable blob m file fs) :
    (∃ p, ((st.ensure m).exec sem v fs).1 = .ok p ∧
        ((st.ensure m).exec sem v fs).2 p = some file.bytes) ↔
      fs blob ≠ none ∨ ((fs (blob ++ ".part")).getD []).length < file.size := by
  rcases hb : fs blob with _ | b
  · rw [exec_ensure_absent hblob hb]
    by_cases hshort : ((fs (blob ++ ".part")).getD []).length < file.size
    · obtain ⟨t, hexec, ht⟩ := exec_downloadAndVerify_short hreg hm hv hblob h hshort
      rw [hexec]
      exact ⟨fun _ => .inr hshort, fun _ => ⟨blob, rfl, ht⟩⟩
    · have hfull := h.part.eq_of_length_le (Nat.le_of_not_lt hshort)
      rw [exec_downloadAndVerify_full hreg hm hv hblob hfull]
      constructor
      · rintro ⟨p, hp, -⟩
        cases hp
      · rintro (hc | hc)
        · exact absurd rfl hc
        · exact absurd hc hshort
  · rw [exec_ensure_present hv hblob h hb]
    obtain ⟨rfl, -⟩ := h.blob b hb
    exact ⟨fun _ => .inl (by simp), fun _ => ⟨blob, rfl, hb⟩⟩

end

/-! ### Histories -/

/-- CORRECT: along every interrupted history the part is a stretch from the start of the blob, and
    the next undisturbed call returns a path to the blob exactly if the blob is published already or
    the part is shorter than it. -/
theorem resume_recovers {registry : String → Option ModelRecord} {m : ModelManifest}
    {file : BlobFile} {cacheDir : String} (hreg : registry m.modelId = some ⟨true, some file⟩)
    (hm : m.Describes file) {s : Host}
    (h : Reach step (Interrupted registry cacheDir m) freshHost s) :
    (s.store (partPath cacheDir m)).getD [] <+: file.bytes ∧
      ∀ (st : Store) (v : Env), st.cacheDir = cacheDir → Honest registry m.modelId v →
        ((∃ p, ((st.ensure m).exec sem v s.store).1 = .ok p ∧
            ((st.ensure m).exec sem v s.store).2 p = some file.bytes) ↔
          s.store (blobPath cacheDir m) ≠ none ∨
            ((s.store (partPath cacheDir m)).getD []).length < file.size) := by
  have hstart : ∀ (j : Job) (fs : Fs), j.1.cacheDir = cacheDir ∧ j.2 = m →
      Resumable (blobPath cacheDir m) m file fs →
      Safe sem (fun _ _ v => ∀ range,
          Arrives (getBlob registry m.modelId range) (v.answer m.modelId range))
        (fun _ => Resumable (blobPath cacheDir m) m file)
        (fun _ t => Resumable (blobPath cacheDir m) m file t) (j.1.ensure j.2) fs := by
    rintro ⟨st, m'⟩ fs ⟨rfl, rfl⟩ hfs
    exact safe_resumeEnsure hreg hm rfl hfs
  have h₀ : Keeps sem (fun _ _ v => ∀ range,
        Arrives (getBlob registry m.modelId range) (v.answer m.modelId range))
      (fun _ => Resumable (blobPath cacheDir m) m file) freshHost :=
    ⟨ nil_prefix, nofun⟩
  have hres := (h₀.reach hstart (fun _ _ hk _ => hk) h).next
  refine ⟨hres.part, fun st v hst hv => ?_⟩
  subst hst
  exact exec_ensure_iff hreg hm hv rfl hres

/-! ### The boundary -/

def oneByte : BlobFile := ⟨[1], by decide⟩

def oneModel (modelId : String) : Option ModelRecord :=
  if modelId = "qwen" then some ⟨true, some oneByte⟩ else none

/-- The coordinator's answers, whole and as they are. -/
def coordinator : Env where
  answer modelId range :=
    .answered (getBlob oneModel modelId range).status (getBlob oneModel modelId range).body true

theorem honest_coordinator : Honest oneModel "qwen" coordinator :=
  ⟨rfl, fun _ => ⟨_, rfl, rfl⟩⟩

theorem firstVersion_describes : firstVersion.Describes oneByte := ⟨rfl, rfl⟩

/-- Killed when the last byte is on disk. -/
def killedAtLastByte : List Act :=
  .start (pythonStore, firstVersion) :: .replicate 7 (.step coordinator) ++ [.kill]

/-- Killed with an empty part. -/
def killedAtFirstByte : List Act :=
  .start (pythonStore, firstVersion) :: .replicate 6 (.step coordinator) ++ [.kill]

theorem arrives_coordinator (range : Option String) :
    Arrives (getBlob oneModel "qwen" range) (coordinator.answer "qwen" range) :=
  .inr ⟨rfl, prefix_refl _, fun _ => rfl⟩

theorem admitted_killed : Admitted step (Interrupted oneModel "models" firstVersion) freshHost
    (.start (pythonStore, firstVersion) :: .replicate n (.step coordinator) ++ [.kill]) := by
  refine ⟨⟨rfl, rfl⟩, ?_⟩
  have hsteps : ∀ (n : ℕ) (s : Host), Admitted step (Interrupted oneModel "models" firstVersion) s
      (.replicate n (.step coordinator) ++ [.kill]) := by
    intro n
    induction n with
    | zero => exact fun s => ⟨trivial, trivial⟩
    | succ n ih => exact fun s => ⟨fun _ _ => arrives_coordinator, ih _⟩
  exact hsteps n _

/-- Killed with an empty part, a download is taken up again and completed. -/
theorem resume_recovers_early : ∃ p, ((pythonStore.ensure firstVersion).exec sem coordinator
        (runs step freshHost killedAtFirstByte).store).1 = .ok p ∧
      ((pythonStore.ensure firstVersion).exec sem coordinator
        (runs step freshHost killedAtFirstByte).store).2 p = some [1] := by
  have hreach : Reach step (Interrupted oneModel "models" firstVersion) freshHost
      (runs step freshHost killedAtFirstByte) :=
    Admitted.reach killedAtFirstByte .start admitted_killed
  have hshort : (((runs step freshHost killedAtFirstByte).store
      (partPath "models" firstVersion)).getD []).length < oneByte.size := by decide +kernel
  exact ((resume_recovers rfl firstVersion_describes hreach).2 pythonStore coordinator rfl
    honest_coordinator).mpr (.inr hshort)

/-- Killed when the last byte is on disk, a download is never completed: the undisturbed call fails
    and leaves everything as it was. -/
theorem complete_part_stuck :
    (runs step freshHost killedAtLastByte).store (partPath "models" firstVersion) = some [1] ∧
      (pythonStore.ensure firstVersion).exec sem coordinator
          (runs step freshHost killedAtLastByte).store
        = (.error (.fetch "http://coordinator/v1/models/qwen/blob" 4),
            (runs step freshHost killedAtLastByte).store) := by
  have hpart : (runs step freshHost killedAtLastByte).store (partPath "models" firstVersion)
      = some [1] := by decide +kernel
  have hblob : (runs step freshHost killedAtLastByte).store (blobPath "models" firstVersion)
      = none := by decide +kernel
  have hurl : pythonStore.blobUrl firstVersion.modelId
      = "http://coordinator/v1/models/qwen/blob" := by decide
  generalize (runs step freshHost killedAtLastByte).store = fs at hpart hblob ⊢
  have habsent : (pythonStore.ensure firstVersion).exec sem coordinator fs
      = (pythonStore.downloadAndVerify firstVersion).exec sem coordinator fs :=
    exec_ensure_absent rfl hblob
  have hfull : (fs (blobPath "models" firstVersion ++ ".part")).getD [] = oneByte.bytes :=
    congrArg (·.getD []) hpart
  refine ⟨hpart, ?_⟩
  rw [habsent, ← hurl]
  exact exec_downloadAndVerify_full rfl firstVersion_describes honest_coordinator rfl hfull

end Fallow.ModelCache

import Fallow.ModelCache.Marker

/-! Whether the path that `pathIfPresent` returns holds the bytes its manifest names.

    The trusted fact is spread over two files that are renamed one after the other, the marker first:

        marker.tmp ──▶ marker          part ──▶ blob
                             └─ torn ─┘

    Between the two renames of an update the marker names the new bytes and the blob still is the old
    file. Nothing later repairs that: every look, and the look `ensure` begins with, trusts the
    marker. So the fact holds along every history of downloads, failing operations and kills in which
    nothing happens between the two renames while an older blob is in place, and it is lost otherwise
    (`cut_update_serves_old_blob`). -/

namespace Fallow.ModelCache
open Lib Crash Function Option Sha256

/-! ### Histories of one model's files -/

/-- The rename that publishes a verified part. -/
def publish (blob : Path) : Cmd := .disk (.rename (blob ++ ".part") blob)

/-- The marker of the new bytes is in place, the blob still is another file. -/
def Torn (blob : Path) (next : Option Cmd) (fs : Fs) : Prop :=
  next = some (publish blob) ∧ ∃ old new, fs blob = some old ∧ fs (blob ++ ".part") = some new ∧
    hexdigest old ≠ hexdigest new

/-- Downloads of manifests for one blob path. Between the two renames of an update the only thing
    that happens is the second, with success. -/
def Undisturbed (blob : Path) : Host → Act → Prop :=
  Allowed (fun c fs v => Torn blob (some c) fs → v.fails = none) (fun next fs => ¬ Torn blob next fs)
    fun j => blobPath j.1.cacheDir j.2 = blob

/-! ### Trust -/

/-- The marker names the hash of the blob it stands beside. -/
def Trusted (blob : Path) (fs : Fs) : Prop :=
  ∀ b t, fs blob = some b → fs (blob ++ ".sha256") = some t → t = encodeAscii (hexdigest b)

/-- The marker names the hash of the part. -/
def Ready (blob : Path) (fs : Fs) : Prop :=
  ∃ b, fs (blob ++ ".part") = some b ∧
    fs (blob ++ ".sha256") = some (encodeAscii (hexdigest b))

/-- Trusted, or about to be. -/
def Kept (blob : Path) (next : Option Cmd) (fs : Fs) : Prop :=
  Trusted blob fs ∨ next = some (publish blob) ∧ Ready blob fs

section
variable {blob p : Path} {fs : Fs} {b : Bytes} {st : Store}

/-- FRAME: the part and the temporary marker say nothing. -/
theorem Trusted.update (h : Trusted blob fs) {b : Option Bytes} (hb : p ≠ blob)
    (hm : p ≠ blob ++ ".sha256") : Trusted blob (update fs p b) := by
  intro c t hc ht
  rw [update_of_ne hb.symm] at hc
  rw [update_of_ne hm.symm] at ht
  exact h c t hc ht

theorem Trusted.partIs (h : Trusted blob fs)
    (hb : p ≠ blob) (hm : p ≠ blob ++ ".sha256") (ht : PartIs fs p P t) : Trusted blob t := by
  obtain ⟨b, -, rfl⟩ := ht
  exact h.update hb hm

/-- The second rename makes the marker true. -/
theorem Ready.publish (h : Ready blob fs) (hb : fs (blob ++ ".part") = some b) :
    Trusted blob (update (update fs (blob ++ ".part") none) blob (some b)) := by
  obtain ⟨b', hb', hm⟩ := h
  obtain rfl : b = b' := mem_unique hb hb'
  intro c t hc ht
  rw [update_self] at hc
  rw [update_of_ne (marker_ne_blob blob), update_of_ne (marker_ne_part blob), hm] at ht
  rw [← some.inj hc, ← some.inj ht]

/-- Without an older blob the marker is true before the second rename already. -/
theorem Ready.trusted (h : Ready blob fs)
    (hnt : ¬ Torn blob (some (ModelCache.publish blob)) fs) : Trusted blob fs := by
  obtain ⟨new, hnew, hm⟩ := h
  intro old t hold ht
  by_cases heq : hexdigest old = hexdigest new
  · rw [heq, ← mem_unique hm ht]
  · exact absurd ⟨rfl, old, new, hold, hnew, heq⟩ hnt

theorem Kept.trusted (h : Kept blob next fs) (hnt : ¬ Torn blob next fs) : Trusted blob fs := by
  rcases h with h | ⟨rfl, h⟩
  · exact h
  · exact h.trusted hnt

/-! ### One call -/

section
variable {may : Cmd → Fs → Env → Prop}

theorem feeds_any : Feeds (fun _ => True) b r := by
  cases r with
  | refused => trivial
  | answered => exact ⟨fun _ _ _ => trivial, fun _ _ _ => trivial⟩

variable {m : ModelManifest}

theorem safe_verifyOrRaise {agent : Agent} (h : Trusted blob fs) :
    Safe sem may (Kept blob) (fun r t => match r with
        | .ok _ => t = fs ∧ hexdigest b = m.sha256
        | .error _ => Kept blob none t)
      (verifyOrRaise agent m (blob ++ ".part") ⟨hexdigest b, b.length⟩) fs := by
  refine .ite (fun hv => ⟨rfl, hv.1⟩) fun _ => ?_
  refine .perform (.inl h) fun v _ => ?_
  have ht : Trusted blob ((Op.unlink (blob ++ ".part")).run v fs).2 := by
    rcases run_unlink v fs (blob ++ ".part") with hr | hr <;> rw [hr]
    · exact h.update (part_ne_blob blob) (marker_ne_part blob).symm
    · exact h
  exact .ite (fun _ => .inl ht) fun _ => .inl ht

variable (hmay : ∀ c fs v, may c fs v → Torn blob (some c) fs → v.fails = none)
include hmay

/-- INVARIANT: the last step of a download. -/
theorem safe_publish (h : Ready blob fs) : Safe sem may (Kept blob) (fun _ t => Kept blob none t)
      (do orRaise (.rename (blob ++ ".part") blob); pure blob) fs := by
  refine safe_orRaise_then (.inr ⟨rfl, h⟩) fun v hv => ?_
  rcases run_rename v fs (blob ++ ".part") blob with ⟨-, b, hb, hr⟩ | ⟨hfail, hr⟩
  · exact .inl ⟨_, hr, .inl (h.publish hb)⟩
  -- the rename fails: not while an older blob is in place
  refine .inr ⟨_, hr, .inl (h.trusted fun ht => ?_)⟩
  obtain ⟨b, hb, -⟩ := h
  rcases hfail with hfail | hfail
  · exact hfail (hmay _ _ _ hv ht)
  · rw [hb] at hfail
    cases hfail

/-- INVARIANT: a verified part is published, marker first. -/
theorem safe_markAndPublish (h : Trusted blob fs) (hb : fs (blob ++ ".part") = some b) :
    Safe sem may (Kept blob) (fun _ t => Kept blob none t) (do
      writeMarkerAtomic (blob ++ ".sha256") (hexdigest b)
      orRaise (.rename (blob ++ ".part") blob)
      pure blob) fs := by
  have hI : ∀ c t, PartIs fs (blob ++ ".sha256" ++ ".tmp") (fun _ => True) t → Kept blob c t :=
    fun c t ht => .inl (h.partIs (tmp_ne_blob blob) (tmp_ne_marker blob) ht)
  refine .bind ?_ ?_ (safe_writeMarkerAtomic hI)
  · rintro _ t rfl
    refine safe_publish hmay ⟨b, ?_, update_self ..⟩
    rw [update_of_ne (marker_ne_part _).symm, update_of_ne (tmp_ne_part _).symm, hb]
  · rintro e t ht
    exact hI none t ht

theorem safe_downloadAndVerify (hblob : blobPath st.cacheDir m = blob) (h : Trusted blob fs) :
    Safe sem may (Kept blob) (fun _ t => Kept blob none t) (st.downloadAndVerify m) fs := by
  have hI : ∀ c t, PartIs fs (blob ++ ".part") (fun _ => True) t → Kept blob c t :=
    fun c t ht => .inl (h.partIs (part_ne_blob blob) (marker_ne_part blob).symm ht)
  have hself : PartIs fs (blob ++ ".part") (fun _ => True) fs :=
    ⟨fs (blob ++ ".part"), trivial, (update_eq_self _ _).symm⟩
  rw [downloadAndVerify_eq hblob]
  refine safe_orRaise_then (hI _ _ hself) fun v _ => ?_
  rcases run_mkdir v fs (modelDir st.cacheDir m) with hr | hr
  · refine .inl ⟨_, hr, ?_⟩
    refine .bind ?_ ?_ (safe_fetchWithRetries hI st (fun _ _ _ _ => feeds_any) hself)
    · rintro result t ⟨b, -, rfl, rfl⟩
      have ht : Trusted blob (update fs (blob ++ ".part") (some b)) :=
        h.update (part_ne_blob blob) (marker_ne_part blob).symm
      refine .bind ?_ ?_ (safe_verifyOrRaise ht)
      · rintro _ t ⟨rfl, hsha⟩
        rw [← hsha]
        exact safe_markAndPublish hmay ht (update_self ..)
      · rintro e t ht
        exact ht
    · rintro e t ht
      exact hI none t ht
  · exact .inr ⟨_, hr, hI none _ hself⟩

/-- INVARIANT: an `ensure` that starts trusted stays trusted or about to be, and ends trusted. -/
theorem safe_ensure (hblob : blobPath st.cacheDir m = blob) (h : Trusted blob fs) :
    Safe sem may (Kept blob) (fun _ t => Kept blob none t) (st.ensure m) fs :=
  safe_ensure_of_download (fun _ => .inl h) (fun _ => .inl h)
    (safe_downloadAndVerify hmay hblob h)

end

/-- CORRECT: on a trusted disk the look returns a path only to the bytes the manifest names. -/
theorem Trusted.look (h : Trusted blob fs) (hblob : blobPath st.cacheDir m = blob)
    (hp : ((st.pathIfPresent m).exec sem v fs).1 = .ok (some p)) :
    ∃ bytes, fs p = some bytes ∧ hexdigest bytes = m.sha256 := by
  have hmark : markerPath st.cacheDir m = blob ++ ".sha256" := congrArg (· ++ ".sha256") hblob
  rcases ht : fs (blob ++ ".sha256") with _ | t
  · obtain ⟨-, -, hu⟩ := look_some (exec_readMarker_absent (hmark ▸ ht)) hp
    exact absurd hu unread_ne
  · rcases hb : fs blob with _ | bytes
    · rw [Store.pathIfPresent, exec_isFile, hblob, hb] at hp
      cases hp
    · obtain rfl := h bytes t hb ht
      obtain ⟨rfl, -, hu⟩ :=
        look_some (exec_readMarker (fun _ => mem_hexdigest) (hmark ▸ ht)) hp
      refine ⟨bytes, hblob ▸ hb, ?_⟩
      by_cases hv : v.fails = none
      · rw [if_pos hv] at hu
        exact some.inj hu
      · rw [if_neg hv] at hu
        exact absurd hu unread_ne

end

/-! ### Histories -/

/-- CORRECT: in every undisturbed history, whenever a look returns a path for a manifest, the file
    there hashes to what the manifest says. -/
theorem trusted_path {blob : Path} {s : Host} (h : Reach step (Undisturbed blob) freshHost s)
    (hlook : ¬ Torn blob s.next s.store) {st : Store} {m : ModelManifest}
    (hm : blobPath st.cacheDir m = blob) {v : Env} {p : Path}
    (hp : ((st.pathIfPresent m).exec sem v s.store).1 = .ok (some p)) :
    ∃ bytes, s.store p = some bytes ∧ hexdigest bytes = m.sha256 := by
  have hstart : ∀ (j : Job) (fs : Fs), blobPath j.1.cacheDir j.2 = blob → Kept blob none fs →
      Safe sem (fun c fs v => Torn blob (some c) fs → v.fails = none) (Kept blob)
        (fun _ t => Kept blob none t) (j.1.ensure j.2) fs := by
    rintro j fs hj (htr | ⟨hnone, -⟩)
    · exact safe_ensure (fun _ _ _ hv => hv) hj htr
    · cases hnone
  have hfresh : Trusted blob freshHost.store := by
    rintro b t ⟨⟩
  have h₀ : Keeps sem (fun c fs v => Torn blob (some c) fs → v.fails = none) (Kept blob) freshHost :=
    .inl hfresh
  have hkeeps := h₀.reach hstart (fun _ _ hk hnt => .inl (hk.trusted hnt)) h
  exact (hkeeps.next.trusted hlook).look hm hp

/-- A network on which every request is answered with these bytes. -/
def serving (bytes : Bytes) : Env := { answer := fun _ _ => .answered 200 [bytes] true }

def pythonStore : Store := { agent := .python, baseUrl := "http://coordinator", cacheDir := "models" }

def firstVersion : ModelManifest := .ofBlob "qwen" "qwen.gguf" [1] Nat.one_pos

def secondVersion : ModelManifest := .ofBlob "qwen" "qwen.gguf" [2] (by decide)

def cleanDownload : List Act := .start (pythonStore, firstVersion) :: .replicate 14 (.step (serving [1]))

def cutUpdate : List Act :=
  cleanDownload ++ .start (pythonStore, secondVersion) :: .replicate 16 (.step (serving [2])) ++ [.kill]

/-- Steps on which nothing fails disturb nothing. -/
theorem admitted_steps (hv : v.fails = none) : ∀ (n : ℕ) (s : Host),
    Admitted step (Undisturbed blob) s (.replicate n (.step v))
  | 0, _ => trivial
  | n + 1, _ => ⟨fun _ _ _ => hv, admitted_steps hv n _⟩

/-- A clean first download is such a history, and the look finds it. -/
theorem trusted_path_clean :
    ∃ bytes, (runs step freshHost cleanDownload).store "models/qwen/qwen.gguf" = some bytes ∧
      hexdigest bytes = firstVersion.sha256 := by
  have hreach : Reach step (Undisturbed "models/qwen/qwen.gguf") freshHost
      (runs step freshHost cleanDownload) :=
    Admitted.reach cleanDownload .start ⟨rfl, admitted_steps rfl 14 _⟩
  have hnext : (runs step freshHost cleanDownload).next = none := by decide +kernel
  have hlook : ((pythonStore.pathIfPresent firstVersion).exec sem {}
      (runs step freshHost cleanDownload).store).1 = .ok (some "models/qwen/qwen.gguf") := by
    decide +kernel
  exact trusted_path hreach (fun ht => by rw [Torn, hnext] at ht; cases ht.1) rfl hlook

theorem cut_update_serves_old_blob :
    ((pythonStore.pathIfPresent secondVersion).exec sem {} (runs step freshHost cutUpdate).store).1
        = .ok (some "models/qwen/qwen.gguf") ∧
      (runs step freshHost cutUpdate).store "models/qwen/qwen.gguf" = some [1] ∧
      hexdigest [1] ≠ secondVersion.sha256 := by
  decide +kernel

end Fallow.ModelCache

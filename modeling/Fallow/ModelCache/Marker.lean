import Fallow.ModelCache.Stream

/-! The marker and the look at it.

    A marker is written to a temporary file and renamed, so it is there as a whole or not at all;
    `pathIfPresent` compares its text with the manifest and never opens the blob. -/

namespace Fallow.ModelCache
open Lib Crash Function Option List String Sha256

variable {may : Cmd → Fs → Env → Prop} {I : Option Cmd → Fs → Prop}

/-! ### The four files of a model are four -/

theorem append_ne_append {p q r : String} (h : q.length ≠ r.length) : p ++ q ≠ p ++ r := by
  intro he
  have := congrArg String.length he
  rw [String.length_append, String.length_append] at this
  omega

theorem append_ne_self {p q : String} (h : q.length ≠ 0) : p ++ q ≠ p := by
  intro he
  have := congrArg String.length he
  rw [String.length_append] at this
  omega

section
variable (blob : Path)

@[simp] theorem part_ne_blob : blob ++ ".part" ≠ blob := append_ne_self (by decide)

@[simp] theorem marker_ne_blob : blob ++ ".sha256" ≠ blob := append_ne_self (by decide)

@[simp] theorem tmp_ne_blob : blob ++ ".sha256" ++ ".tmp" ≠ blob := by
  rw [String.append_assoc]
  exact append_ne_self (by decide)

@[simp] theorem marker_ne_part : blob ++ ".sha256" ≠ blob ++ ".part" :=
  append_ne_append (by decide)

@[simp] theorem tmp_ne_part : blob ++ ".sha256" ++ ".tmp" ≠ blob ++ ".part" := by
  rw [String.append_assoc]
  exact append_ne_append (by decide)

@[simp] theorem tmp_ne_marker : blob ++ ".sha256" ++ ".tmp" ≠ blob ++ ".sha256" :=
  append_ne_self (by decide)

end

variable {st : Store} {m : ModelManifest} {text : String}

/-- The download, with its paths spelt out from the blob's. -/
theorem downloadAndVerify_eq (hblob : blobPath st.cacheDir m = blob) :
    st.downloadAndVerify m = (do
      orRaise (.mkdir (modelDir st.cacheDir m))
      let result ← st.fetchWithRetries m.modelId (blob ++ ".part")
      verifyOrRaise st.agent m (blob ++ ".part") result
      writeMarkerAtomic (blob ++ ".sha256") m.sha256
      orRaise (.rename (blob ++ ".part") blob)
      pure blob) := by
  subst hblob
  rfl

/-! ### The text of a marker -/

theorem hexDigits_plain : (hexDigits.all fun c =>
    decide (c.toNat < 128) && !isSpace c && !goSpace c) = true := by decide

theorem plain_of_hex (h : c ∈ hexDigits) :
    c.toNat < 128 ∧ isSpace c = false ∧ goSpace c = false := by
  have hc := all_eq_true.mp hexDigits_plain c h
  simp only [Bool.and_eq_true, decide_eq_true_eq, Bool.not_eq_true'] at hc
  exact ⟨hc.1.1, hc.1.2, hc.2⟩

theorem decodeAscii_encodeAscii (h : ∀ c ∈ text.toList, c.toNat < 128) :
    decodeAscii (encodeAscii text) = some text := by
  have hbyte : ∀ c ∈ text.toList, (UInt8.ofNat c.toNat).toNat = c.toNat := by
    intro c hc
    have := h c hc
    simp only [UInt8.toNat_ofNat']
    omega
  have hall : (encodeAscii text).all (fun b => decide (b.toNat < 128)) = true := by
    simp only [encodeAscii, List.all_map, List.all_eq_true, comp, decide_eq_true_eq]
    intro c hc
    rw [hbyte c hc]
    exact h c hc
  have hmap : (encodeAscii text).map (fun b => Char.ofNat b.toNat) = text.toList := by
    rw [encodeAscii, List.map_map]
    refine (map_congr_left fun c hc => ?_).trans (map_id _)
    simp only [comp, hbyte c hc, Char.ofNat_toNat, id]
  rw [decodeAscii, if_pos hall, hmap, ofList_toList]

/-- What the agent takes an absent or unreadable marker for. -/
def Agent.unread : Agent → Option String
  | .python => none
  | .go => some ""

variable {marker : Path} {fs : Fs}

variable {agent : Agent} {v : Env}

theorem exec_readMarker_absent (h : fs marker = none) :
    (agent.readMarker marker).exec sem v fs = (.ok agent.unread, fs) := by
  cases agent with
  | python =>
    rw [Agent.readMarker, Python.readMarker, exec_isFile, h]
    rfl
  | go =>
    have hread : (Go.readMarker marker).exec sem v fs = (.ok "", fs) := by
      rw [Go.readMarker, exec_readFile, h, ite_self]
      rfl
    rw [Agent.readMarker, Prog.exec_bind_ok hread]
    rfl

/-- CORRECT: a marker holding a hash reads as that hash, or is unreadable. -/
theorem exec_readMarker
    (hhex : ∀ c ∈ text.toList, c ∈ hexDigits) (h : fs marker = some (encodeAscii text)) :
    (agent.readMarker marker).exec sem v fs
      = (.ok (if v.fails = none then some text else agent.unread), fs) := by
  have hdecode := decodeAscii_encodeAscii fun c hc => (plain_of_hex (hhex c hc)).1
  have hstrip : strip text.toList = text.toList :=
    stripBy_none fun c hc => (plain_of_hex (hhex c hc)).2.1
  have htrim : stripBy goSpace text.toList = text.toList :=
    stripBy_none fun c hc => (plain_of_hex (hhex c hc)).2.2
  cases agent with
  | python =>
    rw [Agent.readMarker, Python.readMarker, exec_isFile, h, isSome_some, if_pos rfl,
      exec_readFile, h]
    rcases v.fails with _ | n
    · simp only [if_true, hdecode, hstrip, ofList_toList]
      rfl
    · rfl
  | go =>
    have hread : (Go.readMarker marker).exec sem v fs
        = (.ok (if v.fails = none then text else ""), fs) := by
      rw [Go.readMarker, exec_readFile, h]
      rcases v.fails with _ | n
      · simp only [if_true, hdecode, htrim, ofList_toList]
        rfl
      · rfl
    rw [Agent.readMarker, Prog.exec_bind_ok hread]
    rcases v.fails with _ | n
    · rfl
    · rfl

/-! ### Looking -/

theorem looks_readMarker : Looks sem (agent.readMarker marker) := by
  cases agent with
  | python =>
    refine Looks.bind (fun b => ?_) looks_isFile
    cases b with
    | false => trivial
    | true =>
      refine Looks.bind (fun r => ?_) looks_readFile
      cases r with
      | none => trivial
      | some bs =>
        cases h : decodeAscii bs with
        | none | some text => simp only [h]; trivial
  | go =>
    have hread : Looks sem (Go.readMarker marker) := by
      refine Looks.bind (fun r => ?_) looks_readFile
      cases r with
      | none => trivial
      | some bs =>
        cases h : decodeAscii bs with
        | none | some text => simp only [h]; trivial
    refine Looks.bind (fun text => ?_) hread
    trivial

theorem looks_pathIfPresent : Looks sem (st.pathIfPresent m) := by
  refine .bind (fun b => ?_) looks_isFile
  cases b with
  | false => trivial
  | true =>
    refine .bind (fun r => ?_) looks_readMarker
    split <;> trivial

/-- The look, by what the marker reads as. -/
theorem exec_pathIfPresent {marker : Option String}
    (h : (st.agent.readMarker (markerPath st.cacheDir m)).exec sem v fs = (.ok marker, fs)) :
    (st.pathIfPresent m).exec sem v fs
      = (.ok (if (fs (blobPath st.cacheDir m)).isSome ∧ marker = some m.sha256
          then some (blobPath st.cacheDir m) else none), fs) := by
  rw [Store.pathIfPresent, exec_isFile]
  by_cases hb : (fs (blobPath st.cacheDir m)).isSome = true
  · rw [if_pos hb, Prog.exec_bind_ok h]
    simp only [hb, true_and]
    by_cases hm : marker = some m.sha256
    · rw [if_pos hm, if_pos hm]; rfl
    · rw [if_neg hm, if_neg hm]; rfl
  · rw [if_neg hb, if_neg fun h => hb h.1]
    rfl

theorem look_some {marker : Option String}
    (h : (st.agent.readMarker (markerPath st.cacheDir m)).exec sem v fs = (.ok marker, fs))
    (hp : ((st.pathIfPresent m).exec sem v fs).1 = .ok (some p)) :
    p = blobPath st.cacheDir m ∧ (fs (blobPath st.cacheDir m)).isSome ∧ marker = some m.sha256 := by
  rw [exec_pathIfPresent h] at hp
  by_cases hc : (fs (blobPath st.cacheDir m)).isSome = true ∧ marker = some m.sha256
  · rw [if_pos hc] at hp
    exact ⟨(some.inj (Except.ok.inj hp)).symm, hc⟩
  · rw [if_neg hc] at hp
    cases hp

/-- An unreadable marker never matches. -/
theorem unread_ne : agent.unread ≠ some m.sha256 := by
  intro hu
  have hlen := m.sha256_length
  cases agent with
  | python => cases hu
  | go =>
    rw [← some.inj hu] at hlen
    cases hlen

/-- A call is a look, another under the lock, and the download. -/
theorem safe_ensure_of_download (hI : ∀ c, I c fs) (hQ : ∀ r, Q r fs)
    (h : Safe sem may I Q (st.downloadAndVerify m) fs) : Safe sem may I Q (st.ensure m) fs := by
  have hlook : Safe sem may I (fun _ t => t = fs) (st.pathIfPresent m) fs :=
    looks_pathIfPresent.safe hI
  refine .bind ?_ (fun e t ht => ht ▸ hQ _) hlook
  rintro (_ | present) t rfl
  · refine .bind ?_ (fun e t ht => ht ▸ hQ _) hlook
    rintro (_ | present) t rfl
    · exact h
    · exact hQ _
  · exact hQ _

/-! ### Writing -/

/-- INVARIANT: until its rename the marker is as it was, after it the marker holds the hash. -/
theorem safe_writeMarkerAtomic
    (hI : ∀ c t, PartIs fs (marker ++ ".tmp") (fun _ => True) t → I c t) :
    Safe sem may I (fun r t => match r with
        | .ok _ => t = update (update fs (marker ++ ".tmp") none) marker
            (some (encodeAscii sha256))
        | .error _ => PartIs fs (marker ++ ".tmp") (fun _ => True) t)
      (writeMarkerAtomic marker sha256) fs := by
  have hself : PartIs fs (marker ++ ".tmp") (fun _ => True) fs :=
    ⟨fs (marker ++ ".tmp"), trivial, (update_eq_self _ _).symm⟩
  have hpart : ∀ b, PartIs fs (marker ++ ".tmp") (fun _ => True)
      (update fs (marker ++ ".tmp") b) := fun b => ⟨b, trivial, rfl⟩
  refine safe_orRaise_then (hI _ _ hself) fun v _ => ?_
  rcases run_create v fs (marker ++ ".tmp") with hr | hr
  · refine .inl ⟨_, hr, safe_orRaise_then (hI _ _ (hpart _)) fun v _ => ?_⟩
    rcases run_append v (update fs (marker ++ ".tmp") (some [])) (marker ++ ".tmp")
      (encodeAscii sha256) with hr | ⟨w, -, hr⟩
    · rw [update_self, update_idem] at hr
      refine .inl ⟨_, hr, safe_orRaise_then (hI _ _ (hpart _)) fun v _ => ?_⟩
      rcases run_close v (update fs (marker ++ ".tmp") (some (encodeAscii sha256))) with hr | hr
      · refine .inl ⟨_, hr, safe_orRaise (hI _ _ (hpart _)) fun v _ => ?_⟩
        rcases run_rename v (update fs (marker ++ ".tmp") (some (encodeAscii sha256)))
          (marker ++ ".tmp") marker with ⟨-, b, hb, hr⟩ | ⟨-, hr⟩
        · obtain rfl : encodeAscii sha256 = b := by
            rw [update_self] at hb
            exact some.inj hb
          rw [update_idem] at hr
          exact .inl ⟨_, hr, rfl⟩
        · exact .inr ⟨_, hr, hpart _⟩
      · exact .inr ⟨_, hr, hpart _⟩
    · rw [update_idem] at hr
      exact .inr ⟨_, hr, hpart _⟩
  · exact .inr ⟨_, hr, hself⟩

end Fallow.ModelCache

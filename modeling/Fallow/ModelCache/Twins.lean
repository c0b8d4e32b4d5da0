import Fallow.Lib.PyStr
import Fallow.ModelCache.Resume

/-! The Go store against the Python store it was ported from, on one network and one disk.

    A script says how each request goes: refused, or a status and a body that is whole or cut. Both
    stores face the same script from the same part. The clients hand a cut body on differently, and
    the stores take its end differently:

                           Python                          Go
        bytes handed on    whole chunks only               all of them
        the broken end     httpx.TransportError: retried   an error of body.Read: returned as it is

    The stores keep in step up to the first request that is answered 200 or 206. If that answer is
    whole they end alike; if it is cut they do not (`twins_agree_iff`). -/

namespace Fallow.ModelCache
open Lib Crash Function Store

/-! ### The network -/

/-- How one request goes. -/
inductive Outcome where
  | refused
  | answered (status : ℕ) (body : Bytes) (whole : Bool)
  deriving DecidableEq, Repr

/-- What the HTTP client hands on. `aiter_bytes(chunk_size)` keeps back what does not fill a chunk
    until the body ends; `body.Read` returns what has arrived. -/
def Agent.handedOn (agent : Agent) (chunkSize : ℕ) : Outcome → Response
  | .refused => .refused
  | .answered status body whole =>
    let passed := if agent = .python ∧ whole = false
      then body.take (body.length / chunkSize * chunkSize) else body
    .answered status (PyStr.batched chunkSize passed) whole

/-- The disk and the requests so far, by their `Range` headers. -/
structure Wire where
  fs : Fs
  requests : List (Option String) := []

/-- One command on a disk that works, with the script for the network. -/
def scripted (st : Store) (script : ℕ → Outcome) : (c : Cmd) → Unit → Wire → Answer c × Wire
  | .isFile p, _, s => ((s.fs p).isSome, s)
  | .read p, _, s => (s.fs p, s)
  | .disk op, _, s => ((op.run {} s.fs).1, { s with fs := (op.run {} s.fs).2 })
  | .get _ range, _, s => (st.agent.handedOn st.chunkSize (script s.requests.length),
      { s with requests := s.requests ++ [range] })
  | .sleep _, _, s => ((), s)

/-- The store with its agent exchanged. -/
def Store.by (st : Store) (agent : Agent) : Store := { st with agent := agent }

variable {agent : Agent} {part : Path} {whole : Bool} {chunks : List Bytes} {mode : Op}
  {result : DownloadResult} {st : Store}

@[simp] theorem Store.by_agent : (st.by agent).agent = agent := rfl

@[simp] theorem Store.by_cacheDir : (st.by agent).cacheDir = st.cacheDir := rfl

/-- A call on a disk that holds at most the part. -/
def Store.runFrom (st : Store) (m : ModelManifest) (part : Option Bytes) (script : ℕ → Outcome) :
    Except Error Path × Wire :=
  (st.ensure m).exec (scripted st script) ()
    { fs := update (fun _ => none) (partPath st.cacheDir m) part }

/-! ### What is compared -/

/-- A path, or the class of the error. -/
inductive Verdict where
  | path (p : Path)
  /-- `ModelFetchError`, `ErrFetch` -/
  | fetch
  /-- `ModelVerificationError`, `ErrVerification` -/
  | verification
  /-- an error of neither class -/
  | raw
  deriving DecidableEq, Repr

def verdict : Except Error Path → Verdict
  | .ok p => .path p
  | .error (.fetch _ _) => .fetch
  | .error (.verification _ _ _ _ _) => .verification
  | .error _ => .raw

structure SameBehaviour (r r' : Except Error Path × Wire) : Prop where
  requests : r.2.requests = r'.2.requests
  verdict : verdict r.1 = verdict r'.1
  files : r.2.fs = r'.2.fs

/-- Nothing the stores write down: refused, or a status other than 200 and 206. -/
def Outcome.Unusable : Outcome → Prop
  | .refused => True
  | .answered status _ _ => status ≠ 200 ∧ status ≠ 206

/-- A body the stores write down, broken off. -/
def Outcome.Cut : Outcome → Prop
  | .refused => False
  | .answered status _ whole => (status = 200 ∨ status = 206) ∧ whole = false

/-! ### Programs that stay off the network -/

def Offline {R : Type} : Prog R → Prop
  | .ret _ | .raise _ => True
  | .op c k => (∀ modelId range, c ≠ .get modelId range) ∧ ∀ a, Offline (k a)

variable {R S : Type} {script : ℕ → Outcome} {op : Op} {p : Path} {modelId : String}

theorem Offline.bind (hf : ∀ r, Offline (f r)) :
    ∀ {p : Prog R}, Offline p → Offline (p >>= f)
  | .ret r, _ => hf r
  | .raise _, _ => trivial
  | .op _ _, h => ⟨h.1, fun a => Offline.bind hf (h.2 a)⟩

theorem Offline.attempt : ∀ {p : Prog R}, Offline p → Offline p.attempt
  | .ret _, _ | .raise _, _ => trivial
  | .op _ _, h => ⟨h.1, fun a => Offline.attempt (h.2 a)⟩

theorem Offline.ite [Decidable c] {p q : Prog R} (hp : Offline p) (hq : Offline q) :
    Offline (if c then p else q) := by
  split
  · exact hp
  · exact hq

/-- FRAME: such a program runs as on the working disk alone. -/
theorem Offline.exec : ∀ {p : Prog R} {s : Wire}, Offline p → p.exec (scripted st script) () s
      = ((p.exec sem {} s.fs).1, { s with fs := (p.exec sem {} s.fs).2 })
  | .ret _, _, _ | .raise _, _, _ => rfl
  | .op c k, s, h => by
    have ih : ∀ a t, (k a).exec (scripted st script) () t
        = (((k a).exec sem {} t.fs).1, { t with fs := ((k a).exec sem {} t.fs).2 }) :=
      fun a t => Offline.exec (h.2 a)
    cases c with
    | isFile p | read p | disk op => exact ih _ _
    | get modelId range => exact absurd rfl (h.1 modelId range)
    | sleep factor => exact ih _ _

theorem offline_disk : Offline (disk op) := ⟨nofun, fun _ => trivial⟩

theorem offline_orRaise : Offline (orRaise op) := by
  refine .bind (fun done => ?_) offline_disk
  exact .ite trivial trivial

theorem offline_isFile : Offline (isFile p) := ⟨nofun, fun _ => trivial⟩

theorem offline_readFile : Offline (readFile p) := ⟨nofun, fun _ => trivial⟩

theorem offline_seedFromExisting (hasher : Hasher) {blockSize : ℕ} :
    Offline (seedFromExisting hasher part blockSize) := by
  refine .bind (fun found => ?_) offline_isFile
  refine .ite ?_ trivial
  refine .bind (fun bs => ?_) offline_readFile
  cases bs with
  | none | some bs => trivial

theorem offline_streamChunks :
    ∀ (hasher : Hasher) (total : ℕ), Offline (streamChunks part whole chunks hasher total) := by
  induction chunks with
  | nil => exact fun _ _ => .ite trivial trivial
  | cons chunk chunks ih => exact fun _ _ => .bind (fun _ => ih _ _) offline_orRaise

theorem offline_closing {r : Except Error R} : Offline (closing agent r) := by
  refine .bind (fun closed => ?_) offline_disk
  cases r with
  | ok a | error e => exact .ite trivial trivial

theorem offline_writeBody (hasher : Hasher) :
    Offline (writeBody agent part mode chunks whole hasher total) := by
  refine .bind (fun _ => ?_) offline_orRaise
  refine .bind (fun r => ?_) (offline_streamChunks hasher total).attempt
  refine .bind (fun _ => ?_) offline_closing
  trivial

theorem offline_verifyOrRaise {m : ModelManifest} : Offline (verifyOrRaise agent m part result) := by
  refine .ite trivial (.bind (fun deleted => ?_) offline_disk)
  exact .ite trivial trivial

theorem offline_writeMarkerAtomic : Offline (writeMarkerAtomic marker sha256) := by
  refine .bind (fun _ => ?_) offline_orRaise
  refine .bind (fun _ => ?_) offline_orRaise
  refine .bind (fun _ => ?_) offline_orRaise
  exact offline_orRaise

/-! ### One attempt -/

/-- A body, written down. -/
def written (whole : Bool) (c : Bytes) : Except Error DownloadResult × Option Bytes :=
  (if whole then .ok ⟨Sha256.hexdigest c, c.length⟩ else .error .brokenBody, some c)

/-- What one attempt on a part makes of a response: its result and the part. -/
def attemptOn (part : Option Bytes) : Response → Except Error DownloadResult × Option Bytes
  | .refused => (.error .transport, part)
  | .answered status chunks whole =>
    if status = 206 then written whole (part.getD [] ++ chunks.flatten)
    else if status = 200 then written whole chunks.flatten
    else (.error (.retryableStatus status), part)

/-- What the next attempt of a store makes of the script. -/
def nextAttempt (st : Store) (script : ℕ → Outcome) (part : Path) (s : Wire) :
    Except Error DownloadResult × Option Bytes :=
  attemptOn (s.fs part) (st.agent.handedOn st.chunkSize (script s.requests.length))

/-- The disk and the requests after it. -/
def afterAttempt (st : Store) (script : ℕ → Outcome) (part : Path) (s : Wire) : Wire where
  fs := update s.fs part (nextAttempt st script part s).2
  requests := s.requests ++ [rangeFor ((s.fs part).getD []).length]

theorem exec_written
    (hopen : mode.run {} s.fs = (true, update s.fs part (some b))) :
    (writeBody agent part mode chunks whole ⟨b⟩ b.length).exec (scripted st script) () s
      = ((written whole (b ++ chunks.flatten)).1,
          { s with fs := update s.fs part (written whole (b ++ chunks.flatten)).2 }) := by
  rw [(offline_writeBody ..).exec, exec_writeBody rfl hopen]
  rfl

/-- REFINES: `stream_to_part` is `attemptOn`. -/
theorem exec_streamToPart : (streamToPart st modelId part).exec (scripted st script) () s
      = ((nextAttempt st script part s).1, afterAttempt st script part s) := by
  have hseed : (seedFromExisting {} part st.chunkSize).exec (scripted st script) () s
      = (.ok (⟨(s.fs part).getD []⟩, ((s.fs part).getD []).length), s) := by
    rw [(offline_seedFromExisting _).exec, exec_seedFromExisting rfl st.chunkSize_pos]
  rw [streamToPart, Prog.exec_bind_ok hseed, afterAttempt, nextAttempt]
  dsimp only
  rw [httpGet, Prog.exec_perform]
  simp only [scripted]
  rcases st.agent.handedOn st.chunkSize (script s.requests.length) with _ | ⟨status, chunks, whole⟩
  · rw [attemptOn, update_eq_self]
    rfl
  by_cases h206 : status = 206
  · subst h206
    have hrun : (Op.openAppend part).run {} s.fs
        = (true, update s.fs part (some ((s.fs part).getD []))) := rfl
    exact exec_written hrun
  by_cases h200 : status = 200
  · subst h200
    have hrun : (Op.create part).run {} s.fs = (true, update s.fs part (some [])) := rfl
    exact exec_written hrun
  · simp only [resolveDisposition, attemptOn, if_neg h206, if_neg h200, update_eq_self]
    rfl

/-- One turn of the retry loop. -/
theorem exec_retryLoop :
    (retryLoop st modelId part left attempt).exec (scripted st script) () s
      = match (nextAttempt st script part s).1 with
        | .ok result => (.ok result, afterAttempt st script part s)
        | .error e =>
          if st.agent.isRetryable e then match left with
            | 0 => (.error (.fetch (st.blobUrl modelId) (attempt + 1)), afterAttempt st script part s)
            | left + 1 => (retryLoop st modelId part left (attempt + 1)).exec (scripted st script) ()
                (afterAttempt st script part s)
          else (.error e, afterAttempt st script part s) := by
  have hattempt : (streamToPart st modelId part).attempt.exec (scripted st script) () s
      = (.ok (nextAttempt st script part s).1, afterAttempt st script part s) := by
    rw [Prog.exec_attempt, exec_streamToPart]
  cases left with
  | zero | succ left =>
    rw [retryLoop, Prog.exec_bind_ok hattempt]
    rcases (nextAttempt st script part s).1 with e | result
    · dsimp only
      split <;> rfl
    · rfl

/-! ### The two clients -/

section
variable {o : Outcome} {n : ℕ} {part : Option Bytes}

theorem attemptOn_agents (h : ¬ o.Cut) :
    attemptOn part (Agent.python.handedOn n o) = attemptOn part (Agent.go.handedOn n o) := by
  cases o with
  | refused => rfl
  | answered status body whole =>
    cases whole with
    | true => rfl
    | false =>
      have h206 : status ≠ 206 := fun hs => h ⟨.inr hs, rfl⟩
      have h200 : status ≠ 200 := fun hs => h ⟨.inl hs, rfl⟩
      simp only [Agent.handedOn, attemptOn, if_neg h206, if_neg h200]

theorem attemptOn_cut (h : o.Cut) :
    (attemptOn part (agent.handedOn n o)).1 = .error .brokenBody := by
  cases o with
  | refused => exact h.elim
  | answered status body whole =>
    obtain ⟨rfl | rfl, rfl⟩ := h
    · rfl
    · rfl

theorem attemptOn_unusable (h : o.Unusable) :
    ∃ e, (attemptOn part (agent.handedOn n o)).1 = .error e ∧
      ∀ a : Agent, a.isRetryable e = true := by
  cases o with
  | refused => exact ⟨.transport, rfl, fun a => by cases a <;> rfl⟩
  | answered status body whole =>
    refine ⟨.retryableStatus status, ?_, fun a => by cases a <;> rfl⟩
    simp only [Agent.handedOn, attemptOn, if_neg h.1, if_neg h.2]

theorem attemptOn_whole (hcut : ¬ o.Cut) (husable : ¬ o.Unusable) :
    ∃ result, (attemptOn part (agent.handedOn n o)).1 = .ok result := by
  cases o with
  | refused => exact absurd trivial husable
  | answered status body whole =>
    have hstatus : status = 200 ∨ status = 206 := by
      by_contra hs
      exact husable (not_or.1 hs)
    cases whole with
    | false => exact absurd ⟨hstatus, rfl⟩ hcut
    | true =>
      rcases hstatus with rfl | rfl
      · exact ⟨_, rfl⟩
      · exact ⟨_, rfl⟩

end

/-! ### In step -/

/-- From request `i` on, the first of the next `left + 1` requests that brings a body brings it
    whole. -/
def Uncut (script : ℕ → Outcome) (i left : ℕ) : Prop :=
  ∀ k ≤ left, (∀ j < k, (script (i + j)).Unusable) → ¬ (script (i + k)).Cut

section
variable {part : Path} {i : ℕ}

theorem Uncut.now (h : Uncut script i left) : ¬ (script i).Cut :=
  h 0 (Nat.zero_le _) fun j hj => absurd hj (Nat.not_lt_zero j)

theorem Uncut.next (h : Uncut script i (left + 1)) (hi : (script i).Unusable) :
    Uncut script (i + 1) left := by
  intro k hk hbefore
  have hk' := h (k + 1) (Nat.succ_le_succ hk)
  rw [Nat.add_right_comm]
  refine hk' fun j hj => ?_
  cases j with
  | zero => exact hi
  | succ j =>
    have hj' := hbefore j (Nat.lt_of_succ_lt_succ hj)
    rwa [Nat.add_right_comm] at hj'

theorem uncut_succ (hi : ¬ (script i).Cut)
    (hnext : (script i).Unusable → Uncut script (i + 1) left) : Uncut script i (left + 1) := by
  intro k hk hbefore
  cases k with
  | zero => exact hi
  | succ k =>
    have hnow : (script i).Unusable := hbefore 0 (Nat.succ_pos k)
    have hk' := hnext hnow k (Nat.le_of_succ_le_succ hk) fun j hj => by
      rw [Nat.add_right_comm]
      exact hbefore (j + 1) (Nat.succ_lt_succ hj)
    rwa [Nat.add_right_comm] at hk'

theorem uncut_zero (hi : ¬ (script i).Cut) : Uncut script i 0 := by
  intro k hk _
  obtain rfl : k = 0 := Nat.le_zero.1 hk
  exact hi

theorem length_afterAttempt :
    (afterAttempt st script part s).requests.length = s.requests.length + 1 := by
  simp [afterAttempt]

theorem nextAttempt_agents (h : ¬ (script s.requests.length).Cut) :
    nextAttempt (st.by .python) script part s = nextAttempt (st.by .go) script part s :=
  attemptOn_agents h

theorem afterAttempt_agents (h : ¬ (script s.requests.length).Cut) :
    afterAttempt (st.by .python) script part s = afterAttempt (st.by .go) script part s := by
  rw [afterAttempt, afterAttempt, nextAttempt_agents h]

/-- CORRECT: with no cut body in the way the two loops do the same. -/
theorem retryLoop_agents (h : Uncut script s.requests.length left) :
    (retryLoop (st.by .python) modelId part left attempt).exec (scripted (st.by .python) script) () s
      = (retryLoop (st.by .go) modelId part left attempt).exec (scripted (st.by .go) script) () s := by
  rw [exec_retryLoop, exec_retryLoop, nextAttempt_agents h.now, afterAttempt_agents h.now]
  by_cases hu : (script s.requests.length).Unusable
  · obtain ⟨e, he, hretry⟩ : ∃ e, (nextAttempt (st.by .go) script part s).1 = .error e ∧
        ∀ a : Agent, a.isRetryable e = true := attemptOn_unusable hu
    simp only [he, hretry, if_true]
    match left with
    | 0 => rfl
    | left + 1 =>
      refine retryLoop_agents ?_
      rw [length_afterAttempt]
      exact h.next hu
  · obtain ⟨result, hr⟩ : ∃ result, (nextAttempt (st.by .go) script part s).1 = .ok result :=
      attemptOn_whole h.now hu
    simp only [hr]

/-- Every loop makes a request. -/
theorem lt_requests_retryLoop : s.requests.length <
    ((retryLoop st modelId part left attempt).exec (scripted st script) () s).2.requests.length := by
  rw [exec_retryLoop]
  have hlt : s.requests.length < (afterAttempt st script part s).requests.length := by
    rw [length_afterAttempt]
    exact Nat.lt_succ_self _
  rcases (nextAttempt st script part s).1 with e | result
  · dsimp only
    split
    · match left with
      | 0 => exact hlt
      | left + 1 => exact hlt.trans lt_requests_retryLoop
    · exact hlt
  · exact hlt

/-- Where two loops part: Go returns the read error, Python asks again or gives up. -/
def Parted (py go : Except Error DownloadResult × Wire) : Prop :=
  go.1 = .error .brokenBody ∧
    (go.2.requests.length < py.2.requests.length ∨ ∃ url attempts, py.1 = .error (.fetch url attempts))

/-- At a cut body the loops part, for good. -/
theorem retryLoop_parted : ∀ (attempt : ℕ) (s : Wire),
    ¬ Uncut script s.requests.length left → Parted
      ((retryLoop (st.by .python) modelId part left attempt).exec (scripted (st.by .python) script) () s)
      ((retryLoop (st.by .go) modelId part left attempt).exec (scripted (st.by .go) script) () s) := by
  have hcut : ∀ (left attempt : ℕ) (s : Wire), (script s.requests.length).Cut → Parted
      ((retryLoop (st.by .python) modelId part left attempt).exec (scripted (st.by .python) script) () s)
      ((retryLoop (st.by .go) modelId part left attempt).exec (scripted (st.by .go) script) () s) := by
    intro left attempt s h
    have hboth : ∀ agent : Agent, (nextAttempt (st.by agent) script part s).1 = .error .brokenBody :=
      fun agent => attemptOn_cut h
    have hgo : (st.by .go).agent.isRetryable .brokenBody = false := rfl
    have hpy : (st.by .python).agent.isRetryable .brokenBody = true := rfl
    rw [exec_retryLoop, exec_retryLoop, hboth, hboth]
    simp only [hgo, hpy, if_true, Bool.false_eq_true, if_false]
    cases left with
    | zero => exact ⟨rfl, .inr ⟨_, _, rfl⟩⟩
    | succ left =>
      refine ⟨rfl, .inl ?_⟩
      rw [length_afterAttempt]
      refine lt_of_eq_of_lt ?_ lt_requests_retryLoop
      rw [length_afterAttempt]
  induction left with
  | zero =>
    intro attempt s h
    exact hcut 0 attempt s (by_contra fun hc => h (uncut_zero hc))
  | succ left ih =>
    intro attempt s h
    by_cases hc : (script s.requests.length).Cut
    · exact hcut _ attempt s hc
    have hu : (script s.requests.length).Unusable := by
      by_contra hu
      exact h (uncut_succ hc fun h' => absurd h' hu)
    have hnext : ¬ Uncut script (s.requests.length + 1) left := fun h' => h (uncut_succ hc fun _ => h')
    obtain ⟨e, he, hretry⟩ : ∃ e, (nextAttempt (st.by .go) script part s).1 = .error e ∧
        ∀ a : Agent, a.isRetryable e = true := attemptOn_unusable hu
    rw [exec_retryLoop, exec_retryLoop, nextAttempt_agents hc, afterAttempt_agents hc]
    simp only [he, hretry, if_true]
    refine ih (attempt + 1) _ ?_
    rw [length_afterAttempt]
    exact hnext

end

/-! ### The rest of the call -/

/-- A call after its download. -/
def Store.publish (st : Store) (m : ModelManifest) (result : DownloadResult) : Prog Path := do
  verifyOrRaise st.agent m (partPath st.cacheDir m) result
  writeMarkerAtomic (markerPath st.cacheDir m) m.sha256
  orRaise (.rename (partPath st.cacheDir m) (blobPath st.cacheDir m))
  pure (blobPath st.cacheDir m)

section
variable {m : ModelManifest}

theorem offline_publish : Offline (st.publish m result) := by
  refine .bind (fun _ => ?_) offline_verifyOrRaise
  refine .bind (fun _ => ?_) offline_writeMarkerAtomic
  refine .bind (fun _ => ?_) offline_orRaise
  trivial

/-- A deletion that works leaves nothing to tell the agents apart. -/
theorem exec_verifyOrRaise_agents : (verifyOrRaise .python m part result).exec sem {} fs
      = (verifyOrRaise .go m part result).exec sem {} fs := by
  rw [verifyOrRaise, verifyOrRaise]
  split
  · rfl
  · rfl

theorem exec_publish_agents :
    ((st.by .python).publish m result).exec (scripted (st.by .python) script) () s
      = ((st.by .go).publish m result).exec (scripted (st.by .go) script) () s := by
  have hdisk : ((st.by .python).publish m result).exec sem {} s.fs
      = ((st.by .go).publish m result).exec sem {} s.fs := by
    rw [Store.publish, Store.publish, Prog.exec_bind, Prog.exec_bind]
    simp only [by_agent, by_cacheDir, exec_verifyOrRaise_agents]
  rw [offline_publish.exec, offline_publish.exec, hdisk]

/-- The download of a call. -/
def Store.download (st : Store) (m : ModelManifest) (part : Option Bytes) (script : ℕ → Outcome) :
    Except Error DownloadResult × Wire :=
  (st.fetchWithRetries m.modelId (partPath st.cacheDir m)).exec (scripted st script) ()
    { fs := update (fun _ => none) (partPath st.cacheDir m) part }

/-- With no blob on disk a call is its download, and the rest. -/
theorem runFrom_eq {part : Option Bytes} :
    st.runFrom m part script = match st.download m part script with
      | (.ok result, t) => (st.publish m result).exec (scripted st script) () t
      | (.error e, t) => (.error e, t) := by
  have habsent : update (fun _ => none) (partPath st.cacheDir m) part
      (blobPath st.cacheDir m) = none :=
    update_of_ne (part_ne_blob (blobPath st.cacheDir m)).symm _ _
  have hlook : (st.pathIfPresent m).exec (scripted st script) ()
      { fs := update (fun _ => none) (partPath st.cacheDir m) part }
        = (.ok none, { fs := update (fun _ => none) (partPath st.cacheDir m) part }) := by
    rw [pathIfPresent, isFile, Prog.exec_perform]
    simp only [scripted, habsent]
    rfl
  have hmkdir : (orRaise (.mkdir (modelDir st.cacheDir m))).exec (scripted st script) ()
      { fs := update (fun _ => none) (partPath st.cacheDir m) part }
        = (.ok (), { fs := update (fun _ => none) (partPath st.cacheDir m) part }) := rfl
  rw [runFrom, ensure, Prog.exec_bind_ok hlook]
  rw [Prog.exec_bind_ok hlook]
  rw [downloadAndVerify, Prog.exec_bind_ok hmkdir, Prog.exec_bind]
  rcases hd : st.download m part script with ⟨r, t⟩
  rw [download] at hd
  rw [hd]
  cases r with
  | ok result | error e => rfl

end

/-- The two stores do the same on exactly the scripts whose first body is whole. -/
theorem twins_agree_iff (st : Store) (m : ModelManifest) (part : Option Bytes)
    (script : ℕ → Outcome) :
    SameBehaviour ((st.by .python).runFrom m part script) ((st.by .go).runFrom m part script) ↔
      ∀ k ≤ st.maxRetries, (∀ j < k, (script j).Unusable) → ¬ (script k).Cut := by
  have huncut : (∀ k ≤ st.maxRetries, (∀ j < k, (script j).Unusable) → ¬ (script k).Cut) ↔
      Uncut script 0 st.maxRetries := by
    simp only [Uncut, Nat.zero_add]
  rw [huncut, runFrom_eq, runFrom_eq]
  constructor
  · intro hsame
    by_contra hcut
    have hparted : Parted ((st.by .python).download m part script)
        ((st.by .go).download m part script) := retryLoop_parted 0 _ hcut
    generalize (st.by .python).download m part script = py at hsame hparted
    generalize (st.by .go).download m part script = go at hsame hparted
    obtain ⟨rgo, tgo⟩ := go
    obtain ⟨hgo, hpy⟩ := hparted
    obtain rfl : rgo = .error .brokenBody := hgo
    obtain ⟨e | result, tpy⟩ := py
    · rcases hpy with hlt | ⟨url, attempts, hfetch⟩
      · exact hlt.ne (congrArg List.length hsame.requests).symm
      · obtain rfl : e = .fetch url attempts := Except.error.inj hfetch
        exact Verdict.noConfusion hsame.verdict
    · rcases hpy with hlt | ⟨_, _, hfetch⟩
      · have hrequests := hsame.requests
        simp only [offline_publish.exec] at hrequests
        exact hlt.ne (congrArg List.length hrequests).symm
      · cases hfetch
  · intro h
    have hdownload : (st.by .python).download m part script = (st.by .go).download m part script :=
      retryLoop_agents h
    rw [hdownload]
    obtain ⟨e | result, t⟩ := (st.by .go).download m part script
    · exact ⟨rfl, rfl, rfl⟩
    · dsimp only
      rw [exec_publish_agents]
      exact ⟨rfl, rfl, rfl⟩

/-! ### Runs -/

def oneByteManifest : ModelManifest := .ofBlob "m" "m.gguf" [1] Nat.one_pos

def plainStore : Store := { pythonStore with baseUrl := "http://c", cacheDir := "/models" }

/-- Refused every time, both give up alike. -/
theorem twins_agree_refused :
    SameBehaviour ((plainStore.by .python).runFrom oneByteManifest none fun _ => .refused)
      ((plainStore.by .go).runFrom oneByteManifest none fun _ => .refused) :=
  (twins_agree_iff plainStore oneByteManifest none fun _ => .refused).2 fun _ _ _ hcut => hcut

/-- The first body breaks off before its first byte, the second is whole. -/
def cutOnce : ℕ → Outcome
  | 0 => .answered 200 [] false
  | _ => .answered 200 [1] true

/-- Python asks again and has the blob; Go has returned the read error after one request. -/
theorem twins_differ_on_cut_body :
    ((plainStore.by .python).runFrom oneByteManifest none cutOnce).2.requests = [none, none] ∧
    verdict ((plainStore.by .python).runFrom oneByteManifest none cutOnce).1
      = .path "/models/m/m.gguf" ∧
    ((plainStore.by .go).runFrom oneByteManifest none cutOnce).2.requests = [none] ∧
    verdict ((plainStore.by .go).runFrom oneByteManifest none cutOnce).1 = .raw ∧
    ¬ SameBehaviour ((plainStore.by .python).runFrom oneByteManifest none cutOnce)
      ((plainStore.by .go).runFrom oneByteManifest none cutOnce) := by
  have hpy : ((plainStore.by .python).runFrom oneByteManifest none cutOnce).2.requests
      = [none, none] := by decide +kernel
  have hgo : ((plainStore.by .go).runFrom oneByteManifest none cutOnce).2.requests = [none] := by
    decide +kernel
  refine ⟨hpy, by decide +kernel, hgo, by decide +kernel, fun h => ?_⟩
  have hrequests := h.requests
  rw [hpy, hgo] at hrequests
  cases hrequests

end Fallow.ModelCache

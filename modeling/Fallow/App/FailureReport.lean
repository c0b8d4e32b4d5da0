import Fallow.App.FailureFlags

/-! A failure report by someone who does not hold the claim.

    The broker refuses it, but the flag is set before the broker is asked. So the report is without
    effect exactly when the flag cannot matter: it was not set, it was the newest flag already, the
    request is past the one place that reads it, or both answers there are the same. Otherwise the
    claim's next failure, whatever its cause, ends a request that would have been retried.

    Two runs, with and without the report, are compared step by step. They agree on the broker and on
    the request, and on the `fate` of every flag that can still be asked for. -/

namespace Fallow.App.Failure
open Lib Relay Gateway.Transport Option List Recent Site

/-! ### The route without the owner -/

variable {agent : String} {now : ℤ} {c : ℕ} {w : Work}

/-- The broker refuses a report that is not its claim's holder's. -/
theorem fail_foreign {b : Broker} (hw : b.heap[c]? = some w)
    (hforeign : agent ≠ w.agentId ∨ g ≠ w.generation) : (b.fail agent c g code now).1 = b := by
  have hcheck : ∀ w', b.check agent c g ≠ .ok w' := by
    intro w' hok
    obtain ⟨-, hheap, ha, hg⟩ := check_ok hok
    obtain rfl := mem_unique hw hheap
    rcases hforeign with h | h
    · exact h ha.symm
    · exact h hg.symm
  unfold Broker.fail Broker.upload
  split
  · rfl
  · cases hc : b.check agent c g with
    | error e => rfl
    | ok w' => exact absurd hc (hcheck w')

/-- What is left of the report is its flag. -/
theorem failure_foreign {s : Site} (hw : s.broker.heap[c]? = some w)
    (hforeign : agent ≠ w.agentId ∨ (body.presenceGeneration : ℤ) ≠ w.generation) :
    (s.failure agent (.issued c) body now).broker = s.broker ∧
      (s.failure agent (.issued c) body now).request = s.request ∧
      (s.failure agent (.issued c) body now).flags = flagged body (.issued c) s.flags := by
  have hknown : (ClaimRef.issued c).Known s.broker := (List.getElem?_eq_some_iff.mp hw).1
  rw [Site.failure, dif_pos hknown]
  exact ⟨fail_foreign hw hforeign, rfl, rfl⟩

/-! ### Two runs in step -/

/-- An open attempt whose flag changes nothing. -/
def Idle (r : Gateway.Transport.Request) : Prop := ∃ l e c, Open l e c r ∧ l.Spent e

/-- INVARIANT: two sites that differ in flags nobody asks for. -/
structure Harmless (n : ℕ) (s t : Site) : Prop where
  broker : t.broker = s.broker
  request : t.request = s.request
  offered : n ≤ s.broker.heap.length
  fates : ∀ d, n ≤ d → fate (.issued d) t.flags.ids = fate (.issued d) s.flags.ids
  flag : ∀ c, s.request.undecided = some c → n ≤ c ∨ Idle s.request

section
variable {n : ℕ} {s t : Site}

section
variable (h : Harmless n s t)
include h

theorem Harmless.mem (hd : n ≤ d) : ClaimRef.issued d ∈ t.flags.ids ↔ .issued d ∈ s.flags.ids := by
  rw [mem_iff_fate, h.fates d hd, ← mem_iff_fate]

theorem Harmless.relay (act : Relay.Act) : Harmless n (s.relay act) (t.relay act) where
  __ := h
  broker := congrArg (Relay.step · act) h.broker
  offered := h.offered.trans heap_le_step

omit h in
theorem fates_take {f f' : RelayFailureFlags} (h : ∀ d, n ≤ d →
      fate (.issued d) f'.ids = fate (.issued d) f.ids) (ref : ClaimRef) (d : ℕ)
    (hd : n ≤ d) : fate (.issued d) (f'.take ref).2.ids = fate (.issued d) (f.take ref).2.ids := by
  dsimp only [RelayFailureFlags.take]
  rw [fate_filter, h d hd, ← fate_filter]

theorem Harmless.take (ref : ClaimRef) : Harmless n (s.take ref) (t.take ref) :=
  { h with fates := fates_take h.fates ref }

theorem Harmless.failure (agent : String) (ref : ClaimRef) (body : RelayFailureBody)
    (now : ℤ) : Harmless n (s.failure agent ref body now) (t.failure agent ref body now) := by
  by_cases hk : ref.Known s.broker
  · have hk' : ref.Known t.broker := h.broker ▸ hk
    rw [Site.failure, Site.failure, dif_pos hk, dif_pos hk']
    refine ⟨?_, h.request, h.offered.trans (stepped_failAt ..).heap_le, fun d hd => ?_, h.flag⟩
    · exact congrArg (failAt · agent ref body now) h.broker
    dsimp only [flagged]
    split
    · exact h.fates d hd
    · rw [RelayFailureFlags.ids_mark, RelayFailureFlags.ids_mark, fate_push, h.fates d hd,
        ← fate_push]
  · have hk' : ¬ ref.Known t.broker := h.broker ▸ hk
    rw [Site.failure, Site.failure, dif_neg hk, dif_neg hk']
    exact h

/-- Both resumed with the same answer, both or neither taking the flag. -/
theorem Harmless.resumed (hs : advance s.broker s.isFlagged s.request input = a)
    (ht : advance t.broker t.isFlagged t.request input = a)
    (hflag : ∀ c, a.request.undecided = some c → n ≤ c ∨ Idle a.request) :
    Harmless n (s.own input) (t.own input) := by
  refine ⟨?_, ?_, ?_, fun d hd => ?_, ?_⟩
  · dsimp only [own]; rw [hs, ht]
  · dsimp only [own]; rw [hs, ht]
  · exact h.offered.trans stepped_advance.heap_le
  · dsimp only [own, taken]
    rw [hs, ht, h.request]
    split
    · split
      · exact fates_take h.fates _ d hd
      · exact h.fates d hd
    · exact h.fates d hd
  · dsimp only [own]; rw [hs]; exact hflag

theorem Harmless.own (input : Input) : Harmless n (s.own input) (t.own input) := by
  cases hu : s.request.undecided with
  | none =>
    obtain ⟨b', r', heq, -, hnew⟩ := advance_of_decided hu
    refine h.resumed (heq _) (by rw [h.broker, h.request]; exact heq _) fun d hd => .inl ?_
    exact hnew d hd ▸ h.offered
  | some c =>
    obtain ⟨l, e, ho⟩ := undecided_iff.mp hu
    have hidle : Idle s.request → l.Spent e := by
      rintro ⟨l', e', c', ho', hspent⟩
      obtain ⟨rfl, rfl, -⟩ := ho.unique ho'
      exact hspent
    rcases ho.advance s.broker input with ⟨b', r', ho', -, heq⟩ | ⟨b', r', hnone, -, heq⟩ | ⟨pick, heq⟩
    · refine h.resumed (heq _) (by rw [h.broker, h.request]; exact heq _) fun d hd => ?_
      obtain rfl : c = d := some.inj ((undecided_iff.mpr ⟨l, e, ho'⟩).symm.trans hd)
      exact (h.flag c hu).imp_right fun hi => ⟨l, e, c, ho', hidle hi⟩
    · refine h.resumed (heq _) (by rw [h.broker, h.request]; exact heq _) fun d hd => ?_
      rw [hnone] at hd; cases hd
    · -- the attempt fails: here the flag is read
      have hsame : advance t.broker t.isFlagged t.request input
          = failed s.broker l e c s.isFlagged pick := by
        rw [h.broker, h.request, heq, failed, failed]
        rcases h.flag c hu with hn | hi
        · have hbit : t.isFlagged = s.isFlagged := by
            unfold isFlagged
            rw [h.request, ho.exchange, any_some, any_some]
            exact decide_eq_decide.mpr (h.mem hn)
          rw [hbit]
        · rw [onFailure_of_spent (hidle hi), onFailure_of_spent (hidle hi)]
      refine h.resumed (heq _) hsame fun d hd => ?_
      rw [failed, undecided_onFailure] at hd
      cases hd

theorem Harmless.step (act : Act) : Harmless n (Failure.step s act) (Failure.step t act) := by
  cases act with
  | relay act => exact h.relay act
  | failure agent ref body now => exact h.failure agent ref body now
  | take ref => exact h.take ref
  | own input => exact h.own input

end

theorem Harmless.runs : ∀ (acts : List Act) {s t : Site}, Harmless n s t →
    Harmless n (Lib.runs Failure.step s acts) (Lib.runs Failure.step t acts)
  | [], _, _, h => h
  | act :: acts, _, _, h => Harmless.runs acts (h.step act)

end

/-! ### A flag that is read -/

section
variable {s t : Site} {l : Loop} {e : Registry.ReplicaEndpoint} {c : ℕ}

theorem request_timeout (ho : Open l e c s.request) :
    (Failure.step s (.own (.timeout pick))).request
      = l.onFailure e (decide (.issued c ∈ s.flags.ids)) pick := by
  have hflag : s.isFlagged = decide (.issued c ∈ s.flags.ids) := by
    rw [isFlagged, ho.exchange, any_some]
  change (advance s.broker s.isFlagged s.request (.timeout pick)).request = _
  rw [hflag]
  cases hr : s.request with
  | running l' phase => rw [hr] at ho; cases ho <;> rfl
  | streaming source status mediaType sent retried => rw [hr] at ho; cases ho
  | answered response retried => rw [hr] at ho; cases ho

/-- Flagged in one run and not in the other, the claim's failure shows. -/
theorem seen_differs (ho : Open l e c s.request) (hrequest : t.request = s.request) (hspent : ¬ l.Spent e)
    (ht : .issued c ∈ t.flags.ids) (hs : .issued c ∉ s.flags.ids) :
    ∃ act, (Failure.step t act).request.seen ≠ (Failure.step s act).request.seen := by
  obtain ⟨pick, hpick⟩ := onFailure_differs hspent
  refine ⟨.own (.timeout pick), ?_⟩
  rw [request_timeout ho, request_timeout (hrequest ▸ ho), decide_eq_true ht, decide_eq_false hs]
  exact hpick

/-- A report on an id that is no claim's. -/
def stray (agent text : String) : Act := .failure agent (.other text) ⟨0, "", false⟩ 0

/-- Stray reports leave the request alone and push flags. -/
theorem runs_stray : ∀ (texts : List String) (s : Site),
    (Lib.runs Failure.step s (texts.map (stray agent))).request = s.request ∧
      (Lib.runs Failure.step s (texts.map (stray agent))).flags.ids
        = pushes relayFlagsMax (texts.map .other) s.flags.ids
  | [], _ => ⟨rfl, rfl⟩
  | text :: texts, s => by
    have hstep : Failure.step s (stray agent text)
        = s.failure agent (.other text) ⟨0, "", false⟩ 0 := rfl
    have hids : (s.failure agent (.other text) ⟨0, "", false⟩ 0).flags.ids
        = push relayFlagsMax (.other text) s.flags.ids := by
      rw [Site.failure, dif_pos (by trivial), ← RelayFailureFlags.ids_mark]
      rfl
    have hrequest : (s.failure agent (.other text) ⟨0, "", false⟩ 0).request = s.request := by
      rw [Site.failure, dif_pos (by trivial)]
    obtain ⟨hr, hf⟩ := runs_stray texts (s.failure agent (.other text) ⟨0, "", false⟩ 0)
    rw [hrequest] at hr
    rw [hids] at hf
    rw [map_cons, map_cons, runs_cons, hstep, pushes_cons]
    exact ⟨hr, hf⟩

end

/-! ### With and without the report -/

section
variable {s t : Site} {c : ℕ}

/-- Nothing was flagged, or nothing new. -/
theorem Harmless.of_flags (hb : t.broker = s.broker) (hr : t.request = s.request)
    (hf : t.flags.ids = s.flags.ids) : Harmless 0 s t :=
  ⟨hb, hr, Nat.zero_le _, fun d _ => by rw [hf], fun c _ => .inl (Nat.zero_le c)⟩

/-- A flag of an old claim, which the request does not ask for. -/
theorem Harmless.of_mark (hc : c < s.broker.heap.length) (hb : t.broker = s.broker)
    (hr : t.request = s.request) (hf : t.flags = s.flags.mark (.issued c))
    (hidle : s.request.undecided = none ∨ Idle s.request) : Harmless s.broker.heap.length s t := by
  refine ⟨hb, hr, Nat.le_refl _, fun d hd => ?_, fun c' hc' => ?_⟩
  · have hs : ClaimRef.issued d ∉ s.flags.ids :=
      fun hmem => Nat.not_lt.mpr hd (s.known _ hmem)
    have ht : ClaimRef.issued d ∉ t.flags.ids := by
      rw [hf]
      intro hmem
      rcases RelayFailureFlags.mem_mark hmem with heq | hmem
      · rw [ClaimRef.issued.inj heq] at hd
        exact Nat.not_lt.mpr hd hc
      · exact hs hmem
    rw [fate_of_not_mem hs, fate_of_not_mem ht]
  · rcases hidle with hnone | hidle
    · rw [hnone] at hc'; cases hc'
    · exact .inr hidle

end

/-- CORRECT: for every state, claim and report that is not by the claim's holder at the claim's
    generation, the request on the claim goes on as without the report, in every continuation, exactly
    when the report is retryable, the claim's flag is the newest one already, the request is past
    asking for it, or it has nothing left to try and a 5xx to pass on. -/
theorem foreign_report_without_effect_iff (s : Site) (c : ℕ) (w : Work)
    (hw : s.broker.heap[c]? = some w) (hrequest : s.request.exchange = some c) (agent : String)
    (body : RelayFailureBody) (now : ℤ)
    (hforeign : agent ≠ w.agentId ∨ (body.presenceGeneration : ℤ) ≠ w.generation) :
    (∀ acts, (runs step (step s (.failure agent (.issued c) body now)) acts).request.seen
        = (runs step s acts).request.seen) ↔
      (body.retryable = true ∨ s.flags.ids.getLast? = some (.issued c) ∨
        s.request.undecided = none ∨ Idle s.request) := by
  obtain ⟨hb, hr, hf⟩ := failure_foreign hw hforeign
  obtain ⟨t, ht⟩ : ∃ t, t = s.failure agent (.issued c) body now := ⟨_, rfl⟩
  rw [← ht] at hb hr hf
  change (∀ acts, (runs step (s.failure agent (.issued c) body now) acts).request.seen = _) ↔ _
  rw [← ht]
  have hc : c < s.broker.heap.length := (List.getElem?_eq_some_iff.mp hw).1
  constructor
  · intro hsame
    by_contra hnot
    obtain ⟨hretry, hlast, hopen, hidle⟩ : body.retryable ≠ true ∧
        s.flags.ids.getLast? ≠ some (.issued c) ∧ s.request.undecided ≠ none ∧ ¬ Idle s.request := by
      simpa only [not_or] using hnot
    -- the attempt on the claim is open
    obtain ⟨c', hc'⟩ := ne_none_iff_exists'.mp hopen
    obtain ⟨l, e, ho⟩ := undecided_iff.mp hc'
    obtain rfl : c' = c := mem_unique ho.exchange hrequest
    have hspent : ¬ l.Spent e := fun hspent => hidle ⟨l, e, c', ho, hspent⟩
    have hids : t.flags.ids = push relayFlagsMax (.issued c') s.flags.ids := by
      rw [hf, flagged, if_neg hretry, RelayFailureFlags.ids_mark]
    by_cases hin : .issued c' ∈ s.flags.ids
    · -- flagged before: other flags push the old one out and not the renewed one
      have hinj : Function.Injective ClaimRef.other := fun _ _ h => ClaimRef.other.inj h
      obtain ⟨texts, hout, hkept⟩ :=
        exists_evicting hinj s.flags.nodup s.flags.bounded hin hlast
      obtain ⟨hrs, hfs⟩ := runs_stray texts s
      obtain ⟨hrt, hft⟩ := runs_stray texts t
      rw [← hids] at hkept
      have ho' : Open l e c' (runs step s (texts.map (stray agent))).request := by rw [hrs]; exact ho
      have hr' : (runs step t (texts.map (stray agent))).request
          = (runs step s (texts.map (stray agent))).request := by rw [hrs, hrt, hr]
      obtain ⟨act, hact⟩ := seen_differs ho' hr' hspent (by rw [hft]; exact hkept)
        (by rw [hfs]; exact hout)
      refine hact ?_
      have := hsame (texts.map (stray agent) ++ [act])
      rwa [runs_append, runs_append] at this
    · have hmem : .issued c' ∈ t.flags.ids := by
        rw [hids, push_fresh hin]
        exact mem_rtake_concat (by decide)
      obtain ⟨act, hact⟩ := seen_differs ho hr hspent hmem hin
      exact hact (hsame [act])
  · intro hcond acts
    have hharmless : ∃ n, Harmless n s t := by
      by_cases hretry : body.retryable = true
      · exact ⟨0, .of_flags hb hr (by rw [hf, flagged, if_pos hretry])⟩
      have hmark : t.flags = s.flags.mark (.issued c) := by rw [hf, flagged, if_neg hretry]
      rcases hcond.resolve_left hretry with hlast | hidle
      · refine ⟨0, .of_flags hb hr ?_⟩
        rw [hmark, RelayFailureFlags.ids_mark]
        exact push_last s.flags.nodup s.flags.bounded hlast
      · exact ⟨_, .of_mark hc hb hr hmark hidle⟩
    obtain ⟨n, hn⟩ := hharmless
    rw [(hn.runs acts).request]

/-! ### A lab with two agents -/

def labA : Registry.ReplicaEndpoint := { agentId := "a", host := "10.0.0.1", port := 8080, modelId := "m" }

def labB : Registry.ReplicaEndpoint := { agentId := "b", host := "10.0.0.2", port := 8080, modelId := "m" }

def labLoop : Loop := { mode := .buffered, request := {}, candidates := [labA, labB] }

/-- Agent a holds the claim of a request that could also go to b. -/
def labSite : Site :=
  runs step
    { broker := {}, flags := .empty, request := .running labLoop (.attempting labA),
      known := fun _ hmem => absurd hmem not_mem_nil }
    [.relay (.claim "a" 0), .own (.attempt true 0 none)]

def labWork : Work :=
  { agentId := "a", replicaPort := 8080, request := {}, deadline := siteRelayDeadline, generation := 0,
    stream := .new maxResponseBufferBytes }

/-- b's retryable report leaves a's request alone. -/
theorem foreign_report_without_effect_lab : labSite.broker.heap[0]? = some labWork ∧
    ∀ acts, (runs step (step labSite (.failure "b" (.issued 0) ⟨0, "timeout", true⟩ 0)) acts).request.seen
      = (runs step labSite acts).request.seen := by
  have hwork : labSite.broker.heap[0]? = some labWork := by decide +kernel
  have hrequest : labSite.request.exchange = some 0 := by decide +kernel
  have hforeign : "b" ≠ labWork.agentId ∨ ((0 : ℕ) : ℤ) ≠ labWork.generation := .inl (by decide)
  exact ⟨hwork, (foreign_report_without_effect_iff labSite 0 labWork hwork hrequest "b"
    ⟨0, "timeout", true⟩ 0 hforeign).mpr (.inl rfl)⟩

/-- b reports a's claim as failed for good and is refused; then a fails it in a way that is to be
    retried. Without b's report the request moves on to b, with it the client gets an error. -/
theorem foreign_report_ends_request :
    let report : Act := .failure "b" (.issued 0) ⟨0, "timeout", false⟩ 0
    let later : List Act := [.failure "a" (.issued 0) ⟨0, "became_active", true⟩ 0,
      .own (.resume (some labB))]
    labSite.broker.heap[0]? = some labWork ∧ labWork.agentId ≠ "b" ∧
      (runs step (step labSite report) later).request.seen
        = ⟨some 502, sanitizedUpstreamError.body, true, false⟩ ∧
      (runs step labSite later).request.seen = ⟨none, [], false, true⟩ := by
  decide +kernel

end Fallow.App.Failure

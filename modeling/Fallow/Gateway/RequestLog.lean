import Fallow.Gateway.Lifecycle

/-! One entry per routed request, except where an exception goes past the writing of it.

    A request has no entry while it is under way; the step that ends it writes one or none.

        admission refuses, or is cancelled in the waiting room   ─▶  one entry
        a buffered answer, the loop's exit, the end of a body    ─▶  one entry
        an answer that leaks the slot                            ─▶  none
        the probe raises, or is cancelled with no waiting room   ─▶  none -/

namespace Fallow.Gateway.Lifecycle
open Registry Lib Bool List State Request

/-- Entries of request `i`. -/
def State.entriesOf (s : State) (i : ℕ) : ℕ := s.log.countP (·.1 = i)

/-- Every ended request has exactly one entry. -/
def Logged (s : State) : Prop :=
  ∀ i r, s.requests[i]? = some r → r.phase = .ended → s.entriesOf i = 1

namespace Request

/-- The answer ends the request past its entry: it leaks, or it leaves admission unseen. -/
def silent (cfg : Config) (r : Request) (a : Answer) : Bool := r.leaks a || r.lost cfg a

end Request

def Silent (cfg : Config) (s : State) : Act → Bool
  | .arrive _ => false
  | .resume i a _ => s.requests[i]?.any (·.silent cfg a)

/-! ### One step -/

/-- A move writes its entry when it ends the request, and only then. -/
theorem Move.length_entries (h : Move r t e)
    (hr : r.phase ≠ .ended) : e.entries.length = if e.request.phase = .ended then 1 else 0 := by
  cases h with
  | idle => exact (if_neg hr).symm
  | refuses ha => rfl
  | goes _ hp | admits _ _ hp | repicks _ _ hp => exact (if_neg (Phase.ne_ended_of_occupied hp)).symm
  | settles hk hh hp => exact (if_pos hp).symm

namespace Request

variable {cfg : Config} {r : Request} {t : Tracker} {a : Answer} {pick : Option ReplicaEndpoint}

theorem resume_of_ended (hr : r.phase = .ended) : r.resume cfg t a pick = ⟨r, t, []⟩ := by
  simp only [resume, hr]

theorem resume_of_silent (h : r.silent cfg a = true) : r.resume cfg t a pick = r.raised t := by
  rcases or_eq_true_iff.1 h with hl | hf
  · exact resume_of_leaks hl
  · exact resume_of_lost hf

theorem ne_ended_of_silent (h : r.silent cfg a = true) : r.phase ≠ .ended := by
  rcases or_eq_true_iff.1 h with hl | hf
  · obtain ⟨k, hk⟩ := occupied_of_leaks hl
    exact Phase.ne_ended_of_occupied hk
  · rw [admitting_of_lost hf]
    nofun

theorem length_entries_of_not_silent (h : r.silent cfg a = false) (hr : r.phase ≠ .ended) :
    (r.resume cfg t a pick).entries.length
      = if (r.resume cfg t a pick).request.phase = .ended then 1 else 0 := by
  obtain ⟨hl, hf⟩ := or_eq_false_iff.1 h
  exact (resume_cases hl hf).length_entries hr

end Request

theorem entriesOf_apply (s : State) (i j : ℕ) (e : Effect) :
    (s.apply i e).entriesOf j = s.entriesOf j + if i = j then e.entries.length else 0 := by
  simp only [entriesOf, apply, countP_append, countP_map]
  split
  · next h => subst h; simp [Function.comp_def]
  · next h => simp [Function.comp_def, h]

/-! ### Whole runs -/

/-- INVARIANT: no request has an entry before it ends, nor has one that did not arrive. -/
structure Unwritten (s : State) : Prop where
  unended : ∀ i r, s.requests[i]? = some r → r.phase ≠ .ended → s.entriesOf i = 0
  unarrived : ∀ i, s.requests.length ≤ i → s.entriesOf i = 0

theorem Unwritten.start : Unwritten {} := ⟨fun _ _ h => by simp at h, fun _ _ => rfl⟩

variable {s : State}

/-- An arrival brings a request that has not ended, and leaves the log. -/
theorem arrive_get {mode : Mode} (cfg : Config)
    (h : (step cfg s (.arrive mode)).requests[i]? = some r) :
    s.requests[i]? = some r ∨ i = s.requests.length ∧ r.phase = .admitting := by
  rcases getElem?_concat_iff.1 h with h | ⟨hi, rfl⟩
  · exact .inl h
  · exact .inr ⟨hi, rfl⟩

theorem Unwritten.step (h : Unwritten s) (cfg : Config) (a : Act) : Unwritten (step cfg s a) := by
  cases a with
  | arrive mode =>
    refine ⟨fun i r hr he => ?_, fun i hi => h.unarrived i ?_⟩
    · obtain hr | ⟨rfl, -⟩ := arrive_get cfg hr
      · exact h.unended i r hr he
      · exact h.unarrived _ (Nat.le_refl _)
    · simp only [Lifecycle.step, length_append] at hi
      omega
  | resume i a pick =>
    cases hr : s.requests[i]? with
    | none => simpa only [Lifecycle.step, hr] using h
    | some r =>
      have hi : i < s.requests.length := (List.getElem?_eq_some_iff.1 hr).1
      simp only [Lifecycle.step, hr]
      refine ⟨fun j x hx he => ?_, fun j hj => ?_⟩
      · rw [entriesOf_apply]
        simp only [apply, getElem?_set] at hx
        by_cases hij : i = j
        · subst hij
          obtain rfl : (r.resume cfg s.tracker a pick).request = x := by simpa [hi] using hx
          by_cases hend : r.phase = .ended
          · rw [resume_of_ended hend] at he
            exact absurd hend he
          · cases hs : r.silent cfg a with
            | true =>
              rw [resume_of_silent hs] at he
              exact absurd rfl he
            | false =>
              rw [if_pos rfl, length_entries_of_not_silent hs hend, if_neg he,
                h.unended i r hr hend]
        · rw [if_neg hij] at hx ⊢
          exact h.unended j x hx he
      · have hij : i ≠ j := by
          simp only [apply, length_set] at hj
          omega
        rw [entriesOf_apply, if_neg hij]
        refine h.unarrived j ?_
        simpa only [apply, length_set] using hj

theorem logged_step_iff (h : Unwritten s) :
    Logged (step cfg s a) ↔ Logged s ∧ Silent cfg s a = false := by
  cases a with
  | arrive mode =>
    rw [and_iff_left (show Silent cfg s (.arrive mode) = false from rfl)]
    refine ⟨fun hl i r hr he => hl i r ?_ he, fun hl i r hr he => ?_⟩
    · exact getElem?_concat_iff.2 (.inl hr)
    · obtain hr | ⟨-, ha⟩ := arrive_get cfg hr
      · exact hl i r hr he
      · exact absurd (ha.symm.trans he) nofun
  | resume i a pick =>
    cases hr : s.requests[i]? with
    | none => simp [step, Silent, hr]
    | some r =>
      have hi : i < s.requests.length := (List.getElem?_eq_some_iff.1 hr).1
      have hsil : Silent cfg s (.resume i a pick) = r.silent cfg a := by simp [Silent, hr]
      simp only [step, hr, hsil]
      -- the other requests keep their entries; request `i` has its own
      have hi' : (s.apply i (r.resume cfg s.tracker a pick)).requests[i]?
          = some (r.resume cfg s.tracker a pick).request := by simp [apply, hi]
      have hj' : ∀ j, i ≠ j →
          (s.apply i (r.resume cfg s.tracker a pick)).requests[j]? = s.requests[j]? ∧
          (s.apply i (r.resume cfg s.tracker a pick)).entriesOf j = s.entriesOf j := fun j hij =>
        ⟨getElem?_set_ne hij, by rw [entriesOf_apply, if_neg hij, Nat.add_zero]⟩
      have hn := entriesOf_apply s i i (r.resume cfg s.tracker a pick)
      rw [if_pos rfl] at hn
      constructor
      · refine fun hl => ⟨fun j x hx he => ?_, ?_⟩
        · by_cases hij : i = j
          · subst hij
            obtain rfl : r = x := Option.mem_unique hr hx
            have := hl i _ hi' (by rw [resume_of_ended he]; exact he)
            rwa [hn, resume_of_ended he] at this
          · obtain ⟨hq, hc⟩ := hj' j hij
            exact hc ▸ hl j x (hq.trans hx) he
        · rw [eq_false_iff]
          intro hs
          have := hl i _ hi' (by rw [resume_of_silent hs]; rfl)
          rw [hn, resume_of_silent hs, h.unended i r hr (ne_ended_of_silent hs)] at this
          cases this
      · rintro ⟨hl, hs⟩ j x hx he
        by_cases hij : i = j
        · subst hij
          obtain rfl : (r.resume cfg s.tracker a pick).request = x :=
            Option.mem_unique hi' hx
          by_cases hend : r.phase = .ended
          · rw [hn, resume_of_ended hend]
            exact hl i r hr hend
          · rw [hn, h.unended i r hr hend, length_entries_of_not_silent hs hend, if_pos he]
        · obtain ⟨hq, hc⟩ := hj' j hij
          exact hc.trans (hl j x (hq.symm.trans hx) he)

/-- CORRECT: every ended request of a run has exactly one entry exactly when no answer in the run
    goes past the entry. -/
theorem one_entry_per_request_iff (cfg : Config) (acts : List Act) :
    Logged (runs (step cfg) {} acts) ↔
      Admitted (step cfg) (fun s a => Silent cfg s a = false) {} acts := by
  rw [runs_iff_admitted Unwritten Logged (fun s a h => h.step cfg a)
    (fun s a h => logged_step_iff h) acts {} .start]
  exact and_iff_right fun _ _ h => by simp at h

/-- A retried stream the client leaves midway, and a request cut in the waiting room. -/
theorem one_entry_per_request_stream : Logged (runs (step { siteMode := true }) {}
    [.arrive .stream, .resume 0 (.admitted ⟨"a", "10.0.0.1", 1, "m", 0⟩ [⟨"b", "10.0.0.2", 1, "m", 0⟩])
       none,
     .resume 0 .noClaimant (some ⟨"b", "10.0.0.2", 1, "m", 0⟩), .arrive .buffered,
     .resume 0 (.route true) none, .resume 0 (.status 200) none, .resume 1 .cancelled none,
     .resume 0 .done none, .resume 0 .dropped none]) :=
  (one_entry_per_request_iff { siteMode := true } _).2
    ⟨rfl, rfl, rfl, rfl, rfl, rfl, rfl, rfl, rfl, trivial⟩

/-- A replica that resets the connection, and a probe whose registry read fails: both requests end
    with nothing in the log. -/
theorem reset_and_failed_probe_unlogged : ¬ Logged (runs (step {}) {}
    [.arrive .buffered, .resume 0 (.admitted ⟨"a", "10.0.0.1", 1, "m", 0⟩ []) none,
     .resume 0 (.error .readError) none]) ∧
    ¬ Logged (runs (step {}) {} [.arrive .buffered, .resume 0 .probeRaised none]) := by
  refine ⟨fun h => ?_, fun h => ?_⟩
  · exact absurd (h 0 _ rfl rfl) (by decide)
  · exact absurd (h 0 _ rfl rfl) (by decide)

end Fallow.Gateway.Lifecycle

import Fallow.Lib.Recent
import Fallow.Relay.Fence
import Fallow.Relay.Moves

/-! Offers and claims meet exactly once, and nothing is left behind.

    Four tables hold the rendezvous: the claim calls with their futures, the works, the registry of
    live works and the bounded history of ended ones. `Paired` ties them together and is kept by every
    move of the broker; `Later` is what no move ever takes back.

        offer ──▶ future of one pending call ──▶ returned (work)
                       │ timeout, cancellation
                       └──▶ abandoned: the work is ended first, then the call returns nothing

        works  ∋ c   ⟺   c is claimed or responding
        history      =   the last 4096 endings, oldest first -/

namespace Fallow.Relay
open Lib Recent List Option Broker

/-- How an ended claim is told apart later. -/
def classOf (state : WorkState) : Code := if state = .finished then .duplicate else .gone

/-- INVARIANT: calls, works, the registry and the history agree. -/
structure Paired (b : Broker) : Prop where
  live : ∀ c, c ∈ b.works ↔ Live b c
  nodup : b.works.Nodup
  made : ∀ {k c : ℕ} {call : ClaimCall}, b.claims[k]? = some call → call.fut = .result c →
    c < b.heap.length
  once : ∀ {k k' c : ℕ} {call call' : ClaimCall}, b.claims[k]? = some call →
    b.claims[k']? = some call' →
    call.fut = .result c → call'.fut = .result c → k = k'
  got : ∀ {k c : ℕ} {call : ClaimCall}, b.claims[k]? = some call → call.phase = .returned (some c) →
    call.fut = .result c
  waits : ∀ {k : ℕ} {call : ClaimCall}, b.claims[k]? = some call → call.fut = .pending →
    call.phase = .waiting
  dropped : ∀ {k c : ℕ} {call : ClaimCall} {w : Work}, b.claims[k]? = some call →
    call.phase = .returned none →
    call.fut = .result c → b.heap[c]? = some w → w.state.terminal = true
  keys : (b.terminalClass.map (·.1)).Nodup
  classed : ∀ e ∈ b.terminalClass, ∃ w : Work, b.heap[e.1]? = some w ∧ w.state.terminal = true ∧
    e.2 = classOf w.state
  full : ∀ {c : ℕ} {w : Work}, b.heap[c]? = some w → w.state.terminal = true →
    c ∈ b.terminalClass.map (·.1) ∨ b.terminalClass.length = terminalHistory
  bound : b.terminalClass.length ≤ terminalHistory

/-- The endings between two heaps, in order: each work that ended, once, with how it ended. -/
structure Endings (heap heap' : List Work) (new : List (ℕ × Code)) : Prop where
  once : (new.map (·.1)).Nodup
  before : ∀ e ∈ new, ∀ w : Work, heap[e.1]? = some w → w.state.terminal = false
  after : ∀ e ∈ new, ∃ w : Work, heap'[e.1]? = some w ∧ w.state.terminal = true ∧
    e.2 = classOf w.state
  all : ∀ {c : ℕ} {w' : Work}, heap'[c]? = some w' → w'.state.terminal = true →
    c ∈ new.map (·.1) ∨ ∃ w : Work, heap[c]? = some w ∧ w.state.terminal = true

/-- What stays: a call's work, an ended work's state, and the history but for its oldest entries. -/
structure Later (b b' : Broker) : Prop where
  fut : ∀ {k c : ℕ} {call : ClaimCall}, b.claims[k]? = some call → call.fut = .result c →
    ∃ call' : ClaimCall, b'.claims[k]? = some call' ∧ call'.fut = .result c
  ended : ∀ {c : ℕ} {w : Work}, b.heap[c]? = some w → w.state.terminal = true →
    ∃ w' : Work, b'.heap[c]? = some w' ∧ w'.state = w.state
  history : ∃ new, b'.terminalClass = (b.terminalClass ++ new).rtake terminalHistory ∧
    Endings b.heap b'.heap new

/-! ### The bounded history -/

variable {l : List (ℕ × Code)} {c : ℕ} {v : Code}

theorem recordLast_fresh (h : c ∉ l.map (·.1)) :
    recordLast cap c v l = (l ++ [(c, v)]).rtake cap := by
  have hfilter : l.filter (fun e => e.1 ≠ c) = l := by
    refine filter_eq_self.mpr fun e he => ?_
    refine decide_eq_true fun hc => h ?_
    rw [← hc]
    exact mem_map_of_mem he
  unfold recordLast
  rw [hfilter]
  rfl

section
variable {b b' b'' : Broker}

/-- Nothing ended. -/
theorem Endings.nil {heap heap' : List Work}
    (hback : ∀ {c : ℕ} {w' : Work}, heap'[c]? = some w' → w'.state.terminal = true →
      ∃ w : Work, heap[c]? = some w ∧ w.state.terminal = true) : Endings heap heap' [] :=
  ⟨nodup_nil, fun _ he => absurd he not_mem_nil, fun _ he => absurd he not_mem_nil,
    fun hw ht => .inr (hback hw ht)⟩

theorem Endings.append (h₁ : Endings b.heap b'.heap new₁) (h₂ : Endings b'.heap b''.heap new₂)
    (hpast : ∀ {c : ℕ} {w : Work}, b.heap[c]? = some w → w.state.terminal = true →
      ∃ w' : Work, b'.heap[c]? = some w' ∧ w'.state = w.state)
    (hkeep : ∀ {c : ℕ} {w : Work}, b'.heap[c]? = some w → w.state.terminal = true →
      ∃ w' : Work, b''.heap[c]? = some w' ∧ w'.state = w.state) :
    Endings b.heap b''.heap (new₁ ++ new₂) := by
  refine ⟨?_, fun e he w hw => ?_, fun e he => ?_, fun {c w'} hw ht => ?_⟩
  · rw [map_append]
    refine nodup_append.mpr ⟨h₁.once, h₂.once, ?_⟩
    intro x hx y hy hxy
    obtain ⟨e₁, he₁, rfl⟩ := mem_map.mp hx
    obtain ⟨e₂, he₂, rfl⟩ := mem_map.mp hy
    obtain ⟨w, hw, ht, -⟩ := h₁.after e₁ he₁
    have hlive := h₂.before e₂ he₂ w (hxy ▸ hw)
    rw [ht] at hlive
    cases hlive
  · rcases mem_append.mp he with he | he
    · exact h₁.before e he w hw
    · -- what ended later was not ended before
      by_contra ht
      have ht' : w.state.terminal = true := by simpa using ht
      obtain ⟨w', hw', hs'⟩ := hpast hw ht'
      have hlive := h₂.before e he w' hw'
      rw [hs', ht'] at hlive
      cases hlive
  · rcases mem_append.mp he with he | he
    · obtain ⟨w, hw, ht, hcl⟩ := h₁.after e he
      obtain ⟨w', hw', hs'⟩ := hkeep hw ht
      exact ⟨w', hw', by rw [hs']; exact ht, by rw [hs']; exact hcl⟩
    · exact h₂.after e he
  · rw [map_append]
    rcases h₂.all hw ht with hin | ⟨w, hw, ht⟩
    · exact .inl (mem_append_right _ hin)
    · exact (h₁.all hw ht).imp_left (mem_append_left _)

theorem Later.refl (hb : b.terminalClass.length ≤ terminalHistory) : Later b b := by
  refine ⟨fun hk hf => ⟨_, hk, hf⟩, fun hw _ => ⟨_, hw, rfl⟩, [], ?_, .nil fun hw ht => ⟨_, hw, ht⟩⟩
  rw [append_nil, rtake_of_length_le hb]

theorem Later.trans (h₁ : Later b b') (h₂ : Later b' b'') : Later b b'' := by
  refine ⟨fun hk hf => ?_, fun hw ht => ?_, ?_⟩
  · obtain ⟨call', hk', hf'⟩ := h₁.fut hk hf
    exact h₂.fut hk' hf'
  · obtain ⟨w', hw', hs'⟩ := h₁.ended hw ht
    obtain ⟨w'', hw'', hs''⟩ := h₂.ended hw' (by rw [hs']; exact ht)
    exact ⟨w'', hw'', hs''.trans hs'⟩
  · obtain ⟨new₁, he₁, hnew₁⟩ := h₁.history
    obtain ⟨new₂, he₂, hnew₂⟩ := h₂.history
    refine ⟨new₁ ++ new₂, ?_, hnew₁.append hnew₂ h₁.ended h₂.ended⟩
    rw [he₂, he₁, rtake_rtake_append, append_assoc]

/-! ### Moves of the claim calls -/

/-- A call after a move that leaves the works alone: the same work, and never a return that does not
    fit it. -/
structure CallOk (b : Broker) (call call' : ClaimCall) : Prop where
  fut : ∀ c, call'.fut = .result c ↔ call.fut = .result c
  got : ∀ c, call'.phase = .returned (some c) → call'.fut = .result c
  waits : call'.fut = .pending → call'.phase = .waiting
  dropped : ∀ c w, call'.phase = .returned none → call'.fut = .result c → b.heap[c]? = some w →
    w.state.terminal = true

section
variable (h : Paired b) {k : ℕ} {call : ClaimCall} {f : Work → Work} {g : ClaimCall → ClaimCall}
include h

theorem Paired.callOk (hk : b.claims[k]? = some call) : CallOk b call call :=
  ⟨fun _ => Iff.rfl, fun _ hp => h.got hk hp, h.waits hk, fun _ _ hp hf hw => h.dropped hk hp hf hw⟩

/-- One work and one call change; the work keeps whether and how it ended. -/
theorem Paired.modify (hheap : b'.heap = b.heap.modify c f) (hworks : b'.works = b.works)
    (hclass : b'.terminalClass = b.terminalClass) (hclaims : b'.claims = b.claims.modify k g)
    (hf : ∀ w, b.heap[c]? = some w → (f w).state.terminal = w.state.terminal ∧
      (w.state.terminal = true → (f w).state = w.state))
    (hg : ∀ call, b.claims[k]? = some call → CallOk b call (g call)) : Paired b' ∧ Later b b' := by
  have hnew : ∀ {d : ℕ} {w : Work}, b.heap[d]? = some w → ∃ w', b'.heap[d]? = some w' ∧
      w'.state.terminal = w.state.terminal ∧ (w.state.terminal = true → w'.state = w.state) := by
    intro d w hw
    refine ⟨if c = d then f w else w, ?_, ?_⟩
    · rw [hheap, getElem?_modify_map, hw]; rfl
    · split
      · rename_i hcd; exact hf w (hcd ▸ hw)
      · exact ⟨rfl, fun _ => rfl⟩
  have hold : ∀ {d : ℕ} {w' : Work}, b'.heap[d]? = some w' → ∃ w, b.heap[d]? = some w ∧
      w'.state.terminal = w.state.terminal ∧ (w.state.terminal = true → w'.state = w.state) := by
    intro d w' hw'
    cases hw : b.heap[d]? with
    | none => rw [hheap, getElem?_modify_map, hw] at hw'; cases hw'
    | some w =>
      obtain ⟨w'', hw'', hst⟩ := hnew hw
      obtain rfl := mem_unique hw' hw''
      exact ⟨w, rfl, hst⟩
  have hcall : ∀ {j : ℕ} {call' : ClaimCall}, b'.claims[j]? = some call' →
      ∃ call, b.claims[j]? = some call ∧ CallOk b call call' := by
    intro j call' hj
    rw [hclaims, getElem?_modify_map] at hj
    obtain ⟨call, hcall, rfl⟩ := map_eq_some_iff.mp hj
    refine ⟨call, hcall, ?_⟩
    split
    · rename_i hkj; exact hg call (hkj ▸ hcall)
    · exact h.callOk hcall
  constructor
  · refine
      { live := fun d => ?_
        nodup := by rw [hworks]; exact h.nodup
        made := fun hk hfut => ?_
        once := fun hk hk' hfut hfut' => ?_
        got := fun hk hp => ?_
        waits := fun hk hfut => ?_
        dropped := fun hk hp hfut hw' => ?_
        keys := by rw [hclass]; exact h.keys
        classed := fun e he => ?_
        full := fun hw' ht => ?_
        bound := by rw [hclass]; exact h.bound }
    · rw [hworks, h.live d]
      constructor
      · rintro ⟨w, hw, ht⟩
        obtain ⟨w', hw', hst, -⟩ := hnew hw
        exact ⟨w', hw', hst.trans ht⟩
      · rintro ⟨w', hw', ht⟩
        obtain ⟨w, hw, hst, -⟩ := hold hw'
        exact ⟨w, hw, hst.symm.trans ht⟩
    · obtain ⟨call, hcall, hok⟩ := hcall hk
      rw [hheap, length_modify]
      exact h.made hcall ((hok.fut _).mp hfut)
    · obtain ⟨call, hcall₁, hok⟩ := hcall hk
      obtain ⟨call', hcall₂, hok'⟩ := hcall hk'
      exact h.once hcall₁ hcall₂ ((hok.fut _).mp hfut) ((hok'.fut _).mp hfut')
    · obtain ⟨call, -, hok⟩ := hcall hk
      exact hok.got _ hp
    · obtain ⟨call, -, hok⟩ := hcall hk
      exact hok.waits hfut
    · obtain ⟨call, -, hok⟩ := hcall hk
      obtain ⟨w, hw, hst, -⟩ := hold hw'
      rw [hst]
      exact hok.dropped _ _ hp hfut hw
    · obtain ⟨w, hw, ht, hcl⟩ := h.classed e (hclass ▸ he)
      obtain ⟨w', hw', hst, hsame⟩ := hnew hw
      exact ⟨w', hw', hst.trans ht, by rw [hsame ht]; exact hcl⟩
    · obtain ⟨w, hw, hst, -⟩ := hold hw'
      rw [hclass]
      exact h.full hw (hst.symm.trans ht)
  · refine ⟨fun {j d call} hj hfut => ⟨if k = j then g call else call, ?_, ?_⟩, fun hw ht => ?_, [], ?_,
      .nil fun hw' ht => ?_⟩
    · rw [hclaims, getElem?_modify_map, hj]; rfl
    · split
      · rename_i hkj
        exact ((hg call (hkj ▸ hj)).fut d).mpr hfut
      · exact hfut
    · obtain ⟨w', hw', -, hsame⟩ := hnew hw
      exact ⟨w', hw', hsame ht⟩
    · rw [hclass, append_nil, rtake_of_length_le h.bound]
    · obtain ⟨w, hw, hst, -⟩ := hold hw'
      exact ⟨w, hw, hst.symm.trans ht⟩

theorem Paired.modifyCall (hheap : b'.heap = b.heap)
    (hworks : b'.works = b.works) (hclass : b'.terminalClass = b.terminalClass)
    (hclaims : b'.claims = b.claims.modify k g)
    (hg : ∀ call, b.claims[k]? = some call → CallOk b call (g call)) : Paired b' ∧ Later b b' :=
  h.modify (c := 0) (f := id) (by rw [hheap, modify_id]) hworks hclass hclaims
    (fun _ _ => ⟨rfl, fun _ => rfl⟩) hg

theorem Paired.called (a : String) (g : ℤ) :
    Paired { b with claims := b.claims ++ [{ agentId := a, presenceGeneration := g }] } ∧
      Later b { b with claims := b.claims ++ [{ agentId := a, presenceGeneration := g }] } := by
  -- a new call has no work, so every call with one is old
  have hold : ∀ {j : ℕ} {call : ClaimCall},
      (b.claims ++ [{ agentId := a, presenceGeneration := g }])[j]? = some call →
      b.claims[j]? = some call ∨ (call.fut = .pending ∧ call.phase = .waiting) := by
    intro j call hj
    rcases getElem?_concat_iff.1 hj with hj | ⟨-, rfl⟩
    · exact .inl hj
    · exact .inr ⟨rfl, rfl⟩
  have hwith : ∀ {j c : ℕ} {call : ClaimCall},
      (b.claims ++ [{ agentId := a, presenceGeneration := g }])[j]? = some call →
      call.fut = .result c → b.claims[j]? = some call := by
    intro j c call hj hfut
    rcases hold hj with hj | ⟨hp, -⟩
    · exact hj
    · rw [hp] at hfut; cases hfut
  constructor
  · refine { h with
      made := fun hk hfut => h.made (hwith hk hfut) hfut
      once := fun hk hk' hfut hfut' => h.once (hwith hk hfut) (hwith hk' hfut') hfut hfut'
      got := fun hk hp => ?_
      waits := fun hk hfut => ?_
      dropped := fun hk hp hfut hw => h.dropped (hwith hk hfut) hp hfut hw }
    · rcases hold hk with hk | ⟨-, hp'⟩
      · exact h.got hk hp
      · rw [hp'] at hp; cases hp
    · rcases hold hk with hk | ⟨-, hp⟩
      · exact h.waits hk hfut
      · exact hp
  · exact { Later.refl h.bound with
      fut := fun hj hfut => ⟨_, getElem?_concat_iff.2 (.inl hj), hfut⟩ }

/-! ### Moves of the works -/

variable {c : ℕ} {w : Work}

/-- After one more ending a claim that ended is in the history, or the history is full. -/
theorem ended_full (hclass : b'.terminalClass = (b.terminalClass ++ [(c, v)]).rtake terminalHistory)
    (hother : ∀ {d}, d ≠ c → b'.heap[d]? = b.heap[d]?)
    (hw : b'.heap[d]? = some w) (ht : w.state.terminal = true) :
    d ∈ b'.terminalClass.map (·.1) ∨ b'.terminalClass.length = terminalHistory := by
  have hlen : (b.terminalClass ++ [(c, v)]).length = b.terminalClass.length + 1 := by simp
  by_cases hroom : b.terminalClass.length + 1 ≤ terminalHistory
  · -- nothing is evicted
    rw [rtake_of_length_le (by rw [hlen]; exact hroom)] at hclass
    by_cases hd : d = c
    · exact .inl (by rw [hclass, hd]; simp)
    · rcases h.full ((hother hd).symm.trans hw) ht with hin | hfull
      · exact .inl (by rw [hclass, map_append]; exact mem_append_left _ hin)
      · omega
  · refine .inr ?_
    rw [hclass, rtake, length_drop, hlen]
    omega

variable {state : WorkState} {ok : Task → Prop}

section
variable (hs : state.terminal = true) {reason : Option String}
include hs

/-- A work leaves the registry for the history. -/
theorem Paired.endWith (hw : b.heap[c]? = some w) (ht : w.state.terminal = false)
    (hf : ∀ w, (f w).state = state) (hfresh : c ∉ b.terminalClass.map (·.1))
    (hheap : b'.heap = b.heap.modify c f) (hworks : b'.works = b.works.filter (· ≠ c))
    (hclass : b'.terminalClass = (b.terminalClass ++ [(c, classOf state)]).rtake terminalHistory)
    (hclaims : b'.claims = b.claims) : Paired b' ∧ Later b b' := by
  have hat : b'.heap[c]? = some (f w) := by rw [hheap, getElem?_modify_map, hw]; simp
  have hother : ∀ {d}, d ≠ c → b'.heap[d]? = b.heap[d]? := by
    intro d hd
    rw [hheap, getElem?_modify_map]
    simp [Ne.symm hd]
  have hends : ∀ {d : ℕ} {v : Work}, b.heap[d]? = some v → v.state.terminal = true →
      b'.heap[d]? = some v := by
    intro d v hv hvt
    refine (hother ?_).trans hv
    rintro rfl
    rw [hw] at hv
    rw [← some.inj hv, ht] at hvt
    cases hvt
  have hmem : ∀ e ∈ b'.terminalClass, e ∈ b.terminalClass ∨ e = (c, classOf state) := by
    intro e he
    rw [hclass] at he
    rcases mem_append.mp (mem_of_mem_drop he) with he | he
    · exact .inl he
    · exact .inr (mem_singleton.mp he)
  constructor
  · refine
      { live := fun d => ?_
        nodup := by rw [hworks]; exact h.nodup.filter _
        made := fun hk hfut => ?_
        once := by rw [hclaims]; exact h.once
        got := by rw [hclaims]; exact h.got
        waits := by rw [hclaims]; exact h.waits
        dropped := fun {k d call v} hk hp hfut hv => ?_
        keys := ?_
        classed := fun e he => ?_
        full := fun {d v} hv hvt => ?_
        bound := ?_ }
    · rw [hworks, mem_filter, decide_eq_true_eq, h.live d]
      constructor
      · rintro ⟨⟨v, hv, hvt⟩, hd⟩
        exact ⟨v, (hother hd).trans hv, hvt⟩
      · rintro ⟨v, hv, hvt⟩
        have hd : d ≠ c := by
          rintro rfl
          rw [hat] at hv
          rw [← some.inj hv, hf, hs] at hvt
          cases hvt
        exact ⟨⟨v, (hother hd).symm.trans hv, hvt⟩, hd⟩
    · rw [hheap, length_modify]
      exact h.made (hclaims ▸ hk) hfut
    · by_cases hd : d = c
      · rw [hd, hat] at hv
        rw [← some.inj hv, hf]; exact hs
      · exact h.dropped (hclaims ▸ hk) hp hfut ((hother hd).symm.trans hv)
    · rw [hclass, rtake, map_drop, map_append]
      refine List.Nodup.sublist (drop_sublist ..) (nodup_append.mpr ⟨h.keys, by simp, ?_⟩)
      intro x hx y hy hxy
      rw [map_cons, map_nil, mem_singleton] at hy
      rw [hxy, hy] at hx
      exact hfresh hx
    · rcases hmem e he with he | rfl
      · obtain ⟨v, hv, hvt, hcl⟩ := h.classed e he
        exact ⟨v, hends hv hvt, hvt, hcl⟩
      · exact ⟨f w, hat, by rw [hf]; exact hs, by rw [hf]⟩
    · exact ended_full h hclass hother hv hvt
    · rw [hclass, rtake, length_drop]; omega
  · refine ⟨fun hk hfut => ⟨_, by rw [hclaims]; exact hk, hfut⟩, fun hv hvt => ⟨_, hends hv hvt, rfl⟩,
      [(c, classOf state)], hclass, by simp, fun e he v hv => ?_, fun e he => ?_, fun {d v} hv hvt => ?_⟩
    · rw [mem_singleton.mp he, hw] at hv
      rw [← some.inj hv]; exact ht
    · rw [mem_singleton.mp he]
      exact ⟨f w, hat, by rw [hf]; exact hs, by rw [hf]⟩
    · by_cases hd : d = c
      · exact .inl (by simp [hd])
      · exact .inr ⟨v, (hother hd).symm.trans hv, hvt⟩

/-- The end of a live work: out of the registry, into the history. -/
theorem Paired.endLive (hw : b.heap[c]? = some w) (ht : w.state.terminal = false) :
    Paired (b.terminate c state reason).1 ∧ Later b (b.terminate c state reason).1 := by
  -- a live work is not in the history yet
  have hfresh : c ∉ b.terminalClass.map (·.1) := by
    intro hc
    obtain ⟨e, he, rfl⟩ := mem_map.mp hc
    obtain ⟨w', hw', ht', -⟩ := h.classed e he
    rw [hw] at hw'
    rw [← some.inj hw', ht] at ht'
    cases ht'
  have hterm : (b.terminate c state reason).1 = { b with
      heap := b.heap.modify c fun w => { w with state := state, reason := reason, started := true }
      works := b.works.filter (· ≠ c)
      terminalClass := (b.terminalClass ++ [(c, classOf state)]).rtake terminalHistory
      lastClaim := recordLast lastClaimHistory w.agentId ⟨state, reason⟩ b.lastClaim } := by
    rw [← recordLast_fresh hfresh]
    unfold terminate
    rw [hw]
    simp only [ht, Bool.false_eq_true, if_false, classOf]
  rw [hterm]
  exact h.endWith hs hw ht (by intro _; rfl) hfresh rfl rfl (by with_reducible rfl) rfl

/-- `_terminate`: the one ending of a live work, nothing for any other. -/
theorem Paired.ended :
    Paired (b.terminate c state reason).1 ∧ Later b (b.terminate c state reason).1 := by
  cases hw : b.heap[c]? with
  | none =>
    have he : (b.terminate c state reason).1 = b := by unfold terminate; rw [hw]
    rw [he]; exact ⟨h, .refl h.bound⟩
  | some w =>
    by_cases ht : w.state.terminal = true
    · have he : (b.terminate c state reason).1 = b := by
        unfold terminate; rw [hw]; simp only [if_pos ht]
      rw [he]; exact ⟨h, .refl h.bound⟩
    · have ht' : w.state.terminal = false := by simpa using ht
      exact h.endLive hs hw ht'

end

/-- A new work is registered under a number no call has, and goes to a call that has none. -/
theorem Paired.offered
    (hk : b.claims[k]? = some call) (hf : call.fut = .pending) (hw : w.state = .claimed)
    (hheap : b'.heap = b.heap ++ [w]) (hworks : b'.works = b.works ++ [b.heap.length])
    (hclass : b'.terminalClass = b.terminalClass)
    (hclaims : b'.claims
      = b.claims.modify k fun call => { call with fut := .result b.heap.length }) :
    Paired b' ∧ Later b b' := by
  have hbound : ∀ {c : ℕ} {v : Work}, b'.heap[c]? = some v ↔
      b.heap[c]? = some v ∨ (c = b.heap.length ∧ v = w) := by
    intro c v
    rw [hheap, getElem?_concat_iff]
  -- a call is the one that got the new work, or as it was
  have hcall : ∀ {j : ℕ} {call' : ClaimCall}, b'.claims[j]? = some call' →
      (j = k ∧ call' = { call with fut := .result b.heap.length }) ∨
        (j ≠ k ∧ b.claims[j]? = some call') := by
    intro j call' hj
    rw [hclaims, getElem?_modify_map] at hj
    obtain ⟨old, hold, rfl⟩ := map_eq_some_iff.mp hj
    by_cases hkj : k = j
    · rw [← hkj, hk] at hold
      rw [if_pos hkj, ← some.inj hold]
      exact .inl ⟨hkj.symm, rfl⟩
    · rw [if_neg hkj]
      exact .inr ⟨Ne.symm hkj, hold⟩
  have hlive : w.state.terminal = false := by rw [hw]; rfl
  constructor
  · refine
      { live := fun c => ?_
        nodup := ?_
        made := fun {j c call'} hj hfut => ?_
        once := fun {i j c call₁ call₂} hi hj hfut hfut' => ?_
        got := fun {j c call'} hj hp => ?_
        waits := fun {j call'} hj hfut => ?_
        dropped := fun {j c call' v} hj hp hfut hv => ?_
        keys := by rw [hclass]; exact h.keys
        classed := fun e he => ?_
        full := fun {c v} hv ht => ?_
        bound := by rw [hclass]; exact h.bound }
    · rw [hworks, mem_append, mem_singleton, h.live c]
      constructor
      · rintro (⟨v, hv, ht⟩ | rfl)
        · exact ⟨v, hbound.2 (.inl hv), ht⟩
        · exact ⟨w, hbound.2 (.inr ⟨rfl, rfl⟩), hlive⟩
      · rintro ⟨v, hv, ht⟩
        rcases hbound.1 hv with hv | ⟨rfl, -⟩
        · exact .inl ⟨v, hv, ht⟩
        · exact .inr rfl
    · rw [hworks]
      refine nodup_append.mpr ⟨h.nodup, by simp, ?_⟩
      intro x hx y hy hxy
      obtain ⟨v, hv, -⟩ := (h.live x).mp hx
      have hlt := (List.getElem?_eq_some_iff.mp hv).1
      rw [hxy, mem_singleton.mp hy] at hlt
      exact Nat.lt_irrefl _ hlt
    · rw [hheap, length_append, length_singleton]
      rcases hcall hj with ⟨-, rfl⟩ | ⟨-, hj⟩
      · cases hfut; exact Nat.lt_succ_self _
      · exact Nat.lt_succ_of_lt (h.made hj hfut)
    · -- the new number is above every number a call had
      rcases hcall hi with ⟨rfl, rfl⟩ | ⟨-, hi⟩ <;> rcases hcall hj with ⟨rfl, rfl⟩ | ⟨-, hj⟩
      · rfl
      · cases hfut; exact absurd (h.made hj hfut') (Nat.lt_irrefl _)
      · cases hfut'; exact absurd (h.made hi hfut) (Nat.lt_irrefl _)
      · exact h.once hi hj hfut hfut'
    · rcases hcall hj with ⟨-, rfl⟩ | ⟨-, hj⟩
      · rw [h.got hk hp] at hf; cases hf
      · exact h.got hj hp
    · rcases hcall hj with ⟨-, rfl⟩ | ⟨-, hj⟩
      · cases hfut
      · exact h.waits hj hfut
    · rcases hcall hj with ⟨-, rfl⟩ | ⟨-, hj⟩
      · rw [h.waits hk hf] at hp; cases hp
      · rcases hbound.1 hv with hv | ⟨rfl, -⟩
        · exact h.dropped hj hp hfut hv
        · exact absurd (h.made hj hfut) (Nat.lt_irrefl _)
    · obtain ⟨v, hv, ht, hcl⟩ := h.classed e (hclass ▸ he)
      exact ⟨v, hbound.2 (.inl hv), ht, hcl⟩
    · rw [hclass]
      rcases hbound.1 hv with hv | ⟨-, rfl⟩
      · exact h.full hv ht
      · rw [hlive] at ht; cases ht
  · refine ⟨fun {j c call'} hj hfut => ⟨call', ?_, hfut⟩, fun hv _ => ⟨_, hbound.2 (.inl hv), rfl⟩, [], ?_,
      .nil fun {c v} hv ht => ?_⟩
    · rw [hclaims, getElem?_modify_map, hj]
      have hkj : k ≠ j := by
        rintro rfl
        rw [hk] at hj
        rw [← some.inj hj, hf] at hfut
        cases hfut
      rw [map_some, if_neg hkj]
    · rw [hclass, append_nil, rtake_of_length_le h.bound]
    · rcases hbound.1 hv with hv | ⟨-, rfl⟩
      · exact ⟨v, hv, ht⟩
      · rw [hlive] at ht; cases ht

/-! ### Every move, every step -/

/-- A move that touches none of the four tables. -/
theorem Paired.frame (hheap : b'.heap = b.heap) (hworks : b'.works = b.works)
    (hclass : b'.terminalClass = b.terminalClass) (hclaims : b'.claims = b.claims) :
    Paired b' ∧ Later b b' := by
  refine h.modifyCall (k := 0) (g := id) hheap hworks hclass ?_ fun _ => h.callOk
  rw [hclaims, modify_id]

theorem Paired.move (hm : Move ok b b') : Paired b' ∧ Later b b' := by
  cases hm with
  | records waiters generation completed | tasks ht => exact h.frame rfl rfl rfl rfl
  | called a g => exact h.called a g
  | ended c reason hs => exact h.ended hs
  | offered hk hf hw hs => exact h.offered hk hf hw rfl rfl rfl rfl
  | responded hw hst hf hstream =>
    refine h.modify (k := 0) (g := id) rfl rfl rfl (modify_id ..).symm (fun w' hw' => ?_)
      fun _ => h.callOk
    rw [hw] at hw'
    rw [← some.inj hw', hf, hst]
    exact ⟨rfl, nofun⟩
  | cancel k =>
    refine h.modifyCall rfl rfl rfl rfl fun call hk => ?_
    have hok := h.callOk hk
    cases hf : call.fut with
    | pending =>
      have hp : call.phase = .waiting := hok.waits hf
      refine ⟨by rintro c; rw [hf]; simp [Fut.cancel], ?_, nofun, by rintro c w - ⟨⟩⟩
      rintro c hret
      rw [hp] at hret; cases hret
    | result c =>
      change CallOk b call { call with fut := .result c }
      rw [← hf]; exact hok
    | cancelled =>
      change CallOk b call { call with fut := .cancelled }
      rw [← hf]; exact hok
  | resumed hk hf hp =>
    refine h.modifyCall rfl rfl rfl rfl fun call' hk' => ?_
    obtain rfl := mem_unique hk hk'
    refine ⟨fun _ => Iff.rfl, ?_, ?_, by rintro c w ⟨⟩⟩
    · rintro c ⟨⟩; exact hf
    · intro hpend; rw [hf] at hpend; cases hpend
  | gaveUp hk hp hf =>
    refine h.modifyCall rfl rfl rfl rfl fun call' hk' => ?_
    obtain rfl := mem_unique hk hk'
    exact ⟨fun _ => Iff.rfl, by rintro c ⟨⟩, fun hpend => absurd hpend hf, by rintro c w ⟨⟩⟩
  | abandoned hk hp hf hd =>
    refine h.modifyCall rfl rfl rfl rfl fun call' hk' => ?_
    obtain rfl := mem_unique hk hk'
    exact ⟨fun _ => Iff.rfl, by rintro c ⟨⟩, fun hpend => absurd hpend hf, fun c w _ => hd c w⟩

theorem Paired.moves (hm : Moves ok b b') : Paired b' ∧ Later b b' := by
  induction hm with
  | refl => exact ⟨h, .refl h.bound⟩
  | tail _ hm ih =>
    obtain ⟨hp, hl⟩ := ih.1.move hm
    exact ⟨hp, ih.2.trans hl⟩

theorem Paired.step (act : Act) : Paired (Relay.step b act) ∧ Later b (Relay.step b act) := by
  rcases step_cases b act with hm | hs
  · exact h.moves hm
  · obtain ⟨c, f, hf⟩ := hs.heap
    exact h.modify (k := 0) (g := id) hf hs.works hs.terminalClass (by rw [hs.claims, modify_id])
      (fun _ _ => ⟨rfl, fun _ => rfl⟩) fun _ => h.callOk

end

theorem Paired.runs : ∀ (acts : List Act) {b : Broker}, Paired b →
    Paired (Lib.runs Relay.step b acts) ∧ Later b (Lib.runs Relay.step b acts)
  | [], _, h => ⟨h, .refl h.bound⟩
  | act :: acts, _, h => by
    obtain ⟨hp, hl⟩ := h.step act
    obtain ⟨hp', hl'⟩ := Paired.runs acts hp
    exact ⟨hp', hl.trans hl'⟩

theorem paired_fresh (maxBuffer : ℕ) : Paired { maxBuffer := maxBuffer } where
  live c := by
    constructor
    · rintro ⟨⟩
    · rintro ⟨w, ⟨⟩, -⟩
  nodup := nodup_nil
  made hk := by cases hk
  once hk := by cases hk
  got hk := by cases hk
  waits hk := by cases hk
  dropped hk := by cases hk
  keys := nodup_nil
  classed e he := by cases he
  full hw := by cases hw
  bound := Nat.zero_le _

/-! ### Exactly once, and nothing left behind -/

/-- What holds of the four tables in one state. -/
structure ExactlyOnce (b : Broker) : Prop where
  /-- no two calls hold one work -/
  handedOnce : ∀ (k k' c : ℕ) (call call' : ClaimCall), b.claims[k]? = some call →
    b.claims[k']? = some call' → call.fut = .result c → call'.fut = .result c → k = k'
  /-- a call returns the work its future holds and no other -/
  returned : ∀ (k c : ℕ) (call : ClaimCall), b.claims[k]? = some call → call.phase = .returned (some c) →
    call.fut = .result c
  worksOnce : b.works.Nodup
  works : ∀ c, c ∈ b.works ↔ ∃ w : Work, b.heap[c]? = some w ∧ w.state.terminal = false
  /-- a live work has no classification; an ended one has its own until it is evicted -/
  classified : ∀ (c : ℕ) (w : Work), b.heap[c]? = some w →
    if w.state.terminal then
      b.terminalClass.lookup c = some (if w.state = .finished then .duplicate else .gone) ∨
        (b.terminalClass.lookup c = none ∧ b.terminalClass.length = terminalHistory)
    else b.terminalClass.lookup c = none
  classifiedOnce : (b.terminalClass.map (·.1)).Nodup
  /-- a call that was given a work and returned without it left it terminal -/
  dropped : ∀ (k c : ℕ) (call : ClaimCall) (w : Work), b.claims[k]? = some call →
    call.phase = .returned none → call.fut = .result c → b.heap[c]? = some w → w.state.terminal = true

theorem lookup_of_mem (h : (l.map (·.1)).Nodup) (he : e ∈ l) : l.lookup e.1 = some e.2 := by
  induction l with
  | nil => cases he
  | cons x xs ih =>
    rw [map_cons, nodup_cons] at h
    rcases mem_cons.mp he with rfl | hin
    · rw [lookup_cons, beq_self_eq_true]
    have hne : (e.1 == x.1) = false := by
      refine beq_false_of_ne fun heq => h.1 ?_
      rw [← heq]
      exact mem_map_of_mem hin
    rw [lookup_cons, hne]
    exact ih h.2 hin

theorem lookup_eq_none_of_not_mem (h : c ∉ l.map (·.1)) : l.lookup c = none := by
  refine lookup_eq_none_iff.mpr fun e he => bne_iff_ne.mpr fun heq => h ?_
  rw [heq]
  exact mem_map_of_mem he

theorem Paired.exactlyOnce (h : Paired b) : ExactlyOnce b where
  handedOnce _ _ _ _ _ := h.once
  returned _ _ _ := h.got
  worksOnce := h.nodup
  works := h.live
  classified c w hw := by
    cases ht : w.state.terminal with
    | true =>
      by_cases hin : c ∈ b.terminalClass.map (·.1)
      · obtain ⟨e, he, rfl⟩ := mem_map.mp hin
        obtain ⟨w', hw', -, hcl⟩ := h.classed e he
        rw [hw] at hw'
        rw [lookup_of_mem h.keys he, hcl, ← some.inj hw']
        exact .inl rfl
      · exact .inr ⟨lookup_eq_none_of_not_mem hin, (h.full hw ht).resolve_left hin⟩
    | false =>
      refine lookup_eq_none_of_not_mem fun hin => ?_
      obtain ⟨e, he, rfl⟩ := mem_map.mp hin
      obtain ⟨w', hw', ht', -⟩ := h.classed e he
      rw [hw] at hw'
      rw [← some.inj hw', ht] at ht'
      cases ht'
  classifiedOnce := h.keys
  dropped _ _ _ _ := h.dropped

/-- CORRECT: in every interleaving the rendezvous is exactly once in every state, and what it decided
    (who has a work, how a work ended, the order of the endings) is never taken back. -/
theorem rendezvous_exactly_once (maxBuffer : ℕ) (acts acts' : List Act) :
    ExactlyOnce (runs step { maxBuffer := maxBuffer } acts) ∧
      Later (runs step { maxBuffer := maxBuffer } acts)
        (runs step (runs step { maxBuffer := maxBuffer } acts) acts') := by
  have hp := (Paired.runs acts (paired_fresh maxBuffer)).1
  exact ⟨hp.exactlyOnce, (Paired.runs acts' hp).2⟩

end

/-! ### Finding a claimant -/

/-- A waiter that can take work: its future is not done and it is not below the fence. -/
def Claimant (b : Broker) (a : String) (e : ℕ × ℤ) : Prop :=
  e ∈ b.waiters a ∧ b.futDone e.1 = false ∧ b.stale a e.2 = false

/-- The offer succeeds, and its work is in the future of a claimant. -/
def Served (b : Broker) (a : String) (port : ℕ) (request : RelayRequest) (deadline : ℤ) : Prop :=
  ∃ c e call w, (b.offer a port request deadline).2 = .ok c ∧ Claimant b a e ∧
    (b.offer a port request deadline).1.claims[e.1]? = some call ∧ call.fut = .result c ∧
    (b.offer a port request deadline).1.heap[c]? = some w ∧ w.agentId = a ∧ w.request = request

/-- With a claimant in the list an offer finds one exactly when the first waiter that is not done is
    none below the fence: `offer` tries that waiter only. -/
theorem offer_finds_claimant_iff {b : Broker} {a : String} {request : RelayRequest} (port : ℕ)
    (deadline : ℤ) (hsize : request.body.length ≤ maxRequestBytes)
    (hadm : admissible request = true) (hlive : ∃ e, Claimant b a e) :
    Served b a port request deadline ↔
      ∀ e ∈ ((b.waiters a).dropWhile (b.futDone ·.1)).head?, b.stale a e.2 = false := by
  obtain ⟨e₀, hin, hpending, -⟩ := hlive
  rcases hdrop : (b.waiters a).dropWhile (b.futDone ·.1) with _ | ⟨⟨k, g⟩, slots⟩
  · have hdone := dropWhile_eq_nil_iff.mp hdrop e₀ hin
    rw [hpending] at hdone
    cases hdone
  have hstale : ∀ slots, ({ b with waiters := slots } : Broker).stale a g = b.stale a g := fun _ => rfl
  simp only [Served, offer, if_neg (Nat.not_lt.mpr hsize), if_neg (not_not_intro hadm), hdrop,
    hstale, head?_cons, mem_some_iff, forall_eq']
  cases hg : b.stale a g with
  | true => simp
  | false =>
    obtain ⟨call, hk, hf⟩ := pending_of_dropWhile hdrop
    have hmem : (k, g) ∈ b.waiters a :=
      (dropWhile_suffix _).subset (hdrop ▸ mem_cons_self)
    have hnot : b.futDone k = false := by rw [futDone, hk, all_some, hf]; rfl
    refine iff_of_true ⟨_, (k, g), _, _, rfl, ⟨hmem, hnot, hg⟩, getElem?_modifyFut hk, rfl,
      getElem?_concat_length .., rfl, rfl⟩ rfl

theorem offer_finds_claimant_fresh :
    Served (runs step { maxBuffer := 1024 } [.claim "desk" 1]) "desk" 8001 {} 100 :=
  (offer_finds_claimant_iff 8001 100 (by decide) (by decide)
    ⟨(0, 1), by decide, by decide, by decide⟩).mpr (by decide)

/-- A second claim raises the fence over the first one's waiter. The offer then cancels that waiter
    and fails, with the current one next in the list. -/
theorem offer_stops_at_stale_waiter :
    Claimant (runs step { maxBuffer := 1024 } [.claim "desk" 1, .claim "desk" 2]) "desk" (1, 2) ∧
      ((runs step { maxBuffer := 1024 } [.claim "desk" 1, .claim "desk" 2]).offer "desk" 8001 {}
        100).2 = .error (.state "stale claimant" none) := by
  refine ⟨⟨?_, ?_, ?_⟩, ?_⟩ <;> decide +kernel

end Fallow.Relay

import Fallow.Preempt.Poll

/-! The trace of the preemption controller: its supervisor calls and its events.

    `OnPoll` and `Drain` hold the controller's lock from end to end, so the trace of a run is what
    its calls do, one after another; a supervisor call that is made returns. `watch` is the
    discipline as an automaton: it has a move for every item that may come next, and for no other.

        quiet ─SuspendAll▶ returning ─user_returned▶ held ─ResumeAll▶ leaving ─user_idle▶ quiet
                                                      ↺ one round of stops, late enough -/

namespace Fallow.Preempt
open Fallow.Supervisor List

/-- A supervisor call or an event; times and lists are those of the `OnPoll` that made it. -/
inductive Item where
  | suspendAll (now : ℤ)
  | resumeAll
  | statuses (now : ℤ) (listed : List ReplicaStatus)
  | stopReplica (modelId : String)
  | userReturned
  | userIdle
  | agentStopping

/-- `statuses` is what the supervisor lists when it is asked. -/
inductive Call where
  | onPoll (idle now : ℤ) (statuses : List ReplicaStatus)
  | drain

namespace Controller

def call (cfg : AgentConfig) (c : Controller) : Call → Controller
  | .onPoll idle now _ => c.onPoll cfg idle now
  | .drain => { c with state := .draining }

/-- What a call does besides changing the state. -/
def emits (cfg : AgentConfig) (c : Controller) : Call → List Item
  | .onPoll idle now statuses => match c.state with
    | .draining => []
    | .idle => if c.isFreshInput cfg idle then [.suspendAll now, .userReturned] else []
    | .active =>
      if cfg.idleThreshold ≤ idle then [.resumeAll, .userIdle]
      else if c.shouldEscalate cfg now then
        .statuses now statuses :: (evictable statuses).map .stopReplica
      else []
  | .drain => if c.state = .draining then [] else [.agentStopping]

def trace (cfg : AgentConfig) (c : Controller) : List Call → List Item
  | [] => []
  | call :: calls => c.emits cfg call ++ (c.call cfg call).trace cfg calls

end Controller

/-- How far the discipline has got: since when the replicas are held, and what the round of stops
    was shown, once there was one. -/
inductive Watch where
  | quiet
  | returning (since : ℤ)
  | held (since : ℤ) (round : Option (List ReplicaStatus))
  | leaving
  | stopped

def watch (evictAfter : ℤ) : Watch → Item → Option Watch
  | .quiet, .suspendAll now => some (.returning now)
  | .returning since, .userReturned => some (.held since none)
  | .held since none, .statuses now listed =>
    if now - since < evictAfter then none else some (.held since (some listed))
  | .held since (some listed), .stopReplica modelId =>
    if ∃ st ∈ listed, st.modelId = modelId ∧ st.state = .suspended ∧ st.gpu = true then
      some (.held since (some listed))
    else none
  | .held _ _, .resumeAll => some .leaving
  | .leaving, .userIdle => some .quiet
  | .quiet, .agentStopping | .held _ _, .agentStopping => some .stopped
  | _, _ => none

/-- Between two calls the discipline stands where the controller does, with no event outstanding. -/
def Tracks (c : Controller) : Watch → Prop
  | .quiet => c.state = .idle
  | .held since round =>
    c.state = .active ∧ c.activeSince = some since ∧ c.escalated = round.isSome
  | .stopped => c.state = .draining
  | _ => False

variable {cfg : AgentConfig} {c : Controller}

theorem watch_stops (h : models ⊆ evictable listed) :
    (models.map Item.stopReplica).foldlM (watch e) (.held since (some listed))
      = some (.held since (some listed)) := by
  induction models with
  | nil => rfl
  | cons m models ih =>
    obtain ⟨hm, hrest⟩ := cons_subset.1 h
    obtain ⟨st, hst, rfl⟩ := mem_map.1 hm
    obtain ⟨hin, hst⟩ := mem_filter.1 hst
    rw [map_cons, foldlM_cons, watch, if_pos ⟨st, hin, rfl, by simpa using hst⟩]
    exact ih hrest

variable {w : Watch}

/-- INVARIANT: what one call does is within the discipline. -/
theorem Tracks.call (h : Tracks c w) (a : Call) :
    ∃ w', (c.emits cfg a).foldlM (watch cfg.vramEvictAfter) w = some w' ∧
      Tracks (c.call cfg a) w' := by
  unfold Controller.emits Controller.call Controller.onPoll
  cases w with
  | returning | leaving => exact h.elim
  | stopped =>
    have hst : c.state = .draining := h
    exact ⟨.stopped, by cases a <;> simp [hst], by cases a <;> simp [hst, Tracks]⟩
  | quiet =>
    have hst : c.state = .idle := h
    cases a with
    | drain => exact ⟨.stopped, by rw [hst]; rfl, rfl⟩
    | onPoll idle now statuses =>
      simp only [hst]
      split
      · exact ⟨.held now none, rfl, rfl, rfl, rfl⟩
      · exact ⟨.quiet, rfl, rfl⟩
  | held since round =>
    obtain ⟨hst, hsince, hround⟩ := h
    cases a with
    | drain => exact ⟨.stopped, by cases round <;> rw [hst] <;> rfl, rfl⟩
    | onPoll idle now statuses =>
      simp only [hst]
      split
      · exact ⟨.quiet, by cases round <;> rfl, rfl⟩
      cases hesc : c.shouldEscalate cfg now with
      | false => exact ⟨.held since round, rfl, rfl, hsince, by simp [hround]⟩
      | true =>
        -- the round comes first and in time
        refine ⟨.held since (some statuses), ?_, rfl, hsince, by simp⟩
        simp only [Controller.shouldEscalate, hsince, Bool.and_eq_true, Bool.not_eq_true',
          decide_eq_true_eq] at hesc
        obtain rfl : round = none := by simpa [hesc.1] using hround
        rw [if_pos rfl, foldlM_cons, watch, if_neg hesc.2]
        exact watch_stops (List.Subset.refl _)

theorem Tracks.trace (h : Tracks c w) (calls : List Call) :
    ∃ w', (c.trace cfg calls).foldlM (watch cfg.vramEvictAfter) w = some w' ∧
      Tracks (Lib.runs (Controller.call cfg) c calls) w' := by
  induction calls generalizing c w with
  | nil => exact ⟨w, rfl, h⟩
  | cons a calls ih =>
    obtain ⟨w₁, hw₁, h₁⟩ := h.call a
    obtain ⟨w₂, hw₂, h₂⟩ := ih h₁
    refine ⟨w₂, ?_, h₂⟩
    rw [Controller.trace, foldlM_append, hw₁]
    exact hw₂

theorem draining_iff (calls : List Call) :
    (Lib.runs (Controller.call cfg) c calls).state = .draining ↔
      c.state = .draining ∨ .drain ∈ calls := by
  induction calls generalizing c with
  | nil => simp [Lib.runs]
  | cons a calls ih =>
    refine ih.trans ?_
    cases a with
    | drain => simp [Controller.call]
    | onPoll idle now statuses =>
      have hstate : (c.onPoll cfg idle now).state = .draining ↔ c.state = .draining := by
        unfold Controller.onPoll
        split <;> (try split) <;> simp_all
      simp [Controller.call, hstate]

/-- CORRECT: every run keeps the discipline to its end, where no event is outstanding, and has come
    to `agent_stopping`, after which there is nothing, exactly if `Drain` was called. -/
theorem preemption_trace_disciplined (cfg : AgentConfig) (calls : List Call) :
    ∃ w, (Controller.trace cfg {} calls).foldlM (watch cfg.vramEvictAfter) .quiet = some w ∧
      Tracks (Lib.runs (Controller.call cfg) {} calls) w ∧ (w = .stopped ↔ .drain ∈ calls) := by
  have hstart : Tracks {} .quiet := rfl
  obtain ⟨w, hw, ht⟩ := hstart.trace calls
  have hdrain := @draining_iff cfg {} calls
  refine ⟨w, hw, ht, ?_⟩
  cases w <;> simp_all [Tracks]

end Fallow.Preempt

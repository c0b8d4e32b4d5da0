import Fallow.App.AssignRoutes

/-! A run of assignment operations in order is a serial run.

    An operation that runs alone returns (`Solo` follows it to its end), and a history whose
    operations pass their checks can be run serially. Under the invariant both runs leave the same
    table: what each agent holds is the composition of the effects, in the order of the history. -/

namespace Fallow.App.Assign
open Lib Registry Scheduler Pipeline Function List Option State

variable {env : Env} {db₀ : Db} {s s₁ : State} {i j : ℕ} {op : Op} {pc pc' : Pc} {a : String}
  {base : ℕ → Option Pc} {es es' : List Entry}

/-- The coroutine is over. -/
def Pc.finished : Pc → Bool
  | .returned _ | .raised _ => true
  | _ => false

def State.Finished (s : State) : Prop := ∀ i pc, s.procs i = some pc → pc.finished = true

theorem not_ahead_of_finished (h : pc.finished = true) : ¬ pc.Ahead a := by
  cases pc <;> first | exact id | cases h

/-! ### One operation alone -/

/-- Only `i` runs; the others stand as in `base`, finished. -/
structure Solo (env : Env) (db₀ : Db) (base : ℕ → Option Pc) (i : ℕ) (es : List Entry) (s : State)
    (pc : Pc) : Prop where
  inv : Inv env db₀ s
  idle : ∀ j q, base j = some q → q.finished = true
  others : ∀ j, j ≠ i → s.procs j = base j
  proc : s.procs i = some pc
  order : s.order = es

/-- Running `i` on, it returns with this history. -/
def Returns (env : Env) (db₀ : Db) (base : ℕ → Option Pc) (i : ℕ) (es : List Entry) (s : State) :
    Prop :=
  ∃ n resp, Solo env db₀ base i es (runs (step env) s (List.replicate n (.run i)))
    (.returned resp)

/-- Both liveness views are taken of the same agents. -/
def Pc.Fresh (env : Env) (db : Db) : Pc → Prop
  | .putOffline p online => online = (snapshots env.cfg db p.now).map (·.agentId)
  | _ => True

namespace Solo

variable (hclean : Clean db₀)

section
variable (h : Solo env db₀ base i es s pc)
include h

theorem undisturbed (hf : pc.Fresh env s.working) : s.Undisturbed env (.run i) := by
  intro q hq
  obtain rfl := mem_unique h.proc hq
  refine ⟨fun a _ j o hj => ?_, ?_⟩
  · have hji : j ≠ i := by
      rintro rfl
      exact absurd (mem_takeWhile_imp hj) (by simp [Entry.id])
    rintro ⟨q', hq', ha⟩
    rw [h.others j hji] at hq'
    exact not_ahead_of_finished (h.idle j q' hq') ha
  · rintro p online rfl
    intro r hr hlive
    by_cases hoff : offline env.cfg p.now r = true
    · exact .inr hoff
    left
    rw [show online = _ from hf]
    refine mem_map.mpr ⟨rowSnapshot env.cfg p.now r, ?_, rfl⟩
    simp only [snapshots, List.mem_map, mem_filter, mem_mergeSort, decide_eq_true_eq]
    exact ⟨r, ⟨⟨hr, hlive⟩, hoff⟩, rfl⟩

theorem returns_step (hs : s.resume env i pc = s₁)
    (hr : Returns env db₀ base i es' s₁) : Returns env db₀ base i es' s := by
  obtain ⟨n, resp, hr⟩ := hr
  refine ⟨n + 1, resp, ?_⟩
  have hstep : s.step env (.run i) = s₁ := by simp only [State.step, h.proc, hs]
  rw [replicate_succ, runs, foldl_cons, hstep]
  exact hr

omit h in
theorem returns_now
    (h : Solo env db₀ base i es s (.returned resp)) : Returns env db₀ base i es s := ⟨0, resp, h⟩

include hclean

theorem step (hf : pc.Fresh env s.working) (hs : s.resume env i pc = s₁)
    (hprocs : s₁.procs = update s.procs i (some pc'))
    (horder : s₁.order = es') : Solo env db₀ base i es' s₁ pc' := by
  refine ⟨?_, h.idle, fun j hji => ?_, ?_, horder⟩
  · rw [← hs]; exact h.inv.resume hclean h.proc (h.undisturbed hf)
  · rw [hprocs, update_of_ne hji]; exact h.others j hji
  · rw [hprocs, update_self]

/-- A step that only moves on. -/
theorem returns_goto (hf : pc.Fresh env s.working) (hs : s.resume env i pc = s.goto i pc')
    (hr : Solo env db₀ base i es (s.goto i pc') pc' → Returns env db₀ base i es (s.goto i pc')) :
    Returns env db₀ base i es s :=
  h.returns_step hs (hr (h.step hclean hf hs rfl h.order))

/-- A step with which the operation begins. -/
theorem returns_begin (hf : pc.Fresh env s.working)
    (hs : s.resume env i pc = (s.begin (.op i op)).goto i pc')
    (hr : Solo env db₀ base i (es ++ [.op i op]) ((s.begin (.op i op)).goto i pc') pc' →
      Returns env db₀ base i (es ++ [.op i op]) ((s.begin (.op i op)).goto i pc')) :
    Returns env db₀ base i (es ++ [.op i op]) s :=
  h.returns_step hs (hr (h.step hclean hf hs rfl (by simp [h.order])))

end

include hclean

/-- With the others finished the lock is free, and `set_assignments` goes through. -/
theorem returns_setting {next : Pc}
    (h : Solo env db₀ base i es s (.setting a ms .acquire next))
    (hr : ∀ s', Solo env db₀ base i es s' next → Returns env db₀ base i es s') :
    Returns env db₀ base i es s := by
  have hfree : s.lock = none := by
    cases hl : s.lock with
    | none => rfl
    | some j =>
      obtain ⟨b, ms', st, next', hj, hst⟩ := (h.inv.lock j).mp hl
      by_cases hji : j = i
      · subst hji
        rw [h.proc] at hj; cases hj
        exact absurd rfl hst
      · rw [h.others j hji] at hj
        cases h.idle j _ hj
  have h₁ : Solo env db₀ base i es { s.goto i (.setting a ms .delete next) with lock := some i }
      (.setting a ms .delete next) :=
    h.step hclean trivial (by simp [State.resume, State.set, hfree]) rfl h.order
  have h₂ := h₁.step hclean trivial rfl rfl h₁.order
  have h₃ := h₂.step hclean trivial rfl rfl h₂.order
  have h₄ := h₃.step hclean trivial rfl rfl h₃.order
  have h₅ := h₄.step hclean trivial rfl rfl h₄.order
  exact h.returns_step (by simp [State.resume, State.set, hfree]) (h₁.returns_step rfl
    (h₂.returns_step rfl (h₃.returns_step rfl (h₄.returns_step rfl (hr _ h₅)))))

variable {p : Put}

theorem returns_putLoop : ∀ {todo : List String} {s : State},
    Solo env db₀ base i es s (.putLoop p todo) → Returns env db₀ base i es s
  | [], s, h => h.returns_goto hclean trivial rfl returns_now
  | a :: todo, s, h => by
    by_cases hsame : p.updated a (desiredModels a s.working) = desiredModels a s.working
    · have hs : s.resume env i (.putLoop p (a :: todo)) = s.goto i (.putLoop p todo) := by
        simp only [resume, if_pos hsame]
      exact h.returns_goto hclean trivial hs returns_putLoop
    · refine h.returns_goto hclean trivial (by simp only [resume, if_neg hsame]; rfl) fun h' => ?_
      exact h'.returns_setting hclean fun s' hs' => returns_putLoop hs'

theorem returns_putOnline (h : Solo env db₀ base i es s (.putOnline p)) :
    Returns env db₀ base i es s :=
  h.returns_goto hclean trivial rfl fun h' =>
    h'.returns_goto hclean rfl rfl fun h'' => h''.returns_putLoop hclean

theorem returns_putCheck : ∀ {left : List AgentSnapshot} {s : State},
      (∀ x ∈ left, Passes env p m x (held s.working x.agentId)) →
      Solo env db₀ base i es s (.putCheck p m left) → Returns env db₀ base i es s
  | [], s, _, h => h.returns_goto hclean trivial rfl fun h' => h'.returns_putOnline hclean
  | x :: left, s, hpass, h => by
    refine h.returns_goto hclean trivial ?_ (returns_putCheck fun y hy =>
      hpass y (mem_cons_of_mem _ hy))
    simp only [resume]
    rcases hpass x mem_cons_self with hm | hfit
    · rw [if_pos (mem_desiredModels.mpr hm)]
    · simp only [if_pos hfit, ite_self]

theorem returns_fitLoop : ∀ {todo : List AgentSnapshot} {f : Sweep} {s : State},
    Solo env db₀ base i es s (.fitLoop f todo) → Returns env db₀ base i es s
  | [], f, s, h => h.returns_goto hclean trivial rfl fun h' =>
      h'.returns_goto hclean trivial rfl returns_now
  | x :: todo, f, s, h => by
    by_cases hkept : f.modelId ∈ desiredModels x.agentId s.working
    · refine h.returns_goto hclean trivial (by simp only [resume, if_pos hkept]; rfl)
        returns_fitLoop
    by_cases hne : desiredModels x.agentId s.working ≠ []
    · refine h.returns_goto hclean trivial
        (by simp only [resume, if_neg hkept, if_pos hne]; rfl) returns_fitLoop
    by_cases hfit : (modelFit f.manifest (env.capacity x)).fits = true
    · refine h.returns_goto hclean trivial
        (by simp only [resume, if_neg hkept, if_neg hne, hfit]; rfl) fun h' => ?_
      refine h'.returns_setting hclean fun s' hs' => ?_
      by_cases hin : f.modelId ∈ desiredModels x.agentId s'.working
      · exact hs'.returns_goto hclean trivial (by simp only [resume, if_pos hin]; rfl)
          returns_fitLoop
      · exact hs'.returns_goto hclean trivial (by simp only [resume, if_neg hin]; rfl)
          returns_fitLoop
    · refine h.returns_goto hclean trivial
        (by simp only [resume, if_neg hkept, if_neg hne, if_pos hfit]; rfl)
        returns_fitLoop

end Solo

/-! ### Histories that can be run serially -/

/-- The operation, run against this view and these sets, is not rejected. -/
def Valid (env : Env) (db : Db) (sets : String → Set String) : Op → Prop
  | .put p => ∀ m, getManifest env db p.modelId = some m →
      ∀ x ∈ checkList env db p, Passes env p m x (sets x.agentId)
  | .fit modelId _ => ∃ m, getManifest env db modelId = some m
  | .autoAssign .. => True

/-- With everybody finished the table is the serial one. -/
theorem Inv.held_finished (h : Inv env db₀ s) (hf : s.Finished) (a : String) :
    held s.working a = heldAfter env db₀ s.order a := by
  have hnone : ∀ j, ¬ s.Ahead j a := by
    rintro j ⟨q, hq, ha⟩
    exact not_ahead_of_finished (hf j q hq) ha
  rw [h.table a fun j ms next hj => by cases hf j _ hj]
  exact value_serial fun u _ => hnone u.1

theorem Inv.committed_finished (h : Inv env db₀ s) (hf : s.Finished) :
    s.committed.assignments = s.working.assignments :=
  h.synced fun j _ _ _ _ hj => by cases hf j _ hj

/-- CORRECT: an operation that is not rejected, run alone, returns. -/
theorem Inv.returns (h : Inv env db₀ s) (hclean : Clean db₀) (hf : s.Finished)
    (hnew : s.procs i = none) (hv : Valid env (view db₀ s.order) (heldAfter env db₀ s.order) op) :
    Returns env db₀ s.procs i (s.order ++ [.op i op]) (s.step env (.spawn i op)) := by
  have hspawn : s.step env (.spawn i op) =
      { s.goto i op.start with ops := update s.ops i (some op) } := by
    simp only [State.step, hnew]
  have hsolo : Solo env db₀ s.procs i s.order (s.step env (.spawn i op)) op.start := by
    refine ⟨h.step hclean trivial, hf, fun j hji => ?_, ?_, ?_⟩
    · rw [hspawn]; exact update_of_ne hji ..
    · rw [hspawn]; exact update_self ..
    · rw [hspawn]; rfl
  have hheld : ∀ a, held (s.step env (.spawn i op)).working a = heldAfter env db₀ s.order a := by
    intro a; rw [hspawn]; exact h.held_finished hf a
  have hsame : SameView (s.step env (.spawn i op)).working (view db₀ s.order) := by
    rw [hspawn]; exact h.same
  generalize s.step env (.spawn i op) = s₁ at hsolo hheld hsame
  cases op with
  | put p =>
    cases hm : getManifest env s₁.working p.modelId with
    | none =>
      exact hsolo.returns_begin hclean trivial (by simp only [Op.start, State.resume, hm]; rfl)
        fun h' => h'.returns_putOnline hclean
    | some m =>
      by_cases hnil : p.agentIds = []
      · exact hsolo.returns_begin hclean trivial
          (by simp only [Op.start, State.resume, hm, if_pos hnil]; rfl)
          fun h' => h'.returns_putOnline hclean
      · have hs : s₁.resume env i (Op.put p).start = s₁.goto i (.putSnapshots p m) := by
          simp only [Op.start, State.resume, hm, if_neg hnil]
        have h₂ := hsolo.step hclean trivial hs rfl hsolo.order
        refine hsolo.returns_step hs (h₂.returns_begin hclean trivial rfl fun h' => ?_)
        refine h'.returns_putCheck hclean fun x hx => ?_
        have hpass := hv m (by rw [← hsame.getManifest]; exact hm) x (by rw [← hsame.checkList]; exact hx)
        rw [← hheld] at hpass
        exact hpass
  | fit modelId now =>
    obtain ⟨m, hm⟩ := hv
    rw [← hsame.getManifest] at hm
    have hs : s₁.resume env i (Op.fit modelId now).start = s₁.goto i (.fitSnapshots modelId m now) := by
      simp only [Op.start, State.resume, hm]
    have h₂ := hsolo.step hclean trivial hs rfl hsolo.order
    exact hsolo.returns_step hs (h₂.returns_begin hclean trivial rfl fun h' => h'.returns_fitLoop hclean)
  | autoAssign b caps =>
    by_cases hne : desiredModels b s₁.working ≠ []
    · exact hsolo.returns_begin hclean trivial
        (by simp only [Op.start, State.resume, if_pos hne]; rfl) Solo.returns_now
    · refine hsolo.returns_begin hclean trivial
        (by simp only [Op.start, State.resume, if_neg hne]; rfl) fun h' => ?_
      cases hsel : selectModelForAgent (capacitySnapshot caps) (listModels env s₁.working) with
      | none =>
        have hs : ((s₁.begin (.op i (.autoAssign b caps))).goto i (.autoModels b caps)).resume env i
            (.autoModels b caps) = ((s₁.begin (.op i (.autoAssign b caps))).goto i
              (.autoModels b caps)).goto i (.returned none) := by
          simp only [State.resume, State.goto_working, State.begin_working, hsel]
        exact h'.returns_goto hclean trivial hs Solo.returns_now
      | some chosen =>
        have hs : ((s₁.begin (.op i (.autoAssign b caps))).goto i (.autoModels b caps)).resume env i
            (.autoModels b caps) = ((s₁.begin (.op i (.autoAssign b caps))).goto i
              (.autoModels b caps)).goto i (.setting b [chosen.modelId] .acquire (.returned none)) := by
          simp only [State.resume, State.goto_working, State.begin_working, hsel]
        exact h'.returns_goto hclean trivial hs fun h'' =>
          h''.returns_setting hclean fun _ hs' => hs'.returns_now

/-- Every entry of the history can be taken where it stands. -/
structure Playable (env : Env) (db₀ : Db) (es : List Entry) : Prop where
  nodup : (es.filterMap Entry.id).Nodup
  valid : ∀ pre i op post, es = pre ++ .op i op :: post →
    Valid env (view db₀ pre) (heldAfter env db₀ pre) op
  free : ∀ pre row post, es = pre ++ .enroll row :: post →
    ¬ registered (view db₀ pre) row.agentId

/-- CORRECT: a history that can be played is played serially, and the history is its record. -/
theorem Inv.serialRun (hclean : Clean db₀) : ∀ {rest : List Entry} {s : State}, Inv env db₀ s →
    s.Finished → Playable env db₀ (s.order ++ rest) →
    (∀ i o, .op i o ∈ rest → s.procs i = none) →
    ∃ s', SerialRun env s rest s' ∧ Inv env db₀ s' ∧ s'.Finished ∧ s'.order = s.order ++ rest
  | [], s, h, hf, _, _ => ⟨s, .nil s, h, hf, (append_nil _).symm⟩
  | .beat a hb now :: rest, s, h, hf, hpl, hnew => by
    have horder : (s.step env (.beat a hb now)).order ++ rest = s.order ++ .beat a hb now :: rest := by
      simp [State.step]
    obtain ⟨s', hrun, hinv, hfin, ho⟩ := Inv.serialRun hclean
      (h.step hclean (show s.Undisturbed env (.beat a hb now) from trivial)) hf
      (by rw [horder]; exact hpl)
      fun i o hm => hnew i o (mem_cons_of_mem _ hm)
    exact ⟨s', .beat a hb now hrun, hinv, hfin, ho.trans horder⟩
  | .enroll row :: rest, s, h, hf, hpl, hnew => by
    have hfree : (s.working.agent row.agentId).isSome = false := by
      rw [isSome_eq_false_iff, isNone_iff_eq_none]
      refine Table.get_eq_none.mpr fun r hr hid => hpl.free s.order row rest rfl ?_
      rw [← h.same.registered]; exact ⟨r, hr, hid⟩
    have hstep : s.step env (.enroll row) = { s.begin (.enroll row) with
        working := { s.working with agents := s.working.agents ++ [State.enrolled row] } } := by
      simp [State.step, hfree]
    have hok : s.Undisturbed env (.enroll row) := by
      intro j q hq
      have hq := hf j q hq
      cases q <;> first | rfl | cases hq
    have horder : (s.step env (.enroll row)).order ++ rest = s.order ++ .enroll row :: rest := by
      simp [hstep]
    have hfin : (s.step env (.enroll row)).Finished := by rw [hstep]; exact hf
    obtain ⟨s', hrun, hinv, hfin', ho⟩ := Inv.serialRun hclean (h.step hclean hok) hfin
      (by rw [horder]; exact hpl)
      fun i o hm => by rw [hstep]; exact hnew i o (mem_cons_of_mem _ hm)
    exact ⟨s', .enroll row hrun, hinv, hfin', ho.trans horder⟩
  | .op i op :: rest, s, h, hf, hpl, hnew => by
    obtain ⟨n, resp, hsolo⟩ := h.returns hclean hf (hnew i op mem_cons_self)
      (hpl.valid s.order i op rest rfl)
    generalize hs₁ : runs (State.step env) (s.step env (.spawn i op))
      (List.replicate n (.run i)) = s₁ at hsolo
    have horder : s₁.order ++ rest = s.order ++ .op i op :: rest := by simp [hsolo.order]
    have hfin : s₁.Finished := by
      intro j q hq
      by_cases hji : j = i
      · subst hji
        rw [← mem_unique hsolo.proc hq]; rfl
      · rw [hsolo.others j hji] at hq
        exact hf j q hq
    have hfresh : ∀ j o, .op j o ∈ rest → s₁.procs j = none := by
      intro j o hm
      have hji : j ≠ i := by
        rintro rfl
        have hnd := hpl.nodup
        rw [filterMap_append, nodup_append] at hnd
        exact (nodup_cons.mp hnd.2.1).1 (mem_ids.mpr ⟨o, hm⟩)
      rw [hsolo.others j hji]
      exact hnew j o (mem_cons_of_mem _ hm)
    obtain ⟨s', hrun, hinv, hfin', ho⟩ := Inv.serialRun hclean hsolo.inv hfin
      (by rw [horder]; exact hpl) hfresh
    exact ⟨s', .op i op n hs₁.symm hsolo.proc hrun, hinv, hfin', ho.trans horder⟩

end Fallow.App.Assign

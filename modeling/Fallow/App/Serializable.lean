import Fallow.App.AssignSerial

/-! Model assignment is serializable while operations meet each agent in the order in which they
    began.

    Three ways out of that order are open. Between its two liveness queries a PUT can lose an agent
    that comes back online: it was offline for the first and is live for the second. Between the read
    of an agent's set and its `set_assignments` another operation can write the set, and that write is
    lost. And an operation can pass another between two agents, so that each wins on one of them.

        PUT m → {}    snapshots: a is offline          list_offline: a is online     (a keeps m)
        agent a                           heartbeat -/

namespace Fallow.App.Assign
open Lib Registry Scheduler Pipeline Function List Option State

variable {env : Env} {db₀ : Db} {s : State} {i : ℕ}

/-- A finished history can be played serially. -/
theorem Inv.playable (h : Inv env db₀ s) (hf : s.Finished) : Playable env db₀ s.order := by
  refine ⟨h.nodup, fun pre i op post hs => ?_, fun pre row post hs hreg => ?_⟩
  · obtain ⟨pc, hp, -, hst, -⟩ := h.order pre i op post hs
    have hfin := hf i pc hp
    cases hst with
    | putReturned hc =>
      intro m hm x hx
      obtain ⟨v, ⟨hv, -⟩, hpass⟩ := hc m hm x hx
      rw [hv]; exact hpass
    | fitReturned hm => exact ⟨_, hm⟩
    | autoReturned => trivial
    | _ => cases hfin
  · have hk : Table.Keyed AgentRow.agentId (view db₀ (pre ++ [.enroll row])).agents := by
      refine keyed_of_view post ?_
      rw [← view_append, append_assoc, singleton_append, ← hs, ← h.same.agents]
      exact h.keyed
    have hnd : ((view db₀ pre).agents.map AgentRow.agentId ++ [row.agentId]).Nodup := by
      simpa [Table.Keyed, view, Entry.onDb, State.enrolled] using hk
    obtain ⟨r, hr, hid⟩ := hreg
    exact (nodup_append.mp hnd).2.2 _ (mem_map_of_mem hr) row.agentId (by simp) hid

/-- The history of a finished run is the list of the operations that returned. -/
theorem Inv.mem_order_iff (h : Inv env db₀ s) (hf : s.Finished) (i : ℕ) (op : Op) :
    .op i op ∈ s.order ↔ s.ops i = some op ∧ ∃ resp, s.procs i = some (.returned resp) := by
  constructor
  · intro hm
    obtain ⟨pre, post, hs⟩ := append_of_mem hm
    obtain ⟨pc, hp, hop, hst, -⟩ := h.order pre i op post hs
    have hfin := hf i pc hp
    cases pc with
    | returned resp => exact ⟨hop, resp, hp⟩
    | raised e => cases hst
    | _ => cases hfin
  · rintro ⟨hop, resp, hp⟩
    obtain ⟨op', hop', hm | ⟨hw, -⟩⟩ := h.procs i _ hp
    · rw [hop] at hop'
      rw [some.inj hop']; exact hm
    · cases hw

def Entry.isBeat : Entry → Bool
  | .beat .. => true
  | _ => false

/-- CORRECT: after a PUT that nothing follows exactly its live targets hold the model. -/
theorem Inv.put_exact (h : Inv env db₀ s) (hclean : Clean db₀) (hf : s.Finished)
    (hs : s.order = pre ++ .op i (.put p) :: post)
    (hlast : ∀ e ∈ post, e.isBeat = true) (hr : r ∈ s.working.agents) :
    p.modelId ∈ held s.working r.agentId ↔ r.agentId ∈ p.agentIds ∧ r.revokedAt = none := by
  have hpost : updates env r.agentId (view db₀ pre) post = [] := by
    rw [eq_nil_iff_forall_not_mem]
    intro u hu
    obtain ⟨q, o, q', rfl, -⟩ := mem_updates hu
    cases hlast (.op u.1 o) (by simp)
  have hheld : held s.working r.agentId =
      (Op.put p).effect env (view db₀ pre) r.agentId (heldAfter env db₀ pre r.agentId) := by
    rw [h.held_finished hf, hs, heldAfter, updates_split, hpost, serial_append]
    rfl
  have hreg : registered (view db₀ pre) r.agentId := by
    refine h.registered_then hs (fun row hm => ?_) ⟨r, hr, rfl⟩
    cases hlast _ hm
  have hrev : revoked (view db₀ pre) r.agentId ↔ r.revokedAt.isSome = true := by
    rw [← h.revoked_iff]
    constructor
    · rintro ⟨r', hr', hid, hsome⟩
      rwa [← inj_on_of_nodup_map h.keyed hr' hr hid]
    · exact fun hsome => ⟨r, hr, rfl, hsome⟩
  by_cases hsome : r.revokedAt.isSome = true
  · rw [hheld, effect_revoked (hrev.mpr hsome),
      heldAfter_revoked hclean ((view_revoked _ _).mp (hrev.mpr hsome))]
    constructor
    · intro hm; exact absurd hm (by simp)
    · rintro ⟨-, hnone⟩
      rw [hnone] at hsome; cases hsome
  · have hnone : r.revokedAt = none := not_isSome_iff_eq_none.mp hsome
    simp only [hheld, Op.effect, if_neg fun hx => hsome (hrev.mp hx), hnone, and_true]
    by_cases ha : r.agentId ∈ p.agentIds
    · simp [ha]
    · simp [ha, hreg]

/-- CORRECT: no step of a placement takes an assignment away. -/
theorem Inv.auto_keeps (h : Inv env db₀ s) (hop : s.ops i = some (.autoAssign b caps))
    (hrow : row ∈ s.working.assignments) : row ∈ (s.step env (.run i)).working.assignments := by
  cases hp : s.procs i with
  | none => simp only [State.step, hp]; exact hrow
  | some pc =>
    simp only [State.step, hp]
    obtain ⟨op, hop', hm | ⟨hw, -⟩⟩ := h.procs i pc hp
    · obtain rfl := mem_unique hop' hop
      obtain ⟨pre, post, hs⟩ := append_of_mem hm
      obtain ⟨-, hst, -⟩ := h.at_place hs hp
      cases hst with
      | autoModels hr =>
        simp only [State.resume]
        split <;> exact hrow
      | autoReturned => exact hrow
      | @setting _ a ms stage next _ _ _ v hr _ hauto =>
        cases stage with
        | acquire =>
          simp only [State.resume, State.set]
          split <;> exact hrow
        | delete =>
          -- the agent held nothing when it was read, and nobody has written it since
          have hempty : held s.working a = ∅ := by
            rw [h.held_before hs hp (.inl ⟨rfl, .inr (.inl rfl)⟩) (by simp) hr.2, hr.1,
              hauto b caps rfl]
          refine mem_filter.mpr ⟨hrow, decide_eq_true fun ha => ?_⟩
          have hheld : row.modelId ∈ held s.working a := by rw [← ha]; exact hrow
          rw [hempty] at hheld
          exact absurd hheld (by simp)
        | insert =>
          simp only [State.resume, State.set, Write.run, Sql.insertAssignments]
          split
          · exact hrow
          · exact mem_foldl_insertIgnore.mpr (.inl hrow)
        | commit => exact hrow
        | release => exact hrow
    · obtain rfl := mem_unique hop' hop
      cases hw with
      | autoDesired =>
        simp only [State.resume]
        split <;> exact hrow
      | raised => exact hrow

def deskRow : AgentRow where
  agentId := "desk"
  hostname := "desk"
  host := "10.0.0.7"
  capsJson := "caps"
  deviceTokenHash := "token"
  state := .idle
  lastSeen := 0
  registeredAt := 0

/-- One desk, assigned one model the catalogue does not list. -/
def deskDb : Db := { agents := [deskRow], assignments := [⟨"qwen", "desk"⟩] }

def plainEnv : Env where
  manifestOf := fun _ => { modelId := "", sizeBytes := 1 }
  gpusOf := fun _ => []
  capsOf := fun _ => { ramMb := 1 }

def deskHeartbeat : Heartbeat := { seq := 1, state := .idle }

def placementRun : List Act :=
  [.spawn 0 (.autoAssign "desk" { ramMb := 1 }), .run 0, .beat "desk" deskHeartbeat 1, .commit]

theorem desiredModels_deskDb : desiredModels "desk" deskDb = ["qwen"] := by
  simp [desiredModels, deskDb]

theorem clean_deskDb : Clean deskDb := by
  rintro a ⟨r, hr, -, hsome⟩
  obtain rfl := mem_singleton.mp hr
  cases hsome

theorem placementRun_resume (hw : s.working = deskDb) :
    s.resume plainEnv 0 (.autoDesired "desk" { ramMb := 1 }) =
      (s.begin (.op 0 (.autoAssign "desk" { ramMb := 1 }))).goto 0 (.returned none) := by
  simp only [resume, hw, desiredModels_deskDb]
  rfl

theorem placementRun_reach : Reach (step plainEnv) (State.Undisturbed plainEnv)
    (start deskDb) (runs (step plainEnv) (start deskDb) placementRun) := by
  refine Admitted.reach placementRun .start ⟨trivial, ?_, trivial, trivial, trivial⟩
  intro pc hp
  cases hp
  exact ⟨fun _ _ _ _ hj => (by cases hj), fun _ _ he => (by cases he)⟩

def dedupOrder : SetOrder := ⟨List.dedup, nodup_dedup, fun _ _ => mem_dedup⟩

/-- Take the model from everyone, at a time when the desk has been silent for 100 s. -/
def clearPut : Put where
  modelId := "qwen"
  agentIds := []
  checkNow := 100000000
  now := 100000000
  order := dedupOrder

/-- The desk's heartbeat falls between the two liveness queries. -/
def missedRun : List Act :=
  [.spawn 0 (.put clearPut), .run 0, .run 0, .beat "desk" deskHeartbeat 100000000, .commit, .run 0,
   .run 0]

end Fallow.App.Assign

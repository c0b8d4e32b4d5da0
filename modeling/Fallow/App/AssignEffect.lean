import Fallow.App.Assign
import Fallow.Lib.Pipeline

/-! What an assignment operation is for: its effect on each agent's set of models, all at once.

    `Op.effect` says what running the operation alone does to one agent's set, given the agents and
    the catalogue it runs against. `updates` lists the effects of a history on one agent, and the
    serial outcome is their composition, `heldAfter`. -/

namespace Fallow.App.Assign
open Lib Registry Scheduler Pipeline List Assign Table

/-- The models an agent is assigned. -/
def held (db : Db) (a : String) : Set String := {m | (⟨m, a⟩ : AssignmentRow) ∈ db.assignments}

def registered (db : Db) (a : String) : Prop := ∃ r ∈ db.agents, r.agentId = a

def revoked (db : Db) (a : String) : Prop :=
  ∃ r ∈ db.agents, r.agentId = a ∧ r.revokedAt.isSome = true

/-- Revoked agents hold nothing. -/
def Clean (db : Db) : Prop := ∀ a, revoked db a → held db a = ∅

variable {a : String}

variable {db : Db} {b : String}

theorem mem_desiredModels : m ∈ desiredModels a db ↔ m ∈ held db a := by
  simp only [desiredModels, mem_mergeSort, mem_map, mem_filter, held, Set.mem_ofPred_eq]
  constructor
  · rintro ⟨⟨m', a'⟩, ⟨hr, ha⟩, rfl⟩
    obtain rfl : a' = a := by simpa using ha
    exact hr
  · intro hr
    exact ⟨⟨m, a⟩, ⟨hr, by simp⟩, rfl⟩

theorem desiredModels_eq_nil : desiredModels a db = [] ↔ held db a = ∅ := by
  rw [eq_nil_iff_forall_not_mem, Set.eq_empty_iff_forall_notMem]
  simp only [mem_desiredModels]

theorem held_delete :
    held ((Write.deleteAssignments a).run db).1 b = if b = a then ∅ else held db b := by
  ext m
  simp only [held, Write.run, mem_filter, Set.mem_ofPred_eq]
  by_cases h : b = a <;> simp [h]

theorem mem_foldl_insertIgnore :
    ∀ {ms : List String} {rows : List AssignmentRow},
      r ∈ ms.foldl (fun rows m => Table.insertIgnore AssignmentRow.key ⟨m, a⟩ rows) rows ↔
        r ∈ rows ∨ r.agentId = a ∧ r.modelId ∈ ms
  | [], rows => by simp
  | m :: ms, rows => by
    have hins : r ∈ Table.insertIgnore AssignmentRow.key ⟨m, a⟩ rows ↔ r ∈ rows ∨ r = ⟨m, a⟩ := by
      unfold Table.insertIgnore
      split
      · rename_i hsome
        obtain ⟨r', hr'⟩ := Option.isSome_iff_exists.mp hsome
        have hkey := key_of_get hr'
        have he : r' = ⟨m, a⟩ := by
          cases r'
          simpa [AssignmentRow.key] using hkey
        exact ⟨.inl, fun h => h.elim id fun h => by rw [h, ← he]; exact mem_of_get hr'⟩
      · simp
    have heq : r = ⟨m, a⟩ ↔ r.agentId = a ∧ r.modelId = m := by
      cases r; simp [and_comm]
    rw [foldl_cons, mem_foldl_insertIgnore, hins, heq, mem_cons]
    tauto

open Classical in
/-- What `set_assignments` leaves an agent with. -/
noncomputable def written (db : Db) (a : String) (ms : List String) : Set String :=
  if revoked db a then ∅ else {m | m ∈ ms}

theorem held_insert : held ((Write.insertAssignments a ms).run db).1 b =
      if b = a then held db a ∪ written db a ms else held db b := by
  have hrev : (db.agents.any fun r => r.agentId = a ∧ r.revokedAt.isSome) = true ↔ revoked db a := by
    simp [revoked, any_eq_true]
  ext m
  simp only [Write.run, Sql.insertAssignments]
  by_cases hr : revoked db a
  · rw [if_pos (hrev.mpr hr)]
    by_cases hb : b = a
    · simp [hb, written, hr]
    · simp [hb]
  · rw [if_neg fun h => hr (hrev.mp h)]
    by_cases hb : b = a
    · subst hb
      simp [held, mem_foldl_insertIgnore, written, hr]
    · simp [held, mem_foldl_insertIgnore, hb]

/-! ### The effect of an operation -/

open Classical in
/-- What the operation, run against these agents and models, makes of one agent's set. -/
noncomputable def Op.effect (env : Env) (db : Db) : Op → String → Set String → Set String
  | .put p, a, v =>
    if revoked db a then v
    else if a ∈ p.agentIds then insert p.modelId v
    else if registered db a then v \ {p.modelId}
    else v
  | .fit modelId now, a, v =>
    if ¬ revoked db a ∧ v = ∅ ∧ ∃ m, getManifest env db modelId = some m ∧
        ∃ x ∈ snapshots env.cfg db now, x.agentId = a ∧ (modelFit m (env.capacity x)).fits = true
    then {modelId} else v
  | .autoAssign b caps, a, v =>
    if a = b ∧ ¬ revoked db a ∧ v = ∅ then
      match selectModelForAgent (capacitySnapshot caps) (listModels env db) with
      | none => ∅
      | some chosen => {chosen.modelId}
    else v

variable {env : Env} {op : Op} {e : Entry} {es : List Entry}

theorem effect_revoked (h : revoked db a) : op.effect env db a = id := by
  funext v
  cases op <;> simp [Op.effect, h]

/-- Two databases with the same agents and the same catalogue. -/
structure SameView (db db' : Db) : Prop where
  agents : db.agents = db'.agents
  models : db.models = db'.models

section
variable {db db' : Db} (h : SameView db db')
include h

theorem SameView.revoked (a : String) : revoked db a ↔ Assign.revoked db' a := by
  rw [Assign.revoked, Assign.revoked, h.agents]

theorem SameView.registered (a : String) : registered db a ↔ Assign.registered db' a := by
  rw [Assign.registered, Assign.registered, h.agents]

theorem SameView.snapshots (cfg : RegistryConfig) (now : ℤ) :
    snapshots cfg db now = Registry.snapshots cfg db' now := by
  rw [Registry.snapshots, Registry.snapshots, h.agents]

theorem SameView.getManifest (env : Env) (modelId : String) :
    getManifest env db modelId = getManifest env db' modelId := by
  rw [Assign.getManifest, Assign.getManifest, h.models]

theorem SameView.checkList (env : Env) (p : Put) : checkList env db p = checkList env db' p := by
  rw [Assign.checkList, Assign.checkList, h.snapshots]

theorem SameView.sweepList (env : Env) (now : ℤ) :
    sweepList env db now = sweepList env db' now := by
  rw [Assign.sweepList, Assign.sweepList, h.snapshots]

end

/-! ### Histories -/

/-- What an entry does to the agents. -/
def Entry.onDb (db : Db) : Entry → Db
  | .op _ _ => db
  | .beat a hb now => ((Write.recordHeartbeat a hb now).run db).1
  | .enroll row => { db with agents := db.agents ++ [State.enrolled row] }

/-- The agents and the catalogue after a history. -/
def view (db : Db) (es : List Entry) : Db := es.foldl Entry.onDb db

/-- An operation's entry counts as one update of the agent. -/
noncomputable def Entry.update (env : Env) (db : Db) (a : String) :
    Entry → List (ℕ × (Set String → Set String))
  | .op i o => [(i, o.effect env db a)]
  | _ => []

/-- The updates of one agent in a history. -/
noncomputable def updates (env : Env) (a : String) :
    Db → List Entry → List (ℕ × (Set String → Set String))
  | _, [] => []
  | db, e :: es => e.update env db a ++ updates env a (e.onDb db) es

/-- What the agent holds after the operations of a history, one after another. -/
noncomputable def heldAfter (env : Env) (db : Db) (es : List Entry) (a : String) : Set String :=
  serial (updates env a db es) (held db a)

theorem view_append : view db (es ++ es') = view (view db es) es' :=
  foldl_append

theorem updates_append (env : Env) (a : String) : ∀ (es es' : List Entry) (db : Db),
    updates env a db (es ++ es') = updates env a db es ++ updates env a (view db es) es'
  | [], _, _ => rfl
  | e :: es, es', db => by
    rw [cons_append, updates, updates, updates_append env a es es', append_assoc]
    rfl

theorem updates_split : updates env a db (pre ++ .op i op :: post) =
      updates env a db pre ++ (i, op.effect env (view db pre) a) ::
        updates env a (view db pre) post := by
  rw [updates_append]; rfl

/-- The ids of the updates are those of the operations. -/
theorem updates_ids : ∀ (es : List Entry) (db : Db),
    (updates env a db es).map Prod.fst = es.filterMap Entry.id
  | [], _ => rfl
  | e :: es, db => by
    rw [updates, map_append, updates_ids es]
    cases e <;> rfl

/-- An update in the list is an operation of the history at its place. -/
theorem mem_updates :
    ∀ {es : List Entry} {db : Db}, u ∈ updates env a db es →
      ∃ pre op post, es = pre ++ .op u.1 op :: post ∧ u.2 = op.effect env (view db pre) a
  | [], _, h => by cases h
  | e :: es, db, h => by
    rw [updates, mem_append] at h
    rcases h with h | h
    · cases e with
      | op i op =>
        obtain rfl := mem_singleton.mp h
        exact ⟨[], op, es, rfl, rfl⟩
      | beat => cases h
      | enroll => cases h
    · obtain ⟨pre, op, post, rfl, hu⟩ := mem_updates h
      exact ⟨e :: pre, op, post, rfl, hu⟩

theorem onDb_models : (e.onDb db).models = db.models := by cases e <;> rfl

theorem view_models : ∀ (es : List Entry) (db : Db), (view db es).models = db.models
  | [], _ => rfl
  | e :: es, db => (view_models es (e.onDb db)).trans onDb_models

/-- Revocation is not among the entries. -/
theorem onDb_revoked : revoked (e.onDb db) a ↔ revoked db a := by
  cases e with
  | op => rfl
  | beat b hb now =>
    simp only [Entry.onDb, Write.run, Sql.updateAgents, revoked, mem_update]
    constructor
    · rintro ⟨_, ⟨r, hr, rfl⟩, h⟩
      refine ⟨r, hr, ?_⟩
      split at h <;> exact h
    · rintro ⟨r, hr, h⟩
      refine ⟨_, ⟨r, hr, rfl⟩, ?_⟩
      split <;> exact h
  | enroll row =>
    simp only [Entry.onDb, revoked, mem_append, mem_singleton]
    constructor
    · rintro ⟨r, hr | rfl, h⟩
      · exact ⟨r, hr, h⟩
      · simp [State.enrolled] at h
    · rintro ⟨r, hr, h⟩
      exact ⟨r, .inl hr, h⟩

theorem view_revoked : ∀ (es : List Entry) (db : Db),
    revoked (view db es) a ↔ revoked db a
  | [], _ => Iff.rfl
  | e :: es, db => (view_revoked es (e.onDb db)).trans onDb_revoked

theorem onDb_registered (h : registered db a) : registered (e.onDb db) a := by
  obtain ⟨r, hr, rfl⟩ := h
  cases e with
  | op => exact ⟨r, hr, rfl⟩
  | beat b hb now =>
    refine ⟨_, mem_update.mpr ⟨r, hr, rfl⟩, ?_⟩
    split <;> rfl
  | enroll row => exact ⟨r, mem_append_left _ hr, rfl⟩

theorem view_registered : ∀ (es : List Entry) {db : Db}, registered db a →
    registered (view db es) a
  | [], _, h => h
  | _ :: es, _, h => view_registered es (onDb_registered h)

/-- Only an enrolment registers. -/
theorem registered_of_view : ∀ {es : List Entry} {db : Db},
    (∀ row, Entry.enroll row ∉ es) → registered (view db es) a → registered db a
  | [], _, _, h => h
  | e :: es, db, hn, h => by
    have h := registered_of_view (fun row hm => hn row (mem_cons_of_mem _ hm)) h
    cases e with
    | op => exact h
    | beat b hb now =>
      obtain ⟨_, hr, ha⟩ := h
      obtain ⟨r, hr', rfl⟩ := mem_update.mp hr
      refine ⟨r, hr', ?_⟩
      split at ha <;> exact ha
    | enroll row => exact absurd mem_cons_self (hn row)

/-- The history never gives a revoked agent anything. -/
theorem heldAfter_revoked (hc : Clean db) (h : revoked db a) : heldAfter env db es a = ∅ := by
  have hid : ∀ u ∈ updates env a db es, u.2 = id := by
    intro u hu
    obtain ⟨pre, op, -, -, he⟩ := mem_updates hu
    rw [he, effect_revoked ((view_revoked pre db).mpr h)]
  have hfold : ∀ (us : List (ℕ × (Set String → Set String))) (v : Set String),
      (∀ u ∈ us, u.2 = id) → serial us v = v := by
    intro us
    induction us with
    | nil => intros; rfl
    | cons u us ih =>
      intro v hus
      rw [serial, foldl_cons, hus u mem_cons_self]
      exact ih v fun w hw => hus w (mem_cons_of_mem _ hw)
  rw [heldAfter, hfold _ _ hid, hc a h]

end Fallow.App.Assign

import Fallow.App.AssignEffect

/-! Assignment operations that meet each agent in the order in which they began.

    `Undisturbed` is the condition on a step under which the table is at all times what a serial run
    of the history's first parts would have made it: an agent's assignments are read for a decision
    only when no operation begun earlier has still to settle that agent; the two liveness queries of a
    PUT together find every live agent; and nobody enrols while a PUT is between its first query and
    its last.

        began:     PUT₁            fit₂        auto₃
        settled:   a, b            a           -          next to settle b: fit₂ -/

namespace Fallow.App.Assign
open Lib Registry Scheduler Pipeline List

/-- The agents whose assignments a coroutine that has begun has still to settle. -/
def Pc.Ahead : Pc → String → Prop
  | .putCheck .., _ | .putOnline _, _ | .putOffline .., _ => True
  | .putLoop _ todo, a => a ∈ todo
  | .fitLoop _ todo, a | .fitReread _ _ todo, a => a ∈ todo.map (·.agentId)
  | .autoModels b _, a => a = b
  | .setting b _ stage next, a =>
    (a = b ∧ (stage = .acquire ∨ stage = .delete ∨ stage = .insert)) ∨ next.Ahead a
  | _, _ => False

/-- The agent whose assignments the next step reads for a decision. -/
def Pc.reads : Pc → Option String
  | .putCheck _ _ (x :: _) => some x.agentId
  | .putLoop _ (a :: _) => some a
  | .fitLoop _ (x :: _) => some x.agentId
  | .autoDesired a _ => some a
  | _ => none

/-- A PUT between its first liveness query and its last. -/
def Pc.choosing : Pc → Bool
  | .putCheck .. | .putOnline _ | .putOffline .. => true
  | _ => false

def Pc.isSetting : Pc → Bool
  | .setting .. => true
  | _ => false

/-- The entries before an operation's own, all of them while it has none. -/
def before (es : List Entry) (i : ℕ) : List Entry := es.takeWhile fun e => e.id ≠ some i

namespace State

def Ahead (s : State) (i : ℕ) (a : String) : Prop := ∃ pc, s.procs i = some pc ∧ pc.Ahead a

/-- Every operation begun earlier has settled the agent. -/
def Clear (s : State) (i : ℕ) (a : String) : Prop :=
  ∀ j op, .op j op ∈ before s.order i → ¬ s.Ahead j a

/-- Every live agent is in one of the two liveness views of the PUT. -/
def Covers (env : Env) (s : State) (p : Put) (online : List String) : Prop :=
  ∀ r ∈ s.working.agents, r.revokedAt = none →
    r.agentId ∈ online ∨ offline env.cfg p.now r = true

def Undisturbed (env : Env) (s : State) : Act → Prop
  | .run i => ∀ pc, s.procs i = some pc →
      (∀ a, pc.reads = some a → s.Clear i a) ∧
      ∀ p online, pc = .putOffline p online → s.Covers env p online
  | .enroll _ => ∀ j pc, s.procs j = some pc → pc.choosing = false
  | _ => True

end State

/-! ### Where a coroutine stands -/

section
variable (env : Env) (db : Db) (R : String → Set String → Prop)

/-- The check lets the target pass. -/
def Passes (p : Put) (m : ModelManifest) (x : AgentSnapshot) (v : Set String) : Prop :=
  p.modelId ∈ v ∨ (modelFit m (env.capacity x)).fits = true

/-- The check passed, on sets that `R` allows. -/
def Checked (p : Put) : Prop :=
  ∀ m, getManifest env db p.modelId = some m →
    ∀ x ∈ checkList env db p, ∃ v, R x.agentId v ∧ Passes env p m x v

/-- What is known of an operation that began against `db`, by what it does next; `R a v` holds of the
    sets it may have read. -/
inductive Stands : Op → Pc → Prop where
  | putCheck {p : Put} {m : ModelManifest} {left : List AgentSnapshot}
      (manifest : getManifest env db p.modelId = some m) (passed : List AgentSnapshot)
      (list : checkList env db p = passed ++ left)
      (check : ∀ x ∈ passed, ∃ v, R x.agentId v ∧ Passes env p m x v) :
      Stands (.put p) (.putCheck p m left)
  | putOnline {p : Put} (check : Checked env db R p) : Stands (.put p) (.putOnline p)
  | putOffline {p : Put} {online : List String} (check : Checked env db R p)
      (found : ∀ a ∈ online, registered db a) : Stands (.put p) (.putOffline p online)
  | putLoop {p : Put} {todo : List String} (check : Checked env db R p) (nodup : todo.Nodup)
      (found : ∀ a ∈ todo, a ∈ p.agentIds ∨ registered db a) : Stands (.put p) (.putLoop p todo)
  | putReturned {p : Put} {resp : Option FitAssignmentResponse} (check : Checked env db R p) :
      Stands (.put p) (.returned resp)
  | fitLoop {f : Sweep} {todo : List AgentSnapshot} {now : ℤ}
      (manifest : getManifest env db f.modelId = some f.manifest)
      (nodup : (todo.map (·.agentId)).Nodup) (found : ∀ x ∈ todo, x ∈ snapshots env.cfg db now) :
      Stands (.fit f.modelId now) (.fitLoop f todo)
  | fitReread {f : Sweep} {a : String} {todo : List AgentSnapshot} {now : ℤ}
      (manifest : getManifest env db f.modelId = some f.manifest)
      (nodup : (todo.map (·.agentId)).Nodup) (found : ∀ x ∈ todo, x ∈ snapshots env.cfg db now) :
      Stands (.fit f.modelId now) (.fitReread f a todo)
  | fitOffline {f : Sweep} {l : List String} {now : ℤ}
      (manifest : getManifest env db f.modelId = some f.manifest) :
      Stands (.fit f.modelId now) (.fitOffline f l)
  | fitReturned {modelId : String} {now : ℤ} {m : ModelManifest}
      {resp : Option FitAssignmentResponse} (manifest : getManifest env db modelId = some m) :
      Stands (.fit modelId now) (.returned resp)
  | autoModels {b : String} {caps : DeviceCaps} (read : R b ∅) :
      Stands (.autoAssign b caps) (.autoModels b caps)
  | autoReturned {b : String} {caps : DeviceCaps} {resp : Option FitAssignmentResponse} :
      Stands (.autoAssign b caps) (.returned resp)
  | setting {op : Op} {a : String} {ms : List String} {stage : SetPc} {next : Pc}
      (after : Stands op next) (once : next.isSetting = false) (settles : ¬ next.Ahead a)
      (v : Set String) (read : R a v)
      (wrote : written db a ms = op.effect env db a v)
      (auto : ∀ b caps, op = .autoAssign b caps → v = ∅) :
      Stands op (.setting a ms stage next)

/-- What is known of an operation that has not begun. -/
inductive Waits : Op → Pc → Prop where
  | putManifest (p : Put) : Waits (.put p) (.putManifest p)
  | putSnapshots {p : Put} {m : ModelManifest} (manifest : getManifest env db p.modelId = some m) :
      Waits (.put p) (.putSnapshots p m)
  | fitManifest (modelId : String) (now : ℤ) : Waits (.fit modelId now) (.fitManifest modelId now)
  | fitSnapshots {modelId : String} {m : ModelManifest} {now : ℤ}
      (manifest : getManifest env db modelId = some m) :
      Waits (.fit modelId now) (.fitSnapshots modelId m now)
  | autoDesired (b : String) (caps : DeviceCaps) : Waits (.autoAssign b caps) (.autoDesired b caps)
  | raised (op : Op) (e : RouteError) : Waits op (.raised e)

end

variable {env : Env} {db db₀ : Db} {R R' : String → Set String → Prop} {s s' : State} {i j : ℕ}
  {op : Op} {pc pc' : Pc} {pre post : List Entry} {a : String}

theorem Checked.mono (h : Checked env db R p) (hR : ∀ a v, R a v → R' a v) :
    Checked env db R' p := by
  intro m hm x hx
  obtain ⟨v, hr, hp⟩ := h m hm x hx
  exact ⟨v, hR _ _ hr, hp⟩

/-- What has been read stays read. -/
theorem Stands.mono (h : Stands env db R op pc) (hR : ∀ a v, R a v → R' a v) :
    Stands env db R' op pc := by
  induction h with
  | putCheck hm done hl hc =>
    refine .putCheck hm done hl fun x hx => ?_
    obtain ⟨v, hr, hp⟩ := hc x hx
    exact ⟨v, hR _ _ hr, hp⟩
  | putOnline hc => exact .putOnline (hc.mono hR)
  | putOffline hc ho => exact .putOffline (hc.mono hR) ho
  | putLoop hc hn ht => exact .putLoop (hc.mono hR) hn ht
  | putReturned hc => exact .putReturned (hc.mono hR)
  | fitLoop hm hn ht => exact .fitLoop hm hn ht
  | fitReread hm hn ht => exact .fitReread hm hn ht
  | fitOffline hm => exact .fitOffline hm
  | fitReturned hm => exact .fitReturned hm
  | autoModels hr => exact .autoModels (hR _ _ hr)
  | autoReturned => exact .autoReturned
  | setting _ ho ha v hr hw hauto ih => exact .setting ih ho ha v (hR _ _ hr) hw hauto

theorem Waits.congr (h : Waits env db op pc) (hm : db.models = db'.models) :
    Waits env db' op pc := by
  have hget : ∀ m, getManifest env db m = getManifest env db' m := by
    intro m; rw [getManifest, getManifest, hm]
  cases h with
  | putManifest p => exact .putManifest p
  | putSnapshots h => exact .putSnapshots ((hget _).symm.trans h)
  | fitManifest m now => exact .fitManifest m now
  | fitSnapshots h => exact .fitSnapshots ((hget _).symm.trans h)
  | autoDesired b caps => exact .autoDesired b caps
  | raised op e => exact .raised op e

/-! ### The invariant -/

/-- The sets an operation with `pre` before it may have read: serial ones, of settled agents. -/
def Reads (env : Env) (db₀ : Db) (s : State) (pre : List Entry) (a : String) (v : Set String) : Prop :=
  heldAfter env db₀ pre a = v ∧ ∀ j op, .op j op ∈ pre → ¬ s.Ahead j a

structure Inv (env : Env) (db₀ : Db) (s : State) : Prop where
  keyed : Table.Keyed AgentRow.agentId s.working.agents
  same : SameView s.working (view db₀ s.order)
  nodup : (s.order.filterMap Entry.id).Nodup
  procs : ∀ i pc, s.procs i = some pc → ∃ op, s.ops i = some op ∧
    (.op i op ∈ s.order ∨ Waits env s.working op pc ∧ ∀ o, .op i o ∉ s.order)
  order : ∀ pre i op post, s.order = pre ++ .op i op :: post → ∃ pc, s.procs i = some pc ∧
    s.ops i = some op ∧ Stands env (view db₀ pre) (Reads env db₀ s pre) op pc ∧
    (pc.choosing = true → ∀ row, .enroll row ∉ post)
  pipelined : ∀ a, Pipelined (s.Ahead · a) (updates env a db₀ s.order)
  table : ∀ a, (∀ j ms next, s.procs j ≠ some (.setting a ms .insert next)) →
    held s.working a = value (s.Ahead · a) (updates env a db₀ s.order) (held db₀ a)
  emptied : ∀ j a ms next, s.procs j = some (.setting a ms .insert next) → held s.working a = ∅
  lock : ∀ j, s.lock = some j ↔
    ∃ a ms stage next, s.procs j = some (.setting a ms stage next) ∧ stage ≠ .acquire
  synced : (∀ j a ms stage next, s.procs j = some (.setting a ms stage next) →
    stage ≠ .insert ∧ stage ≠ .commit) → s.committed.assignments = s.working.assignments

theorem Inv.start (hk : Table.Keyed AgentRow.agentId db₀.agents) :
    Inv env db₀ (State.start db₀) where
  keyed := hk
  same := ⟨rfl, rfl⟩
  nodup := nodup_nil
  procs := nofun
  order := fun pre _ _ _ h => by cases pre <;> cases h
  pipelined := fun _ => List.Pairwise.nil
  table := fun _ _ => rfl
  emptied := nofun
  lock := fun _ => ⟨fun h => by (cases h), fun ⟨_, _, _, _, h, _⟩ => by (cases h)⟩
  synced := fun _ => rfl

/-! ### Entries and their places -/

/-- The place of an operation in the history. -/
theorem before_split (hn : ((pre ++ .op i op :: post).filterMap Entry.id).Nodup) :
    before (pre ++ .op i op :: post) i = pre := by
  have hpre : ∀ e ∈ pre, decide (e.id ≠ some i) = true := by
    intro e he
    rw [filterMap_append] at hn
    refine decide_eq_true fun hid => ?_
    exact (nodup_append.mp hn).2.2 i (mem_filterMap.mpr ⟨e, he, hid⟩) i
      (mem_filterMap.mpr ⟨_, mem_cons_self, rfl⟩) rfl
  rw [before, takeWhile_append_of_pos hpre, takeWhile_cons_of_neg (by simp [Entry.id]), append_nil]

theorem before_of_not_mem (h : ∀ o, .op i o ∉ es) : before es i = es := by
  refine takeWhile_eq_self_iff.mpr fun e he => decide_eq_true fun hid => ?_
  cases e with
  | op j o => exact h o (by rw [show i = j from (Option.some.inj hid).symm]; exact he)
  | beat => cases hid
  | enroll => cases hid

/-- The operation at a place, and its coroutine. -/
theorem Inv.at_place (h : Inv env db₀ s) (hs : s.order = pre ++ .op i op :: post)
    (hp : s.procs i = some pc) : s.ops i = some op ∧
      Stands env (view db₀ pre) (Reads env db₀ s pre) op pc ∧
      (pc.choosing = true → ∀ row, .enroll row ∉ post) := by
  obtain ⟨pc', hp', hop, hst, hc⟩ := h.order pre i op post hs
  obtain rfl := Option.mem_unique hp' hp
  exact ⟨hop, hst, hc⟩

end Fallow.App.Assign
